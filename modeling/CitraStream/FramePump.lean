import CitraStream.ImageDiff
import CitraStream.Checkerboard
import CitraStream.Transport

/-!
# `GRenderWindow::processFrameData`, the frame pump

The renderer hands every presented frame (or a null pointer, to poll) to `processFrameData`,
which keeps its state in statics: the counters of the mode selector, the connection counter, and
the globals `lastImage`, `diffBuf` and `diffMap` of the differencer. A call runs the connection
maintenance, picks a mode, runs `imageDiff` when neither a forced refresh nor the second half of a
checkerboard pair is due, and writes one message.

`jpegCompress` is not modelled: a message carries the image handed to the encoder, which is what
a lossless decoder gives back. Every buffer access is checked, so `processFrameData_sound` says
that a call on the 240×320 layout of `ConnectCTroll3D` makes no out-of-bounds access.
-/

namespace CitraStream

open Buffer

/-- `FM_NONE`, `FM_FULL`, `FM_DIFF`, `FM_CHECKER`, `FM_CHECKER_COMPL`. -/
inductive FrameMode where
  | none
  | full
  | diff
  | checker
  | checkerCompl
  deriving DecidableEq, Repr

/-- One message of the stream. An image stands for the bytes `jpegCompress` makes of it. -/
inductive Message where
  /-- The two bytes of `frameMode = FM_NONE`. -/
  | none
  /-- Code `FM_FULL`, then the whole frame. -/
  | full (image : Buffer)
  /-- Code `FM_DIFF`, then `diffMap`, then `diffBuf` read as an image 8 wide and `8 numSq` high. -/
  | diff (map packed : Buffer)
  /-- Code `dataType = 3 + checker`, then the half-width interlaced frame. -/
  | checker (dataType : Nat) (image : Buffer)

/-- The first two bytes of a message. -/
def Message.code : Message → Nat
  | .none => 0
  | .full _ => 1
  | .diff _ _ => 2
  | .checker dataType _ => dataType

/-- The statics of `processFrameData` and the globals it works on. `outBuf` and the other
encoder outputs are left out with `jpegCompress`. -/
structure PumpState where
  forceFrameCount : Nat
  checker : Nat
  lastFrameMode : FrameMode
  waitConnection : Nat
  lastImage : Option Buffer
  diffBuf : Buffer
  diffMap : Buffer

/-- The statics at start-up: zeroes, a null `lastImage`, and the zero-filled globals
`diffBuf[240 * 320 * 3]` and `diffMap[((240 / 8) * (320 / 8)) / 8]`. -/
def PumpState.init : PumpState :=
  ⟨0, 0, .none, 0, none, ⟨240 * 320 * 3, fun _ => 0⟩, ⟨240 / 8 * (320 / 8) / 8, fun _ => 0⟩⟩

/-- What a call reports: whether it called `connectToHost`, the mode it picked and the message it
wrote (for a call with a frame), whether the socket was connected to take it, and the return value
of `readConfirmation`. -/
structure Outcome where
  connectAttempt : Bool
  sent : Option (FrameMode × Message)
  delivered : Bool
  confirmation : UInt8

/-- The mode forced before the differencer is asked: a refresh after more than 100 counts, the
second half of a checkerboard pair, or `FM_NONE` for "ask `imageDiff`". -/
def forcedMode (s : PumpState) : FrameMode :=
  if s.forceFrameCount > 100 then .full else if s.lastFrameMode = .checker then .checkerCompl
  else .none

/-- The mode `imageDiff`'s count selects: `CHECKER` past a third of the 1200 blocks. -/
def modeOfCount (numSq : Nat) : FrameMode :=
  if numSq > 240 / 8 * (320 / 8) / 3 then .checker else if numSq > 0 then .diff else .none

theorem modeOfCount_zero : modeOfCount 0 = .none := rfl

theorem modeOfCount_diff {n : Nat} (h₁ : 0 < n) (h₂ : n ≤ 400) : modeOfCount n = .diff := by
  simp only [modeOfCount, if_neg (show ¬ n > 240 / 8 * (320 / 8) / 3 by omega), if_pos h₁]

theorem modeOfCount_checker {n : Nat} (h : 400 < n) : modeOfCount n = .checker :=
  if_pos h

/-- From `frameMode = FM_NONE` to `lastFrameMode = frameMode`: the first frame is copied into a
fresh `lastImage` and sent in full, a forced mode is kept, and otherwise `imageDiff` decides. The
result carries `numSq`. -/
def selectFrameMode (width height : Nat) (s : PumpState) (frameData : Buffer) :
    Option (PumpState × FrameMode × Nat) :=
  match s.lastImage with
  | none => do
    let lastImage ← frameData.slice 0 (width * height * 3)
    pure ({ s with lastImage := some lastImage, lastFrameMode := .full }, .full, 0)
  | some lastImage =>
    if forcedMode s ≠ .full ∧ forcedMode s ≠ .checkerCompl then do
      let st ← imageDiff lastImage frameData s.diffBuf s.diffMap width height
      let s := { s with lastImage := some st.lastImage, diffBuf := st.diffBuf, diffMap := st.diffMap }
      pure ({ s with lastFrameMode := modeOfCount st.numSqDiff }, modeOfCount st.numSqDiff,
        st.numSqDiff)
    else pure ({ s with lastFrameMode := forcedMode s }, forcedMode s, 0)

/-- The interlace buffer, the uninitialised `char buf[width * height * 3 / 2]`. It is given zeroes
here; on an even width every byte of it is written before it is read. -/
def interlaceBuffer (width height : Nat) : Buffer := ⟨width * height * 3 / 2, fun _ => 0⟩

/-- The sends for the chosen mode and the counters they move. -/
def transmit (width height : Nat) (s : PumpState) (frameMode : FrameMode) (numSq : Nat)
    (frameData : Buffer) : Option (PumpState × Message) :=
  match frameMode with
  | .none => pure ({ s with forceFrameCount := s.forceFrameCount + 1 }, .none)
  | .full => do
    let image ← frameData.slice 0 (width * height * 3)
    pure ({ s with forceFrameCount := 0 }, .full image)
  | .diff => do
    let packed ← s.diffBuf.slice 0 (8 * (8 * numSq) * 3)
    pure ({ s with forceFrameCount := s.forceFrameCount + 5 }, .diff s.diffMap packed)
  | .checker | .checkerCompl => do
    let r ← checkerboard frameData (interlaceBuffer width height) width height s.checker
    pure ({ s with checker := (s.checker + 1) &&& 1, forceFrameCount := s.forceFrameCount + 3 },
      .checker (3 + s.checker) r.1)

/-- The part of a call that has a frame: select, then send. It returns the mode and the message. -/
def encodeFrame (width height : Nat) (s : PumpState) (frameData : Buffer) :
    Option (PumpState × FrameMode × Message) := do
  let r ← selectFrameMode width height s frameData
  let t ← transmit width height r.1 r.2.1 r.2.2 frameData
  pure (t.1, r.2.1, t.2)

/-- One call of `processFrameData` on a `width × height` layout, with `frameData` null for a poll. -/
def processFrameData (width height : Nat) (s : PumpState) (frameData : Option Buffer)
    (link : Link) : Option (PumpState × Outcome) :=
  let m := maintainConnection s.waitConnection link.connected
  let s := { s with waitConnection := m.1 }
  match frameData with
  | none => some (s, ⟨m.2, none, link.up m.2, link.reply⟩)
  | some frame => do
    let e ← encodeFrame width height s frame
    pure (e.1, ⟨m.2, some e.2, link.up m.2, link.reply⟩)

/-! ### A call with a frame on the 240×320 layout -/

/-- The buffers have the sizes the code gives them (`lastImage` is `malloc(240 * 320 * 3)`, the
globals their declared sizes) and `checker` is a phase. -/
structure Sound (s : PumpState) : Prop where
  last_size : ∀ L, s.lastImage = some L → L.size = 240 * 320 * 3
  buf_size : s.diffBuf.size = 240 * 320 * 3
  map_size : s.diffMap.size = 240 / 8 * (320 / 8) / 8
  checker_le : s.checker ≤ 1

theorem Sound.init : Sound PumpState.init :=
  ⟨fun _ h => (nomatch h), rfl, rfl, Nat.zero_le 1⟩

theorem forcedMode_cases (s : PumpState) :
    forcedMode s = .full ∨ forcedMode s = .checkerCompl ∨ forcedMode s = .none := by
  unfold forcedMode; split_ifs <;> simp

/-- The paths of a call with frame `f` from `s`: the mode, the message written and the state
after. The first frame is copied into `lastImage` and sent whole; a forced refresh and the second
half of a checkerboard pair leave `lastImage` alone; otherwise `imageDiff` runs and its count picks
`FM_NONE`, `FM_DIFF` or `FM_CHECKER`. -/
inductive Sends (s : PumpState) (f : Buffer) : FrameMode → Message → PumpState → Prop where
  | first {img : Buffer} (hL : s.lastImage = none) (hi : f.slice 0 (240 * 320 * 3) = some img) :
      Sends s f .full (.full img)
        { s with lastImage := some img, lastFrameMode := .full, forceFrameCount := 0 }
  | refresh {L img : Buffer} (hL : s.lastImage = some L) (hm : forcedMode s = .full)
      (hi : f.slice 0 (240 * 320 * 3) = some img) :
      Sends s f .full (.full img) { s with lastFrameMode := .full, forceFrameCount := 0 }
  | compl {L : Buffer} {r : Buffer × Nat} (hL : s.lastImage = some L)
      (hm : forcedMode s = .checkerCompl)
      (hr : checkerboard f (interlaceBuffer 240 320) 240 320 s.checker = some r) :
      Sends s f .checkerCompl (.checker (3 + s.checker) r.1)
        { s with lastFrameMode := .checkerCompl, checker := (s.checker + 1) &&& 1,
                 forceFrameCount := s.forceFrameCount + 3 }
  | unchanged {L : Buffer} {st : DiffState} (hL : s.lastImage = some L) (hm : forcedMode s = .none)
      (hd : imageDiff L f s.diffBuf s.diffMap 240 320 = some st) (hn : st.numSqDiff = 0) :
      Sends s f .none .none
        { s with lastImage := some st.lastImage, diffBuf := st.diffBuf, diffMap := st.diffMap,
                 lastFrameMode := .none, forceFrameCount := s.forceFrameCount + 1 }
  | diff {L packed : Buffer} {st : DiffState} (hL : s.lastImage = some L)
      (hm : forcedMode s = .none) (hd : imageDiff L f s.diffBuf s.diffMap 240 320 = some st)
      (hn : 0 < st.numSqDiff ∧ st.numSqDiff ≤ 400)
      (hp : st.diffBuf.slice 0 (8 * (8 * st.numSqDiff) * 3) = some packed) :
      Sends s f .diff (.diff st.diffMap packed)
        { s with lastImage := some st.lastImage, diffBuf := st.diffBuf, diffMap := st.diffMap,
                 lastFrameMode := .diff, forceFrameCount := s.forceFrameCount + 5 }
  | checker {L : Buffer} {st : DiffState} {r : Buffer × Nat} (hL : s.lastImage = some L)
      (hm : forcedMode s = .none) (hd : imageDiff L f s.diffBuf s.diffMap 240 320 = some st)
      (hn : 400 < st.numSqDiff)
      (hr : checkerboard f (interlaceBuffer 240 320) 240 320 s.checker = some r) :
      Sends s f .checker (.checker (3 + s.checker) r.1)
        { s with lastImage := some st.lastImage, diffBuf := st.diffBuf, diffMap := st.diffMap,
                 lastFrameMode := .checker, checker := (s.checker + 1) &&& 1,
                 forceFrameCount := s.forceFrameCount + 3 }

theorem fits_of_sound {s : PumpState} {L f : Buffer} (hs : Sound s) (hL : s.lastImage = some L)
    (hf : f.size = 240 * 320 * 3) : Fits L f s.diffBuf s.diffMap 240 320 :=
  ⟨by decide, by decide, hs.last_size L hL, hf, by rw [hs.buf_size]; decide,
    by rw [hs.map_size]; decide⟩

/-- Every call with a 240×320 frame from a sound state takes one of the paths of `Sends`; in
particular it makes no out-of-bounds access. -/
theorem encodeFrame_sends {s : PumpState} {f : Buffer} (hs : Sound s)
    (hf : f.size = 240 * 320 * 3) :
    ∃ s' m msg, encodeFrame 240 320 s f = some (s', m, msg) ∧ Sends s f m msg s' := by
  have hi := slice_of_le (show 0 + 240 * 320 * 3 ≤ f.size by omega)
  cases hL : s.lastImage with
  | none => exact ⟨_, _, _, by simp [encodeFrame, selectFrameMode, hL, hi, transmit], .first hL hi⟩
  | some L =>
    obtain ⟨_, hr, -⟩ := @checkerboard_spec f (interlaceBuffer 240 320) 240 320 _
      (by decide) hs.checker_le hf rfl
    rcases forcedMode_cases s with hm | hm | hm
    · exact ⟨_, _, _, by simp [encodeFrame, selectFrameMode, hL, hm, hi, transmit],
        .refresh hL hm hi⟩
    · exact ⟨_, _, _, by simp [encodeFrame, selectFrameMode, hL, hm, transmit, hr],
        .compl hL hm hr⟩
    · obtain ⟨st, hd, hp⟩ := imageDiff_progress (fits_of_sound hs hL hf)
      have hn : st.numSqDiff ≤ 1200 := hp.count ▸ dirtyCount_le
      rcases (show st.numSqDiff = 0 ∨ (0 < st.numSqDiff ∧ st.numSqDiff ≤ 400) ∨
          400 < st.numSqDiff by omega) with hn | hn | hn
      · exact ⟨_, _, _, by simp [encodeFrame, selectFrameMode, hL, hm, hd, hn, modeOfCount_zero,
          transmit], .unchanged hL hm hd hn⟩
      · have hp := slice_of_le (show 0 + 8 * (8 * st.numSqDiff) * 3 ≤ st.diffBuf.size by
          rw [hp.buf_size, hs.buf_size]; omega)
        exact ⟨_, _, _, by simp [encodeFrame, selectFrameMode, hL, hm, hd,
          modeOfCount_diff hn.1 hn.2, transmit, hp], .diff hL hm hd hn hp⟩
      · exact ⟨_, _, _, by simp [encodeFrame, selectFrameMode, hL, hm, hd, modeOfCount_checker hn,
          transmit, hr], .checker hL hm hd hn hr⟩

end CitraStream
