import CitraStream.Links
import Mathlib.Algebra.Order.BigOperators.Group.Finset

/-!
# The viewer

The peer of the stream is not part of this repository. `receive` decodes one message the way the
protocol describes: `FULL` sets the picture, `DIFF` lays the packed blocks over the blocks its
bitmap marks, a checkerboard half with code `3 + p` sets the pixels with `x + y + p` even from the
interlaced samples, and `NONE` keeps the picture. A `Session` runs the pump and a viewer that takes
every message the socket carries.

`lastImage` is the picture the pump assumes the viewer shows. The first `FULL` makes it so, and
`NONE` and `DIFF` keep it so (`Sends.synced`); while it holds, every block the viewer shows after
such a call is within `MIN_SQDIFF` of the frame. A forced `FULL`, which leaves `lastImage` as it
was, and a checkerboard half, which sends half the pixels of a frame `imageDiff` may have copied
whole, part the two; a later `NONE` can then leave the viewer far from the frame. The viewer itself
is right after a pair, though: two halves of one frame show that frame on the whole raster
(`checker_pair_shows_frame`).
-/

namespace CitraStream

/-- Modelled from the spec: the picture a viewer shows after decoding `msg` over `P`, the decoder
being lossless. -/
def receive (P : Picture) : Message → Picture
  | .none => P
  | .full image => image.picture 240
  | .diff map packed => replayDiff 240 map packed P
  | .checker dataType image => fun y x ch =>
    if (x + y + (dataType - 3)) % 2 = 0 then image.picture 120 y (x / 2) ch else P y x ch

/-- Modelled from the spec: the viewer decodes the message of a call when the socket carried it. -/
def watch (P : Picture) (o : Outcome) : Picture :=
  match o.sent, o.delivered with
  | some (_, msg), true => receive P msg
  | _, _ => P

/-- What the viewer shows after a call with frame `f` from `s` in mode `m`: the frame for `FULL`,
the frame on the blocks dirty against the reference for `DIFF`, the frame on the pixels of the
current phase for a checkerboard half, and the old picture for `NONE`. -/
def PumpState.viewAfter (s : PumpState) (f : Buffer) (P : Picture) : FrameMode → Picture
  | .none => P
  | .full => f.picture 240
  | .diff => fun y x ch =>
    if blockDirty s.reference (f.picture 240) (blockAt 240 y x) then f.picture 240 y x ch
    else P y x ch
  | .checker | .checkerCompl => fun y x ch =>
    if (x + y + s.checker) % 2 = 0 then f.picture 240 y x ch else P y x ch

theorem dirty_eq_blockDirty {L C : Buffer} {k : Nat} :
    dirty L C 240 k = blockDirty (L.picture 240) (C.picture 240) k := rfl

/-- A byte of a block bounds the block's sum from below. -/
theorem byteDiff_le_blockSum {P Q : Picture} {w k r c ch : Nat} (hr : r < 8) (hc : c < 8)
    (hch : ch < 3) :
    byteDiff (P (blockRow w k + r) (blockCol w k + c) ch) (Q (blockRow w k + r) (blockCol w k + c) ch)
      ≤ blockSum P Q w k := by
  unfold blockSum
  refine le_trans ?_ (CanonicallyOrderedAddCommMonoid.single_le_sum (M := ℕ) (Finset.mem_range.2 hr))
  refine le_trans ?_ (CanonicallyOrderedAddCommMonoid.single_le_sum (M := ℕ) (Finset.mem_range.2 hc))
  exact CanonicallyOrderedAddCommMonoid.single_le_sum
    (f := fun ch => byteDiff (P _ _ ch) (Q _ _ ch)) (Finset.mem_range.2 hch)

section Decode

variable {s s' : PumpState} {f : Buffer} {m : FrameMode} {msg : Message}

/-- Whatever path a call takes, the viewer decoding its message shows `viewAfter`. -/
theorem Sends.receive (hs : Sound s) (hf : f.size = 240 * 320 * 3) (h : Sends s f m msg s')
    (P : Picture) : Agree 240 320 (CitraStream.receive P msg) (s.viewAfter f P m) := by
  intro y hy x hx ch hch
  cases h with
  | first _ hi | refresh _ _ hi =>
    rw [Buffer.slice_of_le (by omega), Option.some.injEq] at hi
    subst hi
    simp [CitraStream.receive, PumpState.viewAfter, Buffer.picture]
  | unchanged => rfl
  | diff hL _ hd hn hp =>
    have hpr := imageDiff_spec (fits_of_sound hs hL hf) hd
    have hr := hpr.report (fits_of_sound hs hL hf)
    have hbit := hr.bits _ (blockAt_lt hy hx (by decide) (by decide))
    rw [Buffer.slice_of_le (by rw [hpr.buf_size, hs.buf_size]; omega), Option.some.injEq] at hp
    subst hp
    simp only [CitraStream.receive, replayDiff, PumpState.viewAfter, hbit, reference_of_some hL,
      Nat.zero_add, ← dirty_eq_blockDirty]
    split_ifs with hd'
    · have hre := hr.replay y hy x hx ch hch
      rw [hr.last y hy x hx ch hch, if_pos hd'] at hre
      simpa only [replayDiff, hbit, if_pos hd'] using hre
    · rfl
  | compl _ _ hr | checker _ _ _ _ hr =>
    obtain ⟨_, hr', -, hpix⟩ := @checkerboard_spec f (interlaceBuffer 240 320) 240 320 _
      (by decide) hs.checker_le hf rfl
    rw [hr', Option.some.injEq] at hr
    subst hr
    simp only [CitraStream.receive, PumpState.viewAfter, Nat.add_sub_cancel_left]
    split_ifs with hp
    · rw [hpix y hy (x / 2) (by omega) ch hch]
      congr 1; omega
    · rfl

/-- `NONE` and `DIFF` keep a viewer that shows `lastImage` showing it. -/
theorem Sends.synced (hs : Sound s) (hf : f.size = 240 * 320 * 3) (h : Sends s f m msg s')
    (hm : m = .none ∨ m = .diff) {P : Picture} (hP : Agree 240 320 P s.reference) :
    Agree 240 320 (CitraStream.receive P msg) s'.reference := by
  intro y hy x hx ch hch
  have hk := blockAt_lt hy hx (by decide) (by decide : 8 ∣ 320)
  have hv := h.receive hs hf P y hy x hx ch hch
  have hr := (h.reference hs hf).2 y hy x hx ch hch
  rw [hv, hr]
  rcases hm with rfl | rfl <;> cases h
  case unchanged L st hL hm hd hn =>
    have hc := (imageDiff_spec (fits_of_sound hs hL hf) hd).count
    rw [hn, eq_comm, dirtyCount, List.countP_eq_zero] at hc
    have hclean := hc _ (List.mem_range.2 hk)
    rw [dirty_eq_blockDirty] at hclean
    simp only [PumpState.viewAfter, PumpState.nextReference, hL, hm, ↓reduceIte, refreshBlocks,
      hclean, Bool.false_eq_true]
    exact (reference_of_some hL ▸ hP) y hy x hx ch hch
  case diff L _ _ hL hm _ _ _ =>
    simp only [PumpState.viewAfter, PumpState.nextReference, hL, hm, ↓reduceIte, refreshBlocks,
      reference_of_some hL]
    split_ifs
    · rfl
    · exact (reference_of_some hL ▸ hP) y hy x hx ch hch

/-- After `imageDiff` has run, a picture that agrees with `lastImage` is within `MIN_SQDIFF` of
the frame on every block. -/
theorem Sends.blockSum_le (hs : Sound s) (hf : f.size = 240 * 320 * 3) (h : Sends s f m msg s')
    (hm : m = .none ∨ m = .diff) {V : Picture} (hV : Agree 240 320 V s'.reference) {k : Nat}
    (hk : k < 1200) : blockSum V (f.picture 240) 240 k ≤ minSqDiff := by
  obtain ⟨L, hL, hfm⟩ : ∃ L, s.lastImage = some L ∧ forcedMode s = .none := by
    rcases hm with rfl | rfl <;> cases h <;> exact ⟨_, ‹_›, ‹_›⟩
  have hd : blockDirty V (f.picture 240) k = false := by
    rw [blockDirty_congr (fun y hy x hx ch hch => (hV y hy x hx ch hch).trans
      ((h.reference hs hf).2 y hy x hx ch hch)) (fun _ _ _ _ _ _ => rfl) hk]
    simp only [PumpState.nextReference, hL, hfm, ↓reduceIte, blockDirty_refreshBlocks]
  simpa [blockDirty] using hd

end Decode

theorem selector_checker (s : PumpState) : s.selector.checker = s.checker := rfl

/-- The pump and a viewer on the other end of its socket. -/
structure Session where
  pump : Pump
  viewer : Picture

namespace Session

/-- One call of the callback, and the viewer taking what the socket carried. -/
def step (S : Session) (c : Call) : Session :=
  ⟨(S.pump.step c).1, watch S.viewer (S.pump.step c).2⟩

/-- The session after a sequence of calls. -/
def run : Session → List Call → Session
  | S, [] => S
  | S, c :: cs => run (S.step c) cs

/-- The viewer shows `lastImage`. -/
def Synced (S : Session) : Prop :=
  S.pump.1.lastImage.isSome ∧ Agree 240 320 S.viewer S.pump.1.reference

@[simp] theorem step_pump (S : Session) (c : Call) : (S.step c).pump = (S.pump.step c).1 := rfl

theorem run_pump (S : Session) (cs : List Call) : (S.run cs).pump = S.pump.run cs := by
  induction cs generalizing S with
  | nil => rfl
  | cons c cs ih => exact ih (S.step c)

theorem run_append (S : Session) (cs ds : List Call) : S.run (cs ++ ds) = (S.run cs).run ds := by
  induction cs generalizing S with
  | nil => rfl
  | cons c cs ih => exact ih (S.step c)

/-- A poll sends nothing: the viewer keeps its picture and the pump its reference. -/
theorem step_poll_synced (S : Session) {c : Call} (hc : c.frame = none) (hS : S.Synced) :
    (S.step c).Synced := by
  obtain ⟨h₁, h₂⟩ := S.pump.step_poll hc
  have hv : (S.step c).viewer = S.viewer := by simp only [step, watch, h₂]
  rw [Synced, step_pump, h₁, hv, reference_setWait, setWait_lastImage]
  exact hS

/-- A call with a frame on a connected socket: the path it takes, and the viewer decoding its
message. -/
theorem step_receive (S : Session) {c : Call} {f : Frame} (hc : c.frame = some f)
    (hconn : c.link.connected = true) :
    ∃ m msg s', Sends S.pump.1 f.1 m msg s' ∧
      (S.step c).pump.1 = s'.setWait (maintainConnection S.pump.1.waitConnection true).1 ∧
      (S.pump.step c).2.mode = some m ∧ (S.step c).viewer = CitraStream.receive S.viewer msg := by
  obtain ⟨m, msg, s', hsends, h₁, h₂⟩ := S.pump.step_frame hc
  refine ⟨m, msg, s', hsends, by rw [step_pump, h₁, hconn], by simp [Outcome.mode, h₂], ?_⟩
  simp only [step, watch, h₂, Link.up, hconn, Bool.true_or]

/-- The viewer after a call with a frame on a connected socket shows `viewAfter` of its mode. -/
theorem step_viewAfter (S : Session) {c : Call} {f : Frame} (hc : c.frame = some f)
    (hconn : c.link.connected = true) :
    ∃ m, (S.pump.step c).2.mode = some m ∧
      Agree 240 320 (S.step c).viewer (S.pump.1.viewAfter f.1 S.viewer m) := by
  obtain ⟨m, msg, s', hsends, -, hm, hv⟩ := S.step_receive hc hconn
  exact ⟨m, hm, hv ▸ hsends.receive S.pump.2 f.2 S.viewer⟩

/-- The first frame, sent `FULL` on a connected socket, makes the viewer show `lastImage`. -/
theorem step_first_synced (S : Session) {c : Call} (hL : S.pump.1.lastImage = none)
    (hc : c.frame.isSome) (hconn : c.link.connected = true) : (S.step c).Synced := by
  obtain ⟨f, hf⟩ := Option.isSome_iff_exists.1 hc
  obtain ⟨m, msg, s', hsends, h₁, -, hv⟩ := S.step_receive hf hconn
  have hr := hsends.reference S.pump.2 f.2
  have hrecv := hsends.receive S.pump.2 f.2 S.viewer
  cases hsends with
  | first =>
    refine ⟨by rw [h₁]; exact hr.1, fun y hy x hx ch hch => ?_⟩
    rw [hv, h₁, reference_setWait, hr.2 y hy x hx ch hch, hrecv y hy x hx ch hch]
    simp [PumpState.viewAfter, PumpState.nextReference, hL]
  | refresh hL' | compl hL' | unchanged hL' | diff hL' | checker hL' => simp [hL] at hL'

/-- A call on a connected socket that sends `NONE` or `DIFF`, or polls, keeps the viewer on
`lastImage`, and after a frame every block it shows is within `MIN_SQDIFF` of that frame. -/
theorem step_synced (S : Session) {c : Call} (hconn : c.link.connected = true) (hS : S.Synced)
    (hm : (S.pump.step c).2.mode = none ∨ (S.pump.step c).2.mode = some .none ∨
      (S.pump.step c).2.mode = some .diff) :
    (S.step c).Synced ∧ ∀ f, c.frame = some f → ∀ k < 1200,
      blockSum (S.step c).viewer (f.1.picture 240) 240 k ≤ minSqDiff := by
  cases hc : c.frame with
  | none => exact ⟨S.step_poll_synced hc hS, fun _ h => nomatch h⟩
  | some f =>
    obtain ⟨m, msg, s', hsends, h₁, hmode, hv⟩ := S.step_receive hc hconn
    have hm' : m = .none ∨ m = .diff := by
      rw [hmode] at hm; simpa using hm
    have hag : Agree 240 320 (S.step c).viewer (S.step c).pump.1.reference := by
      rw [hv, h₁, reference_setWait]
      exact hsends.synced S.pump.2 f.2 hm' hS.2
    refine ⟨⟨by rw [h₁]; exact (hsends.reference S.pump.2 f.2).1, hag⟩, fun f' hf' k hk => ?_⟩
    cases hf'
    rw [h₁, reference_setWait] at hag
    exact hsends.blockSum_le S.pump.2 f.2 hm' hag hk

/-- Over calls on a connected socket that send only `NONE` or `DIFF`, a viewer on `lastImage`
stays on it. -/
theorem run_synced (S : Session) {cs : List Call} (hconn : ∀ c ∈ cs, c.link.connected = true)
    (hm : ∀ x ∈ S.pump.trace cs, x.2.mode = none ∨ x.2.mode = some .none ∨
      x.2.mode = some .diff) (hS : S.Synced) : (S.run cs).Synced := by
  induction cs generalizing S with
  | nil => exact hS
  | cons c cs ih =>
    simp only [Pump.trace_cons, List.mem_cons, forall_eq_or_imp] at hm
    exact ih (S.step c) (fun c' hc' => hconn c' (List.mem_cons_of_mem c hc')) hm.2
      (S.step_synced (hconn c (List.mem_cons_self c cs)) hS hm.1).1

/-- A checkerboard half on a connected socket flips the phase, puts the frame on the pixels of the
old phase and leaves the viewer's other pixels. -/
theorem step_checker (S : Session) {c : Call} {f : Frame} (hc : c.frame = some f)
    (hconn : c.link.connected = true)
    (hm : (S.pump.step c).2.mode = some .checker ∨ (S.pump.step c).2.mode = some .checkerCompl) :
    (S.step c).pump.1.checker = (S.pump.1.checker + 1) % 2 ∧
      Agree 240 320 (S.step c).viewer fun y x ch =>
        if (x + y + S.pump.1.checker) % 2 = 0 then f.1.picture 240 y x ch else S.viewer y x ch := by
  obtain ⟨m, msg, s', hsends, h₁, hmode, hv⟩ := S.step_receive hc hconn
  have hrecv := hv ▸ hsends.receive S.pump.2 f.2 S.viewer
  rw [hmode] at hm
  rcases hm with h | h <;> cases Option.some.inj h <;> cases hsends <;>
    exact ⟨by rw [h₁, setWait_checker]; exact Nat.and_one_is_mod _, hrecv⟩

end Session

/-- With the socket connected at every call, the viewer shows `lastImage` from the first `FULL` of
the process on, and a run of `NONE` and `DIFF` messages keeps it so; while it does, after every
call with a frame each block the viewer shows is within `MIN_SQDIFF` of that frame. -/
theorem viewer_tracks_reference :
    (∀ (P : Picture) (polls : List Call) (c : Call), (∀ c' ∈ polls, c'.frame = none) →
      c.frame.isSome → c.link.connected = true →
      (Session.run ⟨Pump.init, P⟩ (polls ++ [c])).Synced) ∧
    (∀ (S : Session) (cs : List Call), S.Synced → (∀ c ∈ cs, c.link.connected = true) →
      (∀ x ∈ S.pump.trace cs, x.2.mode = none ∨ x.2.mode = some .none ∨
        x.2.mode = some .diff) →
      (S.run cs).Synced ∧ ∀ pre c post f, cs = pre ++ c :: post → c.frame = some f →
        ∀ k < 1200, blockSum ((S.run pre).step c).viewer (f.1.picture 240) 240 k ≤ minSqDiff) := by
  refine ⟨fun P polls c hpolls hc hconn => ?_, fun S cs hS hconn hm => ⟨S.run_synced hconn hm hS,
    fun pre c post f hcs hf => ?_⟩⟩
  · rw [Session.run_append]
    refine Session.step_first_synced _ ?_ hc hconn
    rw [Session.run_pump, Pump.run_polls_lastImage _ hpolls]
    rfl
  · subst hcs
    rw [Pump.trace_append, Pump.trace_cons] at hm
    have hpre := (S.run pre).step_synced (hconn c (by simp))
      (S.run_synced (fun c' hc' => hconn c' (by simp [hc'])) (fun x hx => hm x (by simp [hx])) hS)
      (by rw [Session.run_pump]; exact hm _ (by simp))
    exact hpre.2 f hf

/-- The first black frame, then another on a connected socket: the second goes out as `NONE`, and
every block the viewer then shows is within `MIN_SQDIFF` of it. -/
theorem second_black_frame_tracked :
    ((Session.run ⟨Pump.init, fun _ _ _ => 0⟩ [solidCall 0]).pump.step (solidCall 0)).2.mode =
        some .none ∧
      ∀ k < 1200, blockSum ((Session.run ⟨Pump.init, fun _ _ _ => 0⟩ [solidCall 0]).step
        (solidCall 0)).viewer ((solidFrame 0).1.picture 240) 240 k ≤ minSqDiff := by
  obtain ⟨hσ, href, -⟩ := Pump.init_step_solid (c := solidCall 0) rfl
  obtain ⟨-, -, hm, -⟩ := Pump.step_solid _ (c := solidCall 0) rfl hσ href
  have hnone : ((Session.run ⟨Pump.init, fun _ _ _ => 0⟩ [solidCall 0]).pump.step
      (solidCall 0)).2.mode = some .none := by
    rw [show (Session.run ⟨Pump.init, fun _ _ _ => 0⟩ [solidCall 0]).pump =
      (Pump.init.step (solidCall 0)).1 from rfl, hm]
    decide
  obtain ⟨hfirst, hnext⟩ := viewer_tracks_reference
  refine ⟨hnone, (hnext (Session.run ⟨Pump.init, fun _ _ _ => 0⟩ [solidCall 0]) [solidCall 0]
    (hfirst _ [] (solidCall 0) nofun rfl rfl) (by simp [solidCall]) ?_).2 [] (solidCall 0) []
    (solidFrame 0) rfl rfl⟩
  simp only [Pump.trace_cons, Pump.trace_nil, List.mem_singleton, forall_eq]
  exact .inr (.inl hnone)

/-- A checkerboard pair leaves the viewer on an interlace of two frames while `lastImage` holds
the first whole: black, white, black, white on a connected socket (the viewer starting black), and
the fourth call sends `NONE` while every other pixel of the viewer is black. -/
theorem stale_blocks_after_checker_pair :
    let S := Session.run ⟨Pump.init, fun _ _ _ => 0⟩ [solidCall 0, solidCall 255, solidCall 0]
    (S.pump.step (solidCall 255)).2.mode = some .none ∧
      minSqDiff < blockSum (S.step (solidCall 255)).viewer ((solidFrame 255).1.picture 240) 240 0 := by
  obtain ⟨h₁σ, h₁r, -⟩ := Pump.init_step_solid (c := solidCall 0) rfl
  obtain ⟨h₂σ, h₂r, -⟩ := Pump.step_solid _ (c := solidCall 255) rfl h₁σ h₁r
  obtain ⟨h₃σ, h₃r, h₃m, -⟩ := Pump.step_solid _ (c := solidCall 0) rfl h₂σ h₂r
  obtain ⟨-, -, h₄m, -⟩ := Pump.step_solid _ (c := solidCall 255) rfl h₃σ h₃r
  have hck : ((Pump.init.step (solidCall 0)).1.step (solidCall 255)).1.1.checker = 1 := by
    rw [← selector_checker, h₂σ]; decide
  simp only [Session.run]
  set S₂ : Session :=
    (Session.step ⟨Pump.init, fun _ _ _ => 0⟩ (solidCall 0)).step (solidCall 255)
  obtain ⟨m₃, hm₃, hv₃⟩ := S₂.step_viewAfter (c := solidCall 0) rfl rfl
  obtain ⟨m₄, hm₄, hv₄⟩ := (S₂.step (solidCall 0)).step_viewAfter (c := solidCall 255) rfl rfl
  simp only [S₂, Session.step_pump] at hm₃ hm₄ hv₃ hv₄ ⊢
  rw [h₃m, Option.some.injEq] at hm₃
  rw [h₄m, Option.some.injEq] at hm₄
  have h₃ : m₃ = .checkerCompl := by rw [← hm₃]; decide
  have h₄ : m₄ = .none := by rw [← hm₄]; decide
  refine ⟨by rw [h₄m]; decide, ?_⟩
  have hpix := hv₄ 0 (by decide) 1 (by decide) 0 (by decide)
  rw [h₄, PumpState.viewAfter, hv₃ 0 (by decide) 1 (by decide) 0 (by decide), h₃,
    PumpState.viewAfter, hck] at hpix
  simp only [↓reduceIte, solidFrame_picture] at hpix
  refine lt_of_lt_of_le ?_ (byteDiff_le_blockSum (show 0 < 8 by decide) (show 1 < 8 by decide)
    (show 0 < 3 by decide))
  rw [show blockRow 240 0 + 0 = 0 from rfl, show blockCol 240 0 + 1 = 1 from rfl, hpix]
  decide

/-- Two checkerboard halves of one frame in a row on a connected socket leave the viewer showing
that frame on the whole raster, whatever it showed before. -/
theorem checker_pair_shows_frame (S : Session) {c₁ c₂ : Call} {f : Frame}
    (h₁ : c₁.frame = some f) (h₂ : c₂.frame = some f)
    (hconn₁ : c₁.link.connected = true) (hconn₂ : c₂.link.connected = true)
    (hm₁ : (S.pump.step c₁).2.mode = some .checker ∨
      (S.pump.step c₁).2.mode = some .checkerCompl)
    (hm₂ : ((S.step c₁).pump.step c₂).2.mode = some .checker ∨
      ((S.step c₁).pump.step c₂).2.mode = some .checkerCompl) :
    Agree 240 320 ((S.step c₁).step c₂).viewer (f.1.picture 240) := by
  obtain ⟨hph, hv₁⟩ := S.step_checker h₁ hconn₁ hm₁
  obtain ⟨-, hv₂⟩ := (S.step c₁).step_checker h₂ hconn₂ hm₂
  have hle := S.pump.2.checker_le
  intro y hy x hx ch hch
  simp only [hv₂ y hy x hx ch hch, hv₁ y hy x hx ch hch, hph]
  split_ifs <;> first | rfl | omega

/-- Black, then white twice on a connected socket, the viewer starting black: the white frames go
out as a checkerboard pair, and the viewer ends on white. -/
theorem white_pair_after_black_shows_white :
    let S := Session.step ⟨Pump.init, fun _ _ _ => 0⟩ (solidCall 0)
    (S.pump.step (solidCall 255)).2.mode = some .checker ∧
      ((S.step (solidCall 255)).pump.step (solidCall 255)).2.mode = some .checkerCompl ∧
      Agree 240 320 ((S.step (solidCall 255)).step (solidCall 255)).viewer fun _ _ _ => 255 := by
  intro S
  obtain ⟨h₁σ, h₁r, -⟩ := Pump.init_step_solid (c := solidCall 0) rfl
  obtain ⟨h₂σ, h₂r, h₂m, -⟩ := Pump.step_solid _ (c := solidCall 255) rfl h₁σ h₁r
  obtain ⟨-, -, h₃m, -⟩ := Pump.step_solid _ (c := solidCall 255) rfl h₂σ h₂r
  have hS : S.pump = (Pump.init.step (solidCall 0)).1 := rfl
  have hm₁ : (S.pump.step (solidCall 255)).2.mode = some .checker := by rw [hS, h₂m]; decide
  have hm₂ : ((S.step (solidCall 255)).pump.step (solidCall 255)).2.mode = some .checkerCompl := by
    rw [Session.step_pump, hS, h₃m]; decide
  exact ⟨hm₁, hm₂, checker_pair_shows_frame S (f := solidFrame 255) rfl rfl rfl rfl (.inl hm₁) (.inr hm₂)⟩

end CitraStream
