import CitraStream.Selector

/-!
# The reference image

`imageDiff` compares each frame with `lastImage`, the reference, and refreshes only the blocks it
finds dirty. The first frame is copied into it whole; a forced refresh and the second half of a
checkerboard pair send a frame without touching it. `Sends.reference` says which of these a call
did, on the 240×320 raster, and `dirtyFor_eq` that the count the selector sees depends on the
reference only through that raster.

After `imageDiff` has run on a frame, no block of the reference is dirty against that frame any
more (`blockDirty_refreshBlocks`), which is what a static screen converges by.
-/

namespace CitraStream

/-- The picture `lastImage` holds; black while it is null. -/
def PumpState.reference (s : PumpState) : Picture :=
  match s.lastImage with
  | some L => L.picture 240
  | none => fun _ _ _ => 0

/-- Block `k` of `Q` moved past `MIN_SQDIFF` from `P`, on the 240-wide raster. -/
def blockDirty (P Q : Picture) (k : Nat) : Bool := decide (blockSum P Q 240 k > minSqDiff)

/-- What `imageDiff` leaves in `lastImage`: `Q` on the blocks dirty from `P`, `P` elsewhere. -/
def refreshBlocks (P Q : Picture) : Picture := fun y x ch =>
  if blockDirty P Q (blockAt 240 y x) then Q y x ch else P y x ch

/-- The reference a call with frame `f` leaves: the frame itself for the first frame, the refresh of
`imageDiff` when it runs, and the old reference otherwise. -/
def PumpState.nextReference (s : PumpState) (f : Buffer) : Picture :=
  match s.lastImage with
  | none => f.picture 240
  | some L =>
    if forcedMode s = .none then refreshBlocks (L.picture 240) (f.picture 240) else L.picture 240

@[simp] theorem reference_setWait {s : PumpState} {n : Nat} :
    (s.setWait n).reference = s.reference := rfl

theorem reference_of_some {s : PumpState} {L : Buffer} (h : s.lastImage = some L) :
    s.reference = L.picture 240 := by
  simp only [PumpState.reference, h]

section Blocks

variable {P P' Q Q' : Picture} {k : Nat}

/-- The pixels of a block below 1200 lie on the 240×320 raster. -/
theorem block_pixel_lt (hk : k < 1200) {r c : Nat} (hr : r < 8) (hc : c < 8) :
    blockRow 240 k + r < 320 ∧ blockCol 240 k + c < 240 :=
  ⟨by have := blockRow_add_le (w := 240) (h := 320) (by decide) hk; omega,
    by have := blockCol_add_le (w := 240) (h := 320) (by decide) hk; omega⟩

theorem blockSum_congr (hP : Agree 240 320 P P') (hQ : Agree 240 320 Q Q') (hk : k < 1200) :
    blockSum P Q 240 k = blockSum P' Q' 240 k := by
  simp only [blockSum]
  refine Finset.sum_congr rfl fun r hr => Finset.sum_congr rfl fun c hc =>
    Finset.sum_congr rfl fun ch hch => ?_
  obtain ⟨hy, hx⟩ := block_pixel_lt hk (Finset.mem_range.1 hr) (Finset.mem_range.1 hc)
  rw [hP _ hy _ hx _ (Finset.mem_range.1 hch), hQ _ hy _ hx _ (Finset.mem_range.1 hch)]

theorem blockDirty_congr (hP : Agree 240 320 P P') (hQ : Agree 240 320 Q Q') (hk : k < 1200) :
    blockDirty P Q k = blockDirty P' Q' k := by
  simp only [blockDirty, blockSum_congr hP hQ hk]

/-- After the refresh no block is dirty against the frame: a dirty block now holds the frame, and a
clean one was within the threshold. -/
theorem blockDirty_refreshBlocks : blockDirty (refreshBlocks P Q) Q k = false := by
  have hsum : blockSum (refreshBlocks P Q) Q 240 k =
      if blockDirty P Q k then 0 else blockSum P Q 240 k := by
    split_ifs with hd
    · rw [← blockSum_self Q 240 k]
      exact blockSum_congr_left fun r hr c hc ch _ => by simp [refreshBlocks, hr, hc, hd]
    · exact blockSum_congr_left fun r hr c hc ch _ => by simp [refreshBlocks, hr, hc, hd]
  simp only [blockDirty, hsum] at *
  split_ifs with hd <;> simp_all [minSqDiff]

end Blocks

/-- The count the selector sees on frame `f`: the dirty blocks of `f` against the reference. -/
theorem dirtyFor_eq {s : PumpState} {f : Buffer} (h : s.lastImage.isSome) :
    s.dirtyFor f = (List.range 1200).countP (blockDirty s.reference (f.picture 240)) := by
  obtain ⟨L, hL⟩ := Option.isSome_iff_exists.1 h
  simp only [PumpState.dirtyFor, hL, reference_of_some hL, dirtyCount]
  rfl

/-- Where a call leaves the reference: on the raster it is `nextReference`. -/
theorem Sends.reference {s s' : PumpState} {f : Buffer} {m : FrameMode} {msg : Message}
    (hs : Sound s) (hf : f.size = 240 * 320 * 3) (h : Sends s f m msg s') :
    s'.lastImage.isSome ∧ Agree 240 320 s'.reference (s.nextReference f) := by
  cases h with
  | first hL hi =>
    rw [Buffer.slice_of_le (by omega), Option.some.injEq] at hi
    subst hi
    refine ⟨rfl, fun y _ x _ ch _ => ?_⟩
    simp [PumpState.reference, PumpState.nextReference, hL, Buffer.picture]
  | refresh hL hm | compl hL hm =>
    refine ⟨by simp [hL], fun y _ x _ ch _ => ?_⟩
    simp [PumpState.reference, PumpState.nextReference, hL, hm]
  | unchanged hL hm hd | diff hL hm hd | checker hL hm hd =>
    have hr := ((imageDiff_spec (fits_of_sound hs hL hf) hd).report (fits_of_sound hs hL hf)).last
    refine ⟨rfl, fun y hy x hx ch hch => ?_⟩
    simp only [PumpState.reference, PumpState.nextReference, hL, hm, if_true, refreshBlocks]
    exact hr y hy x hx ch hch

namespace Pump

theorem step_reference (p : Pump) {c : Call} {f : Frame} (hc : c.frame = some f) :
    (p.step c).1.1.lastImage.isSome ∧ Agree 240 320 (p.step c).1.1.reference (p.1.nextReference f.1) := by
  obtain ⟨_, _, s', hsends, h₁, -⟩ := p.step_frame hc
  rw [h₁, reference_setWait, setWait_lastImage]
  exact hsends.reference p.2 f.2

end Pump

/-! ### Solid frames

A frame of one colour is the simplest input on which the pump's choices can be followed call by
call: the reference stays solid, and the count of dirty blocks is 0 or all 1200. -/

/-- The frame of one solid colour. -/
def solidFrame (v : UInt8) : Frame := ⟨⟨240 * 320 * 3, fun _ => v⟩, rfl⟩

@[simp] theorem solidFrame_picture (v : UInt8) (w : Nat) :
    (solidFrame v).1.picture w = fun _ _ _ => v := rfl

/-- The reference holds the solid colour `v` on the raster. -/
def RefIs (s : PumpState) (v : UInt8) : Prop :=
  s.lastImage.isSome ∧ Agree 240 320 s.reference fun _ _ _ => v

/-- The colour of the reference after a call with the solid frame `b` on a reference of colour
`a`. -/
def solidNext (s : PumpState) (a b : UInt8) : UInt8 :=
  if s.lastImage.isNone then b
  else if forcedMode s = .none ∧ 192 * byteDiff a b > 192 then b else a

theorem blockSum_solid (a b : UInt8) (k : Nat) :
    blockSum (fun _ _ _ => a) (fun _ _ _ => b) 240 k = 192 * byteDiff a b := by
  simp [blockSum]; ring

theorem blockDirty_solid {s : PumpState} {a b : UInt8} (h : RefIs s a) {k : Nat} (hk : k < 1200) :
    blockDirty s.reference ((solidFrame b).1.picture 240) k = decide (192 * byteDiff a b > 192) := by
  rw [blockDirty_congr h.2 (fun _ _ _ _ _ _ => rfl) hk]
  simp [blockDirty, blockSum_solid, minSqDiff]

theorem dirtyFor_solid {s : PumpState} {a b : UInt8} (h : RefIs s a) :
    s.dirtyFor (solidFrame b).1 = if 192 * byteDiff a b > 192 then 1200 else 0 := by
  rw [dirtyFor_eq h.1, List.countP_congr (q := fun _ => decide (192 * byteDiff a b > 192))
    fun k hk => by rw [blockDirty_solid h (List.mem_range.1 hk)]]
  split_ifs with hd <;> simp [hd]

namespace Pump

/-- A call with a solid frame leaves a solid reference. -/
theorem step_solid_reference (p : Pump) {c : Call} {a b : UInt8}
    (hc : c.frame = some (solidFrame b)) (href : p.1.lastImage.isSome → RefIs p.1 a) :
    RefIs (p.step c).1.1 (solidNext p.1 a b) := by
  obtain ⟨hsome, hag⟩ := p.step_reference hc
  refine ⟨hsome, fun y hy x hx ch hch => (hag y hy x hx ch hch).trans ?_⟩
  unfold PumpState.nextReference solidNext
  cases hL : p.1.lastImage with
  | none => rfl
  | some L =>
    have hr := (href (by simp [hL])).2
    rw [reference_of_some hL] at hr
    simp only [Option.isNone_some, Bool.false_eq_true, if_false]
    by_cases hm : forcedMode p.1 = .none
    · have hd := blockDirty_solid (s := p.1) (b := b) (href (by simp [hL]))
        (blockAt_lt hy hx (by decide) (by decide) : blockAt 240 y x < blockCount 240 320)
      rw [reference_of_some hL] at hd
      simp only [hm, if_true, true_and, refreshBlocks, hd, decide_eq_true_eq]
      split_ifs <;> first | rfl | exact hr y hy x hx ch hch
    · simp only [hm, if_false, false_and]
      exact hr y hy x hx ch hch

end Pump

/-- A call passing the solid frame `v` on a connected socket. -/
def solidCall (v : UInt8) : Call := ⟨some (solidFrame v), ⟨true, false, 0⟩⟩

namespace Pump

/-- A call with the solid frame `b` on the solid reference `a`: the selector sees no dirty block
or all 1200, and the reference takes `b` exactly when `imageDiff` runs and finds them dirty. -/
theorem step_solid (p : Pump) {c : Call} {σ : Selector} {a b : UInt8}
    (hc : c.frame = some (solidFrame b)) (hσ : p.1.selector = σ) (href : RefIs p.1 a) :
    let d := if 192 * byteDiff a b > 192 then 1200 else 0
    (p.step c).1.1.selector = σ.next d ∧
      RefIs (p.step c).1.1 (if σ.forceFrameCount ≤ 100 ∧
        σ.lastFrameMode ≠ .checker ∧ 192 * byteDiff a b > 192 then b else a) ∧
      (p.step c).2.mode = some (σ.mode d) ∧ (p.step c).2.code = some (σ.code d) := by
  obtain ⟨h₁, h₂, h₃⟩ := p.step_selector c
  have hd := dirtyFor_solid (b := b) href
  have hr := p.step_solid_reference hc fun _ => href
  simp only [hc, Option.elim_some, Option.map_some', hd, hσ] at h₁ h₂ h₃
  refine ⟨h₁, ?_, h₂, h₃⟩
  convert hr using 1
  have hL : (p.1.lastImage.isNone) = false := by simp [Option.isNone_iff_eq_none, href.1]
  subst hσ
  simp only [solidNext, hL, Bool.false_eq_true, if_false, forcedMode_eq_none, not_lt,
    PumpState.selector, and_assoc]

/-- The same solid frame `n + 1` times from a settled, unforced state: `NONE` each time. -/
theorem run_solid_same (p : Pump) {a : UInt8} (href : RefIs p.1 a)
    (hm : p.1.lastFrameMode ≠ .checker) (n : Nat) (hn : p.1.forceFrameCount + n ≤ 100) :
    RefIs (p.run (List.replicate (n + 1) (solidCall a))).1 a ∧
      (p.run (List.replicate (n + 1) (solidCall a))).1.selector =
        ⟨p.1.forceFrameCount + n + 1, .none, p.1.checker, true⟩ := by
  induction n generalizing p with
  | zero =>
    obtain ⟨h₁, h₂, -⟩ := p.step_solid (c := solidCall a) rfl rfl href
    simp only [byteDiff_self, mul_zero, gt_iff_lt, Nat.not_lt_zero, and_false, if_false,
      ite_self] at h₁ h₂
    rw [(Selector.next_zero (σ := p.1.selector) href.1 (by simpa [PumpState.selector] using hn)
      hm).2] at h₁
    exact ⟨h₂, h₁⟩
  | succ n ih =>
    obtain ⟨h₁, h₂, -⟩ := p.step_solid (c := solidCall a) rfl rfl href
    simp only [byteDiff_self, mul_zero, gt_iff_lt, Nat.not_lt_zero, and_false, if_false,
      ite_self] at h₁ h₂
    rw [(Selector.next_zero (σ := p.1.selector) href.1 (by simp [PumpState.selector]; omega)
      hm).2] at h₁
    have hff : (p.step (solidCall a)).1.1.forceFrameCount = p.1.forceFrameCount + 1 :=
      congrArg Selector.forceFrameCount h₁
    have hlm : (p.step (solidCall a)).1.1.lastFrameMode = .none :=
      congrArg Selector.lastFrameMode h₁
    have hck : (p.step (solidCall a)).1.1.checker = p.1.checker := congrArg Selector.checker h₁
    obtain ⟨h₃, h₄⟩ := ih (p.step (solidCall a)).1 h₂ (by rw [hlm]; simp) (by omega)
    rw [List.replicate_succ, run_cons]
    refine ⟨h₃, h₄.trans ?_⟩
    rw [hff, hck]; ring_nf

end Pump

namespace Pump

/-- The first frame of the process, a solid one, is sent `FULL` and becomes the reference. -/
theorem init_step_solid {c : Call} {v : UInt8} (hc : c.frame = some (solidFrame v)) :
    (init.step c).1.1.selector = ⟨0, .full, 0, true⟩ ∧ RefIs (init.step c).1.1 v ∧
      (init.step c).2.mode = some .full := by
  obtain ⟨h₁, h₂, -⟩ := init.step_selector c
  refine ⟨by simpa [hc] using h₁, ?_, by simpa [hc] using h₂⟩
  simpa [solidNext, init, PumpState.init] using
    init.step_solid_reference (a := v) hc fun h => by simp [init, PumpState.init] at h

end Pump

/-- What a checkerboard message carries: from any state, it is sent for `FM_CHECKER` and
`FM_CHECKER_COMPL` alike with the code `3 + checker`, and its payload samples pixel `r` of row `y`
from column `2 r + (y + code - 3) % 2`, so that the code names the phase the payload samples and not
the mode. From start-up, the phases of the checkerboard messages go 0, 1, 0, 1, ... whatever is sent
between them, a forced `FULL` included. -/
theorem checker_code_is_phase :
    (∀ (p : Pump) (c : Call) (f : Frame) (m : FrameMode) (t : Nat) (img : Buffer),
      c.frame = some f → (p.step c).2.sent = some (m, .checker t img) →
        (m = .checker ∨ m = .checkerCompl) ∧ t = 3 + p.1.checker ∧ (t = 3 ∨ t = 4) ∧
          ∀ y < 320, ∀ r < 120, ∀ ch < 3,
            img.picture 120 y r ch = f.1.picture 240 y (2 * r + (y + (t - 3)) % 2) ch) ∧
    ∀ cs : List Call, checkerPhases (Pump.init.trace cs) =
      (List.range (checkerPhases (Pump.init.trace cs)).length).map (· % 2) := by
  refine ⟨fun p c f m t img hc hsent => ?_, fun cs => ?_⟩
  · obtain ⟨fm, msg, s', hsends, -, ho⟩ := p.step_frame hc
    rw [ho] at hsent
    obtain ⟨rfl, rfl⟩ := Prod.mk.inj (Option.some.inj hsent)
    obtain ⟨ht, hpix⟩ := hsends.checker_payload p.2 f.2 t img rfl
    have hck := p.2.checker_le
    refine ⟨hsends.checker_mode t img rfl, ht, by omega, ?_⟩
    rwa [show t - 3 = p.1.checker by omega]
  · rw [List.range_eq_range']
    exact checkerPhases_eq Pump.init cs

/-- A white frame after the first, black, one goes out as `FM_CHECKER` with code 3, its payload
sampled at phase 0. -/
theorem white_after_black_checker_three :
    ∃ t img, ((Pump.init.step (solidCall 0)).1.step (solidCall 255)).2.sent =
        some (.checker, .checker t img) ∧ t = 3 ∧
      ∀ y < 320, ∀ r < 120, ∀ ch < 3, img.picture 120 y r ch = 255 := by
  obtain ⟨h₁σ, h₁r, -⟩ := Pump.init_step_solid (c := solidCall 0) rfl
  obtain ⟨-, -, hm, -⟩ := Pump.step_solid _ (c := solidCall 255) rfl h₁σ h₁r
  obtain ⟨fm, msg, s', hsends, -, ho⟩ := (Pump.init.step (solidCall 0)).1.step_frame
    (c := solidCall 255) rfl
  have hck : (Pump.init.step (solidCall 0)).1.1.checker = 0 := congrArg Selector.checker h₁σ
  rw [ho] at hm
  obtain rfl : fm = .checker := Option.some.inj (hm.trans (by decide))
  cases hsends with
  | checker _ _ _ _ hr =>
    have hsent := congrArg Outcome.sent ho
    obtain ⟨-, ht, -, hpix⟩ := checker_code_is_phase.1 _ (solidCall 255) (solidFrame 255) .checker
      _ _ rfl hsent
    exact ⟨_, _, hsent, by rw [ht, hck], hpix⟩

/-- A run in which a forced refresh cuts a checkerboard pair: a black first frame and 98 more, then
white twice. The 98th black frame brings the counter to 98, the first white frame is sent as
`FM_CHECKER` at phase 0 and brings it to 101, and the second white frame, due as the pair's second
half, is sent `FULL` instead; `checker` is left at 1. -/
def cutPairRun : List Call :=
  solidCall 0 :: List.replicate 98 (solidCall 0) ++ [solidCall 255, solidCall 255]

/-- After `cutPairRun`, a black frame is sent as `FM_CHECKER` with the code of `FM_CHECKER_COMPL`:
the first checkerboard half of the new pair carries phase 1. -/
theorem checker_mode_sends_code_four :
    ((Pump.init.run cutPairRun).step (solidCall 0)).2.mode = some .checker ∧
      ((Pump.init.run cutPairRun).step (solidCall 0)).2.code = some 4 := by
  obtain ⟨h₁σ, h₁r, -⟩ := Pump.init_step_solid (c := solidCall 0) rfl
  have hff : (Pump.init.step (solidCall 0)).1.1.forceFrameCount = 0 :=
    congrArg Selector.forceFrameCount h₁σ
  have hlm : (Pump.init.step (solidCall 0)).1.1.lastFrameMode = .full :=
    congrArg Selector.lastFrameMode h₁σ
  have hck : (Pump.init.step (solidCall 0)).1.1.checker = 0 := congrArg Selector.checker h₁σ
  obtain ⟨h₂r, h₂σ⟩ := Pump.run_solid_same _ h₁r (by rw [hlm]; decide) 97 (by omega)
  rw [hff, hck] at h₂σ
  obtain ⟨h₃σ, h₃r, -⟩ := Pump.step_solid _ (c := solidCall 255) rfl h₂σ h₂r
  obtain ⟨h₄σ, h₄r, -⟩ := Pump.step_solid _ (c := solidCall 255) rfl h₃σ h₃r
  obtain ⟨-, -, h₅m, h₅c⟩ := Pump.step_solid _ (c := solidCall 0) rfl h₄σ h₄r
  simp only [cutPairRun, Pump.run_append, Pump.run_cons, Pump.run_nil]
  rw [h₅m, h₅c]
  decide

end CitraStream
