import CitraStream.Reference

/-!
# A static screen

When the renderer keeps presenting the same frame `C`, the pump settles: once `imageDiff` has run
on `C` the reference holds no block dirty against it, and from then on every call sends `NONE` or
the periodic `FULL`. Before that, a pending second checkerboard half and a forced refresh can each
delay `imageDiff` by one call.

`convergenceRank` counts the calls with `C` that are still needed: it is 0 on a settled reference
with no checkerboard half pending, and every call with `C` lowers it (`Sends.rank_lt`). It never
exceeds 4, so from the fifth call with `C` on, only `NONE` and `FULL` are sent.
-/

namespace CitraStream

/-- The reference is allocated and no block of `C` is dirty against it. -/
def Settled (s : PumpState) (C : Buffer) : Prop :=
  s.lastImage.isSome ∧ ∀ k < 1200, blockDirty s.reference (C.picture 240) k = false

instance (s : PumpState) (C : Buffer) : Decidable (Settled s C) :=
  inferInstanceAs (Decidable (_ ∧ _))

/-- The calls with a static frame `C` still needed before only `NONE` and `FULL` are sent. -/
def convergenceRank (s : PumpState) (C : Buffer) : Nat :=
  if Settled s C then (if s.lastFrameMode = .checker then 1 else 0)
  else if s.lastImage.isNone then 1
  else if s.forceFrameCount ≤ 100 ∧ s.lastFrameMode ≠ .checker then 2
  else if 100 < s.forceFrameCount then 3 else 4

section Rank

variable {s s' : PumpState} {C : Buffer}

theorem convergenceRank_le : convergenceRank s C ≤ 4 := by
  unfold convergenceRank; split_ifs <;> omega

/-- Without a checkerboard half pending, at most three calls are still needed. -/
theorem convergenceRank_le_three (h : s.lastFrameMode ≠ .checker) : convergenceRank s C ≤ 3 := by
  unfold convergenceRank; split_ifs <;> simp_all

@[simp] theorem convergenceRank_setWait {n : Nat} :
    convergenceRank (s.setWait n) C = convergenceRank s C := rfl

theorem dirtyFor_of_settled (h : Settled s C) : s.dirtyFor C = 0 := by
  rw [dirtyFor_eq h.1, List.countP_eq_zero]
  intro k hk
  simp [h.2 k (List.mem_range.1 hk)]

/-- A reference that agrees on the raster with a settled one is settled. -/
theorem settled_congr (h : s'.lastImage.isSome) (hag : Agree 240 320 s'.reference s.reference)
    (hs : Settled s C) : Settled s' C :=
  ⟨h, fun k hk => (blockDirty_congr hag (fun _ _ _ _ _ _ => rfl) hk).trans (hs.2 k hk)⟩

/-- When `imageDiff` runs, the reference it leaves is settled on the frame. -/
theorem Sends.settled_of_imageDiff {m : FrameMode} {msg : Message} (hs : Sound s)
    (hf : C.size = 240 * 320 * 3) (h : Sends s C m msg s') {L : Buffer} (hL : s.lastImage = some L)
    (hm : forcedMode s = .none) : Settled s' C := by
  obtain ⟨hsome, hag⟩ := h.reference hs hf
  refine ⟨hsome, fun k hk => ?_⟩
  rw [blockDirty_congr hag (fun _ _ _ _ _ _ => rfl) hk]
  simp only [PumpState.nextReference, hL, hm, if_true, blockDirty_refreshBlocks]

/-- When a forced mode skips `imageDiff`, the reference, and so whether it is settled, stays. -/
theorem Sends.settled_iff_of_forced {m : FrameMode} {msg : Message} (hs : Sound s)
    (hf : C.size = 240 * 320 * 3) (h : Sends s C m msg s') {L : Buffer} (hL : s.lastImage = some L)
    (hm : forcedMode s ≠ .none) : Settled s' C ↔ Settled s C := by
  obtain ⟨hsome, hag⟩ := h.reference hs hf
  have hag' : Agree 240 320 s'.reference s.reference := by
    simpa [PumpState.nextReference, hL, hm, reference_of_some hL] using hag
  exact ⟨fun h' => settled_congr (by simp [hL]) (fun y hy x hx ch hch =>
    (hag' y hy x hx ch hch).symm) h', settled_congr hsome hag'⟩

/-- Every call with `C` lowers the rank, or finds it at 0 and keeps it there. -/
theorem Sends.rank_lt {m : FrameMode} {msg : Message} (hs : Sound s)
    (hf : C.size = 240 * 320 * 3) (h : Sends s C m msg s') :
    convergenceRank s' C < convergenceRank s C ∨ convergenceRank s' C = 0 := by
  have hnone : ∀ {L : Buffer}, s.lastImage = some L → s.lastImage.isNone = false := fun hL => by
    simp [hL]
  have hset' : ∀ {L : Buffer}, s.lastImage = some L → forcedMode s = .none → Settled s' C :=
    h.settled_of_imageDiff hs hf
  have hkeep : ∀ {L : Buffer}, s.lastImage = some L → forcedMode s ≠ .none →
      (Settled s' C ↔ Settled s C) := h.settled_iff_of_forced hs hf
  have hag := (h.reference hs hf).2
  cases h with
  | first hL =>
    right
    have : Settled { s with lastImage := some _, lastFrameMode := .full, forceFrameCount := 0 } C :=
      ⟨rfl, fun k hk => by
        rw [blockDirty_congr hag (fun _ _ _ _ _ _ => rfl) hk]
        simp [PumpState.nextReference, hL, blockDirty, minSqDiff]⟩
    simp [convergenceRank, this]
  | refresh hL hm =>
    have hk := hkeep hL (by rw [hm]; simp)
    have hf := forcedMode_eq_full.1 hm
    by_cases hset : Settled s C
    · right; rw [convergenceRank, if_pos (hk.2 hset)]; rfl
    · left
      simp [convergenceRank, hset, mt hk.1 hset, hnone hL,
        show ¬ s.forceFrameCount ≤ 100 by omega, hf]
  | compl hL hm =>
    have hk := hkeep hL (by rw [hm]; simp)
    obtain ⟨hf, hc⟩ := forcedMode_eq_checkerCompl.1 hm
    by_cases hset : Settled s C
    · right; rw [convergenceRank, if_pos (hk.2 hset)]; rfl
    · left
      have h4 : convergenceRank s C = 4 := by simp [convergenceRank, hset, hnone hL, hc, hf]
      have h3 := convergenceRank_le_three (C := C) (s := { s with
        lastFrameMode := .checkerCompl, checker := (s.checker + 1) &&& 1,
        forceFrameCount := s.forceFrameCount + 3 }) (by simp)
      omega
  | unchanged hL hm => right; simp [convergenceRank, hset' hL hm]
  | diff hL hm => right; simp [convergenceRank, hset' hL hm]
  | checker hL hm hd hn =>
    left
    have hset : ¬ Settled s C := fun hset => by
      have hc := (imageDiff_spec (fits_of_sound hs hL hf) hd).count
      have h0 := dirtyFor_of_settled hset
      simp only [PumpState.dirtyFor, hL] at h0
      omega
    obtain ⟨h₁, h₂⟩ := forcedMode_eq_none.1 hm
    rw [convergenceRank, if_pos (hset' hL hm), convergenceRank, if_neg hset]
    simp [hnone hL, h₂, show s.forceFrameCount ≤ 100 by omega]

/-- At rank 0 a call with `C` sends `NONE` or `FULL`. -/
theorem Sends.mode_of_rank_zero {m : FrameMode} {msg : Message} (hs : Sound s)
    (hf : C.size = 240 * 320 * 3) (h : Sends s C m msg s') (h0 : convergenceRank s C = 0) :
    m = .none ∨ m = .full := by
  have hset : Settled s C ∧ s.lastFrameMode ≠ .checker := by
    unfold convergenceRank at h0; split_ifs at h0 with h₁ h₂; exact ⟨h₁, h₂⟩
  have hcount : ∀ {L : Buffer} {st : DiffState}, s.lastImage = some L →
      imageDiff L C s.diffBuf s.diffMap 240 320 = some st → st.numSqDiff = 0 := fun hL hd => by
    have hc := (imageDiff_spec (fits_of_sound hs hL hf) hd).count
    rw [hc, ← dirtyFor_of_settled hset.1]
    simp [PumpState.dirtyFor, hL]
  cases h with
  | first | refresh => exact .inr rfl
  | unchanged => exact .inl rfl
  | compl _ hm => exact absurd (forcedMode_eq_checkerCompl.1 hm).2 hset.2
  | diff hL _ hd hn => exact absurd (hcount hL hd) (by omega)
  | checker hL _ hd hn => exact absurd (hcount hL hd) (by omega)

end Rank

namespace Pump

variable {C : Frame}

/-- A call with `C` or a poll never raises the rank, and a call with `C` lowers it. -/
theorem step_rank (p : Pump) {c : Call} (hc : c.frame = none ∨ c.frame = some C) :
    convergenceRank (p.step c).1.1 C.1 ≤
      convergenceRank p.1 C.1 - if c.frame.isSome then 1 else 0 := by
  rcases hc with hc | hc
  · rw [(p.step_poll hc).1, hc]; simp
  · obtain ⟨_, _, s', hsends, h₁, -⟩ := p.step_frame hc
    rw [h₁, hc, convergenceRank_setWait]
    rcases hsends.rank_lt p.2 C.2 with h | h <;> simp <;> omega

theorem run_rank (p : Pump) {cs : List Call} (hcs : ∀ c ∈ cs, c.frame = none ∨ c.frame = some C) :
    convergenceRank (p.run cs).1 C.1 ≤
      convergenceRank p.1 C.1 - cs.countP fun c => c.frame.isSome := by
  induction cs generalizing p with
  | nil => simp [run]
  | cons c cs ih =>
    have h₁ := p.step_rank (hcs c (List.mem_cons_self c cs))
    have h₂ := ih (p.step c).1 fun c' hc' => hcs c' (List.mem_cons_of_mem c hc')
    simp only [run, List.countP_cons]
    split_ifs at h₁ ⊢ <;> omega

/-- From rank 0 every call with `C` sends `NONE` or `FULL`. -/
theorem trace_modes_of_rank_zero (q : Pump) {cs : List Call}
    (hcs : ∀ c ∈ cs, c.frame = none ∨ c.frame = some C) (h0 : convergenceRank q.1 C.1 = 0) :
    ∀ x ∈ q.trace cs, x.2.mode = none ∨ x.2.mode = some .none ∨ x.2.mode = some .full := by
  induction cs generalizing q with
  | nil => simp
  | cons c cs ih =>
    simp only [trace_cons, List.mem_cons, forall_eq_or_imp]
    have hc := hcs c (List.mem_cons_self c cs)
    refine ⟨?_, ih (q.step c).1 (fun c' hc' => hcs c' (List.mem_cons_of_mem c hc'))
      (by have := q.step_rank hc; omega)⟩
    rcases hc with hc | hc
    · exact .inl (by simp [Outcome.mode, (q.step_poll hc).2])
    · obtain ⟨fm, msg, s', hsends, -, h₂⟩ := q.step_frame hc
      rcases hsends.mode_of_rank_zero q.2 C.2 h0 with rfl | rfl <;> simp [Outcome.mode, h₂]

end Pump

/-- From any state of the pump, once four calls have passed the same frame `C` (polls in between
allowed), every later call that passes `C` sends `NONE` or `FULL`: never `DIFF` nor a checkerboard
half. -/
theorem static_frame_settles (p : Pump) (C : Frame) (pre post : List Call)
    (hpre : ∀ c ∈ pre, c.frame = none ∨ c.frame = some C)
    (hpost : ∀ c ∈ post, c.frame = none ∨ c.frame = some C)
    (h4 : 4 ≤ pre.countP fun c => c.frame.isSome) :
    ∀ x ∈ (p.run pre).trace post, x.2.mode = none ∨ x.2.mode = some .none ∨
      x.2.mode = some .full := by
  refine (p.run pre).trace_modes_of_rank_zero hpost ?_
  have := p.run_rank hpre
  have := convergenceRank_le (s := p.1) (C := C.1)
  omega

/-- The identical-frame scenario, from any state: once the reference is settled on `C` with no
checkerboard half pending, every call with `C` sends `NONE` and raises the counter by one, up to
the call that finds the counter at 100. -/
theorem identical_frames_send_none (p : Pump) (C : Frame) (cs : List Call)
    (hcs : ∀ c ∈ cs, c.frame = some C) (h0 : convergenceRank p.1 C.1 = 0)
    (hn : p.1.forceFrameCount + cs.length ≤ 101) :
    (∀ x ∈ p.trace cs, x.2.mode = some .none) ∧
      (p.run cs).1.forceFrameCount = p.1.forceFrameCount + cs.length := by
  induction cs generalizing p with
  | nil => simp
  | cons c cs ih =>
    have hc := hcs c (List.mem_cons_self c cs)
    have hset : Settled p.1 C.1 ∧ p.1.lastFrameMode ≠ .checker := by
      unfold convergenceRank at h0; split_ifs at h0 with h₁ h₂; exact ⟨h₁, h₂⟩
    obtain ⟨h₁, h₂, -⟩ := p.step_selector c
    simp only [hc, Option.elim_some, Option.map_some', dirtyFor_of_settled hset.1] at h₁ h₂
    obtain ⟨hmode, hnext⟩ := Selector.next_zero (σ := p.1.selector)
      (by simpa [PumpState.selector] using hset.1.1)
      (by simp only [PumpState.selector, List.length_cons] at hn ⊢; omega) hset.2
    have hff : (p.step c).1.1.forceFrameCount = p.1.forceFrameCount + 1 :=
      congrArg Selector.forceFrameCount (h₁.trans hnext)
    obtain ⟨ih₁, ih₂⟩ := ih (p.step c).1 (fun c' hc' => hcs c' (List.mem_cons_of_mem c hc'))
      (by have := p.step_rank (.inr hc); omega) (by simp only [List.length_cons] at hn; omega)
    refine ⟨?_, ?_⟩
    · simp only [Pump.trace_cons, List.mem_cons, forall_eq_or_imp]
      exact ⟨h₂.trans (congrArg some hmode), ih₁⟩
    · rw [Pump.run_cons, ih₂, hff, List.length_cons]
      ring

/-- A hundred and one more black frames after the first: `NONE` each time, the last one finding the
counter at 100 and leaving it at 101. -/
theorem black_frames_send_none :
    (∀ c ∈ List.replicate 101 (solidCall 0), c.frame = some (solidFrame 0)) ∧
    convergenceRank (Pump.init.step (solidCall 0)).1.1 (solidFrame 0).1 = 0 ∧
    (Pump.init.step (solidCall 0)).1.1.forceFrameCount + (List.replicate 101 (solidCall 0)).length
      ≤ 101 ∧
    (∀ x ∈ (Pump.init.step (solidCall 0)).1.trace (List.replicate 101 (solidCall 0)),
      x.2.mode = some .none) ∧
    ((Pump.init.step (solidCall 0)).1.run (List.replicate 101 (solidCall 0))).1.forceFrameCount =
      (Pump.init.step (solidCall 0)).1.1.forceFrameCount +
        (List.replicate 101 (solidCall 0)).length := by
  obtain ⟨hσ, href, -⟩ := Pump.init_step_solid (c := solidCall 0) rfl
  have hset : Settled (Pump.init.step (solidCall 0)).1.1 (solidFrame 0).1 :=
    ⟨href.1, fun k hk => by rw [blockDirty_solid href hk]; decide⟩
  have hlm : (Pump.init.step (solidCall 0)).1.1.lastFrameMode = .full :=
    congrArg Selector.lastFrameMode hσ
  have hff : (Pump.init.step (solidCall 0)).1.1.forceFrameCount = 0 :=
    congrArg Selector.forceFrameCount hσ
  have hcs : ∀ c ∈ List.replicate 101 (solidCall 0), c.frame = some (solidFrame 0) :=
    fun c hc => by rw [List.eq_of_mem_replicate hc]; rfl
  have h0 : convergenceRank (Pump.init.step (solidCall 0)).1.1 (solidFrame 0).1 = 0 := by
    rw [convergenceRank, if_pos hset, hlm]; rfl
  have hn : (Pump.init.step (solidCall 0)).1.1.forceFrameCount +
      (List.replicate 101 (solidCall 0)).length ≤ 101 := by
    rw [hff, List.length_replicate]
  exact ⟨hcs, h0, hn, identical_frames_send_none _ _ _ hcs h0 hn⟩

/-- Four black frames from start-up, then a fifth: it goes out as `NONE` or `FULL`. -/
theorem black_screen_settles :
    (∀ c ∈ List.replicate 4 (solidCall 0), c.frame = none ∨ c.frame = some (solidFrame 0)) ∧
    (∀ c ∈ [solidCall 0], c.frame = none ∨ c.frame = some (solidFrame 0)) ∧
    4 ≤ (List.replicate 4 (solidCall 0)).countP (fun c => c.frame.isSome) ∧
    ∀ x ∈ (Pump.init.run (List.replicate 4 (solidCall 0))).trace [solidCall 0],
      x.2.mode = none ∨ x.2.mode = some .none ∨ x.2.mode = some .full :=
  have hpre : ∀ c ∈ List.replicate 4 (solidCall 0), c.frame = none ∨
      c.frame = some (solidFrame 0) := fun c hc => .inr (by rw [List.eq_of_mem_replicate hc]; rfl)
  have hpost : ∀ c ∈ [solidCall 0], c.frame = none ∨ c.frame = some (solidFrame 0) := by
    simp [solidCall]
  have h4 : 4 ≤ (List.replicate 4 (solidCall 0)).countP (fun c => c.frame.isSome) := by
    simp [solidCall]
  ⟨hpre, hpost, h4, static_frame_settles Pump.init (solidFrame 0) _ _ hpre hpost h4⟩

end CitraStream
