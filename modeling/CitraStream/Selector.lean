import CitraStream.Pump

/-!
# The mode selector

The decisions of `processFrameData` read four registers: `forceFrameCount`, `lastFrameMode`,
`checker`, and whether `lastImage` is allocated. `Selector` is that part of the state, and
`Selector.next` its move on a frame with a given number of changed blocks, in the selector's
decision order: the first frame, a forced refresh, the second half of a checkerboard pair, and
otherwise the count. `Sends.selector` says that every path of the pump moves the registers so, with
the count `imageDiff` returns; `Pump.step_selector` lifts this to the machine.

From it: the refresh counter stays in `[0, 105]` and forces a `FULL` among any 102 frames, and the
checkerboard phase flips exactly at checkerboard messages, so that consecutive checkerboard
payloads take complementary pixels.
-/

namespace CitraStream

/-- The registers of the mode selector. `primed` is `lastImage != 0`. -/
structure Selector where
  forceFrameCount : Nat
  lastFrameMode : FrameMode
  checker : Nat
  primed : Bool
  deriving DecidableEq, Repr

/-- The checkerboard modes, whose message carries `3 + checker`. -/
def FrameMode.interlaced : FrameMode → Bool
  | .checker | .checkerCompl => true
  | _ => false

/-- How a mode moves `forceFrameCount`. -/
def counterAfter : FrameMode → Nat → Nat
  | .none, n => n + 1
  | .full, _ => 0
  | .diff, n => n + 5
  | .checker, n => n + 3
  | .checkerCompl, n => n + 3

namespace Selector

/-- The mode picked for a frame with `dirty` changed blocks. -/
def mode (σ : Selector) (dirty : Nat) : FrameMode :=
  if !σ.primed then .full
  else if σ.forceFrameCount > 100 then .full
  else if σ.lastFrameMode = .checker then .checkerCompl
  else modeOfCount dirty

/-- The registers after a frame with `dirty` changed blocks. -/
def next (σ : Selector) (dirty : Nat) : Selector :=
  ⟨counterAfter (σ.mode dirty) σ.forceFrameCount, σ.mode dirty,
    if (σ.mode dirty).interlaced then (σ.checker + 1) % 2 else σ.checker, true⟩

/-- The code of the message sent for a frame with `dirty` changed blocks. -/
def code (σ : Selector) (dirty : Nat) : Nat :=
  match σ.mode dirty with
  | .none => 0
  | .full => 1
  | .diff => 2
  | .checker | .checkerCompl => 3 + σ.checker

variable {σ : Selector} {d : Nat}

theorem mode_of_lt (h : 100 < σ.forceFrameCount) : σ.mode d = .full := by
  unfold mode; split_ifs <;> rfl

/-- A mode other than `FULL` is picked only on a primed selector with the counter at most 100. -/
theorem mode_ne_full (h : σ.mode d ≠ .full) : σ.primed = true ∧ σ.forceFrameCount ≤ 100 := by
  unfold mode at h
  split_ifs at h with h₁ h₂ <;> simp_all

theorem next_counter_of_full (h : σ.mode d = .full) : (σ.next d).forceFrameCount = 0 := by
  simp only [next, h, counterAfter]

theorem lt_next_counter (h : σ.mode d ≠ .full) :
    σ.forceFrameCount < (σ.next d).forceFrameCount := by
  simp only [next]
  generalize σ.mode d = m at h ⊢
  cases m <;> simp [counterAfter] at h ⊢

/-- The counter stays at most 105: only a counter of at most 100 is incremented, by at most 5. -/
theorem next_counter_le (h : σ.forceFrameCount ≤ 105) : (σ.next d).forceFrameCount ≤ 105 := by
  by_cases hm : σ.mode d = .full
  · simp [next_counter_of_full hm]
  · have := (mode_ne_full hm).2
    simp only [next]
    generalize σ.mode d = m at hm ⊢
    cases m <;> simp [counterAfter] at hm ⊢ <;> omega

/-- A frame with no changed block, on a primed selector with nothing forced, is sent `NONE`. -/
theorem next_zero (hp : σ.primed = true) (hf : σ.forceFrameCount ≤ 100)
    (hm : σ.lastFrameMode ≠ .checker) :
    σ.mode 0 = .none ∧ σ.next 0 = ⟨σ.forceFrameCount + 1, .none, σ.checker, true⟩ := by
  have : σ.mode 0 = .none := by simp [mode, hp, hm, show ¬ σ.forceFrameCount > 100 by omega]; rfl
  simp [next, this, counterAfter, FrameMode.interlaced]

end Selector

/-- The selector's registers of a pump state. -/
def PumpState.selector (s : PumpState) : Selector :=
  ⟨s.forceFrameCount, s.lastFrameMode, s.checker, s.lastImage.isSome⟩

/-- The number of blocks of frame `f` that moved past `MIN_SQDIFF` from `lastImage`. -/
def PumpState.dirtyFor (s : PumpState) (f : Buffer) : Nat :=
  match s.lastImage with
  | some L => dirtyCount L f 240 (blockCount 240 320)
  | none => 0

@[simp] theorem selector_setWait {s : PumpState} {n : Nat} :
    (s.setWait n).selector = s.selector := rfl

@[simp] theorem dirtyFor_setWait {s : PumpState} {n : Nat} {f : Buffer} :
    (s.setWait n).dirtyFor f = s.dirtyFor f := rfl

section Forced

variable {s : PumpState}

theorem forcedMode_eq_full : forcedMode s = .full ↔ 100 < s.forceFrameCount := by
  unfold forcedMode; split_ifs <;> simp_all

theorem forcedMode_eq_checkerCompl :
    forcedMode s = .checkerCompl ↔ ¬ 100 < s.forceFrameCount ∧ s.lastFrameMode = .checker := by
  unfold forcedMode; split_ifs <;> simp_all

theorem forcedMode_eq_none :
    forcedMode s = .none ↔ ¬ 100 < s.forceFrameCount ∧ s.lastFrameMode ≠ .checker := by
  unfold forcedMode; split_ifs <;> simp_all

end Forced

/-- Every path of a call with a frame moves the selector as `Selector.next` says, with the count of
`imageDiff`, and sends the code of `Selector.code`. -/
theorem Sends.selector {s s' : PumpState} {f : Buffer} {m : FrameMode} {msg : Message}
    (hs : Sound s) (hf : f.size = 240 * 320 * 3) (h : Sends s f m msg s') :
    m = s.selector.mode (s.dirtyFor f) ∧ s'.selector = s.selector.next (s.dirtyFor f) ∧
      msg.code = s.selector.code (s.dirtyFor f) := by
  cases h with
  | first hL =>
    simp [PumpState.selector, Selector.mode, Selector.next, Selector.code, hL, counterAfter,
      FrameMode.interlaced, Message.code]
  | refresh hL hm =>
    simp [PumpState.selector, Selector.mode, Selector.next, Selector.code, hL,
      forcedMode_eq_full.1 hm, counterAfter, FrameMode.interlaced, Message.code]
  | compl hL hm =>
    obtain ⟨h₁, h₂⟩ := forcedMode_eq_checkerCompl.1 hm
    simp [PumpState.selector, Selector.mode, Selector.next, Selector.code, hL, h₁, h₂,
      counterAfter, FrameMode.interlaced, Message.code]
  | unchanged hL hm hd hn | diff hL hm hd hn | checker hL hm hd hn =>
    obtain ⟨h₁, h₂⟩ := forcedMode_eq_none.1 hm
    have hc := (imageDiff_spec (fits_of_sound hs hL hf) hd).count
    simp only [PumpState.dirtyFor, hL, ← hc]
    first
    | rw [hn]
      simp [PumpState.selector, Selector.mode, Selector.next, Selector.code, hL, h₁, h₂,
        modeOfCount_zero, counterAfter, FrameMode.interlaced, Message.code]
    | simp [PumpState.selector, Selector.mode, Selector.next, Selector.code, hL, h₁, h₂,
        modeOfCount_diff hn.1 hn.2, counterAfter, FrameMode.interlaced, Message.code]
    | simp [PumpState.selector, Selector.mode, Selector.next, Selector.code, hL, h₁, h₂,
        modeOfCount_checker hn, counterAfter, FrameMode.interlaced, Message.code]

/-- A checkerboard message carries `3 + checker` and samples the frame at that phase; every other
message has no phase. -/
theorem Sends.checker_payload {s s' : PumpState} {f : Buffer} {m : FrameMode} {msg : Message}
    (hs : Sound s) (hf : f.size = 240 * 320 * 3) (h : Sends s f m msg s') :
    ∀ t img, msg = .checker t img → t = 3 + s.checker ∧ ∀ y < 320, ∀ r < 120, ∀ ch < 3,
      img.picture 120 y r ch = f.picture 240 y (2 * r + (y + s.checker) % 2) ch := by
  intro t img hmsg
  obtain ⟨buf', hr', -, hpix⟩ := @checkerboard_spec f (interlaceBuffer 240 320) 240 320 _
    (by decide) hs.checker_le hf rfl
  cases h with
  | compl _ _ hr | checker _ _ _ _ hr =>
    rw [hr', Option.some.injEq] at hr
    cases hmsg; cases hr
    exact ⟨rfl, hpix⟩
  | _ => cases hmsg

/-- A checkerboard message is sent for `FM_CHECKER` or `FM_CHECKER_COMPL`. -/
theorem Sends.checker_mode {s s' : PumpState} {f : Buffer} {m : FrameMode} {msg : Message}
    (h : Sends s f m msg s') (t : Nat) (img : Buffer) (hmsg : msg = .checker t img) :
    m = .checker ∨ m = .checkerCompl := by
  cases h <;> first | exact .inl rfl | exact .inr rfl | cases hmsg

/-- The mode a call picked, for a call with a frame. -/
def Outcome.mode (o : Outcome) : Option FrameMode := o.sent.map Prod.fst

/-- The code of the message a call wrote, for a call with a frame. -/
def Outcome.code (o : Outcome) : Option Nat := o.sent.map fun e => e.2.code

/-- The phase of a checkerboard message, `dataType - 3`. -/
def Outcome.phase (o : Outcome) : Option Nat :=
  match o.sent with
  | some (_, .checker t _) => some (t - 3)
  | _ => none

/-- The phases of the checkerboard messages of a trace, in order. -/
def checkerPhases (tr : List (Pump × Outcome)) : List Nat := tr.filterMap fun x => x.2.phase

namespace Pump

/-- A call moves the selector's registers as `Selector.next` says, with the count of `imageDiff`
on its frame, and picks the mode and the code of `Selector.mode` and `Selector.code`; a poll
leaves the registers. -/
theorem step_selector (p : Pump) (c : Call) :
    (p.step c).1.1.selector = c.frame.elim p.1.selector (fun f => p.1.selector.next (p.1.dirtyFor f.1)) ∧
      (p.step c).2.mode = c.frame.map (fun f => p.1.selector.mode (p.1.dirtyFor f.1)) ∧
      (p.step c).2.code = c.frame.map (fun f => p.1.selector.code (p.1.dirtyFor f.1)) := by
  cases hc : c.frame with
  | none =>
    obtain ⟨h₁, h₂⟩ := p.step_poll hc
    simp [h₁, h₂, Outcome.mode, Outcome.code]
  | some f =>
    obtain ⟨fm, msg, s', hsends, h₁, h₂⟩ := p.step_frame hc
    obtain ⟨hm, hσ, hcode⟩ := hsends.selector p.2 f.2
    simp [h₁, h₂, Outcome.mode, Outcome.code, hm, hσ, hcode]

/-- A call's checkerboard message carries the phase `checker` had, and `checker` flips exactly at
such a message. -/
theorem step_phase (p : Pump) (c : Call) :
    (∀ a ∈ (p.step c).2.phase, a = p.1.checker) ∧
      (p.step c).1.1.checker = if (p.step c).2.phase.isSome then (p.1.checker + 1) % 2
        else p.1.checker := by
  cases hc : c.frame with
  | none =>
    obtain ⟨h₁, h₂⟩ := p.step_poll hc
    simp [h₁, h₂, Outcome.phase, PumpState.setWait]
  | some f =>
    obtain ⟨fm, msg, s', hsends, h₁, h₂⟩ := p.step_frame hc
    rw [h₁, h₂]
    cases hsends <;> simp [Outcome.phase, PumpState.setWait]

end Pump

/-- The phases of consecutive checkerboard messages alternate, starting from `checker`. -/
theorem checkerPhases_chain (p : Pump) (cs : List Call) :
    (∀ a ∈ (checkerPhases (p.trace cs)).head?, a = p.1.checker) ∧
      (checkerPhases (p.trace cs)).Chain' fun a b => b = (a + 1) % 2 := by
  induction cs generalizing p with
  | nil => simp [checkerPhases]
  | cons c cs ih =>
    obtain ⟨hhead, hchain⟩ := ih (p.step c).1
    obtain ⟨hph, hflip⟩ := p.step_phase c
    simp only [checkerPhases, Pump.trace_cons, List.filterMap_cons] at hhead hchain ⊢
    cases ho : (p.step c).2.phase with
    | none =>
      rw [ho] at hflip
      simp only [Option.isSome_none, if_false, Bool.false_eq_true] at hflip
      exact ⟨fun a ha => (hhead a ha).trans hflip, hchain⟩
    | some a =>
      rw [ho] at hflip hph
      simp only [Option.isSome_some, if_true] at hflip
      have ha : a = p.1.checker := hph a rfl
      refine ⟨fun b hb => by simp only [List.head?_cons, Option.mem_def,
        Option.some.injEq] at hb; rw [← hb, ha], hchain.cons' fun b hb => ?_⟩
      rw [hhead b hb, hflip, ha]

/-- A list that starts at `a % 2` and alternates reads `a, a + 1, a + 2, ...` mod 2. -/
theorem eq_map_range'_of_chain {l : List Nat} (a : Nat) (hhead : ∀ b ∈ l.head?, b = a % 2)
    (hchain : l.Chain' fun a b => b = (a + 1) % 2) : l = (List.range' a l.length).map (· % 2) := by
  induction l generalizing a with
  | nil => rfl
  | cons b l ih =>
    rw [List.chain'_cons'] at hchain
    have hb := hhead b rfl
    have hl := ih (a + 1) (fun c hc => by rw [hchain.1 c hc, hb]; omega) hchain.2
    rw [List.length_cons, List.range'_succ, List.map_cons, ← hb, ← hl]

/-- From any pump, the checkerboard messages of a run carry the phases `checker, checker + 1, ...`
mod 2. -/
theorem checkerPhases_eq (p : Pump) (cs : List Call) :
    checkerPhases (p.trace cs) =
      (List.range' p.1.checker (checkerPhases (p.trace cs)).length).map (· % 2) := by
  obtain ⟨hhead, hchain⟩ := checkerPhases_chain p cs
  have hck := p.2.checker_le
  exact eq_map_range'_of_chain _ (fun b hb => by rw [hhead b hb]; omega) hchain

namespace Pump

theorem step_counter (p : Pump) (c : Call) :
    (p.step c).1.1.forceFrameCount = c.frame.elim p.1.forceFrameCount
      (fun f => (p.1.selector.next (p.1.dirtyFor f.1)).forceFrameCount) := by
  have h := congrArg Selector.forceFrameCount (p.step_selector c).1
  cases hc : c.frame <;> simpa [hc, PumpState.selector] using h

/-- Once the counter and the frames still to come add up to 102, one of them is sent `FULL`: every
frame that is not raises the counter, and a counter past 100 forces it. -/
theorem exists_full (p : Pump) (cs : List Call) (hk : 0 < cs.countP fun c => c.frame.isSome)
    (h : 102 ≤ p.1.forceFrameCount + cs.countP fun c => c.frame.isSome) :
    ∃ x ∈ p.trace cs, x.2.mode = some .full := by
  induction cs generalizing p with
  | nil => simp at hk
  | cons c cs ih =>
    simp only [trace_cons, List.mem_cons, exists_eq_or_imp]
    have hcount := p.step_counter c
    have hmode := (p.step_selector c).2.1
    cases hc : c.frame with
    | none =>
      simp only [hc, List.countP_cons, Option.isSome_none, Bool.false_eq_true, if_false,
        add_zero, Option.elim_none] at hk h hcount
      exact .inr (ih (p.step c).1 hk (hcount ▸ h))
    | some f =>
      simp only [hc, List.countP_cons, Option.isSome_some, if_true, Option.elim_some,
        Option.map_some'] at hk h hcount hmode
      by_cases hf : p.1.selector.mode (p.1.dirtyFor f.1) = .full
      · exact .inl (hmode.trans (congrArg some hf))
      · have hlt : p.1.forceFrameCount < (p.step c).1.1.forceFrameCount := by
          rw [hcount]; exact Selector.lt_next_counter hf
        rcases Nat.eq_zero_or_pos (cs.countP fun c => c.frame.isSome) with h0 | h0
        · exact absurd (Selector.mode_of_lt (show 100 < p.1.forceFrameCount by omega)) hf
        · exact .inr (ih (p.step c).1 h0 (by omega))

end Pump

/-! ### The selector over a whole run -/

/-- The abstract selector driven by the count each call's frame shows (`none` for a poll): its
registers after each call and, for a frame, the mode and the code it picks. -/
def Selector.run : Selector → List (Option Nat) → List (Selector × Option FrameMode × Option Nat)
  | _, [] => []
  | σ, none :: ds => (σ, none, none) :: Selector.run σ ds
  | σ, some d :: ds => (σ.next d, some (σ.mode d), some (σ.code d)) :: Selector.run (σ.next d) ds

/-- The number of blocks each frame of a run shows dirty against `lastImage` when it comes. -/
def Pump.counts : Pump → List Call → List (Option Nat)
  | _, [] => []
  | p, c :: cs => c.frame.map (fun f => p.1.dirtyFor f.1) :: (p.step c).1.counts cs

/-- On every run, the registers of the pump's selector and the modes and codes it sends are those
of the abstract `Selector` fed with the dirty counts its frames show. -/
theorem selector_refinement (p : Pump) (cs : List Call) :
    (p.trace cs).map (fun x => (x.1.1.selector, x.2.mode, x.2.code)) =
      p.1.selector.run (p.counts cs) := by
  induction cs generalizing p with
  | nil => rfl
  | cons c cs ih =>
    obtain ⟨h₁, h₂, h₃⟩ := p.step_selector c
    rw [Pump.trace_cons, List.map_cons, ih, Pump.counts]
    cases hc : c.frame <;> simp only [hc, Option.elim_none, Option.elim_some, Option.map_none',
      Option.map_some'] at h₁ h₂ h₃ <;> rw [h₁, h₂, h₃] <;> rfl

/-- `forceFrameCount` never leaves `[0, 105]` on any run; it is reset by `FULL` and raised by every
other frame; among any 102 calls with a frame one is sent `FULL`; and the first frame is. -/
theorem forceFrameCount_keyframes :
    (∀ cs : List Call, ∀ x ∈ Pump.init.trace cs, x.1.1.forceFrameCount ≤ 105) ∧
    (∀ (p : Pump) (c : Call), c.frame.isSome →
      ((p.step c).2.mode = some .full → (p.step c).1.1.forceFrameCount = 0) ∧
      ((p.step c).2.mode ≠ some .full →
        p.1.forceFrameCount < (p.step c).1.1.forceFrameCount)) ∧
    (∀ (p : Pump) (cs : List Call), 102 ≤ (cs.countP fun c => c.frame.isSome) →
      ∃ x ∈ p.trace cs, x.2.mode = some .full) ∧
    (∀ (p : Pump) (c : Call), p.1.lastImage = none → c.frame.isSome →
      (p.step c).2.mode = some .full) := by
  refine ⟨fun cs => Pump.trace_invariant (I := fun q : Pump => q.1.forceFrameCount ≤ 105)
      (fun q c hq => ?_) (Nat.zero_le _) cs,
    fun p c hc => ?_, fun p cs h => p.exists_full cs (by omega) (by omega), fun p c hL hc => ?_⟩
  · show (q.step c).1.1.forceFrameCount ≤ 105
    rw [q.step_counter c]
    cases c.frame
    · exact hq
    · exact Selector.next_counter_le hq
  all_goals obtain ⟨f, hf⟩ := Option.isSome_iff_exists.1 hc
  · have hmode := (p.step_selector c).2.1
    rw [p.step_counter c, hf, Option.elim_some]
    rw [hf, Option.map_some'] at hmode
    exact ⟨fun h => Selector.next_counter_of_full (Option.some.inj (hmode.symm.trans h)),
      fun h => Selector.lt_next_counter fun h' => h (hmode.trans (congrArg some h'))⟩
  · rw [(p.step_selector c).2.1, hf, Option.map_some']
    simp [Selector.mode, PumpState.selector, hL]

end CitraStream
