import Mathlib.Data.List.Basic

/-!
# `EmuThread::run`, the emulation loop

The UI thread drives the emulation thread through three shared flags: `running` and `exec_step`,
which it may write at any moment, and `stop_run`, which it only ever sets. The loop reads a flag
afresh at every test, so another thread's write can land between any two of its reads. A `Label`
is a point of the loop between two accesses to shared state, `State.loop` runs the loop from one to
the next, and an `Action` is such a step or a write by another thread; every interleaving is a list
of actions.

Only the loop is modelled. The loading signals before it and `Shutdown` after it emit no
debug-mode signal, and `was_active` starts `false` at the loop's head. `SetRunning(false)` stores
`false` into `running`. `RunLoop`'s result is an argument of the step that calls it; the result of
`SingleStep` is never read.

`debug_mode_signals_alternate`: `DebugModeLeft` and `DebugModeEntered` strictly alternate,
starting with `DebugModeLeft`, in every interleaving. The invariant behind it (`Inv`) says, label by
label, whether a `DebugModeLeft` is the last debug-mode signal emitted; so the core only runs while
one is (`executes_in_debug_mode_left`). At `if (running)` it makes `was_active` exactly that. The
comment above `was_active` says it holds whether the CPU was running during the last iteration,
which is not what the code stores: after an iteration whose `RunLoop` ran while the UI thread
cleared `running`, `was_active = running || exec_step` is false.

`State.callsAt` counts the steps an interleaving takes at given points, the calls into the core
among them. Once `stop_run` is set the core is called at most once more (`one_call_after_stop`),
and `SingleStep` never runs more often than a step was requested (`single_steps_le_requests`).
Left alone by the other threads, the loop serves its flags: `RunLoop` comes within six steps while
`running` is set, and a requested `SingleStep` within eight while it is clear.
-/

namespace CitraStream

namespace EmuThread

/-- `Core::System::ResultStatus`, with the values the loop tells apart. -/
inductive ResultStatus
  | success
  | shutdownRequested
  | error
  deriving DecidableEq, Repr

/-- The signals the loop emits. -/
inductive Signal
  | debugModeLeft
  | debugModeEntered
  | errorThrown (result : ResultStatus)
  deriving DecidableEq, Repr

/-- The points of the loop between two accesses to shared state. -/
inductive Label
  /-- `while (!stop_run)` -/
  | loopHead
  /-- `if (running)` -/
  | testRunning
  /-- `system.RunLoop()` and what its result leads to -/
  | runLoop
  /-- `was_active = running || ...` -/
  | readRunning
  /-- `... || exec_step` -/
  | readExecStep
  /-- `if (!was_active && !stop_run)` -/
  | testStopRun
  /-- `else if (exec_step)` -/
  | testExecStep
  /-- `exec_step = false` -/
  | clearExecStep
  /-- `system.SingleStep()`, `emit DebugModeEntered()`, `was_active = false` -/
  | singleStep
  /-- `running_cv.wait(lock, [this] { return IsRunning() || exec_step || stop_run; })` -/
  | waitRunning
  /-- `system.Shutdown()`: the loop is left -/
  | shutdown
  deriving DecidableEq, Repr

/-- The shared flags, the loop's local `was_active`, where the loop is, and the signals emitted so
far. -/
structure State where
  running : Bool
  execStep : Bool
  stopRun : Bool
  wasActive : Bool
  pc : Label
  signals : List Signal

/-- The loop's head with `was_active = false`, the flags as the UI thread left them. -/
def start (running execStep stopRun : Bool) : State :=
  ⟨running, execStep, stopRun, false, .loopHead, []⟩

/-- `if (!was_active) emit DebugModeLeft();` -/
def State.leaveDebugMode (s : State) : List Signal :=
  if s.wasActive then s.signals else s.signals ++ [.debugModeLeft]

/-- One step of the loop, from one access to shared state to the next. -/
def State.loop (s : State) (result : ResultStatus) : State :=
  match s.pc with
  | .loopHead => { s with pc := if s.stopRun then .shutdown else .testRunning }
  | .testRunning =>
    if s.running then { s with pc := .runLoop, signals := s.leaveDebugMode }
    else { s with pc := .testExecStep }
  | .runLoop =>
    match result with
    | .shutdownRequested => { s with pc := .shutdown, signals := s.signals ++ [.errorThrown result] }
    | .success => { s with pc := .readRunning }
    | .error =>
      { s with running := false, pc := .readRunning, signals := s.signals ++ [.errorThrown result] }
  | .readRunning =>
    if s.running then { s with wasActive := true, pc := .loopHead }
    else { s with pc := .readExecStep }
  | .readExecStep =>
    if s.execStep then { s with wasActive := true, pc := .loopHead }
    else { s with wasActive := false, pc := .testStopRun }
  | .testStopRun =>
    { s with pc := .loopHead,
             signals := if s.stopRun then s.signals else s.signals ++ [.debugModeEntered] }
  | .testExecStep =>
    if s.execStep then { s with pc := .clearExecStep, signals := s.leaveDebugMode }
    else { s with pc := .waitRunning }
  | .clearExecStep => { s with execStep := false, pc := .singleStep }
  | .singleStep =>
    { s with wasActive := false, pc := .loopHead, signals := s.signals ++ [.debugModeEntered] }
  | .waitRunning =>
    if s.running || s.execStep || s.stopRun then { s with pc := .loopHead } else s
  | .shutdown => s

/-- A step of the loop, or a write by another thread: any value into `running` or `exec_step`,
`true` into `stop_run`. -/
inductive Action
  | loop (result : ResultStatus)
  | setRunning (running : Bool)
  | setExecStep (execStep : Bool)
  | stop

def State.step (s : State) : Action → State
  | .loop result => s.loop result
  | .setRunning b => { s with running := b }
  | .setExecStep b => { s with execStep := b }
  | .stop => { s with stopRun := true }

/-- The state after an interleaving. -/
def State.steps : State → List Action → State
  | s, [] => s
  | s, a :: as => (s.step a).steps as

@[simp] theorem steps_nil (s : State) : s.steps [] = s := rfl

@[simp] theorem steps_cons (s : State) (a : Action) (as : List Action) :
    s.steps (a :: as) = (s.step a).steps as := rfl

/-! ### Alternation -/

def Signal.isDebugMode : Signal → Bool
  | .errorThrown _ => false
  | _ => true

/-- The debug-mode signals of a log, in order. -/
def debugModeSignals (log : List Signal) : List Signal := log.filter Signal.isDebugMode

/-- The `n`-th signal of a strict alternation that starts with `DebugModeLeft`. -/
def alternation (n : Nat) : Signal := if n % 2 = 0 then .debugModeLeft else .debugModeEntered

/-- `DebugModeLeft`, `DebugModeEntered`, `DebugModeLeft`, ...: the debug-mode signals of the log
alternate strictly, starting with `DebugModeLeft`. -/
def Alternates (log : List Signal) : Prop :=
  debugModeSignals log = (List.range (debugModeSignals log).length).map alternation

instance (log : List Signal) : Decidable (Alternates log) :=
  inferInstanceAs (Decidable (_ = _))

section Log

variable {log : List Signal}

@[simp] theorem debugModeSignals_nil : debugModeSignals [] = [] := rfl

theorem debugModeSignals_snoc {e : Signal} :
    debugModeSignals (log ++ [e]) =
      debugModeSignals log ++ if e.isDebugMode then [e] else [] := by
  simp only [debugModeSignals, List.filter_append, List.filter_cons, List.filter_nil]

@[simp] theorem debugModeSignals_error {r : ResultStatus} :
    debugModeSignals (log ++ [.errorThrown r]) = debugModeSignals log := by
  simp [debugModeSignals_snoc, Signal.isDebugMode]

/-- A `DebugModeLeft` is the last debug-mode signal of the log: their number is odd. -/
def leftOpen (log : List Signal) : Bool := (debugModeSignals log).length % 2 == 1

theorem Alternates.snoc (h : Alternates log) {e : Signal} (hd : e.isDebugMode = true)
    (he : e = alternation (debugModeSignals log).length) : Alternates (log ++ [e]) := by
  unfold Alternates at *
  rw [debugModeSignals_snoc, if_pos hd, List.length_append, List.length_singleton,
    List.range_succ, List.map_append, ← h, he]
  rfl

@[simp] theorem alternates_error {r : ResultStatus} :
    Alternates (log ++ [.errorThrown r]) ↔ Alternates log := by
  simp only [Alternates, debugModeSignals_error]

@[simp] theorem leftOpen_error {r : ResultStatus} :
    leftOpen (log ++ [.errorThrown r]) = leftOpen log := by
  simp only [leftOpen, debugModeSignals_error]

theorem leftOpen_snoc {e : Signal} (hd : e.isDebugMode = true) :
    leftOpen (log ++ [e]) = !leftOpen log := by
  simp only [leftOpen, debugModeSignals_snoc, if_pos hd, List.length_append,
    List.length_singleton]
  rcases Nat.mod_two_eq_zero_or_one (debugModeSignals log).length with h | h <;>
    simp [h, Nat.add_mod]

/-- `DebugModeLeft` goes on a log that alternates and is not waiting for a `DebugModeEntered`. -/
theorem Alternates.left (h : Alternates log) (ho : leftOpen log = false) :
    Alternates (log ++ [.debugModeLeft]) ∧ leftOpen (log ++ [.debugModeLeft]) = true := by
  refine ⟨h.snoc rfl ?_, by rw [leftOpen_snoc (e := .debugModeLeft) rfl, ho]; rfl⟩
  simp only [leftOpen, beq_eq_false_iff_ne, ne_eq] at ho
  simp [alternation, show (debugModeSignals log).length % 2 = 0 by omega]

/-- `DebugModeEntered` goes on a log that alternates and ends on a `DebugModeLeft`. -/
theorem Alternates.entered (h : Alternates log) (ho : leftOpen log = true) :
    Alternates (log ++ [.debugModeEntered]) ∧ leftOpen (log ++ [.debugModeEntered]) = false := by
  refine ⟨h.snoc rfl ?_, by rw [leftOpen_snoc (e := .debugModeEntered) rfl, ho]; rfl⟩
  simp only [leftOpen, beq_iff_eq] at ho
  simp [alternation, ho]

end Log

/-- What each label knows of `was_active`, of whether a `DebugModeLeft` is outstanding, and of
`stop_run`. At the head of the loop the first two differ only once `stop_run` has been read set,
after which the loop is left. -/
def Expect : Label → (wasActive leftOpen stopRun : Bool) → Prop
  | .loopHead, w, o, stop => (w = true → o = true) ∧ (o = true → w = false → stop = true)
  | .testRunning, w, o, _ => w = o
  | .runLoop, _, o, _ => o = true
  | .readRunning, _, o, _ => o = true
  | .readExecStep, _, o, _ => o = true
  | .testStopRun, w, o, _ => o = true ∧ w = false
  | .testExecStep, w, o, _ => w = o
  | .clearExecStep, _, o, _ => o = true
  | .singleStep, _, o, _ => o = true
  | .waitRunning, w, o, _ => w = o
  | .shutdown, _, _, _ => True

/-- The log alternates, and each label's expectation holds. -/
def Inv (s : State) : Prop :=
  Alternates s.signals ∧ Expect s.pc s.wasActive (leftOpen s.signals) s.stopRun

section Invariant

variable {s : State}

/-- `if (!was_active) emit DebugModeLeft();` where `was_active` says whether one is outstanding:
the log goes on alternating and now ends on `DebugModeLeft`. -/
theorem leaveDebugMode_spec (ha : Alternates s.signals) (hw : s.wasActive = leftOpen s.signals) :
    Alternates s.leaveDebugMode ∧ leftOpen s.leaveDebugMode = true := by
  unfold State.leaveDebugMode
  cases hwa : s.wasActive
  · exact ha.left (hwa ▸ hw).symm
  · exact ⟨ha, (hwa ▸ hw).symm⟩

/-- One step of the loop keeps the invariant. -/
theorem loop_inv (r : ResultStatus) (h : Inv s) : Inv (s.loop r) := by
  obtain ⟨ha, hpc⟩ := h
  cases hl : s.pc <;> simp only [hl, Expect] at hpc <;> simp only [State.loop, hl]
  case loopHead =>
    split_ifs with hs
    · exact ⟨ha, trivial⟩
    · refine ⟨ha, ?_⟩
      simp only [Expect]
      cases hw : s.wasActive <;> cases ho : leftOpen s.signals <;> simp_all
  case testRunning | testExecStep =>
    split_ifs
    · exact leaveDebugMode_spec ha hpc
    · exact ⟨ha, hpc⟩
  case runLoop =>
    cases r with
    | success => exact ⟨ha, hpc⟩
    | shutdownRequested => exact ⟨by simpa using ha, trivial⟩
    | error => exact ⟨by simpa using ha, by simpa [Expect] using hpc⟩
  case readRunning =>
    split_ifs
    · exact ⟨ha, fun _ => hpc, fun _ h => nomatch h⟩
    · exact ⟨ha, hpc⟩
  case readExecStep =>
    split_ifs
    · exact ⟨ha, fun _ => hpc, fun _ h => nomatch h⟩
    · exact ⟨ha, hpc, rfl⟩
  case testStopRun =>
    split_ifs with hs
    · exact ⟨ha, fun h => absurd (hpc.2 ▸ h) Bool.false_ne_true, fun _ _ => hs⟩
    · obtain ⟨ha', ho⟩ := ha.entered hpc.1
      exact ⟨ha', fun h => absurd (hpc.2 ▸ h) Bool.false_ne_true,
        fun h => absurd (ho ▸ h) Bool.false_ne_true⟩
  case clearExecStep => exact ⟨ha, hpc⟩
  case singleStep =>
    obtain ⟨ha', ho⟩ := ha.entered hpc
    refine ⟨ha', ?_⟩
    simp [Expect, ho]
  case waitRunning =>
    split_ifs
    · refine ⟨ha, ?_⟩
      simp only [Expect]
      rw [hpc]
      exact ⟨id, fun h₁ h₂ => absurd (h₁.symm.trans h₂) (by decide)⟩
    · exact ⟨ha, by simp only [hl, Expect]; exact hpc⟩
  case shutdown => exact ⟨ha, by simp only [hl, Expect]⟩

/-- Another thread's write keeps the invariant: it never touches the loop's signals, `pc` or
`was_active`, and `stop_run` only goes to `true`. -/
theorem step_inv (a : Action) (h : Inv s) : Inv (s.step a) := by
  cases a with
  | loop r => exact loop_inv r h
  | setRunning b | setExecStep b => exact h
  | stop =>
    refine ⟨h.1, ?_⟩
    have h₂ := h.2
    simp only [State.step]
    cases hl : s.pc <;> simp only [hl, Expect] at h₂ ⊢ <;>
      first | exact h₂ | exact ⟨h₂.1, fun _ _ => trivial⟩

theorem start_inv (running execStep stopRun : Bool) : Inv (start running execStep stopRun) := by
  simp [Inv, Alternates, start, Expect, leftOpen]

theorem steps_inv (h : Inv s) (acts : List Action) : Inv (s.steps acts) := by
  induction acts generalizing s with
  | nil => exact h
  | cons a acts ih => exact ih (step_inv a h)

end Invariant

/-- Whatever the other threads write to `running` and `exec_step` and whenever they set
`stop_run`, and whatever `RunLoop` returns, the `DebugModeLeft` and `DebugModeEntered` signals of
`run` alternate strictly, starting with `DebugModeLeft`. -/
theorem debug_mode_signals_alternate (running execStep stopRun : Bool) (acts : List Action) :
    Alternates ((start running execStep stopRun).steps acts).signals :=
  (steps_inv (start_inv running execStep stopRun) acts).1

/-! ### Leaving the loop -/

def Action.isLoop : Action → Bool
  | .loop _ => true
  | _ => false

/-- How many steps of the loop can still come before `Shutdown` once `stop_run` is set. -/
def Label.stopRank : Label → Nat
  | .shutdown => 0
  | .loopHead => 1
  | .testStopRun | .singleStep | .waitRunning => 2
  | .readExecStep | .clearExecStep => 3
  | .readRunning | .testExecStep => 4
  | .runLoop => 5
  | .testRunning => 6

theorem stopRank_le (l : Label) : l.stopRank ≤ 6 := by cases l <;> decide

theorem stopRank_eq_zero {l : Label} : l.stopRank = 0 ↔ l = .shutdown := by cases l <;> decide

/-- With `stop_run` set, a step of the loop brings it one closer to `Shutdown`, and a write by
another thread leaves it where it is. -/
theorem step_stopRank {s : State} (hs : s.stopRun = true) (a : Action) :
    (s.step a).pc.stopRank ≤ s.pc.stopRank - (if a.isLoop then 1 else 0) ∧
      (s.step a).stopRun = true := by
  cases a with
  | loop r =>
    simp only [State.step, Action.isLoop, if_true]
    cases hl : s.pc <;> cases r <;> simp only [State.loop, hl] <;> (try split_ifs) <;>
      simp_all [Label.stopRank]
  | setRunning | setExecStep => exact ⟨by simp [State.step, Action.isLoop], hs⟩
  | stop => exact ⟨by simp [State.step, Action.isLoop], rfl⟩

theorem steps_stopRank {s : State} (hs : s.stopRun = true) (acts : List Action) :
    (s.steps acts).pc.stopRank ≤ s.pc.stopRank - acts.countP Action.isLoop := by
  induction acts generalizing s with
  | nil => simp
  | cons a acts ih =>
    obtain ⟨h₁, h₂⟩ := step_stopRank hs a
    have := ih h₂
    rw [steps_cons, List.countP_cons]
    split_ifs at h₁ ⊢ <;> omega

/-- Once `stop_run` is set, whatever the other threads write, the loop reaches `Shutdown` within six
of its own steps, from any point of it. -/
theorem loop_leaves_after_stop (s : State) (acts : List Action) (hs : s.stopRun = true)
    (h6 : 6 ≤ acts.countP Action.isLoop) : (s.steps acts).pc = .shutdown := by
  have h := steps_stopRank hs acts
  have := stopRank_le s.pc
  exact stopRank_eq_zero.1 (by omega)

/-- Stop requested while the loop tests `running`, and `running` cleared while `RunLoop` runs: the
loop takes the longest way round, through `if (!was_active && !stop_run)`, and leaves at its sixth
step and not before. -/
theorem loop_leaves_from_running :
    ((start true false false).steps [.loop .success, .stop]).stopRun = true ∧
      6 ≤ [Action.loop .success, .setRunning false, .loop .success, .loop .success,
        .loop .success, .loop .success, .loop .success].countP Action.isLoop ∧
      (((start true false false).steps [.loop .success, .stop]).steps [.loop .success,
        .setRunning false, .loop .success, .loop .success, .loop .success, .loop .success,
        .loop .success]).pc = .shutdown ∧
      (((start true false false).steps [.loop .success, .stop]).steps [.loop .success,
        .setRunning false, .loop .success, .loop .success, .loop .success,
        .loop .success]).pc ≠ .shutdown :=
  ⟨rfl, by decide, loop_leaves_after_stop _ _ rfl (by decide), by decide⟩

/-! ### Calls into the core -/

/-- The points where the next step of the loop calls `RunLoop` or `SingleStep`. -/
def Label.executes : Label → Bool
  | .runLoop | .singleStep => true
  | _ => false

/-- Whatever the other threads write and `RunLoop` returns, the loop calls `RunLoop` or
`SingleStep` only while a `DebugModeLeft` is the last debug-mode signal it emitted. -/
theorem executes_in_debug_mode_left (running execStep stopRun : Bool) (acts : List Action)
    (hx : ((start running execStep stopRun).steps acts).pc.executes = true) :
    leftOpen ((start running execStep stopRun).steps acts).signals = true := by
  have h := (steps_inv (start_inv running execStep stopRun) acts).2
  revert h hx
  cases ((start running execStep stopRun).steps acts).pc <;> simp [Label.executes, Expect]

theorem executes_in_debug_mode_left_while_running :
    ((start true false false).steps [.loop .success, .loop .success]).pc.executes = true ∧
      leftOpen ((start true false false).steps [.loop .success, .loop .success]).signals = true :=
  ⟨rfl, executes_in_debug_mode_left true false false _ rfl⟩

/-- How many steps of the loop an interleaving takes at the points `here`. -/
def State.callsAt (here : Label → Bool) : State → List Action → Nat
  | _, [] => 0
  | s, a :: as => (if a.isLoop && here s.pc then 1 else 0) + (s.step a).callsAt here as

/-- The points from which, once `stop_run` is set, the loop goes back to its head and leaves
without another call into the core. -/
def Label.closing : Label → Bool
  | .loopHead | .readRunning | .readExecStep | .testStopRun | .shutdown => true
  | _ => false

theorem closing_step {s : State} (hs : s.stopRun = true) (h : s.pc.closing = true) (a : Action) :
    (s.step a).pc.closing = true := by
  cases a with
  | loop r =>
    simp only [State.step]
    cases hl : s.pc <;> simp only [hl, Label.closing] at h <;> cases h <;>
      simp only [State.loop, hl, hs] <;> (try split_ifs) <;> rfl
  | setRunning | setExecStep | stop => exact h

/-- A call into the core leads to a closing point. -/
theorem executes_closing {s : State} (h : s.pc.executes = true) (r : ResultStatus) :
    (s.loop r).pc.closing = true := by
  cases hl : s.pc <;> simp only [hl, Label.executes] at h <;> cases h
  · cases r <;> simp only [State.loop, hl] <;> rfl
  · simp only [State.loop, hl]; rfl

theorem callsAt_closing {s : State} (hs : s.stopRun = true) (h : s.pc.closing = true)
    (acts : List Action) : s.callsAt Label.executes acts = 0 := by
  induction acts generalizing s with
  | nil => rfl
  | cons a acts ih =>
    have hx : s.pc.executes = false := by
      revert h; cases s.pc <;> decide
    simp only [State.callsAt, hx, Bool.and_false, Bool.false_eq_true, if_false, Nat.zero_add]
    exact ih (step_stopRank hs a).2 (closing_step hs h a)

/-- Once `stop_run` is set, whatever the other threads write, the loop calls `RunLoop` or
`SingleStep` at most once more, from any point of it. -/
theorem one_call_after_stop (s : State) (acts : List Action) (hs : s.stopRun = true) :
    s.callsAt Label.executes acts ≤ 1 := by
  induction acts generalizing s with
  | nil => exact Nat.zero_le 1
  | cons a acts ih =>
    simp only [State.callsAt]
    cases a with
    | loop r =>
      by_cases hx : s.pc.executes = true
      · rw [callsAt_closing (step_stopRank hs (.loop r)).2 (executes_closing hx r)]
        simp [Action.isLoop, hx]
      · simpa [Action.isLoop, hx] using ih _ (step_stopRank hs (.loop r)).2
    | setRunning | setExecStep | stop => simpa [Action.isLoop] using ih _ (step_stopRank hs _).2

theorem one_call_after_stop_at_runLoop :
    ((start true false false).steps [.loop .success, .loop .success, .stop]).stopRun = true ∧
      ((start true false false).steps [.loop .success, .loop .success, .stop]).callsAt
        Label.executes [.loop .success, .loop .success, .loop .success] = 1 :=
  ⟨rfl, le_antisymm (one_call_after_stop _ _ rfl) (by decide)⟩

/-- The point where the next step of the loop calls `SingleStep`. -/
def Label.isSingleStep : Label → Bool
  | .singleStep => true
  | _ => false

/-- A write of `true` into `exec_step`. -/
def Action.requestsStep : Action → Bool
  | .setExecStep b => b
  | _ => false

/-- The single steps the loop owes: one from reading `exec_step` set until `SingleStep` runs, and
one for `exec_step` set at any point but the one that clears it. -/
def State.owedSteps (s : State) : Nat :=
  match s.pc with
  | .clearExecStep => 1
  | .singleStep => 1 + s.execStep.toNat
  | _ => s.execStep.toNat

/-- A step of the loop calls `SingleStep` exactly when it pays a step owed. -/
theorem loop_owedSteps (s : State) (r : ResultStatus) :
    (if s.pc.isSingleStep then 1 else 0) + (s.loop r).owedSteps = s.owedSteps := by
  cases hl : s.pc <;> simp only [State.loop, hl]
  case runLoop => cases r <;> simp [State.owedSteps, hl, Label.isSingleStep]
  all_goals (try split_ifs) <;> simp_all [State.owedSteps, Label.isSingleStep]

/-- Only a write of `true` into `exec_step` adds a step owed. -/
theorem owedSteps_step (s : State) (a : Action) :
    (if a.isLoop && s.pc.isSingleStep then 1 else 0) + (s.step a).owedSteps ≤
      s.owedSteps + if a.requestsStep then 1 else 0 := by
  cases a with
  | loop r => simpa [Action.isLoop, Action.requestsStep] using (loop_owedSteps s r).le
  | setExecStep b =>
    simp only [State.step, State.owedSteps, Action.isLoop, Action.requestsStep]
    cases s.pc <;> cases b <;> cases s.execStep <;> simp
  | setRunning | stop => simp [State.step, State.owedSteps, Action.isLoop, Action.requestsStep]

theorem callsAt_singleStep (s : State) (acts : List Action) :
    s.callsAt Label.isSingleStep acts + (s.steps acts).owedSteps ≤
      s.owedSteps + acts.countP Action.requestsStep := by
  induction acts generalizing s with
  | nil => simp [State.callsAt]
  | cons a acts ih =>
    have h₁ := owedSteps_step s a
    have h₂ := ih (s.step a)
    simp only [State.callsAt, steps_cons, List.countP_cons] at h₂ ⊢
    split_ifs at h₁ ⊢ <;> omega

/-- Whatever the threads do, the loop never calls `SingleStep` more often than `exec_step` was set
to `true`, counting its value when the loop starts: a step request is served at most once. -/
theorem single_steps_le_requests (running execStep stopRun : Bool) (acts : List Action) :
    (start running execStep stopRun).callsAt Label.isSingleStep acts ≤
      (if execStep then 1 else 0) + acts.countP Action.requestsStep := by
  have h := callsAt_singleStep (start running execStep stopRun) acts
  have h₀ : (start running execStep stopRun).owedSteps = if execStep then 1 else 0 := by
    cases execStep <;> rfl
  omega

/-! ### Progress when left alone -/

/-- The point where the next step of the loop calls `RunLoop`. -/
def Label.isRunLoop : Label → Bool
  | .runLoop => true
  | _ => false

/-- A rank on points that every step of the loop lowers while `keep` holds, until a point `here`:
then the loop takes a step at `here` within `rank + 1` of its steps. -/
theorem callsAt_pos {here : Label → Bool} {rank : Label → Nat} {keep : State → Prop}
    {ok : ResultStatus → Prop}
    (hstep : ∀ s r, keep s → ok r → here s.pc = false →
      keep (s.loop r) ∧ rank (s.loop r).pc < rank s.pc)
    {s : State} (hs : keep s) {rs : List ResultStatus} (hrs : ∀ r ∈ rs, ok r)
    (hlen : rank s.pc < rs.length) : 1 ≤ s.callsAt here (rs.map .loop) := by
  induction rs generalizing s with
  | nil => exact absurd hlen (Nat.not_lt_zero _)
  | cons r rs ih =>
    simp only [List.map_cons, State.callsAt, Action.isLoop, Bool.true_and]
    cases hh : here s.pc
    · obtain ⟨hk, hlt⟩ := hstep s r hs (hrs r (List.mem_cons_self r rs)) hh
      have := ih hk (fun r' h => hrs r' (List.mem_cons_of_mem r h))
        (by simp only [List.length_cons] at hlen; omega)
      simp only [Bool.false_eq_true, if_false, Nat.zero_add]
      exact this
    · simp

/-- How many steps of the loop come before `RunLoop` while `running` stays set and `stop_run`
clear. -/
def Label.runRank : Label → Nat
  | .runLoop | .shutdown => 0
  | .testRunning => 1
  | .loopHead => 2
  | .readRunning | .testStopRun | .singleStep | .waitRunning => 3
  | .readExecStep | .clearExecStep => 4
  | .testExecStep => 5

/-- Running, not stopping, and not past `Shutdown`. -/
def State.Running (s : State) : Prop :=
  s.running = true ∧ s.stopRun = false ∧ s.pc ≠ .shutdown

theorem running_loop (s : State) (r : ResultStatus) (hs : s.Running)
    (hx : s.pc.isRunLoop = false) : (s.loop r).Running ∧ (s.loop r).pc.runRank < s.pc.runRank := by
  obtain ⟨hr, hst, hpc⟩ := hs
  cases hl : s.pc <;> simp only [hl, Label.isRunLoop, ne_eq] at hx hpc <;>
    simp only [State.loop, hl] <;> (try split_ifs) <;> simp_all [State.Running, Label.runRank]

/-- Left alone by the other threads, a loop with `running` set and `stop_run` clear calls
`RunLoop` within six of its steps, from any point short of `Shutdown` and whatever `RunLoop`
returns: nothing but `running` holds the core back, and the wait never blocks it. -/
theorem runLoop_within_six (s : State) (hr : s.running = true) (hs : s.stopRun = false)
    (hpc : s.pc ≠ .shutdown) (rs : List ResultStatus) (h6 : 6 ≤ rs.length) :
    1 ≤ s.callsAt Label.isRunLoop (rs.map .loop) := by
  have hle : s.pc.runRank ≤ 5 := by cases s.pc <;> decide
  exact callsAt_pos (fun s r hs (_ : True) hx => running_loop s r hs hx) ⟨hr, hs, hpc⟩
    (fun _ _ => trivial) (by omega)

theorem runLoop_within_six_from_start :
    (start true false false).running = true ∧ (start true false false).stopRun = false ∧
      (start true false false).pc ≠ .shutdown ∧
      1 ≤ (start true false false).callsAt Label.isRunLoop
        ((List.replicate 6 ResultStatus.success).map .loop) :=
  ⟨rfl, rfl, by decide, runLoop_within_six _ rfl rfl (by decide) _ (by decide)⟩

/-- How many steps of the loop come before `SingleStep` while `running` stays clear, `exec_step`
set and `stop_run` clear. -/
def Label.stepRank : Label → Nat
  | .singleStep | .shutdown => 0
  | .clearExecStep => 1
  | .testExecStep => 2
  | .testRunning => 3
  | .loopHead => 4
  | .readExecStep | .testStopRun | .waitRunning => 5
  | .readRunning => 6
  | .runLoop => 7

/-- Paused with a step requested, not stopping, and not past `Shutdown`; `exec_step` is cleared
only on the way into `SingleStep`. -/
def State.StepRequested (s : State) : Prop :=
  s.running = false ∧ (s.execStep = true ∨ s.pc = .singleStep) ∧ s.stopRun = false ∧
    s.pc ≠ .shutdown

theorem stepRequested_loop (s : State) (r : ResultStatus) (hs : s.StepRequested)
    (hr : r ≠ .shutdownRequested) (hx : s.pc.isSingleStep = false) :
    (s.loop r).StepRequested ∧ (s.loop r).pc.stepRank < s.pc.stepRank := by
  obtain ⟨hrun, he, hst, hpc⟩ := hs
  have he' : s.execStep = true := he.resolve_right fun h => by simp [h, Label.isSingleStep] at hx
  cases hl : s.pc <;> simp only [hl, Label.isSingleStep, ne_eq] at hx hpc <;>
    simp only [State.loop, hl]
  case runLoop => cases r <;> simp_all [State.StepRequested, Label.stepRank]
  all_goals (try split_ifs) <;> simp_all [State.StepRequested, Label.stepRank]

/-- Left alone by the other threads, a paused loop with a step requested calls `SingleStep` within
eight of its steps, from any point short of `Shutdown` and whatever `RunLoop` returns short of a
shutdown request: a step request is never lost. -/
theorem singleStep_within_eight (s : State) (hr : s.running = false) (he : s.execStep = true)
    (hs : s.stopRun = false) (hpc : s.pc ≠ .shutdown) (rs : List ResultStatus)
    (hrs : ∀ r ∈ rs, r ≠ .shutdownRequested) (h8 : 8 ≤ rs.length) :
    1 ≤ s.callsAt Label.isSingleStep (rs.map .loop) := by
  have hle : s.pc.stepRank ≤ 7 := by cases s.pc <;> decide
  exact callsAt_pos (fun s r hs hr hx => stepRequested_loop s r hs hr hx)
    ⟨hr, .inl he, hs, hpc⟩ hrs (by omega)

theorem singleStep_within_eight_from_start :
    (start false true false).running = false ∧ (start false true false).execStep = true ∧
      (start false true false).stopRun = false ∧ (start false true false).pc ≠ .shutdown ∧
      (∀ r ∈ List.replicate 8 ResultStatus.success, r ≠ .shutdownRequested) ∧
      1 ≤ (start false true false).callsAt Label.isSingleStep
        ((List.replicate 8 ResultStatus.success).map .loop) :=
  ⟨rfl, rfl, rfl, by decide, by decide,
    singleStep_within_eight _ rfl rfl rfl (by decide) _ (by decide) (by decide)⟩

end EmuThread

end CitraStream
