import CitraStream.FramePump

/-!
# The frame pump as a machine

`ConnectCTroll3D` fixes the layout to 240×320 and hands `processFrameData` the bits of
`screen_image`, a 240×320 RGB888 image. On that layout and from a sound state every call returns
`some` (`processFrameData_sound`), so the pump is a total machine `Pump.step` on sound states,
connected to the checked model by `Pump.step_spec`. `Pump.trace` records the state and the outcome
after every call of a sequence.

`Pump.step_poll` and `Pump.step_frame` say once what a call can do; the later modules argue from
them and never unfold `processFrameData`.
-/

namespace CitraStream

/-- A frame of the capture layout: the 240×320 RGB888 bits of `screen_image`. -/
def Frame := {f : Buffer // f.size = 240 * 320 * 3}

/-- One call of the renderer's callback: a frame or a null pointer, and what the socket shows. -/
structure Call where
  frame : Option Frame
  link : Link

/-- A state of the pump whose buffers have their allocated sizes. -/
def Pump := {s : PumpState // Sound s}

/-- `PumpState` with `waitConnection` replaced. -/
def PumpState.setWait (s : PumpState) (n : Nat) : PumpState := { s with waitConnection := n }

section SetWait

variable {s : PumpState} {n width height : Nat} {f : Buffer}

@[simp] theorem setWait_lastImage : (s.setWait n).lastImage = s.lastImage := rfl
@[simp] theorem setWait_diffBuf : (s.setWait n).diffBuf = s.diffBuf := rfl
@[simp] theorem setWait_diffMap : (s.setWait n).diffMap = s.diffMap := rfl
@[simp] theorem setWait_checker : (s.setWait n).checker = s.checker := rfl
@[simp] theorem forcedMode_setWait : forcedMode (s.setWait n) = forcedMode s := rfl

theorem selectFrameMode_setWait :
    selectFrameMode width height (s.setWait n) f =
      (selectFrameMode width height s f).map fun r => (r.1.setWait n, r.2) := by
  unfold selectFrameMode
  cases hL : s.lastImage with
  | none =>
    simp only [setWait_lastImage, hL]
    cases f.slice 0 (width * height * 3) <;> rfl
  | some L =>
    simp only [setWait_lastImage, hL, forcedMode_setWait, setWait_diffBuf, setWait_diffMap]
    split_ifs
    · cases imageDiff L f s.diffBuf s.diffMap width height <;> rfl
    · rfl

theorem transmit_setWait {m : FrameMode} {k : Nat} :
    transmit width height (s.setWait n) m k f =
      (transmit width height s m k f).map fun t => (t.1.setWait n, t.2) := by
  cases m <;> simp only [transmit, setWait_diffBuf, setWait_checker]
  · rfl
  · cases f.slice 0 (width * height * 3) <;> rfl
  · cases s.diffBuf.slice 0 (8 * (8 * k) * 3) <;> rfl
  all_goals cases checkerboard f (interlaceBuffer width height) width height s.checker <;> rfl

/-- `encodeFrame` never reads nor writes `waitConnection`. -/
theorem encodeFrame_setWait :
    encodeFrame width height (s.setWait n) f =
      (encodeFrame width height s f).map fun e => (e.1.setWait n, e.2) := by
  simp only [encodeFrame, selectFrameMode_setWait]
  cases selectFrameMode width height s f with
  | none => rfl
  | some r =>
    simp only [Option.map_some', Option.bind_eq_bind, Option.some_bind, transmit_setWait]
    cases transmit width height r.1 r.2.1 r.2.2 f <;> rfl

end SetWait

theorem Sound.setWait {s : PumpState} (hs : Sound s) (n : Nat) : Sound (s.setWait n) :=
  ⟨hs.last_size, hs.buf_size, hs.map_size, hs.checker_le⟩

theorem Sends.sound {s s' : PumpState} {f : Buffer} {m : FrameMode} {msg : Message} (hs : Sound s)
    (hf : f.size = 240 * 320 * 3) (h : Sends s f m msg s') : Sound s' := by
  have hc : (s.checker + 1) &&& 1 ≤ 1 := Nat.and_le_right
  cases h with
  | first hL hi =>
    rw [Buffer.slice_of_le (by omega), Option.some.injEq] at hi
    exact ⟨fun L h => by cases h; rw [← hi], hs.buf_size, hs.map_size, hs.checker_le⟩
  | refresh => exact ⟨hs.last_size, hs.buf_size, hs.map_size, hs.checker_le⟩
  | compl => exact ⟨hs.last_size, hs.buf_size, hs.map_size, hc⟩
  | unchanged hL _ hd | diff hL _ hd | checker hL _ hd =>
    have hp := imageDiff_spec (fits_of_sound hs hL hf) hd
    refine ⟨fun L' h => ?_, hp.buf_size.trans hs.buf_size, hp.map_size.trans hs.map_size, ?_⟩
    · cases h; exact hp.last_size.trans (hs.last_size _ hL)
    all_goals first | exact hs.checker_le | exact hc

theorem processFrameData_sound (p : Pump) (c : Call) :
    ∃ r, processFrameData 240 320 p.1 (c.frame.map Subtype.val) c.link = some r ∧ Sound r.1 := by
  have hs := p.2.setWait (maintainConnection p.1.waitConnection c.link.connected).1
  cases hc : c.frame with
  | none => exact ⟨_, rfl, hs⟩
  | some f =>
    obtain ⟨s', m, msg, he, hsends⟩ := encodeFrame_sends hs f.2
    refine ⟨(s', ⟨(maintainConnection p.1.waitConnection c.link.connected).2, some (m, msg),
      c.link.up (maintainConnection p.1.waitConnection c.link.connected).2, c.link.reply⟩), ?_,
      hsends.sound hs f.2⟩
    simp only [processFrameData, Option.map_some']
    rw [show ({ p.1 with waitConnection := _ } : PumpState) = p.1.setWait _ from rfl, he]
    rfl

theorem processFrameData_isSome (p : Pump) (c : Call) :
    (processFrameData 240 320 p.1 (c.frame.map Subtype.val) c.link).isSome := by
  obtain ⟨r, hr, -⟩ := processFrameData_sound p c
  rw [hr]; rfl

theorem processFrameData_get_sound (p : Pump) (c : Call) :
    Sound ((processFrameData 240 320 p.1 (c.frame.map Subtype.val) c.link).get
      (processFrameData_isSome p c)).1 := by
  obtain ⟨r, hr, hs⟩ := processFrameData_sound p c
  rwa [Option.get_of_mem _ hr]

namespace Pump

/-- The pump at start-up. -/
def init : Pump := ⟨PumpState.init, Sound.init⟩

/-- One call of the callback, `processFrameData(layout, frameData, address)`. -/
def step (p : Pump) (c : Call) : Pump × Outcome :=
  (⟨_, processFrameData_get_sound p c⟩,
    ((processFrameData 240 320 p.1 (c.frame.map Subtype.val) c.link).get
      (processFrameData_isSome p c)).2)

/-- The state and the outcome after each call of a sequence. -/
def trace : Pump → List Call → List (Pump × Outcome)
  | _, [] => []
  | p, c :: cs => p.step c :: trace (p.step c).1 cs

/-- The state after a sequence of calls. -/
def run : Pump → List Call → Pump
  | p, [] => p
  | p, c :: cs => run (p.step c).1 cs

/-- States some sequence of calls leads to from start-up. -/
inductive Reachable : Pump → Prop where
  | init : Reachable init
  | step {p : Pump} (c : Call) : Reachable p → Reachable (p.step c).1

theorem step_spec (p : Pump) (c : Call) :
    processFrameData 240 320 p.1 (c.frame.map Subtype.val) c.link =
      some ((p.step c).1.1, (p.step c).2) := by
  simp [step]

@[simp] theorem trace_nil (p : Pump) : p.trace [] = [] := rfl

@[simp] theorem trace_cons (p : Pump) (c : Call) (cs : List Call) :
    p.trace (c :: cs) = p.step c :: (p.step c).1.trace cs := rfl

@[simp] theorem run_nil (p : Pump) : p.run [] = p := rfl

@[simp] theorem run_cons (p : Pump) (c : Call) (cs : List Call) :
    p.run (c :: cs) = (p.step c).1.run cs := rfl

theorem run_append (p : Pump) (cs ds : List Call) : p.run (cs ++ ds) = (p.run cs).run ds := by
  induction cs generalizing p <;> simp [*]

@[simp] theorem trace_length (p : Pump) (cs : List Call) : (p.trace cs).length = cs.length := by
  induction cs generalizing p <;> simp [*]

theorem trace_append (p : Pump) (cs ds : List Call) :
    p.trace (cs ++ ds) = p.trace cs ++ (p.run cs).trace ds := by
  induction cs generalizing p <;> simp [*]

/-- A property every call keeps holds of every state of a trace. -/
theorem trace_invariant {I : Pump → Prop} (hstep : ∀ q c, I q → I (q.step c).1) {p : Pump}
    (hp : I p) (cs : List Call) : ∀ x ∈ p.trace cs, I x.1 := by
  induction cs generalizing p with
  | nil => simp
  | cons c cs ih =>
    simp only [trace_cons, List.mem_cons, forall_eq_or_imp]
    exact ⟨hstep p c hp, ih (hstep p c hp)⟩

theorem Reachable.run {p : Pump} (hp : p.Reachable) (cs : List Call) : (p.run cs).Reachable := by
  induction cs generalizing p with
  | nil => exact hp
  | cons c cs ih => exact ih (hp.step c)

/-- A poll only runs the connection maintenance. -/
theorem step_poll (p : Pump) {c : Call} (hc : c.frame = none) :
    let m := maintainConnection p.1.waitConnection c.link.connected
    (p.step c).1.1 = p.1.setWait m.1 ∧ (p.step c).2 = ⟨m.2, none, c.link.up m.2, c.link.reply⟩ := by
  have h := step_spec p c
  simp only [hc, Option.map_none', processFrameData, Option.some.injEq, Prod.mk.injEq] at h
  exact ⟨h.1.symm, h.2.symm⟩

/-- A call with a frame runs the maintenance, then takes a path of `Sends` from the state before,
leaving `waitConnection` as the maintenance set it. -/
theorem step_frame (p : Pump) {c : Call} {f : Frame} (hc : c.frame = some f) :
    let m := maintainConnection p.1.waitConnection c.link.connected
    ∃ fm msg s', Sends p.1 f.1 fm msg s' ∧ (p.step c).1.1 = s'.setWait m.1 ∧
      (p.step c).2 = ⟨m.2, some (fm, msg), c.link.up m.2, c.link.reply⟩ := by
  obtain ⟨s', fm, msg, he, hsends⟩ := encodeFrame_sends p.2 f.2
  refine ⟨fm, msg, s', hsends, ?_⟩
  have h := step_spec p c
  simp only [hc, Option.map_some', processFrameData] at h
  rw [show ({ p.1 with waitConnection := _ } : PumpState) = p.1.setWait _ from rfl,
    encodeFrame_setWait, he] at h
  simp only [Option.map_some', Option.bind_eq_bind, Option.some_bind, Option.pure_def,
    Option.some.injEq, Prod.mk.injEq] at h
  exact ⟨h.1.symm, h.2.symm⟩

end Pump

/-- From start-up, whatever calls came before, the next call on the 240×320 layout returns and
leaves the buffers their sizes: every access of `imageDiff`, of the checkerboard loop and of the
slices stays inside its buffer. -/
theorem processFrameData_in_bounds (cs : List Call) (c : Call) :
    ∃ r, processFrameData 240 320 (Pump.init.run cs).1 (c.frame.map Subtype.val) c.link = some r ∧
      Sound r.1 :=
  processFrameData_sound _ c

end CitraStream
