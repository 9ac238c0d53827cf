import CitraStream.Reference

/-!
# The socket across calls

The connection maintenance runs at every call, polls included, and is the only part of
`processFrameData` that reads the socket's state; the rest never reads `waitConnection`
(`encodeFrame_setWait`). So on the machine:

* `waitConnection` follows `attempts` of `Transport.lean` over the states the calls observe, and
  `connection_retry_schedule` gives the retry schedule: the counter stays in `[0, 300]`, an attempt
  is made only on a disconnected socket, two attempts are at least 301 calls apart, and 301
  disconnected calls always contain one.
* The modes and messages of a run do not depend on the socket at all (`sent_link_independent`):
  nothing is reset when a connection comes up, so the first message a new connection carries is
  whatever the selector picks, `NONE` in `lateConnectRun`.
-/

namespace CitraStream

namespace Pump

/-- The maintenance part of a call: `waitConnection`, the attempt and the delivery. -/
theorem step_link (p : Pump) (c : Call) :
    let m := maintainConnection p.1.waitConnection c.link.connected
    (p.step c).1.1.waitConnection = m.1 ∧ (p.step c).2.connectAttempt = m.2 ∧
      (p.step c).2.delivered = c.link.up m.2 := by
  cases hc : c.frame with
  | none => obtain ⟨h₁, h₂⟩ := p.step_poll hc; simp [h₁, h₂, PumpState.setWait]
  | some f => obtain ⟨_, _, _, -, h₁, h₂⟩ := p.step_frame hc; simp [h₁, h₂, PumpState.setWait]

theorem trace_attempts (p : Pump) (cs : List Call) :
    (p.trace cs).map (fun x => x.2.connectAttempt) =
      attempts p.1.waitConnection (cs.map fun c => c.link.connected) := by
  induction cs generalizing p with
  | nil => rfl
  | cons c cs ih =>
    obtain ⟨h₁, h₂, -⟩ := p.step_link c
    simp only [trace_cons, List.map_cons, attempts, ih, h₁, h₂]

theorem Reachable.wait_le {p : Pump} (hp : p.Reachable) : p.1.waitConnection ≤ 300 := by
  induction hp with
  | init => exact Nat.zero_le _
  | step c _ ih => rw [(Pump.step_link _ c).1]; exact maintainConnection_le ih

end Pump

/-- The retry schedule of `processFrameData`: on every run `waitConnection` stays in `[0, 300]`;
`connectToHost` is called only when the socket is observed disconnected; after a call that calls
it, none of the next 300 calls does; and from any reachable state, any calls among which 301 observe
the socket disconnected contain one that calls it. -/
theorem connection_retry_schedule :
    (∀ p : Pump, p.Reachable → p.1.waitConnection ≤ 300) ∧
    (∀ (p : Pump) (c : Call), (p.step c).2.connectAttempt = true → c.link.connected = false) ∧
    (∀ (p : Pump) (c : Call) (cs : List Call), (p.step c).2.connectAttempt = true →
      cs.length ≤ 300 → ∀ x ∈ (p.step c).1.trace cs, x.2.connectAttempt = false) ∧
    (∀ (p : Pump) (cs : List Call), p.Reachable →
      301 ≤ (cs.countP fun c => !c.link.connected) →
      ∃ x ∈ p.trace cs, x.2.connectAttempt = true) := by
  refine ⟨fun p hp => hp.wait_le, fun p c h => ?_, fun p c cs h hlen x hx => ?_,
    fun p cs hp h => ?_⟩
  · obtain ⟨-, h₂, -⟩ := p.step_link c
    exact (maintainConnection_attempt.1 (h₂ ▸ h)).1
  · obtain ⟨h₁, h₂, -⟩ := p.step_link c
    have hw := maintainConnection_wait_of_attempt (h₂ ▸ h)
    have hobs : (cs.map fun c => c.link.connected).count false ≤ 300 := by
      have := List.count_le_length false (cs.map fun c => c.link.connected)
      simp only [List.length_map] at this; omega
    have hquiet := (attempts_quiet hobs).1
    rw [← hw, ← h₁, ← Pump.trace_attempts] at hquiet
    exact hquiet _ (List.mem_map_of_mem _ hx)
  · have hc : (cs.map fun c => c.link.connected).count false =
        cs.countP fun c => !c.link.connected := by
      rw [List.count, List.countP_map]
      exact List.countP_congr fun c _ => by cases h : c.link.connected <;> simp [h]
    have hlive := attempts_live (w := p.1.waitConnection)
      (show _ < (cs.map fun c => c.link.connected).count false by have := hp.wait_le; omega)
    rw [← Pump.trace_attempts, List.mem_map] at hlive
    obtain ⟨x, hx, hxa⟩ := hlive
    exact ⟨x, hx, hxa⟩

@[simp] theorem setWait_setWait {s : PumpState} {a b : Nat} : (s.setWait a).setWait b = s.setWait b :=
  rfl

namespace Pump

/-- Apart from the socket, a call with a frame does what `encodeFrame` does from the state with
`waitConnection` cleared. -/
theorem step_forget (p : Pump) {c : Call} {f : Frame} (hc : c.frame = some f) :
    (encodeFrame 240 320 (p.1.setWait 0) f.1).map (fun e => (e.1.setWait 0, some e.2)) =
      some ((p.step c).1.1.setWait 0, (p.step c).2.sent) := by
  have h := p.step_spec c
  simp only [hc, Option.map_some', processFrameData] at h
  rw [show ({ p.1 with waitConnection := _ } : PumpState) = (p.1.setWait 0).setWait _ from rfl,
    encodeFrame_setWait] at h
  cases he : encodeFrame 240 320 (p.1.setWait 0) f.1 with
  | none => simp [he] at h
  | some e =>
    simp only [he, Option.map_some', Option.bind_eq_bind, Option.some_bind, Option.pure_def,
      Option.some.injEq, Prod.mk.injEq] at h
    rw [← h.1, ← h.2]; rfl

/-- Two runs with the same frames from states equal but for `waitConnection` write the same
messages and end in states equal but for `waitConnection`. -/
theorem trace_sent_congr {p₁ p₂ : Pump} (h : p₁.1.setWait 0 = p₂.1.setWait 0) {cs₁ cs₂ : List Call}
    (hf : cs₁.map Call.frame = cs₂.map Call.frame) :
    (p₁.trace cs₁).map (fun x => x.2.sent) = (p₂.trace cs₂).map (fun x => x.2.sent) ∧
      (p₁.run cs₁).1.setWait 0 = (p₂.run cs₂).1.setWait 0 := by
  induction cs₁ generalizing p₁ p₂ cs₂ with
  | nil => cases cs₂ with
    | nil => exact ⟨rfl, h⟩
    | cons => simp at hf
  | cons c₁ cs₁ ih => cases cs₂ with
    | nil => simp at hf
    | cons c₂ cs₂ =>
      simp only [List.map_cons, List.cons.injEq] at hf
      have hstep : (p₁.step c₁).1.1.setWait 0 = (p₂.step c₂).1.1.setWait 0 ∧
          (p₁.step c₁).2.sent = (p₂.step c₂).2.sent := by
        cases hc : c₂.frame with
        | none =>
          obtain ⟨h₁, h₂⟩ := p₁.step_poll (hf.1.trans hc)
          obtain ⟨h₃, h₄⟩ := p₂.step_poll hc
          rw [h₁, h₃, h₂, h₄]
          exact ⟨h, rfl⟩
        | some f =>
          have := (p₁.step_forget (hf.1.trans hc)).symm.trans (h ▸ p₂.step_forget hc)
          simpa only [Option.some.injEq, Prod.mk.injEq] using this
      obtain ⟨ih₁, ih₂⟩ := ih hstep.1 hf.2
      exact ⟨by simp only [trace_cons, List.map_cons, hstep.2, ih₁], ih₂⟩

/-- Polls keep `lastImage` null. -/
theorem run_polls_lastImage (p : Pump) {cs : List Call} (hcs : ∀ c ∈ cs, c.frame = none) :
    (p.run cs).1.lastImage = p.1.lastImage := by
  induction cs generalizing p with
  | nil => rfl
  | cons c cs ih =>
    rw [run_cons, ih _ fun c' h => hcs c' (List.mem_cons_of_mem c h),
      (p.step_poll (hcs c (List.mem_cons_self c cs))).1]
    rfl

end Pump

/-- Nothing `processFrameData` writes depends on the socket: two runs with the same frames write
the same modes and messages, whatever each socket did, and end in the same state but for
`waitConnection`; a connection coming up resets nothing. The one `FULL` forced by the stream's
state is the first frame of the process, sent whether or not a connection is up. -/
theorem sent_link_independent :
    (∀ (p : Pump) (cs₁ cs₂ : List Call), cs₁.map Call.frame = cs₂.map Call.frame →
      (p.trace cs₁).map (fun x => x.2.sent) = (p.trace cs₂).map (fun x => x.2.sent) ∧
        (p.run cs₁).1.setWait 0 = (p.run cs₂).1.setWait 0) ∧
    (∀ (cs : List Call) (c : Call), (∀ c' ∈ cs, c'.frame = none) → c.frame.isSome →
      ((Pump.init.run cs).step c).2.mode = some .full) := by
  refine ⟨fun p cs₁ cs₂ hf => Pump.trace_sent_congr rfl hf, fun cs c hcs hc => ?_⟩
  obtain ⟨f, hf⟩ := Option.isSome_iff_exists.1 hc
  have hL : (Pump.init.run cs).1.lastImage = none := Pump.init.run_polls_lastImage hcs
  rw [(Pump.step_selector _ c).2.1, hf, Option.map_some']
  simp [Selector.mode, PumpState.selector, hL]

/-- A call observing the socket down, with nothing else on it. -/
def downPoll : Call := ⟨none, ⟨false, false, 0⟩⟩

/-- The first frame goes out while the socket is down and its connection attempt fails; 300 polls
count the retry down. -/
def lateConnectRun : List Call :=
  ⟨some (solidFrame 0), ⟨false, false, 0⟩⟩ :: List.replicate 300 downPoll

/-- The call of the second attempt, which connects. -/
def connectingCall : Call := ⟨some (solidFrame 0), ⟨false, true, 0⟩⟩

theorem run_downPolls (p : Pump) (n : Nat) (hn : n ≤ p.1.waitConnection) :
    (p.run (List.replicate n downPoll)).1 = p.1.setWait (p.1.waitConnection - n) ∧
      ∀ x ∈ p.trace (List.replicate n downPoll), x.2.delivered = false := by
  induction n generalizing p with
  | zero => exact ⟨rfl, by simp⟩
  | succ n ih =>
    obtain ⟨h₁, h₂⟩ := p.step_poll (c := downPoll) rfl
    have hw : maintainConnection p.1.waitConnection downPoll.link.connected =
        (p.1.waitConnection - 1, false) := by
      simp [maintainConnection, downPoll, show p.1.waitConnection ≠ 0 by omega]
    rw [hw] at h₁ h₂
    have hw' : (p.step downPoll).1.1.waitConnection = p.1.waitConnection - 1 := by rw [h₁]; rfl
    obtain ⟨ih₁, ih₂⟩ := ih (p.step downPoll).1 (by omega)
    refine ⟨?_, ?_⟩
    · rw [List.replicate_succ, Pump.run_cons, ih₁, hw', h₁, setWait_setWait]
      congr 1; omega
    · rw [List.replicate_succ, Pump.trace_cons]
      intro x hx
      rcases List.mem_cons.1 hx with rfl | hx
      · rw [h₂]; rfl
      · exact ih₂ x hx

/-- Whatever was sent before, the first message a new connection carries need not be `FULL`: here
nothing reaches the socket until the second attempt connects, and the frame of that call is sent
`NONE` (code 0), relative to a first frame the viewer never received. -/
theorem first_delivered_message_is_none :
    (∀ x ∈ Pump.init.trace lateConnectRun, x.2.delivered = false) ∧
      ((Pump.init.run lateConnectRun).step connectingCall).2.delivered = true ∧
      ((Pump.init.run lateConnectRun).step connectingCall).2.code = some 0 := by
  let c₁ : Call := ⟨some (solidFrame 0), ⟨false, false, 0⟩⟩
  obtain ⟨h₁σ, h₁r, -⟩ := Pump.init_step_solid (c := c₁) rfl
  obtain ⟨h₁w, -, h₁d⟩ := Pump.init.step_link c₁
  have hw : (Pump.init.step c₁).1.1.waitConnection = 300 := h₁w
  obtain ⟨hp, hpd⟩ := run_downPolls (Pump.init.step c₁).1 300 hw.ge
  have hrun : (Pump.init.run lateConnectRun).1 = (Pump.init.step c₁).1.1.setWait 0 := by
    rw [lateConnectRun, Pump.run_cons, hp, hw]
  refine ⟨?_, ?_, ?_⟩
  · rw [lateConnectRun, Pump.trace_cons]
    intro x hx
    rcases List.mem_cons.1 hx with rfl | hx
    · rw [h₁d]; rfl
    · exact hpd x hx
  · rw [(Pump.step_link _ connectingCall).2.2, hrun]
    rfl
  · obtain ⟨-, -, -, hcode⟩ := Pump.step_solid (Pump.init.run lateConnectRun)
      (c := connectingCall) (σ := ⟨0, .full, 0, true⟩) rfl (by rw [hrun]; exact h₁σ)
      (by rw [hrun]; exact h₁r)
    exact hcode.trans (by decide)

end CitraStream
