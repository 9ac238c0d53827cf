import Mathlib.Data.List.Count
import Mathlib.Tactic.Ring

/-!
# The connection maintenance of `processFrameData`

Every call of `processFrameData`, with or without a frame, first looks at the static socket: when
it is not connected and `waitConnection` is zero it arms `waitConnection = 300` and calls
`connectToHost`, and otherwise it counts `waitConnection` down. `socketSend` writes only while the
socket is connected and drops the bytes otherwise.

A `Link` is what the socket shows at one call; it is the environment, free at every call.
`attempts` runs the maintenance over the states a sequence of calls observes: `attempts_quiet` says
that no attempt is made while the disconnected calls do not outnumber the counter, and
`attempts_live` that one is made as soon as they do.
-/

namespace CitraStream

/-- The socket at one call: connected on entry, whether `waitForConnected(1000)` succeeds if this
call connects, and the byte `readConfirmation` finds (`0` when none is there). -/
structure Link where
  connected : Bool
  connects : Bool
  reply : UInt8
  deriving DecidableEq, Repr

/-- The maintenance at the top of `processFrameData`: the next `waitConnection`, and whether
`connectToHost` is called. -/
def maintainConnection (waitConnection : Nat) (connected : Bool) : Nat × Bool :=
  if connected then (waitConnection, false)
  else if waitConnection = 0 then (300, true) else (waitConnection - 1, false)

/-- Whether `socketSend` finds the socket connected after the maintenance of this call. -/
def Link.up (l : Link) (attempt : Bool) : Bool := l.connected || (attempt && l.connects)

/-- The `connectToHost` calls of the maintenance over calls that observe the states `obs`. -/
def attempts : Nat → List Bool → List Bool
  | _, [] => []
  | w, c :: obs => (maintainConnection w c).2 :: attempts (maintainConnection w c).1 obs

/-- `waitConnection` after calls that observe the states `obs`. -/
def waitAfter : Nat → List Bool → Nat
  | w, [] => w
  | w, c :: obs => waitAfter (maintainConnection w c).1 obs

variable {w : Nat} {c : Bool} {obs : List Bool}

theorem maintainConnection_attempt :
    (maintainConnection w c).2 = true ↔ c = false ∧ w = 0 := by
  unfold maintainConnection
  cases c <;> by_cases hw : w = 0 <;> simp [hw]

theorem maintainConnection_wait_of_attempt (h : (maintainConnection w c).2 = true) :
    (maintainConnection w c).1 = 300 := by
  obtain ⟨rfl, rfl⟩ := maintainConnection_attempt.1 h
  rfl

/-- The counter never leaves `[0, 300]`; it is only decremented when it is not zero. -/
theorem maintainConnection_le (h : w ≤ 300) : (maintainConnection w c).1 ≤ 300 := by
  unfold maintainConnection
  split_ifs <;> simp only <;> omega

/-- Without an attempt a disconnected call counts the wait down, and a connected one keeps it. -/
theorem maintainConnection_quiet (h : (maintainConnection w c).2 = false) :
    (maintainConnection w c).1 = w - (if c then 0 else 1) ∧ (c = false → 0 < w) := by
  unfold maintainConnection at *
  cases c <;> by_cases hw : w = 0 <;> simp_all; omega

@[simp] theorem attempts_length : (attempts w obs).length = obs.length := by
  induction obs generalizing w <;> simp [attempts, *]

/-- While the disconnected calls do not outnumber the counter no attempt is made, and each of them
takes one off the counter. -/
theorem attempts_quiet (h : obs.count false ≤ w) :
    (∀ a ∈ attempts w obs, a = false) ∧ waitAfter w obs = w - obs.count false := by
  induction obs generalizing w with
  | nil => simp [attempts, waitAfter]
  | cons c obs ih =>
    have hq : (maintainConnection w c).2 = false := by
      cases hm : (maintainConnection w c).2
      · rfl
      · obtain ⟨rfl, rfl⟩ := maintainConnection_attempt.1 hm
        simp at h
    obtain ⟨hw, -⟩ := maintainConnection_quiet hq
    have hrest := ih (w := (maintainConnection w c).1) (by
      rw [hw]; cases c <;> simp at h ⊢ <;> omega)
    refine ⟨fun a ha => ?_, ?_⟩
    · rcases List.mem_cons.1 ha with rfl | ha
      · exact hq
      · exact hrest.1 a ha
    · rw [waitAfter, hrest.2, hw]; cases c <;> simp; omega

/-- Once the disconnected calls outnumber the counter, one of them calls `connectToHost`. -/
theorem attempts_live (h : w < obs.count false) : true ∈ attempts w obs := by
  induction obs generalizing w with
  | nil => simp at h
  | cons c obs ih =>
    rw [attempts, List.mem_cons]
    cases hm : (maintainConnection w c).2
    · obtain ⟨hw, hpos⟩ := maintainConnection_quiet hm
      right; apply ih; rw [hw]; cases c <;> simp at h hpos ⊢ <;> omega
    · exact .inl rfl

end CitraStream
