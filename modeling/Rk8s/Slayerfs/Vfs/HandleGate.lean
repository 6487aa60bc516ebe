import Rk8s.Lib.Slots
import Rk8s.Lib.Transition

namespace Rk8s.Slayerfs

open Transition Slots

/-!
# The gate of a file handle

Reads of a handle hold a read guard and writes a write guard.  New reads wait for
the writes that wait.  Each step below runs under the mutex of the gate: a round of
`read_lock` or `write_lock`, the count of a new waiter, and the drop of a guard or of
a future.
-/

@[irreducible] def u32Max : Nat := 2 ^ 32 - 1

structure GateState where
  readers : Nat
  writersWaiting : Nat
  writing : Bool

/-- A call of `read_lock` or `write_lock`, or the guard that it has returned.  The
future of a write that waits holds an active waiter. -/
inductive GateCall
  | readLock
  | readGuard
  | writeLock
  | waiting
  | writeGuard
  | dropped
  deriving DecidableEq

def GateCall.counts (place call : GateCall) : Nat := if call = place then 1 else 0

namespace GateState

variable (gate : GateState)

/-- A round of `read_lock`. -/
def readLock : GateState × GateCall :=
  if gate.writing = false ∧ gate.writersWaiting = 0 then
    ({ gate with readers := min (gate.readers + 1) u32Max }, .readGuard)
  else (gate, .readLock)

def newWaiter : GateState × GateCall :=
  ({ gate with writersWaiting := min (gate.writersWaiting + 1) u32Max }, .waiting)

def waitingDec : GateState := { gate with writersWaiting := gate.writersWaiting - 1 }

def dropWaiter (active : Bool) : GateState := if active then gate.waitingDec else gate

/-- A round of `write_lock`.  The one that returns a guard disarms the waiter. -/
def writeLock : GateState × GateCall :=
  if gate.readers = 0 ∧ gate.writing = false then
    -- `wrapping_sub`
    let waiting := (gate.writersWaiting + u32Max) % (u32Max + 1)
    (dropWaiter { gate with writing := true, writersWaiting := waiting } false, .writeGuard)
  else (gate, .waiting)

def readUnlock : GateState := { gate with readers := gate.readers - 1 }

def writeUnlock : GateState := { gate with writing := false }

def poll : GateCall -> Option (GateState × GateCall)
  | .readLock => some gate.readLock
  | .writeLock => some gate.newWaiter
  | .waiting => some gate.writeLock
  | _ => none

def drop : GateCall -> Option (GateState × GateCall)
  | .readLock | .writeLock => some (gate, .dropped)
  | .waiting => some (gate.dropWaiter true, .dropped)
  | .readGuard => some (gate.readUnlock, .dropped)
  | .writeGuard => some (gate.writeUnlock, .dropped)
  | .dropped => none

/-- A write excludes all others, and the counters are right. -/
structure Exact (readGuards writeGuards pending : Nat) : Prop where
  writing : writeGuards = gate.writing.toNat
  excluded : gate.writing = true -> readGuards = 0
  readers : gate.readers = readGuards
  waiting : gate.writersWaiting = pending

end GateState

structure HandleGate where
  state : GateState
  calls : List GateCall

inductive GateAction
  | readLock
  | writeLock
  | poll (index : Nat)
  | drop (index : Nat)

namespace HandleGate

def new : HandleGate := ⟨⟨0, 0, false⟩, []⟩

variable (gate : HandleGate)

def step : GateAction -> Option HandleGate
  | .readLock => some { gate with calls := gate.calls ++ [.readLock] }
  | .writeLock => some { gate with calls := gate.calls ++ [.writeLock] }
  | .poll index => do
    let (state, call) <- gate.state.poll (<- gate.calls[index]?)
    some ⟨state, gate.calls.set index call⟩
  | .drop index => do
    let (state, call) <- gate.state.drop (<- gate.calls[index]?)
    some ⟨state, gate.calls.set index call⟩

/-- How many calls are at a place. -/
def live (place : GateCall) : Nat := (gate.calls.map place.counts).sum

def Exact : Prop :=
  gate.state.Exact (gate.live .readGuard) (gate.live .writeGuard) (gate.live .waiting)

/-- The counters of the gate, which are `u32`, can count the guards and the writes that wait. -/
def Fits (action : GateAction) : Prop :=
  forall next, next ∈ gate.step action ->
    next.live .readGuard ≤ u32Max ∧ next.live .waiting ≤ u32Max
deriving Decidable

end HandleGate

namespace GateState.Exact

variable {gate after : GateState} {call new : GateCall} {reads writes pending : Nat}
  {reads' writes' pending' : Nat}

/-- A round and a drop change the counters as they change the numbers of guards and of
writes that wait. -/
theorem moved (exact_ : gate.Exact reads writes pending)
    (moved : gate.poll call = some (after, new) ∨ gate.drop call = some (after, new))
    (readsMoved : reads' + GateCall.readGuard.counts call = reads + GateCall.readGuard.counts new)
    (writesMoved :
      writes' + GateCall.writeGuard.counts call = writes + GateCall.writeGuard.counts new)
    (pendingMoved : pending' + GateCall.waiting.counts call = pending + GateCall.waiting.counts new)
    (readsFit : reads' ≤ u32Max) (pendingFit : pending' ≤ u32Max) :
    after.Exact reads' writes' pending' := by
  obtain ⟨writing, excluded, readers, waiting⟩ := exact_
  have single := Bool.toNat_le gate.writing
  rcases moved with polled | dropped
  · cases call with
    | readLock =>
      simp only [poll, readLock] at polled
      split_ifs at polled
      all_goals cases polled
      all_goals constructor <;> grind [GateCall.counts]
    | writeLock =>
      cases polled
      constructor <;> grind [GateCall.counts]
    | waiting =>
      simp only [poll, writeLock] at polled
      split_ifs at polled with free
      · cases polled
        have wraps : (pending' + 1 + u32Max) % (u32Max + 1) = pending' := by
          rw [Nat.add_right_comm, add_assoc, Nat.add_mod_right]
          exact Nat.mod_eq_of_lt (Nat.lt_succ_of_le pendingFit)
        constructor <;> grind [GateCall.counts, dropWaiter]
      · cases polled
        constructor <;> grind [GateCall.counts]
    | _ => cases polled
  · cases call with
    | dropped => cases dropped
    | _ =>
      cases dropped
      constructor <;> grind [GateCall.counts, dropWaiter, waitingDec, readUnlock, writeUnlock]

end GateState.Exact

namespace HandleGate

variable {gate next : HandleGate} {action : GateAction} {actions : List GateAction}

theorem Exact.step (exact_ : gate.Exact) (fits : gate.Fits action)
    (taken : gate.step action = some next) : next.Exact := by
  have fit := fits next taken
  cases action with
  | readLock | writeLock =>
    cases taken
    simpa [Exact, live, GateCall.counts] using exact_
  | poll index | drop index =>
    obtain ⟨call, there, taken⟩ := Option.bind_eq_some_iff.mp taken
    obtain ⟨⟨state, new⟩, moved, taken⟩ := Option.bind_eq_some_iff.mp taken
    cases taken
    exact GateState.Exact.moved exact_ (by tauto) (sum_map_set there) (sum_map_set there)
      (sum_map_set there) fit.1 fit.2

/-- In every run in which the counters can count them, the gate counts the guards and
the writes that wait, and where there is no write a read does not wait. -/
theorem exact_of_fits (run : Run step Fits new actions gate) :
    gate.Exact ∧ (gate.live .waiting = 0 -> gate.live .writeGuard = 0 ->
      gate.state.readLock.2 = .readGuard) := by
  have initial : new.Exact := ⟨rfl, nofun, rfl, rfl⟩
  have exact_ := run.invariant Exact initial fun _ _ _ exact_ => exact_.step
  refine ⟨exact_, fun waiting writing => ?_⟩
  have idle : gate.state.writing = false := by
    simpa [writing] using exact_.writing.symm
  rw [GateState.readLock, if_pos ⟨idle, exact_.waiting.trans waiting⟩]

theorem exact_of_fits_cancelled : Exists fun gate =>
    Run step Fits new [.readLock, .poll 0, .writeLock, .poll 1, .readLock, .poll 2, .drop 1] gate ∧
      gate.Exact ∧ gate.state.readLock.2 = .readGuard := by
  refine exists_run_of (fun gate => gate.live .waiting = 0 ∧ gate.live .writeGuard = 0)
    (by decide +kernel) fun gate run none => ?_
  have exact_ := exact_of_fits run
  exact ⟨exact_.1, exact_.2 none.1 none.2⟩

theorem exists_run_readLock (count : Nat) : ∃ actions, Run step anyStep new actions
    ⟨⟨min count u32Max, 0, false⟩, List.replicate count .readGuard⟩ := by
  induction count with
  | zero => exact ⟨[], Run.nil⟩
  | succ count ih =>
    obtain ⟨actions, run⟩ := ih
    refine ⟨actions ++ [.readLock] ++ [.poll count], (run.snoc trivial rfl).snoc trivial ?_⟩
    simp [step, GateState.poll, GateState.readLock, List.replicate_succ']
    omega

theorem readers_saturate : Exists fun actions => Exists fun gate =>
    Run step anyStep new actions gate ∧ gate.state.readers < gate.live .readGuard := by
  obtain ⟨actions, run⟩ := exists_run_readLock (u32Max + 1)
  refine ⟨actions, _, run, ?_⟩
  simp [live, GateCall.counts]

end HandleGate

end Rk8s.Slayerfs
