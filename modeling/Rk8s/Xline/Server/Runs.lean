import Rk8s.Lib.Transition
import Rk8s.Xline.Server.Command
import Rk8s.Xline.Storage.Changes

namespace Rk8s.Xline.Server

open Storage Fallible List

/-!
# Runs of the command executor

A run is a sequence of calls of `after_sync` in which every command succeeds.
What every command keeps, and every commit, holds wherever a run leads.
-/

/-- The arguments of one call of `after_sync`. -/
structure BatchCall where
  cmds : List AfterSyncCmd
  highestIndex : Option Nat := none

/-- A command that has not been executed before. -/
def AfterSyncCmd.ofRequest (request : RequestWrapper) : AfterSyncCmd := ⟨⟨request, none⟩, true⟩

/-- A hash set that lists its keys in their order. -/
def keyOrder : SetOrder := ⟨id, fun _ => .refl _⟩

/-- Every command of a list meets the condition in the batch that it is applied
to. -/
def EachCommand (order : SetOrder) (meets : Batch -> AfterSyncCmd -> Prop) :
    Round -> List AfterSyncCmd -> Prop
  | _, [] => True
  | round, c :: cmds =>
    meets round.kv c ∧ EachCommand order meets (round.apply order c).2 cmds

instance decidableEachCommand (order : SetOrder) (meets : Batch -> AfterSyncCmd -> Prop)
    [forall batch c, Decidable (meets batch c)] :
    (round : Round) -> (cmds : List AfterSyncCmd) -> Decidable (EachCommand order meets round cmds)
  | _, [] => inferInstanceAs (Decidable True)
  | round, c :: cmds =>
    have := decidableEachCommand order meets (round.apply order c).2 cmds
    inferInstanceAs (Decidable (_ ∧ _))

namespace CommandExecutor

/-- A call of `after_sync` in which every command succeeds. -/
def step (order : SetOrder) (executor : CommandExecutor) (call : BatchCall) :
    Option CommandExecutor :=
  let (results, next) := executor.afterSync order call.cmds call.highestIndex
  if results.all fun result => result.isOk then some next else none

/-- Every command of a call meets a condition when it is applied. -/
def meetsEach (order : SetOrder) (meets : Batch -> AfterSyncCmd -> Prop)
    (executor : CommandExecutor) (call : BatchCall) : Prop :=
  EachCommand order meets (executor.round call.highestIndex) call.cmds

instance (order : SetOrder) (meets : Batch -> AfterSyncCmd -> Prop)
    [forall batch c, Decidable (meets batch c)] (executor : CommandExecutor) (call : BatchCall) :
    Decidable (executor.meetsEach order meets call) :=
  decidableEachCommand order meets _ _

end CommandExecutor

/-- A command that succeeds is a request of the key-value store or of the lease
store that succeeds on the batch, or leaves the batch alone. -/
theorem apply_ok {order : SetOrder} {round next : Round} {c : AfterSyncCmd}
    {result : Int × Option CommandResponse} (ran : round.apply order c = (.ok result, next)) :
    (∃ req, c.cmd.request = .kv req ∧
      ∃ answer, syncRequest req c.toExecute round.kv = (.ok answer, next.kv)) ∨
    (∃ req, c.cmd.request = .lease req ∧
      (c.toExecute = true -> (handleLeaseRequest round.kv.store.leases req).isOk = true) ∧
      ∃ revision, syncLeaseRequest order req round.kv = (.ok revision, next.kv)) ∨
    (∀ req, c.cmd.request ≠ .lease req) ∧ next.kv = round.kv := by
  unfold Round.apply at ran
  cases request : c.cmd.request with
  | kv req =>
    left
    simp only [request, Round.liftKv, Prod.mk.injEq] at ran
    obtain ⟨answer, isAnswer, -⟩ := map_eq_ok.mp ran.1
    exact ⟨req, rfl, answer, Prod.ext isAnswer (by rw [← ran.2])⟩
  | lease req =>
    right
    left
    simp only [request, Round.applyLease] at ran
    split at ran
    · cases ran
    next response checked =>
    simp only [Round.liftKv, Prod.mk.injEq] at ran
    obtain ⟨revision, isRevision, -⟩ := map_eq_ok.mp ran.1
    refine ⟨req, rfl, fun executed => ?_, revision, Prod.ext isRevision (by rw [← ran.2])⟩
    rw [if_pos executed] at checked
    obtain ⟨answer, isAnswer, -⟩ := map_eq_ok.mp checked
    rw [isAnswer]
    rfl
  | auth req =>
    right
    right
    simp only [request, Round.applyAuth] at ran
    split at ran
    · cases ran
    split at ran
    · cases ran
    · obtain ⟨-, rfl⟩ := Prod.mk.inj ran
      refine ⟨by simp, ?_⟩
      split <;> rfl
  | alarm action member =>
    right
    right
    simp only [request] at ran
    obtain ⟨-, rfl⟩ := Prod.mk.inj ran
    exact ⟨by simp, rfl⟩

/-- The first command of a call that succeeds, and the rest of the call. -/
theorem applyAll_cons {order : SetOrder} {admits : AfterSyncCmd -> Except ExecuteError Unit}
    {c : AfterSyncCmd} {cmds : List AfterSyncCmd} {round : Round}
    (allOk : ((round.applyAll order ((c :: cmds).map fun c => (c, admits c))).1.all
      fun result => result.isOk) = true) :
    ∃ result next, round.apply order c = (.ok result, next) ∧
      ((next.applyAll order (cmds.map fun c => (c, admits c))).1.all
        fun result => result.isOk) = true ∧
      (round.applyAll order ((c :: cmds).map fun c => (c, admits c))).2 =
        (next.applyAll order (cmds.map fun c => (c, admits c))).2 := by
  cases admitted : admits c with
  | error error => simp [admitted, Round.applyAll, Except.toBool] at allOk
  | ok _ =>
    simp only [map_cons, admitted, Round.applyAll, all_cons, Bool.and_eq_true] at allOk ⊢
    obtain ⟨first, others⟩ := allOk
    match ran : round.apply order c with
    | (.error _, _) => simp [ran, Except.toBool] at first
    | (.ok result, next) =>
      simp only [ran] at others
      exact ⟨result, next, rfl, others, rfl⟩

section Invariants

variable {order : SetOrder} {meets : Batch -> AfterSyncCmd -> Prop} {Inv : Batch -> Prop}

section

variable (keeps : forall (round : Round) c result (next : Round), Inv round.kv ->
  meets round.kv c -> round.apply order c = (.ok result, next) -> Inv next.kv)
include keeps

/-- An invariant of commands holds after the commands of a call, if all of them
succeed. -/
theorem applyAll_keeps
    (admits : AfterSyncCmd -> Except ExecuteError Unit) (cmds : List AfterSyncCmd) (round : Round)
    (inv : Inv round.kv) (each : EachCommand order meets round cmds)
    (allOk : ((round.applyAll order (cmds.map fun c => (c, admits c))).1.all
      fun result => result.isOk) = true) :
    Inv (round.applyAll order (cmds.map fun c => (c, admits c))).2.kv := by
  induction cmds generalizing round with
  | nil => exact inv
  | cons c cmds ih =>
    obtain ⟨result, next, ran, others, rest⟩ := applyAll_cons allOk
    rw [EachCommand, ran] at each
    rw [rest]
    exact ih next (keeps round c result next inv each.1 ran) each.2 others

/-- What every command and every commit keeps holds in every run. -/
theorem run_keeps (commit : ∀ batch, Inv batch -> Inv batch.commit.batch)
    {start final : CommandExecutor} {calls : List BatchCall} (initial : Inv start.kv.batch)
    (run : Transition.Run (CommandExecutor.step order) (CommandExecutor.meetsEach order meets)
      start calls final) :
    Inv final.kv.batch := by
  refine run.invariant (fun executor => Inv executor.kv.batch) initial ?_
  intro executor call next inv met taken
  simp only [CommandExecutor.step, CommandExecutor.afterSync] at taken
  by_cases empty : call.cmds = []
  · simp only [empty, if_true, all_nil, Option.some.injEq] at taken
    rw [← taken]
    exact inv
  simp only [if_neg empty] at taken
  split at taken
  · next allOk =>
    rw [← Option.some.inj taken]
    exact commit _ (applyAll_keeps keeps _ call.cmds _ inv met allOk)
  · cases taken

end

/-- What the last command of a call establishes holds after the call. -/
theorem applyAll_last (Holds : Batch -> Prop) {last : AfterSyncCmd}
    (establishes : ∀ (round : Round) result (next : Round),
      round.apply order last = (.ok result, next) -> Holds next.kv)
    (admits : AfterSyncCmd -> Except ExecuteError Unit) (cmds : List AfterSyncCmd) (round : Round)
    (isLast : cmds.getLast? = some last)
    (allOk : ((round.applyAll order (cmds.map fun c => (c, admits c))).1.all
      fun result => result.isOk) = true) :
    Holds (round.applyAll order (cmds.map fun c => (c, admits c))).2.kv := by
  induction cmds generalizing round with
  | nil => cases isLast
  | cons c cmds ih =>
    obtain ⟨result, next, ran, others, rest⟩ := applyAll_cons allOk
    rw [rest]
    cases cmds with
    | nil =>
      obtain rfl : c = last := by simpa using isLast
      exact establishes round result next ran
    | cons _ _ => exact ih next (by simpa using isLast) others

end Invariants

end Rk8s.Xline.Server
