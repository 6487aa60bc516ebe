import Rk8s.Lib.Slots
import Rk8s.Lib.Transition

namespace Rk8s.Libvault

open Transition Slots List

/-!
# Use limits of tokens

`check_token` reads the entry of a token and writes it back with one use less, or
revokes the token with the last use.  Nothing ties the write to the entry that was
read, so calls that read the same entry are counted as one use, and a write that
follows a revocation stores the token again.
-/

/-- Where a call of `check_token` or `revoke` stands.  The flag says that it is
`check_token` that revokes, after the last use. -/
inductive TokenCall where
  | lookup
  | put (numUses : Nat)
  | revokeLookup (lastUse : Bool)
  | delete (lastUse found : Bool)
  | revokeRest (lastUse : Bool)
  /-- With an `Auth`, or without one. -/
  | returned (auth : Bool)
  deriving DecidableEq

structure TokenStore where
  /-- The field `num_uses` of the stored entry. -/
  entry : Option Nat
  calls : List TokenCall
  /-- The entry has been deleted by a revocation or by the last use. -/
  deleted : Bool

namespace TokenStore

inductive Action where
  | checkToken
  | revoke
  /-- The next storage operation of a call, which may fail without effect. -/
  | advance (call : Nat) (ok : Bool)

/-- `use_token`, up to its first storage operation. -/
def useToken : Nat -> TokenCall
  | 0 => .returned true
  | 1 => .revokeLookup true
  | numUses + 2 => .put (numUses + 1)

variable (store : TokenStore)

def setCall (index : Nat) (call : TokenCall) : TokenStore :=
  { store with calls := store.calls.set index call }

def advance (index : Nat) : TokenCall -> Option TokenStore
  | .lookup => some (store.setCall index (store.entry.elim (.returned false) useToken))
  | .put numUses => some ({ store with entry := some numUses }.setCall index (.returned true))
  | .revokeLookup lastUse => some (store.setCall index (.delete lastUse store.entry.isSome))
  | .delete lastUse found =>
    some ({ store with entry := none, deleted := true }.setCall index
      (if found then .revokeRest lastUse else .returned lastUse))
  -- the key below the parent and the leases of the token
  | .revokeRest lastUse => some (store.setCall index (.returned lastUse))
  | .returned _ => none

def step (store : TokenStore) : Action -> Option TokenStore
  | .checkToken => some { store with calls := store.calls ++ [.lookup] }
  | .revoke => some { store with calls := store.calls ++ [.revokeLookup false] }
  | .advance index ok => store.calls[index]?.bind fun call =>
    if ok then store.advance index call else some (store.setCall index (.returned false))

def initial (numUses : Nat) : TokenStore := ⟨some numUses, [], false⟩

/-- The calls that have returned an `Auth`. -/
def auths : Nat := store.calls.count (.returned true)

structure Limited (numUses : Nat) : Prop where
  auths : store.auths ≤ numUses
  deleted : store.deleted = true -> store.entry = none

/-- When `check_token` writes or deletes the entry, it is still as the call has read it. -/
def Unraced (store : TokenStore) : Action -> Prop
  | .advance index true =>
    match store.calls[index]? with
    | some (.put numUses) => store.entry = some (numUses + 1)
    | some (.delete true _) => store.entry = some 1
    | _ => True
  | _ => True

instance (action : Action) : Decidable (store.Unraced action) := by
  unfold Unraced
  split
  · split <;> infer_instance
  · infer_instance

/-- A use that is paid for and not given back. -/
def weight : TokenCall -> Nat
  | .returned true | .revokeRest true => 1
  | _ => 0

variable {numUses : Nat} {store next : TokenStore} {action : Action}

structure Paid (numUses : Nat) (store : TokenStore) : Prop where
  total : (store.calls.map weight).sum + store.entry.getD 0 ≤ numUses
  positive : store.entry ≠ some 0
  puts : forall left, .put left ∈ store.calls -> 0 < left
  deleted : store.deleted = true -> store.entry = none

theorem auths_le_sum (store : TokenStore) : store.auths ≤ (store.calls.map weight).sum := by
  unfold auths
  induction store.calls with
  | nil => exact le_refl 0
  | cons call calls ih =>
    rw [count_cons, map_cons, sum_cons]
    split_ifs with same
    · cases eq_of_beq same
      simp only [weight]
      omega
    · omega

theorem Paid.limited (paid : Paid numUses store) : store.Limited numUses := by
  have bound := store.auths_le_sum
  have total := paid.total
  exact ⟨by omega, paid.deleted⟩

variable {index : Nat} {call moved : TokenCall}

section

variable (paid : Paid numUses store) (there : store.calls[index]? = some call)
include paid there

/-- A call moves, and the entry pays for it. -/
theorem Paid.move {after : TokenStore} (calls : after.calls = store.calls)
    (price : weight moved + after.entry.getD 0 ≤ weight call + store.entry.getD 0)
    (positive : after.entry ≠ some 0) (put : ∀ left, moved = .put left -> 0 < left)
    (deleted : after.deleted = true -> after.entry = none) :
    Paid numUses (after.setCall index moved) := by
  refine ⟨?_, positive, ?_, deleted⟩
  · have sum : ((store.calls.set index moved).map weight).sum + weight call =
        (store.calls.map weight).sum + weight moved := sum_map_set there
    have total := paid.total
    simp only [setCall, calls]
    omega
  · intro left member
    simp only [setCall, calls] at member
    rcases mem_or_eq_of_mem_set member with old | same
    · exact paid.puts left old
    · exact put left same.symm

theorem Paid.advance
    (met : store.Unraced (.advance index true)) (taken : store.advance index call = some next) :
    Paid numUses next := by
  rw [Unraced, there] at met
  cases call with
  | lookup =>
    cases taken
    cases found : store.entry with
    | none => exact paid.move there rfl (by simp [weight]) paid.positive nofun paid.deleted
    | some left =>
      rcases left with _ | _ | left
      · exact absurd found paid.positive
      · exact paid.move there rfl (by simp [weight, useToken]) paid.positive nofun paid.deleted
      · refine paid.move there rfl (by simp [weight, useToken]) paid.positive ?_ paid.deleted
        rintro _ ⟨⟩
        exact Nat.succ_pos left
  | put left =>
    cases taken
    have positive := paid.puts left (mem_of_getElem? there)
    refine paid.move there rfl ?_ (by simp; omega) nofun fun deleted => ?_
    · simp only [met, weight, Option.getD_some]
      omega
    · cases met.symm.trans (paid.deleted deleted)
  | revokeLookup lastUse =>
    cases taken
    exact paid.move there rfl (by simp [weight]) paid.positive nofun paid.deleted
  | delete lastUse found =>
    cases taken
    refine paid.move there rfl ?_ nofun ?_ fun _ => rfl
    · cases lastUse with
      | true => cases found <;> simp [met, weight]
      | false => cases found <;> simp [weight]
    · cases found <;> nofun
  | revokeRest lastUse =>
    cases taken
    exact paid.move there rfl (by cases lastUse <;> simp [weight]) paid.positive nofun paid.deleted
  | returned auth => cases taken

end

theorem Paid.step (paid : Paid numUses store) (met : store.Unraced action)
    (taken : store.step action = some next) : Paid numUses next := by
  cases action with
  | checkToken | revoke =>
    cases taken
    refine ⟨?_, paid.positive, ?_, paid.deleted⟩
    · simpa [weight] using paid.total
    · intro left member
      exact paid.puts left (by simpa using member)
  | advance index ok =>
    rcases Option.bind_eq_some_iff.mp taken with ⟨call, there, moves⟩
    cases ok with
    | true => exact paid.advance there met moves
    | false =>
      cases moves
      exact paid.move there rfl (by simp [weight]) paid.positive nofun paid.deleted

/-- In every run in which no call writes or deletes an entry that has changed since the
call read it, the token is used at most as often as its entry says, and not stored again. -/
theorem limited_of_unraced {actions : List Action} {final : TokenStore} (some_ : 0 < numUses)
    (run : Run step Unraced (initial numUses) actions final) : final.Limited numUses := by
  refine (run.invariant (Paid numUses) ?_ fun _ _ _ paid met taken => paid.step met taken).limited
  exact ⟨by simp [initial], by simp [initial]; omega, nofun, nofun⟩

private def advances (calls : List Nat) : List Action := calls.map fun call => .advance call true

private def useAndRevoke : List Action :=
  [.checkToken, .checkToken, .revoke, .checkToken] ++ advances [0, 0, 1, 1, 1, 1, 2, 2]

theorem limited_useAndRevoke : Exists fun store =>
    Run step Unraced (initial 2) useAndRevoke store ∧ store.auths = 2 ∧ store.Limited 2 := by
  refine exists_run_of (fun store => store.auths = 2) (by decide +kernel) fun _ run auths => ?_
  exact ⟨auths, limited_of_unraced (by decide) run⟩

/-- Two calls read an entry with two uses before it is revoked; the first stores it again
with one, which a third call uses, and then the second call does. -/
private def raceRevocation : List Action :=
  [.checkToken, .checkToken, .revoke, .checkToken] ++ advances [0, 1, 2, 2, 0, 3, 3, 3, 3, 1]

theorem raced_token_stored_again : Exists fun store =>
    Run step anyStep (initial 2) raceRevocation store ∧ store.auths = 3 ∧
      store.entry = some 1 ∧ ¬ store.Limited 2 := by
  refine exists_run_of (fun store => store.auths = 3 ∧ store.entry = some 1) (by decide +kernel) ?_
  rintro store run ⟨auths, entry⟩
  refine ⟨auths, entry, fun limited => ?_⟩
  have bound := limited.auths
  omega

end TokenStore

end Rk8s.Libvault
