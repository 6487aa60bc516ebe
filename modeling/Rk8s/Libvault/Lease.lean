import Rk8s.Lib.Transition

namespace Rk8s.Libvault

open Transition

/-!
# Renewals of leases

Times and durations are numbers of nanoseconds.  `calculate_ttl` subtracts the time
from the end of the longest life that a lease may have, and panics when that is over.
-/

def second : Nat := 1000000000

def maxLeaseTtl : Nat := 30 * 24 * 60 * 60 * second

def defaultLeaseTtl : Nat := 24 * 60 * 60 * second

/-- `SystemTime` truncated to seconds. -/
def truncated (time : Nat) : Nat := time / second * second

inductive RvError where
  | errLeaseNotRenewable
  | errResponse
  | string (text : String)

/-- What a backend grants when it answers a renewal. -/
structure Terms where
  period : Nat
  ttl : Nat
  maxTtl : Nat
  explicitMaxTtl : Nat
  renewable : Bool
  deriving DecidableEq

namespace Terms

variable (terms : Terms)

/-- The variable `max_ttl` of `calculate_ttl`. -/
def cap : Nat :=
  let maxTtl := if 0 < terms.maxTtl ∧ terms.maxTtl < maxLeaseTtl then terms.maxTtl else maxLeaseTtl
  if 0 < terms.explicitMaxTtl ∧ terms.explicitMaxTtl < maxTtl then terms.explicitMaxTtl else maxTtl

/-- The variable `max_valid_time`, zero if there is no limit. -/
def maxValidTime (startTime : Nat) : Nat :=
  if 0 < terms.period then
    if 0 < terms.explicitMaxTtl then truncated startTime + terms.explicitMaxTtl else 0
  else truncated startTime + terms.cap

/-- The subtraction of durations panics, which is `none`, below zero. -/
def calculateTtl (increment startTime now : Nat) : Option (Except RvError Nat) :=
  if terms.cap = 0 then some (.error (.string "max TTL must be greater than zero"))
  else
    let ttl :=
      if 0 < terms.period then if terms.cap < terms.period then terms.cap else terms.period
      else if 0 < increment then increment
      else if 0 < terms.ttl then terms.ttl
      else defaultLeaseTtl
    if terms.maxValidTime startTime = 0 then some (.ok ttl)
    else if terms.maxValidTime startTime < truncated now then none
    else if terms.maxValidTime startTime - truncated now = 0 then
      some (.error (.string "past the max TTL, cannot renew"))
    else if terms.maxValidTime startTime - truncated now < ttl then
      some (.ok (terms.maxValidTime startTime - truncated now))
    else some (.ok ttl)

end Terms

inductive LeaseKind where
  | secret
  | auth

structure LeaseEntry where
  kind : LeaseKind
  issueTime : Nat
  expireTime : Nat
  /-- The flag of the secret or of the auth. -/
  renewable : Bool

/-- The backend fails, returns no response, or grants a lease. -/
inductive Answer where
  | failed
  | nothing
  | granted (terms : Terms)
  deriving DecidableEq

/-- A call of `renew` or `renew_token`. -/
structure Renewal where
  now : Nat
  increment : Int
  answer : Answer

inductive Outcome where
  | panicked
  | refused (error : RvError)
  | unchanged
  | renewed (expireTime : Nat)

/-- The `i32` of a request `as u64`, in seconds. -/
def incrementOf (raw : Int) : Nat :=
  (raw % 2 ^ 64).toNat * second

namespace LeaseEntry

variable (entry : LeaseEntry)

/-- The terms that reach `calculate_ttl`: `renew` leaves a secret that is not enabled
alone, and has neither period nor explicit maximum. -/
def granted (answer : Answer) : Option Terms :=
  match answer, entry.kind with
  | .granted terms, .secret =>
    if terms.ttl < second then none else some { terms with period := 0, explicitMaxTtl := 0 }
  | .granted terms, .auth => some terms
  | _, _ => none

def isRenewable (now : Nat) : Bool :=
  decide (now ≤ entry.expireTime) && entry.renewable

def renew (renewal : Renewal) : Outcome :=
  if entry.isRenewable renewal.now = false then .refused .errLeaseNotRenewable
  else if renewal.answer = .failed then .refused .errResponse
  else
    match entry.granted renewal.answer with
    | none => .unchanged
    | some terms =>
      match terms.calculateTtl (incrementOf renewal.increment) entry.issueTime renewal.now with
      | none => .panicked
      | some (.error error) => .refused error
      | some (.ok ttl) => .renewed (if second ≤ ttl then renewal.now + ttl else 0)

/-- The entry that is persisted and registered after a renewal has the secret or the auth
of the answer. -/
def after (answer : Answer) (outcome : Outcome) : LeaseEntry :=
  match entry.granted answer, outcome with
  | some terms, .renewed expireTime => { entry with expireTime, renewable := terms.renewable }
  | _, _ => entry

end LeaseEntry

/-- A lease, the time of the last renewal and all renewals with their outcomes. -/
structure Renewals where
  entry : LeaseEntry
  clock : Nat
  records : List (Renewal × Outcome)

namespace Renewals

def step (state : Renewals) (renewal : Renewal) : Option Renewals :=
  if renewal.now < state.clock then none
  else
    let outcome := state.entry.renew renewal
    some ⟨state.entry.after renewal.answer outcome, renewal.now,
      state.records ++ [(renewal, outcome)]⟩

/-- A renewal that is not refused at once comes before the limit has been over for a
second. -/
def InTime (state : Renewals) (renewal : Renewal) : Prop :=
  state.entry.isRenewable renewal.now = true -> forall terms,
    state.entry.granted renewal.answer = some terms ->
      terms.maxValidTime state.entry.issueTime = 0 ∨
        truncated renewal.now ≤ terms.maxValidTime state.entry.issueTime

instance (state : Renewals) (renewal : Renewal) : Decidable (state.InTime renewal) :=
  inferInstanceAs (Decidable (_ -> forall terms, terms ∈ state.entry.granted renewal.answer ->
    _ ∨ truncated renewal.now ≤ terms.maxValidTime _))

end Renewals

/-! ## The limit holds -/

namespace Terms

variable (terms : Terms)

/-- The smallest positive one of the three maxima. -/
def smallestMax : Nat :=
  ([terms.maxTtl, terms.explicitMaxTtl].filter (0 < ·)).foldl min maxLeaseTtl

/-- The latest expiry time that a renewal may record, up to a second. -/
def InBounds (issueTime now expireTime : Nat) : Prop :=
  if 0 < terms.period then
    expireTime ≤ now + min terms.period maxLeaseTtl ∧
      (0 < terms.explicitMaxTtl -> expireTime < issueTime + terms.explicitMaxTtl + second)
  else expireTime < issueTime + terms.smallestMax + second

variable {terms : Terms} {increment startTime now ttl : Nat}

theorem cap_eq_smallestMax : terms.cap = terms.smallestMax := by
  unfold cap smallestMax
  by_cases backend : 0 < terms.maxTtl <;> by_cases explicit : 0 < terms.explicitMaxTtl <;>
    simp only [backend, explicit, decide_true, decide_false, List.filter, List.foldl, true_and,
      false_and, if_false] <;> split_ifs <;> omega

theorem cap_le : terms.cap ≤ maxLeaseTtl := by
  unfold cap
  dsimp only
  split_ifs <;> omega

theorem calculateTtl_eq_ok
    (calculated : terms.calculateTtl increment startTime now = some (.ok ttl)) :
    terms.cap ≠ 0 ∧ (terms.maxValidTime startTime ≠ 0 ->
      truncated now < terms.maxValidTime startTime ∧
        truncated now + ttl ≤ terms.maxValidTime startTime) ∧
      (0 < terms.period -> ttl ≤ min terms.period maxLeaseTtl) := by
  have system := terms.cap_le
  unfold calculateTtl at calculated
  dsimp only at calculated
  split_ifs at calculated <;> cases calculated <;> omega

theorem inBounds_of_ok (calculated : terms.calculateTtl increment startTime now = some (.ok ttl)) :
    terms.InBounds startTime now (if second ≤ ttl then now + ttl else 0) := by
  obtain ⟨nonzero, limited, periodic⟩ := calculateTtl_eq_ok calculated
  have early : now < truncated now + second := by
    unfold truncated second
    omega
  have started : truncated startTime ≤ startTime := Nat.div_mul_le_self _ _
  have recorded : (if second ≤ ttl then now + ttl else 0) ≤ now + ttl := by
    split_ifs <;> omega
  generalize (if second ≤ ttl then now + ttl else 0) = expireTime at recorded ⊢
  unfold InBounds
  rw [← cap_eq_smallestMax]
  unfold maxValidTime at limited
  split_ifs at limited ⊢ with isPeriodic explicit
  · have := periodic isPeriodic
    exact ⟨by omega, by omega⟩
  · have := periodic isPeriodic
    exact ⟨by omega, fun given => absurd given explicit⟩
  · omega

end Terms

namespace LeaseEntry

variable {entry : LeaseEntry} {renewal : Renewal}

/-- A renewal does not panic, is refused after the limit and records a time in bounds. -/
def Keeps (entry : LeaseEntry) (renewal : Renewal) (outcome : Outcome) : Prop :=
  outcome ≠ .panicked ∧ forall terms, entry.granted renewal.answer = some terms ->
    (terms.maxValidTime entry.issueTime ≠ 0 ->
      terms.maxValidTime entry.issueTime ≤ truncated renewal.now ->
      Exists fun error => outcome = .refused error) ∧
    forall expireTime, outcome = .renewed expireTime ->
      terms.InBounds entry.issueTime renewal.now expireTime

theorem keeps_after (answer : Answer) (outcome : Outcome) :
    (entry.after answer outcome).Keeps = entry.Keeps := by
  unfold after
  split <;> rfl

theorem renew_keeps (inTime : entry.isRenewable renewal.now = true -> ∀ terms,
      entry.granted renewal.answer = some terms ->
        terms.maxValidTime entry.issueTime = 0 ∨
          truncated renewal.now ≤ terms.maxValidTime entry.issueTime) :
    entry.Keeps renewal (entry.renew renewal) := by
  unfold renew
  split_ifs with expired failed
  iterate 2 exact ⟨nofun, fun _ _ => ⟨fun _ _ => ⟨_, rfl⟩, nofun⟩⟩
  have early := inTime (by simpa using expired)
  unfold Keeps
  generalize entry.granted renewal.answer = granted at early ⊢
  cases granted with
  | none => exact ⟨nofun, nofun⟩
  | some terms =>
    dsimp only
    cases calculated : terms.calculateTtl (incrementOf renewal.increment) entry.issueTime
        renewal.now with
    | none =>
      -- Only a limit that is over makes the subtraction panic.
      unfold Terms.calculateTtl at calculated
      dsimp only at calculated
      split_ifs at calculated
      exact absurd (early terms rfl) (by omega)
    | some result =>
      cases result with
      | error error => exact ⟨nofun, fun _ _ => ⟨fun _ _ => ⟨error, rfl⟩, nofun⟩⟩
      | ok ttl =>
        refine ⟨nofun, ?_⟩
        rintro _ ⟨⟩
        refine ⟨fun limited past => ?_, ?_⟩
        · have := (Terms.calculateTtl_eq_ok calculated).2.1 limited
          omega
        · rintro _ ⟨⟩
          exact Terms.inBounds_of_ok calculated

end LeaseEntry

namespace Renewals

variable {start state : Renewals} {trace : List Renewal}

/-- Renewals that come in time neither panic nor outlive the maximum. -/
theorem renewals_bounded_of_inTime (fresh : start.records = [])
    (run : Run step InTime start trace state) :
    forall record, record ∈ state.records -> state.entry.Keeps record.1 record.2 := by
  refine run.invariant
    (fun state => ∀ record ∈ state.records, state.entry.Keeps record.1 record.2)
    (by simp [fresh]) ?_
  intro state renewal next kept inTime stepped
  unfold step at stepped
  split_ifs at stepped
  cases stepped
  rw [LeaseEntry.keeps_after]
  exact List.forall_mem_append.mpr
    ⟨kept, List.forall_mem_singleton.mpr (LeaseEntry.renew_keeps inTime)⟩

/-- A secret that lives for an hour, with half an hour as its maximum. -/
def shortMax : Renewals := ⟨⟨.secret, 0, 3600 * second, true⟩, 0, []⟩

/-- A renewal of it at that time. -/
def renewalAt (now : Nat) : Renewal :=
  ⟨now * second, 60, .granted ⟨0, 3600 * second, 1800 * second, 0, true⟩⟩

theorem late_renewal_panics : Exists fun state =>
    Run step anyStep shortMax [renewalAt 2400] state ∧
      state.records = [(renewalAt 2400, .panicked)] :=
  ⟨_, .snoc .nil trivial rfl, rfl⟩

theorem renewals_bounded_shortMax : Exists fun state =>
    Run step InTime shortMax [renewalAt 600, renewalAt 630] state ∧
      state.entry.expireTime = 690 * second ∧
      forall record, record ∈ state.records -> state.entry.Keeps record.1 record.2 := by
  refine exists_run_of (fun state => state.entry.expireTime = 690 * second) (by decide +kernel) ?_
  exact fun state run renewed => ⟨renewed, renewals_bounded_of_inTime rfl run⟩

end Renewals

end Rk8s.Libvault
