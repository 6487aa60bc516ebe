import Rk8s.Xline.Api.Request

namespace Rk8s.Xline

open List RequestOp

/-!
# Conflicts in a transaction

What validation is for, stated without the code that does it.  Executing a
branch chooses, for every nested transaction, one of its branches, and performs
the puts and deletes found that way.  A branch is free of conflicts if no choice
performs two puts of one key, or a put of a key and a delete of a range that
covers the key.

There are exponentially many choices.  The second half reduces them to pairs of
operations: two operations of one branch can always be executed together.
-/

/-- A change that an operation makes. -/
inductive Leaf
  | put (key : Key)
  | delete (key rangeEnd : Key)
  deriving DecidableEq

namespace Leaf

/-- Not two puts of one key. -/
def PutsDiffer : Leaf -> Leaf -> Prop
  | .put first, .put second => first ≠ second
  | _, _ => True

/-- Not a put of a key and a delete that covers it. -/
def Separate : Leaf -> Leaf -> Prop
  | .put key, .delete start stop => covers start stop key = false
  | .delete start stop, .put key => covers start stop key = false
  | _, _ => True

instance (first second : Leaf) : Decidable (PutsDiffer first second) := by
  unfold PutsDiffer
  split <;> infer_instance

instance (first second : Leaf) : Decidable (Separate first second) := by
  unfold Separate
  split <;> infer_instance

/-- The two changes may be made by one transaction. -/
def Compatible (first second : Leaf) : Prop := PutsDiffer first second ∧ Separate first second
deriving Decidable

variable {first second : Leaf}

theorem PutsDiffer.symm (differ : PutsDiffer first second) :
    PutsDiffer second first := by
  cases first <;> cases second <;> simp_all [PutsDiffer, eq_comm]

theorem Separate.symm (separate : Separate first second) :
    Separate second first := by
  cases first <;> cases second <;> simp_all [Separate]

end Leaf

mutual

/-- What an operation may perform, one list for each choice of branches. -/
def RequestOp.outcomes : RequestOp -> List (List Leaf)
  | .missing => [[]]
  | .requestRange _ => [[]]
  | .requestPut req => [[.put req.key]]
  | .requestDeleteRange req => [[.delete req.key req.rangeEnd]]
  | .requestTxn _ success failure => outcomesOf success ++ outcomesOf failure

/-- What a list of operations may perform. -/
def outcomesOf : List RequestOp -> List (List Leaf)
  | [] => [[]]
  | op :: ops => op.outcomes.flatMap fun first => (outcomesOf ops).map fun rest => first ++ rest

end

/-- No choice of branches makes two changes that exclude each other. -/
def ConflictFree (ops : List RequestOp) : Prop :=
  forall executed, executed ∈ outcomesOf ops -> executed.Pairwise Leaf.Compatible
deriving Decidable

/-! ## Pairs of operations -/

mutual

/-- All changes of an operation, over all choices. -/
def RequestOp.leaves : RequestOp -> List Leaf
  | .missing => []
  | .requestRange _ => []
  | .requestPut req => [.put req.key]
  | .requestDeleteRange req => [.delete req.key req.rangeEnd]
  | .requestTxn _ success failure => leavesOf success ++ leavesOf failure

def leavesOf : List RequestOp -> List Leaf
  | [] => []
  | op :: ops => op.leaves ++ leavesOf ops

end

variable {ops : List RequestOp}

theorem mem_leavesOf {leaf : Leaf} :
    leaf ∈ leavesOf ops ↔ ∃ op ∈ ops, leaf ∈ op.leaves := by
  induction ops with
  | nil => simp [leavesOf]
  | cons op ops ih => simp [leavesOf, ih]

section Free

variable (Fits : Leaf -> Leaf -> Prop)

mutual

/-- The relation holds between the changes of any two operations that share a
branch, inside this operation. -/
def RequestOp.Free : RequestOp -> Prop
  | .requestTxn _ success failure => FreeOf success ∧ FreeOf failure
  | .missing => True
  | .requestRange _ => True
  | .requestPut _ => True
  | .requestDeleteRange _ => True

def FreeOf : List RequestOp -> Prop
  | [] => True
  | op :: ops =>
    op.Free ∧ (forall first, first ∈ op.leaves -> forall second, second ∈ leavesOf ops ->
      Fits first second) ∧ FreeOf ops

end

variable {Fits}

theorem freeOf_iff :
    FreeOf Fits ops ↔
      (∀ op ∈ ops, op.Free Fits) ∧
        ops.Pairwise fun earlier later =>
          ∀ first ∈ earlier.leaves, ∀ second ∈ later.leaves, Fits first second := by
  induction ops with
  | nil => simp [FreeOf]
  | cons op ops ih =>
    simp only [FreeOf, ih, mem_cons, forall_eq_or_imp, pairwise_cons, mem_leavesOf]
    constructor
    · rintro ⟨here, between, others, pairs⟩
      refine ⟨⟨here, others⟩, ?_, pairs⟩
      intro later member first isFirst second isSecond
      exact between first isFirst second ⟨later, member, isSecond⟩
    · rintro ⟨⟨here, others⟩, between, pairs⟩
      refine ⟨here, ?_, others, pairs⟩
      rintro first isFirst second ⟨later, member, isSecond⟩
      exact between later member first isFirst second isSecond

end Free

mutual

variable {Weaker : Leaf -> Leaf -> Prop}

theorem RequestOp.Free.mono {Fits : Leaf -> Leaf -> Prop}
    (implied : ∀ first second, Fits first second -> Weaker first second) :
    (op : RequestOp) -> op.Free Fits -> op.Free Weaker
  | .missing, _ => trivial
  | .requestRange _, _ => trivial
  | .requestPut _, _ => trivial
  | .requestDeleteRange _, _ => trivial
  | .requestTxn _ success failure, free =>
    ⟨FreeOf.mono implied success free.1, FreeOf.mono implied failure free.2⟩

theorem FreeOf.mono {Fits : Leaf -> Leaf -> Prop}
    (implied : ∀ first second, Fits first second -> Weaker first second) :
    (ops : List RequestOp) -> FreeOf Fits ops -> FreeOf Weaker ops
  | [], _ => trivial
  | op :: ops, free =>
    ⟨RequestOp.Free.mono implied op free.1,
      fun first isFirst second isSecond => implied _ _ (free.2.1 first isFirst second isSecond),
      FreeOf.mono implied ops free.2.2⟩

end

mutual

/-- Every operation has an outcome, and its changes are those of its outcomes. -/
theorem RequestOp.outcomes_spec :
    (op : RequestOp) -> op.outcomes ≠ [] ∧
      ∀ leaf, leaf ∈ op.leaves ↔ ∃ executed ∈ op.outcomes, leaf ∈ executed
  | .missing | .requestRange _ | .requestPut _ | .requestDeleteRange _ => by
      simp [outcomes, leaves]
  | .requestTxn _ success failure => by
      have succeeded := outcomesOf_spec success
      have failed := outcomesOf_spec failure
      refine ⟨by simp [outcomes, succeeded.1], fun leaf => ?_⟩
      simp only [leaves, outcomes, mem_append, succeeded.2 leaf, failed.2 leaf]
      constructor
      · rintro (⟨executed, member, there⟩ | ⟨executed, member, there⟩)
        · exact ⟨executed, .inl member, there⟩
        · exact ⟨executed, .inr member, there⟩
      · rintro ⟨executed, member | member, there⟩
        · exact .inl ⟨executed, member, there⟩
        · exact .inr ⟨executed, member, there⟩

theorem outcomesOf_spec :
    (ops : List RequestOp) -> outcomesOf ops ≠ [] ∧
      ∀ leaf, leaf ∈ leavesOf ops ↔ ∃ executed ∈ outcomesOf ops, leaf ∈ executed
  | [] => by simp [outcomesOf, leavesOf]
  | op :: ops => by
      have here := RequestOp.outcomes_spec op
      have others := outcomesOf_spec ops
      obtain ⟨someFirst, first⟩ := exists_mem_of_ne_nil _ here.1
      obtain ⟨someRest, rest⟩ := exists_mem_of_ne_nil _ others.1
      have joined : ∀ executed, executed ∈ outcomesOf (op :: ops) ↔
          ∃ first, first ∈ op.outcomes ∧ ∃ rest ∈ outcomesOf ops, first ++ rest = executed := by
        simp [outcomesOf]
      refine ⟨ne_nil_of_mem ((joined _).mpr ⟨someFirst, first, someRest, rest, rfl⟩), ?_⟩
      intro leaf
      simp only [leavesOf, mem_append, here.2 leaf, others.2 leaf, joined]
      constructor
      · rintro (⟨executed, member, there⟩ | ⟨executed, member, there⟩)
        · exact ⟨_, ⟨executed, member, someRest, rest, rfl⟩, mem_append_left _ there⟩
        · exact ⟨_, ⟨someFirst, first, executed, member, rfl⟩, mem_append_right _ there⟩
      · rintro ⟨_, ⟨first, isFirst, rest, isRest, rfl⟩, there⟩
        rcases mem_append.mp there with there | there
        · exact .inl ⟨first, isFirst, there⟩
        · exact .inr ⟨rest, isRest, there⟩

end

mutual

/-- The outcomes of an operation are free of conflicts exactly when the pairs of
operations inside it are. -/
theorem RequestOp.outcomes_pairwise_iff {Fits : Leaf -> Leaf -> Prop} :
    (op : RequestOp) -> ((∀ executed ∈ op.outcomes, executed.Pairwise Fits) ↔ op.Free Fits)
  | .missing | .requestRange _ | .requestPut _ | .requestDeleteRange _ => by
      simp [outcomes, RequestOp.Free]
  | .requestTxn _ success failure => by
      simp only [outcomes, RequestOp.Free, mem_append, or_imp, forall_and,
        outcomesOf_pairwise_iff success, outcomesOf_pairwise_iff failure]

theorem outcomesOf_pairwise_iff {Fits : Leaf -> Leaf -> Prop} :
    (ops : List RequestOp) ->
      ((∀ executed ∈ outcomesOf ops, executed.Pairwise Fits) ↔ FreeOf Fits ops)
  | [] => by simp [outcomesOf, FreeOf]
  | op :: ops => by
      have here := RequestOp.outcomes_spec op
      have others := outcomesOf_spec ops
      rw [FreeOf, ← RequestOp.outcomes_pairwise_iff op, ← outcomesOf_pairwise_iff ops]
      constructor
      · intro free
        have pairs : ∀ first ∈ op.outcomes, ∀ rest ∈ outcomesOf ops,
            (first ++ rest).Pairwise Fits := by
          intro first isFirst rest isRest
          refine free _ ?_
          simp only [outcomesOf, mem_flatMap, mem_map]
          exact ⟨first, isFirst, rest, isRest, rfl⟩
        obtain ⟨someFirst, isFirst⟩ := exists_mem_of_ne_nil _ here.1
        obtain ⟨someRest, isRest⟩ := exists_mem_of_ne_nil _ others.1
        refine ⟨fun first member => (pairwise_append.mp (pairs first member _ isRest)).1, ?_,
          fun rest member => (pairwise_append.mp (pairs _ isFirst rest member)).2.1⟩
        intro first inFirst second inSecond
        obtain ⟨firstOutcome, firstMember, firstThere⟩ := (here.2 first).mp inFirst
        obtain ⟨secondOutcome, secondMember, secondThere⟩ := (others.2 second).mp inSecond
        exact (pairwise_append.mp (pairs _ firstMember _ secondMember)).2.2
          first firstThere second secondThere
      · rintro ⟨first, between, rest⟩ executed member
        simp only [outcomesOf, mem_flatMap, mem_map] at member
        obtain ⟨firstOutcome, firstMember, restOutcome, restMember, rfl⟩ := member
        refine pairwise_append.mpr ⟨first _ firstMember, rest _ restMember, ?_⟩
        intro x xThere y yThere
        exact between x ((here.2 x).mpr ⟨_, firstMember, xThere⟩)
          y ((others.2 y).mpr ⟨_, restMember, yThere⟩)

end

mutual

/-- Inside this operation, no nested transaction puts a key in one of its
branches and deletes a range that covers the key in the other. -/
def RequestOp.BranchesSeparate : RequestOp -> Prop
  | .requestTxn _ success failure =>
    (forall first, first ∈ leavesOf success -> forall second, second ∈ leavesOf failure ->
      Leaf.Separate first second) ∧ BranchesSeparateIn success ∧ BranchesSeparateIn failure
  | .missing => True
  | .requestRange _ => True
  | .requestPut _ => True
  | .requestDeleteRange _ => True

def BranchesSeparateIn : List RequestOp -> Prop
  | [] => True
  | op :: ops => op.BranchesSeparate ∧ BranchesSeparateIn ops

end

theorem branchesSeparateIn_iff :
    BranchesSeparateIn ops ↔ ∀ op ∈ ops, op.BranchesSeparate := by
  induction ops with
  | nil => simp [BranchesSeparateIn]
  | cons op ops ih => simp [BranchesSeparateIn, ih]

mutual

/-- Without conflicts and with separate branches, no put meets a delete at all. -/
theorem RequestOp.separate_leaves :
    (op : RequestOp) -> op.Free Leaf.Compatible -> op.BranchesSeparate ->
      ∀ first ∈ op.leaves, ∀ second ∈ op.leaves, Leaf.Separate first second
  | .missing, _, _ | .requestRange _, _, _ => by simp [leaves]
  | .requestPut _, _, _ | .requestDeleteRange _, _, _ => by simp [leaves, Leaf.Separate]
  | .requestTxn _ success failure, free, apart => by
      obtain ⟨across, inSuccess, inFailure⟩ := apart
      intro first isFirst second isSecond
      rcases mem_append.mp isFirst with isFirst | isFirst <;>
        rcases mem_append.mp isSecond with isSecond | isSecond
      · exact separate_leavesOf success free.1 inSuccess first isFirst second isSecond
      · exact across first isFirst second isSecond
      · exact (across second isSecond first isFirst).symm
      · exact separate_leavesOf failure free.2 inFailure first isFirst second isSecond

theorem separate_leavesOf :
    (ops : List RequestOp) -> FreeOf Leaf.Compatible ops -> BranchesSeparateIn ops ->
      ∀ first ∈ leavesOf ops, ∀ second ∈ leavesOf ops, Leaf.Separate first second
  | [], _, _ => by simp [leavesOf]
  | op :: ops, free, apart => by
      obtain ⟨here, between, others⟩ := free
      intro first isFirst second isSecond
      rcases mem_append.mp isFirst with isFirst | isFirst <;>
        rcases mem_append.mp isSecond with isSecond | isSecond
      · exact RequestOp.separate_leaves op here apart.1 first isFirst second isSecond
      · exact (between first isFirst second isSecond).2
      · exact (between second isSecond first isFirst).2.symm
      · exact separate_leavesOf ops others apart.2 first isFirst second isSecond

end

end Rk8s.Xline
