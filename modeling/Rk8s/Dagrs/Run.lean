import Mathlib.Data.Finset.Card
import Mathlib.Tactic.Ring
import Rk8s.Lib.Transition

namespace Rk8s.Dagrs

open Transition

/-!
# Runs of a graph

`run_internal` executes the blocks of a graph in their order.  The nodes of a block
may move the program counter, switch off nodes behind a router, or end the run.  Only
jumps to an earlier block count against the loop limit, so a block that jumps to
itself runs for ever.
-/

abbrev NodeId := Nat

structure LoopInstruction where
  jumpToBlockIndex : Option Nat
  jumpToNode : Option NodeId

inductive FlowControl where
  | continue_
  | loop (instr : LoopInstruction)
  | branch (ids : List NodeId)
  | abort

/-- What a node returns; the values that it computes are left out. -/
inductive Output where
  | out
  | err
  | conditionResult (result : Bool)
  | flow (control : FlowControl)

inductive DagrsError where
  | jumpOutOfBounds (node : NodeId) (index : Nat)
  | jumpTargetNotFound (node target : NodeId)
  | nodeExecutionFailed
  | loopLimitExceeded (limit : Nat)

inductive CompletionStatus where
  | succeeded
  | aborted

/-- The nodes, the children of each abstract node and the blocks that
`check_loop_and_partition` has made. -/
structure Graph where
  nodes : Finset NodeId
  edges : NodeId -> List NodeId
  blocks : List (List NodeId)
  maxLoopCount : Nat

/-- What the nodes of a block decide together. -/
structure Flow where
  activeNodes : Finset NodeId
  nextPc : Nat

structure RunState where
  pc : Nat
  loopCount : Nat
  activeNodes : Finset NodeId
  ended : Option (Except DagrsError CompletionStatus)

namespace Graph

variable (graph : Graph)

/-- The block of a node in `node_block_map`. -/
def nodeBlock (id : NodeId) : Option Nat :=
  ((List.range graph.blocks.length).filter fun i => id ∈ graph.blocks.getD i []).getLast?

def hasActiveParent (activeNodes : Finset NodeId) (child : NodeId) : Prop :=
  Exists fun parent => parent ∈ activeNodes ∧ child ∈ graph.edges parent
deriving Decidable

/-- The direct children of a router that are not selected. -/
def pruneChildren (router : NodeId) (ids : List NodeId) (activeNodes : Finset NodeId) :
    List NodeId -> List NodeId -> Finset NodeId × List NodeId
  | [], toPrune => (activeNodes, toPrune)
  | child :: children, toPrune =>
    if child ∉ ids ∧ ¬ graph.hasActiveParent (activeNodes.erase router) child ∧
        child ∈ activeNodes then
      pruneChildren router ids (activeNodes.erase child) children
        ((graph.edges child).reverse ++ toPrune)
    else
      pruneChildren router ids activeNodes children toPrune

/-- The nodes behind them, from the top of the stack `to_prune`. -/
def pruneDescendants (activeNodes : Finset NodeId) : List NodeId -> Finset NodeId
  | [] => activeNodes
  | prunedId :: toPrune =>
    if ¬ graph.hasActiveParent activeNodes prunedId ∧ prunedId ∈ activeNodes then
      pruneDescendants (activeNodes.erase prunedId) ((graph.edges prunedId).reverse ++ toPrune)
    else
      pruneDescendants activeNodes toPrune
  termination_by toPrune => (activeNodes.card, toPrune.length)
  decreasing_by
    · exact Prod.Lex.left _ _ (Finset.card_erase_lt_of_mem (by tauto))
    · exact Prod.Lex.right _ (Nat.lt_succ_self _)

def jump (nodeId : NodeId) (flow : Flow) (index : Nat) : Except DagrsError (Option Flow) :=
  if graph.blocks.length ≤ index then .error (.jumpOutOfBounds nodeId index)
  else .ok (some { flow with nextPc := index })

/-- `none` stands for an abort. -/
def handleFlowControl (nodeId : NodeId) (flow : Flow) :
    Output -> Except DagrsError (Option Flow)
  | .flow (.loop instr) =>
    match instr.jumpToBlockIndex, instr.jumpToNode with
    | some index, _ => graph.jump nodeId flow index
    | none, some target =>
      match graph.nodeBlock target with
      | some index => graph.jump nodeId flow index
      | none => .error (.jumpTargetNotFound nodeId target)
    | none, none => .ok (some flow)
  | .flow (.branch ids) =>
    let first := graph.pruneChildren nodeId ids flow.activeNodes (graph.edges nodeId) []
    .ok (some { flow with activeNodes := graph.pruneDescendants first.1 first.2 })
  | .flow .abort => .ok none
  | _ => .ok (some flow)

def handleResults : List (NodeId × Output) -> Flow -> Except DagrsError (Option Flow)
  | [], flow => .ok (some flow)
  | (nodeId, output) :: results, flow =>
    match graph.handleFlowControl nodeId flow output with
    | .error error => .error error
    | .ok none => .ok none
    | .ok (some flow) => handleResults results flow

/-- The state after a block whose active nodes have returned `results`. -/
def afterBlock (state : RunState) (results : List (NodeId × Output)) : RunState :=
  if results = [] then { state with pc := state.pc + 1 }
  else if results.any (·.2 matches .err) then
    { state with ended := some (.error .nodeExecutionFailed) }
  else if results.any (·.2 matches .conditionResult false) then
    { state with ended := some (.ok .succeeded) }
  else
    match graph.handleResults results ⟨state.activeNodes, state.pc + 1⟩ with
    | .error error => { state with ended := some (.error error) }
    | .ok none => { state with ended := some (.ok .aborted) }
    | .ok (some flow) =>
      if flow.nextPc < state.pc then
        if graph.maxLoopCount ≤ state.loopCount + 1 then
          { state with ended := some (.error (.loopLimitExceeded graph.maxLoopCount)) }
        else ⟨flow.nextPc, state.loopCount + 1, graph.nodes, none⟩
      else { state with pc := flow.nextPc, activeNodes := flow.activeNodes }

/-- The loop has been left, with a report or an error. -/
def Ended (state : RunState) : Prop :=
  state.ended.isSome = true ∨ graph.blocks.length ≤ state.pc
deriving Decidable

/-- One execution of a block: its active nodes return, in any order. -/
def step (state : RunState) (results : List (NodeId × Output)) : Option RunState :=
  if graph.Ended state then none
  else if (results.map Prod.fst).Perm
      ((graph.blocks.getD state.pc []).filter (· ∈ state.activeNodes)) then
    some (graph.afterBlock state results)
  else none

/-- The state in which `async_start` enters the loop. -/
def start : RunState := ⟨0, 0, graph.nodes, none⟩

/-- The block that an output asks for. -/
def asksFor : Output -> Option Nat
  | .flow (.loop instr) => instr.jumpToBlockIndex <|> instr.jumpToNode.bind graph.nodeBlock
  | _ => none

/-- The last loop instruction among the outputs, if there is one. -/
def lastAsked (results : List (NodeId × Output)) : Option Nat :=
  (results.filterMap fun result => graph.asksFor result.2).getLast?

/-- The last loop instruction does not ask for the block that has just run. -/
def MovesOn (state : RunState) (results : List (NodeId × Output)) : Prop :=
  graph.lastAsked results ≠ some state.pc
deriving Decidable

/-! ## The limit -/

variable {graph}

/-- Each turn of the loop is paid for by the program counter, and a jump back by the
loop count. -/
structure Paid (graph : Graph) (turns : Nat) (state : RunState) : Prop where
  bound : turns ≤ graph.maxLoopCount * graph.blocks.length
  running : state.ended = none -> state.loopCount < graph.maxLoopCount ∧
    turns ≤ state.loopCount * graph.blocks.length + state.pc

variable {turns : Nat} {state : RunState} {results : List (NodeId × Output)}

theorem nextPc_of_jump {nodeId : NodeId} {flow after : Flow} {index : Nat}
    (done : graph.jump nodeId flow index = .ok (some after)) : after.nextPc = index := by
  unfold jump at done
  split at done
  · cases done
  · cases done
    rfl

theorem nextPc_of_handleFlowControl {nodeId : NodeId} {flow after : Flow} {output : Output}
    (done : graph.handleFlowControl nodeId flow output = .ok (some after)) :
    after.nextPc = (graph.asksFor output).getD flow.nextPc := by
  unfold handleFlowControl at done
  split at done
  · rename_i instr
    split at done
    · rename_i index asked
      rw [nextPc_of_jump done, asksFor, asked]
      rfl
    · rename_i target unasked asked
      split at done
      · rename_i index block
        rw [nextPc_of_jump done, asksFor, unasked, asked, Option.bind_some, block]
        rfl
      · cases done
    · rename_i unasked untargeted
      cases done
      rw [asksFor, unasked, untargeted]
      rfl
  · cases done
    rfl
  · cases done
  · rename_i other _ _
    cases done
    cases output with
    | flow control =>
      cases control with
      | loop instr => exact absurd rfl (other instr)
      | _ => rfl
    | _ => rfl

/-- The nodes together ask for the block that the last of them asks for. -/
theorem nextPc_of_handleResults {after : Flow} (results : List (NodeId × Output)) :
    ∀ flow, graph.handleResults results flow = .ok (some after) ->
      after.nextPc = (graph.lastAsked results).getD flow.nextPc := by
  induction results with
  | nil =>
    rintro flow ⟨⟩
    rfl
  | cons result results later =>
    intro flow done
    rw [handleResults] at done
    split at done
    · cases done
    · cases done
    rename_i next handled
    have first := nextPc_of_handleFlowControl handled
    rw [later next done, first, lastAsked, lastAsked, List.filterMap_cons]
    cases graph.asksFor result.2 with
    | none => rfl
    | some index => simp [List.getLast?_cons]

/-- A block ends the run, leaves the loop count and goes ahead, or counts a jump back
that the limit allows. -/
theorem afterBlock_cases (moves : graph.MovesOn state results) :
    (graph.afterBlock state results).ended.isSome = true ∨
      (graph.afterBlock state results).loopCount = state.loopCount ∧
        state.pc < (graph.afterBlock state results).pc ∨
      (graph.afterBlock state results).loopCount = state.loopCount + 1 ∧
        state.loopCount + 1 < graph.maxLoopCount := by
  unfold afterBlock
  split
  · exact .inr (.inl ⟨rfl, Nat.lt_succ_self _⟩)
  split
  · exact .inl rfl
  split
  · exact .inl rfl
  split
  · exact .inl rfl
  · exact .inl rfl
  rename_i flow handled
  split_ifs with back limit
  · exact .inl rfl
  · exact .inr (.inr ⟨rfl, not_le.mp limit⟩)
  · have same := nextPc_of_handleResults results _ handled
    have other : flow.nextPc ≠ state.pc := by
      intro itself
      unfold MovesOn at moves
      cases asked : graph.lastAsked results with
      | none =>
        rw [asked, itself] at same
        exact Nat.ne_of_lt (Nat.lt_succ_self _) same
      | some index =>
        rw [asked, itself] at same
        exact moves (asked.trans (congrArg some same.symm))
    exact .inr (.inl ⟨rfl, Nat.lt_of_le_of_ne (not_lt.mp back) other.symm⟩)

theorem Paid.afterBlock (paid : graph.Paid turns state) (running : ¬ graph.Ended state)
    (moves : graph.MovesOn state results) :
    graph.Paid (turns + 1) (graph.afterBlock state results) := by
  obtain ⟨goesOn, inside⟩ := not_or.mp running
  obtain ⟨below, spent⟩ := paid.running (by simpa using goesOn)
  have lap : turns + 1 ≤ (state.loopCount + 1) * graph.blocks.length := by
    rw [Nat.succ_mul]
    omega
  refine ⟨lap.trans (Nat.mul_le_mul_right _ below), fun still => ?_⟩
  have goes : ¬ (graph.afterBlock state results).ended.isSome = true := by simp [still]
  rcases (afterBlock_cases moves).resolve_left goes with ⟨same, ahead⟩ | ⟨next, limit⟩
  · rw [same]
    exact ⟨below, by omega⟩
  · rw [next]
    exact ⟨limit, lap.trans (Nat.le_add_right _ _)⟩

theorem Paid.of_run (limit : 1 ≤ graph.maxLoopCount) {trace : List (List (NodeId × Output))}
    (run : Run graph.step graph.MovesOn graph.start trace state) :
    graph.Paid trace.length state := by
  refine run.history (fun taken state => graph.Paid taken.length state) ?_ ?_
  · exact ⟨Nat.zero_le _, fun _ => ⟨limit, Nat.zero_le _⟩⟩
  intro taken state results next paid moves stepped
  unfold step at stepped
  split_ifs at stepped with ended
  cases stepped
  rw [List.length_append]
  exact paid.afterBlock ended moves

/-- A state in which the run has not ended takes a step for any outputs of the nodes. -/
theorem exists_step (running : ¬ graph.Ended state) (outputs : NodeId -> Output) :
    ∃ results, (∀ result ∈ results, result.2 = outputs result.1) ∧
      (graph.step state results).isSome = true := by
  refine ⟨((graph.blocks.getD state.pc []).filter (· ∈ state.activeNodes)).map
    fun id => (id, outputs id), ?_, ?_⟩
  · exact List.forall_mem_map.mpr fun id _ => rfl
  rw [step, if_neg running, if_pos]
  · rfl
  · rw [List.map_map]
    exact (List.map_id _).symm ▸ List.Perm.refl _

/-- A run none of whose blocks asks for itself ends, after at most as many executions
of blocks as the limit allows. -/
theorem run_ends_of_movesOn (graph : Graph) (limit : 1 ≤ graph.maxLoopCount)
    {trace : List (List (NodeId × Output))} {state : RunState}
    (run : Run graph.step graph.MovesOn graph.start trace state) :
    trace.length ≤ graph.maxLoopCount * graph.blocks.length ∧
      (graph.Ended state ∨ forall outputs : NodeId -> Output, Exists fun results =>
        (forall result, result ∈ results -> result.2 = outputs result.1) ∧
          (graph.step state results).isSome = true) := by
  refine ⟨(Paid.of_run limit run).bound, ?_⟩
  by_cases ended : graph.Ended state
  · exact .inl ended
  · exact .inr (exists_step ended)

/-- One node that always asks to run its own block again. -/
def selfLoop : Graph := ⟨{0}, fun _ => [], [[0]], 1⟩

theorem selfLoop_runs_on : Exists fun state =>
    Run selfLoop.step anyStep selfLoop.start
      [[(0, .flow (.loop ⟨some 0, none⟩))], [(0, .flow (.loop ⟨some 0, none⟩))]] state ∧
      ¬ selfLoop.Ended state :=
  exists_run (by decide +kernel)

/-- Two blocks, the second of which may ask for the first. -/
def twoBlocks : Graph := ⟨{0, 1}, fun _ => [], [[0], [1]], 2⟩

def twoLaps : List (List (NodeId × Output)) :=
  [[(0, .out)], [(1, .flow (.loop ⟨none, some 0⟩))], [(0, .out)], [(1, .out)]]

theorem run_ends_two_laps : Exists fun state =>
    Run twoBlocks.step twoBlocks.MovesOn twoBlocks.start twoLaps state ∧
      twoBlocks.Ended state ∧ twoLaps.length ≤ twoBlocks.maxLoopCount * twoBlocks.blocks.length := by
  refine exists_run_of twoBlocks.Ended (by decide +kernel) fun _ run ended => ?_
  exact ⟨ended, (run_ends_of_movesOn twoBlocks (by decide) run).1⟩

end Graph
end Rk8s.Dagrs
