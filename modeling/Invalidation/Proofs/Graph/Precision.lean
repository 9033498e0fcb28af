import Invalidation.Proofs.Graph.Completeness
import Invalidation.Proofs.Walk.Marks

/-! No unit is told of without a reason. Whatever is marked, and however old a list of changes is, a
question about it answers only with the unit of the list and with owners of stored nodes that its
definitions reach. What is reached was passed on by a definition of its key, along an explicit edge,
or by a use that cascades.
-/

namespace Invalidation

-----------------------------------------------------------------------------------------
-- What a walk can report
-----------------------------------------------------------------------------------------

namespace Store

variable {store : Store} {starts : List Node} {ref : NodeRef}

/-- A walk expands a node: it starts there, or the node is stored for what it reaches. -/
def Expands (store : Store) (starts : List Node) (node : Node) : Prop :=
  node ∈ starts
  ∨ ∃ ref,
      store.Reached store.ReverseStep (fun _ => True) starts ref ∧ store.node? ref = some node

/-- Whatever is reached is one step away from a node that is expanded. -/
theorem Reached.exists_expands
    (reached : store.Reached store.ReverseStep (fun _ => True) starts ref)
    : ∃ node, store.Expands starts node ∧ store.ReverseStep node ref := by
  cases reached with
  | first isStart step _ => exact ⟨_, .inl isStart, step⟩
  | next before stored step _ => exact ⟨_, .inr ⟨_, before, stored⟩, step⟩

/-- What is reached is stored. -/
theorem Reached.contains (reached : store.Reached store.ReverseStep (fun _ => True) starts ref)
    : store.contains ref := by
  obtain ⟨node, -, step⟩ := reached.exists_expands
  exact step.contains

/-- A definition that is reached in a unit none of whose expanded nodes cascades has an edge to an
expanded node of the unit.
-/
theorem Indexed.exists_edge_of_definition (indexed : store.Indexed) {unit : UnitName}
    (quiet : ∀ node, store.Expands starts node → node.unit = unit → node.role.cascades = false)
    {fact : Fact} (owned : fact ∈ store.factsOf unit) (provided : fact.isDefinition = true)
    (reached : store.Reached store.ReverseStep (fun _ => True) starts ⟨fact.key, unit⟩)
    : ∃ target ∈ fact.dependsOn, ∃ node, store.Expands starts node ∧ node.ref = ⟨target, unit⟩ := by
  obtain ⟨node, expanded, step⟩ := reached.exists_expands
  generalize sameRef : (⟨fact.key, unit⟩ : NodeRef) = ref at step
  cases step with
  | @use user other _ _ otherOwned sameKey isUse =>
      obtain ⟨factKey, rfl⟩ := NodeRef.mk.inj sameRef
      obtain rfl := indexed.unique otherOwned owned (sameKey.trans factKey.symm)
      rw [provided] at isUse
      cases isUse
  | @edge other otherOwned depends =>
      obtain ⟨factKey, rfl⟩ := NodeRef.mk.inj sameRef
      obtain rfl := indexed.unique otherOwned owned factKey.symm
      exact ⟨node.key, depends, node, expanded, rfl⟩
  | cascade cascades _ _ _ =>
      obtain ⟨-, sameUnit⟩ := NodeRef.mk.inj sameRef
      rw [quiet node expanded sameUnit.symm] at cascades
      cases cascades

/-- What a unit passes on to another one, where none of its expanded nodes cascades, it passes on
from a node where the walk starts or one with an edge to an expanded node of the unit.
-/
theorem Indexed.exists_edge_of_passed_on (indexed : store.Indexed) {node : Node}
    (quiet
      : ∀ other,
          store.Expands starts other → other.unit = node.unit → other.role.cascades = false)
    (expanded : store.Expands starts node) {next : NodeRef} (step : store.ReverseStep node next)
    (passedOn : next.unit ≠ node.unit)
    : node ∈ starts
      ∨ ∃ target ∈ node.dependsOn,
          ∃ other, store.Expands starts other ∧ other.ref = ⟨target, node.unit⟩ := by
  rcases expanded with isStart | ⟨ref, reached, stored⟩
  · exact .inl isStart
  · obtain ⟨found, sameUnit⟩ := node?_eq_some_iff.1 stored
    obtain ⟨owned, sameKey⟩ := indexed.mem_of_fact? found
    have sameRef : ref = ⟨node.key, node.unit⟩ := by rw [sameKey, sameUnit]
    rw [← sameUnit] at owned
    cases step with
    | use provided _ _ _ _ =>
        exact .inr (indexed.exists_edge_of_definition quiet owned provided (sameRef ▸ reached))
    | edge _ _ => exact absurd rfl passedOn
    | cascade _ _ _ _ => exact absurd rfl passedOn

/-- A use that is reached sees the key of an expanded definition, or has an edge to an expanded node
of its unit.
-/
theorem Indexed.exists_definition_of_use (indexed : store.Indexed) {unit : UnitName}
    {fact : Fact} (owned : fact ∈ store.factsOf unit) (isUse : fact.isDefinition = false)
    (reached : store.Reached store.ReverseStep (fun _ => True) starts ⟨fact.key, unit⟩)
    : (∃ node,
          store.Expands starts node
          ∧ node.isDefinition = true
          ∧ node.key = fact.key
          ∧ (fact.key.isInterface = true ∨ node.unit = unit))
      ∨ ∃ target ∈ fact.dependsOn,
          ∃ node, store.Expands starts node ∧ node.ref = ⟨target, unit⟩ := by
  obtain ⟨node, expanded, step⟩ := reached.exists_expands
  generalize sameRef : (⟨fact.key, unit⟩ : NodeRef) = ref at step
  cases step with
  | use provided visible _ _ _ =>
      obtain ⟨sameKey, rfl⟩ := NodeRef.mk.inj sameRef
      exact .inl ⟨node, expanded, provided, sameKey.symm, sameKey ▸ visible.imp_right Eq.symm⟩
  | @edge other otherOwned depends =>
      obtain ⟨factKey, rfl⟩ := NodeRef.mk.inj sameRef
      obtain rfl := indexed.unique otherOwned owned factKey.symm
      exact .inr ⟨node.key, depends, node, expanded, rfl⟩
  | @cascade other _ otherOwned provided _ =>
      obtain ⟨factKey, rfl⟩ := NodeRef.mk.inj sameRef
      obtain rfl := indexed.unique otherOwned owned factKey.symm
      rw [isUse] at provided
      cases provided

/-- A walk reports only owners of given nodes and of stored nodes that the definitions among them
reach: it enters no node that a walk past all marks would not enter.
-/
theorem Indexed.exists_reached_of_walkFrom (indexed : store.Indexed) {seeds : List Node}
    {unit : UnitName} (told : unit ∈ (store.walkFrom seeds).units)
    : (∃ node ∈ seeds, node.unit = unit)
      ∨ ∃ ref,
          ref.unit = unit
          ∧ store.Reached store.ReverseStep (fun _ => True) (definitionsOf seeds) ref := by
  rw [walkFrom_units_eq, List.mem_eraseDups, List.mem_append] at told
  rcases told with given | entered
  · obtain ⟨node, reported, rfl⟩ := List.mem_map.1 given
    exact .inl ⟨node, List.mem_of_mem_filter reported, rfl⟩
  · obtain ⟨ref, walked, rfl⟩ := List.mem_map.1 entered
    have sameMoves : (store.begun seeds).Alike store := alike_withMarks store _
    rw [walkFrom_reached, sameMoves.discover, mem_discover_iff, indexed.reached_moves_iff] at walked
    refine .inr ⟨ref, rfl, (walked.mono fun _ _ _ _ => trivial).of_starts fun start begins => ?_⟩
    obtain ⟨isSeed, provided, -⟩ := mem_beginnings.1 begins
    exact .inl (List.mem_filter.2 ⟨isSeed, provided⟩)

end Store

-----------------------------------------------------------------------------------------
-- What a question can answer
-----------------------------------------------------------------------------------------

namespace Graph

variable {graph earlier : Graph} {snapshot : Snapshot} {invalidated : Invalidated}

theorem unit_of_accepted (accepted : (graph.integrate snapshot).answer = .ok invalidated)
    : invalidated.unit = snapshot.unit := by
  obtain ⟨facts, -, rfl, -⟩ := integrate_answer_eq_ok_iff.1 accepted
  rfl

/-- A question about the changes of any integration, however long ago it was and whatever has been
marked since, answers only with the unit of the changes, if there are any, and with owners of stored
nodes that the listed definitions reach. In particular a unit in which nothing that is reached
cascades passes nothing on except what is listed or has an edge to something reached; and a use is
reached only from a definition of its key that is listed or reached itself, or along such an edge.
-/
theorem affected_only_downstream (reachable : graph.Reachable)
    (incremental : graph.options.incremental = true)
    (accepted : (earlier.integrate snapshot).answer = .ok invalidated)
    : let reached :=
        graph.store.Reached graph.store.ReverseStep (fun _ => True) invalidated.definitions
      let expands := graph.store.Expands invalidated.definitions
      (∀ unit ∈ (graph.affectedByChanges invalidated).answer,
          (invalidated.entries ≠ [] ∧ unit = invalidated.unit)
          ∨ ∃ ref, ref.unit = unit ∧ graph.store.contains ref ∧ reached ref)
      ∧ (∀ node,
          expands node
          → (∀ other, expands other → other.unit = node.unit → other.role.cascades = false)
          → ∀ next,
              graph.store.ReverseStep node next
              → next.unit ≠ node.unit
              → node ∈ invalidated.definitions
                ∨ ∃ target ∈ node.dependsOn,
                    ∃ other, expands other ∧ other.ref = ⟨target, node.unit⟩)
      ∧ ∀ unit,
          ∀ fact ∈ graph.store.factsOf unit,
            fact.isDefinition = false
            → reached ⟨fact.key, unit⟩
            → (∃ node,
                  expands node
                  ∧ node.isDefinition = true
                  ∧ node.key = fact.key
                  ∧ (fact.key.isInterface = true ∨ node.unit = unit))
              ∨ ∃ target ∈ fact.dependsOn, ∃ node, expands node ∧ node.ref = ⟨target, unit⟩ := by
  intro reached expands
  have indexed : graph.store.Indexed := reachable.sound.indexed
  refine ⟨fun unit told => ?_, ?_, ?_⟩
  · rw [affectedByChanges_answer incremental] at told
    rcases indexed.exists_reached_of_walkFrom told with ⟨node, listed, rfl⟩ | ⟨ref, owns, reached⟩
    · obtain ⟨entry, member, rfl⟩ := List.mem_map.1 listed
      refine .inl ⟨List.ne_nil_of_mem member, ?_⟩
      rw [unit_of_listed accepted listed, unit_of_accepted accepted]
    · exact .inr ⟨ref, owns, reached.contains, reached⟩
  · exact fun node expanded quiet next => indexed.exists_edge_of_passed_on quiet expanded
  · exact fun unit fact owned isUse => indexed.exists_definition_of_use owned isUse

/-- The graph some time after the other fingerprint: the user of the first name uses it without
cascading now, another unit uses what that user provides, and nodes are marked.
-/
def usedQuietly : Graph :=
  [Operation.integrate
      (((Snapshot.start "u1").define (.interface (.topLevel "y")) none).consume
        (.interface (.topLevel "x")) false),
    .integrate ((Snapshot.start "u2").consume (.interface (.topLevel "y")) true),
    .askUnit "u2"].foldl
    Graph.after (usedByTwo.integrate renewed).graph

/-- The old list of changes is answered with the user that does not cascade, and not with the unit
behind it.
-/
theorem unit_behind_quiet_use_unaffected
    : "u1" ∈ (usedQuietly.affectedByChanges invalidatedByRenewal).answer
      ∧ "u2" ∉ (usedQuietly.affectedByChanges invalidatedByRenewal).answer
      ∧ usedQuietly.store.marked ≠ [] := by
  have usedByTwoReachable : usedByTwo.Reachable := Reachable.foldl_after (.new {}) _
  have reachable : usedQuietly.Reachable :=
    (usedByTwoReachable.after (.integrate renewed)).foldl_after _
  have accepted : (usedByTwo.integrate renewed).answer = .ok invalidatedByRenewal := by decide
  refine ⟨by decide, fun told => ?_, by decide⟩
  have unfound
      : ∀ ref ∈ usedQuietly.store.discover (fun _ => true) [] invalidatedByRenewal.definitions,
          ref.unit ≠ "u2" := by
    decide
  obtain ⟨downstream, -, -⟩ := affected_only_downstream reachable rfl accepted
  rcases downstream "u2" told with ⟨-, own⟩ | ⟨ref, owns, -, reached⟩
  · exact absurd own (by decide)
  · exact unfound ref (reachable.sound.indexed.mem_discover_iff_reached.2 reached) owns

end Graph

end Invalidation
