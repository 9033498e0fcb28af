import Invalidation.Proofs.Graph.Precision
import Mathlib.Logic.Relation

/-! Private changes stay private. Where an integration lists no definition that other units can
see, and nothing that passes changes on depends on one that it lists, the walk from those never
leaves the unit: on its whole way it is at facts with a chain of edges to a listed definition.
-/

namespace Invalidation

/-- A change of the fact goes beyond what depends on it within its unit: it is a definition that
other units can see, or a use that makes all of those look changed.
-/
def Fact.PassesOn (fact : Fact) : Prop :=
  (fact.isDefinition = true ∧ fact.key.isInterface = true) ∨ fact.role.cascades = true

instance (fact : Fact) : Decidable fact.PassesOn :=
  inferInstanceAs
    (Decidable
      ((fact.isDefinition = true ∧ fact.key.isInterface = true) ∨ fact.role.cascades = true))

theorem Fact.not_passesOn_iff {fact : Fact}
    : ¬fact.PassesOn
      ↔ (fact.isDefinition = true → fact.key.isInterface = false)
        ∧ fact.role.cascades = false := by
  simp [PassesOn]

-----------------------------------------------------------------------------------------
-- What keeps a walk inside
-----------------------------------------------------------------------------------------

namespace Store

variable {store : Store} {unit : UnitName} {listed : List Node} {ref : NodeRef}

/-- A fact of the unit has an explicit edge from the one key to the other. -/
def Links (store : Store) (unit : UnitName) (source target : Key) : Prop :=
  ∃ fact ∈ store.factsOf unit, fact.key = source ∧ target ∈ fact.dependsOn

/-- No fact of the unit that passes changes on has a chain of edges to a listed node. -/
def Encloses (store : Store) (unit : UnitName) (listed : List Node) : Prop :=
  ∀ fact ∈ store.factsOf unit,
    fact.PassesOn → ∀ node ∈ listed, ¬Relation.TransGen (store.Links unit) fact.key node.key

/-- The node is one of the unit that has a chain of edges to a listed node. -/
def Leans (store : Store) (unit : UnitName) (listed : List Node) (ref : NodeRef) : Prop :=
  ref.unit = unit ∧ ∃ node ∈ listed, Relation.TransGen (store.Links unit) ref.key node.key

/-- Facts without edges begin no chain. -/
theorem Indexed.encloses_of_edgeless (indexed : store.Indexed)
    (edgeless : ∀ fact ∈ store.factsOf unit, fact.PassesOn → fact.dependsOn = [])
    : store.Encloses unit listed := by
  intro fact owned passesOn node _ chain
  obtain ⟨next, ⟨other, otherOwned, sameKey, depends⟩, -⟩ := Relation.TransGen.head'_iff.1 chain
  obtain rfl := indexed.unique otherOwned owned sameKey
  rw [edgeless _ owned passesOn] at depends
  cases depends

-----------------------------------------------------------------------------------------
-- Steps along edges
-----------------------------------------------------------------------------------------

/-- From a definition that only its own unit sees, a walk goes nowhere but along edges, since no
fact of the unit uses the key.
-/
theorem ReverseStep.links_of_definition {node : Node} (step : store.ReverseStep node ref)
    (provided : node.isDefinition = true) (hidden : node.key.isInterface = false)
    (stored : ∀ fact ∈ store.factsOf node.unit, fact.key = node.key → fact.isDefinition = true)
    : ref.unit = node.unit ∧ store.Links node.unit ref.key node.key := by
  cases step with
  | use _ visible owned sameKey isUse =>
      obtain rfl := visible.resolve_left (by simp [hidden])
      rw [stored _ owned sameKey] at isUse
      cases isUse
  | edge owned depends => exact ⟨rfl, _, owned, rfl, depends⟩
  | cascade cascades _ _ _ =>
      rw [Fact.cascades_of_isDefinition provided] at cascades
      cases cascades

/-- From a use that does not cascade, a walk goes nowhere but along edges. -/
theorem ReverseStep.links_of_use {node : Node} (step : store.ReverseStep node ref)
    (isUse : node.isDefinition = false) (still : node.role.cascades = false)
    : ref.unit = node.unit ∧ store.Links node.unit ref.key node.key := by
  cases step with
  | use provided _ _ _ _ =>
      rw [isUse] at provided
      cases provided
  | edge owned depends => exact ⟨rfl, _, owned, rfl, depends⟩
  | cascade cascades _ _ _ =>
      rw [still] at cascades
      cases cascades

/-- From a stored node that passes no changes on, a walk goes nowhere but along edges. -/
theorem Indexed.links_of_not_passesOn (indexed : store.Indexed) {node : Node}
    (owned : node.toFact ∈ store.factsOf node.unit) (still : ¬node.PassesOn)
    (step : store.ReverseStep node ref)
    : ref.unit = node.unit ∧ store.Links node.unit ref.key node.key := by
  obtain ⟨hidden, noCascade⟩ := Fact.not_passesOn_iff.1 still
  cases provided : node.isDefinition with
  | true =>
      refine step.links_of_definition provided (hidden provided) fun fact member sameKey => ?_
      rw [indexed.unique member owned sameKey, provided]
  | false => exact step.links_of_use provided noCascade

/-- A walk from listed definitions that only their unit sees stays at nodes that lean on them, if
those pass nothing on. The induction is on the way: each step goes along an edge, which makes the
chain to a listed definition one longer.
-/
theorem Indexed.leans_of_reached (indexed : store.Indexed) (encloses : store.Encloses unit listed)
    (concealed
      : ∀ node ∈ listed,
          node.unit = unit
          ∧ node.isDefinition = true
          ∧ node.key.isInterface = false
          ∧ ∀ fact ∈ store.factsOf unit, fact.key = node.key → fact.isDefinition = true)
    (reached : store.Reached store.ReverseStep (fun _ => True) listed ref)
    : store.Leans unit listed ref := by
  induction reached with
  | @first start next isStart step _ =>
      obtain ⟨rfl, provided, hidden, stored⟩ := concealed start isStart
      obtain ⟨sameUnit, link⟩ := step.links_of_definition provided hidden stored
      exact ⟨sameUnit, start, isStart, .single link⟩
  | @next before node next _ stored step _ ih =>
      obtain ⟨rfl, start, isStart, chain⟩ := ih
      obtain ⟨found, owner⟩ := node?_eq_some_iff.1 stored
      obtain ⟨owned, sameKey⟩ := indexed.mem_of_fact? found
      have still : ¬node.PassesOn := fun passesOn =>
        encloses node.toFact owned passesOn start isStart (sameKey ▸ chain)
      rw [← owner] at owned
      obtain ⟨sameUnit, link⟩ := indexed.links_of_not_passesOn owned still step
      rw [owner, sameKey] at link
      exact ⟨sameUnit.trans owner, start, isStart, .head link chain⟩

end Store

-----------------------------------------------------------------------------------------
-- Private changes
-----------------------------------------------------------------------------------------

namespace Graph

variable {graph : Graph} {snapshot : Snapshot} {invalidated : Invalidated}

/-- If no other unit can see any definition that an integration lists, and no fact of the unit that
passes changes on has a chain of edges to one of them, then right after it no unit is affected but
its own one, and that exactly if anything is listed: whatever other units define or use, under the
same keys or not, and whichever uses the unit has gained or lost.
-/
theorem private_changes_stay_private (reachable : graph.Reachable)
    (incremental : graph.options.incremental = true)
    (accepted : (graph.integrate snapshot).answer = .ok invalidated)
    (hidden : ∀ node ∈ invalidated.definitions, node.key.isInterface = false)
    (encloses
      : (graph.integrate snapshot).graph.store.Encloses snapshot.unit invalidated.definitions)
    {unit : UnitName}
    : unit ∈ ((graph.integrate snapshot).graph.affectedByChanges invalidated).answer
      ↔ invalidated.entries ≠ [] ∧ unit = snapshot.unit := by
  rw [mem_affected_iff reachable incremental accepted, or_iff_left_of_imp]
  intro finds
  obtain ⟨ref, rfl, reached⟩ := finds
  have indexed := (reachable.after (.integrate snapshot)).sound.indexed
  have leans := indexed.leans_of_reached encloses
    (fun node listed => ?_) (reached.mono fun _ _ _ _ => trivial)
  · obtain ⟨sameUnit, start, isStart, -⟩ := leans
    obtain ⟨entry, member, -⟩ := List.mem_map.1 (List.mem_of_mem_filter isStart)
    exact ⟨List.ne_nil_of_mem member, sameUnit⟩
  · obtain ⟨isNode, provided⟩ := List.mem_filter.1 listed
    refine ⟨unit_of_listed accepted isNode, provided, hidden node listed, ?_⟩
    intro fact owned sameKey
    rw [fact_eq_of_listed reachable.synced accepted isNode owned sameKey]
    exact provided

/-- A name that is private to each unit. -/
def helper : Key := ⟨.implementation, .topLevel "helper"⟩

/-- The facts of a unit with a name that it shows, and with a private one on which another private
one depends.
-/
def withHelper (fingerprint : String) : Snapshot :=
  ((((Snapshot.start "u0").define (.interface (.topLevel "a")) none).define helper
      (some (.digest fingerprint))).define
    ⟨.implementation, .topLevel "inner"⟩ none).addEdge 4 3

/-- A graph in which a second unit provides the same private name, and a third one uses that name
and the one that is shown.
-/
def helperKnown : Graph :=
  [Operation.integrate (withHelper "f1"),
    .integrate ((Snapshot.start "u1").define helper none),
    .integrate
      (((Snapshot.start "u2").consume helper true).consume (.interface (.topLevel "a"))
        true)].foldl
    Graph.after (.new {})

/-- A unit with another fingerprint for a private name, and with one use more, is alone affected,
although other units provide and use that name.
-/
theorem helper_stays_private
    : let snapshot := (withHelper "f2").consume (.interface (.topLevel "b")) false
      let invalidated : Invalidated :=
        ⟨"u0",
          [⟨.changed, ⟨⟨helper, some (.digest "f2"), .definition, []⟩, "u0"⟩⟩,
            ⟨.new, ⟨⟨.interface (.topLevel "b"), none, .use false, []⟩, "u0"⟩⟩],
          []⟩
      (helperKnown.integrate snapshot).answer = .ok invalidated
      ∧ helperKnown.store.Defines "u1" helper
      ∧ helperKnown.store.Uses "u2" helper
      ∧ ∀ unit,
          unit ∈ ((helperKnown.integrate snapshot).graph.affectedByChanges invalidated).answer
          ↔ unit = "u0" := by
  intro snapshot invalidated
  have reachable : helperKnown.Reachable := Reachable.foldl_after (.new {}) _
  have accepted : (helperKnown.integrate snapshot).answer = .ok invalidated := by decide
  have indexed := (reachable.after (.integrate snapshot)).sound.indexed
  have encloses
      : (helperKnown.integrate snapshot).graph.store.Encloses "u0" invalidated.definitions :=
    indexed.encloses_of_edgeless (by decide)
  refine ⟨accepted, by decide, by decide, fun unit => ?_⟩
  rw [private_changes_stay_private reachable rfl accepted (by decide) encloses]
  exact and_iff_right (List.cons_ne_nil _ _)

end Graph

end Invalidation
