import Invalidation.Proofs.Graph.Invariant

/-! A graph stores no more and no less than the last accepted snapshot of each unit. After any
operations the known units are those of the accepted snapshots in the order of their first one, and
each owns the normal form of its last one.
-/

namespace Invalidation.Graph

variable {graph : Graph} {operation : Operation}

/-- The snapshot that an operation integrates, if the integration is accepted. -/
def accepts? (graph : Graph) (operation : Operation)
    : Option Snapshot :=
  operation.snapshot?.filter fun snapshot => (graph.integrate snapshot).answer.toOption.isSome

/-- The snapshots that are accepted when operations come one after the other. -/
def accepted (graph : Graph) : List Operation → List Snapshot
  | [] => []
  | operation :: rest =>
      (graph.accepts? operation).toList ++ (graph.after operation).accepted rest

/-- The facts that a unit owns when snapshots were accepted, where others were stored before: the
normal form of its last snapshot, if there is one.
-/
def Owes (log : List Snapshot) (before : List Fact) (unit : UnitName) (facts : List Fact) : Prop :=
  match log.reverse.find? (·.unit = unit) with
  | some snapshot => snapshot.normalForm = .ok facts
  | none => facts = before

/-- What a log owes, when what it owes after its first snapshot is known. -/
theorem Owes.cons {snapshot : Snapshot} {log : List Snapshot} {first before facts : List Fact}
    {unit : UnitName} (normal : snapshot.normalForm = .ok first)
    (owes : Owes log (if unit = snapshot.unit then first else before) unit facts)
    : Owes (snapshot :: log) before unit facts := by
  unfold Owes at owes ⊢
  rw [List.reverse_cons, List.find?_append]
  cases last : log.reverse.find? (·.unit = unit) with
  | some later =>
      rw [last] at owes
      exact owes
  | none =>
      rw [last] at owes
      by_cases own : snapshot.unit = unit
      · simp only [own, ↓reduceIte] at owes
        simpa [own, owes] using normal
      · simpa [own, Ne.symm own] using owes

theorem Owes.unique {log : List Snapshot} {before facts others : List Fact} {unit : UnitName}
    (owes : Owes log before unit facts) (owesOthers : Owes log before unit others)
    : facts = others := by
  unfold Owes at owes owesOthers
  cases last : log.reverse.find? (·.unit = unit) with
  | some snapshot =>
      rw [last] at owes owesOthers
      exact Except.ok.inj (owes.symm.trans owesOthers)
  | none =>
      rw [last] at owes owesOthers
      exact owes.trans owesOthers.symm

-----------------------------------------------------------------------------------------
-- One operation
-----------------------------------------------------------------------------------------

/-- In a graph whose parts agree, a snapshot is accepted if it keeps the contract, whatever else is
stored.
-/
theorem Consistent.accepts?_eq (consistent : graph.Consistent) (operation : Operation)
    : graph.accepts? operation
      = operation.snapshot?.filter fun snapshot => snapshot.normalForm.toOption.isSome := by
  rw [accepts?]
  congr 1
  funext snapshot
  cases normal : snapshot.normalForm with
  | ok facts =>
      rw [consistent.integrate_answer normal]
      rfl
  | error violation =>
      rw [integrate_answer_of_violation normal]
      rfl

/-- In a graph whose parts agree, an operation leads to the graph after an accepted snapshot, or none
is accepted and the facts are undisturbed.
-/
theorem accepts?_cases (consistent : graph.Consistent) (operation : Operation)
    : (∃ snapshot facts,
          graph.accepts? operation = some snapshot
          ∧ snapshot.normalForm = .ok facts
          ∧ graph.after operation = (graph.integrate snapshot).graph)
      ∨ (graph.accepts? operation = none ∧ graph.Undisturbed (graph.after operation)) := by
  rw [consistent.accepts?_eq]
  rcases graph.after_cases operation with
    ⟨snapshot, facts, integrates, normal, -, same⟩ | ⟨nothing, undisturbed⟩
  · refine .inl ⟨snapshot, facts, ?_, normal, same⟩
    rw [integrates, Option.filter_some, normal]
    rfl
  · refine .inr ⟨?_, undisturbed⟩
    cases integrates : operation.snapshot? with
    | none => rfl
    | some snapshot =>
        cases normal : snapshot.normalForm with
        | ok facts =>
            simp [Operation.replacement?, integrates, normal, Except.toOption] at nothing
        | error violation =>
            rw [Option.filter_some, normal]
            rfl

theorem integrate_unitNames {snapshot : Snapshot} {facts : List Fact}
    (normal : snapshot.normalForm = .ok facts)
    : (graph.integrate snapshot).graph.store.unitNames
      = addLast graph.store.unitNames snapshot.unit := by
  rw [integrate_graph normal]
  generalize ran : graph.integration snapshot.unit facts = result
  exact Integration.run_unitNames ran (Snapshot.normalForm_ne_nil normal)

-----------------------------------------------------------------------------------------
-- All operations
-----------------------------------------------------------------------------------------

/-- Operations make known the units of the accepted snapshots, in order, by induction on the
operations.
-/
theorem unitNames_foldl_after (consistent : graph.Consistent) (operations : List Operation)
    : (operations.foldl after graph).store.unitNames
      = ((graph.accepted operations).map (·.unit)).foldl addLast graph.store.unitNames := by
  induction operations generalizing graph with
  | nil => rfl
  | cons operation rest ih =>
      rw [List.foldl_cons, ih (consistent.after operation), accepted, List.map_append,
        List.foldl_append]
      congr 1
      rcases accepts?_cases consistent operation with
        ⟨snapshot, facts, accepts, normal, same⟩ | ⟨accepts, undisturbed⟩
      · rw [same, integrate_unitNames normal, accepts]
        rfl
      · rw [undisturbed.unitNames, accepts]
        rfl

/-- Operations leave each unit with what its last accepted snapshot owes it, by induction on the
operations.
-/
theorem factsOf_foldl_after (consistent : graph.Consistent) (operations : List Operation)
    (unit : UnitName)
    : Owes (graph.accepted operations) (graph.store.factsOf unit) unit
        ((operations.foldl after graph).store.factsOf unit) := by
  induction operations generalizing graph with
  | nil => rfl
  | cons operation rest ih =>
      have later := ih (consistent.after operation)
      rw [List.foldl_cons, accepted]
      rcases accepts?_cases consistent operation with
        ⟨snapshot, facts, accepts, normal, same⟩ | ⟨accepts, undisturbed⟩
      · have before
            : (graph.after operation).store.factsOf unit
              = if unit = snapshot.unit then facts else graph.store.factsOf unit := by
          rw [same, integrate_factsOf consistent.synced normal]
        rw [accepts, Option.toList_some, List.singleton_append]
        rw [before] at later
        exact later.cons normal
      · rw [undisturbed.factsOf] at later
        rw [accepts]
        exact later

/-- Where its parts agree, the graph has no say in which snapshots are accepted, by induction on the
operations.
-/
theorem Consistent.accepted_eq (consistent : graph.Consistent) (operations : List Operation)
    : graph.accepted operations
      = (operations.filterMap (·.snapshot?)).filter fun snapshot =>
          snapshot.normalForm.toOption.isSome := by
  induction operations generalizing graph with
  | nil => rfl
  | cons operation rest ih =>
      rw [accepted, ih (consistent.after operation), consistent.accepts?_eq]
      cases integrates : operation.snapshot? with
      | none => simp only [integrates, List.filterMap_cons, Option.filter_none, Option.toList_none,
          List.nil_append]
      | some snapshot =>
          rw [List.filterMap_cons, integrates, List.filter_cons, Option.filter_some]
          split <;> rfl

section

variable {left right : Graph} (leftConsistent : left.Consistent)
  (rightConsistent : right.Consistent) {operations others : List Operation}
  (sameSnapshots : operations.filterMap (·.snapshot?) = others.filterMap (·.snapshot?))

include leftConsistent rightConsistent sameSnapshots

/-- Graphs with the same facts have the same facts after operations that integrate the same snapshots,
whatever was asked in between.
-/
theorem factsOf_foldl_after_congr {unit : UnitName}
    (stored : left.store.factsOf unit = right.store.factsOf unit)
    : (operations.foldl after left).store.factsOf unit
      = (others.foldl after right).store.factsOf unit := by
  have owes := factsOf_foldl_after leftConsistent operations unit
  rw [leftConsistent.accepted_eq, sameSnapshots, ← rightConsistent.accepted_eq, stored] at owes
  exact owes.unique (factsOf_foldl_after rightConsistent others unit)

theorem unitNames_foldl_after_congr (known : left.store.unitNames = right.store.unitNames)
    : (operations.foldl after left).store.unitNames
      = (others.foldl after right).store.unitNames := by
  rw [unitNames_foldl_after leftConsistent, unitNames_foldl_after rightConsistent,
    leftConsistent.accepted_eq, rightConsistent.accepted_eq, sameSnapshots, known]

end

/-- After any operations on a new graph, the known units are those of the accepted snapshots, in the
order of their first one. Each owns the normal form of its last one and nothing else; every other
unit owns nothing.
-/
theorem refines_accepted_snapshots (options : Options) (operations : List Operation)
    : let graph := operations.foldl after (new options)
      let log := (new options).accepted operations
      graph.store.unitNames = (log.map (·.unit)).eraseDups
      ∧ (∀ unit,
          match log.reverse.find? (·.unit = unit) with
          | some snapshot =>
              ∃ facts,
                snapshot.normalForm = .ok facts
                ∧ graph.store.nodesOf unit = facts.map (⟨·, unit⟩)
          | none => graph.store.nodesOf unit = [])
      ∧ graph.store.nodeCount
        = (graph.store.unitNames.map fun unit => (graph.store.nodesOf unit).length).sum := by
  intro graph log
  have consistent := Consistent.new options
  have synced : graph.store.Synced := (consistent.foldl_after operations).synced
  refine ⟨?_, fun unit => ?_, synced.nodeCount_eq⟩
  · exact (unitNames_foldl_after consistent operations).trans (foldl_addLast_nil _)
  · have owes : Owes log [] unit (graph.store.factsOf unit) :=
      factsOf_foldl_after consistent operations unit
    unfold Owes at owes
    split at owes
    · exact ⟨_, owes, rfl⟩
    · rw [Store.nodesOf, owes, List.map_nil]

end Invalidation.Graph
