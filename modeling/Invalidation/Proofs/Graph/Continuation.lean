import Invalidation.Proofs.Graph.History
import Invalidation.Proofs.Graph.Reload
import Invalidation.Proofs.Walk.Equivalent

/-! A loaded graph goes on as the one that was saved. Its indices were built in another order, which
every operation keeps invisible: it answers alike on both graphs and leaves them equivalent.
-/

namespace Invalidation

namespace Integration

variable {left right : Store}

theorem forgetUnused_equivalent (equivalent : left.Equivalent right)
    : forgetUnused left = forgetUnused right := by
  funext externals fact
  simp only [forgetUnused, equivalent.users_eq_nil_iff]

/-- Two integrations invalidate the same, with the same artifacts in use afterwards, and leave
equivalent stores.
-/
structure Result.Equivalent (left right : Result) : Prop where
  invalidated : left.invalidated = right.invalidated
  store : left.store.Equivalent right.store
  externals : left.externals = right.externals

/-- Integrating the same facts comes to the same in equivalent stores. -/
theorem run_equivalent (equivalent : left.Equivalent right) (externals : Externals)
    (granularity : Granularity) (unit : UnitName) (incoming : List Fact)
    : (run left externals granularity unit incoming).Equivalent
        (run right externals granularity unit incoming) := by
  have removed := removedFacts_congr (equivalent.factsOf unit) incoming
  have stored : (replaced left unit incoming).Equivalent (replaced right unit incoming) := by
    rw [replaced, replaced, removed]
    exact (equivalent.putAll unit incoming).dropAll unit _
  have invalidated
      : (run left externals granularity unit incoming).invalidated
        = (run right externals granularity unit incoming).invalidated :=
    run_invalidated_congr equivalent.toSameNodes stored.toSameNodes fun _ => rfl
  refine ⟨invalidated, ?_, ?_⟩
  · rw [run_store rfl, run_store rfl, invalidated]
    exact (stored.unmarkUnit unit).unmarkBeyond _
  · have forgets := forgetUnused_equivalent stored
    simp only [replaced, removed] at forgets
    simp only [run, removed, forgets]

end Integration

namespace Graph

/-- Two graphs have the same settings and artifacts, and equivalent stores. They may be in different
phases.
-/
structure Equivalent (left right : Graph) : Prop where
  options : left.options = right.options
  store : left.store.Equivalent right.store
  externals : left.externals = right.externals

/-- Two questions are answered by the same units, in some order, and leave equivalent graphs. -/
structure AnsweredAlike (left right : Outcome (List UnitName)) : Prop where
  answer : left.answer.Perm right.answer
  graph : left.graph.Equivalent right.graph

namespace Equivalent

variable {left right : Graph}

theorem check (equivalent : left.Equivalent right) : left.check = right.check := by
  refine check_congr equivalent.store.toSameNodes (fun path => ?_) equivalent.store.leftIndexed
    equivalent.store.rightIndexed
  rw [equivalent.externals]

theorem integration (equivalent : left.Equivalent right) (unit : UnitName) (facts : List Fact)
    : (left.integration unit facts).Equivalent (right.integration unit facts) := by
  rw [Graph.integration, Graph.integration, equivalent.options, equivalent.externals]
  exact Integration.run_equivalent equivalent.store _ _ unit facts

theorem integrate (equivalent : left.Equivalent right) (snapshot : Snapshot)
    : (left.integrate snapshot).graph.Equivalent (right.integrate snapshot).graph := by
  cases normal : snapshot.normalForm with
  | error violation =>
      rw [integrate_graph_of_violation normal, integrate_graph_of_violation normal]
      exact equivalent
  | ok facts =>
      have ran := equivalent.integration snapshot.unit facts
      rw [integrate_graph normal, integrate_graph normal]
      exact ⟨equivalent.options, ran.store, ran.externals⟩

/-- A snapshot is accepted or refused alike by equivalent graphs, and it invalidates the same. -/
theorem integrate_answer (equivalent : left.Equivalent right) (snapshot : Snapshot)
    : (left.integrate snapshot).answer = (right.integrate snapshot).answer := by
  cases normal : snapshot.normalForm with
  | error violation => simp only [Graph.integrate, normal]
  | ok facts =>
      rw [Graph.integrate_answer normal, Graph.integrate_answer normal, equivalent.options,
        (equivalent.integrate snapshot).check,
        (equivalent.integration snapshot.unit facts).invalidated]

theorem integrateDocument (equivalent : left.Equivalent right) (bytes : Bytes)
    : (left.integrateDocument bytes).answer = (right.integrateDocument bytes).answer
      ∧ (left.integrateDocument bytes).graph.Equivalent
          (right.integrateDocument bytes).graph := by
  unfold Graph.integrateDocument
  split
  · exact ⟨rfl, equivalent⟩
  · exact ⟨equivalent.integrate_answer _, equivalent.integrate _⟩

-----------------------------------------------------------------------------------------
-- Questions
-----------------------------------------------------------------------------------------

theorem reopen (equivalent : left.Equivalent right) (unit : UnitName)
    : (left.reopen unit).Equivalent (right.reopen unit) :=
  ⟨equivalent.options, equivalent.store.unmarkUnit unit, equivalent.externals⟩

/-- Without incremental tracking a question about equivalent graphs is answered from the units that
they know.
-/
theorem answeredAlike_of_eq (equivalent : left.Equivalent right) {units units' : List UnitName}
    (same : units = units') (events events' : List Event)
    : AnsweredAlike ⟨units, left, events⟩ ⟨units', right, events'⟩ :=
  ⟨.of_eq same, equivalent⟩

theorem report (equivalent : left.Equivalent right) {walk walk' : Walk}
    (walks : walk.Equivalent walk') {units units' : List UnitName} (same : units.Perm units')
    (summary : Nat → Event)
    : AnsweredAlike (left.report walk units summary) (right.report walk' units' summary) :=
  ⟨same, equivalent.options, walks.store, equivalent.externals⟩

theorem affectedByChanges (equivalent : left.Equivalent right) (invalidated : Invalidated)
    : AnsweredAlike (left.affectedByChanges invalidated) (right.affectedByChanges invalidated) := by
  have walks := equivalent.store.walkFrom invalidated.nodes
  simp only [Graph.affectedByChanges, equivalent.options]
  split
  · exact equivalent.report walks walks.units _
  · exact equivalent.answeredAlike_of_eq equivalent.store.unitNames _ _

theorem affectedByUnit (equivalent : left.Equivalent right) (unit : UnitName)
    : AnsweredAlike (left.affectedByUnit unit) (right.affectedByUnit unit) := by
  have nodes : left.store.nodesOf unit = right.store.nodesOf unit := by
    rw [Store.nodesOf, Store.nodesOf, equivalent.store.factsOf]
  have walks := equivalent.store.walkFrom
    ((right.store.nodesOf unit).filter fun node => node.isDefinition)
  simp only [Graph.affectedByUnit, equivalent.options, nodes]
  split
  · exact equivalent.report walks (walks.units.erase unit) _
  · exact equivalent.answeredAlike_of_eq (by rw [equivalent.store.unitNames]) _ _

theorem affectedByExternal (equivalent : left.Equivalent right) (external : External)
    (query : ReportWhen)
    : AnsweredAlike (left.affectedByExternal external query)
        (right.affectedByExternal external query) := by
  have users (ref : NodeRef)
      : ref ∈ (left.store.users.values external.key).map (⟨external.key, ·⟩)
        ↔ ref ∈ (right.store.users.values external.key).map (⟨external.key, ·⟩) := by
    simp only [List.mem_map, equivalent.store.mem_users_iff]
  have walks := equivalent.store.walkInto users
  have observed
      : Graph.Equivalent { left with externals := right.externals.observe external }
          { right with externals := right.externals.observe external } :=
    ⟨equivalent.options, equivalent.store, rfl⟩
  have incremental := congrArg Options.incremental equivalent.options
  simp only [Graph.affectedByExternal, incremental, equivalent.externals]
  split
  · exact observed.answeredAlike_of_eq rfl _ _
  · split
    · exact observed.report walks walks.units _
    · exact observed.answeredAlike_of_eq equivalent.store.unitNames _ _

-----------------------------------------------------------------------------------------
-- Operations one after the other
-----------------------------------------------------------------------------------------

/-- Every operation leaves equivalent graphs equivalent. -/
theorem after (equivalent : left.Equivalent right) (operation : Operation)
    : (left.after operation).Equivalent (right.after operation) := by
  cases operation with
  | integrate snapshot => exact equivalent.integrate snapshot
  | integrateDocument bytes => exact (equivalent.integrateDocument bytes).2
  | askChanges invalidated => exact (equivalent.affectedByChanges invalidated).graph
  | askUnit unit => exact (equivalent.affectedByUnit unit).graph
  | askExternal external query => exact (equivalent.affectedByExternal external query).graph
  | reopen unit => exact equivalent.reopen unit
  | enter phase => exact ⟨equivalent.options, equivalent.store, equivalent.externals⟩

/-- Operations one after the other leave equivalent graphs equivalent, by induction on the
operations.
-/
theorem foldl_after (equivalent : left.Equivalent right) (operations : List Operation)
    : (operations.foldl Graph.after left).Equivalent (operations.foldl Graph.after right) := by
  induction operations generalizing left right with
  | nil => exact equivalent
  | cons operation rest ih => exact ih (equivalent.after operation)

end Equivalent

variable {graph : Graph}

/-- After units are reopened no stored node of them is marked, and no node that was not marked
before; by induction on the units.
-/
theorem mem_marked_foldl_reopen (synced : graph.store.Synced) {units : List UnitName}
    {ref : NodeRef} (marked : ref ∈ (units.foldl reopen graph).store.marked)
    : ref ∈ graph.store.marked ∧ (graph.store.contains ref → ref.unit ∉ units) := by
  induction units generalizing graph with
  | nil => exact ⟨marked, fun _ => List.not_mem_nil⟩
  | cons unit rest ih =>
      have kept : (graph.reopen unit).store.Synced := synced.withMarks _
      obtain ⟨reopened, others⟩ := ih kept marked
      obtain ⟨before, elsewhere⟩ := Store.mem_marked_unmark.1 reopened
      refine ⟨before, fun stored member => ?_⟩
      rcases List.mem_cons.1 member with rfl | later
      · exact elsewhere (List.mem_map.2 ⟨ref.key, (synced.listed ref).2 stored, rfl⟩)
      · exact others stored later

/-- The units of an answer may come in another order: uses are listed in the order in which they
came about, and after loading in the order of the units.
-/
example
    : let path := Key.interface (.externalDepend "/p")
      let uses (unit : UnitName) := (Snapshot.start unit).consume path false
      let integrations := [.start "u0", uses "u1", uses "u0"].map Operation.integrate
      let graph := integrations.foldl after (new {})
      let asked (graph : Graph) := (graph.affectedByExternal ⟨"/p", none⟩ .always).answer
      asked graph = ["u1", "u0"] ∧ asked (Saved.restored {} graph) = ["u0", "u1"] := by
  decide

/-- A graph in which the last question's marks were taken away. -/
def reopened : Graph := fingerprintsHeld.store.unitNames.foldl reopen fingerprintsHeld

end Graph

end Invalidation
