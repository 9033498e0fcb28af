import Invalidation.Proofs.Graph.Reachable
import Invalidation.Proofs.Integration.Answer

/-! The units that are affected by an integration, asked for at once, in any graph that can come up.
-/

namespace Invalidation.Graph

variable {graph : Graph} {snapshot : Snapshot} {invalidated : Invalidated}

/-- The units affected by changes are those that a walk from the invalidated nodes reports. -/
theorem affectedByChanges_answer (incremental : graph.options.incremental = true)
    (invalidated : Invalidated)
    : (graph.affectedByChanges invalidated).answer
      = (graph.store.walkFrom invalidated.nodes).units := by
  simp only [affectedByChanges, incremental, ↓reduceIte, report]

theorem integrate_options (graph : Graph) (snapshot : Snapshot)
    : (graph.integrate snapshot).graph.options = graph.options := by
  cases normal : snapshot.normalForm with
  | error violation => rw [integrate_graph_of_violation normal]
  | ok facts => rw [integrate_graph normal]

/-- The units affected by an accepted integration are its own unit, if it invalidated anything, and
the units that a walk from what it lists finds.
-/
theorem mem_affected_iff (reachable : graph.Reachable)
    (incremental : graph.options.incremental = true)
    (accepted : (graph.integrate snapshot).answer = .ok invalidated) {unit : UnitName}
    : unit ∈ ((graph.integrate snapshot).graph.affectedByChanges invalidated).answer
      ↔ (invalidated.entries ≠ [] ∧ unit = snapshot.unit)
        ∨ (graph.integrate snapshot).graph.store.Finds invalidated unit := by
  rw [affectedByChanges_answer (by rw [integrate_options, incremental])]
  obtain ⟨facts, normal, rfl, -⟩ := integrate_answer_eq_ok_iff.1 accepted
  rw [integrate_graph normal]
  exact Integration.mem_walkFrom_run_units rfl reachable.sound.indexed
    (Snapshot.keys_nodup_of_normalForm normal) reachable.sound.marksStored

/-- One round of a build: a snapshot is integrated, and if it is accepted the affected units are
asked for at once.
-/
def round (graph : Graph) (snapshot : Snapshot)
    : Outcome (Except Error (Invalidated × List UnitName)) :=
  let integrated := graph.integrate snapshot
  match integrated.answer with
  | .error error => ⟨.error error, integrated.graph, integrated.events⟩
  | .ok invalidated =>
      let asked := integrated.graph.affectedByChanges invalidated
      ⟨.ok (invalidated, asked.answer), asked.graph, integrated.events ++ asked.events⟩

theorem round_answer (accepted : (graph.integrate snapshot).answer = .ok invalidated)
    : (graph.round snapshot).answer
      = .ok (invalidated,
          ((graph.integrate snapshot).graph.affectedByChanges invalidated).answer) := by
  simp only [round, accepted]

theorem round_graph (accepted : (graph.integrate snapshot).answer = .ok invalidated)
    : (graph.round snapshot).graph
      = (graph.integrate snapshot).graph.after (.askChanges invalidated) := by
  simp only [round, accepted, after]

end Invalidation.Graph
