import Invalidation.Proofs.Graph.Interleaving
import Invalidation.Proofs.Graph.Reload

/-! What operations fail for, and what a failure leaves behind. A snapshot is refused exactly if it
breaks the contract, and a document exactly if it gives no such snapshot; whatever is refused leaves
the graph as it was, so that a run goes on as if it had never been asked for.
-/

namespace Invalidation.Graph

variable {graph : Graph} {snapshot : Snapshot} {bytes : Bytes} {error : Error}

-----------------------------------------------------------------------------------------
-- What is refused
-----------------------------------------------------------------------------------------

/-- In a graph whose parts agree no check fails after an integration, so that only the contract is a
reason to refuse a snapshot.
-/
theorem Consistent.integrate_answer_eq_error_iff (consistent : graph.Consistent)
    : (graph.integrate snapshot).answer = .error error
      ↔ ∃ violation,
          snapshot.normalForm = .error violation ∧ error = .contract snapshot.unit violation := by
  cases normal : snapshot.normalForm with
  | ok facts => simp [consistent.integrate_answer normal]
  | error violation =>
      rw [integrate_answer_of_violation normal, Except.error.injEq, eq_comm]
      simp

/-- A document is refused if it gives no snapshot, or one that is refused. -/
theorem Consistent.integrateDocument_answer_eq_error_iff (consistent : graph.Consistent)
    : (graph.integrateDocument bytes).answer = .error error
      ↔ (∃ refusal, Snapshot.ofJson bytes = .error refusal ∧ error = .ofRefusal refusal)
        ∨ ∃ snapshot violation,
            Snapshot.ofJson bytes = .ok snapshot
            ∧ snapshot.normalForm = .error violation
            ∧ error = .contract snapshot.unit violation := by
  cases read : Snapshot.ofJson bytes with
  | error refusal => simp [Graph.integrateDocument, read, eq_comm]
  | ok snapshot =>
      simp only [integrateDocument, read]
      rw [consistent.integrate_answer_eq_error_iff]
      simp

-----------------------------------------------------------------------------------------
-- What a refusal leaves behind
-----------------------------------------------------------------------------------------

theorem Consistent.integrate_graph_of_error (consistent : graph.Consistent)
    (fails : (graph.integrate snapshot).answer = .error error)
    : (graph.integrate snapshot).graph = graph := by
  obtain ⟨violation, refused, -⟩ := consistent.integrate_answer_eq_error_iff.1 fails
  exact integrate_graph_of_violation refused

theorem Consistent.integrateDocument_graph_of_error (consistent : graph.Consistent)
    (fails : (graph.integrateDocument bytes).answer = .error error)
    : (graph.integrateDocument bytes).graph = graph := by
  cases read : Snapshot.ofJson bytes with
  | error refusal => simp only [integrateDocument, read]
  | ok snapshot =>
      simp only [integrateDocument, read] at fails ⊢
      exact consistent.integrate_graph_of_error fails

/-- Whether an operation fails. -/
def fails (graph : Graph) : Operation → Bool
  | .integrate snapshot => !(graph.integrate snapshot).answer.isOk
  | .integrateDocument bytes => !(graph.integrateDocument bytes).answer.isOk
  | _ => false

theorem Consistent.after_of_fails (consistent : graph.Consistent) {operation : Operation}
    (failed : graph.fails operation = true)
    : graph.after operation = graph := by
  cases operation with
  | integrate snapshot =>
      obtain ⟨error, refused⟩ := isOk_eq_false_iff.1 (by simpa [fails] using failed)
      exact consistent.integrate_graph_of_error refused
  | integrateDocument bytes =>
      obtain ⟨error, refused⟩ := isOk_eq_false_iff.1 (by simpa [fails] using failed)
      exact consistent.integrateDocument_graph_of_error refused
  | _ => cases failed

/-- An operation that fails answers no units. -/
theorem answer_of_fails {operation : Operation} (failed : graph.fails operation = true)
    : graph.answer operation = [] := by
  cases operation with
  | integrate snapshot => rfl
  | integrateDocument bytes => rfl
  | _ => cases failed

/-- The operations of a run without those that fail where they come. -/
def withoutFailures (graph : Graph) : List Operation → List Operation
  | [] => []
  | operation :: rest =>
      let later := (graph.after operation).withoutFailures rest
      if graph.fails operation then later else operation :: later

/-- A run comes to the same without the operations that fail, by induction on the operations. -/
theorem Consistent.foldl_after_withoutFailures (consistent : graph.Consistent)
    (operations : List Operation)
    : (graph.withoutFailures operations).foldl Graph.after graph
      = operations.foldl Graph.after graph := by
  induction operations generalizing graph with
  | nil => rfl
  | cons operation rest ih =>
      have later := ih (consistent.after operation)
      rw [List.foldl_cons, ← later, withoutFailures]
      split
      · rename_i failed
        rw [consistent.after_of_fails failed]
      · rfl

theorem Consistent.answers_withoutFailures (consistent : graph.Consistent)
    (operations : List Operation)
    : graph.answers (graph.withoutFailures operations) = graph.answers operations := by
  induction operations generalizing graph with
  | nil => rfl
  | cons operation rest ih =>
      have later := ih (consistent.after operation)
      rw [answers, ← later, withoutFailures]
      split
      · rename_i failed
        rw [answer_of_fails failed, List.nil_append, consistent.after_of_fails failed]
      · rfl

/-- In the graphs of successive builds, with any settings: an integration fails exactly if its
snapshot breaks the contract, and tells the unit and the violation; one of a document fails exactly
if the document gives no snapshot, or one that breaks the contract; and saving succeeds. Whatever
fails leaves the whole graph as it was, and any further run comes to the same graph and the same
answers without the operations that fail in it.
-/
theorem failures_exact_and_atomic (carried : graph.Carried)
    : (∀ snapshot error,
          (graph.integrate snapshot).answer = .error error
          ↔ ∃ violation,
              snapshot.normalForm = .error violation
              ∧ error = .contract snapshot.unit violation)
      ∧ (∀ bytes error,
          (graph.integrateDocument bytes).answer = .error error
          ↔ (∃ refusal, Snapshot.ofJson bytes = .error refusal ∧ error = .ofRefusal refusal)
            ∨ ∃ snapshot violation,
                Snapshot.ofJson bytes = .ok snapshot
                ∧ snapshot.normalForm = .error violation
                ∧ error = .contract snapshot.unit violation)
      ∧ (∃ saved, graph.save.answer = .ok saved)
      ∧ (∀ snapshot error,
          (graph.integrate snapshot).answer = .error error
          → (graph.integrate snapshot).graph = graph)
      ∧ (∀ bytes error,
          (graph.integrateDocument bytes).answer = .error error
          → (graph.integrateDocument bytes).graph = graph)
      ∧ graph.save.graph = graph
      ∧ ∀ operations,
          (graph.withoutFailures operations).foldl after graph = operations.foldl after graph
          ∧ graph.answers (graph.withoutFailures operations) = graph.answers operations := by
  have consistent := carried.consistent
  refine ⟨?_, ?_, consistent.exists_save, ?_, ?_, save_graph graph, fun operations => ⟨?_, ?_⟩⟩
  · exact fun _ _ => consistent.integrate_answer_eq_error_iff
  · exact fun _ _ => consistent.integrateDocument_answer_eq_error_iff
  · exact fun _ _ fails => consistent.integrate_graph_of_error fails
  · exact fun _ _ fails => consistent.integrateDocument_graph_of_error fails
  · exact consistent.foldl_after_withoutFailures operations
  · exact consistent.answers_withoutFailures operations

/-- A snapshot that uses a name before it defines it. -/
def usedBeforeDefined : Snapshot :=
  ((Snapshot.start "u0").consume (.interface (.topLevel "a")) true).define
    (.interface (.topLevel "a")) none

/-- A graph that is checked after each integration refuses a use before its definition, and the unit
keeps the facts and the marks that it had.
-/
theorem used_before_defined_refused
    : let provided := (Snapshot.start "u0").define (.interface (.topLevel "a")) none
      let graph : Graph :=
        ((new { verifyAfterIntegrate := true }).after (.integrate provided)).after (.askUnit "u0")
      (graph.integrate usedBeforeDefined).answer
          = .error (.contract "u0" (.useBeforeDefinition 2))
        ∧ (graph.integrate usedBeforeDefined).graph = graph
        ∧ graph.store.marked ≠ [] := by
  intro provided graph
  have carried : graph.Carried := .after (.after (.new _) _) _
  obtain ⟨exact, -, -, atomic, -⟩ := failures_exact_and_atomic carried
  have refused := (exact usedBeforeDefined _).2 ⟨.useBeforeDefinition 2, by decide, rfl⟩
  exact ⟨refused, atomic _ _ refused, by decide⟩

end Invalidation.Graph
