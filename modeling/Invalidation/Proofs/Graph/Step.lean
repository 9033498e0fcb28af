import Invalidation.Proofs.Graph.Answer

/-! What one operation can do to a graph: it replaces the facts of one unit by a normal form, or it
leaves all facts undisturbed. What holds of every graph that operations lead to is derived from
these two cases.
-/

namespace Invalidation

namespace Operation

/-- The snapshot that an operation integrates, if it integrates one that can be read. -/
def snapshot? : Operation → Option Snapshot
  | integrate snapshot => some snapshot
  | integrateDocument bytes => (Snapshot.ofJson bytes).toOption
  | _ => none

/-- What an operation puts in the place of old facts: a unit and the normal form of its snapshot, if
the operation integrates one that keeps the contract.
-/
def replacement? (operation : Operation)
    : Option (UnitName × List Fact) :=
  operation.snapshot?.bind fun snapshot =>
    snapshot.normalForm.toOption.map (snapshot.unit, ·)

/-- Whether an operation replaces the facts of a unit. -/
def Replaces (operation : Operation) (unit : UnitName) : Prop :=
  operation.replacement?.map (·.1) = some unit

instance (operation : Operation) (unit : UnitName) : Decidable (operation.Replaces unit) :=
  inferInstanceAs (Decidable (operation.replacement?.map (·.1) = some unit))

end Operation

namespace Graph

variable {graph : Graph} {operation : Operation} {snapshot : Snapshot}

theorem after_of_snapshot?_eq_some (integrates : operation.snapshot? = some snapshot)
    : graph.after operation = (graph.integrate snapshot).graph := by
  cases operation with
  | integrate given =>
      obtain rfl := Option.some.inj integrates
      rfl
  | integrateDocument bytes =>
      simp only [Operation.snapshot?, after, integrateDocument] at integrates ⊢
      cases read : Snapshot.ofJson bytes with
      | error refusal => simp [read, Except.toOption] at integrates
      | ok given =>
          simp only [read, Except.toOption, Option.some.injEq] at integrates
          rw [integrates]
  | _ => cases integrates

theorem undisturbed_of_snapshot?_eq_none (nothing : operation.snapshot? = none)
    : graph.Undisturbed (graph.after operation) := by
  cases operation with
  | integrate given => cases nothing
  | integrateDocument bytes =>
      simp only [Operation.snapshot?, after, integrateDocument] at nothing ⊢
      cases read : Snapshot.ofJson bytes with
      | error refusal => exact .refl graph
      | ok given => simp [read, Except.toOption] at nothing
  | _ => exact graph.undisturbed_after rfl

/-- The graph after an operation is the one after the integration of a snapshot that keeps the
contract, or the operation replaces nothing and leaves all facts undisturbed.
-/
theorem after_cases (graph : Graph) (operation : Operation)
    : (∃ snapshot facts,
          operation.snapshot? = some snapshot
          ∧ snapshot.normalForm = .ok facts
          ∧ operation.replacement? = some (snapshot.unit, facts)
          ∧ graph.after operation = (graph.integrate snapshot).graph)
      ∨ (operation.replacement? = none ∧ graph.Undisturbed (graph.after operation)) := by
  cases integrates : operation.snapshot? with
  | none =>
      exact .inr ⟨by rw [Operation.replacement?, integrates, Option.bind_none],
        undisturbed_of_snapshot?_eq_none integrates⟩
  | some snapshot =>
      have same : graph.after operation = (graph.integrate snapshot).graph :=
        after_of_snapshot?_eq_some integrates
      cases normal : snapshot.normalForm with
      | ok facts =>
          refine .inl ⟨snapshot, facts, rfl, normal, ?_, same⟩
          simp only [Operation.replacement?, integrates, normal, Option.bind_some,
            Except.toOption, Option.map_some]
      | error violation =>
          refine .inr ⟨?_, ?_⟩
          · simp only [Operation.replacement?, integrates, normal, Option.bind_some,
              Except.toOption, Option.map_none]
          · rw [same, integrate_graph_of_violation normal]
            exact .refl graph

/-- The facts of a unit stay when an operation does not replace them. -/
theorem factsOf_after (synced : graph.store.Synced) {unit : UnitName}
    (kept : ¬operation.Replaces unit)
    : (graph.after operation).store.factsOf unit = graph.store.factsOf unit := by
  rcases graph.after_cases operation with ⟨snapshot, facts, -, normal, replaced, same⟩ | ⟨-, still⟩
  · rw [same, integrate_factsOf synced normal, if_neg]
    rintro rfl
    exact kept (by rw [Operation.Replaces, replaced, Option.map_some])
  · exact still.factsOf unit

theorem options_after (graph : Graph) (operation : Operation)
    : (graph.after operation).options = graph.options := by
  rcases graph.after_cases operation with ⟨snapshot, facts, -, -, -, same⟩ | ⟨-, still⟩
  · rw [same, integrate_options]
  · exact still.options

theorem options_foldl_after (graph : Graph) (operations : List Operation)
    : (operations.foldl after graph).options = graph.options := by
  induction operations generalizing graph with
  | nil => rfl
  | cons operation rest ih => rw [List.foldl_cons, ih, options_after]

end Graph

end Invalidation
