import Invalidation.Proofs.Graph.Ledger
import Invalidation.Proofs.Graph.Memory

/-! Without incremental tracking a question is answered with every unit that has facts, in the order
in which the units were first accepted, whatever was integrated, asked and remembered before. There
is one exception: a question for changes only is cut short when it comes with the digest that is
remembered, before the mode is looked at.
-/

namespace Invalidation.Graph

variable {graph : Graph} {log : List Sighting}

/-- After operations a graph still remembers what its history says, by induction on the operations.
-/
theorem Recalls.foldl_after (recalls : graph.Recalls log) (consistent : graph.Consistent)
    (operations : List Operation)
    : (operations.foldl Graph.after graph).Recalls (log ++ graph.history operations) := by
  induction operations generalizing graph log with
  | nil => simpa [history] using recalls
  | cons operation rest ih =>
      have later := ih (recalls.after consistent operation) (consistent.after operation)
      rwa [List.append_assoc] at later

/-- An artifact is taken for unchanged exactly if it is listed and comes with the digest that the
last question about it supplied.
-/
theorem Recalls.isChanged_eq_false_iff (recalls : graph.Recalls log) {external : External}
    : graph.externals.isChanged external = false
      ↔ external.path ∈ graph.artifacts
        ∧ ∃ token,
            external.fingerprint = some (.digest token)
            ∧ lastSupplied external.path log = some (.digest token) := by
  rw [Graph.isChanged_eq_false_iff]
  constructor
  · rintro ⟨token, supplied, seen⟩
    have listed : external.path ∈ graph.artifacts :=
      mem_artifacts.2 (by rw [Table.contains, seen]; rfl)
    have last : some (lastSupplied external.path log) = some (some (.digest token)) :=
      (recalls _ listed).symm.trans seen
    exact ⟨listed, token, supplied, Option.some.inj last⟩
  · rintro ⟨listed, token, supplied, last⟩
    exact ⟨token, supplied, (recalls _ listed).trans (congrArg some last)⟩

/-- Where its parts agree, a graph knows exactly the units that have nodes. -/
theorem Consistent.mem_unitNames_iff (consistent : graph.Consistent) {unit : UnitName}
    : unit ∈ graph.store.unitNames ↔ graph.store.nodesOf unit ≠ [] := by
  rw [Store.nodesOf, ne_eq, List.map_eq_nil_iff]
  refine ⟨consistent.factsOf_ne_nil, fun someFact => ?_⟩
  obtain ⟨fact, owned⟩ := List.exists_mem_of_ne_nil _ someFact
  exact Store.mem_unitNames_of_mem_factsOf owned

/-- Without incremental tracking a question that is not cut short is answered with every unit. -/
theorem affectedByExternal_answer_of_full (full : graph.options.incremental = false)
    {external : External} {query : ReportWhen}
    (goesOn : ¬(query = .ifChanged ∧ graph.externals.isChanged external = false))
    : (graph.affectedByExternal external query).answer = graph.store.unitNames := by
  have goesOn : ¬(query = .ifChanged ∧ (!graph.externals.isChanged external) = true) := by
    rwa [Bool.not_eq_true']
  simp only [affectedByExternal, goesOn, full, ↓reduceIte, Bool.false_eq_true]

/-- After any operations on a new graph without incremental tracking, the units that have nodes are
those of the accepted snapshots. Questions are answered with all of them, in the order of their
first snapshots, apart from the unit that a question is about. Only a question for changes about a
listed artifact is answered with none, and it is exactly if it comes with the digest that the last
question about the artifact supplied since it was last discovered.
-/
theorem everything_affected_unless_cut_short {options : Options}
    (full : options.incremental = false) (operations : List Operation)
    : let graph := operations.foldl after (new options)
      let everything := (((new options).accepted operations).map (·.unit)).eraseDups
      (∀ unit, unit ∈ everything ↔ graph.store.nodesOf unit ≠ [])
      ∧ (∀ invalidated, graph.affectedByChanges invalidated = ⟨everything, graph, []⟩)
      ∧ (∀ unit, graph.affectedByUnit unit = ⟨everything.erase unit, graph, []⟩)
      ∧ (∀ external, (graph.affectedByExternal external .always).answer = everything)
      ∧ ∀ external,
          let asked := (graph.affectedByExternal external .ifChanged).answer
          let unchanged :=
            external.path ∈ graph.artifacts
            ∧ ∃ token,
                external.fingerprint = some (.digest token)
                ∧ lastSupplied external.path ((new options).history operations)
                  = some (.digest token)
          (unchanged → asked = []) ∧ (¬unchanged → asked = everything) := by
  intro graph everything
  have consistent : graph.Consistent := (Consistent.new options).foldl_after operations
  have names : graph.store.unitNames = everything :=
    (unitNames_foldl_after (Consistent.new options) operations).trans (foldl_addLast_nil _)
  have stillFull : graph.options.incremental = false :=
    (congrArg Options.incremental (options_foldl_after (new options) operations)).trans full
  have recallsNothing : (new options).Recalls [] := by
    intro path listed
    cases listed
  have recalls : graph.Recalls ((new options).history operations) :=
    recallsNothing.foldl_after (Consistent.new options) operations
  rw [← names]
  refine ⟨fun unit => consistent.mem_unitNames_iff, fun invalidated => ?_, fun unit => ?_,
    fun external => ?_, fun external => ?_⟩
  · simp only [affectedByChanges, stillFull, Bool.false_eq_true, ↓reduceIte]
  · simp only [affectedByUnit, stillFull, Bool.false_eq_true, ↓reduceIte]
  · apply affectedByExternal_answer_of_full stillFull
    intro cut
    cases cut.1
  · rw [← recalls.isChanged_eq_false_iff]
    constructor
    · intro unchanged
      rw [affectedByExternal_of_unchanged unchanged]
    · intro changed
      exact affectedByExternal_answer_of_full stillFull fun cut => changed cut.2

/-- Two units, of which the first one uses an artifact, without incremental tracking; and a question
about the artifact.
-/
def fullBuild : List Operation :=
  [.integrate ((Snapshot.start "u0").consume (.artifact "/p") true),
    .integrate (.start "u1"),
    .askExternal ⟨"/p", some (.digest "f1")⟩ .always]

/-- Every question is answered with both units, unless it brings the same digest again. -/
theorem everything_affected_in_fullBuild
    : let graph := fullBuild.foldl after (new { incremental := false })
      (graph.affectedByUnit "u0").answer = ["u1"]
      ∧ (graph.affectedByExternal ⟨"/p", some (.digest "f2")⟩ .ifChanged).answer = ["u0", "u1"]
      ∧ (graph.affectedByExternal ⟨"/p", some (.digest "f1")⟩ .ifChanged).answer = [] := by
  intro graph
  have full : ({ incremental := false } : Options).incremental = false := rfl
  have everything
      : (((new { incremental := false }).accepted fullBuild).map (·.unit)).eraseDups
        = ["u0", "u1"] := by
    decide
  have last
      : lastSupplied "/p" ((new { incremental := false }).history fullBuild)
        = some (.digest "f1") := by
    decide
  obtain ⟨-, -, aboutUnit, -, forChanges⟩ := everything_affected_unless_cut_short full fullBuild
  rw [everything] at aboutUnit forChanges
  refine ⟨congrArg Outcome.answer (aboutUnit "u0"), (forChanges _).2 ?_, (forChanges _).1 ?_⟩
  · rintro ⟨-, token, supplied, same⟩
    have digest := last.symm.trans (same.trans supplied.symm)
    exact absurd digest (by decide)
  · exact ⟨by decide, "f1", rfl, last⟩

/-- Not every question is answered with every unit: an artifact that comes with the digest of the
last question gives none, although nothing is tracked.
-/
theorem unchanged_artifact_gives_nothing
    : ¬∀ (options : Options) (operations : List Operation) (external : External)
          (query : ReportWhen),
        options.incremental = false
        → let graph := operations.foldl after (new options)
          (graph.affectedByExternal external query).answer = graph.store.unitNames := by
  intro always
  have everything :=
    always { incremental := false } fullBuild ⟨"/p", some (.digest "f1")⟩ .ifChanged rfl
  revert everything
  decide

end Invalidation.Graph
