import Invalidation.Proofs.Graph.Ledger
import Invalidation.Proofs.Integration.Granularity

/-! Coarse tracking is safe. A graph with coarse granularity and one with fine granularity that
integrate the same snapshots store the same, whatever they are asked in between; and whoever is
affected according to the second one is affected according to the first one.
-/

namespace Invalidation.Graph

variable {coarse fine : Graph} {snapshot : Snapshot}

/-- One graph tracks changes in coarse mode, and another one stores the same. -/
structure Coarsens (coarse fine : Graph) : Prop where
  granularity : coarse.options.granularity = .coarse
  incremental : coarse.options.incremental = fine.options.incremental
  coarseConsistent : coarse.Consistent
  fineConsistent : fine.Consistent
  factsOf : ∀ unit, fine.store.factsOf unit = coarse.store.factsOf unit
  unitNames : fine.store.unitNames = coarse.store.unitNames

/-- Right after a snapshot, the coarse graph reports whatever the other one does. -/
theorem Coarsens.affected_subset (coarsens : Coarsens coarse fine) {facts : List Fact}
    (normal : snapshot.normalForm = .ok facts)
    : ((fine.integrate snapshot).graph.affectedByChanges
          (fine.integration snapshot.unit facts).invalidated).answer
      ⊆ ((coarse.integrate snapshot).graph.affectedByChanges
          (coarse.integration snapshot.unit facts).invalidated).answer := by
  have sameMode := coarsens.incremental
  cases incremental : fine.options.incremental with
  | true =>
      rw [incremental] at sameMode
      rw [affectedByChanges_answer (by rw [integrate_options, incremental]),
        affectedByChanges_answer (by rw [integrate_options, sameMode]), integrate_graph normal,
        integrate_graph normal]
      have coarseRan
          : Integration.run coarse.store coarse.externals .coarse snapshot.unit facts
            = coarse.integration snapshot.unit facts := by
        rw [integration, coarsens.granularity]
      exact Integration.walkFrom_units_subset_coarse rfl coarseRan coarsens.fineConsistent.indexed
        coarsens.coarseConsistent.indexed normal coarsens.factsOf
        coarsens.fineConsistent.marksStored coarsens.coarseConsistent.marksStored
  | false =>
      rw [incremental] at sameMode
      simp only [affectedByChanges, integrate_options, incremental, sameMode, Bool.false_eq_true,
        ↓reduceIte, integrate_unitNames normal, coarsens.unitNames]
      exact fun _ => id

/-- In a round, both graphs refuse a snapshot alike, or the coarse one affects no fewer units. -/
theorem Coarsens.round (coarsens : Coarsens coarse fine) (snapshot : Snapshot)
    : match (coarse.round snapshot).answer, (fine.round snapshot).answer with
      | .ok (_, wider), .ok (_, units) => units ⊆ wider
      | .error error, .error error' => error = error'
      | _, _ => False := by
  cases normal : snapshot.normalForm with
  | error violation =>
      simp only [Graph.round, integrate_answer_of_violation normal]
  | ok facts =>
      rw [round_answer (coarsens.coarseConsistent.integrate_answer normal),
        round_answer (coarsens.fineConsistent.integrate_answer normal)]
      exact coarsens.affected_subset normal

/-- Of two new graphs with the same settings except that one is coarse and the other one fine-grained,
let both integrate the same snapshots in the same order, each with any other operations in between.
Then they store the same nodes in the same order, and any further snapshot is refused alike or
affects in the coarse graph all units that it affects in the other one.
-/
theorem coarse_never_misses (options : Options) {coarseOperations fineOperations : List Operation}
    (sameSnapshots
      : coarseOperations.filterMap (·.snapshot?) = fineOperations.filterMap (·.snapshot?))
    : let coarse := coarseOperations.foldl after (new { options with granularity := .coarse })
      let fine := fineOperations.foldl after (new { options with granularity := .fineGrained })
      (∀ unit, coarse.store.nodesOf unit = fine.store.nodesOf unit)
      ∧ coarse.store.unitNames = fine.store.unitNames
      ∧ ∀ snapshot,
          match (coarse.round snapshot).answer, (fine.round snapshot).answer with
          | .ok (_, wider), .ok (_, units) => units ⊆ wider
          | .error error, .error error' => error = error'
          | _, _ => False := by
  intro coarse fine
  have coarseNew := Consistent.new { options with granularity := .coarse }
  have fineNew := Consistent.new { options with granularity := .fineGrained }
  have factsOf (unit : UnitName) : coarse.store.factsOf unit = fine.store.factsOf unit :=
    factsOf_foldl_after_congr coarseNew fineNew sameSnapshots rfl
  have unitNames : coarse.store.unitNames = fine.store.unitNames :=
    unitNames_foldl_after_congr coarseNew fineNew sameSnapshots rfl
  have coarsens : Coarsens coarse fine := {
    granularity := congrArg Options.granularity (options_foldl_after _ coarseOperations)
    incremental := by
      simp only [coarse, fine, options_foldl_after, new]
    coarseConsistent := coarseNew.foldl_after coarseOperations
    fineConsistent := fineNew.foldl_after fineOperations
    factsOf := fun unit => (factsOf unit).symm
    unitNames := unitNames.symm
  }
  refine ⟨fun unit => ?_, unitNames, coarsens.round⟩
  rw [Store.nodesOf, Store.nodesOf, factsOf]

/-- A unit that provides two names, one of them with a fingerprint. -/
def providerOfTwo (token : String) : Snapshot :=
  ((Snapshot.start "u0").define (.interface (.topLevel "a")) (some (.digest token))).define
    (.interface (.topLevel "b")) none

/-- Another fingerprint of one name affects a user of the other name in coarse mode, and does not in
fine-grained mode; the two graphs were asked at different times.
-/
theorem coarse_affects_user_of_other_name
    : let user := Operation.integrate
        ((Snapshot.start "u1").consume (.interface (.topLevel "b")) true)
      let coarse := [.integrate (providerOfTwo "f1"), user, .askUnit "u0"].foldl after
        (new { granularity := .coarse })
      let fine := [.integrate (providerOfTwo "f1"), .askUnit "u0", user].foldl after
        (new { granularity := .fineGrained })
      ∃ more wider fewer units,
        (coarse.round (providerOfTwo "f2")).answer = .ok (more, wider)
        ∧ (fine.round (providerOfTwo "f2")).answer = .ok (fewer, units)
        ∧ units ⊆ wider
        ∧ "u1" ∈ wider
        ∧ "u1" ∉ units := by
  intro user coarse fine
  let changed (key : Key) (token : Option Fingerprint) : Entry :=
    ⟨.changed, ⟨⟨key, token, .definition, []⟩, "u0"⟩⟩
  let direct := changed (.interface (.topLevel "a")) (some (.digest "f2"))
  let catchAll (aspect : Aspect) := changed (.wholeUnit aspect "u0") none
  let unchanged := changed (.interface (.topLevel "b")) none
  have coarseAnswer
      : (coarse.round (providerOfTwo "f2")).answer
        = .ok (⟨"u0", [direct, catchAll .interface, catchAll .implementation, unchanged], []⟩,
            ["u0", "u1"]) := by
    decide
  have fineAnswer
      : (fine.round (providerOfTwo "f2")).answer
        = .ok (⟨"u0", [direct, catchAll .interface], []⟩, ["u0"]) := by
    decide
  have sameSnapshots
      : [.integrate (providerOfTwo "f1"), user, .askUnit "u0"].filterMap (·.snapshot?)
        = [.integrate (providerOfTwo "f1"), .askUnit "u0", user].filterMap (·.snapshot?) :=
    rfl
  obtain ⟨-, -, covers⟩ := coarse_never_misses {} sameSnapshots
  have covered := covers (providerOfTwo "f2")
  rw [coarseAnswer, fineAnswer] at covered
  exact ⟨_, _, _, _, coarseAnswer, fineAnswer, covered, by decide, by decide⟩

end Invalidation.Graph
