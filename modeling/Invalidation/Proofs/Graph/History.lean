import Invalidation.Proofs.Graph.Answer
import Invalidation.Proofs.Graph.Consistency

/-! Earlier questions never hide a change. Two graphs that hold the same facts answer a round alike,
whatever is marked in them, in whatever phase they are and whatever was seen of artifacts.
-/

namespace Invalidation

namespace Integration

variable {left right : Store} {leftExternals rightExternals : Externals}

theorem replaced_alike (alike : left.Alike right) (unit : UnitName) (incoming : List Fact)
    : (replaced left unit incoming).Alike (replaced right unit incoming) := by
  rw [replaced, replaced, removedFacts_congr (alike.factsOf unit)]
  exact (alike.putAll unit incoming).dropAll unit _

/-- Where the same artifacts are in use, the same are after a removed fact. -/
theorem contains_forgetUnused_alike (alike : left.Alike right)
    (sameUse : ∀ path, leftExternals.contains path = rightExternals.contains path) (fact : Fact)
    (path : String)
    : Table.contains (forgetUnused left leftExternals fact) path
      = Table.contains (forgetUnused right rightExternals fact) path := by
  unfold forgetUnused
  rw [alike.users fact.key]
  split
  · split
    · rw [Externals.contains_forget, Externals.contains_forget, sameUse]
    · exact sameUse path
  · exact sameUse path

/-- Where the same artifacts are in use, the same are after the unused ones among removed facts are
forgotten, by induction on those facts.
-/
theorem contains_foldl_forgetUnused_alike (alike : left.Alike right)
    (sameUse : ∀ path, leftExternals.contains path = rightExternals.contains path)
    (removed : List Fact) (path : String)
    : Table.contains (removed.foldl (forgetUnused left) leftExternals) path
      = Table.contains (removed.foldl (forgetUnused right) rightExternals) path := by
  induction removed generalizing leftExternals rightExternals with
  | nil => exact sameUse path
  | cons fact rest ih => exact ih (contains_forgetUnused_alike alike sameUse fact)

variable (granularity : Granularity) (unit : UnitName) (incoming : List Fact)

/-- Integrating the same facts invalidates the same in stores that are alike. -/
theorem run_invalidated_alike (alike : left.Alike right)
    (sameUse : ∀ path, leftExternals.contains path = rightExternals.contains path)
    : (run left leftExternals granularity unit incoming).invalidated
      = (run right rightExternals granularity unit incoming).invalidated :=
  run_invalidated_congr alike.toSameNodes (replaced_alike alike unit incoming).toSameNodes sameUse

theorem run_store_alike (alike : left.Alike right)
    : (run left leftExternals granularity unit incoming).store.Alike
        (run right rightExternals granularity unit incoming).store :=
  (run_alike_replaced rfl).trans
    ((replaced_alike alike unit incoming).trans (run_alike_replaced rfl).symm)

theorem run_externals_alike (alike : left.Alike right)
    (sameUse : ∀ path, leftExternals.contains path = rightExternals.contains path) (path : String)
    : (run left leftExternals granularity unit incoming).externals.contains path
      = (run right rightExternals granularity unit incoming).externals.contains path := by
  simp only [run, removedFacts_congr (alike.factsOf unit), funext sameUse]
  refine contains_foldl_forgetUnused_alike ?_ (fun other => ?_) _ path
  · exact (alike.putAll unit incoming).dropAll unit _
  · rw [Externals.contains_foldl_register, Externals.contains_foldl_register, sameUse]

end Integration

namespace Graph

/-- Two graphs have the same settings, the same facts and indices, and the same artifacts in use.
They may differ in their marks, in their phase and in what was seen of artifacts.
-/
structure Alike (left right : Graph) : Prop where
  options : left.options = right.options
  store : left.store.Alike right.store
  externals : ∀ path, left.externals.contains path = right.externals.contains path

theorem Undisturbed.alike {before after : Graph} (undisturbed : before.Undisturbed after)
    : before.Alike after := by
  obtain ⟨marked, sameStore⟩ := undisturbed.store
  refine ⟨undisturbed.options.symm, ?_, fun path => (undisturbed.externals path).symm⟩
  rw [sameStore]
  exact (Store.alike_withMarks before.store marked).symm

variable {left right : Graph}

theorem Alike.integrate (alike : left.Alike right) (snapshot : Snapshot)
    : (left.integrate snapshot).graph.Alike (right.integrate snapshot).graph := by
  cases normal : snapshot.normalForm with
  | error violation =>
      rw [integrate_graph_of_violation normal, integrate_graph_of_violation normal]
      exact alike
  | ok facts =>
      rw [integrate_graph normal, integrate_graph normal]
      refine ⟨alike.options, ?_, ?_⟩
      · simp only [integration, alike.options]
        exact Integration.run_store_alike _ _ _ alike.store
      · simp only [integration, alike.options]
        exact Integration.run_externals_alike _ _ _ alike.store alike.externals

/-- Graphs that are alike fail a check in the same way or not at all. -/
theorem Alike.check (alike : left.Alike right) (leftIndexed : left.store.Indexed)
    (rightIndexed : right.store.Indexed)
    : left.check = right.check :=
  check_congr alike.store.toSameNodes alike.externals leftIndexed rightIndexed

/-- Graphs that are alike accept or refuse a snapshot alike, and it invalidates the same in both. -/
theorem Alike.integrate_answer (alike : left.Alike right) (leftSound : left.store.Sound)
    (rightSound : right.store.Sound) (snapshot : Snapshot)
    : (left.integrate snapshot).answer = (right.integrate snapshot).answer := by
  cases normal : snapshot.normalForm with
  | error violation => simp only [Graph.integrate, normal]
  | ok facts =>
      have sameCheck := (alike.integrate snapshot).check
        (integrate_sound leftSound snapshot).indexed (integrate_sound rightSound snapshot).indexed
      have sameInvalidated
          : (left.integration snapshot.unit facts).invalidated
            = (right.integration snapshot.unit facts).invalidated := by
        simp only [integration, alike.options]
        exact Integration.run_invalidated_alike _ _ _ alike.store alike.externals
      rw [Graph.integrate_answer normal, Graph.integrate_answer normal, alike.options, sameCheck,
        sameInvalidated]

/-- An accepted integration leaves no mark that a walk from what it lists could meet. -/
theorem integrate_clearBeyond {graph : Graph} {snapshot : Snapshot} {invalidated : Invalidated}
    (sound : graph.store.Sound)
    (accepted : (graph.integrate snapshot).answer = .ok invalidated)
    : (graph.integrate snapshot).graph.store.ClearBeyond invalidated.nodes := by
  obtain ⟨facts, normal, rfl, -⟩ := integrate_answer_eq_ok_iff.1 accepted
  rw [integrate_graph normal]
  exact Integration.run_clearBeyond rfl sound.indexed
    (Snapshot.keys_nodup_of_normalForm normal) sound.marksStored

/-- Graphs that are alike and in which nothing in the way is marked have the same affected units, in
the same order.
-/
theorem Alike.affectedByChanges (alike : left.Alike right) {invalidated : Invalidated}
    (leftClear : left.store.ClearBeyond invalidated.nodes)
    (rightClear : right.store.ClearBeyond invalidated.nodes)
    : (left.affectedByChanges invalidated).answer
      = (right.affectedByChanges invalidated).answer := by
  cases incremental : right.options.incremental with
  | true =>
      rw [affectedByChanges_answer (by rw [alike.options, incremental]),
        affectedByChanges_answer incremental, Store.walkFrom_units leftClear,
        Store.walkFrom_units rightClear, funext alike.store.contains, alike.store.discover]
  | false =>
      simp only [Graph.affectedByChanges, alike.options, incremental, alike.store.unitNames,
        Bool.false_eq_true, ↓reduceIte]

theorem Alike.round_answer (alike : left.Alike right) (leftSound : left.store.Sound)
    (rightSound : right.store.Sound) (snapshot : Snapshot)
    : (left.round snapshot).answer = (right.round snapshot).answer := by
  have sameAnswer := alike.integrate_answer leftSound rightSound snapshot
  cases accepted : (right.integrate snapshot).answer with
  | error error => simp only [round, sameAnswer, accepted]
  | ok invalidated =>
      have sameUnits := (alike.integrate snapshot).affectedByChanges
        (integrate_clearBeyond leftSound (sameAnswer.trans accepted))
        (integrate_clearBeyond rightSound accepted)
      simp only [round, sameAnswer, accepted, sameUnits]

/-- What was asked, reopened or seen before a snapshot comes plays no part in which units it
affects: graphs that are alike give the same invalidated facts and the same units in the same
order, and so does the graph in which every unit was reopened just before.
-/
theorem round_answer_of_alike (leftReachable : left.Reachable) (rightReachable : right.Reachable)
    (alike : left.Alike right) (snapshot : Snapshot)
    : (left.round snapshot).answer = (right.round snapshot).answer
      ∧ (left.round snapshot).answer
        = ((left.store.unitNames.foldl reopen left).round snapshot).answer := by
  refine ⟨alike.round_answer leftReachable.sound rightReachable.sound snapshot, ?_⟩
  have reopened
      : left.store.unitNames.foldl reopen left
        = (left.store.unitNames.map Operation.reopen).foldl after left := by
    rw [List.foldl_map]
    rfl
  have undisturbed : left.Undisturbed (left.store.unitNames.foldl reopen left) := by
    rw [reopened]
    apply left.undisturbed_foldl_after
    intro operation member
    obtain ⟨unit, -, rfl⟩ := List.mem_map.1 member
    rfl
  have reachable : (left.store.unitNames.foldl reopen left).Reachable := by
    rw [reopened]
    exact leftReachable.foldl_after _
  exact undisturbed.alike.round_answer leftReachable.sound reachable.sound snapshot

/-- A question about a unit leaves marks, and the unit's next snapshot is answered as without it. -/
theorem round_answer_after_question
    : (((new {}).after (.integrate (.start "u0"))).after (.askUnit "u0")).store.marked ≠ []
      ∧ (((new {}).after (.integrate (.start "u0"))).round
            ((Snapshot.start "u0").define (.interface (.topLevel "a")) none)).answer
        = ((((new {}).after (.integrate (.start "u0"))).after (.askUnit "u0")).round
            ((Snapshot.start "u0").define (.interface (.topLevel "a")) none)).answer := by
  have reachable : ((new {}).after (.integrate (.start "u0"))).Reachable :=
    (Reachable.new {}).after _
  have alike := (((new {}).after (.integrate (.start "u0"))).undisturbed_after
    (show (Operation.askUnit "u0").integrates = false from rfl)).alike
  exact ⟨by decide, (round_answer_of_alike reachable (reachable.after _) alike _).1⟩

end Graph

end Invalidation
