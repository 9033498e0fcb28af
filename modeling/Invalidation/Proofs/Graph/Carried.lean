import Invalidation.Proofs.Graph.Invariant
import Invalidation.Proofs.Saved.Restoration

/-! The graphs of successive builds, where each build goes on from what the last one saved. What the
operations on one graph keep in agreement, saving and loading keep too.
-/

namespace Invalidation

/-- What holds of a store, and still does after facts are stored, holds after units are restored into
it; by induction on the units.
-/
theorem Saved.restoreUnits_induction {motive : Store → Prop}
    (step : ∀ store unit facts, motive store → motive (store.putAll unit facts))
    (factsOf : UnitName → List Fact) (units : List UnitName) {store : Store} (start : motive store)
    : motive (restoreUnits factsOf units store) := by
  induction units generalizing store with
  | nil => exact start
  | cons unit rest ih => exact ih (step store unit _ start)

namespace Graph

/-- The graphs of successive builds: new ones, what operations make of those, and what is loaded from
the saved form of one that the format holds.
-/
inductive Carried : Graph → Prop
  | new (options : Options) : Carried (new options)
  | after {graph} (carried : Carried graph) (operation : Operation)
    : Carried (graph.after operation)
  | reloaded {graph loaded bytes options} (carried : Carried graph) (fits : graph.Fits)
      (saved : graph.save.answer = .ok bytes) (loads : load bytes options = .ok loaded)
    : Carried loaded

variable {graph : Graph} {options : Options}

theorem Carried.foldl_after (carried : graph.Carried) (operations : List Operation)
    : (operations.foldl Graph.after graph).Carried := by
  induction operations generalizing graph with
  | nil => exact carried
  | cons operation rest ih => exact ih (carried.after operation)

/-- The graphs of successive builds can come up: loading is not bound to what was saved. -/
theorem Carried.reachable (carried : graph.Carried) : graph.Reachable := by
  induction carried with
  | new options => exact .new options
  | after _ operation ih => exact ih.after operation
  | reloaded _ _ _ loads _ => exact .loaded loads

/-- In a graph whose parts agree, edges lead to keys of the same unit. -/
theorem Consistent.edgesWithin (consistent : graph.Consistent) : Saved.EdgesWithin graph := by
  intro unit fact owned target depends
  have stored := (consistent.inOrder unit fact owned).targets target depends
  obtain ⟨other, otherOwned, sameKey⟩ := consistent.synced.contains_iff.1 stored
  exact List.mem_map.2 ⟨other, otherOwned, sameKey⟩

/-- What a graph whose parts agree was saved as is loaded exactly if no key has an empty part and the
restored graph passes a check, and then it is the restored graph.
-/
theorem Consistent.load_eq_ok_iff (consistent : graph.Consistent) (fits : graph.Fits)
    {bytes : Bytes} (saved : graph.save.answer = .ok bytes)
    (incremental : options.incremental = true) {loaded : Graph}
    : load bytes options = .ok loaded
      ↔ graph.KeysComplete
        ∧ (Saved.restored options graph).check = .ok ()
        ∧ Saved.restored options graph = loaded := by
  rw [load_of_save fits saved incremental]
  exact Saved.toGraph_ofGraph_eq_ok_iff consistent.edgesWithin

theorem indexed_restored (options : Options) (graph : Graph)
    : (Saved.restored options graph).store.Indexed :=
  Saved.restoreUnits_induction (fun _ unit facts indexed => indexed.putAll unit facts) _ _
    Store.indexed_empty

/-- The parts of a restored graph agree if it passes a check. -/
theorem Consistent.restored (consistent : graph.Consistent)
    (passed : (Saved.restored options graph).check = .ok ())
    : (Saved.restored options graph).Consistent := by
  have indexed := indexed_restored options graph
  have whole := (check_eq_ok_iff indexed).1 passed
  refine {
    indexed
    compact := ?_
    marksStored := ?_
    catchAlls := fun unit known => (whole unit known).1
    inOrder := ?_
    externalsShown := ?_
  }
  · exact Saved.restoreUnits_induction (fun _ unit facts compact => compact.putAll unit facts)
      _ _ Store.compact_empty
  · exact Saved.restoreUnits_induction
      (fun _ unit facts stored => stored.putAll unit facts) _ _ sound_empty.marksStored
  · exact fun unit fact owned =>
      (whole unit (Store.mem_unitNames_of_mem_factsOf owned)).2 fact owned
  · intro unit fact owned external
    rw [Saved.factsOf_restored consistent.synced] at owned
    obtain ⟨old, oldOwned, rfl⟩ := List.mem_map.1 owned
    exact consistent.externalsShown unit old oldOwned external

/-- In the graphs of successive builds facts, indices, marks and the artifacts in use agree, by
induction on how the graph came up.
-/
theorem Carried.consistent (carried : graph.Carried) : graph.Consistent := by
  induction carried with
  | new options => exact .new options
  | after carried operation ih => exact ih.after operation
  | reloaded carried fits saved loads ih =>
      obtain ⟨-, passed, rfl⟩ :=
        (ih.load_eq_ok_iff fits saved (incremental_of_load loads)).1 loads
      exact ih.restored passed

/-- A restored graph is one of a successive build, where saving and loading succeed. -/
theorem Carried.restored (carried : graph.Carried) (fits : graph.Fits)
    (complete : graph.KeysComplete) (incremental : options.incremental = true)
    (passed : (Saved.restored options graph).check = .ok ())
    : (Saved.restored options graph).Carried := by
  have saved := save_answer_eq_ok_iff.2 ⟨carried.consistent.check_eq_ok, rfl⟩
  exact carried.reloaded fits saved
    ((carried.consistent.load_eq_ok_iff fits saved incremental).2 ⟨complete, passed, rfl⟩)

end Graph

end Invalidation
