import Invalidation.Proofs.Graph.Fingerprints

/-! What comes back when a graph is saved and loaded. The saved form can be loaded exactly if no key
has an empty part, and saving does not look for that. If it can be loaded, all that is stored comes
back in its order, and is saved as the same bytes again.
-/

namespace Invalidation.Graph

variable {graph : Graph} {options : Options}

-----------------------------------------------------------------------------------------
-- Which graphs can be loaded
-----------------------------------------------------------------------------------------

theorem Consistent.factsOf_ne_nil (consistent : graph.Consistent) {unit : UnitName}
    (known : unit ∈ graph.store.unitNames)
    : graph.store.factsOf unit ≠ [] := by
  have stored := consistent.catchAlls unit known .interface
  obtain ⟨fact, owned, -⟩ := consistent.synced.contains_iff.1 stored
  exact List.ne_nil_of_mem owned

/-- Where the parts of a graph agree, its restored graph passes a check: it has the same nodes and
lists the same artifacts, and reading a fingerprint anew gives none to a fact that had none.
-/
theorem Consistent.check_restored (consistent : graph.Consistent) (options : Options)
    : (Saved.restored options graph).check = .ok () := by
  have contains := Saved.contains_restored consistent.synced options
  refine (check_eq_ok_iff (indexed_restored options graph)).2 fun unit known =>
    ⟨fun aspect => ?_, fun fact owned => ?_⟩
  · rw [Saved.unitNames_restored fun _ => consistent.factsOf_ne_nil] at known
    exact (contains _).2 (consistent.catchAlls unit known aspect)
  · rw [Saved.factsOf_restored consistent.synced] at owned
    obtain ⟨old, oldOwned, rfl⟩ := List.mem_map.1 owned
    obtain ⟨bareUse, targets, external⟩ := consistent.inOrder unit old oldOwned
    refine ⟨fun isUse => ?_, fun target depends => ?_, fun path used => ?_⟩
    · rw [Fact.reread, bareUse isUse, Option.map_none]
    · exact (contains _).2 (targets target depends)
    · rw [Table.contains_iff_mem_keys, Saved.keys_restored_externals,
        ← Table.contains_iff_mem_keys]
      exact external path used

theorem Consistent.load_eq_restored (consistent : graph.Consistent) (fits : graph.Fits)
    {bytes : Bytes} (saved : graph.save.answer = .ok bytes)
    (incremental : options.incremental = true) (complete : graph.KeysComplete)
    : load bytes options = .ok (Saved.restored options graph) :=
  (consistent.load_eq_ok_iff fits saved incremental).2
    ⟨complete, consistent.check_restored options, rfl⟩

/-- A graph whose parts agree is saved, whatever its keys are. -/
theorem Consistent.exists_save (consistent : graph.Consistent)
    : ∃ bytes, graph.save.answer = .ok bytes :=
  ⟨_, save_answer_eq_ok_iff.2 ⟨consistent.check_eq_ok, rfl⟩⟩

/-- In the graphs of successive builds no fact has an edge twice, by induction on how the graph came
up.
-/
theorem Carried.dependsOn_nodup (carried : graph.Carried) {unit : UnitName} {fact : Fact}
    (owned : fact ∈ graph.store.factsOf unit)
    : fact.dependsOn.Nodup := by
  induction carried generalizing unit fact with
  | new options => cases owned
  | @after graph carried operation ih =>
      rcases graph.after_cases operation with
        ⟨snapshot, facts, -, normal, -, same⟩ | ⟨-, undisturbed⟩
      · rw [same, integrate_factsOf carried.consistent.synced normal] at owned
        split at owned
        · exact Snapshot.dependsOn_nodup_of_normalForm normal owned
        · exact ih owned
      · rw [undisturbed.factsOf] at owned
        exact ih owned
  | @reloaded graph loaded bytes options carried fits saved loads ih =>
      obtain ⟨-, -, rfl⟩ :=
        (carried.consistent.load_eq_ok_iff fits saved (incremental_of_load loads)).1 loads
      rw [Saved.factsOf_restored carried.consistent.synced] at owned
      obtain ⟨old, oldOwned, rfl⟩ := List.mem_map.1 owned
      have distinct : old.dependsOn.Nodup := ih oldOwned
      exact distinct

/-- The format holds a graph of a successive build if it holds its texts and the number of facts of
each unit, since a fact has at most one edge to each fact of its unit.
-/
theorem Carried.fits (carried : graph.Carried)
    (texts : (Saved.table graph).length < 2 ^ 32)
    (bytes : ∀ text ∈ Saved.table graph, (Bytes.ofText text).length < 2 ^ 32)
    (facts : ∀ unit ∈ graph.store.unitNames, (graph.store.factsOf unit).length < 2 ^ 32)
    : graph.Fits := by
  refine ⟨texts, bytes, facts, fun unit known fact owned => ?_⟩
  have included : fact.dependsOn ⊆ (graph.store.factsOf unit).map (·.key) :=
    fun target depends => carried.consistent.edgesWithin unit fact owned target depends
  have few := (carried.dependsOn_nodup owned).length_le_of_subset included
  rw [List.length_map] at few
  exact Nat.lt_of_le_of_lt few (facts unit known)

/-- A graph of a successive build, with less than 2^32 texts, facts of a unit and bytes of a text,
is always saved; and what it was saved as can be loaded exactly if no key has an empty part.
Otherwise loading refuses such a key of some unit.
-/
theorem load_succeeds_iff_keysComplete (carried : graph.Carried)
    (texts : (Saved.table graph).length < 2 ^ 32)
    (bytes : ∀ text ∈ Saved.table graph, (Bytes.ofText text).length < 2 ^ 32)
    (facts : ∀ unit ∈ graph.store.unitNames, (graph.store.factsOf unit).length < 2 ^ 32)
    (incremental : options.incremental = true)
    : ∃ saved,
        graph.save.answer = .ok saved
        ∧ ((∃ loaded, load saved options = .ok loaded) ↔ graph.KeysComplete)
        ∧ (¬graph.KeysComplete
            → ∃ unit,
                ∃ fact ∈ graph.store.factsOf unit,
                  ¬fact.key.designator.Complete
                  ∧ load saved options = .error (.inconsistent (fact.refusal unit))) := by
  have consistent := carried.consistent
  have fits := carried.fits texts bytes facts
  obtain ⟨saved, saves⟩ := consistent.exists_save
  refine ⟨saved, saves, ⟨?_, fun complete => ?_⟩, fun incomplete => ?_⟩
  · rintro ⟨loaded, loads⟩
    exact ((consistent.load_eq_ok_iff fits saves incremental).1 loads).1
  · exact ⟨_, consistent.load_eq_restored fits saves incremental complete⟩
  · rw [load_of_save fits saves incremental]
    exact Saved.toGraph_ofGraph_eq_error consistent.edgesWithin incomplete options

/-- A snapshot with a definition whose name is empty. -/
def namelessDefinition : Snapshot := (Snapshot.start "u0").define (.interface (.topLevel "")) none

/-- What is saved of a nameless definition is refused when it is loaded. -/
theorem nameless_definition_refused
    : let graph := (new {}).after (.integrate namelessDefinition)
      ∃ saved,
        graph.save.answer = .ok saved
        ∧ ∃ unit, ∃ fact ∈ graph.store.factsOf unit,
            load saved {} = .error (.inconsistent (fact.refusal unit)) := by
  intro graph
  have carried : graph.Carried := .after (.new {}) _
  have incremental : ({} : Options).incremental = true := rfl
  obtain ⟨saved, saves, -, refused⟩ :=
    load_succeeds_iff_keysComplete carried (by decide) (by decide) (by decide) incremental
  obtain ⟨unit, fact, owned, -, fails⟩ := refused (by decide)
  exact ⟨saved, saves, unit, fact, owned, fails⟩

/-- Not every graph that snapshots lead to can be loaded after it was saved. -/
theorem nameless_definition_not_loaded
    : ¬∀ (options : Options) (snapshots : List Snapshot),
        let graph := (snapshots.map Operation.integrate).foldl after (new options)
        (Saved.table graph).length < 2 ^ 32
        → (∀ text ∈ Saved.table graph, (Bytes.ofText text).length < 2 ^ 32)
        → (∀ unit ∈ graph.store.unitNames, (graph.store.factsOf unit).length < 2 ^ 32)
        → ∀ saved, graph.save.answer = .ok saved → ∃ loaded, load saved {} = .ok loaded := by
  intro always
  have carried : ((new {}).after (.integrate namelessDefinition)).Carried := .after (.new {}) _
  obtain ⟨saved, saves⟩ := carried.consistent.exists_save
  obtain ⟨loaded, loads⟩ :=
    always {} [namelessDefinition] (by decide) (by decide) (by decide) saved saves
  have complete := ((carried.consistent.load_eq_ok_iff (by decide) saves rfl).1 loads).1
  revert complete
  decide

-----------------------------------------------------------------------------------------
-- What comes back
-----------------------------------------------------------------------------------------

/-- Where the parts of a graph agree and its fingerprints were read from tokens, its restored graph
stores the same facts in the same order.
-/
theorem Consistent.sameNodes_restored (consistent : graph.Consistent)
    (parsed : graph.FingerprintsParsed) (options : Options)
    : (Saved.restored options graph).store.SameNodes graph.store := by
  refine (Saved.synced_restored options graph).sameNodes consistent.synced
    (Saved.unitNames_restored (fun _ => consistent.factsOf_ne_nil) options) fun unit => ?_
  rw [Saved.factsOf_restored consistent.synced]
  exact (List.map_congr_left fun fact owned => parsed.reread_eq_self owned).trans (List.map_id _)

/-- What was seen of artifacts comes back where it was read from tokens. -/
theorem externals_restored (parsed : graph.externals.FingerprintsParsed) (options : Options)
    : (Saved.restored options graph).externals = graph.externals := by
  have entries
      : (Saved.restored options graph).externals.entries = graph.externals.entries := by
    rw [Saved.entries_restored_externals]
    refine (List.map_congr_left fun entry recorded => ?_).trans (List.map_id _)
    exact Prod.ext rfl (Fingerprint.map_reread (parsed entry recorded))
  exact Table.eq_of_entries_eq entries

theorem FingerprintsParsed.externals_restored (parsed : graph.FingerprintsParsed)
    (options : Options)
    : (Saved.restored options graph).externals = graph.externals :=
  graph.externals_restored parsed.externals options

theorem marked_restored (options : Options) (graph : Graph)
    : (Saved.restored options graph).store.marked = [] := by
  refine Saved.restoreUnits_induction (motive := (·.marked = [])) (fun store unit facts none => ?_)
    _ _ rfl
  refine List.eq_nil_iff_forall_not_mem.2 fun ref marked => ?_
  have before := Store.mem_marked_of_putAll marked
  rw [none] at before
  cases before

/-- A graph of a successive build whose keys have no empty part and whose fingerprints were read
from tokens is saved and loaded, if the format holds it. The loaded graph has nothing marked; its
units, their facts and the artifacts are those of the other in the same order; and it is saved as
the same bytes.
-/
theorem load_returns_what_was_saved (carried : graph.Carried) (fits : graph.Fits)
    (complete : graph.KeysComplete) (parsed : graph.FingerprintsParsed)
    (incremental : options.incremental = true)
    : ∃ saved loaded,
        graph.save.answer = .ok saved
        ∧ load saved options = .ok loaded
        ∧ loaded.options = options
        ∧ loaded.phase = .loading
        ∧ loaded.store.marked = []
        ∧ loaded.store.SameNodes graph.store
        ∧ loaded.externals = graph.externals
        ∧ loaded.save.answer = .ok saved := by
  have consistent := carried.consistent
  obtain ⟨saved, saves⟩ := consistent.exists_save
  have nodes := consistent.sameNodes_restored parsed options
  have externals := parsed.externals_restored options
  refine ⟨saved, _, saves, consistent.load_eq_restored fits saves incremental complete, rfl, rfl,
    marked_restored options graph, nodes, externals, ?_⟩
  obtain ⟨-, written⟩ := save_answer_eq_ok_iff.1 saves
  rw [← Saved.ofGraph_congr nodes externals] at written
  exact save_answer_eq_ok_iff.2 ⟨consistent.check_restored options, written⟩

/-- A snapshot with a fingerprint and with one that cannot be read, which uses an artifact. -/
def fingerprintedSnapshot : Snapshot :=
  let read := (Snapshot.start "u0").define (.interface (.topLevel "a")) (some (.parse "f1"))
  let unread := read.define (.interface (.topLevel "b")) (some (.parse "?"))
  (unread.consume (.interface (.externalDepend "/p")) false).addEdge 2 4

/-- A graph in which a fingerprint was seen of the artifact, and its use is marked. -/
def fingerprintsHeld : Graph :=
  ((new {}).after (.integrate fingerprintedSnapshot)).after
    (.askExternal ⟨"/p", some (.parse "f2")⟩ .ifChanged)

theorem fingerprintsParsed_held : fingerprintsHeld.FingerprintsParsed := by
  have brought : Operation.FingerprintsParsed (.integrate fingerprintedSnapshot) := by decide
  have seen
      : Operation.FingerprintsParsed (.askExternal ⟨"/p", some (.parse "f2")⟩ .ifChanged) := by
    decide
  have started : (new {}).Reachable := .new {}
  exact ((FingerprintsParsed.new {}).after started brought).after (started.after _) seen

/-- Fingerprints that are absent, read and unreadable come back as they are. -/
theorem fingerprinted_returns
    : (fingerprintsHeld.store.factsOf "u0").map (·.fingerprint)
        = [none, none, some (.digest "f1"), some .unreadable, none]
      ∧ fingerprintsHeld.store.marked ≠ []
      ∧ ∃ saved loaded,
          fingerprintsHeld.save.answer = .ok saved
          ∧ load saved {} = .ok loaded
          ∧ loaded.store.marked = []
          ∧ loaded.store.SameNodes fingerprintsHeld.store
          ∧ loaded.externals = fingerprintsHeld.externals
          ∧ loaded.save.answer = .ok saved := by
  have carried : fingerprintsHeld.Carried := .after (.after (.new {}) _) _
  have incremental : ({} : Options).incremental = true := rfl
  obtain ⟨saved, loaded, saves, loads, -, -, unmarked, nodes, externals, again⟩ :=
    load_returns_what_was_saved carried (by decide) (by decide) fingerprintsParsed_held
      incremental
  exact ⟨by decide, by decide, saved, loaded, saves, loads, unmarked, nodes, externals, again⟩

end Invalidation.Graph
