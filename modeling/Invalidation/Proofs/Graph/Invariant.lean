import Invalidation.Proofs.Graph.Consistency
import Invalidation.Proofs.Graph.Step

/-! What a graph and its indices say of each other after any operations on a new graph: the indices
list exactly what the facts say, only stored nodes are marked, edges stay within their unit, and
every artifact that is used is known to be in use. So a check never fails.
-/

namespace Invalidation

/-- An artifact has one interface key. -/
theorem Key.eq_of_externalPath? {key : Key} {path : String}
    (external : key.externalPath? = some path) (shown : key.isInterface = true)
    : key = .interface (.externalDepend path) := by
  obtain ⟨aspect, designator⟩ := key
  cases designator with
  | externalDepend own =>
      obtain rfl := Option.some.inj external
      obtain rfl := of_decide_eq_true shown
      rfl
  | _ => cases external

theorem Integration.usedPath?_eq_some_iff {fact : Fact} {path : String}
    : usedPath? fact = some path
      ↔ fact.isDefinition = false ∧ fact.key.externalPath? = some path := by
  unfold usedPath?
  cases fact.isDefinition <;> simp

namespace Graph

open Integration

variable {graph : Graph}

/-- The facts, the indices, the marks and the artifacts in use agree. -/
structure Consistent (graph : Graph) : Prop where
  indexed : graph.store.Indexed
  compact : graph.store.Compact
  marksStored : graph.store.MarksStored
  /-- Every known unit has both of its catch-all facts. -/
  catchAlls
    : ∀ unit ∈ graph.store.unitNames,
        ∀ aspect, graph.store.contains ⟨.wholeUnit aspect unit, unit⟩
  inOrder : ∀ unit, ∀ fact ∈ graph.store.factsOf unit, graph.FactInOrder unit fact
  /-- Whatever is about an artifact is an interface fact. -/
  externalsShown
    : ∀ unit,
        ∀ fact ∈ graph.store.factsOf unit,
          fact.key.externalPath?.isSome = true → fact.key.isInterface = true

namespace Consistent

theorem synced (consistent : graph.Consistent) : graph.store.Synced := consistent.indexed.toSynced

theorem check_eq_ok (consistent : graph.Consistent) : graph.check = .ok () :=
  (check_eq_ok_iff consistent.indexed).2 fun unit known =>
    ⟨consistent.catchAlls unit known, consistent.inOrder unit⟩

theorem new (options : Options) : (Graph.new options).Consistent where
  indexed := Store.indexed_empty
  compact := Store.compact_empty
  marksStored := fun _ marked => nomatch marked
  catchAlls := fun _ known => nomatch known
  inOrder := fun _ _ owned => nomatch owned
  externalsShown := fun _ _ owned => nomatch owned

/-- An operation that disturbs no facts keeps everything in agreement. -/
theorem of_undisturbed (consistent : graph.Consistent) {after : Graph}
    (undisturbed : graph.Undisturbed after)
    : after.Consistent := by
  refine {
    indexed := undisturbed.indexed consistent.indexed
    compact := ?_
    marksStored := undisturbed.marksStored consistent.marksStored
    catchAlls := ?_
    inOrder := ?_
    externalsShown := ?_
  }
  · obtain ⟨marked, sameStore⟩ := undisturbed.store
    rw [sameStore]
    exact ⟨consistent.compact.users, consistent.compact.dependents⟩
  · intro unit known aspect
    rw [undisturbed.unitNames] at known
    rw [undisturbed.contains]
    exact consistent.catchAlls unit known aspect
  · intro unit fact owned
    rw [undisturbed.factsOf] at owned
    obtain ⟨bareUse, targets, external⟩ := consistent.inOrder unit fact owned
    refine ⟨bareUse, fun target depends => ?_, fun path used => ?_⟩
    · rw [undisturbed.contains]
      exact targets target depends
    · rw [undisturbed.externals]
      exact external path used
  · intro unit fact owned
    rw [undisturbed.factsOf] at owned
    exact consistent.externalsShown unit fact owned

/-- An artifact that some unit uses after an integration is known to be in use then. It was before
or its use came in, and it is not forgotten: what is forgotten belongs to a removed fact whose key
nobody uses, and there is one interface key for an artifact.
-/
theorem contains_run_of_used (consistent : graph.Consistent) {unit : UnitName}
    {facts : List Fact} (distinct : (facts.map (·.key)).Nodup)
    (shown
      : ∀ fact ∈ facts, fact.key.externalPath?.isSome = true → fact.key.isInterface = true)
    {user : UnitName} {fact : Fact}
    (owned : fact ∈ (graph.integration unit facts).store.factsOf user) {path : String}
    (used : Integration.usedPath? fact = some path)
    : (graph.integration unit facts).externals.contains path := by
  obtain ⟨isUse, external⟩ := usedPath?_eq_some_iff.1 used
  generalize ran : graph.integration unit facts = result at owned ⊢
  have afterIndexed := Integration.run_indexed ran consistent.indexed
  have origin := Integration.run_factsOf ran consistent.synced distinct user ▸ owned
  have factShown : fact.key.isInterface = true := by
    split at origin
    · exact shown fact origin (by simp [external])
    · exact consistent.externalsShown user fact origin (by simp [external])
  rw [Integration.contains_run_externals ran]
  constructor
  · split at origin
    · exact .inr ⟨fact, origin, used⟩
    · exact .inl ((consistent.inOrder user fact origin).external path used)
  · intro old removed oldExternal
    have oldOwned := (Integration.mem_removedFacts.1 removed).1
    have oldShown := consistent.externalsShown unit old oldOwned (by simp [oldExternal])
    have sameKey : fact.key = old.key :=
      (Key.eq_of_externalPath? external factShown).trans
        (Key.eq_of_externalPath? oldExternal oldShown).symm
    exact List.ne_nil_of_mem (afterIndexed.users.2 ⟨fact, owned, sameKey, isUse⟩)

/-- Replacing the facts of a unit by a normal form keeps everything in agreement. -/
theorem integrate (consistent : graph.Consistent) {snapshot : Snapshot} {facts : List Fact}
    (normal : snapshot.normalForm = .ok facts)
    : (graph.integrate snapshot).graph.Consistent := by
  have distinct := Snapshot.keys_nodup_of_normalForm normal
  have shown : ∀ fact ∈ facts,
      fact.key.externalPath?.isSome = true → fact.key.isInterface = true :=
    fun _ member => Snapshot.isInterface_of_normalForm normal member
  rw [integrate_graph normal]
  generalize ran : graph.integration snapshot.unit facts = result
  have factsOf := run_factsOf ran consistent.synced distinct
  have contains (node : NodeRef)
      : result.store.contains node
        ↔ if node.unit = snapshot.unit then ∃ fact ∈ facts, fact.key = node.key
          else graph.store.contains node :=
    run_contains ran consistent.synced distinct
  refine {
    indexed := run_indexed ran consistent.indexed
    compact := run_compact ran consistent.compact
    marksStored := run_marksStored ran consistent.marksStored
    catchAlls := ?_
    inOrder := ?_
    externalsShown := ?_
  }
  · intro unit known aspect
    rw [contains]
    split
    · rename_i same
      obtain ⟨fact, member, sameKey, -⟩ :=
        Snapshot.provides_wholeUnit_of_normalForm normal aspect
      exact ⟨fact, member, by rw [sameKey, ← same]⟩
    · rename_i different
      exact consistent.catchAlls unit ((mem_run_unitNames ran known).resolve_right different)
        aspect
  · intro unit fact owned
    have known : ∀ path, usedPath? fact = some path → result.externals.contains path := by
      subst ran
      exact fun _ used => consistent.contains_run_of_used distinct shown owned used
    rw [factsOf] at owned
    split at owned
    · rename_i same
      refine ⟨Snapshot.fingerprint_eq_none_of_use normal owned, fun target depends => ?_, known⟩
      rw [contains, if_pos same]
      exact List.mem_map.1 (Snapshot.target_mem_keys_of_normalForm normal owned depends)
    · rename_i different
      obtain ⟨bareUse, targets, -⟩ := consistent.inOrder unit fact owned
      refine ⟨bareUse, fun target depends => ?_, known⟩
      rw [contains, if_neg different]
      exact targets target depends
  · intro unit fact owned
    rw [factsOf] at owned
    split at owned
    · exact shown fact owned
    · exact consistent.externalsShown unit fact owned

/-- Every operation keeps everything in agreement. -/
theorem after (consistent : graph.Consistent) (operation : Operation)
    : (graph.after operation).Consistent := by
  rcases graph.after_cases operation with ⟨snapshot, facts, -, normal, -, same⟩ | ⟨-, undisturbed⟩
  · rw [same]
    exact consistent.integrate normal
  · exact consistent.of_undisturbed undisturbed

/-- Operations one after the other keep everything in agreement, by induction on the operations. -/
theorem foldl_after (consistent : graph.Consistent) (operations : List Operation)
    : (operations.foldl Graph.after graph).Consistent := by
  induction operations generalizing graph with
  | nil => exact consistent
  | cons operation rest ih => exact ih (consistent.after operation)

/-- A check that is due after an integration succeeds, so that a snapshot is accepted exactly if it
keeps the contract.
-/
theorem integrate_answer (consistent : graph.Consistent) {snapshot : Snapshot}
    {facts : List Fact} (normal : snapshot.normalForm = .ok facts)
    : (graph.integrate snapshot).answer
      = .ok (graph.integration snapshot.unit facts).invalidated :=
  integrate_answer_eq_ok_iff.2
    ⟨facts, normal, rfl, fun _ => (consistent.integrate normal).check_eq_ok⟩

end Consistent

/-- After any operations on a new graph, facts, indices, marks and the artifacts in use agree. Each
unit owns exactly the keys of its stored nodes, without repetition, and both catch-all keys if it is
known; no node is stored that no unit owns; and a check succeeds.
-/
theorem consistent_after_operations (options : Options) (operations : List Operation)
    : let graph := operations.foldl after (new options)
      graph.Consistent
      ∧ (∀ unit,
          (graph.store.keysOf unit).Nodup
          ∧ (∀ key, key ∈ graph.store.keysOf unit ↔ graph.store.contains ⟨key, unit⟩)
          ∧ (unit ∈ graph.store.unitNames
              → ∀ aspect, .wholeUnit aspect unit ∈ graph.store.keysOf unit))
      ∧ graph.store.ownedCount = graph.store.nodeCount
      ∧ graph.check = .ok () := by
  intro graph
  have consistent : graph.Consistent := (Consistent.new options).foldl_after operations
  have synced : graph.store.Synced := consistent.synced
  refine ⟨consistent, fun unit => ?_, synced.ownedCount_eq, consistent.check_eq_ok⟩
  refine ⟨synced.distinct unit, fun key => synced.listed ⟨key, unit⟩, fun known aspect => ?_⟩
  exact (synced.listed ⟨_, unit⟩).2 (consistent.catchAlls unit known aspect)

end Graph

end Invalidation
