import Invalidation.Proofs.Graph.Artifacts
import Invalidation.Proofs.Graph.Reload

/-! What loading admits against what snapshots may bring in. A document may state something of an
artifact that is private to a unit, which no snapshot can do. When the unit drops that, the artifact
is forgotten although the unit may use it openly, and checks fail from then on. Nothing else that
loading admits comes apart later.
-/

namespace Invalidation

/-- The key under which a document may hold what a unit states of an artifact for itself alone. -/
def Key.hidden (path : String) : Key := ⟨.implementation, .externalDepend path⟩

theorem Key.eq_hidden {key : Key} {path : String} (external : key.externalPath? = some path)
    (hidden : ¬key.isInterface = true)
    : key = .hidden path := by
  obtain ⟨aspect, designator⟩ := key
  cases aspect with
  | interface => exact absurd rfl hidden
  | implementation =>
      cases designator with
      | externalDepend own =>
          obtain rfl := Option.some.inj external
          rfl
      | _ => cases external

namespace Snapshot

/-- The facts of a unit that reports nothing but itself. -/
def startFacts (unit : UnitName) : List Fact :=
  [⟨.wholeUnit .interface unit, none, .definition, []⟩,
    ⟨.wholeUnit .implementation unit, none, .definition, []⟩]

theorem normalForm_start (unit : UnitName) : (start unit).normalForm = .ok (startFacts unit) := by
  simp [normalForm, start, startFacts, wholeUnitNodes, checkCatchAll, collapseFrom, collapse,
    checkNode, edgesFrom, Key.wholeUnit, Key.externalPath?, Role.isDefinition, bind, Except.bind,
    pure, Except.pure]

theorem normalForm_consume_artifact (unit : UnitName) (path : String)
    : ((start unit).consume (.artifact path) true).normalForm
      = .ok (startFacts unit ++ [⟨.artifact path, none, .use true, []⟩]) := by
  simp [normalForm, start, consume, push, startFacts, wholeUnitNodes, checkCatchAll, collapseFrom,
    collapse, checkNode, edgesFrom, Key.wholeUnit, Key.artifact, Key.interface, Key.isInterface,
    Key.externalPath?, Role.isDefinition, bind, Except.bind, pure, Except.pure]

end Snapshot

namespace Graph

/-- Whatever a graph states of an artifact is an interface fact. -/
def ArtifactsShown (graph : Graph) : Prop :=
  ∀ unit ∈ graph.store.unitNames,
    ∀ fact ∈ graph.store.factsOf unit,
      fact.key.externalPath?.isSome = true → fact.key.isInterface = true

instance (graph : Graph) : Decidable graph.ArtifactsShown :=
  inferInstanceAs
    (Decidable (∀ unit ∈ graph.store.unitNames,
      ∀ fact ∈ graph.store.factsOf unit,
        fact.key.externalPath?.isSome = true → fact.key.isInterface = true))

variable {graph : Graph} {bytes : Bytes} {options : Options} {path : String}

-----------------------------------------------------------------------------------------
-- Where everything is shown
-----------------------------------------------------------------------------------------

/-- The parts of a loaded graph agree if whatever it states of artifacts is shown. -/
theorem consistent_of_load (loads : load bytes options = .ok graph)
    (shown : graph.ArtifactsShown)
    : graph.Consistent := by
  have sound := sound_of_load loads
  have whole := (check_eq_ok_iff sound.indexed).1 (check_of_load loads)
  exact {
    indexed := sound.indexed
    compact :=
      load_induction Store.compact_empty (fun _ unit facts compact => compact.putAll unit facts)
        loads
    marksStored := sound.marksStored
    catchAlls := fun unit known => (whole unit known).1
    inOrder := fun unit fact owned =>
      (whole unit (Store.mem_unitNames_of_mem_factsOf owned)).2 fact owned
    externalsShown := fun unit fact owned =>
      shown unit (Store.mem_unitNames_of_mem_factsOf owned) fact owned
  }

-----------------------------------------------------------------------------------------
-- Where something is hidden
-----------------------------------------------------------------------------------------

/-- If one unit alone states something hidden of an artifact, and then a snapshot of it is
integrated, the artifact is not listed any more, whatever the snapshot brings in: the unit drops
what was hidden, and nobody uses that key.
-/
theorem not_contains_of_hidden (indexed : graph.store.Indexed) {snapshot : Snapshot}
    {facts : List Fact} (normal : snapshot.normalForm = .ok facts)
    (hidden : graph.store.contains ⟨.hidden path, snapshot.unit⟩)
    (alone : ∀ other, graph.store.contains ⟨.hidden path, other⟩ → other = snapshot.unit)
    : ¬(graph.integrate snapshot).graph.externals.contains path := by
  have shown : ∀ fact ∈ facts, fact.key ≠ .hidden path := by
    intro fact member same
    have isInterface := Snapshot.isInterface_of_normalForm normal member (by rw [same]; rfl)
    rw [same] at isInterface
    cases isInterface
  obtain ⟨old, owned, sameKey⟩ := indexed.toSynced.contains_iff.1 hidden
  have removed : old ∈ Integration.removedFacts graph.store snapshot.unit facts :=
    Integration.mem_removedFacts.2 ⟨owned, fun fact member => sameKey ▸ shown fact member⟩
  rw [integrate_graph normal]
  generalize ran : graph.integration snapshot.unit facts = result
  intro listed
  have users := ((Integration.contains_run_externals ran).1 listed).2 old removed
    (by rw [sameKey]; rfl)
  obtain ⟨other, isUser⟩ := List.exists_mem_of_ne_nil _ users
  obtain ⟨fact, member, factKey, -⟩ := (Integration.run_indexed ran indexed).users.1 isUser
  have stillHidden := factKey.trans sameKey
  rw [Integration.run_factsOf ran indexed.toSynced (Snapshot.keys_nodup_of_normalForm normal)]
    at member
  split at member
  · exact shown fact member stillHidden
  · rename_i different
    exact different (alone other (Store.contains_of_mem_factsOf member stillHidden))

/-- A graph in which an artifact is used and not listed fails a check. -/
theorem check_ne_ok_of_unlisted (indexed : graph.store.Indexed) (inUse : graph.InUse path)
    (unlisted : ¬graph.externals.contains path)
    : graph.check ≠ .ok () := by
  intro passed
  obtain ⟨unit, known, fact, owned, sameKey, isUse⟩ := inUse
  have inOrder := ((check_eq_ok_iff indexed).1 passed unit known).2 fact owned
  refine unlisted (inOrder.external path (Integration.usedPath?_eq_some_iff.2 ⟨isUse, ?_⟩))
  rw [sameKey]
  rfl

/-- The operations by which units report nothing but themselves. -/
def silence (units : List UnitName) : List Operation :=
  units.map fun unit => .integrate (.start unit)

/-- Silenced units own their catch-all facts and other units own what they did, by induction on the
units.
-/
theorem factsOf_silence (reachable : graph.Reachable) (units : List UnitName) (unit : UnitName)
    : ((silence units).foldl after graph).store.factsOf unit
      = if unit ∈ units then Snapshot.startFacts unit else graph.store.factsOf unit := by
  induction units generalizing graph with
  | nil => rfl
  | cons head rest ih =>
      have first : (graph.after (.integrate (.start head))).store.factsOf unit
          = if unit = head then Snapshot.startFacts head else graph.store.factsOf unit :=
        integrate_factsOf reachable.synced (Snapshot.normalForm_start head) unit
      refine (ih (reachable.after (.integrate (.start head)))).trans ?_
      rw [first]
      by_cases later : unit ∈ rest
      · rw [if_pos later, if_pos (List.mem_cons_of_mem _ later)]
      · by_cases same : unit = head
        · rw [if_neg later, if_pos same, if_pos (List.mem_cons.2 (.inl same)), same]
        · rw [if_neg later, if_neg same, if_neg (by simp [same, later])]

/-- What is hidden when units are silenced is what was hidden and not in one of them. -/
theorem contains_hidden_silence (reachable : graph.Reachable) (units : List UnitName)
    {unit : UnitName}
    : ((silence units).foldl after graph).store.contains ⟨.hidden path, unit⟩
      ↔ unit ∉ units ∧ graph.store.contains ⟨.hidden path, unit⟩ := by
  rw [(reachable.foldl_after (silence units)).synced.contains_iff, factsOf_silence reachable]
  split
  · rename_i silenced
    simp [silenced, Snapshot.startFacts, Key.wholeUnit, Key.hidden]
  · rename_i kept
    rw [and_iff_right kept, reachable.synced.contains_iff]

/-- Where something hidden is stated of an artifact, some operations lead to a graph that fails a
check: all units but one report nothing but themselves, and that one turns to an open use.
-/
theorem exists_check_ne_ok (reachable : graph.Reachable) (notShown : ¬graph.ArtifactsShown)
    : ∃ operations : List Operation, (operations.foldl after graph).check ≠ .ok () := by
  unfold ArtifactsShown at notShown
  push Not at notShown
  obtain ⟨unit, -, fact, owned, external, notInterface⟩ := notShown
  obtain ⟨path, external⟩ := Option.isSome_iff_exists.1 external
  let others := graph.store.unitNames.filter (· ≠ unit)
  let silenced := (silence others).foldl after graph
  let snapshot := (Snapshot.start unit).consume (.artifact path) true
  have hidden : silenced.store.contains ⟨.hidden path, unit⟩ :=
    (contains_hidden_silence reachable others).2 ⟨by simp [others],
      Store.contains_of_mem_factsOf owned (Key.eq_hidden external notInterface)⟩
  have alone : ∀ other, silenced.store.contains ⟨.hidden path, other⟩ → other = unit := by
    intro other stated
    obtain ⟨kept, statedBefore⟩ := (contains_hidden_silence reachable others).1 stated
    obtain ⟨stray, strayOwned, -⟩ := reachable.synced.contains_iff.1 statedBefore
    have known := Store.mem_unitNames_of_mem_factsOf strayOwned
    by_contra different
    exact kept (List.mem_filter.2 ⟨known, decide_eq_true different⟩)
  have normal : snapshot.normalForm = .ok _ := Snapshot.normalForm_consume_artifact unit path
  have reached : silenced.Reachable := reachable.foldl_after (silence others)
  have inUse : (silenced.integrate snapshot).graph.InUse path := by
    refine inUse_iff.2 ⟨snapshot.unit, ⟨.artifact path, none, .use true, []⟩, ?_, rfl, rfl⟩
    rw [integrate_factsOf_self reached.synced normal]
    exact List.mem_append_right _ (List.mem_singleton.2 rfl)
  refine ⟨silence others ++ [.integrate snapshot], ?_⟩
  rw [List.foldl_append]
  exact check_ne_ok_of_unlisted (reached.after (.integrate snapshot)).sound.indexed inUse
    (not_contains_of_hidden reached.sound.indexed normal hidden alone)

-----------------------------------------------------------------------------------------
-- Loaded graphs
-----------------------------------------------------------------------------------------

/-- A loaded graph passes a check after all operations exactly if whatever it states of artifacts is
shown. Then it can always be saved, and every snapshot that keeps the contract is accepted.
-/
theorem stays_consistent_iff_artifactsShown (loads : load bytes options = .ok graph)
    : (graph.ArtifactsShown
        ↔ ∀ operations : List Operation, (operations.foldl after graph).check = .ok ())
      ∧ (graph.ArtifactsShown
          → ∀ operations : List Operation,
              let later := operations.foldl after graph
              later.Consistent
              ∧ (∃ saved, later.save.answer = .ok saved)
              ∧ ∀ snapshot facts,
                  snapshot.normalForm = .ok facts
                  → ∃ invalidated, (later.integrate snapshot).answer = .ok invalidated) := by
  have consistent (shown : graph.ArtifactsShown) (operations : List Operation)
      : (operations.foldl after graph).Consistent :=
    (consistent_of_load loads shown).foldl_after operations
  refine ⟨⟨fun shown operations => (consistent shown operations).check_eq_ok, fun passes => ?_⟩,
    fun shown operations => ?_⟩
  · by_contra notShown
    obtain ⟨operations, fails⟩ := exists_check_ne_ok (.loaded loads) notShown
    exact fails (passes operations)
  · have agrees := consistent shown operations
    exact ⟨agrees, agrees.exists_save, fun snapshot facts normal =>
      ⟨_, agrees.integrate_answer normal⟩⟩

/-- A graph as no snapshots make it, in which a unit uses an artifact for itself alone. -/
def hiddenUse : Graph where
  options := {}
  phase := .loading
  store := Store.empty.putAll "u0"
    (Snapshot.startFacts "u0" ++ [⟨.hidden "/p", none, .use true, []⟩])
  externals := Externals.record .empty "/p" none

/-- The document that holds a hidden use is loaded. -/
theorem exists_load_hiddenUse : ∃ bytes, load bytes {} = .ok (Saved.restored {} hiddenUse) := by
  have within : Saved.EdgesWithin hiddenUse := by
    intro unit fact owned target depends
    have none : ∀ unit ∈ hiddenUse.store.unitNames,
        ∀ fact ∈ hiddenUse.store.factsOf unit, fact.dependsOn = [] := by decide
    rw [none unit (Store.mem_unitNames_of_mem_factsOf owned) fact owned] at depends
    cases depends
  have saves := save_answer_eq_ok_iff.2 ⟨(by decide : hiddenUse.check = .ok ()), rfl⟩
  refine ⟨_, (load_of_save (by decide) saves rfl).trans ?_⟩
  exact (Saved.toGraph_ofGraph_eq_ok_iff within).2 ⟨by decide, by decide, rfl⟩

/-- A graph with an open use, loaded from its saved form, passes every later check; one with a
hidden use does not.
-/
theorem hidden_use_loaded
    : (∃ bytes graph,
        load bytes {} = .ok graph
        ∧ graph.InUse "/p"
        ∧ ∀ operations : List Operation, (operations.foldl after graph).check = .ok ())
      ∧ ∃ bytes graph,
          load bytes {} = .ok graph
          ∧ ¬∀ operations : List Operation, (operations.foldl after graph).check = .ok () := by
  constructor
  · have consistent : artifactUsed.Consistent := (Consistent.new {}).after _
    obtain ⟨bytes, saves⟩ := consistent.exists_save
    have incremental : ({} : Options).incremental = true := rfl
    have loads := consistent.load_eq_restored (by decide) saves incremental (by decide)
    exact ⟨bytes, _, loads, by decide, (stays_consistent_iff_artifactsShown loads).1.1 (by decide)⟩
  · obtain ⟨bytes, loads⟩ := exists_load_hiddenUse
    refine ⟨bytes, _, loads, fun passes => ?_⟩
    have shown := (stays_consistent_iff_artifactsShown loads).1.2 passes
    revert shown
    decide

/-- Not every loaded graph passes a check after later operations. -/
theorem loaded_graph_comes_apart
    : ¬∀ {bytes : Bytes} {options : Options} {graph : Graph},
        load bytes options = .ok graph
        → ∀ operations : List Operation, (operations.foldl after graph).check = .ok () := by
  intro always
  obtain ⟨bytes, loads⟩ := exists_load_hiddenUse
  have passed :=
    always loads [.integrate ((Snapshot.start "u0").consume (.artifact "/p") true)]
  revert passed
  decide

end Graph

end Invalidation
