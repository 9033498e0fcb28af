import Invalidation.Proofs.Externals
import Invalidation.Proofs.Integration.Replacement
import Invalidation.Proofs.Snapshot.NormalForm
import Invalidation.Saved.Graph

/-! The graphs that can come up: new ones, loaded ones, and what operations make of those. In all of
them the indices agree with the facts and only stored nodes are marked.
-/

namespace Invalidation

/-- An operation that can change a graph. -/
inductive Operation where
  | integrate (snapshot : Snapshot)
  | integrateDocument (bytes : Bytes)
  | askChanges (invalidated : Invalidated)
  | askUnit (unit : UnitName)
  | askExternal (external : External) (query : ReportWhen)
  | reopen (unit : UnitName)
  | enter (phase : Phase)

/-- Whether the operation may replace the facts of a unit. -/
def Operation.integrates : Operation → Bool
  | integrate _ | integrateDocument _ => true
  | _ => false

/-- The graph after an operation, whatever its answer is. -/
def Graph.after (graph : Graph) : Operation → Graph
  | .integrate snapshot => (graph.integrate snapshot).graph
  | .integrateDocument bytes => (graph.integrateDocument bytes).graph
  | .askChanges invalidated => (graph.affectedByChanges invalidated).graph
  | .askUnit unit => (graph.affectedByUnit unit).graph
  | .askExternal external query => (graph.affectedByExternal external query).graph
  | .reopen unit => graph.reopen unit
  | .enter phase => (graph.enter phase).graph

/-- The graphs that can come up, with any settings and after any operations in any order. -/
inductive Graph.Reachable : Graph → Prop
  | new (options : Options) : Reachable (new options)
  | loaded {bytes options graph} (loaded : load bytes options = .ok graph) : Reachable graph
  | after {graph} (reachable : Reachable graph) (operation : Operation)
    : Reachable (graph.after operation)

/-- Operations one after the other lead from a graph that can come up to another one, by induction
on the operations.
-/
theorem Graph.Reachable.foldl_after {graph : Graph} (reachable : graph.Reachable)
    (operations : List Operation)
    : (operations.foldl Graph.after graph).Reachable := by
  induction operations generalizing graph with
  | nil => exact reachable
  | cons operation rest ih => exact ih (reachable.after operation)

-----------------------------------------------------------------------------------------
-- What an integration comes to
-----------------------------------------------------------------------------------------

namespace Graph

variable {graph : Graph} {snapshot : Snapshot} {facts : List Fact}

/-- What the graph makes of facts in normal form. -/
def integration (graph : Graph) (unit : UnitName) (facts : List Fact)
    : Integration.Result :=
  Integration.run graph.store graph.externals graph.options.granularity unit facts

theorem integrate_graph_of_violation {violation : Violation}
    (refused : snapshot.normalForm = .error violation)
    : (graph.integrate snapshot).graph = graph := by
  simp only [integrate, refused]

theorem integrate_answer_of_violation {violation : Violation}
    (refused : snapshot.normalForm = .error violation)
    : (graph.integrate snapshot).answer = .error (.contract snapshot.unit violation) := by
  simp only [integrate, refused]

/-- A snapshot that keeps the contract replaces the facts of its unit, even if a check then fails.
-/
theorem integrate_graph (normal : snapshot.normalForm = .ok facts)
    : (graph.integrate snapshot).graph
      = { graph with
          store := (graph.integration snapshot.unit facts).store
          externals := (graph.integration snapshot.unit facts).externals } := by
  simp only [integrate, normal]
  split <;> rfl

/-- After a snapshot that keeps the contract its unit owns the facts of the normal form, and other
units own what they did.
-/
theorem integrate_factsOf (synced : graph.store.Synced)
    (normal : snapshot.normalForm = .ok facts) (unit : UnitName)
    : (graph.integrate snapshot).graph.store.factsOf unit
      = if unit = snapshot.unit then facts else graph.store.factsOf unit := by
  rw [integrate_graph normal]
  generalize ran : graph.integration snapshot.unit facts = result
  exact Integration.run_factsOf ran synced (Snapshot.keys_nodup_of_normalForm normal) unit

theorem integrate_factsOf_self (synced : graph.store.Synced)
    (normal : snapshot.normalForm = .ok facts)
    : (graph.integrate snapshot).graph.store.factsOf snapshot.unit = facts :=
  (integrate_factsOf synced normal snapshot.unit).trans (if_pos rfl)

/-- After a snapshot that keeps the contract its unit stores nothing but the normal form. -/
theorem integrate_contains_self (synced : graph.store.Synced)
    (normal : snapshot.normalForm = .ok facts) {key : Key}
    : (graph.integrate snapshot).graph.store.contains ⟨key, snapshot.unit⟩
      ↔ ∃ fact ∈ facts, fact.key = key := by
  rw [integrate_graph normal]
  generalize ran : graph.integration snapshot.unit facts = result
  rw [Integration.run_contains ran synced (Snapshot.keys_nodup_of_normalForm normal), if_pos rfl]

/-- A snapshot that keeps the contract is accepted unless the graph is checked and fails. -/
theorem integrate_answer (normal : snapshot.normalForm = .ok facts)
    : (graph.integrate snapshot).answer
      = if graph.options.verifyAfterIntegrate then
          (graph.integrate snapshot).graph.check.map fun () =>
            (graph.integration snapshot.unit facts).invalidated
        else .ok (graph.integration snapshot.unit facts).invalidated := by
  rw [integrate_graph normal]
  simp only [integrate, normal]
  split <;> rfl

/-- A snapshot is accepted exactly if it keeps the contract and no check is due or the check that is
due succeeds; what is invalidated then comes from the facts of its normal form.
-/
theorem integrate_answer_eq_ok_iff {invalidated : Invalidated}
    : (graph.integrate snapshot).answer = .ok invalidated
      ↔ ∃ facts,
          snapshot.normalForm = .ok facts
          ∧ (graph.integration snapshot.unit facts).invalidated = invalidated
          ∧ (graph.options.verifyAfterIntegrate = true
              → (graph.integrate snapshot).graph.check = .ok ()) := by
  cases normal : snapshot.normalForm with
  | error violation => simp [integrate, normal]
  | ok facts =>
      rw [integrate_answer normal]
      cases graph.options.verifyAfterIntegrate with
      | false => simp
      | true =>
          cases (graph.integrate snapshot).graph.check with
          | error error => simp [Except.map]
          | ok done => simp [Except.map]

end Graph

-----------------------------------------------------------------------------------------
-- What an operation leaves undisturbed
-----------------------------------------------------------------------------------------

/-- The indices agree with the facts, and only stored nodes are marked. -/
structure Store.Sound (store : Store) : Prop where
  indexed : store.Indexed
  marksStored : store.MarksStored

theorem Store.Sound.putAll {store : Store} (sound : store.Sound) (unit : UnitName)
    (facts : List Fact)
    : (store.putAll unit facts).Sound :=
  ⟨sound.indexed.putAll unit facts, sound.marksStored.putAll unit facts⟩

namespace Graph

/-- An integration keeps the store sound, whether it is accepted or not. -/
theorem integrate_sound {graph : Graph} (sound : graph.store.Sound) (snapshot : Snapshot)
    : (graph.integrate snapshot).graph.store.Sound := by
  cases normal : snapshot.normalForm with
  | error violation =>
      rw [integrate_graph_of_violation normal]
      exact sound
  | ok facts =>
      rw [integrate_graph normal]
      exact ⟨Integration.run_indexed rfl sound.indexed,
        Integration.run_marksStored rfl sound.marksStored⟩

/-- What is remembered after a question about an artifact, in either mode and of either kind. -/
theorem externals_affectedByExternal (graph : Graph) (external : External) (query : ReportWhen)
    : (graph.affectedByExternal external query).graph.externals
      = graph.externals.observe external := by
  unfold affectedByExternal
  dsimp only
  split
  · rfl
  · split <;> rfl

/-- Facts, indices, settings and the artifacts in use are as before. What is marked may differ, but
only stored nodes are marked if that was so before.
-/
structure Undisturbed (before after : Graph) : Prop where
  options : after.options = before.options
  store : ∃ marked, after.store = { before.store with marked }
  marksStored : before.store.MarksStored → after.store.MarksStored
  externals : ∀ path, after.externals.contains path = before.externals.contains path

theorem Undisturbed.refl (graph : Graph) : graph.Undisturbed graph :=
  ⟨rfl, ⟨_, rfl⟩, id, fun _ => rfl⟩

theorem Undisturbed.trans {first middle last : Graph} (before : first.Undisturbed middle)
    (after : middle.Undisturbed last)
    : first.Undisturbed last := by
  obtain ⟨marked, sameStore⟩ := before.store
  obtain ⟨marked', sameStore'⟩ := after.store
  refine ⟨after.options.trans before.options, ⟨marked', ?_⟩, ?_, fun path => ?_⟩
  · rw [sameStore', sameStore]
  · exact fun stored => after.marksStored (before.marksStored stored)
  · rw [after.externals, before.externals]

theorem Undisturbed.factsOf {before after : Graph} (undisturbed : before.Undisturbed after)
    (unit : UnitName)
    : after.store.factsOf unit = before.store.factsOf unit := by
  obtain ⟨marked, sameStore⟩ := undisturbed.store
  rw [sameStore]
  rfl

theorem Undisturbed.contains {before after : Graph} (undisturbed : before.Undisturbed after)
    (node : NodeRef)
    : after.store.contains node = before.store.contains node := by
  obtain ⟨marked, sameStore⟩ := undisturbed.store
  rw [sameStore]
  rfl

theorem Undisturbed.unitNames {before after : Graph} (undisturbed : before.Undisturbed after)
    : after.store.unitNames = before.store.unitNames := by
  obtain ⟨marked, sameStore⟩ := undisturbed.store
  rw [sameStore]
  rfl

theorem Undisturbed.indexed {before after : Graph} (undisturbed : before.Undisturbed after)
    (indexed : before.store.Indexed)
    : after.store.Indexed := by
  obtain ⟨marked, sameStore⟩ := undisturbed.store
  rw [sameStore]
  exact indexed.withMarks marked

theorem undisturbed_report (graph : Graph) {walk : Walk} (units : List UnitName)
    (summary : Nat → Event) (marks : ∃ marked, walk.store = { graph.store with marked })
    (stored : graph.store.MarksStored → walk.store.MarksStored)
    : graph.Undisturbed (graph.report walk units summary).graph :=
  ⟨rfl, marks, stored, fun _ => rfl⟩

/-- Only an integration disturbs the facts: the other operations walk, take marks away, remember
what was seen of an artifact in use, or enter a phase.
-/
theorem undisturbed_after (graph : Graph) {operation : Operation}
    (isQuery : operation.integrates = false)
    : graph.Undisturbed (graph.after operation) := by
  cases operation with
  | integrate snapshot => cases isQuery
  | integrateDocument bytes => cases isQuery
  | askChanges invalidated =>
      simp only [after, affectedByChanges]
      split
      · exact graph.undisturbed_report _ _ ⟨_, rfl⟩ (·.walkFrom _)
      · exact .refl graph
  | askUnit unit =>
      simp only [after, affectedByUnit]
      split
      · exact graph.undisturbed_report _ _ ⟨_, rfl⟩ (·.walkFrom _)
      · exact .refl graph
  | askExternal external query =>
      have observed : graph.Undisturbed
          { graph with externals := graph.externals.observe external } :=
        ⟨rfl, ⟨_, rfl⟩, id, Externals.contains_observe graph.externals external⟩
      simp only [after, affectedByExternal]
      split
      · exact observed
      · split
        · exact observed.trans (undisturbed_report _ _ _ ⟨_, rfl⟩ (·.walkInto _))
        · exact observed
  | reopen unit => exact ⟨rfl, ⟨_, rfl⟩, fun stored => stored.unmark _, fun _ => rfl⟩
  | enter phase => exact ⟨rfl, ⟨_, rfl⟩, id, fun _ => rfl⟩

/-- Operations that do not integrate leave the facts undisturbed, by induction on the operations. -/
theorem undisturbed_foldl_after (graph : Graph) {operations : List Operation}
    (queries : ∀ operation ∈ operations, operation.integrates = false)
    : graph.Undisturbed (operations.foldl Graph.after graph) := by
  induction operations generalizing graph with
  | nil => exact .refl graph
  | cons operation rest ih =>
      rw [List.forall_mem_cons] at queries
      exact (graph.undisturbed_after queries.1).trans (ih (graph.after operation) queries.2)

-----------------------------------------------------------------------------------------
-- The invariant of the graphs that can come up
-----------------------------------------------------------------------------------------

theorem addUnit_eq_ok {table : List String} {store stored : Store} {saved : Saved.Unit}
    (added : Saved.addUnit table store saved = .ok stored)
    : ∃ unit facts, store.putAll unit facts = stored := by
  obtain ⟨unit, -, added⟩ := bind_eq_ok.1 added
  obtain ⟨keys, -, added⟩ := bind_eq_ok.1 added
  obtain ⟨facts, -, added⟩ := bind_eq_ok.1 added
  exact ⟨unit, facts, pure_eq_ok.1 added⟩

/-- What holds of a store, and still does after facts are stored, holds after saved units are
stored; by induction on the units.
-/
theorem foldlM_addUnit_induction {motive : Store → Prop}
    (step : ∀ store unit facts, motive store → motive (store.putAll unit facts))
    {table : List String} {units : List Saved.Unit} {store stored : Store} (start : motive store)
    (added : units.foldlM (Saved.addUnit table) store = .ok stored)
    : motive stored := by
  induction units generalizing store with
  | nil =>
      rw [← pure_eq_ok.1 added]
      exact start
  | cons saved rest ih =>
      rw [List.foldlM_cons] at added
      obtain ⟨middle, first, later⟩ := bind_eq_ok.1 added
      obtain ⟨unit, facts, rfl⟩ := addUnit_eq_ok first
      exact ih (step store unit facts start) later

/-- A document loads with incremental tracking, if its header can be used and its body is decoded
and gives a graph.
-/
theorem load_eq_ok_iff {bytes : Bytes} {options : Options} {graph : Graph}
    : load bytes options = .ok graph
      ↔ options.incremental = true
        ∧ ∃ rest body left,
            readHeader bytes = .ok rest
            ∧ MessagePack.decode Saved.Body.schema rest = .ok (body, left)
            ∧ Saved.toGraph options body = .ok graph := by
  constructor
  · intro loaded
    unfold load at loaded
    split at loaded
    · obtain ⟨_, failed, -⟩ := bind_eq_ok.1 loaded
      cases failed
    · rename_i incremental
      obtain ⟨rest, told, loaded⟩ := bind_eq_ok.1 loaded
      obtain ⟨⟨body, left⟩, decoded, read⟩ := bind_eq_ok.1 loaded
      exact ⟨by simpa using incremental, rest, body, left, mapError_eq_ok.1 told,
        mapError_eq_ok.1 decoded, read⟩
  · rintro ⟨incremental, rest, body, left, told, decoded, read⟩
    rw [load, incremental]
    exact bind_eq_ok.2
      ⟨rest, mapError_eq_ok.2 told, bind_eq_ok.2 ⟨_, mapError_eq_ok.2 decoded, read⟩⟩

/-- A loaded graph was made with incremental tracking, passes a check, and stores the units of some
body one after the other.
-/
theorem exists_body_of_load {bytes : Bytes} {options : Options} {graph : Graph}
    (loaded : load bytes options = .ok graph)
    : options.incremental = true
      ∧ graph.check = .ok ()
      ∧ ∃ body : Saved.Body,
          body.units.foldlM (Saved.addUnit body.strings) .empty = .ok graph.store := by
  obtain ⟨incremental, rest, body, left, -, -, read⟩ := load_eq_ok_iff.1 loaded
  obtain ⟨store, units, read⟩ := bind_eq_ok.1 read
  obtain ⟨externals, -, read⟩ := bind_eq_ok.1 read
  obtain ⟨_, passed, read⟩ := bind_eq_ok.1 read
  rw [← pure_eq_ok.1 read]
  exact ⟨incremental, passed, body, mapError_eq_ok.1 units⟩

theorem incremental_of_load {bytes : Bytes} {options : Options} {graph : Graph}
    (loaded : load bytes options = .ok graph)
    : options.incremental = true :=
  (exists_body_of_load loaded).1

theorem check_of_load {bytes : Bytes} {options : Options} {graph : Graph}
    (loaded : load bytes options = .ok graph)
    : graph.check = .ok () :=
  (exists_body_of_load loaded).2.1

/-- What holds of the empty store, and still does after facts are stored, holds of the store of a
loaded graph, since every saved unit is stored anew.
-/
theorem load_induction {motive : Store → Prop} (start : motive .empty)
    (step : ∀ store unit facts, motive store → motive (store.putAll unit facts)) {bytes : Bytes}
    {options : Options} {graph : Graph} (loaded : load bytes options = .ok graph)
    : motive graph.store := by
  obtain ⟨-, -, body, stored⟩ := exists_body_of_load loaded
  exact foldlM_addUnit_induction step start stored

theorem sound_empty : Store.empty.Sound := ⟨Store.indexed_empty, fun _ marked => nomatch marked⟩

theorem sound_of_load {bytes : Bytes} {options : Options} {graph : Graph}
    (loaded : load bytes options = .ok graph)
    : graph.store.Sound :=
  load_induction sound_empty (fun _ unit facts sound => sound.putAll unit facts) loaded

/-- In every graph that can come up the store is sound, by induction on how it came up. -/
theorem Reachable.sound {graph : Graph} (reachable : graph.Reachable) : graph.store.Sound := by
  induction reachable with
  | new options => exact sound_empty
  | loaded loaded => exact sound_of_load loaded
  | @after graph _ operation ih =>
      cases isQuery : operation.integrates with
      | false =>
          have undisturbed := graph.undisturbed_after isQuery
          exact ⟨undisturbed.indexed ih.indexed, undisturbed.marksStored ih.marksStored⟩
      | true =>
          cases operation with
          | integrate snapshot => exact integrate_sound ih snapshot
          | integrateDocument bytes =>
              simp only [Graph.after, integrateDocument]
              split
              · exact ih
              · exact integrate_sound ih _
          | _ => cases isQuery

theorem Reachable.synced {graph : Graph} (reachable : graph.Reachable) : graph.store.Synced :=
  reachable.sound.indexed.toSynced

end Graph

end Invalidation
