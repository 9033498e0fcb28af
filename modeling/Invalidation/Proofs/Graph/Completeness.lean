import Invalidation.Proofs.Graph.Answer
import Invalidation.Proofs.Integration.Difference

/-! Which dependents of a change are found right after an integration. A definition that is gone or
altered is listed, and a walk from it finds whatever depends on it, except where the integration
also lists a use: a definition that turned into a use is listed as that use, from which no walk
begins, and a walk that comes back to a listed use stops there.
-/

namespace Invalidation

/-- Two facts differ in their role, their sets of edges, or fingerprints that do not agree. -/
def Fact.DiffersFrom (fact old : Fact) : Prop :=
  fact.role ≠ old.role
  ∨ Fingerprint.optionsAgree fact.fingerprint old.fingerprint = false
  ∨ ¬∀ target, target ∈ fact.dependsOn ↔ target ∈ old.dependsOn

namespace Store

/-- A unit stores a definition of a key. -/
def Defines (store : Store) (unit : UnitName) (key : Key) : Prop :=
  ∃ fact ∈ store.factsOf unit, fact.key = key ∧ fact.isDefinition = true

/-- A unit stores a use of a key. -/
def Uses (store : Store) (unit : UnitName) (key : Key) : Prop :=
  ∃ fact ∈ store.factsOf unit, fact.key = key ∧ fact.isDefinition = false

instance (store : Store) (unit : UnitName) (key : Key) : Decidable (store.Defines unit key) :=
  inferInstanceAs
    (Decidable (∃ fact ∈ store.factsOf unit, fact.key = key ∧ fact.isDefinition = true))

instance (store : Store) (unit : UnitName) (key : Key) : Decidable (store.Uses unit key) :=
  inferInstanceAs
    (Decidable (∃ fact ∈ store.factsOf unit, fact.key = key ∧ fact.isDefinition = false))

/-- A unit stored a definition of a key and stores none any more. -/
def Vanished (before after : Store) (unit : UnitName) (key : Key) : Prop :=
  before.Defines unit key ∧ ¬after.Defines unit key

instance (before after : Store) (unit : UnitName) (key : Key)
    : Decidable (before.Vanished after unit key) :=
  inferInstanceAs (Decidable (before.Defines unit key ∧ ¬after.Defines unit key))

/-- A unit stores a definition of a key, and it stored nothing for the key before, or something from
which the definition differs.
-/
def Altered (before after : Store) (unit : UnitName) (key : Key) : Prop :=
  ∃ fact ∈ after.factsOf unit,
    fact.key = key
    ∧ fact.isDefinition = true
    ∧ ∀ old ∈ before.factsOf unit, old.key = key → fact.DiffersFrom old

end Store

-----------------------------------------------------------------------------------------
-- What is listed
-----------------------------------------------------------------------------------------

/-- Facts that differ do not have the same content. -/
theorem Fact.DiffersFrom.sameContentAs {fact old : Fact} (differs : fact.DiffersFrom old)
    (distinct : fact.dependsOn.Nodup)
    : fact.sameContentAs old = false := by
  by_contra same
  have matching := Fact.matches_of_sameContentAs distinct (Bool.not_eq_false _ ▸ same)
  rcases differs with otherRole | disagree | otherEdges
  · exact otherRole matching.role
  · rw [Fingerprint.optionsAgree_iff.2 matching.fingerprint] at disagree
    cases disagree
  · exact otherEdges matching.edges

namespace Integration

variable {store : Store} {externals : Externals} {granularity : Granularity}
  {snapshot : Snapshot} {incoming : List Fact} {result : Result}

theorem listed_of_differs (ran : run store externals granularity snapshot.unit incoming = result)
    (synced : store.Synced) (normal : snapshot.normalForm = .ok incoming) {fact : Fact}
    (member : fact ∈ incoming)
    (differs
      : ∀ old ∈ store.factsOf snapshot.unit, old.key = fact.key → fact.DiffersFrom old)
    : ⟨fact, snapshot.unit⟩ ∈ result.invalidated.nodes := by
  have compared
      : ∃ change, compare? (store.fact? (fact.refIn snapshot.unit)) fact = some change := by
    cases found : store.fact? (fact.refIn snapshot.unit) with
    | none => exact ⟨.new, rfl⟩
    | some old =>
        obtain ⟨owned, sameKey⟩ := synced.mem_of_fact? found
        have different := (differs old owned sameKey).sameContentAs
          (Snapshot.dependsOn_nodup_of_normalForm normal member)
        exact ⟨.changed, by simp [compare?, different]⟩
  obtain ⟨change, compared⟩ := compared
  exact List.mem_map.2 ⟨_, mem_entries_of_arrival ran member compared, rfl⟩

/-- A definition that vanished or was altered is listed. It is listed as a definition unless its
unit uses the key now.
-/
theorem listed_of_changed
    (ran : run store externals granularity snapshot.unit incoming = result)
    (synced : store.Synced) (normal : snapshot.normalForm = .ok incoming) {key : Key}
    (changed
      : store.Vanished result.store snapshot.unit key
        ∨ store.Altered result.store snapshot.unit key)
    : ∃ node ∈ result.invalidated.nodes,
        node.key = key
        ∧ (node.isDefinition = true ∨ result.store.Uses snapshot.unit key) := by
  have current : result.store.factsOf snapshot.unit = incoming := by
    rw [run_factsOf ran synced (Snapshot.keys_nodup_of_normalForm normal), if_pos rfl]
  rcases changed with ⟨⟨old, owned, rfl, provided⟩, gone⟩ | ⟨fact, member, rfl, provided, differs⟩
  · by_cases absent : ∀ fact ∈ incoming, fact.key ≠ old.key
    · refine ⟨⟨old, snapshot.unit⟩, ?_, rfl, .inl provided⟩
      exact List.mem_map.2 ⟨_, mem_entries_of_removed ran owned absent, rfl⟩
    · push Not at absent
      obtain ⟨fact, member, sameKey⟩ := absent
      have isUse : fact.isDefinition = false := by
        by_contra isDefinition
        exact gone ⟨fact, current ▸ member, sameKey, by simpa using isDefinition⟩
      refine ⟨⟨fact, snapshot.unit⟩, ?_, sameKey, .inr ⟨fact, current ▸ member, sameKey, isUse⟩⟩
      apply listed_of_differs ran synced normal member
      intro other otherOwned otherKey
      -- The only fact that was stored under the key is the definition that vanished.
      obtain rfl := synced.unique otherOwned owned (otherKey.trans sameKey)
      left
      intro sameRole
      rw [Fact.isDefinition, sameRole] at isUse
      exact absurd provided (by simp [Fact.isDefinition, isUse])
  · rw [current] at member
    exact ⟨_, listed_of_differs ran synced normal member differs, rfl, .inl provided⟩

end Integration

namespace Graph

variable {graph : Graph} {snapshot : Snapshot} {invalidated : Invalidated}

-----------------------------------------------------------------------------------------
-- Users of a changed definition
-----------------------------------------------------------------------------------------

theorem unit_of_listed (accepted : (graph.integrate snapshot).answer = .ok invalidated)
    {node : Node} (listed : node ∈ invalidated.nodes)
    : node.unit = snapshot.unit := by
  obtain ⟨facts, -, rfl, -⟩ := integrate_answer_eq_ok_iff.1 accepted
  exact (Integration.listed_cases_of_any rfl listed).1

/-- What the unit stores under the key of a listed node is what is listed. -/
theorem fact_eq_of_listed (synced : graph.store.Synced)
    (accepted : (graph.integrate snapshot).answer = .ok invalidated) {node : Node}
    (listed : node ∈ invalidated.nodes) {fact : Fact}
    (owned : fact ∈ (graph.integrate snapshot).graph.store.factsOf snapshot.unit)
    (sameKey : fact.key = node.key)
    : fact = node.toFact := by
  obtain ⟨facts, normal, rfl, -⟩ := integrate_answer_eq_ok_iff.1 accepted
  have distinct := Snapshot.keys_nodup_of_normalForm normal
  rw [integrate_factsOf_self synced normal] at owned
  obtain ⟨-, isIncoming | ⟨-, absent⟩⟩ := Integration.listed_cases rfl synced distinct listed
  · exact List.inj_on_of_nodup_map distinct owned isIncoming sameKey
  · exact absurd sameKey (absent _ owned)

/-- An accepted integration lists an interface definition that vanished or was altered. -/
theorem listed_of_changed (reachable : graph.Reachable)
    (accepted : (graph.integrate snapshot).answer = .ok invalidated) {key : Key}
    (changed
      : graph.store.Vanished (graph.integrate snapshot).graph.store snapshot.unit key
        ∨ graph.store.Altered (graph.integrate snapshot).graph.store snapshot.unit key)
    : ∃ node ∈ invalidated.nodes,
        node.key = key
        ∧ (node.isDefinition = true
          ∨ (graph.integrate snapshot).graph.store.Uses snapshot.unit key) := by
  obtain ⟨facts, normal, rfl, -⟩ := integrate_answer_eq_ok_iff.1 accepted
  rw [integrate_graph normal] at changed ⊢
  exact Integration.listed_of_changed rfl reachable.synced normal changed

/-- A unit that uses an interface key whose definition vanished or was altered is affected, unless
the definition turned into a use. Then only its own unit is sure to be affected: another user is
affected exactly if a walk from something else that is listed finds it.
-/
theorem user_of_changed_affected_iff (reachable : graph.Reachable)
    (incremental : graph.options.incremental = true)
    (accepted : (graph.integrate snapshot).answer = .ok invalidated) {key : Key}
    (shown : key.isInterface = true)
    (changed
      : graph.store.Vanished (graph.integrate snapshot).graph.store snapshot.unit key
        ∨ graph.store.Altered (graph.integrate snapshot).graph.store snapshot.unit key)
    {user : UnitName} (uses : (graph.integrate snapshot).graph.store.Uses user key)
    : user ∈ ((graph.integrate snapshot).graph.affectedByChanges invalidated).answer
      ↔ ¬(graph.integrate snapshot).graph.store.Uses snapshot.unit key
        ∨ user = snapshot.unit
        ∨ (graph.integrate snapshot).graph.store.Finds invalidated user := by
  obtain ⟨node, listed, rfl, turned⟩ := listed_of_changed reachable accepted changed
  obtain ⟨entry, member, rfl⟩ := List.mem_map.1 listed
  have nonempty : invalidated.entries ≠ [] := List.ne_nil_of_mem member
  rw [mem_affected_iff reachable incremental accepted]
  constructor
  · intro given
    rcases given with ⟨-, same⟩ | reached
    · exact .inr (.inl same)
    · exact .inr (.inr reached)
  · intro given
    rcases given with unused | same | reached
    · by_cases same : user = snapshot.unit
      · exact .inl ⟨nonempty, same⟩
      · right
        have provided := turned.resolve_right unused
        obtain ⟨fact, owned, sameKey, isUse⟩ := uses
        refine ⟨⟨entry.node.key, user⟩, rfl, .first (List.mem_filter.2 ⟨listed, provided⟩)
          (.use provided (.inl shown) owned sameKey isUse) ?_⟩
        intro given
        obtain ⟨other, otherListed, -, sameRef⟩ := given
        have otherUnit := unit_of_listed accepted otherListed
        exact same ((congrArg NodeRef.unit sameRef).symm.trans otherUnit)
    · exact .inl ⟨nonempty, same⟩
    · exact .inr reached

/-- A graph in which one unit provides a name and another one uses it. -/
def providedAndUsed : Graph :=
  [Operation.integrate ((Snapshot.start "u0").define (.interface (.topLevel "a")) none),
    .integrate ((Snapshot.start "u1").consume (.interface (.topLevel "a")) true)].foldl
    Graph.after (.new {})

/-- The user of a definition that is removed is affected. -/
theorem user_of_removed_definition_affected
    : "u1"
      ∈ ((providedAndUsed.integrate (.start "u0")).graph.affectedByChanges
          ⟨"u0",
            [⟨.removed, ⟨⟨.interface (.topLevel "a"), none, .definition, []⟩, "u0"⟩⟩,
              ⟨.changed, ⟨⟨.wholeUnit .interface "u0", none, .definition, []⟩, "u0"⟩⟩],
            []⟩).answer := by
  have vanished
      : providedAndUsed.store.Vanished (providedAndUsed.integrate (.start "u0")).graph.store "u0"
          (.interface (.topLevel "a")) := by
    decide
  have unused
      : ¬(providedAndUsed.integrate (.start "u0")).graph.store.Uses "u0"
          (.interface (.topLevel "a")) := by
    decide
  exact (user_of_changed_affected_iff (Reachable.foldl_after (.new {}) _) rfl (by decide) rfl
    (.inl vanished) (by decide)).2 (.inl unused)

/-- The user of a definition that turned into a use may be missed: the name is listed as the use
that it is now, and nothing else leads to the other unit.
-/
theorem user_of_definition_turned_use_missed
    : ¬∀ {graph : Graph} {snapshot : Snapshot} {invalidated : Invalidated} {key : Key}
        {user : UnitName},
        graph.Reachable
        → graph.options.incremental = true
        → (graph.integrate snapshot).answer = .ok invalidated
        → key.isInterface = true
        → graph.store.Vanished (graph.integrate snapshot).graph.store snapshot.unit key
          ∨ graph.store.Altered (graph.integrate snapshot).graph.store snapshot.unit key
        → (graph.integrate snapshot).graph.store.Uses user key
        → user ∈ ((graph.integrate snapshot).graph.affectedByChanges invalidated).answer := by
  intro complete
  let key : Key := .interface (.topLevel "a")
  let snapshot := (Snapshot.start "u0").consume key true
  let invalidated : Invalidated :=
    ⟨"u0", [⟨.changed, ⟨⟨key, none, .use true, []⟩, "u0"⟩⟩], []⟩
  have reachable : providedAndUsed.Reachable := Reachable.foldl_after (.new {}) _
  have accepted : (providedAndUsed.integrate snapshot).answer = .ok invalidated := by decide
  have vanished
      : providedAndUsed.store.Vanished (providedAndUsed.integrate snapshot).graph.store "u0"
          key := by
    decide
  have uses : (providedAndUsed.integrate snapshot).graph.store.Uses "u1" key := by decide
  have missed
      : "u1"
        ∉ ((providedAndUsed.integrate snapshot).graph.affectedByChanges invalidated).answer := by
    decide
  exact missed (complete reachable rfl accepted rfl (.inl vanished) uses)

-----------------------------------------------------------------------------------------
-- Everything downstream of a listed definition
-----------------------------------------------------------------------------------------

/-- The owner of a listed definition, or of whatever is reached from one, is affected exactly if
it is the unit of the snapshot or some node that it owns is reached without entering a listed use.
Where no listed use is stored, that is every owner.
-/
theorem owner_of_reached_affected_iff (reachable : graph.Reachable)
    (incremental : graph.options.incremental = true)
    (accepted : (graph.integrate snapshot).answer = .ok invalidated) {ref : NodeRef}
    (downstream
      : ref ∈ invalidated.definitions.map Node.ref
        ∨ (graph.integrate snapshot).graph.store.Reached
            (graph.integrate snapshot).graph.store.ReverseStep (fun _ => True)
            invalidated.definitions ref)
    : (ref.unit ∈ ((graph.integrate snapshot).graph.affectedByChanges invalidated).answer
        ↔ ref.unit = snapshot.unit
          ∨ (graph.integrate snapshot).graph.store.Finds invalidated ref.unit)
      ∧ ((∀ use, invalidated.ListsUse use
            → (graph.integrate snapshot).graph.store.contains use = false)
          → ref.unit
              ∈ ((graph.integrate snapshot).graph.affectedByChanges invalidated).answer) := by
  have started : ∃ start, start ∈ invalidated.definitions := by
    rcases downstream with listed | reached
    · obtain ⟨start, isStart, -⟩ := List.mem_map.1 listed
      exact ⟨start, isStart⟩
    · exact reached.exists_start
  obtain ⟨start, isStart⟩ := started
  obtain ⟨entry, member, -⟩ := List.mem_map.1 (List.mem_of_mem_filter isStart)
  rw [mem_affected_iff reachable incremental accepted, and_iff_right (List.ne_nil_of_mem member)]
  refine ⟨Iff.rfl, fun unstored => ?_⟩
  rcases downstream with listed | reached
  · obtain ⟨definition, isListed, rfl⟩ := List.mem_map.1 listed
    exact .inl (unit_of_listed accepted (List.mem_of_mem_filter isListed))
  · refine .inr ⟨ref, rfl, reached.mono fun _ next step _ isUse => ?_⟩
    have stored := step.contains
    rw [unstored next isUse] at stored
    cases stored

/-- A graph in which a unit provides two names: one is used by a unit that shows a name of its own
in turn, the other one by a third unit.
-/
def usedByTwo : Graph :=
  [Operation.integrate
      (((Snapshot.start "u0").define (.interface (.topLevel "x")) (some (.digest "f1"))).define
        (.interface (.topLevel "z")) none),
    .integrate
      (((Snapshot.start "u1").define (.interface (.topLevel "y")) none).consume
        (.interface (.topLevel "x")) true),
    .integrate ((Snapshot.start "u2").consume (.interface (.topLevel "z")) true)].foldl
    Graph.after (.new {})

/-- The provider with another fingerprint for the first name. -/
def renewed : Snapshot :=
  ((Snapshot.start "u0").define (.interface (.topLevel "x")) (some (.digest "f2"))).define
    (.interface (.topLevel "z")) none

/-- What the other fingerprint invalidates. -/
def invalidatedByRenewal : Invalidated :=
  ⟨"u0",
    [⟨.changed, ⟨⟨.interface (.topLevel "x"), some (.digest "f2"), .definition, []⟩, "u0"⟩⟩,
      ⟨.changed, ⟨⟨.wholeUnit .interface "u0", none, .definition, []⟩, "u0"⟩⟩],
    []⟩

/-- What a change of one name reaches by way of its user is affected. -/
theorem owner_of_reached_name_affected
    : "u1"
      ∈ ((usedByTwo.integrate renewed).graph.affectedByChanges invalidatedByRenewal).answer := by
  have reachable : usedByTwo.Reachable := Reachable.foldl_after (.new {}) _
  have accepted : (usedByTwo.integrate renewed).answer = .ok invalidatedByRenewal := by decide
  have found
      : (⟨.interface (.topLevel "y"), "u1"⟩ : NodeRef)
        ∈ (usedByTwo.integrate renewed).graph.store.discover (fun _ => true) []
            invalidatedByRenewal.definitions := by
    decide
  have reached :=
    (reachable.after (.integrate renewed)).sound.indexed.mem_discover_iff_reached.1 found
  have provided : ∀ node ∈ invalidatedByRenewal.nodes, node.isDefinition = true := by decide
  apply (owner_of_reached_affected_iff reachable rfl accepted (.inr reached)).2
  intro use given
  obtain ⟨node, listed, isUse, -⟩ := given
  rw [provided node listed] at isUse
  cases isUse

/-- The owner of something that is reached may be missed: a walk that comes back into the unit at a
use that is listed as new stops there, and does not cascade to the unit's other definitions.
-/
theorem owner_missed_behind_new_use
    : ¬∀ {graph : Graph} {snapshot : Snapshot} {invalidated : Invalidated} {ref : NodeRef},
        graph.Reachable
        → graph.options.incremental = true
        → (graph.integrate snapshot).answer = .ok invalidated
        → (graph.integrate snapshot).graph.store.Reached
            (graph.integrate snapshot).graph.store.ReverseStep (fun _ => True)
            invalidated.definitions ref
        → ref.unit
          ∈ ((graph.integrate snapshot).graph.affectedByChanges invalidated).answer := by
  intro complete
  let x : Key := .interface (.topLevel "x")
  let y : Key := .interface (.topLevel "y")
  let z : Key := .interface (.topLevel "z")
  let snapshot :=
    (((Snapshot.start "u0").define x (some (.digest "f2"))).define z none).consume y true
  let invalidated : Invalidated :=
    ⟨"u0",
      [⟨.changed, ⟨⟨x, some (.digest "f2"), .definition, []⟩, "u0"⟩⟩,
        ⟨.new, ⟨⟨y, none, .use true, []⟩, "u0"⟩⟩,
        ⟨.changed, ⟨⟨.wholeUnit .interface "u0", none, .definition, []⟩, "u0"⟩⟩],
      []⟩
  have reachable : usedByTwo.Reachable := Reachable.foldl_after (.new {}) _
  have accepted : (usedByTwo.integrate snapshot).answer = .ok invalidated := by decide
  have found
      : (⟨z, "u2"⟩ : NodeRef)
        ∈ (usedByTwo.integrate snapshot).graph.store.discover (fun _ => true) []
            invalidated.definitions := by
    decide
  have reached :=
    (reachable.after (.integrate snapshot)).sound.indexed.mem_discover_iff_reached.1 found
  have missed
      : "u2" ∉ ((usedByTwo.integrate snapshot).graph.affectedByChanges invalidated).answer := by
    decide
  exact missed (complete reachable rfl accepted reached)

end Graph

end Invalidation
