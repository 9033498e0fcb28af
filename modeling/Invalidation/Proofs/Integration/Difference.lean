import Invalidation.Proofs.Integration.Replacement
import Mathlib.Data.List.Perm.Subperm

/-! What an integration lists is the difference between what its unit stored and what comes in: the
facts that are new, removed or changed, and the definitions to which such a difference widens. No
key is listed twice, and the list depends on nothing but the facts of the unit before and after.
-/

namespace Invalidation

-----------------------------------------------------------------------------------------
-- Equal content
-----------------------------------------------------------------------------------------

/-- Two facts have the same role, no fingerprint or the same readable one, and edges to the same keys.
-/
structure Fact.Matches (fact old : Fact) : Prop where
  role : fact.role = old.role
  fingerprint
    : (fact.fingerprint = none ∧ old.fingerprint = none)
      ∨ ∃ token, fact.fingerprint = some (.digest token) ∧ old.fingerprint = some (.digest token)
  edges : ∀ target, target ∈ fact.dependsOn ↔ target ∈ old.dependsOn

/-- Fingerprints agree exactly if both are absent, or both are readable and the same. -/
theorem Fingerprint.optionsAgree_iff {current old : Option Fingerprint}
    : optionsAgree current old = true
      ↔ (current = none ∧ old = none)
        ∨ ∃ token, current = some (.digest token) ∧ old = some (.digest token) := by
  rcases current with _ | (token | _) <;> rcases old with _ | (token' | _) <;>
    simp [optionsAgree, agrees, eq_comm]

/-- Facts with the same content match: edges that are as many as the old ones and among them are all
of them, where none is repeated.
-/
theorem Fact.matches_of_sameContentAs {fact old : Fact} (distinct : fact.dependsOn.Nodup)
    (same : fact.sameContentAs old = true)
    : fact.Matches old := by
  simp only [sameContentAs, Bool.and_eq_true, decide_eq_true_eq, List.all_eq_true,
    List.contains_iff_mem, Fingerprint.optionsAgree_iff] at same
  obtain ⟨⟨⟨role, fingerprint⟩, sameLength⟩, included⟩ := same
  have permuted : fact.dependsOn.Perm old.dependsOn :=
    (distinct.subperm included).perm_of_length_le (Nat.le_of_eq sameLength.symm)
  exact ⟨role, fingerprint, fun target => permuted.mem_iff⟩

/-- Where no edge is repeated, facts have the same content exactly if they match. -/
theorem Fact.sameContentAs_iff {fact old : Fact} (distinct : fact.dependsOn.Nodup)
    (oldDistinct : old.dependsOn.Nodup)
    : fact.sameContentAs old = true ↔ fact.Matches old := by
  refine ⟨matches_of_sameContentAs distinct, fun same => ?_⟩
  have permuted : fact.dependsOn.Perm old.dependsOn :=
    (List.perm_ext_iff_of_nodup distinct oldDistinct).2 same.edges
  simp only [sameContentAs, Bool.and_eq_true, decide_eq_true_eq, List.all_eq_true,
    List.contains_iff_mem, Fingerprint.optionsAgree_iff]
  exact ⟨⟨⟨same.role, same.fingerprint⟩, permuted.length_eq⟩, fun target => (same.edges target).1⟩

namespace Integration

-----------------------------------------------------------------------------------------
-- Direct differences
-----------------------------------------------------------------------------------------

/-- A fact of a unit differs by itself from what the unit stored: nothing was stored under its key,
something that it does not match, or it was stored and does not come in any more.
-/
inductive Differs (unit : UnitName) (stored incoming : List Fact) : Entry → Prop
  | new {fact} (comes : fact ∈ incoming) (unknown : ∀ old ∈ stored, old.key ≠ fact.key)
    : Differs unit stored incoming ⟨.new, ⟨fact, unit⟩⟩
  | changed {fact old} (comes : fact ∈ incoming) (known : old ∈ stored)
    (sameKey : old.key = fact.key) (different : ¬fact.Matches old)
    : Differs unit stored incoming ⟨.changed, ⟨fact, unit⟩⟩
  | removed {old} (known : old ∈ stored) (absent : ∀ fact ∈ incoming, fact.key ≠ old.key)
    : Differs unit stored incoming ⟨.removed, ⟨old, unit⟩⟩

variable {store : Store} {externals : Externals} {granularity : Granularity} {unit : UnitName}
  {incoming : List Fact} {result : Result}

/-- No fact has two edges to one key. -/
def EdgesDistinct (facts : List Fact) : Prop := ∀ fact ∈ facts, fact.dependsOn.Nodup

/-- How an incoming fact compares with the stored one: it is new if there is none, and changed if it
does not match it.
-/
theorem compare?_eq_some_iff (synced : store.Synced)
    (oldEdges : EdgesDistinct (store.factsOf unit)) {fact : Fact} (edges : fact.dependsOn.Nodup)
    {change : Change}
    : compare? (store.fact? (fact.refIn unit)) fact = some change
      ↔ (change = .new ∧ ∀ old ∈ store.factsOf unit, old.key ≠ fact.key)
        ∨ (change = .changed
          ∧ ∃ old ∈ store.factsOf unit, old.key = fact.key ∧ ¬fact.Matches old) := by
  cases found : store.fact? (fact.refIn unit) with
  | none =>
      have unknown : ∀ old ∈ store.factsOf unit, old.key ≠ fact.key :=
        synced.fact?_eq_none_iff.1 found
      have nothing : ¬∃ old ∈ store.factsOf unit, old.key = fact.key ∧ ¬fact.Matches old := by
        intro given
        obtain ⟨old, owned, sameKey, -⟩ := given
        exact unknown old owned sameKey
      simp only [compare?, Option.some.injEq, and_iff_left unknown, nothing, and_false, or_false]
      exact eq_comm
  | some old =>
      obtain ⟨owned, sameKey⟩ := synced.mem_of_fact? found
      have known : ¬∀ old ∈ store.factsOf unit, old.key ≠ fact.key := fun unknown =>
        unknown old owned sameKey
      have only
          : (∃ other ∈ store.factsOf unit, other.key = fact.key ∧ ¬fact.Matches other)
            ↔ ¬fact.Matches old := by
        constructor
        · intro given
          obtain ⟨other, otherOwned, otherKey, different⟩ := given
          rwa [synced.unique otherOwned owned (otherKey.trans sameKey.symm)] at different
        · exact fun different => ⟨old, owned, sameKey, different⟩
      have content := fact.sameContentAs_iff edges (oldEdges old owned)
      simp only [compare?, known, and_false, false_or, only, ← content]
      cases fact.sameContentAs old <;> simp [eq_comm]

/-- What is listed before widening is what differs by itself. -/
theorem mem_direct_iff (synced : store.Synced)
    (oldEdges : EdgesDistinct (store.factsOf unit)) (edges : EdgesDistinct incoming) {entry : Entry}
    : entry ∈ direct store unit incoming ↔ Differs unit (store.factsOf unit) incoming entry := by
  rw [direct, List.mem_append, mem_arrivals_iff, List.mem_map]
  constructor
  · intro given
    rcases given with ⟨fact, comes, change, compared, rfl⟩ | ⟨old, removed, rfl⟩
    · rcases (compare?_eq_some_iff synced oldEdges (edges fact comes)).1 compared with
        ⟨rfl, unknown⟩ | ⟨rfl, old, known, sameKey, different⟩
      · exact .new comes unknown
      · exact .changed comes known sameKey different
    · obtain ⟨known, absent⟩ := mem_removedFacts.1 removed
      exact .removed known absent
  · intro differs
    cases differs with
    | @new fact comes unknown =>
        have compared := (compare?_eq_some_iff synced oldEdges (edges fact comes)).2
          (.inl ⟨rfl, unknown⟩)
        exact .inl ⟨fact, comes, .new, compared, rfl⟩
    | @changed fact old comes known sameKey different =>
        have compared := (compare?_eq_some_iff synced oldEdges (edges fact comes)).2
          (.inr ⟨rfl, old, known, sameKey, different⟩)
        exact .inl ⟨fact, comes, .changed, compared, rfl⟩
    | @removed old known absent =>
        exact .inr ⟨old, mem_removedFacts.2 ⟨known, absent⟩, rfl⟩

-----------------------------------------------------------------------------------------
-- Widening
-----------------------------------------------------------------------------------------

/-- A difference widens to a definition: in coarse mode any difference does to every one, and
otherwise that of an interface definition other than a catch-all does to the unit's catch-all
interface fact.
-/
def WidensTo (granularity : Granularity) (unit : UnitName) (stored incoming : List Fact)
    (fact : Fact) : Prop :=
  fact.isDefinition = true
  ∧ match granularity with
    | .coarse => ∃ entry, Differs unit stored incoming entry
    | .fineGrained =>
        fact.key = .wholeUnit .interface unit
        ∧ ∃ entry,
            Differs unit stored incoming entry
            ∧ entry.node.isDefinition = true
            ∧ entry.node.key.isInterface = true
            ∧ entry.node.key.isWholeUnit = false

/-- The facts to which direct entries widen are the incoming definitions to which the differences
do.
-/
theorem mem_widened_iff {snapshot : Snapshot} {stored : List Fact}
    (normal : snapshot.normalForm = .ok incoming) {entries : List Entry}
    (exactly : ∀ entry, entry ∈ entries ↔ Differs snapshot.unit stored incoming entry) {fact : Fact}
    : fact ∈ widened granularity snapshot.unit entries incoming
      ↔ fact ∈ incoming ∧ WidensTo granularity snapshot.unit stored incoming fact := by
  constructor
  · intro widens
    refine ⟨mem_of_mem_widened widens, isDefinition_of_mem_widened normal widens, ?_⟩
    unfold widened at widens
    split at widens
    · cases widens
    · rename_i nonempty
      cases granularity with
      | coarse =>
          obtain ⟨entry, member⟩ := List.exists_mem_of_ne_nil entries (by simpa using nonempty)
          exact ⟨entry, (exactly entry).1 member⟩
      | fineGrained =>
          dsimp only at widens ⊢
          split at widens
          · rename_i shown
            obtain ⟨entry, member, isShown⟩ := List.any_eq_true.1 shown
            simp only [Bool.and_eq_true, Bool.not_eq_true'] at isShown
            refine ⟨of_decide_eq_true (List.mem_filter.1 widens).2, entry, (exactly entry).1 member,
              isShown.1.1, isShown.1.2, isShown.2⟩
          · cases widens
  · intro given
    obtain ⟨comes, provided, cause⟩ := given
    unfold widened
    cases granularity with
    | coarse =>
        obtain ⟨entry, differs⟩ := cause
        have nonempty : entries ≠ [] := List.ne_nil_of_mem ((exactly entry).2 differs)
        simp only [List.isEmpty_iff, nonempty, ↓reduceIte]
        exact List.mem_filter.2 ⟨comes, provided⟩
    | fineGrained =>
        obtain ⟨isCatchAll, entry, differs, isDefinition, shown, particular⟩ := cause
        have member := (exactly entry).2 differs
        have nonempty : entries ≠ [] := List.ne_nil_of_mem member
        have any
            : entries.any (fun entry =>
                entry.node.isDefinition && entry.node.key.isInterface
                && !entry.node.key.isWholeUnit) = true :=
          List.any_eq_true.2 ⟨entry, member, by simp [isDefinition, shown, particular]⟩
        simp only [List.isEmpty_iff, nonempty, any, ↓reduceIte]
        exact List.mem_filter.2 ⟨comes, decide_eq_true isCatchAll⟩

-----------------------------------------------------------------------------------------
-- The whole list
-----------------------------------------------------------------------------------------

/-- A unit's entry that a snapshot calls for: a difference, or a definition that came in as it was and
to which a difference widens.
-/
inductive Owed (granularity : Granularity) (unit : UnitName) (stored incoming : List Fact)
    : Entry → Prop
  | differs {entry} (differs : Differs unit stored incoming entry)
    : Owed granularity unit stored incoming entry
  | widened {fact old} (comes : fact ∈ incoming) (known : old ∈ stored)
    (sameKey : old.key = fact.key) (same : fact.Matches old)
    (widens : WidensTo granularity unit stored incoming fact)
    : Owed granularity unit stored incoming ⟨.changed, ⟨fact, unit⟩⟩

/-- An incoming fact whose key is not listed came in as it was. -/
theorem exists_matching {stored : List Fact} {fact : Fact} (comes : fact ∈ incoming)
    (unlisted : ∀ entry, Differs unit stored incoming entry → entry.node.key ≠ fact.key)
    : ∃ old ∈ stored, old.key = fact.key ∧ fact.Matches old := by
  by_cases known : ∃ old ∈ stored, old.key = fact.key
  · obtain ⟨old, isStored, sameKey⟩ := known
    refine ⟨old, isStored, sameKey, ?_⟩
    by_contra different
    exact unlisted _ (.changed comes isStored sameKey different) rfl
  · push Not at known
    exact absurd rfl (unlisted _ (.new comes known))

/-- A fact that came in as it was does not differ, since its key is stored once and comes in once. -/
theorem Differs.key_ne {stored : List Fact} (storedDistinct : (stored.map (·.key)).Nodup)
    (distinct : (incoming.map (·.key)).Nodup) {fact old : Fact} (comes : fact ∈ incoming)
    (known : old ∈ stored) (sameKey : old.key = fact.key) (same : fact.Matches old) {entry : Entry}
    (differs : Differs unit stored incoming entry)
    : entry.node.key ≠ fact.key := by
  intro entryKey
  cases differs with
  | @new other _ unknown => exact unknown old known (sameKey.trans entryKey.symm)
  | @changed other before otherComes beforeKnown beforeKey different =>
      rw [List.inj_on_of_nodup_map distinct otherComes comes entryKey,
        List.inj_on_of_nodup_map storedDistinct beforeKnown known
          (beforeKey.trans (entryKey.trans sameKey.symm))] at different
      exact different same
  | @removed before _ absent => exact absent fact comes entryKey.symm

/-- What is listed under the key of an incoming fact is that fact, whichever way it differs. -/
theorem Differs.node_eq {stored : List Fact} {entry : Entry}
    (differs : Differs unit stored incoming entry) (distinct : (incoming.map (·.key)).Nodup)
    {fact : Fact} (comes : fact ∈ incoming) (sameKey : entry.node.key = fact.key)
    : entry.node = ⟨fact, unit⟩ := by
  cases differs with
  | new otherComes _ =>
      obtain rfl := List.inj_on_of_nodup_map distinct otherComes comes sameKey
      rfl
  | changed otherComes _ _ _ =>
      obtain rfl := List.inj_on_of_nodup_map distinct otherComes comes sameKey
      rfl
  | removed _ absent => exact absurd sameKey.symm (absent fact comes)

/-- An integration lists exactly what the facts before and after it call for. -/
theorem mem_run_entries_iff {snapshot : Snapshot}
    (ran : run store externals granularity snapshot.unit incoming = result)
    (normal : snapshot.normalForm = .ok incoming) (synced : store.Synced)
    (oldEdges : EdgesDistinct (store.factsOf snapshot.unit)) {entry : Entry}
    : entry ∈ result.invalidated.entries
      ↔ Owed granularity snapshot.unit (store.factsOf snapshot.unit) incoming entry := by
  have distinct := Snapshot.keys_nodup_of_normalForm normal
  have edges : EdgesDistinct incoming := fun _ => Snapshot.dependsOn_nodup_of_normalForm normal
  have exactly (entry : Entry)
      : entry ∈ direct store snapshot.unit incoming
        ↔ Differs snapshot.unit (store.factsOf snapshot.unit) incoming entry :=
    mem_direct_iff synced oldEdges edges
  rw [run_entries ran synced distinct, List.mem_append, exactly, mem_widening_iff]
  simp only [mem_widened_iff normal exactly, exactly]
  constructor
  · intro given
    rcases given with differs | ⟨fact, ⟨comes, widens⟩, unlisted, rfl⟩
    · exact .differs differs
    · obtain ⟨old, known, sameKey, same⟩ := exists_matching comes unlisted
      exact .widened comes known sameKey same widens
  · intro owed
    cases owed with
    | differs differs => exact .inl differs
    | @widened fact old comes known sameKey same widens =>
        refine .inr ⟨fact, ⟨comes, widens⟩, fun entry differs => ?_, rfl⟩
        exact differs.key_ne (synced.keysDistinct snapshot.unit) distinct comes known sameKey same

/-- What a difference widens to is listed, be it by widening or as a difference of its own. -/
theorem mem_nodes_of_widensTo {snapshot : Snapshot}
    (ran : run store externals granularity snapshot.unit incoming = result)
    (normal : snapshot.normalForm = .ok incoming) (synced : store.Synced)
    (oldEdges : EdgesDistinct (store.factsOf snapshot.unit)) {fact : Fact}
    (comes : fact ∈ incoming)
    (widens
      : WidensTo granularity snapshot.unit (store.factsOf snapshot.unit) incoming fact)
    : ⟨fact, snapshot.unit⟩ ∈ result.invalidated.nodes := by
  have listed (entry : Entry)
      : Owed granularity snapshot.unit (store.factsOf snapshot.unit) incoming entry
        → entry ∈ result.invalidated.entries :=
    (mem_run_entries_iff ran normal synced oldEdges).2
  by_cases differing
    : ∃ entry,
        Differs snapshot.unit (store.factsOf snapshot.unit) incoming entry
        ∧ entry.node.key = fact.key
  · obtain ⟨entry, differs, sameKey⟩ := differing
    have isFact := differs.node_eq (Snapshot.keys_nodup_of_normalForm normal) comes sameKey
    exact List.mem_map.2 ⟨entry, listed _ (.differs differs), isFact⟩
  · push Not at differing
    obtain ⟨old, known, sameKey, same⟩ := exists_matching comes differing
    exact List.mem_map.2 ⟨_, listed _ (.widened comes known sameKey same widens), rfl⟩

/-- No key differs twice, since a key that is gone does not come in. -/
theorem keys_nodup_direct (distinct : (incoming.map (·.key)).Nodup)
    (synced : store.Synced)
    : ((direct store unit incoming).map (·.node.key)).Nodup := by
  have arrived : ((incoming.filterMap (arrival? store unit)).map (·.node.key)).Nodup := by
    rw [List.Nodup, List.pairwise_map, List.pairwise_filterMap]
    refine (List.pairwise_map.1 distinct).imp fun different entry arrives other otherArrives => ?_
    obtain ⟨change, -, rfl⟩ := Option.map_eq_some_iff.1 arrives
    obtain ⟨otherChange, -, rfl⟩ := Option.map_eq_some_iff.1 otherArrives
    exact different
  have removed : ((removedFacts store unit incoming).map (·.key)).Nodup :=
    (synced.keysDistinct unit).sublist (List.filter_sublist.map _)
  rw [direct, List.map_append, List.map_map]
  refine arrived.append removed fun key isArrived isRemoved => ?_
  obtain ⟨entry, listed, rfl⟩ := List.mem_map.1 isArrived
  obtain ⟨old, isOld, sameKey⟩ := List.mem_map.1 isRemoved
  obtain ⟨fact, comes, change, -, rfl⟩ := mem_arrivals_iff.1 listed
  exact (mem_removedFacts.1 isOld).2 fact comes sameKey.symm

/-- No key is listed twice, since a change widens only to facts that are not listed yet. -/
theorem keys_nodup_of_run (ran : run store externals granularity unit incoming = result)
    (distinct : (incoming.map (·.key)).Nodup) (synced : store.Synced)
    : (result.invalidated.entries.map (·.node.key)).Nodup := by
  have extraDistinct (entries : List Entry)
      : ((widening granularity unit entries incoming).map (·.node.key)).Nodup := by
    rw [widening, List.map_map]
    exact distinct.sublist ((List.filter_sublist.trans widened_sublist).map _)
  rw [run_entries ran synced distinct, List.map_append]
  refine (keys_nodup_direct distinct synced).append (extraDistinct _) ?_
  intro key isDirect isExtra
  obtain ⟨entry, listed, rfl⟩ := List.mem_map.1 isDirect
  obtain ⟨other, extra, sameKey⟩ := List.mem_map.1 isExtra
  obtain ⟨fact, -, unlisted, rfl⟩ := mem_widening_iff.1 extra
  exact unlisted entry listed sameKey.symm

/-- What an integration lists depends on the facts that its unit stored, on those that come in and on
the granularity, and on nothing else.
-/
theorem run_entries_congr {left right : Store} {leftExternals rightExternals : Externals}
    (leftSynced : left.Synced) (rightSynced : right.Synced)
    (distinct : (incoming.map (·.key)).Nodup) (stored : left.factsOf unit = right.factsOf unit)
    : (run left leftExternals granularity unit incoming).invalidated.entries
      = (run right rightExternals granularity unit incoming).invalidated.entries := by
  rw [run_entries rfl leftSynced distinct, run_entries rfl rightSynced distinct,
    direct_congr leftSynced rightSynced stored]

end Integration

end Invalidation
