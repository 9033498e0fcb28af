import Invalidation.Proofs.Integration.Answer
import Invalidation.Proofs.Integration.Difference
import Invalidation.Proofs.Store.Order

/-! An integration of the same facts right after the first one. The first one leaves the unit
settled, so the second one stores what is stored, in the same order everywhere. It lists only what
an unreadable fingerprint calls for, which the first one listed too, so it finds no mark to take
away.
-/

namespace Invalidation.Integration

variable {store : Store} {externals : Externals} {granularity : Granularity} {unit : UnitName}
  {incoming : List Fact} {first second : Result}

/-- A fact whose fingerprint is unreadable matches nothing. -/
theorem not_matches_of_unreadable {fact : Fact} (unreadable : fact.fingerprint = some .unreadable)
    (old : Fact)
    : ¬fact.Matches old := by
  intro same
  rcases same.fingerprint with ⟨absent, -⟩ | ⟨token, isToken, -⟩
  · rw [unreadable] at absent
    cases absent
  · rw [unreadable] at isToken
    cases isToken

/-- Only definitions come in with a fingerprint. -/
theorem isDefinition_of_unreadable {snapshot : Snapshot}
    (normal : snapshot.normalForm = .ok incoming) {fact : Fact} (comes : fact ∈ incoming)
    (unreadable : fact.fingerprint = some .unreadable)
    : fact.isDefinition = true := by
  by_contra isUse
  rw [Snapshot.fingerprint_eq_none_of_use normal comes (by simpa using isUse)] at unreadable
  cases unreadable

/-- Any other fact matches itself. -/
theorem matches_self {fact : Fact} (readable : fact.fingerprint ≠ some .unreadable)
    : fact.Matches fact := by
  refine ⟨rfl, ?_, fun _ => .rfl⟩
  cases given : fact.fingerprint with
  | none => exact .inl ⟨rfl, rfl⟩
  | some fingerprint =>
      cases fingerprint with
      | digest token => exact .inr ⟨token, rfl, rfl⟩
      | unreadable => exact absurd given readable

/-- What comes in with an unreadable fingerprint differs, whatever was stored. -/
theorem exists_differs_of_unreadable {stored : List Fact} {fact : Fact} (comes : fact ∈ incoming)
    (unreadable : fact.fingerprint = some .unreadable)
    : ∃ entry, Differs unit stored incoming entry ∧ entry.node = ⟨fact, unit⟩ := by
  by_cases known : ∃ old ∈ stored, old.key = fact.key
  · obtain ⟨old, isStored, sameKey⟩ := known
    exact ⟨_, .changed comes isStored sameKey (not_matches_of_unreadable unreadable old), rfl⟩
  · push Not at known
    exact ⟨_, .new comes known, rfl⟩

/-- From the very same facts, exactly those with an unreadable fingerprint differ. -/
theorem differs_self_iff (distinct : (incoming.map (·.key)).Nodup) {entry : Entry}
    : Differs unit incoming incoming entry
      ↔ ∃ fact ∈ incoming,
          fact.fingerprint = some .unreadable ∧ entry = ⟨.changed, ⟨fact, unit⟩⟩ := by
  constructor
  · intro differs
    cases differs with
    | new comes unknown => exact absurd rfl (unknown _ comes)
    | removed known absent => exact absurd rfl (absent _ known)
    | @changed fact old comes known sameKey different =>
        obtain rfl := List.inj_on_of_nodup_map distinct known comes sameKey
        refine ⟨old, comes, ?_, rfl⟩
        by_contra readable
        exact different (matches_self readable)
  · intro given
    obtain ⟨fact, comes, unreadable, rfl⟩ := given
    exact .changed comes comes rfl (not_matches_of_unreadable unreadable fact)

/-- A definition among facts that come in again is listed again: its fingerprint is unreadable, or
some other fact with an unreadable fingerprint widens to it.
-/
def ListedAgain (granularity : Granularity) (unit : UnitName) (facts : List Fact) (fact : Fact) :
    Prop :=
  fact.isDefinition = true
  ∧ (fact.fingerprint = some .unreadable
    ∨ ∃ cause ∈ facts,
        cause.fingerprint = some .unreadable
        ∧ match granularity with
          | .coarse => True
          | .fineGrained =>
              fact.key = .wholeUnit .interface unit
              ∧ cause.key.isInterface = true
              ∧ cause.key.isWholeUnit = false)

-----------------------------------------------------------------------------------------
-- What is stored
-----------------------------------------------------------------------------------------

/-- Replacing the facts of a unit settles it: they are stored last, and what is dropped after that
has other keys.
-/
theorem settledAt_replaced (indexed : store.Indexed) (distinct : (incoming.map (·.key)).Nodup)
    : (replaced store unit incoming).SettledAt unit := by
  have current : (replaced store unit incoming).factsOf unit = incoming := by
    rw [factsOf_replaced indexed.toSynced distinct, if_pos rfl]
  have stored := indexed.putAll unit incoming
  have kept {fact : Fact} (comes : fact ∈ incoming)
      : fact.key ∉ (removedFacts store unit incoming).map (·.key) := by
    intro removed
    obtain ⟨old, isRemoved, sameKey⟩ := List.mem_map.1 removed
    exact (mem_removedFacts.1 isRemoved).2 fact comes sameKey.symm
  constructor
  · intro fact owned isUse
    rw [current] at owned
    refine ⟨(store.users.values fact.key).erase unit, ?_⟩
    refine (stored.users_dropAll_of_notMem (kept owned)).trans ?_
    rw [indexed.users_putAll_of_mem distinct owned, isUse]
    rfl
  · intro target
    have gone
        : ((store.dependents.values ⟨target, unit⟩).filter (· ∉ incoming.map (·.key))).filter
            (· ∉ (removedFacts store unit incoming).map (·.key)) = [] := by
      apply List.filter_eq_nil_iff.2
      intro key listed
      obtain ⟨isDependent, absent⟩ := List.mem_filter.1 listed
      obtain ⟨old, owned, rfl, -⟩ := indexed.dependents.1 isDependent
      have removed : old ∈ removedFacts store unit incoming :=
        mem_removedFacts.2 ⟨owned, by simpa using absent⟩
      simpa using ⟨old, removed, rfl⟩
    refine (stored.dependents_dropAll target).trans ?_
    rw [indexed.dependents_putAll distinct, List.filter_append, gone, List.nil_append, current]
    apply List.filter_eq_self.2
    intro key listed
    obtain ⟨fact, comes, rfl⟩ := List.mem_map.1 listed
    exact decide_eq_true (kept (List.mem_of_mem_filter comes))

/-- An integration settles its unit. -/
theorem settledAt_run (ran : run store externals granularity unit incoming = first)
    (indexed : store.Indexed) (distinct : (incoming.map (·.key)).Nodup)
    : first.store.SettledAt unit := by
  subst ran
  obtain ⟨users, dependents⟩ := settledAt_replaced indexed distinct
  exact ⟨users, dependents⟩

section

variable (ran : run store externals granularity unit incoming = first)
  (indexed : store.Indexed) (distinct : (incoming.map (·.key)).Nodup)

include ran indexed distinct

theorem removedFacts_again : removedFacts first.store unit incoming = [] := by
  apply List.filter_eq_nil_iff.2
  intro old owned
  rw [run_factsOf_self ran indexed.toSynced distinct] at owned
  simpa using ⟨old, owned, rfl⟩

/-- What is stored is not changed by replacing it with itself. -/
theorem replaced_again_alike
    : (replaced first.store unit incoming).Alike first.store := by
  have current : first.store.factsOf unit = incoming :=
    run_factsOf_self ran indexed.toSynced distinct
  have settled := settledAt_run ran indexed distinct
  have alike := (run_indexed ran indexed).putAll_alike settled
  rw [replaced, removedFacts_again ran indexed distinct]
  rwa [current] at alike

/-- All artifacts that the facts use are in use already, and no fact is removed. -/
theorem externals_again
    (again : run first.store first.externals granularity unit incoming = second)
    (inUse : ∀ fact ∈ incoming, ∀ path ∈ usedPath? fact, first.externals.contains path)
    : second.invalidated.discovered = [] ∧ second.externals = first.externals := by
  have nothing
      : (incoming.filterMap usedPath?).filter (!first.externals.contains ·) = [] := by
    apply List.filter_eq_nil_iff.2
    intro path used
    obtain ⟨fact, comes, isPath⟩ := List.mem_filterMap.1 used
    simpa using inUse fact comes path isPath
  subst again
  simp only [run, nothing, removedFacts_again ran indexed distinct, List.foldl_nil, and_self]

theorem alike_again
    (again : run first.store first.externals granularity unit incoming = second)
    : second.store.Alike first.store :=
  (run_alike_replaced again).trans (replaced_again_alike ran indexed distinct)

end

-----------------------------------------------------------------------------------------
-- What is listed
-----------------------------------------------------------------------------------------

section

variable {snapshot : Snapshot}
  (ran : run store externals granularity snapshot.unit incoming = first)
  (again : run first.store first.externals granularity snapshot.unit incoming = second)
  (normal : snapshot.normalForm = .ok incoming)

include ran again normal

/-- Listed again are the definitions for which an unreadable fingerprint calls. -/
theorem mem_entries_again_iff (indexed : store.Indexed) {entry : Entry}
    : entry ∈ second.invalidated.entries
      ↔ ∃ fact ∈ incoming,
          ListedAgain granularity snapshot.unit incoming fact
          ∧ entry = ⟨.changed, ⟨fact, snapshot.unit⟩⟩ := by
  have distinct := Snapshot.keys_nodup_of_normalForm normal
  have edges : EdgesDistinct incoming := fun _ => Snapshot.dependsOn_nodup_of_normalForm normal
  have current : first.store.factsOf snapshot.unit = incoming :=
    run_factsOf_self ran indexed.toSynced distinct
  have afterIndexed := run_indexed ran indexed
  rw [mem_run_entries_iff again normal afterIndexed.toSynced (current ▸ edges), current]
  constructor
  · intro owed
    cases owed with
    | differs differs =>
        obtain ⟨fact, comes, unreadable, rfl⟩ := (differs_self_iff distinct).1 differs
        have isDefinition := isDefinition_of_unreadable normal comes unreadable
        exact ⟨fact, comes, ⟨isDefinition, .inl unreadable⟩, rfl⟩
    | @widened fact _ comes _ _ _ widens =>
        refine ⟨fact, comes, ⟨widens.1, .inr ?_⟩, rfl⟩
        cases granularity with
        | coarse =>
            obtain ⟨-, entry, differs⟩ := widens
            obtain ⟨cause, causes, unreadable, -⟩ := (differs_self_iff distinct).1 differs
            exact ⟨cause, causes, unreadable, trivial⟩
        | fineGrained =>
            obtain ⟨-, isCatchAll, entry, differs, -, shown, particular⟩ := widens
            obtain ⟨cause, causes, unreadable, rfl⟩ := (differs_self_iff distinct).1 differs
            exact ⟨cause, causes, unreadable, isCatchAll, shown, particular⟩
  · intro given
    obtain ⟨fact, comes, ⟨isDefinition, reason⟩, rfl⟩ := given
    by_cases unreadable : fact.fingerprint = some .unreadable
    · exact .differs ((differs_self_iff distinct).2 ⟨fact, comes, unreadable, rfl⟩)
    · refine .widened comes comes rfl (matches_self unreadable) ⟨isDefinition, ?_⟩
      obtain ⟨cause, causes, causeUnreadable, widens⟩ := reason.resolve_left unreadable
      have differs
          : Differs snapshot.unit incoming incoming ⟨.changed, ⟨cause, snapshot.unit⟩⟩ :=
        (differs_self_iff distinct).2 ⟨cause, causes, causeUnreadable, rfl⟩
      cases granularity with
      | coarse => exact ⟨_, differs⟩
      | fineGrained =>
          obtain ⟨isCatchAll, shown, particular⟩ := widens
          have provided := isDefinition_of_unreadable normal causes causeUnreadable
          exact ⟨isCatchAll, _, differs, provided, shown, particular⟩

/-- What is listed again was listed the first time: unreadable fingerprints matched nothing then,
and widened to the same definitions.
-/
theorem nodes_again_subset (indexed : store.Indexed)
    (oldEdges : EdgesDistinct (store.factsOf snapshot.unit))
    : second.invalidated.nodes ⊆ first.invalidated.nodes := by
  intro node listed
  obtain ⟨entry, member, rfl⟩ := List.mem_map.1 listed
  obtain ⟨fact, comes, ⟨isDefinition, reason⟩, rfl⟩ :=
    (mem_entries_again_iff ran again normal indexed).1 member
  rcases reason with unreadable | ⟨cause, causes, unreadable, widens⟩
  · obtain ⟨entry, differs, isFact⟩ := exists_differs_of_unreadable comes unreadable
    exact List.mem_map.2 ⟨entry,
      (mem_run_entries_iff ran normal indexed.toSynced oldEdges).2 (.differs differs), isFact⟩
  · obtain ⟨entry, differs, isCause⟩ := exists_differs_of_unreadable causes unreadable
    apply mem_nodes_of_widensTo ran normal indexed.toSynced oldEdges comes
    refine ⟨isDefinition, ?_⟩
    cases granularity with
    | coarse => exact ⟨entry, differs⟩
    | fineGrained =>
        obtain ⟨isCatchAll, shown, particular⟩ := widens
        have provided := isDefinition_of_unreadable normal causes unreadable
        refine ⟨isCatchAll, entry, differs, ?_⟩
        rw [isCause]
        exact ⟨provided, shown, particular⟩

-----------------------------------------------------------------------------------------
-- What is marked
-----------------------------------------------------------------------------------------

/-- The second integration meets no mark: its unit is not marked, and neither is anything beyond
what it lists.
-/
theorem marked_again (indexed : store.Indexed) (marksStored : store.MarksStored)
    (oldEdges : EdgesDistinct (store.factsOf snapshot.unit))
    : second.store.marked = first.store.marked := by
  have distinct := Snapshot.keys_nodup_of_normalForm normal
  have elsewhere (ref : NodeRef) (marked : ref ∈ first.store.marked)
      : ref.unit ≠ snapshot.unit := fun own =>
    not_marked_of_unit ran indexed.toSynced marksStored own marked
  have clear := run_clearBeyond ran indexed distinct marksStored
  let settled := (replaced first.store snapshot.unit incoming).unmarkUnit snapshot.unit
  have sameMoves : settled.Alike first.store :=
    (Store.alike_withMarks _ _).trans (replaced_again_alike ran indexed distinct)
  have kept : settled.marked = first.store.marked := by
    have stored : (replaced first.store snapshot.unit incoming).marked = first.store.marked := by
      rw [replaced, removedFacts_again ran indexed distinct]
      exact Store.marked_putAll_of_elsewhere elsewhere incoming
    refine (Store.marked_unmark_of_disjoint fun ref marked listed => ?_).trans stored
    obtain ⟨fact, -, rfl⟩ := List.mem_map.1 listed
    exact elsewhere _ (stored ▸ marked) rfl
  rw [run_store again]
  refine (Store.marked_unmark_of_disjoint fun ref marked discovered => ?_).trans kept
  rw [sameMoves.discover] at discovered
  refine clear.reached ref ?_ (kept ▸ marked)
  refine ((Store.mem_discover_iff.1 discovered).mono fun _ _ _ _ => trivial).of_starts ?_
  intro start isStart
  obtain ⟨listed, provided⟩ := List.mem_filter.1 isStart
  have listedBefore := nodes_again_subset ran again normal indexed oldEdges listed
  exact .inl (List.mem_filter.2 ⟨listedBefore, provided⟩)

end

end Invalidation.Integration
