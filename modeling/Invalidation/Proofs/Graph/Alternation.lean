import Invalidation.Proofs.Graph.History
import Invalidation.Proofs.Integration.Flip

/-! Rounds in which the snapshots of a unit alternate between two that differ in the fingerprints of
definitions only. Every round affects the same units, however many there are and whatever is asked
between them.
-/

namespace Invalidation

-----------------------------------------------------------------------------------------
-- One round
-----------------------------------------------------------------------------------------

namespace Graph

variable {graph : Graph} {snapshot : Snapshot} {invalidated : Invalidated} {incoming : List Fact}

/-- A round that changes fingerprints only affects no unit if nothing is invalidated, and otherwise
the unit itself and the owners of all that is reached from the definitions it bears on. What is
reached may be said of any store of the same shape.
-/
theorem mem_affected_iff_of_flip (reachable : graph.Reachable)
    (incremental : graph.options.incremental = true)
    (accepted : (graph.integrate snapshot).answer = .ok invalidated)
    (flip : Integration.Flip graph.store snapshot incoming) {base : Store}
    (shape : base.SameShape graph.store) (baseSynced : base.Synced) {starts : List Node}
    (sameStarts
      : starts.map Node.bare
        = (Integration.flipped graph.options.granularity snapshot.unit incoming
            (graph.store.factsOf snapshot.unit)).map Node.bare)
    : (invalidated.entries = [] ↔ starts = [])
      ∧ ∀ unit,
          unit ∈ ((graph.integrate snapshot).graph.affectedByChanges invalidated).answer
          ↔ starts ≠ []
            ∧ (unit = snapshot.unit
              ∨ ∃ ref,
                  ref.unit = unit
                  ∧ base.Reached base.ReverseStep (fun _ => True) starts ref) := by
  obtain ⟨facts, normal, rfl, -⟩ := integrate_answer_eq_ok_iff.1 accepted
  obtain rfl : incoming = facts := Except.ok.inj (flip.normal.symm.trans normal)
  have nothing
      : (graph.integration snapshot.unit incoming).invalidated.entries = [] ↔ starts = [] := by
    rw [integration, flip.entries_eq_nil_iff rfl, ← List.map_eq_nil_iff, ← sameStarts,
      List.map_eq_nil_iff]
  refine ⟨nothing, fun unit => ?_⟩
  rw [mem_affected_iff reachable incremental accepted, integrate_graph normal]
  dsimp only
  rw [integration, flip.finds_iff rfl shape baseSynced sameStarts, ← integration, Ne, nothing]
  constructor
  · intro given
    rcases given with ⟨nonempty, same⟩ | ⟨ref, owner, reached⟩
    · exact ⟨nonempty, .inl same⟩
    · obtain ⟨start, isStart⟩ := reached.exists_start
      exact ⟨List.ne_nil_of_mem isStart, .inr ⟨ref, owner, reached⟩⟩
  · intro given
    obtain ⟨nonempty, same | reached⟩ := given
    · exact .inl ⟨nonempty, same⟩
    · exact .inr reached

-----------------------------------------------------------------------------------------
-- The way back is accepted
-----------------------------------------------------------------------------------------

/-- A check succeeds in a graph of the same shape as one in which it does, if no unit is new, uses
carry no fingerprints and no artifact went out of use.
-/
theorem check_of_sameShape {left right : Graph} (leftIndexed : left.store.Indexed)
    (rightIndexed : right.store.Indexed) (checked : left.check = .ok ())
    (shape : left.store.SameShape right.store)
    (known : ∀ unit ∈ right.store.unitNames, unit ∈ left.store.unitNames)
    (bareUses
      : ∀ unit ∈ right.store.unitNames,
          ∀ fact ∈ right.store.factsOf unit, fact.isDefinition = false → fact.fingerprint = none)
    (inUse : ∀ path, left.externals.contains path → right.externals.contains path)
    : right.check = .ok () := by
  rw [check_eq_ok_iff leftIndexed] at checked
  rw [check_eq_ok_iff rightIndexed]
  intro unit isKnown
  obtain ⟨catchAlls, inOrder⟩ := checked unit (known unit isKnown)
  refine ⟨fun aspect => shape.contains leftIndexed.toSynced (catchAlls aspect), fun fact owned => ?_⟩
  obtain ⟨other, otherOwned, sameBare⟩ := shape.symm.exists_fact owned
  obtain ⟨sameKey, sameRole, sameEdges⟩ := Fact.bare_eq_bare_iff.1 sameBare
  have otherInOrder := inOrder other otherOwned
  refine ⟨bareUses unit isKnown fact owned, fun target edge => ?_, fun path used => ?_⟩
  · exact shape.contains leftIndexed.toSynced (otherInOrder.targets target (sameEdges ▸ edge))
  · apply inUse path
    apply otherInOrder.external path
    rw [← used, Integration.usedPath?, Integration.usedPath?, Fact.isDefinition, Fact.isDefinition,
      sameRole, sameKey]

/-- A check that succeeds still does after fingerprints of a known unit's definitions change. -/
theorem check_integrate_of_flip (sound : graph.store.Sound)
    (flip : Integration.Flip graph.store snapshot incoming)
    (known : snapshot.unit ∈ graph.store.unitNames) (checked : graph.check = .ok ())
    : (graph.integrate snapshot).graph.check = .ok () := by
  have distinct := Snapshot.keys_nodup_of_normalForm flip.normal
  have afterIndexed := (integrate_sound sound snapshot).indexed
  rw [integrate_graph flip.normal] at afterIndexed ⊢
  generalize ran : graph.integration snapshot.unit incoming = result at afterIndexed ⊢
  have names : ∀ unit ∈ result.store.unitNames, unit ∈ graph.store.unitNames := by
    intro unit isKnown
    rcases Integration.mem_run_unitNames ran isKnown with before | rfl
    · exact before
    · exact known
  refine check_of_sameShape sound.indexed afterIndexed checked (flip.sameShape ran) names ?_ ?_
  · intro unit isKnown fact owned isUse
    rw [Integration.run_factsOf ran sound.indexed.toSynced distinct] at owned
    split at owned
    · exact Snapshot.fingerprint_eq_none_of_use flip.normal owned isUse
    · have inOrder := ((check_eq_ok_iff sound.indexed).1 checked unit (names unit isKnown)).2
      exact (inOrder fact owned).bareUse isUse
  · exact fun path inUse =>
      Integration.run_externals_of_removedFacts_eq_nil ran flip.removedFacts_eq_nil inUse

-----------------------------------------------------------------------------------------
-- Many rounds
-----------------------------------------------------------------------------------------

/-- The answers of rounds in which a unit's snapshot alternates between two. Other operations come
before each round.
-/
def alternate (graph : Graph) (next other : Snapshot)
    : List (List Operation) → List (Except Error (Invalidated × List UnitName))
  | [] => []
  | operations :: rest =>
      let outcome := (operations.foldl after graph).round next
      outcome.answer :: outcome.graph.alternate other next rest

/-- An answer lists nothing and affects no unit if a change bears on no definition. Otherwise it
affects the unit of the definitions and the owners of all that is reached from them in a store.
-/
def TellsReached (store : Store) (unit : UnitName) (starts : List Node)
    (answer : Except Error (Invalidated × List UnitName)) : Prop :=
  ∃ invalidated units,
    answer = .ok (invalidated, units)
    ∧ (invalidated.entries = [] ↔ starts = [])
    ∧ ∀ other,
        other ∈ units
        ↔ starts ≠ []
          ∧ (other = unit
            ∨ ∃ ref,
                ref.unit = other
                ∧ store.Reached store.ReverseStep (fun _ => True) starts ref)

/-- Two snapshots of a unit are the same without fingerprints, the facts of one are stored, the
other one is accepted next, and the change between them bears on the given definitions of a store
of the same shape.
-/
structure Poised (graph : Graph) (unit : UnitName) (next other : Snapshot)
    (incoming current : List Fact) (base : Store) (starts : List Node) : Prop where
  reachable : graph.Reachable
  incremental : graph.options.incremental = true
  ofUnit : next.unit = unit
  sameBare : next.bare = other.bare
  normal : next.normalForm = .ok incoming
  otherNormal : other.normalForm = .ok current
  stored : graph.store.factsOf unit = current
  accepted : ∃ invalidated, (graph.integrate next).answer = .ok invalidated
  shape : base.SameShape graph.store
  baseSynced : base.Synced
  sameStarts
    : starts.map Node.bare
      = (Integration.flipped graph.options.granularity unit incoming current).map Node.bare

namespace Poised

variable {unit : UnitName} {next other : Snapshot} {current : List Fact} {base : Store}
  {starts : List Node}

theorem flip (poised : graph.Poised unit next other incoming current base starts)
    : Integration.Flip graph.store next incoming := by
  refine .of_bare_eq poised.sameBare poised.normal ?_ poised.reachable.synced
  rw [poised.ofUnit, poised.stored, poised.otherNormal]

/-- The next round tells what the change bears on. -/
theorem tellsReached (poised : graph.Poised unit next other incoming current base starts)
    : TellsReached base unit starts (graph.round next).answer := by
  obtain ⟨invalidated, accepted⟩ := poised.accepted
  obtain ⟨nothing, affected⟩ := mem_affected_iff_of_flip poised.reachable poised.incremental
    accepted poised.flip poised.shape poised.baseSynced
    (by rw [poised.ofUnit, poised.stored, poised.sameStarts])
  rw [poised.ofUnit] at affected
  exact ⟨invalidated, _, round_answer accepted, nothing, affected⟩

theorem foldl_after (poised : graph.Poised unit next other incoming current base starts)
    {operations : List Operation}
    (queries : ∀ operation ∈ operations, operation.integrates = false)
    : (operations.foldl Graph.after graph).Poised unit next other incoming current base
        starts := by
  have alike := (graph.undisturbed_foldl_after queries).alike
  have reachable := poised.reachable.foldl_after operations
  refine { poised with
    reachable, incremental := ?_, stored := ?_, accepted := ?_, shape := ?_, sameStarts := ?_ }
  · rw [← alike.options, poised.incremental]
  · rw [← alike.store.factsOf, poised.stored]
  · rw [← alike.integrate_answer poised.reachable.sound reachable.sound]
    exact poised.accepted
  · intro unit
    rw [← alike.store.factsOf, poised.shape]
  · rw [← alike.options, poised.sameStarts]

/-- After the next snapshot is integrated the other one is poised: the way back is accepted, since
the check that may be due succeeded, and it bears on the same definitions.
-/
theorem integrate (poised : graph.Poised unit next other incoming current base starts)
    : (graph.integrate next).graph.Poised unit other next current incoming base starts := by
  have reachable := poised.reachable.after (.integrate next)
  have sameUnit : other.unit = unit := by
    have same := congrArg Snapshot.unit poised.sameBare
    exact same.symm.trans poised.ofUnit
  have stored : (graph.integrate next).graph.store.factsOf unit = incoming := by
    rw [integrate_factsOf poised.reachable.synced poised.normal, if_pos poised.ofUnit.symm]
  have shape : graph.store.SameShape (graph.integrate next).graph.store := by
    rw [integrate_graph poised.normal]
    exact poised.flip.sameShape rfl
  have sameFacts := Snapshot.map_bare_eq_of_normalForm poised.sameBare poised.normal
    poised.otherNormal
  refine {
    reachable
    incremental := by rw [integrate_options, poised.incremental]
    ofUnit := sameUnit
    sameBare := poised.sameBare.symm
    normal := poised.otherNormal
    otherNormal := poised.normal
    stored
    accepted := ?_
    shape := poised.shape.trans shape
    baseSynced := poised.baseSynced
    sameStarts := ?_
  }
  · obtain ⟨invalidated, accepted⟩ := poised.accepted
    obtain ⟨-, -, -, checked⟩ := integrate_answer_eq_ok_iff.1 accepted
    refine ⟨_, integrate_answer_eq_ok_iff.2 ⟨current, poised.otherNormal, rfl, fun verify => ?_⟩⟩
    rw [integrate_options] at verify
    have back : Integration.Flip (graph.integrate next).graph.store other current :=
      .of_bare_eq poised.sameBare.symm poised.otherNormal
        (by rw [sameUnit, stored, poised.normal]) reachable.synced
    obtain ⟨catchAll, owned, -⟩ :=
      Snapshot.provides_wholeUnit_of_normalForm poised.normal .interface
    rw [← stored, ← sameUnit] at owned
    exact check_integrate_of_flip reachable.sound back (Store.mem_unitNames_of_mem_factsOf owned)
      (checked verify)
  · rw [integrate_options, poised.sameStarts, Integration.map_bare_flipped _ _ sameFacts]

theorem round (poised : graph.Poised unit next other incoming current base starts)
    : (graph.round next).graph.Poised unit other next current incoming base starts := by
  obtain ⟨invalidated, accepted⟩ := poised.accepted
  have isQuery
      : ∀ operation ∈ [Operation.askChanges invalidated], operation.integrates = false := by
    simp [Operation.integrates]
  rw [round_graph accepted]
  exact poised.integrate.foldl_after isQuery

/-- Where snapshots are poised all rounds tell the same, by induction on the rounds. -/
theorem alternate (poised : graph.Poised unit next other incoming current base starts)
    {rounds : List (List Operation)}
    (queries : ∀ operations ∈ rounds, ∀ operation ∈ operations, operation.integrates = false)
    : ∀ answer ∈ graph.alternate next other rounds, TellsReached base unit starts answer := by
  induction rounds generalizing graph next other incoming current with
  | nil => exact fun answer member => nomatch member
  | cons operations rest ih =>
      rw [List.forall_mem_cons] at queries
      have ready := poised.foldl_after queries.1
      rw [Graph.alternate, List.forall_mem_cons]
      exact ⟨ready.tellsReached, ih ready.round queries.2⟩

end Poised

/-- If the facts of one snapshot are stored, and another one that differs in the fingerprints of
definitions only is accepted, then every round that alternates between the two answers the same,
whatever is asked and reopened between the rounds: no unit if all fingerprints agree, and otherwise
the unit itself and the owners of all that is reached, when the rounds begin, from the definitions
whose fingerprints do not agree and those to which that widens.
-/
theorem alternate_tellsReached (reachable : graph.Reachable)
    (incremental : graph.options.incremental = true) {first second : Snapshot}
    (sameBare : second.bare = first.bare)
    (stored : first.normalForm = .ok (graph.store.factsOf first.unit))
    (normal : second.normalForm = .ok incoming)
    (accepted : (graph.integrate second).answer = .ok invalidated)
    {rounds : List (List Operation)}
    (queries : ∀ operations ∈ rounds, ∀ operation ∈ operations, operation.integrates = false)
    : ∀ answer ∈ graph.alternate second first rounds,
        TellsReached graph.store first.unit
          (Integration.flipped graph.options.granularity first.unit
            (graph.store.factsOf first.unit) incoming)
          answer := by
  have poised
      : graph.Poised first.unit second first incoming (graph.store.factsOf first.unit)
          graph.store
          (Integration.flipped graph.options.granularity first.unit
            (graph.store.factsOf first.unit) incoming) := {
    reachable
    incremental
    ofUnit := by
      have same := congrArg Snapshot.unit sameBare
      exact same
    sameBare
    normal
    otherNormal := stored
    stored := rfl
    baseSynced := reachable.synced
    accepted := ⟨invalidated, accepted⟩
    shape := fun _ => rfl
    sameStarts := Integration.map_bare_flipped _ _
      (Snapshot.map_bare_eq_of_normalForm sameBare normal stored).symm
  }
  exact poised.alternate queries

/-- A snapshot with a name of the given fingerprint. -/
def fingerprinted (token : String) : Snapshot :=
  (Snapshot.start "u0").define (.interface (.topLevel "a")) (some (.digest token))

/-- A graph in which one unit provides a name with a fingerprint and another one uses it. -/
def fingerprintedAndUsed : Graph :=
  [Operation.integrate (fingerprinted "f1"),
    .integrate ((Snapshot.start "u1").consume (.interface (.topLevel "a")) true)].foldl
    after (.new {})

/-- The third of three rounds there and back affects the user of the name, although the user was
marked after the first one.
-/
theorem user_affected_by_third_flip
    : ∃ invalidated units,
        (fingerprintedAndUsed.alternate (fingerprinted "f2") (fingerprinted "f1")
            [[], [.askUnit "u0", .askUnit "u1"], [.reopen "u1"]])[2]?
          = some (.ok (invalidated, units))
        ∧ "u1" ∈ units := by
  have accepted
      : (fingerprintedAndUsed.integrate (fingerprinted "f2")).answer
        = .ok ⟨"u0",
            [⟨.changed,
                ⟨⟨.interface (.topLevel "a"), some (.digest "f2"), .definition, []⟩, "u0"⟩⟩,
              ⟨.changed, ⟨⟨.wholeUnit .interface "u0", none, .definition, []⟩, "u0"⟩⟩],
            []⟩ := by
    decide
  let incoming : List Fact :=
    [⟨.wholeUnit .interface "u0", none, .definition, []⟩,
      ⟨.wholeUnit .implementation "u0", none, .definition, []⟩,
      ⟨.interface (.topLevel "a"), some (.digest "f2"), .definition, []⟩]
  let starts :=
    Integration.flipped .fineGrained "u0" (fingerprintedAndUsed.store.factsOf "u0") incoming
  have reachable : fingerprintedAndUsed.Reachable := (Reachable.new {}).foldl_after _
  have sameBare : (fingerprinted "f2").bare = (fingerprinted "f1").bare := rfl
  have stored
      : (fingerprinted "f1").normalForm = .ok (fingerprintedAndUsed.store.factsOf "u0") := by
    decide
  have normal : (fingerprinted "f2").normalForm = .ok incoming := by decide
  have queries
      : ∀ operations ∈ [[], [.askUnit "u0", .askUnit "u1"], [.reopen "u1"]],
          ∀ operation ∈ operations, Operation.integrates operation = false := by
    decide
  have third
      : ∃ answer,
          (fingerprintedAndUsed.alternate (fingerprinted "f2") (fingerprinted "f1")
            [[], [.askUnit "u0", .askUnit "u1"], [.reopen "u1"]])[2]? = some answer :=
    ⟨_, rfl⟩
  obtain ⟨answer, isThird⟩ := third
  obtain ⟨invalidated, units, rfl, -, affected⟩ :=
    alternate_tellsReached reachable rfl sameBare stored normal accepted queries answer
      (List.mem_of_getElem? isThird)
  have found
      : (⟨.interface (.topLevel "a"), "u1"⟩ : NodeRef)
        ∈ fingerprintedAndUsed.store.discover (fun _ => true) [] starts := by
    decide
  have reached := reachable.sound.indexed.mem_discover_iff_reached.1 found
  exact ⟨invalidated, units, isThird, (affected "u1").2 ⟨by decide, .inr ⟨_, rfl, reached⟩⟩⟩

end Graph

end Invalidation
