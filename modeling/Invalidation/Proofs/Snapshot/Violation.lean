import Invalidation.Proofs.Snapshot.Contract

/-! What a violation says of the snapshot that is refused for it. The nodes are looked at in order,
and the first one that is not acceptable after those before it decides on the violation.
-/

namespace Invalidation.Snapshot

-----------------------------------------------------------------------------------------
-- What a violation says
-----------------------------------------------------------------------------------------

/-- A number names the node that stands at its place and carries it. -/
def NamesNode (snapshot : Snapshot) (number : Nat) (node : Node) : Prop :=
  snapshot.nodes[number]? = some node ∧ node.sequence = number

/-- The node at a place defines a key. -/
def DefinesAt (snapshot : Snapshot) (place : Nat) (key : Key) : Prop :=
  ∃ node, snapshot.nodes[place]? = some node ∧ node.key = key ∧ node.role = .definition

/-- The node at a place is missing, or its key is no unit's catch-all key of an aspect. -/
def LacksCatchAll (snapshot : Snapshot) (place : Nat) (aspect : Aspect) : Prop :=
  ∀ node, snapshot.nodes[place]? = some node → ∀ unit, node.key ≠ .wholeUnit aspect unit

/-- The node at a place is a use of the unit's own catch-all fact of an aspect. -/
def UsesCatchAll (snapshot : Snapshot) (place : Nat) (aspect : Aspect) : Prop :=
  ∃ node,
    snapshot.nodes[place]? = some node
    ∧ node.key = .wholeUnit aspect snapshot.unit
    ∧ node.role ≠ .definition

/-- The unit's own catch-all fact is used where it has to be defined: in the first place, or in the
second one after the definition in the first.
-/
def BeginsByUse (snapshot : Snapshot) : Prop :=
  snapshot.UsesCatchAll 0 .interface
  ∨ snapshot.DefinesCatchAll 0 .interface ∧ snapshot.UsesCatchAll 1 .implementation

/-- A snapshot commits a violation if what the violation says is true of it. -/
def Commits (snapshot : Snapshot) : Violation → Prop
  | .misplacedWholeUnit place =>
      place = 0 ∧ snapshot.LacksCatchAll 0 .interface
      ∨ place = 1 ∧ snapshot.LacksCatchAll 1 .implementation
      ∨ 1 < place ∧ ∃ aspect, snapshot.DefinesCatchAll place aspect
  | .sequenceMismatch index sequence =>
      sequence ≠ index ∧ ∃ node, snapshot.nodes[index]? = some node ∧ node.sequence = sequence
  | .danglingEdge place target =>
      snapshot.nodes.length ≤ target
      ∧ ∃ node, snapshot.NamesNode place node ∧ target ∈ node.dependsOn
  | .useBeforeDefinition place =>
      ∃ use,
        snapshot.NamesNode place use
        ∧ use.role ≠ .definition
        ∧ (∃ definer, snapshot.DefinesAt definer use.key)
        ∧ ∀ definer, snapshot.DefinesAt definer use.key → place < definer
  | .fingerprintedUse place =>
      ∃ use, snapshot.NamesNode place use ∧ use.role ≠ .definition ∧ use.fingerprint ≠ none
  | .duplicateDefinition place =>
      ∃ node,
        snapshot.NamesNode place node
        ∧ node.role = .definition
        ∧ ∃ earlier < place, snapshot.DefinesAt earlier node.key
  | .malformedDesignator kind malformation =>
      kind = .externalDepend
      ∧ malformation = .privateExternal
      ∧ ∃ node ∈ snapshot.nodes, ∃ path, node.key = ⟨.implementation, .externalDepend path⟩
  | .unitMismatch expected found =>
      expected = snapshot.unit
      ∧ found ≠ snapshot.unit
      ∧ (snapshot.nodes[0]?.map (·.key) = some (.wholeUnit .interface found)
        ∨ snapshot.nodes[1]?.map (·.key) = some (.wholeUnit .implementation found))

-----------------------------------------------------------------------------------------
-- The catch-all facts
-----------------------------------------------------------------------------------------

theorem exists_eq_wholeUnit {key : Key} (catchAll : key.isWholeUnit = true)
    : ∃ unit, key = .wholeUnit key.aspect unit := by
  obtain ⟨aspect, designator⟩ := key
  cases designator with
  | sourceFileProvide name => exact ⟨name, rfl⟩
  | _ => simp [Key.isWholeUnit, Designator.kind] at catchAll

/-- A use of the unit's own catch-all fact is taken for the mark of another unit, since its key is
no less a catch-all key than theirs.
-/
theorem checkCatchAll_of_usesCatchAll {snapshot : Snapshot} {place : Nat} {aspect : Aspect}
    (uses : snapshot.UsesCatchAll place aspect)
    : snapshot.checkCatchAll place aspect
      = .error (.unitMismatch snapshot.unit snapshot.unit) := by
  obtain ⟨node, found, sameKey, isUse⟩ := uses
  have undefined : node.role.isDefinition ≠ true := isDefinition_eq_true_iff.not.2 isUse
  simp [checkCatchAll, found, sameKey, undefined, Key.wholeUnit, Key.isWholeUnit, Designator.kind,
    Designator.name?]

/-- A place without a use of the unit's own catch-all fact is refused because there is no catch-all
fact, or because it is another unit's.
-/
theorem checkCatchAll_eq_error {snapshot : Snapshot} {place : Nat} {aspect : Aspect}
    {violation : Violation} (refused : snapshot.checkCatchAll place aspect = .error violation)
    (unused : ¬snapshot.UsesCatchAll place aspect)
    : violation = .misplacedWholeUnit place ∧ snapshot.LacksCatchAll place aspect
      ∨ ∃ found,
          violation = .unitMismatch snapshot.unit found
          ∧ found ≠ snapshot.unit
          ∧ snapshot.nodes[place]?.map (·.key) = some (.wholeUnit aspect found) := by
  unfold checkCatchAll at refused
  cases present : snapshot.nodes[place]? with
  | none =>
      simp only [present, Except.error.injEq] at refused
      refine .inl ⟨refused.symm, fun node found => ?_⟩
      cases present.symm.trans found
  | some node =>
      simp only [present] at refused
      split at refused
      · cases refused
      · rename_i undefined
        split at refused
        · rename_i catchAll
          obtain ⟨found, sameKey⟩ := exists_eq_wholeUnit catchAll.2
          rw [catchAll.1] at sameKey
          simp only [sameKey, Key.wholeUnit, Designator.name?, Option.getD_some,
            Except.error.injEq] at refused
          refine .inr ⟨found, refused.symm, ?_, by rw [Option.map_some, sameKey]⟩
          rintro rfl
          refine unused ⟨node, present, sameKey, fun provided => ?_⟩
          exact undefined ⟨sameKey, isDefinition_eq_true_iff.2 provided⟩
        · rename_i other
          refine .inl ⟨(Except.error.inj refused).symm, fun known found unit sameKey => ?_⟩
          obtain rfl := Option.some.inj (present.symm.trans found)
          exact other (by simp [sameKey, Key.wholeUnit, Key.isWholeUnit, Designator.kind])

-----------------------------------------------------------------------------------------
-- The node that is refused
-----------------------------------------------------------------------------------------

/-- Why a node that is well-formed by itself is refused after the facts of the nodes before it, and
for which violation.
-/
inductive Refuses (snapshot : Snapshot) (facts : List Fact) (index : Nat) (node : Node)
    : Violation → Prop where
  | misplaced (provided : node.role = .definition) (late : 1 < index)
      (owns : snapshot.ownsWholeUnit node.key = true)
    : Refuses snapshot facts index node (.misplacedWholeUnit index)
  | duplicate (provided : node.role = .definition)
      (placed : ¬(1 < index ∧ snapshot.ownsWholeUnit node.key)) {fact : Fact}
      (member : fact ∈ facts) (sameKey : fact.key = node.key) (defined : fact.role = .definition)
    : Refuses snapshot facts index node (.duplicateDefinition index)
  | late (provided : node.role = .definition)
      (placed : ¬(1 < index ∧ snapshot.ownsWholeUnit node.key)) {fact : Fact}
      (member : fact ∈ facts) (sameKey : fact.key = node.key) (used : fact.role ≠ .definition)
    : Refuses snapshot facts index node
        (.useBeforeDefinition (snapshot.firstWith node.key index))
  | fingerprinted (isUse : node.role ≠ .definition) (carried : node.fingerprint ≠ none)
    : Refuses snapshot facts index node (.fingerprintedUse index)

theorem collapse_eq_error {snapshot : Snapshot} {facts : List Fact} {index : Nat} {node : Node}
    {violation : Violation} (refused : snapshot.collapse facts index node = .error violation)
    : snapshot.checkNode index node = .error violation
      ∨ snapshot.checkNode index node = .ok () ∧ snapshot.Refuses facts index node violation := by
  rcases bind_eq_error.1 refused with checked | ⟨_, checked, refused⟩
  · exact .inl checked
  · refine .inr ⟨checked, ?_⟩
    cases role : node.role with
    | definition =>
        simp only [role] at refused
        split at refused
        · rename_i misplaced
          obtain rfl := Except.error.inj refused
          exact .misplaced role misplaced.1 misplaced.2
        · rename_i placed
          split at refused
          · cases refused
          · rename_i fact found
            have member := List.mem_of_find?_eq_some found
            have sameKey : fact.key = node.key := by simpa using List.find?_some found
            split at refused
            · rename_i defined
              obtain rfl := Except.error.inj refused
              exact .duplicate role placed member sameKey (isDefinition_eq_true_iff.1 defined)
            · rename_i used
              obtain rfl := Except.error.inj refused
              exact .late role placed member sameKey (isDefinition_eq_true_iff.not.1 used)
    | use cascades =>
        simp only [role] at refused
        split at refused
        · rename_i carried
          obtain rfl := Except.error.inj refused
          exact .fingerprinted (by simp [role]) (Option.isSome_iff_ne_none.1 carried)
        · split at refused <;> cases refused

/-- Where nodes are refused, those before one of them collapse and it is refused after them; by
induction on the nodes.
-/
theorem exists_of_collapseFrom_eq_error {snapshot : Snapshot} {nodes : List Node} {index : Nat}
    {facts : List Fact} {violation : Violation}
    (refused : snapshot.collapseFrom index facts nodes = .error violation)
    : ∃ before node after,
        nodes = before ++ node :: after
        ∧ ∃ middle,
            snapshot.collapseFrom index facts before = .ok middle
            ∧ snapshot.collapse middle (index + before.length) node = .error violation := by
  induction nodes generalizing index facts with
  | nil => cases refused
  | cons head rest ih =>
      rcases bind_eq_error.1 refused with first | ⟨next, first, later⟩
      · exact ⟨[], head, rest, rfl, facts, rfl, first⟩
      · obtain ⟨before, node, after, rfl, middle, collapsed, failed⟩ := ih later
        refine ⟨head :: before, node, after, rfl, middle, bind_eq_ok.2 ⟨next, first, collapsed⟩, ?_⟩
        rw [List.length_cons, Nat.add_comm before.length, ← Nat.add_assoc]
        exact failed

/-- An element of a list stands after as many others as its place says. -/
theorem exists_split_of_getElem? {α : Type} {list : List α} {place : Nat} {x : α}
    (found : list[place]? = some x)
    : ∃ before after, list = before ++ x :: after ∧ before.length = place := by
  obtain ⟨inside, rfl⟩ := List.getElem?_eq_some_iff.1 found
  refine ⟨list.take place, list.drop (place + 1), ?_, ?_⟩
  · rw [← List.drop_eq_getElem_cons inside, List.take_append_drop]
  · rw [List.length_take, Nat.min_eq_left (Nat.le_of_lt inside)]

/-- A snapshot reaches a node when the nodes before it collapse. -/
structure Reaches (snapshot : Snapshot) (before : List Node) (node : Node) (facts : List Fact)
    : Prop where
  split : ∃ after, snapshot.nodes = before ++ node :: after
  collapsed : snapshot.collapseFrom 0 [] before = .ok facts

/-- A snapshot is refused for one of its catch-all facts, or else for the first node that is not
acceptable after those before it.
-/
theorem normalForm_eq_error {snapshot : Snapshot} {violation : Violation}
    (refused : snapshot.normalForm = .error violation)
    : snapshot.checkCatchAll 0 .interface = .error violation
      ∨ snapshot.DefinesCatchAll 0 .interface
        ∧ (snapshot.checkCatchAll 1 .implementation = .error violation
          ∨ snapshot.DefinesCatchAll 1 .implementation
            ∧ ∃ before node facts,
                snapshot.Reaches before node facts
                ∧ snapshot.collapse facts before.length node = .error violation) := by
  rcases bind_eq_error.1 refused with first | ⟨_, first, refused⟩
  · exact .inl first
  · refine .inr ⟨checkCatchAll_eq_ok_iff.1 first, ?_⟩
    rcases bind_eq_error.1 refused with second | ⟨_, second, refused⟩
    · exact .inl second
    · refine .inr ⟨checkCatchAll_eq_ok_iff.1 second, ?_⟩
      rcases bind_eq_error.1 refused with refused | ⟨_, _, given⟩
      · obtain ⟨before, node, after, split, facts, collapsed, failed⟩ :=
          exists_of_collapseFrom_eq_error refused
        rw [Nat.zero_add] at failed
        exact ⟨before, node, facts, ⟨⟨after, split⟩, collapsed⟩, failed⟩
      · cases given

namespace Reaches

variable {snapshot : Snapshot} {before : List Node} {node : Node} {facts : List Fact}

theorem getElem?_of_before (reaches : snapshot.Reaches before node facts) {place : Nat}
    (early : place < before.length)
    : snapshot.nodes[place]? = before[place]? := by
  obtain ⟨after, split⟩ := reaches.split
  rw [split, List.getElem?_append_left early]

theorem getElem?_length (reaches : snapshot.Reaches before node facts)
    : snapshot.nodes[before.length]? = some node := by
  obtain ⟨after, split⟩ := reaches.split
  rw [split, List.getElem?_append_right (Nat.le_refl _), Nat.sub_self, List.getElem?_cons_zero]

/-- The nodes before one that is reached carry the numbers of their places. -/
theorem sequence_eq (reaches : snapshot.Reaches before node facts) {place : Nat} {known : Node}
    (found : before[place]? = some known)
    : known.sequence = place := by
  obtain ⟨earlier, later, split, rfl⟩ := exists_split_of_getElem? found
  have acceptable := (collapseFrom_eq_ok_iff.1 reaches.collapsed).1 _ _ _ split
  rw [Nat.zero_add] at acceptable
  exact (checkNode_eq_ok_iff.1 acceptable.checked).1

theorem gathers (reaches : snapshot.Reaches before node facts)
    : Gathers before facts := by
  have nothing : Gathers [] [] := ⟨rfl, nofun⟩
  exact nothing.collapseFrom reaches.collapsed

/-- A fact that is a definition is one by a node before. -/
theorem exists_definesAt (reaches : snapshot.Reaches before node facts) {fact : Fact}
    (member : fact ∈ facts) (defined : fact.role = .definition)
    : ∃ earlier < before.length, snapshot.DefinesAt earlier fact.key := by
  by_contra absent
  have unprovided : ∀ known ∈ before, known.key = fact.key → known.role ≠ .definition := by
    intro known isBefore sameKey provided
    obtain ⟨place, early, rfl⟩ := List.mem_iff_getElem.1 isBefore
    refine absent ⟨place, early, before[place], ?_, sameKey, provided⟩
    rw [reaches.getElem?_of_before early, List.getElem?_eq_getElem early]
  obtain ⟨-, cascades, isUse, -⟩ := (reaches.gathers.sums fact member).used unprovided
  cases defined.symm.trans isUse

/-- The first node with the key of a fact is one of those before. -/
theorem exists_first (reaches : snapshot.Reaches before node facts) {fact : Fact}
    (member : fact ∈ facts) (standard : Nat)
    : ∃ place < before.length,
        snapshot.firstWith fact.key standard = place
        ∧ (∃ use, before[place]? = some use ∧ use.key = fact.key)
        ∧ ∀ earlier < place, ∀ other, before[earlier]? = some other → other.key ≠ fact.key := by
  obtain ⟨known, isBefore, sameKey⟩ := reaches.gathers.exists_iff.1 ⟨fact, member, rfl⟩
  have present : (before.find? (·.key = fact.key)).isSome := by
    rw [List.find?_isSome]
    exact ⟨known, isBefore, by simpa using sameKey⟩
  obtain ⟨use, isFirst⟩ := Option.isSome_iff_exists.1 present
  obtain ⟨isKey, place, early, atPlace, others⟩ := List.find?_eq_some_iff_getElem.1 isFirst
  have found : before[place]? = some use := by rw [List.getElem?_eq_getElem early, atPlace]
  refine ⟨place, early, ?_, ⟨use, found, by simpa using isKey⟩, ?_⟩
  · obtain ⟨after, split⟩ := reaches.split
    rw [firstWith, split, List.find?_append, isFirst, Option.some_or]
    exact reaches.sequence_eq found
  · intro earlier sooner other atEarlier
    obtain ⟨inside, rfl⟩ := List.getElem?_eq_some_iff.1 atEarlier
    simpa using others earlier sooner

/-- A fact that is a use stands for uses only, the first of which is the first node with its key. -/
theorem exists_firstWith (reaches : snapshot.Reaches before node facts) {fact : Fact}
    (member : fact ∈ facts) (used : fact.role ≠ .definition) (standard : Nat)
    : ∃ use,
        snapshot.NamesNode (snapshot.firstWith fact.key standard) use
        ∧ use.key = fact.key
        ∧ use.role ≠ .definition
        ∧ ∀ definer,
            snapshot.DefinesAt definer fact.key
            → snapshot.firstWith fact.key standard < definer := by
  obtain ⟨place, early, isPlace, ⟨use, found, isKey⟩, others⟩ :=
    reaches.exists_first member standard
  have unprovided : use.role ≠ .definition := fun provided =>
    used ((reaches.gathers.sums fact member).defined use (List.mem_of_getElem? found) isKey
      provided).1
  have atSnapshot : snapshot.nodes[place]? = some use := by
    rw [reaches.getElem?_of_before early, found]
  have names : snapshot.NamesNode place use := ⟨atSnapshot, reaches.sequence_eq found⟩
  rw [isPlace]
  refine ⟨use, names, isKey, unprovided, fun definer defines => ?_⟩
  obtain ⟨provider, atDefiner, providerKey, provided⟩ := defines
  rcases Nat.lt_trichotomy place definer with later | same | sooner
  · exact later
  · rw [← same, atSnapshot, Option.some.injEq] at atDefiner
    exact absurd (atDefiner ▸ provided) unprovided
  · rw [reaches.getElem?_of_before (Nat.lt_trans sooner early)] at atDefiner
    exact absurd providerKey (others definer sooner provider atDefiner)

end Reaches

-----------------------------------------------------------------------------------------
-- True violations
-----------------------------------------------------------------------------------------

/-- What is said of a node by itself is true of it. -/
theorem commits_of_checkNode {snapshot : Snapshot} {place : Nat} {node : Node}
    {violation : Violation} (found : snapshot.nodes[place]? = some node)
    (refused : snapshot.checkNode place node = .error violation)
    : snapshot.Commits violation := by
  unfold checkNode at refused
  by_cases numbered : node.sequence = place
  · simp only [numbered, ne_eq, not_true_eq_false, ↓reduceIte] at refused
    split at refused
    · rename_i target dangling
      obtain rfl := Except.error.inj refused
      have outside : snapshot.nodes.length ≤ target := by simpa using List.find?_some dangling
      exact ⟨outside, node, ⟨found, numbered⟩, List.mem_of_find?_eq_some dangling⟩
    · split at refused
      · rename_i hidden
        obtain rfl := Except.error.inj refused
        exact ⟨rfl, rfl, node, List.mem_of_getElem? found, private_artifact_iff.1 hidden⟩
      · cases refused
  · simp only [ne_eq, numbered, not_false_eq_true, ↓reduceIte, Except.error.injEq] at refused
    rw [← refused]
    exact ⟨numbered, node, found, rfl⟩

/-- What is said of a node after those before it is true, one case for each reason. -/
theorem Reaches.commits {snapshot : Snapshot} {before : List Node} {node : Node}
    {facts : List Fact} {violation : Violation} (reaches : snapshot.Reaches before node facts)
    (refused : snapshot.collapse facts before.length node = .error violation)
    : snapshot.Commits violation := by
  have found := reaches.getElem?_length
  rcases collapse_eq_error refused with alone | ⟨checked, refuses⟩
  · exact commits_of_checkNode found alone
  · have names : snapshot.NamesNode before.length node :=
      ⟨found, (checkNode_eq_ok_iff.1 checked).1⟩
    cases refuses with
    | misplaced provided late owns =>
        obtain ⟨aspect, sameKey⟩ := exists_eq_wholeUnit_of_owns owns
        exact .inr (.inr ⟨late, aspect, node, found, sameKey, provided⟩)
    | duplicate provided _ member sameKey defined =>
        obtain ⟨earlier, isBefore, defines⟩ := reaches.exists_definesAt member defined
        rw [sameKey] at defines
        exact ⟨node, names, provided, earlier, isBefore, defines⟩
    | late provided _ member sameKey used =>
        have first := reaches.exists_firstWith member used before.length
        rw [sameKey] at first
        obtain ⟨use, namesUse, useKey, isUse, others⟩ := first
        rw [← useKey] at others namesUse
        rw [← useKey]
        exact ⟨use, namesUse, isUse, ⟨before.length, node, found, useKey.symm, provided⟩, others⟩
    | fingerprinted isUse carried => exact ⟨node, names, isUse, carried⟩

theorem not_definesCatchAll_of_uses {snapshot : Snapshot} {place : Nat} {aspect : Aspect}
    (uses : snapshot.UsesCatchAll place aspect)
    : ¬snapshot.DefinesCatchAll place aspect := by
  intro defines
  have accepted := checkCatchAll_eq_ok_iff.2 defines
  cases accepted.symm.trans (checkCatchAll_of_usesCatchAll uses)

/-- A snapshot that begins by a use is refused as if its own unit were another one. -/
theorem BeginsByUse.normalForm_eq {snapshot : Snapshot} (begins : snapshot.BeginsByUse)
    : snapshot.normalForm = .error (.unitMismatch snapshot.unit snapshot.unit) := by
  rcases begins with first | ⟨first, second⟩
  · exact bind_eq_error.2 (.inl (checkCatchAll_of_usesCatchAll first))
  · refine bind_eq_error.2 (.inr ⟨(), checkCatchAll_eq_ok_iff.2 first, ?_⟩)
    exact bind_eq_error.2 (.inl (checkCatchAll_of_usesCatchAll second))

/-- A snapshot that is refused commits the violation that it is refused for, unless it begins by a
use of its own catch-all fact: then it is said to belong to another unit, by the name of its own.
-/
theorem violation_true_unless_begins_by_use {snapshot : Snapshot} {violation : Violation}
    (refused : snapshot.normalForm = .error violation)
    : (¬snapshot.BeginsByUse → snapshot.Commits violation)
      ∧ (snapshot.BeginsByUse → violation = .unitMismatch snapshot.unit snapshot.unit) := by
  constructor
  · intro begins
    rcases normalForm_eq_error refused with first | ⟨defines, second | ⟨-, node⟩⟩
    · have unused : ¬snapshot.UsesCatchAll 0 .interface := fun uses => begins (.inl uses)
      rcases checkCatchAll_eq_error first unused with ⟨rfl, lacks⟩ | ⟨found, rfl, other, carried⟩
      · exact .inl ⟨rfl, lacks⟩
      · exact ⟨rfl, other, .inl carried⟩
    · have unused : ¬snapshot.UsesCatchAll 1 .implementation := fun uses =>
        begins (.inr ⟨defines, uses⟩)
      rcases checkCatchAll_eq_error second unused with ⟨rfl, lacks⟩ | ⟨found, rfl, other, carried⟩
      · exact .inr (.inl ⟨rfl, lacks⟩)
      · exact ⟨rfl, other, .inr carried⟩
    · obtain ⟨before, node, facts, reaches, failed⟩ := node
      exact reaches.commits failed
  · intro begins
    exact Except.error.inj (refused.symm.trans begins.normalForm_eq)

/-- A snapshot that uses a key twice before it defines the key, and another key in between. -/
def lateDefinition : Snapshot :=
  ((((start "u0").consume (.interface (.topLevel "late")) true).define
    (.interface (.topLevel "early")) none).consume
    (.interface (.topLevel "late")) false).define (.interface (.topLevel "late")) none

/-- The violation names the first of the two uses. -/
theorem first_use_named_in_lateDefinition
    : lateDefinition.normalForm = .error (.useBeforeDefinition 2)
      ∧ lateDefinition.Commits (.useBeforeDefinition 2) := by
  have refused : lateDefinition.normalForm = .error (.useBeforeDefinition 2) := by decide +kernel
  have defines : lateDefinition.DefinesCatchAll 0 .interface := ⟨_, rfl, rfl, rfl⟩
  have second : lateDefinition.DefinesCatchAll 1 .implementation := ⟨_, rfl, rfl, rfl⟩
  refine ⟨refused, (violation_true_unless_begins_by_use refused).1 ?_⟩
  intro begins
  rcases begins with uses | ⟨-, uses⟩
  · exact not_definesCatchAll_of_uses uses defines
  · exact not_definesCatchAll_of_uses uses second

/-- A snapshot that begins by a use of its own catch-all fact. -/
def usedForDefined : Snapshot :=
  ⟨"u0",
    [⟨.wholeUnit .interface "u0", none, 0, [], .use true⟩,
      ⟨.wholeUnit .implementation "u0", none, 1, [], .definition⟩]⟩

/-- The violation says that the unit is not the unit. -/
theorem own_unit_mistaken_for_other
    : ¬∀ (snapshot : Snapshot) (violation : Violation),
        snapshot.normalForm = .error violation → snapshot.Commits violation := by
  intro always
  have uses : usedForDefined.UsesCatchAll 0 .interface := ⟨_, rfl, rfl, nofun⟩
  have commits := always usedForDefined _ (BeginsByUse.normalForm_eq (.inl uses))
  exact commits.2.1 rfl

end Invalidation.Snapshot
