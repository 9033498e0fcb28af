import Invalidation.Proofs.Saved.Restoration
import Invalidation.Snapshot.Shorthand

/-! How entries of the shorthand are written. Each part of an entry ends at the first place where
the separator stands that may follow it, and what is read from a text is exactly what the text
spells.
-/

namespace Invalidation.Text

-----------------------------------------------------------------------------------------
-- Cuts
-----------------------------------------------------------------------------------------

/-- A separator stands nowhere in a text. -/
def Lacks (separator text : String) : Prop := ∀ before after, text ≠ before ++ separator ++ after

/-- A text falls into what stands before and behind the first place of a separator. -/
structure CutAt (separator text front back : String) : Prop where
  joined : text = front ++ separator ++ back
  first : ∀ before after, text = before ++ separator ++ after → front.length ≤ before.length

/-- A separator that does not stand at the beginning of a row stands in the rest of it. -/
theorem cons_eq_append_iff {separator rest before after : List Char} {c : Char}
    (elsewhere : ¬separator <+: c :: rest)
    : c :: rest = before ++ separator ++ after
      ↔ ∃ others, before = c :: others ∧ rest = others ++ separator ++ after := by
  cases before with
  | nil => exact iff_of_false (fun joined => elsewhere ⟨after, joined.symm⟩) nofun
  | cons head others => simp [and_comm, eq_comm]

/-- A row of characters is cut at the first place of the separator, by induction on the row. -/
theorem cutList?_eq_some_iff {separator text front back : List Char} (present : separator ≠ [])
    : cutList? separator text = some (front, back)
      ↔ text = front ++ separator ++ back
        ∧ ∀ before after, text = before ++ separator ++ after → front.length ≤ before.length := by
  induction text generalizing front with
  | nil => simp [cutList?, present]
  | cons c rest ih =>
      rw [cutList?]
      by_cases here : separator <+: c :: rest
      · rw [if_pos (List.isPrefixOf_iff_prefix.2 here), Option.some.injEq, Prod.mk.injEq]
        obtain ⟨tail, joined⟩ := here
        rw [← joined, List.drop_left]
        constructor
        · rintro ⟨rfl, rfl⟩
          exact ⟨rfl, fun before after _ => Nat.zero_le _⟩
        · intro given
          obtain ⟨split, first⟩ := given
          obtain rfl := List.eq_nil_of_length_eq_zero (Nat.le_zero.1 (first [] tail rfl))
          exact ⟨rfl, List.append_cancel_left split⟩
      · rw [if_neg (mt List.isPrefixOf_iff_prefix.1 here), Option.map_eq_some_iff]
        simp only [cons_eq_append_iff here, Prod.exists, Prod.mk.injEq]
        constructor
        · rintro ⟨others, _, cut, rfl, rfl⟩
          obtain ⟨split, first⟩ := ih.1 cut
          refine ⟨⟨others, rfl, split⟩, ?_⟩
          rintro _ after ⟨before, rfl, occurs⟩
          exact Nat.succ_le_succ (first before after occurs)
        · rintro ⟨⟨others, rfl, split⟩, first⟩
          refine ⟨others, back, ih.2 ⟨split, fun before after occurs => ?_⟩, rfl, rfl⟩
          exact Nat.le_of_succ_le_succ (first (c :: before) after ⟨before, rfl, occurs⟩)

/-- A row of characters is not cut if the separator stands nowhere, by induction on the row. -/
theorem cutList?_eq_none_iff {separator text : List Char} (present : separator ≠ [])
    : cutList? separator text = none
      ↔ ∀ before after, text ≠ before ++ separator ++ after := by
  induction text with
  | nil => simp [cutList?, present]
  | cons c rest ih =>
      rw [cutList?]
      by_cases here : separator <+: c :: rest
      · rw [if_pos (List.isPrefixOf_iff_prefix.2 here)]
        obtain ⟨tail, joined⟩ := here
        exact iff_of_false nofun fun lacks => lacks [] tail joined.symm
      · rw [if_neg (mt List.isPrefixOf_iff_prefix.1 here), Option.map_eq_none_iff, ih]
        simp only [ne_eq, cons_eq_append_iff here, not_exists, not_and]
        exact ⟨fun lacks _ after others _ => lacks others after,
          fun lacks others after => lacks _ after others rfl⟩

theorem eq_append_iff {separator text front back : String}
    : text = front ++ separator ++ back
      ↔ text.toList = front.toList ++ separator.toList ++ back.toList := by
  rw [← String.toList_inj, String.toList_append, String.toList_append]

theorem cut?_eq_some_iff {separator text front back : String} (present : separator ≠ "")
    : cut? separator text = some (front, back) ↔ CutAt separator text front back := by
  have presentList : separator.toList ≠ [] := by simpa using present
  have asLists
      : cut? separator text = some (front, back)
        ↔ cutList? separator.toList text.toList = some (front.toList, back.toList) := by
    simp only [cut?, Option.map_eq_some_iff, Prod.exists, Prod.mk.injEq, ← String.toList_inj,
      String.toList_ofList, exists_eq_right_right, exists_eq_right]
  rw [asLists, cutList?_eq_some_iff presentList, ← eq_append_iff]
  constructor
  · intro given
    obtain ⟨joined, first⟩ := given
    refine ⟨joined, fun before after occurs => ?_⟩
    rw [← String.length_toList, ← String.length_toList]
    exact first before.toList after.toList (eq_append_iff.1 occurs)
  · intro cut
    refine ⟨cut.joined, fun before after occurs => ?_⟩
    rw [String.length_toList, ← String.length_ofList]
    exact cut.first _ (.ofList after) (eq_append_iff.2 (by simpa using occurs))

theorem cut?_eq_none_iff {separator text : String} (present : separator ≠ "")
    : cut? separator text = none ↔ Lacks separator text := by
  rw [cut?, Option.map_eq_none_iff, cutList?_eq_none_iff (by simpa using present)]
  constructor
  · intro lacks before after occurs
    exact lacks before.toList after.toList (eq_append_iff.1 occurs)
  · intro lacks before after occurs
    exact lacks (.ofList before) (.ofList after) (eq_append_iff.2 (by simpa using occurs))

end Invalidation.Text

namespace Invalidation.Shorthand

-----------------------------------------------------------------------------------------
-- Facts
-----------------------------------------------------------------------------------------

/-- How a text names a declaration of a kind: a member by its context and its name with a comma
between them, and any other declaration by its only part. No part is empty.
-/
inductive Names : Kind → String → Designator → Prop where
  | whole {kind : Kind} {text : String} (single : kind ≠ .member) (present : text ≠ "")
    : Names kind text (.ofKind kind text text)
  | member {text context name : String} (cut : Text.CutAt "," text context name)
      (hasContext : context ≠ "") (hasName : name ≠ "")
    : Names .member text (.member context name)

/-- How a text spells a fact of a kind: by its name, which may be followed by `@` and a
fingerprint.
-/
inductive SpellsFact (kind : Kind) : String → Definition → Prop where
  | bare {text : String} {designator : Designator} (unstamped : Text.Lacks "@" text)
      (names : Names kind text designator)
    : SpellsFact kind text ⟨.interface designator, none⟩
  | stamped {text name token : String} {designator : Designator}
      (cut : Text.CutAt "@" text name token) (names : Names kind name designator)
    : SpellsFact kind text ⟨.interface designator, some (.parse token)⟩

/-- What a name is read as, by its kind. -/
def readName (kind : Kind) (text : String)
    : Except Violation Designator :=
  match kind with
  | .nominal | .potentialMember => Designator.describe kind (some text) none
  | .member =>
      let (context, member) := (Text.cut? "," text).getD (text, "")
      Designator.describe kind (some context) (some member)
  | _ => Designator.describe kind none (some text)

theorem complete_ofKind_iff {kind : Kind} {text : String} (single : kind ≠ .member)
    : (Designator.ofKind kind text text).Complete ↔ text ≠ "" := by
  cases kind <;>
    simp_all [Designator.Complete, Designator.ofKind, Designator.context?, Designator.name?,
      eq_comm]

theorem complete_member_iff {context name : String}
    : (Designator.member context name).Complete ↔ context ≠ "" ∧ name ≠ "" := by
  simp [Designator.Complete, Designator.context?, Designator.name?, eq_comm]

theorem readName_eq_ok_iff {kind : Kind} {text : String} {designator : Designator}
    : readName kind text = .ok designator ↔ Names kind text designator := by
  have described (given : Designator)
      : Designator.describe given.kind given.context? given.name? = .ok designator
        ↔ given.Complete ∧ given = designator :=
    Designator.describe_eq_ok_iff
  have single (isSingle : kind ≠ .member)
      : readName kind text = .ok designator
        ↔ text ≠ "" ∧ Designator.ofKind kind text text = designator := by
    rw [← complete_ofKind_iff isSingle, ← described]
    cases kind <;> first | exact absurd rfl isSingle | rfl
  constructor
  · intro read
    by_cases isMember : kind = .member
    · subst isMember
      rw [readName] at read
      cases found : Text.cut? "," text with
      | none =>
          rw [found] at read
          have given := (described (.member text "")).1 read
          exact absurd rfl (complete_member_iff.1 given.1).2
      | some parts =>
          obtain ⟨context, name⟩ := parts
          rw [found] at read
          obtain ⟨complete, rfl⟩ := (described (.member context name)).1 read
          obtain ⟨hasContext, hasName⟩ := complete_member_iff.1 complete
          exact .member ((Text.cut?_eq_some_iff (by decide)).1 found) hasContext hasName
    · obtain ⟨present, rfl⟩ := (single isMember).1 read
      exact .whole isMember present
  · intro names
    cases names with
    | whole isSingle present => exact (single isSingle).2 ⟨present, rfl⟩
    | member cut hasContext hasName =>
        rw [readName, (Text.cut?_eq_some_iff (by decide)).2 cut]
        exact (described (.member _ _)).2 ⟨complete_member_iff.2 ⟨hasContext, hasName⟩, rfl⟩

/-- A fact is read by its name, and then its fingerprint. -/
theorem readFact_eq (kind : Kind) (text : String)
    : readFact kind text
      = match Text.cut? "@" text with
        | none => (readName kind text).map (⟨.interface ·, none⟩)
        | some (name, token) =>
            (readName kind name).map (⟨.interface ·, some (.parse token)⟩) := by
  unfold readFact
  cases Text.cut? "@" text <;> cases kind <;> rfl

theorem readFact_eq_ok_iff {kind : Kind} {text : String} {definition : Definition}
    : readFact kind text = .ok definition ↔ SpellsFact kind text definition := by
  constructor
  · intro read
    rw [readFact_eq] at read
    cases found : Text.cut? "@" text with
    | none =>
        simp only [found, map_eq_ok, readName_eq_ok_iff] at read
        obtain ⟨designator, names, rfl⟩ := read
        exact .bare ((Text.cut?_eq_none_iff (by decide)).1 found) names
    | some parts =>
        simp only [found, map_eq_ok, readName_eq_ok_iff] at read
        obtain ⟨designator, names, rfl⟩ := read
        exact .stamped ((Text.cut?_eq_some_iff (by decide)).1 found) names
  · intro spells
    cases spells with
    | bare unstamped names =>
        rw [readFact_eq, (Text.cut?_eq_none_iff (by decide)).2 unstamped]
        exact map_eq_ok.2 ⟨_, readName_eq_ok_iff.2 names, rfl⟩
    | stamped cut names =>
        rw [readFact_eq, (Text.cut?_eq_some_iff (by decide)).2 cut]
        exact map_eq_ok.2 ⟨_, readName_eq_ok_iff.2 names, rfl⟩

-----------------------------------------------------------------------------------------
-- Entries
-----------------------------------------------------------------------------------------

/-- What is left of an entry without the `#` that it may begin with, and whether it cascades. -/
inductive Marked : String → Bool → String → Prop where
  | plain {text : String} (unmarked : ∀ body, text ≠ "#" ++ body) : Marked text true text
  | hashed {body : String} : Marked ("#" ++ body) false body

/-- How a text spells an entry. Without an arrow it spells what is defined; otherwise what stands
before the first arrow is used, and what stands behind it is defined, if anything does.
-/
inductive Spells (kind : Kind) (text : String) : Entry → Prop where
  | definition {cascades : Bool} {body : String} {definition : Definition}
      (marked : Marked text cascades body) (arrowless : Text.Lacks "->" body)
      (defines : SpellsFact kind body definition)
    : Spells kind text ⟨cascades, none, some definition⟩
  | use {cascades : Bool} {body name : String} {used : Definition}
      (marked : Marked text cascades body) (cut : Text.CutAt "->" body name "")
      (uses : SpellsFact kind name used)
    : Spells kind text ⟨cascades, some used.key, none⟩
  | dependent {cascades : Bool} {body name rest : String} {used definition : Definition}
      (marked : Marked text cascades body) (cut : Text.CutAt "->" body name rest)
      (present : rest ≠ "") (uses : SpellsFact kind name used)
      (defines : SpellsFact kind rest definition)
    : Spells kind text ⟨cascades, some used.key, some definition⟩

/-- What is read behind the mark of an entry. -/
def readBody (kind : Kind) (cascades : Bool) (body : String)
    : Except Violation Entry :=
  match Text.cut? "->" body with
  | none => do return ⟨cascades, none, some (← readFact kind body)⟩
  | some (used, defined) => do
      let used ← readFact kind used
      if defined = "" then return ⟨cascades, some used.key, none⟩
      else return ⟨cascades, some used.key, some (← readFact kind defined)⟩

theorem readEntry_eq_readBody {kind : Kind} {text body : String} {cascades : Bool}
    (marked : Marked text cascades body)
    : readEntry kind text = readBody kind cascades body := by
  unfold readEntry
  cases marked with
  | plain unmarked =>
      split
      rename_i cascades body left
      split at left
      · rename_i rest begins
        refine absurd ?_ (unmarked (.ofList rest))
        rw [← String.toList_inj, begins, String.toList_append, String.toList_ofList,
          String.toList_ofList]
        rfl
      · obtain ⟨rfl, rfl⟩ := Prod.mk.inj left
        rfl
  | hashed =>
      rw [String.toList_append]
      change readBody kind false (.ofList body.toList) = _
      rw [String.ofList_toList]

theorem exists_marked (text : String) : ∃ cascades body, Marked text cascades body := by
  by_cases unmarked : ∀ body, text ≠ "#" ++ body
  · exact ⟨true, text, .plain unmarked⟩
  · simp only [not_forall, not_not] at unmarked
    obtain ⟨body, rfl⟩ := unmarked
    exact ⟨false, body, .hashed⟩

/-- What is read from a text is what the text spells. -/
theorem readEntry_eq_ok_iff {kind : Kind} {text : String} {entry : Entry}
    : readEntry kind text = .ok entry ↔ Spells kind text entry := by
  constructor
  · intro read
    obtain ⟨cascades, body, marked⟩ := exists_marked text
    rw [readEntry_eq_readBody marked, readBody] at read
    cases found : Text.cut? "->" body with
    | none =>
        simp only [found, bind_eq_ok, pure_eq_ok, readFact_eq_ok_iff] at read
        obtain ⟨definition, defines, rfl⟩ := read
        exact .definition marked ((Text.cut?_eq_none_iff (by decide)).1 found) defines
    | some parts =>
        obtain ⟨name, rest⟩ := parts
        have cut := (Text.cut?_eq_some_iff (by decide)).1 found
        simp only [found, bind_eq_ok, readFact_eq_ok_iff] at read
        obtain ⟨used, uses, later⟩ := read
        split at later
        · rename_i nothing
          obtain rfl := pure_eq_ok.1 later
          exact .use marked (nothing ▸ cut) uses
        · rename_i present
          obtain ⟨definition, defines, made⟩ := bind_eq_ok.1 later
          obtain rfl := pure_eq_ok.1 made
          exact .dependent marked cut present uses (readFact_eq_ok_iff.1 defines)
  · intro spells
    cases spells with
    | definition marked arrowless defines =>
        rw [readEntry_eq_readBody marked, readBody,
          (Text.cut?_eq_none_iff (by decide)).2 arrowless]
        exact bind_eq_ok.2 ⟨_, readFact_eq_ok_iff.2 defines, rfl⟩
    | use marked cut uses =>
        rw [readEntry_eq_readBody marked, readBody, (Text.cut?_eq_some_iff (by decide)).2 cut]
        exact bind_eq_ok.2 ⟨_, readFact_eq_ok_iff.2 uses, if_pos rfl⟩
    | dependent marked cut present uses defines =>
        rw [readEntry_eq_readBody marked, readBody, (Text.cut?_eq_some_iff (by decide)).2 cut]
        refine bind_eq_ok.2 ⟨_, readFact_eq_ok_iff.2 uses, ?_⟩
        rw [if_neg present]
        exact bind_eq_ok.2 ⟨_, readFact_eq_ok_iff.2 defines, rfl⟩

end Invalidation.Shorthand
