import Invalidation.Proofs.Json.Meaning

/-! Ways to rewrite a value from which a schema takes the same as before. Members of an object may
change places, members of unknown names may join them, and a field that may be left out may say so by
null.
-/

namespace Invalidation

/-- The fields that are left out when there is no value. -/
def Fields.omissibleNames {β σ : Type} : Fields β σ → List String
  | .nil => []
  | .required _ _ rest | .defaulted _ _ _ rest => rest.omissibleNames
  | .omissible name _ rest => name :: rest.omissibleNames

theorem Fields.mem_names_of_omissible {β σ : Type} (fields : Fields β σ) {name : String}
    (omissible : name ∈ fields.omissibleNames)
    : name ∈ fields.names := by
  match fields with
  | .required _ _ rest | .defaulted _ _ _ rest =>
      exact List.mem_cons_of_mem _ (rest.mem_names_of_omissible omissible)
  | .omissible _ _ rest =>
      rcases List.mem_cons.1 omissible with rfl | later
      · exact List.mem_cons_self
      · exact List.mem_cons_of_mem _ (rest.mem_names_of_omissible later)

namespace Json

-----------------------------------------------------------------------------------------
-- Rewriting
-----------------------------------------------------------------------------------------

/-- An object is written in another way. Its members change places; or one is added whose name is
not among the known ones; or one that may be null and is not there is written as null, or the other
way round.
-/
inductive Edits (known nullable : List String) : Value → Value → Prop
  | permute {members permuted : Members} (same : members.Perm permuted)
    : Edits known nullable (.object members) (.object permuted)
  | insert {members : Members} {spelled name value} (named : Quoted.text? spelled = some name)
    (unknown : name ∉ known)
    : Edits known nullable (.object members) (.object ((spelled, value) :: members))
  | writeNull {members : Members} {spelled name} (named : Quoted.text? spelled = some name)
    (optional : name ∈ nullable)
    (absent : ∀ member ∈ members, Quoted.text? member.1 ≠ some name)
    : Edits known nullable (.object members) (.object ((spelled, .null) :: members))
  | dropNull {members : Members} {spelled name} (named : Quoted.text? spelled = some name)
    (optional : name ∈ nullable)
    (absent : ∀ member ∈ members, Quoted.text? member.1 ≠ some name)
    : Edits known nullable (.object ((spelled, .null) :: members)) (.object members)

theorem Edits.exists_members {known nullable : List String} {value edited : Value}
    (edits : Edits known nullable value edited)
    : ∃ members, edited = .object members := by
  cases edits <;> exact ⟨_, rfl⟩

/-- In an object, the value of one member of the name changes. -/
inductive Within (name : String) (change : Value → Value → Prop) : Value → Value → Prop
  | member {before spelled value changed after} (named : Quoted.text? spelled = some name)
    (changes : change value changed)
    : Within name change (.object (before ++ (spelled, value) :: after))
        (.object (before ++ (spelled, changed) :: after))

/-- In a list, one element changes. -/
inductive Among (change : Value → Value → Prop) : Value → Value → Prop
  | element {before value changed after} (changes : change value changed)
    : Among change (.list (before ++ value :: after)) (.list (before ++ changed :: after))

-----------------------------------------------------------------------------------------
-- What fields take after rewriting
-----------------------------------------------------------------------------------------

section

variable {α : Type} {name : String} {value : Value}

theorem single?_perm {values permuted : List Value} (same : values.Perm permuted)
    (absent : Option α) (present : Value → Option α)
    : single? values absent present = single? permuted absent present := by
  match values with
  | [] => rw [List.nil_perm.1 same]
  | [value] => rw [List.singleton_perm.1 same]
  | first :: second :: rest =>
      have long := same.length_eq
      match permuted with
      | [] | [_] => simp at long
      | _ :: _ :: _ => rfl

/-- Fields take the same from members in any order, by induction on the fields. -/
theorem decodeFields?_perm {β σ : Type} (fields : Fields β σ)
    {members permuted : List (String × Value)} (same : members.Perm permuted)
    : decodeFields? fields members = decodeFields? fields permuted := by
  match fields with
  | .nil => rfl
  | .required field schema rest | .defaulted field schema standard rest
  | .omissible field schema rest =>
      have values : (valuesOf field members).Perm (valuesOf field permuted) :=
        (same.filter _).map _
      have later : (others field members).Perm (others field permuted) := same.filter _
      rw [decodeFields?, decodeFields?, single?_perm values, decodeFields?_perm rest later]

/-- Fields take nothing from a member whose name they do not have. -/
theorem decodeFields?_cons_unknown {β σ : Type} (fields : Fields β σ)
    {members : List (String × Value)} (unknown : name ∉ fields.names)
    : decodeFields? fields ((name, value) :: members) = decodeFields? fields members := by
  match fields with
  | .nil => rfl
  | .required field schema rest | .defaulted field schema standard rest
  | .omissible field schema rest =>
      obtain ⟨different, later⟩ := not_or.1 (mt List.mem_cons.2 unknown)
      rw [decodeFields?, decodeFields?, valuesOf_cons_of_ne different, others_cons_of_ne different,
        decodeFields?_cons_unknown rest later]

/-- A field that may be left out takes the same from null as from no member. -/
theorem decodeFields?_cons_null {β σ : Type} (fields : Fields β σ)
    {members : List (String × Value)} (distinct : fields.names.Nodup)
    (omissible : name ∈ fields.omissibleNames) (absent : ∀ member ∈ members, member.1 ≠ name)
    : decodeFields? fields ((name, .null) :: members) = decodeFields? fields members := by
  match fields with
  | .required field schema rest | .defaulted field schema standard rest =>
      have different : name ≠ field := by
        rintro rfl
        exact (List.nodup_cons.1 distinct).1 (rest.mem_names_of_omissible omissible)
      have absentLater : ∀ member ∈ others field members, member.1 ≠ name :=
        fun member known => absent member (List.mem_filter.1 known).1
      rw [decodeFields?, decodeFields?, valuesOf_cons_of_ne different, others_cons_of_ne different,
        decodeFields?_cons_null rest (List.nodup_cons.1 distinct).2 omissible absentLater]
  | .omissible field schema rest =>
      by_cases same : name = field
      · subst same
        rw [decodeFields?, decodeFields?, valuesOf_cons_self, others_cons_self,
          valuesOf_eq_nil absent, others_eq_self absent]
        rfl
      · have later := (List.mem_cons.1 omissible).resolve_left same
        have absentLater : ∀ member ∈ others field members, member.1 ≠ name :=
          fun member known => absent member (List.mem_filter.1 known).1
        rw [decodeFields?, decodeFields?, valuesOf_cons_of_ne same, others_cons_of_ne same,
          decodeFields?_cons_null rest (List.nodup_cons.1 distinct).2 later absentLater]

/-- Names are there whatever the order is, by induction on the permutation. -/
theorem named?_perm {members permuted : Members} (same : members.Perm permuted)
    {named : List (String × Value)} (hasNames : named? members = some named)
    : ∃ namedToo, named? permuted = some namedToo ∧ named.Perm namedToo := by
  induction same generalizing named with
  | nil => exact ⟨named, hasNames, .refl _⟩
  | cons member same ih =>
      obtain ⟨text, rest, hasText, hasRest, rfl⟩ := named?_cons_eq_some_iff.1 hasNames
      obtain ⟨restToo, hasRestToo, same⟩ := ih hasRest
      exact ⟨(text, member.2) :: restToo,
        named?_cons_eq_some_iff.2 ⟨text, restToo, hasText, hasRestToo, rfl⟩, same.cons _⟩
  | swap first second rest =>
      obtain ⟨one, _, hasOne, hasOthers, rfl⟩ := named?_cons_eq_some_iff.1 hasNames
      obtain ⟨other, later, hasOther, hasLater, rfl⟩ := named?_cons_eq_some_iff.1 hasOthers
      have behind : named? (second :: rest) = some ((one, second.2) :: later) :=
        named?_cons_eq_some_iff.2 ⟨one, later, hasOne, hasLater, rfl⟩
      exact ⟨_, named?_cons_eq_some_iff.2 ⟨other, _, hasOther, behind, rfl⟩, .swap _ _ _⟩
  | trans _ _ ih₁ ih₂ =>
      obtain ⟨middle, hasMiddle, same₁⟩ := ih₁ hasNames
      obtain ⟨last, hasLast, same₂⟩ := ih₂ hasMiddle
      exact ⟨last, hasLast, same₁.trans same₂⟩

/-- A name that no member spells is the name of none. -/
theorem absent_of_named? {members : Members} {named : List (String × Value)}
    (hasNames : named? members = some named)
    (absent : ∀ member ∈ members, Quoted.text? member.1 ≠ some name)
    : ∀ member ∈ named, member.1 ≠ name := by
  induction members generalizing named with
  | nil =>
      obtain rfl := Option.some.inj hasNames
      exact nofun
  | cons member rest ih =>
      rw [List.forall_mem_cons] at absent
      obtain ⟨text, later, hasText, hasLater, rfl⟩ := named?_cons_eq_some_iff.1 hasNames
      rw [List.forall_mem_cons]
      exact ⟨fun same => absent.1 (same ▸ hasText), ih hasLater absent.2⟩

/-- Fields take the same from an object that is written in another way. -/
theorem Edits.decode? {β σ : Type} {record : String} {fields : Fields β σ} {make : β → α}
    {parts : α → β} {make_parts : ∀ value, make (parts value) = value} {known nullable : List String}
    {edited : Value} (edits : Edits known nullable value edited)
    (covers : fields.names ⊆ known) (distinct : fields.names.Nodup)
    (optional : nullable ⊆ fields.omissibleNames) {result : α}
    (taken : decode? (.record record fields make parts make_parts) value = some result)
    : decode? (.record record fields make parts make_parts) edited = some result := by
  cases edits with
  | permute same =>
      obtain ⟨named, values, hasNames, fieldsTaken, made⟩ := decode?_object_eq_some_iff.1 taken
      obtain ⟨namedToo, hasNamesToo, sameNamed⟩ := named?_perm same hasNames
      exact decode?_object_eq_some_iff.2
        ⟨namedToo, values, hasNamesToo, decodeFields?_perm fields sameNamed ▸ fieldsTaken, made⟩
  | @insert members spelled name value text unknown =>
      obtain ⟨named, values, hasNames, fieldsTaken, made⟩ := decode?_object_eq_some_iff.1 taken
      have passed : decodeFields? fields ((name, value) :: named) = decodeFields? fields named :=
        decodeFields?_cons_unknown fields fun member => unknown (covers member)
      exact decode?_object_eq_some_iff.2
        ⟨_, values, named?_cons_eq_some_iff.2 ⟨name, named, text, hasNames, rfl⟩,
          passed.trans fieldsTaken, made⟩
  | @writeNull members spelled name text omissible absent =>
      obtain ⟨named, values, hasNames, fieldsTaken, made⟩ := decode?_object_eq_some_iff.1 taken
      have passed := decodeFields?_cons_null fields distinct (optional omissible)
        (absent_of_named? hasNames absent)
      exact decode?_object_eq_some_iff.2
        ⟨_, values, named?_cons_eq_some_iff.2 ⟨name, named, text, hasNames, rfl⟩,
          passed.trans fieldsTaken, made⟩
  | @dropNull members spelled name text omissible absent =>
      obtain ⟨_, values, hasAll, fieldsTaken, made⟩ := decode?_object_eq_some_iff.1 taken
      obtain ⟨text', named, hasText, hasNames, rfl⟩ := named?_cons_eq_some_iff.1 hasAll
      obtain rfl : name = text' := Option.some.inj (text.symm.trans hasText)
      have passed := decodeFields?_cons_null fields distinct (optional omissible)
        (absent_of_named? hasNames absent)
      exact decode?_object_eq_some_iff.2
        ⟨named, values, hasNames, passed.symm.trans fieldsTaken, made⟩

/-- Where a member changes of which there is one, there is one member of its name afterwards too; and
those of other names stay.
-/
theorem Within.hasOnly {change : Value → Value → Prop} {members : Members} {changed : Value}
    (within : Within name change (.object members) changed) (only : HasOnly members name value)
    : ∃ membersToo valueToo,
        changed = .object membersToo
        ∧ change value valueToo
        ∧ HasOnly membersToo name valueToo
        ∧ ∀ other kept,
            other ≠ name → HasOnly members other kept → HasOnly membersToo other kept := by
  cases within with
  | @member before spelled given new after text changes =>
      obtain ⟨named, hasNames, single⟩ := only
      obtain ⟨front, _, hasFront, hasRest, rfl⟩ := named?_append_eq_some_iff.1 hasNames
      obtain ⟨_, back, hasText, hasBack, rfl⟩ := named?_cons_eq_some_iff.1 hasRest
      obtain rfl := Option.some.inj (text.symm.trans hasText)
      have hasNamesToo
          : named? (before ++ (spelled, new) :: after) = some (front ++ (name, new) :: back) :=
        named?_append_eq_some_iff.2 ⟨front, _, hasFront,
          named?_cons_eq_some_iff.2 ⟨name, back, text, hasBack, rfl⟩, rfl⟩
      rw [valuesOf_append, valuesOf_cons_self, List.append_eq_singleton_iff] at single
      obtain ⟨noFront, one⟩ : valuesOf name front = [] ∧ given :: valuesOf name back = [value] := by
        simpa using single
      obtain ⟨rfl, noBack⟩ := List.cons.inj one
      refine ⟨_, new, rfl, changes, ⟨_, hasNamesToo, ?_⟩, ?_⟩
      · rw [valuesOf_append, valuesOf_cons_self, noFront, noBack, List.nil_append]
      · rintro other kept different ⟨_, sameNames, single⟩
        obtain rfl := Option.some.inj (hasNames.symm.trans sameNames)
        rw [valuesOf_append, valuesOf_cons_of_ne different.symm] at single
        exact ⟨_, hasNamesToo, by rw [valuesOf_append, valuesOf_cons_of_ne different.symm, single]⟩

/-- The elements of a list give the same if the one that changes does. -/
theorem Among.mapM {change : Value → Value → Prop} {taken? : Value → Option α}
    {elements : List Value} {changed : Value} (among : Among change (.list elements) changed)
    (keeps
      : ∀ value valueToo result,
          change value valueToo → taken? value = some result → taken? valueToo = some result)
    {results : List α} (taken : elements.mapM taken? = some results)
    : ∃ elementsToo, changed = .list elementsToo ∧ elementsToo.mapM taken? = some results := by
  cases among with
  | @element before given new after changes =>
      refine ⟨_, rfl, ?_⟩
      simp only [List.mapM_append, List.mapM_cons, Option.bind_eq_bind, Option.bind_eq_some_iff]
        at taken ⊢
      obtain ⟨front, hasFront, rest, ⟨one, hasOne, back⟩, same⟩ := taken
      exact ⟨front, hasFront, rest, ⟨one, keeps _ _ _ changes hasOne, back⟩, same⟩

end

end Json

end Invalidation
