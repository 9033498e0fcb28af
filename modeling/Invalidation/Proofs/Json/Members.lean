import Invalidation.Proofs.Json.Grammar

/-! Members of an object by their names. A name may be spelled in many ways, and there may be several
members of it.
-/

namespace Invalidation.Json

/-- The members of an object by their names, if these are Unicode. -/
def named? (members : Members)
    : Option (List (String × Value)) :=
  members.mapM fun (name, value) => (Quoted.text? name).map (·, value)

def valuesOf (name : String) (members : List (String × Value))
    : List Value :=
  (members.filter (·.1 = name)).map (·.2)

def others (name : String) (members : List (String × Value))
    : List (String × Value) :=
  members.filter (·.1 ≠ name)
section

variable {name other : String} {value : Value} {members : List (String × Value)}

theorem valuesOf_cons_self
    : valuesOf name ((name, value) :: members) = value :: valuesOf name members := by
  simp [valuesOf]

theorem valuesOf_cons_of_ne (different : other ≠ name)
    : valuesOf name ((other, value) :: members) = valuesOf name members := by
  simp [valuesOf, different]

theorem valuesOf_append (more : List (String × Value))
    : valuesOf name (members ++ more) = valuesOf name members ++ valuesOf name more := by
  simp [valuesOf]

theorem valuesOf_eq_nil (absent : ∀ member ∈ members, member.1 ≠ name)
    : valuesOf name members = [] := by
  simpa [valuesOf] using fun other value member => absent (other, value) member

theorem others_cons_self
    : others name ((name, value) :: members) = others name members := by
  simp [others]

theorem others_cons_of_ne (different : other ≠ name)
    : others name ((other, value) :: members) = (other, value) :: others name members := by
  simp [others, different]

theorem others_eq_self (absent : ∀ member ∈ members, member.1 ≠ name)
    : others name members = members := by
  simpa [others] using fun other value member => absent (other, value) member

theorem valuesOf_others (different : name ≠ other) (members : List (String × Value))
    : valuesOf name (others other members) = valuesOf name members := by
  rw [valuesOf, others, List.filter_filter, valuesOf]
  congr 2
  funext member
  by_cases named : member.1 = name <;> simp [named, different]

end

theorem named?_cons (name : List Quoted.Part) (value : Value) (rest : Members)
    : named? ((name, value) :: rest)
      = (Quoted.text? name).bind fun name => (named? rest).map ((name, value) :: ·) := by
  simp only [named?, List.mapM_cons]
  cases Quoted.text? name with
  | none => rfl
  | some name => simp only [Option.bind_some, Option.map_eq_bind]; rfl

theorem named?_cons_eq_some_iff {spelled : List Quoted.Part} {value : Value} {rest : Members}
    {named : List (String × Value)}
    : named? ((spelled, value) :: rest) = some named
      ↔ ∃ name later,
          Quoted.text? spelled = some name
          ∧ named? rest = some later
          ∧ (name, value) :: later = named := by
  simp [named?_cons, Option.bind_eq_some_iff, Option.map_eq_some_iff]

theorem named?_append_eq_some_iff {front back : Members} {named : List (String × Value)}
    : named? (front ++ back) = some named
      ↔ ∃ frontNamed backNamed,
          named? front = some frontNamed
          ∧ named? back = some backNamed
          ∧ frontNamed ++ backNamed = named := by
  simp [named?, List.mapM_append, Option.bind_eq_some_iff]

/-- The names of the members are Unicode, and exactly one member has the name, with the value. -/
def HasOnly (members : Members) (name : String) (value : Value) : Prop :=
  ∃ named, named? members = some named ∧ valuesOf name named = [value]

end Invalidation.Json
