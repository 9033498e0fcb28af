import Invalidation.Proofs.Table
import Mathlib.Data.List.Nodup

/-! What an index lists under each key after values are filed and taken out. The order of the keys
themselves never shows, so all statements are about the values under a key.
-/

namespace Invalidation

/-- A list without its repetitions has no repetitions, by induction on its length. -/
theorem nodup_eraseDups {α : Type} [BEq α] [LawfulBEq α]
    : (list : List α) → list.eraseDups.Nodup
  | [] => by simp
  | x :: rest => by
      rw [List.eraseDups_cons, List.nodup_cons]
      exact ⟨by simp, nodup_eraseDups _⟩
termination_by list => list.length
decreasing_by exact Nat.lt_succ_of_le (List.length_filter_le _ rest)

/-- Lists with the same elements are the same without repetitions, up to their order. -/
theorem eraseDups_perm {α : Type} [BEq α] [LawfulBEq α] {left right : List α}
    (same : ∀ x, x ∈ left ↔ x ∈ right)
    : left.eraseDups.Perm right.eraseDups := by
  refine (List.perm_ext_iff_of_nodup (nodup_eraseDups left) (nodup_eraseDups right)).2 fun x => ?_
  rw [List.mem_eraseDups, List.mem_eraseDups, same]

namespace Index

variable {κ ν : Type} [DecidableEq κ] [DecidableEq ν]

/-- Filing adds the value under its key and leaves every other key alone. -/
theorem values_file (index : Index κ ν) (key other : κ) (value : ν)
    : (index.file key value).values other
      = if other = key then addLast (index.values key) value else index.values other := by
  unfold values file
  by_cases same : other = key
  · subst same
    simp
  · simp only [same, ↓reduceIte, Table.get?_alter_of_ne _ _ same]

/-- Taking a value out removes its first occurrence under its key and nothing elsewhere. -/
theorem values_unfile (index : Index κ ν) (key other : κ) (value : ν)
    : (index.unfile key value).values other
      = if other = key then (index.values key).erase value else index.values other := by
  unfold values unfile
  by_cases same : other = key
  · subst same
    simp only [Table.get?_alter_self, ↓reduceIte]
    cases left : ((index.get? other).getD []).erase value <;> rfl
  · simp only [same, ↓reduceIte, Table.get?_alter_of_ne _ _ same]

/-- No value is listed twice under a key. -/
def Distinct (index : Index κ ν) : Prop := ∀ key, (index.values key).Nodup

/-- Filing keeps values distinct, since a value that is listed keeps its place. -/
theorem Distinct.file {index : Index κ ν} (distinct : index.Distinct) (key : κ) (value : ν)
    : (index.file key value).Distinct := by
  intro other
  rw [values_file]
  split
  · exact nodup_addLast (distinct key)
  · exact distinct other

theorem Distinct.unfile {index : Index κ ν} (distinct : index.Distinct) (key : κ) (value : ν)
    : (index.unfile key value).Distinct := by
  intro other
  rw [values_unfile]
  split
  · exact (distinct key).erase value
  · exact distinct other

theorem mem_values_file {index : Index κ ν} {key other : κ} {value v : ν}
    : v ∈ (index.file key value).values other
      ↔ v ∈ index.values other ∨ (v = value ∧ key = other) := by
  rw [values_file]
  split
  · rename_i same
    subst same
    simp [mem_addLast]
  · rename_i different
    simp [Ne.symm different]

theorem mem_values_unfile {index : Index κ ν} (distinct : index.Distinct) {key other : κ}
    {value v : ν}
    : v ∈ (index.unfile key value).values other
      ↔ v ∈ index.values other ∧ ¬(v = value ∧ key = other) := by
  rw [values_unfile]
  split
  · rename_i same
    subst same
    simp [(distinct other).mem_erase_iff, and_comm]
  · rename_i different
    simp [Ne.symm different]

variable {α : Type}

omit [DecidableEq ν] in
/-- A key's values change once for every target with the key, and not with other targets; by induction
on the targets.
-/
theorem values_foldl (change : Index κ ν → κ → Index κ ν) (content : List ν → List ν)
    (changes
      : ∀ (index : Index κ ν) (key other : κ),
          (change index key).values other
          = if other = key then content (index.values key) else index.values other)
    (index : Index κ ν) (keyOf : α → κ) (targets : List α) (key : κ)
    : values (targets.foldl (fun index target => change index (keyOf target)) index) key
      = (targets.filter (keyOf · = key)).foldl (fun values _ => content values)
          (index.values key) := by
  induction targets generalizing index with
  | nil => rfl
  | cons target rest ih =>
      rw [List.foldl_cons, ih, changes]
      by_cases same : keyOf target = key
      · simp [same]
      · simp [same, Ne.symm same]

theorem values_fileAll (index : Index κ ν) (keyOf : α → κ) (value : ν) (targets : List α) (key : κ)
    : values (targets.foldl (fun index target => index.file (keyOf target) value) index) key
      = (targets.filter (keyOf · = key)).foldl (fun values _ => addLast values value)
          (index.values key) :=
  values_foldl (fun index key => index.file key value) (fun values => addLast values value)
    (fun index key other => index.values_file key other value) index keyOf targets key

theorem values_unfileAll (index : Index κ ν) (keyOf : α → κ) (value : ν) (targets : List α)
    (key : κ)
    : values (targets.foldl (fun index target => index.unfile (keyOf target) value) index) key
      = (targets.filter (keyOf · = key)).foldl (fun values _ => values.erase value)
          (index.values key) :=
  values_foldl (fun index key => index.unfile key value) (fun values => values.erase value)
    (fun index key other => index.values_unfile key other value) index keyOf targets key

theorem Distinct.fileAll {index : Index κ ν} (distinct : index.Distinct) (keyOf : α → κ)
    (value : ν) (targets : List α)
    : Distinct (targets.foldl (fun index target => index.file (keyOf target) value) index) := by
  induction targets generalizing index with
  | nil => exact distinct
  | cons target rest ih => exact ih (distinct.file (keyOf target) value)

theorem Distinct.unfileAll {index : Index κ ν} (distinct : index.Distinct) (keyOf : α → κ)
    (value : ν) (targets : List α)
    : Distinct (targets.foldl (fun index target => index.unfile (keyOf target) value) index) := by
  induction targets generalizing index with
  | nil => exact distinct
  | cons target rest ih => exact ih (distinct.unfile (keyOf target) value)

/-- After filing a value under many keys, it is listed under each of them besides what was. -/
theorem mem_values_fileAll {index : Index κ ν} {keyOf : α → κ} {value v : ν} {targets : List α}
    {key : κ}
    : v ∈ values (targets.foldl (fun index target => index.file (keyOf target) value) index) key
      ↔ v ∈ index.values key ∨ (v = value ∧ ∃ target ∈ targets, keyOf target = key) := by
  induction targets generalizing index with
  | nil => simp
  | cons target rest ih =>
      rw [List.foldl_cons, ih, mem_values_file]
      simp only [List.mem_cons, exists_eq_or_imp]
      tauto

/-- After taking a value out from under many keys, it is listed under none of them. -/
theorem mem_values_unfileAll {index : Index κ ν} (distinct : index.Distinct) {keyOf : α → κ}
    {value v : ν} {targets : List α} {key : κ}
    : v ∈ values (targets.foldl (fun index target => index.unfile (keyOf target) value) index) key
      ↔ v ∈ index.values key ∧ ¬(v = value ∧ ∃ target ∈ targets, keyOf target = key) := by
  induction targets generalizing index with
  | nil => simp
  | cons target rest ih =>
      rw [List.foldl_cons, ih (distinct.unfile (keyOf target) value), mem_values_unfile distinct]
      simp only [List.mem_cons, exists_eq_or_imp, and_or_left, not_or, and_assoc]

/-- No key has an entry without values. -/
def Inhabited (index : Index κ ν) : Prop := ∀ key, index.get? key ≠ some []

theorem Inhabited.file {index : Index κ ν} (inhabited : index.Inhabited) (key : κ) (value : ν)
    : (index.file key value).Inhabited := by
  intro other
  unfold Index.file
  by_cases same : other = key
  · subst same
    rw [Table.get?_alter_self, Ne, Option.some.injEq]
    exact List.ne_nil_of_mem (mem_addLast.2 (.inr rfl))
  · rw [Table.get?_alter_of_ne _ _ same]
    exact inhabited other

/-- A key loses its entry with its last value. -/
theorem Inhabited.unfile {index : Index κ ν} (inhabited : index.Inhabited) (key : κ) (value : ν)
    : (index.unfile key value).Inhabited := by
  intro other
  unfold Index.unfile
  by_cases same : other = key
  · subst same
    rw [Table.get?_alter_self]
    split <;> simp_all
  · rw [Table.get?_alter_of_ne _ _ same]
    exact inhabited other

theorem Inhabited.fileAll {index : Index κ ν} (inhabited : index.Inhabited) (keyOf : α → κ)
    (value : ν) (targets : List α)
    : Inhabited (targets.foldl (fun index target => index.file (keyOf target) value) index) := by
  induction targets generalizing index with
  | nil => exact inhabited
  | cons target rest ih => exact ih (inhabited.file (keyOf target) value)

theorem Inhabited.unfileAll {index : Index κ ν} (inhabited : index.Inhabited) (keyOf : α → κ)
    (value : ν) (targets : List α)
    : Inhabited
        (targets.foldl (fun index target => index.unfile (keyOf target) value) index) := by
  induction targets generalizing index with
  | nil => exact inhabited
  | cons target rest ih => exact ih (inhabited.unfile (keyOf target) value)

/-- Two indices list the same values in the same order under every key. -/
def Alike (left right : Index κ ν) : Prop := ∀ key, left.values key = right.values key

omit [DecidableEq ν] in
/-- Indices that list the same values and have no key without values have the same entries. -/
theorem Alike.get?_eq {left right : Index κ ν} (alike : left.Alike right)
    (leftInhabited : left.Inhabited) (rightInhabited : right.Inhabited) (key : κ)
    : left.get? key = right.get? key := by
  have same := alike key
  have leftNonempty := leftInhabited key
  have rightNonempty := rightInhabited key
  unfold values at same
  cases leftEntry : left.get? key <;> cases rightEntry : right.get? key <;> simp_all

theorem Alike.file {left right : Index κ ν} (alike : left.Alike right) (key : κ) (value : ν)
    : (left.file key value).Alike (right.file key value) := by
  intro other
  rw [values_file, values_file, alike key, alike other]

theorem Alike.unfile {left right : Index κ ν} (alike : left.Alike right) (key : κ) (value : ν)
    : (left.unfile key value).Alike (right.unfile key value) := by
  intro other
  rw [values_unfile, values_unfile, alike key, alike other]

theorem Alike.fileAll {left right : Index κ ν} (alike : left.Alike right) (keyOf : α → κ)
    (value : ν) (targets : List α)
    : Alike (targets.foldl (fun index target => index.file (keyOf target) value) left)
        (targets.foldl (fun index target => index.file (keyOf target) value) right) := by
  intro key
  rw [values_fileAll, values_fileAll, alike key]

theorem Alike.unfileAll {left right : Index κ ν} (alike : left.Alike right) (keyOf : α → κ)
    (value : ν) (targets : List α)
    : Alike (targets.foldl (fun index target => index.unfile (keyOf target) value) left)
        (targets.foldl (fun index target => index.unfile (keyOf target) value) right) := by
  intro key
  rw [values_unfileAll, values_unfileAll, alike key]

end Index

end Invalidation
