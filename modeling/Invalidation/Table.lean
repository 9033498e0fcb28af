/-! Tables that keep the order in which their keys arrived, and lists that keep each element once.
Main statement: after an alteration, a look-up sees the change at the altered key and nowhere else.
-/

namespace Invalidation

/-- Adds an element at the end of a list, unless the list has it. -/
def addLast {α : Type} [DecidableEq α] (list : List α) (x : α)
    : List α :=
  if x ∈ list then list else list ++ [x]

theorem mem_addLast {α : Type} [DecidableEq α] {list : List α} {x y : α}
    : y ∈ addLast list x ↔ y ∈ list ∨ y = x := by
  by_cases h : x ∈ list
  · simp only [addLast, h, ↓reduceIte]
    exact ⟨.inl, fun found => found.elim id (· ▸ h)⟩
  · simp [addLast, h]

theorem nodup_addLast {α : Type} [DecidableEq α] {list : List α} {x : α} (distinct : list.Nodup)
    : (addLast list x).Nodup := by
  by_cases h : x ∈ list
  · simpa [addLast, h] using distinct
  · simp only [addLast, h, ↓reduceIte]
    exact List.nodup_append.2 ⟨distinct, by simp, by
      intro a ha b hb e
      obtain rfl := List.mem_singleton.1 hb
      exact h (e ▸ ha)⟩

/-- A finite map whose keys stand in the order in which they were first added. -/
structure Table (κ ν : Type) where
  entries : List (κ × ν)
  distinct : (entries.map Prod.fst).Nodup

namespace Table

variable {κ ν : Type} [DecidableEq κ]

def empty : Table κ ν := ⟨[], .nil⟩

def keys (table : Table κ ν) : List κ := table.entries.map Prod.fst

def find? (key : κ) : List (κ × ν) → Option ν
  | [] => none
  | (k, v) :: rest => if k = key then some v else find? key rest

def get? (table : Table κ ν) (key : κ) : Option ν := find? key table.entries

def contains (table : Table κ ν) (key : κ) : Bool := (table.get? key).isSome

/-- Replaces the value of a key in a list of entries, adds it at the end, or takes it out. -/
def alterEntries (key : κ) (change : Option ν → Option ν) : List (κ × ν) → List (κ × ν)
  | [] =>
      match change none with
      | some v => [(key, v)]
      | none => []
  | (k, v) :: rest =>
      if k = key then
        match change (some v) with
        | some v => (k, v) :: rest
        | none => rest
      else (k, v) :: alterEntries key change rest

/-- A key of altered entries was there before or is the altered one. -/
theorem mem_keys_alterEntries {key k : κ} {change : Option ν → Option ν} {entries : List (κ × ν)}
    (found : k ∈ (alterEntries key change entries).map Prod.fst)
    : k ∈ entries.map Prod.fst ∨ k = key := by
  induction entries with
  | nil =>
      cases h : change none <;> simp_all [alterEntries]
  | cons entry rest ih =>
      obtain ⟨k', v⟩ := entry
      by_cases same : k' = key
      · cases h : change (some v) <;> simp_all [alterEntries]
      · simp only [alterEntries, same, ↓reduceIte, List.map_cons, List.mem_cons] at found ⊢
        rcases found with rfl | found
        · exact .inl (.inl rfl)
        · exact (ih found).imp .inr id

theorem nodup_alterEntries {key : κ} {change : Option ν → Option ν} {entries : List (κ × ν)}
    (distinct : (entries.map Prod.fst).Nodup)
    : ((alterEntries key change entries).map Prod.fst).Nodup := by
  induction entries with
  | nil => cases h : change none <;> simp [alterEntries, h]
  | cons entry rest ih =>
      obtain ⟨k, v⟩ := entry
      simp only [List.map_cons, List.nodup_cons] at distinct
      by_cases same : k = key
      · cases h : change (some v) <;> simp [alterEntries, same, h]
        · exact distinct.2
        · exact ⟨by simpa [same] using distinct.1, distinct.2⟩
      · simp only [alterEntries, same, ↓reduceIte, List.map_cons, List.nodup_cons]
        refine ⟨fun found => ?_, ih distinct.2⟩
        exact (mem_keys_alterEntries found).elim distinct.1 same

/-- Gives a key the value that the change makes of its old one. A new key comes last. -/
def alter (table : Table κ ν) (key : κ) (change : Option ν → Option ν)
    : Table κ ν :=
  ⟨alterEntries key change table.entries, nodup_alterEntries table.distinct⟩

theorem find?_eq_none {key : κ} {entries : List (κ × ν)} (absent : key ∉ entries.map Prod.fst)
    : find? key entries = none := by
  induction entries with
  | nil => rfl
  | cons entry rest ih =>
      obtain ⟨k, v⟩ := entry
      simp only [List.map_cons, List.mem_cons, not_or] at absent
      simp only [find?, Ne.symm absent.1, ↓reduceIte]
      exact ih absent.2

/-- The altered key has what the change makes of its old value. -/
@[simp]
theorem get?_alter_self (table : Table κ ν) (key : κ) (change : Option ν → Option ν)
    : (table.alter key change).get? key = change (table.get? key) := by
  obtain ⟨entries, distinct⟩ := table
  simp only [get?, alter]
  induction entries with
  | nil => cases h : change none <;> simp [alterEntries, find?, h]
  | cons entry rest ih =>
      obtain ⟨k, v⟩ := entry
      simp only [List.map_cons, List.nodup_cons] at distinct
      by_cases same : k = key
      · cases h : change (some v) with
        | none =>
            simp only [alterEntries, same, ↓reduceIte, h, find?]
            exact find?_eq_none (same ▸ distinct.1)
        | some w => simp [alterEntries, same, h, find?]
      · simp only [alterEntries, same, ↓reduceIte, find?]
        exact ih distinct.2

theorem get?_alter_of_ne (table : Table κ ν) {key other : κ} (change : Option ν → Option ν)
    (different : other ≠ key)
    : (table.alter key change).get? other = table.get? other := by
  obtain ⟨entries, distinct⟩ := table
  simp only [get?, alter]
  induction entries with
  | nil => cases h : change none <;> simp [alterEntries, find?, h, Ne.symm different]
  | cons entry rest ih =>
      obtain ⟨k, v⟩ := entry
      simp only [List.map_cons, List.nodup_cons] at distinct
      by_cases same : k = key
      · cases h : change (some v) <;>
          simp [alterEntries, same, h, find?, Ne.symm different]
      · simp only [alterEntries, same, ↓reduceIte, find?]
        split
        · rfl
        · exact ih distinct.2

theorem mem_of_find? {key : κ} {value : ν} {entries : List (κ × ν)}
    (found : find? key entries = some value)
    : (key, value) ∈ entries := by
  induction entries with
  | nil => simp [find?] at found
  | cons entry rest ih =>
      obtain ⟨k, v⟩ := entry
      simp only [find?] at found
      split at found
      · rename_i same
        simp [same, Option.some.inj found]
      · exact List.mem_cons_of_mem _ (ih found)

/-- A look-up finds what an entry holds, since no key has two entries. -/
theorem get?_of_mem {table : Table κ ν} {key : κ} {value : ν}
    (member : (key, value) ∈ table.entries)
    : table.get? key = some value := by
  obtain ⟨entries, distinct⟩ := table
  simp only [get?] at member ⊢
  induction entries with
  | nil => cases member
  | cons entry rest ih =>
      obtain ⟨k, v⟩ := entry
      rw [List.map_cons, List.nodup_cons] at distinct
      rcases List.mem_cons.1 member with same | later
      · obtain ⟨rfl, rfl⟩ := Prod.mk.inj same
        simp only [find?, ↓reduceIte]
      · have different : k ≠ key := by
          rintro rfl
          exact distinct.1 (List.mem_map.2 ⟨_, later, rfl⟩)
        simp only [find?, different, ↓reduceIte]
        exact ih distinct.2 later

/-- What holds of all entries, and of what a change gives the altered key, holds of all entries
afterwards.
-/
theorem forall_mem_alter {table : Table κ ν} {key : κ} {change : Option ν → Option ν}
    (property : κ × ν → Prop) (all : ∀ entry ∈ table.entries, property entry)
    (changed : ∀ value, change (table.get? key) = some value → property (key, value))
    : ∀ entry ∈ (table.alter key change).entries, property entry := by
  rintro ⟨other, value⟩ member
  have found := get?_of_mem member
  by_cases same : other = key
  · subst same
    rw [get?_alter_self] at found
    exact changed value found
  · rw [get?_alter_of_ne _ _ same] at found
    exact all _ (mem_of_find? found)

end Table

/-- An index lists, for each key, the values filed under it in the order in which they came. A key
without values has no entry.
-/
abbrev Index (κ ν : Type) := Table κ (List ν)

namespace Index

variable {κ ν : Type} [DecidableEq κ] [DecidableEq ν]

/-- The values filed under a key. -/
def values (index : Index κ ν) (key : κ) : List ν := (index.get? key).getD []

/-- Files a value under a key, last; a value that is filed already keeps its place. -/
def file (index : Index κ ν) (key : κ) (value : ν)
    : Index κ ν :=
  index.alter key fun old => some (addLast (old.getD []) value)

/-- Takes a value out from under a key, and the key with its last value. -/
def unfile (index : Index κ ν) (key : κ) (value : ν)
    : Index κ ν :=
  index.alter key fun old =>
    match (old.getD []).erase value with
    | [] => none
    | rest => some rest

end Index

end Invalidation
