import Invalidation.Table

/-! The order of keys in a table, and that its entries are what a look-up finds. A key keeps the
place at which it was first added for as long as it has a value.
-/

namespace Invalidation

theorem addLast_of_mem {α : Type} [DecidableEq α] {list : List α} {x : α} (known : x ∈ list)
    : addLast list x = list := by
  rw [addLast, if_pos known]

/-- Adding the elements of a list one by one keeps the first occurrence of each, by induction on the
list.
-/
theorem foldl_addLast_eq_append {α : Type} [DecidableEq α] (list news : List α)
    : news.foldl addLast list = list ++ (news.filter (· ∉ list)).eraseDups := by
  induction news generalizing list with
  | nil => simp
  | cons x rest ih =>
      rw [List.foldl_cons, ih]
      by_cases known : x ∈ list
      · rw [addLast_of_mem known, List.filter_cons_of_neg (by simpa using known)]
      · have others
            : rest.filter (fun y => decide (y ∉ addLast list x))
              = (rest.filter (fun y => decide (y ∉ list))).filter (fun y => !y == x) := by
          rw [List.filter_filter]
          apply List.filter_congr
          intro y _
          by_cases same : y = x <;> simp [mem_addLast, same]
        rw [others, List.filter_cons_of_pos (by simpa using known), List.eraseDups_cons,
          addLast, if_neg known, List.append_assoc, List.singleton_append]

theorem foldl_addLast_nil {α : Type} [DecidableEq α] (list : List α)
    : list.foldl addLast [] = list.eraseDups := by
  rw [foldl_addLast_eq_append, List.nil_append, List.filter_eq_self.2 (by simp)]

/-- Elements that are new and distinct are added in their order, by induction on them. -/
theorem foldl_addLast_of_nodup {α : Type} [DecidableEq α] {list news : List α}
    (distinct : (list ++ news).Nodup)
    : news.foldl addLast list = list ++ news := by
  induction news generalizing list with
  | nil => rw [List.foldl_nil, List.append_nil]
  | cons x rest ih =>
      have absent : x ∉ list := fun known =>
        (List.nodup_append.1 distinct).2.2 x known x List.mem_cons_self rfl
      rw [List.append_cons] at distinct ⊢
      rw [List.foldl_cons, addLast, if_neg absent, ih distinct]

namespace Table

variable {κ ν : Type} [DecidableEq κ]

theorem contains_iff_mem_keys {table : Table κ ν} {key : κ}
    : table.contains key ↔ key ∈ table.keys := by
  constructor
  · intro known
    obtain ⟨value, found⟩ := Option.isSome_iff_exists.1 known
    exact List.mem_map.2 ⟨_, mem_of_find? found, rfl⟩
  · intro known
    obtain ⟨entry, member, rfl⟩ := List.mem_map.1 known
    rw [contains, get?_of_mem member]
    rfl

theorem get?_eq_none_iff {table : Table κ ν} {key : κ}
    : table.get? key = none ↔ key ∉ table.keys := by
  rw [← contains_iff_mem_keys, contains, Bool.not_eq_true, Option.isSome_eq_false_iff,
    Option.isNone_iff_eq_none]

omit [DecidableEq κ] in
theorem eq_of_entries_eq {left right : Table κ ν} (entries : left.entries = right.entries)
    : left = right := by
  cases left
  cases right
  cases entries
  rfl

/-- A table is given by its keys in their order and by what a look-up finds. -/
theorem eq_of_get?_eq {left right : Table κ ν} (keys : left.keys = right.keys)
    (values : ∀ key, left.get? key = right.get? key)
    : left = right := by
  have entries : left.entries = right.entries := by
    have sameLength : left.entries.length = right.entries.length := by
      simpa [Table.keys] using congrArg List.length keys
    refine List.ext_getElem sameLength fun place here there => ?_
    have sameKey : left.entries[place].1 = right.entries[place].1 := by
      have found := congrArg (·[place]?) keys
      simpa [Table.keys, here, there] using found
    have leftValue : left.get? left.entries[place].1 = some left.entries[place].2 :=
      get?_of_mem (List.getElem_mem here)
    have rightValue : right.get? right.entries[place].1 = some right.entries[place].2 :=
      get?_of_mem (List.getElem_mem there)
    rw [values, sameKey, rightValue, Option.some.injEq] at leftValue
    exact Prod.ext sameKey leftValue.symm
  exact eq_of_entries_eq entries

/-- A key has a value after an alteration if it is the altered one and the change gives it one, or
if it is another one that had a value.
-/
theorem contains_alter (table : Table κ ν) (key other : κ) (change : Option ν → Option ν)
    : (table.alter key change).contains other
      = if other = key then (change (table.get? key)).isSome else table.contains other := by
  by_cases same : other = key
  · subst same
    simp [contains]
  · simp only [contains, same, ↓reduceIte, get?_alter_of_ne _ _ same]

/-- A key that has a value after an alteration keeps its place or comes last. -/
theorem keys_alter (table : Table κ ν) (key : κ) (change : Option ν → Option ν)
    (kept : (change (table.get? key)).isSome = true)
    : (table.alter key change).keys = addLast table.keys key := by
  obtain ⟨entries, distinct⟩ := table
  simp only [keys, alter, get?] at kept ⊢
  induction entries with
  | nil =>
      obtain ⟨value, given⟩ := Option.isSome_iff_exists.1 kept
      rw [find?] at given
      simp [alterEntries, given, addLast]
  | cons entry rest ih =>
      obtain ⟨k, v⟩ := entry
      rw [List.map_cons, List.nodup_cons] at distinct
      by_cases same : k = key
      · simp only [find?, same, ↓reduceIte] at kept
        obtain ⟨value, given⟩ := Option.isSome_iff_exists.1 kept
        simp [alterEntries, same, given, addLast]
      · simp only [find?, same, ↓reduceIte] at kept
        simp only [alterEntries, same, ↓reduceIte, List.map_cons, ih distinct.2 kept]
        by_cases known : key ∈ rest.map Prod.fst
        · rw [addLast_of_mem known, addLast_of_mem (List.mem_cons_of_mem _ known)]
        · have absent : key ∉ k :: rest.map Prod.fst := by
            simpa [Ne.symm same] using known
          rw [addLast, if_neg known, addLast, if_neg absent, List.cons_append]

/-- An alteration that gives a key what it had leaves the table as it is. -/
theorem alter_eq_self {table : Table κ ν} {key : κ} {change : Option ν → Option ν}
    (same : change (table.get? key) = table.get? key)
    : table.alter key change = table := by
  obtain ⟨entries, distinct⟩ := table
  apply eq_of_entries_eq
  simp only [get?, alter] at same ⊢
  induction entries with
  | nil =>
      rw [find?] at same
      simp only [alterEntries, same]
  | cons entry rest ih =>
      obtain ⟨k, v⟩ := entry
      rw [List.map_cons, List.nodup_cons] at distinct
      by_cases found : k = key
      · simp only [find?, found, ↓reduceIte] at same
        simp only [alterEntries, found, ↓reduceIte, same]
      · simp only [find?, found, ↓reduceIte] at same
        simp only [alterEntries, found, ↓reduceIte, ih distinct.2 same]

/-- Changing the value of a key that has one moves no key. -/
theorem keys_alter_map (table : Table κ ν) (key : κ) (change : ν → ν)
    : (table.alter key (·.map change)).keys = table.keys := by
  by_cases known : key ∈ table.keys
  · have kept : ((table.get? key).map change).isSome = true := by
      rw [Option.isSome_map]
      exact contains_iff_mem_keys.2 known
    rw [keys_alter _ _ _ kept, addLast_of_mem known]
  · rw [alter_eq_self (by rw [get?_eq_none_iff.2 known]; rfl)]

/-- Tables in which a look-up finds the same have as many entries, in whatever order. -/
theorem length_entries_of_get?_eq {left right : Table κ ν}
    (same : ∀ key, left.get? key = right.get? key)
    : left.entries.length = right.entries.length := by
  have keys : left.keys.Perm right.keys := by
    apply (List.perm_ext_iff_of_nodup left.distinct right.distinct).2
    intro key
    change key ∈ left.keys ↔ key ∈ right.keys
    rw [← contains_iff_mem_keys, ← contains_iff_mem_keys, contains, contains, same]
  simpa [Table.keys] using keys.length_eq

/-- A new key comes last, with the value that it is given. -/
theorem entries_alter_of_notMem {table : Table κ ν} {key : κ} {change : Option ν → Option ν}
    {value : ν} (absent : key ∉ table.keys) (given : change none = some value)
    : (table.alter key change).entries = table.entries ++ [(key, value)] := by
  obtain ⟨entries, distinct⟩ := table
  simp only [keys, alter] at absent ⊢
  induction entries with
  | nil => simp [alterEntries, given]
  | cons entry rest ih =>
      obtain ⟨k, v⟩ := entry
      rw [List.map_cons, List.nodup_cons] at distinct
      rw [List.map_cons, List.mem_cons, not_or] at absent
      simp only [alterEntries, Ne.symm absent.1, ↓reduceIte, List.cons_append]
      rw [ih distinct.2 absent.2]

end Table

end Invalidation
