import Invalidation.Integration
import Invalidation.Proofs.Table

/-! Which artifacts are in use after the paths of an integration are added and taken out. What was
last seen at a path plays no part in it.
-/

namespace Invalidation

namespace Externals

variable {externals : Externals}

theorem contains_register (externals : Externals) (path other : String)
    : (externals.register path).contains other
      = (decide (other = path) || externals.contains other) := by
  rw [register, Table.contains_alter]
  split <;> simp [*]

theorem contains_forget (externals : Externals) (path other : String)
    : (externals.forget path).contains other
      = (!decide (other = path) && externals.contains other) := by
  rw [forget, Table.contains_alter]
  split <;> simp [*]

theorem contains_observe (externals : Externals) (external : External) (other : String)
    : (externals.observe external).contains other = externals.contains other := by
  unfold observe
  split
  · rw [Table.contains_alter]
    split
    · rename_i same
      subst same
      simp [Table.contains]
    · rfl
  · rfl

/-- What is remembered of an artifact changes where its path is in use and a fingerprint comes with
it.
-/
theorem get?_observe (externals : Externals) (external : External) (path : String)
    : (externals.observe external).get? path
      = (externals.get? path).map fun seen =>
          if path = external.path then external.fingerprint.or seen else seen := by
  unfold observe
  cases external.fingerprint with
  | none => simp
  | some current =>
      by_cases same : path = external.path
      · subst same
        simp
      · simp [same, Table.get?_alter_of_ne _ _ same]

/-- Looking at an artifact neither brings a path into use nor takes one out, and keeps their order.
-/
theorem keys_observe (externals : Externals) (external : External)
    : Table.keys (externals.observe external) = Table.keys externals := by
  unfold observe
  cases external.fingerprint with
  | none => rfl
  | some current =>
      by_cases known : external.path ∈ Table.keys externals
      · have kept : ((externals.get? external.path).map fun _ => some current).isSome = true := by
          rw [Option.isSome_map]
          exact Table.contains_iff_mem_keys.2 known
        exact (Table.keys_alter _ _ _ kept).trans (addLast_of_mem known)
      · have unknown
            : ((externals.get? external.path).map fun _ => some current)
              = externals.get? external.path := by
          rw [Table.get?_eq_none_iff.2 known, Option.map_none]
        exact congrArg Table.keys (Table.alter_eq_self unknown)

/-- A path that is added has nothing seen, unless it is known already. -/
theorem get?_register (externals : Externals) (path other : String)
    : (externals.register path).get? other
      = (externals.get? other).or (if other = path then some none else none) := by
  by_cases same : other = path
  · subst same
    cases found : externals.get? other <;> simp [register, found]
  · simp [register, same, Table.get?_alter_of_ne _ _ same]

theorem get?_foldl_register (externals : Externals) (paths : List String) (other : String)
    : Table.get? (paths.foldl Externals.register externals) other
      = (externals.get? other).or (if other ∈ paths then some none else none) := by
  induction paths generalizing externals with
  | nil => simp
  | cons path rest ih =>
      rw [List.foldl_cons, ih, get?_register, Option.or_assoc]
      congr 1
      by_cases same : other = path <;> by_cases later : other ∈ rest <;> simp [same, later]

/-- Registering paths one after the other brings all of them into use, by induction on the paths. -/
theorem contains_foldl_register (externals : Externals) (paths : List String) (other : String)
    : Table.contains (paths.foldl Externals.register externals) other
      = (paths.contains other || externals.contains other) := by
  induction paths generalizing externals with
  | nil => simp
  | cons path rest ih =>
      rw [List.foldl_cons, ih, contains_register, List.contains_cons, ← Bool.or_assoc]
      congr 1
      rw [Bool.or_comm]
      rfl

/-- Forgetting the unused paths among those of removed facts takes exactly these out of use, by
induction on the facts.
-/
theorem contains_foldl_forgetUnused (store : Store) (externals : Externals)
    (removed : List Fact) (path : String)
    : Table.contains (removed.foldl (Integration.forgetUnused store) externals) path
      ↔ externals.contains path
        ∧ ∀ fact ∈ removed,
            fact.key.externalPath? = some path → store.users.values fact.key ≠ [] := by
  induction removed generalizing externals with
  | nil => simp
  | cons fact rest ih =>
      rw [List.foldl_cons, ih, List.forall_mem_cons, ← and_assoc]
      refine and_congr_left fun _ => ?_
      unfold Integration.forgetUnused
      cases external : fact.key.externalPath? with
      | none => simp
      | some own =>
          by_cases unused : store.users.values fact.key = []
          · simp only [unused, ↓reduceIte, contains_forget, Bool.and_eq_true, Bool.not_eq_true',
              decide_eq_false_iff_not, Option.some.injEq, ne_eq, not_true_eq_false, imp_false]
            rw [and_comm, @eq_comm _ path]
          · simp [unused]

/-- A path that stays in use while those of removed facts are forgotten keeps what was seen there;
by induction on the facts.
-/
theorem get?_foldl_forgetUnused (store : Store) (externals : Externals) {removed : List Fact}
    {path : String}
    (kept : Table.contains (removed.foldl (Integration.forgetUnused store) externals) path)
    : Table.get? (removed.foldl (Integration.forgetUnused store) externals) path
      = externals.get? path := by
  induction removed generalizing externals with
  | nil => rfl
  | cons fact rest ih =>
      refine (ih _ kept).trans ?_
      obtain ⟨-, keptFirst⟩ := (contains_foldl_forgetUnused store externals _ path).1 kept
      unfold Integration.forgetUnused
      split
      · rename_i own isPath
        split
        · rename_i unused
          refine Table.get?_alter_of_ne _ _ fun same => ?_
          exact keptFirst fact List.mem_cons_self (same ▸ isPath) unused
        · rfl
      · rfl

end Externals

end Invalidation
