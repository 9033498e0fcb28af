import Invalidation.Proofs.Store.Alike
import Invalidation.Proofs.Store.Frame
import Invalidation.Proofs.Store.Indexed

/-! In which order the indices of a store list things. Storing a fact moves it last wherever it is
listed, so once a unit's facts were stored one after the other, the unit stands last among the users
of what it uses, and the dependents of its nodes stand in the order of its facts. Storing the same
facts again then leaves every order as it is.
-/

namespace Invalidation

-----------------------------------------------------------------------------------------
-- Taking out and adding several times over
-----------------------------------------------------------------------------------------

section

variable {α β : Type} [DecidableEq α] {list : List α} {x : α}

/-- Taking an element out for each of some targets is taking it out once, if there is a target at
all or nothing to take out.
-/
theorem foldl_erase_const (distinct : list.Nodup) {targets : List β}
    (listed : x ∈ list → targets ≠ [])
    : targets.foldl (fun list _ => list.erase x) list = list.erase x := by
  induction targets generalizing list with
  | nil => exact (List.erase_of_not_mem fun member => listed member rfl).symm
  | cons target rest ih =>
      have gone : x ∉ list.erase x := distinct.not_mem_erase
      rw [List.foldl_cons, ih (distinct.erase x) (absurd · gone), List.erase_of_not_mem gone]

theorem foldl_addLast_const_of_mem (listed : x ∈ list) (targets : List β)
    : targets.foldl (fun list _ => addLast list x) list = list := by
  induction targets with
  | nil => rfl
  | cons target rest ih => rw [List.foldl_cons, addLast_of_mem listed, ih]

/-- Adding an element for each of some targets is adding it once, if there is a target at all. -/
theorem foldl_addLast_const (unlisted : x ∉ list) (targets : List β)
    : targets.foldl (fun list _ => addLast list x) list
      = list ++ if targets = [] then [] else [x] := by
  cases targets with
  | nil => simp
  | cons target rest =>
      have added : addLast list x = list ++ [x] := if_neg unlisted
      rw [List.foldl_cons, added, foldl_addLast_const_of_mem (by simp)]
      rfl

/-- Taking out one element and then some others takes out all of them. -/
theorem filter_notMem_erase (distinct : list.Nodup) (others : List α)
    : (list.erase x).filter (· ∉ others) = list.filter (· ∉ x :: others) := by
  rw [distinct.erase_eq_filter, List.filter_filter]
  apply List.filter_congr
  intro y _
  by_cases same : y = x <;> simp [same]

end

namespace Store

variable {store : Store} {unit : UnitName} {fact : Fact} {facts : List Fact}

-----------------------------------------------------------------------------------------
-- Storing one fact
-----------------------------------------------------------------------------------------

/-- Dropping a node takes its unit out of the users of its key. -/
theorem Indexed.users_drop (indexed : store.Indexed) (node : NodeRef) (key : Key)
    : (store.drop node).users.values key
      = if key = node.key then (store.users.values key).erase node.unit
        else store.users.values key := by
  have idle (noUse : ∀ fact ∈ store.factsOf node.unit, fact.key = node.key → fact.isDefinition)
      : (if key = node.key then (store.users.values key).erase node.unit
          else store.users.values key)
        = store.users.values key := by
    apply ite_eq_right_iff.2
    intro same
    apply List.erase_of_not_mem
    intro listed
    obtain ⟨fact, owned, sameKey, isUse⟩ := indexed.users.1 listed
    simp [noUse fact owned (sameKey.trans same)] at isUse
  cases found : store.fact? node with
  | none =>
      have absent := indexed.fact?_eq_none_iff.1 found
      simp only [Store.drop, found]
      exact (idle fun fact owned sameKey => absurd sameKey (absent fact owned)).symm
  | some old =>
      obtain ⟨owned, oldKey⟩ := indexed.mem_of_fact? found
      cases provided : old.isDefinition with
      | true =>
          simp only [Store.drop, found, provided, ↓reduceIte]
          refine (idle fun fact factOwned sameKey => ?_).symm
          rwa [indexed.unique factOwned owned (sameKey.trans oldKey.symm)]
      | false =>
          simp only [Store.drop, found, provided, Bool.false_eq_true, ↓reduceIte,
            Index.values_unfile]
          by_cases same : key = node.key <;> simp [same]

/-- Storing a fact moves its unit last among the users of its key, or takes it out of them if the
fact is a definition.
-/
theorem Indexed.users_put (indexed : store.Indexed) (unit : UnitName) (fact : Fact) (key : Key)
    : (store.put unit fact).users.values key
      = if key = fact.key then
          (store.users.values key).erase unit ++ if fact.isDefinition then [] else [unit]
        else store.users.values key := by
  have dropped (key : Key)
      : (store.drop (fact.refIn unit)).users.values key
        = if key = fact.key then (store.users.values key).erase unit
          else store.users.values key :=
    indexed.users_drop (fact.refIn unit) key
  have gone : unit ∉ (store.users.values fact.key).erase unit :=
    (indexed.usersDistinct fact.key).not_mem_erase
  cases provided : fact.isDefinition with
  | true =>
      simp only [Store.put, Store.add, provided, ↓reduceIte, List.append_nil]
      exact dropped key
  | false =>
      simp only [Store.put, Store.add, provided, Bool.false_eq_true, ↓reduceIte, Index.values_file]
      by_cases same : key = fact.key
      · rw [if_pos same, if_pos same, dropped, if_pos rfl, same]
        exact if_neg gone
      · rw [if_neg same, if_neg same, dropped, if_neg same]

/-- Dropping a node takes its key out of the dependents of its unit's nodes. -/
theorem Indexed.dependents_drop (indexed : store.Indexed) (node : NodeRef) (target : Key)
    : (store.drop node).dependents.values ⟨target, node.unit⟩
      = (store.dependents.values ⟨target, node.unit⟩).erase node.key := by
  cases found : store.fact? node with
  | none =>
      rw [Store.drop, found, List.erase_of_not_mem]
      intro listed
      obtain ⟨fact, owned, sameKey, -⟩ := indexed.dependents.1 listed
      exact indexed.fact?_eq_none_iff.1 found fact owned sameKey
  | some old =>
      rw [Store.dependents_drop found]
      apply foldl_erase_const (indexed.dependentsDistinct _)
      intro listed
      obtain ⟨owned, oldKey⟩ := indexed.mem_of_fact? found
      obtain ⟨fact, factOwned, sameKey, depends⟩ := indexed.dependents.1 listed
      obtain rfl := indexed.unique factOwned owned (sameKey.trans oldKey.symm)
      exact List.ne_nil_of_mem (List.mem_filter.2 ⟨depends, by simp⟩)

/-- Storing a fact moves its key last among the dependents of its targets, and takes it out of those
of the other nodes of its unit.
-/
theorem Indexed.dependents_put (indexed : store.Indexed) (unit : UnitName) (fact : Fact)
    (target : Key)
    : (store.put unit fact).dependents.values ⟨target, unit⟩
      = (store.dependents.values ⟨target, unit⟩).erase fact.key
        ++ if target ∈ fact.dependsOn then [fact.key] else [] := by
  have dropped
      : (store.drop (fact.refIn unit)).dependents.values ⟨target, unit⟩
        = (store.dependents.values ⟨target, unit⟩).erase fact.key :=
    indexed.dependents_drop (fact.refIn unit) target
  have gone : fact.key ∉ (store.dependents.values ⟨target, unit⟩).erase fact.key :=
    (indexed.dependentsDistinct _).not_mem_erase
  have edges
      : fact.dependsOn.filter (fun key => (⟨key, unit⟩ : NodeRef) = ⟨target, unit⟩) = []
        ↔ target ∉ fact.dependsOn := by
    simp only [List.filter_eq_nil_iff, NodeRef.mk.injEq, and_true, decide_eq_true_eq]
    exact ⟨fun none depends => none target depends rfl,
      fun independent key depends same => independent (same ▸ depends)⟩
  rw [Store.put, dependents_add, dropped]
  refine (foldl_addLast_const gone _).trans ?_
  simp only [edges, ite_not]

-----------------------------------------------------------------------------------------
-- Storing all facts of a unit
-----------------------------------------------------------------------------------------

/-- What has none of the stored keys keeps its users. -/
theorem Indexed.users_putAll_of_notMem (indexed : store.Indexed) {key : Key}
    (absent : key ∉ facts.map (·.key))
    : (store.putAll unit facts).users.values key = store.users.values key := by
  induction facts generalizing store with
  | nil => rfl
  | cons fact rest ih =>
      simp only [List.map_cons, List.mem_cons, not_or] at absent
      refine (ih (indexed.put unit fact) absent.2).trans ?_
      rw [indexed.users_put, if_neg absent.1]

/-- Among the users of a stored key, the unit comes last if it uses the key. -/
theorem Indexed.users_putAll_of_mem (indexed : store.Indexed)
    (distinct : (facts.map (·.key)).Nodup) (member : fact ∈ facts)
    : (store.putAll unit facts).users.values fact.key
      = (store.users.values fact.key).erase unit ++ if fact.isDefinition then [] else [unit] := by
  induction facts generalizing store with
  | nil => cases member
  | cons first rest ih =>
      obtain ⟨absent, restDistinct⟩ := List.nodup_cons.1 distinct
      have stored := indexed.put unit first
      rcases List.mem_cons.1 member with rfl | later
      · refine (stored.users_putAll_of_notMem absent).trans ?_
        rw [indexed.users_put, if_pos rfl]
      · have different : fact.key ≠ first.key := fun same =>
          absent (List.mem_map.2 ⟨fact, later, same⟩)
        refine (ih stored restDistinct later).trans ?_
        rw [indexed.users_put, if_neg different]

/-- What is stored comes last among the dependents of its targets, in the order in which it is
stored.
-/
theorem Indexed.dependents_putAll (indexed : store.Indexed)
    (distinct : (facts.map (·.key)).Nodup) (target : Key)
    : (store.putAll unit facts).dependents.values ⟨target, unit⟩
      = (store.dependents.values ⟨target, unit⟩).filter (· ∉ facts.map (·.key))
        ++ (facts.filter (target ∈ ·.dependsOn)).map (·.key) := by
  induction facts generalizing store with
  | nil => simp [Store.putAll]
  | cons fact rest ih =>
      obtain ⟨absent, restDistinct⟩ := List.nodup_cons.1 distinct
      have kept
          : ((store.put unit fact).dependents.values ⟨target, unit⟩).filter
              (· ∉ rest.map (·.key))
            = (store.dependents.values ⟨target, unit⟩).filter
                (· ∉ (fact :: rest).map (·.key))
              ++ if target ∈ fact.dependsOn then [fact.key] else [] := by
        rw [indexed.dependents_put, List.filter_append,
          filter_notMem_erase (indexed.dependentsDistinct _)]
        congr 1
        split
        · exact List.filter_eq_self.2 fun key isKey => by
            simpa [List.mem_singleton.1 isKey] using absent
        · rfl
      refine (ih (indexed.put unit fact) restDistinct).trans ?_
      rw [kept, List.append_assoc]
      congr 1
      by_cases depends : target ∈ fact.dependsOn <;> simp [depends]

/-- Dropping facts takes their unit out of the users of their keys alone. -/
theorem Indexed.users_dropAll_of_notMem (indexed : store.Indexed) {key : Key}
    (absent : key ∉ facts.map (·.key))
    : (store.dropAll unit facts).users.values key = store.users.values key := by
  induction facts generalizing store with
  | nil => rfl
  | cons fact rest ih =>
      simp only [List.map_cons, List.mem_cons, not_or] at absent
      refine (ih (indexed.drop (fact.refIn unit)) absent.2).trans ?_
      rw [indexed.users_drop, Fact.refIn_key, if_neg absent.1]

/-- Dropping facts takes their keys out of the dependents of their unit's nodes. -/
theorem Indexed.dependents_dropAll (indexed : store.Indexed) (target : Key)
    : (store.dropAll unit facts).dependents.values ⟨target, unit⟩
      = (store.dependents.values ⟨target, unit⟩).filter (· ∉ facts.map (·.key)) := by
  induction facts generalizing store with
  | nil => simp [Store.dropAll]
  | cons fact rest ih =>
      have dropped
          : (store.drop (fact.refIn unit)).dependents.values ⟨target, unit⟩
            = (store.dependents.values ⟨target, unit⟩).erase fact.key :=
        indexed.dependents_drop (fact.refIn unit) target
      refine (ih (indexed.drop (fact.refIn unit))).trans ?_
      rw [dropped]
      exact filter_notMem_erase (indexed.dependentsDistinct _) _

-----------------------------------------------------------------------------------------
-- Storing them again
-----------------------------------------------------------------------------------------

/-- A unit stands last among the users of each key that it uses, and the dependents of each of its
nodes stand in the order of its facts.
-/
structure SettledAt (unit : UnitName) (store : Store) : Prop where
  users
    : ∀ fact ∈ store.factsOf unit,
        fact.isDefinition = false → ∃ others, store.users.values fact.key = others ++ [unit]
  dependents
    : ∀ target,
        store.dependents.values ⟨target, unit⟩
        = ((store.factsOf unit).filter (target ∈ ·.dependsOn)).map (·.key)

/-- Storing the facts of a unit again keeps what is stored, in its order. -/
theorem Indexed.sameNodes_putAll_self (indexed : store.Indexed) (unit : UnitName)
    : (store.putAll unit (store.factsOf unit)).SameNodes store := by
  have nothingElse
      : (store.factsOf unit).filter (fun old => !(store.factsOf unit).any (·.key = old.key))
        = [] := by
    apply List.filter_eq_nil_iff.2
    intro old member
    simpa using ⟨old, member, rfl⟩
  refine (indexed.toSynced.putAll unit _).sameNodes indexed.toSynced ?_ fun other => ?_
  · by_cases nonempty : store.factsOf unit = []
    · rw [nonempty]
      rfl
    · obtain ⟨fact, owned⟩ := List.exists_mem_of_ne_nil _ nonempty
      rw [unitNames_putAll nonempty, addLast_of_mem (mem_unitNames_of_mem_factsOf owned)]
  · rw [indexed.factsOf_putAll (indexed.keysDistinct unit)]
    split
    · rename_i same
      rw [same, nothingElse, List.nil_append]
    · rfl

/-- A settled unit stays last among the users of what it uses, when its facts are stored again. -/
theorem Indexed.users_putAll_self (indexed : store.Indexed) (settled : SettledAt unit store)
    (key : Key)
    : (store.putAll unit (store.factsOf unit)).users.values key = store.users.values key := by
  by_cases owned : key ∈ (store.factsOf unit).map (·.key)
  · obtain ⟨fact, member, rfl⟩ := List.mem_map.1 owned
    rw [indexed.users_putAll_of_mem (indexed.keysDistinct unit) member]
    cases provided : fact.isDefinition with
    | true =>
        have unlisted : unit ∉ store.users.values fact.key := by
          intro listed
          obtain ⟨use, useOwned, sameKey, isUse⟩ := indexed.users.1 listed
          rw [indexed.unique useOwned member sameKey, provided] at isUse
          cases isUse
        rw [List.erase_of_not_mem unlisted, if_pos rfl, List.append_nil]
    | false =>
        obtain ⟨others, last⟩ := settled.users fact member provided
        have alone : unit ∉ others := fun listed =>
          List.disjoint_of_nodup_append (last ▸ indexed.usersDistinct fact.key) listed
            (List.mem_singleton.2 rfl)
        rw [last, List.erase_append_right _ alone]
        simp
  · exact indexed.users_putAll_of_notMem owned

/-- The dependents of a settled unit's nodes stay in their order, when its facts are stored again. -/
theorem Indexed.dependents_putAll_self (indexed : store.Indexed) (settled : SettledAt unit store)
    (node : NodeRef)
    : (store.putAll unit (store.factsOf unit)).dependents.values node
      = store.dependents.values node := by
  by_cases own : node.unit = unit
  · obtain ⟨target, owner⟩ := node
    obtain rfl := own
    have nothingElse
        : (store.dependents.values ⟨target, owner⟩).filter
            (· ∉ (store.factsOf owner).map (·.key)) = [] := by
      apply List.filter_eq_nil_iff.2
      intro key isDependent
      obtain ⟨fact, member, rfl, -⟩ := indexed.dependents.1 isDependent
      simpa using ⟨fact, member, rfl⟩
    rw [indexed.dependents_putAll (indexed.keysDistinct owner), nothingElse, List.nil_append,
      settled.dependents]
  · exact (alikeAt_putAll (Ne.symm own) store _).dependents node rfl

/-- Storing the facts of a unit again changes nothing of what is stored where they are settled. -/
theorem Indexed.putAll_alike (indexed : store.Indexed) (settled : SettledAt unit store)
    : (store.putAll unit (store.factsOf unit)).Alike store :=
  ⟨indexed.sameNodes_putAll_self unit, indexed.users_putAll_self settled,
    indexed.dependents_putAll_self settled⟩

-----------------------------------------------------------------------------------------
-- Marks that are left alone
-----------------------------------------------------------------------------------------

/-- Taking marks away changes nothing where none of the nodes is marked. -/
theorem marked_unmark_of_disjoint {nodes : List NodeRef}
    (disjoint : ∀ ref ∈ store.marked, ref ∉ nodes)
    : (store.unmark nodes).marked = store.marked :=
  List.filter_eq_self.2 fun ref marked => by simpa using disjoint ref marked

/-- Storing facts of a unit takes no mark away where none of its nodes is marked. -/
theorem marked_putAll_of_elsewhere (elsewhere : ∀ ref ∈ store.marked, ref.unit ≠ unit)
    (facts : List Fact)
    : (store.putAll unit facts).marked = store.marked := by
  refine putAll_induction (motive := (·.marked = store.marked)) (fun {before} same fact => ?_) rfl
    facts
  have kept : (before.drop (fact.refIn unit)).marked = before.marked := by
    unfold Store.drop
    split
    · rfl
    · apply List.filter_eq_self.2
      intro ref marked
      refine decide_eq_true fun isFact => elsewhere ref (same ▸ marked) ?_
      rw [isFact, Fact.refIn_unit]
  exact kept.trans same

end Store

end Invalidation
