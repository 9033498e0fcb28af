import Invalidation.Proofs.Except
import Invalidation.Proofs.Externals
import Invalidation.Proofs.Saved.Layout
import Invalidation.Proofs.Store.Alike

/-! The graph that a saved one stands for: it has the same facts and the same artifacts in use as the
graph that was saved, with fingerprints read anew. There is one exactly if no key has an empty part.
-/

namespace Invalidation

/-- A fingerprint as it comes back from its saved form. -/
def Fingerprint.reread : Fingerprint → Fingerprint
  | digest token => parse token
  | unreadable => unreadable

/-- Whether a fingerprint was read from a token. -/
def Fingerprint.Parsed (fingerprint : Fingerprint) : Prop := ∃ token, fingerprint = .parse token

/-- What comes back was read from a token. -/
theorem Fingerprint.parsed_reread (fingerprint : Fingerprint) : fingerprint.reread.Parsed := by
  cases fingerprint with
  | digest token => exact ⟨token, rfl⟩
  | unreadable => exact ⟨"", rfl⟩

/-- The fingerprints that come back as they are, are those that were read from a token. -/
theorem Fingerprint.reread_eq_self_iff {fingerprint : Fingerprint}
    : fingerprint.reread = fingerprint ↔ fingerprint.Parsed := by
  constructor
  · exact fun same => same ▸ fingerprint.parsed_reread
  · rintro ⟨token, rfl⟩
    unfold parse
    split
    · rename_i readable
      rw [reread, parse, if_pos readable]
    · rfl

instance (fingerprint : Fingerprint) : Decidable fingerprint.Parsed :=
  decidable_of_iff _ Fingerprint.reread_eq_self_iff

theorem Fingerprint.map_reread {fingerprint : Option Fingerprint}
    (parsed : ∀ given ∈ fingerprint, given.Parsed)
    : fingerprint.map .reread = fingerprint := by
  cases fingerprint with
  | none => rfl
  | some given => rw [Option.map_some, reread_eq_self_iff.2 (parsed given rfl)]

/-- A fact as it comes back from its saved form. -/
def Fact.reread (fact : Fact)
    : Fact :=
  { fact with fingerprint := fact.fingerprint.map Fingerprint.reread }

namespace Designator

/-- Whether no part is empty. -/
def Complete (designator : Designator) : Prop :=
  "" ∉ designator.context?.toList ++ designator.name?.toList

instance (designator : Designator) : Decidable designator.Complete :=
  inferInstanceAs (Decidable ("" ∉ designator.context?.toList ++ designator.name?.toList))

theorem demand_eq_ok_iff {missing : Malformation} {part text : String}
    : demand missing (some part) = .ok text ↔ part ≠ "" ∧ part = text := by
  rw [demand]
  split
  · rename_i empty
    simp [empty]
  · rename_i present
    simp [present]

/-- A designator without empty parts is described by its parts, and no other is. -/
theorem describe_eq_ok_iff {designator described : Designator}
    : describe designator.kind designator.context? designator.name? = .ok described
      ↔ designator.Complete ∧ designator = described := by
  rw [describe, mapError_eq_ok, Complete]
  cases designator with
  | member context name =>
      simp only [kind, context?, name?, ofParts, bind_eq_ok, pure_eq_ok, demand_eq_ok_iff]
      constructor
      · rintro ⟨_, ⟨someContext, rfl⟩, _, ⟨someName, rfl⟩, rfl⟩
        simp [someContext, someName, eq_comm]
      · rintro ⟨present, rfl⟩
        simpa [eq_comm] using present
  | nominal context | potentialMember context =>
      simp only [kind, context?, name?, ofParts, ofParts.contextual, bind_eq_ok, pure_eq_ok,
        demand_eq_ok_iff]
      constructor
      · rintro ⟨_, ⟨someContext, rfl⟩, _, _, rfl⟩
        simp [someContext, eq_comm]
      · rintro ⟨present, rfl⟩
        simpa [eq_comm, refuse] using present
  | topLevel name | dynamicLookup name | externalDepend name | sourceFileProvide name =>
      simp only [kind, context?, name?, ofParts, ofParts.named, bind_eq_ok, pure_eq_ok,
        demand_eq_ok_iff]
      constructor
      · rintro ⟨_, _, _, ⟨someName, rfl⟩, rfl⟩
        simp [someName, eq_comm]
      · rintro ⟨present, rfl⟩
        simpa [eq_comm, refuse] using present

/-- What the parts of a designator lack, if one of them is empty. The context is looked at first. -/
def lacking (designator : Designator)
    : Malformation :=
  if designator.context? = some "" then .missingContext else .missingName

/-- A designator with an empty part is refused for it. -/
theorem describe_eq_error {designator : Designator} (incomplete : ¬designator.Complete)
    : describe designator.kind designator.context? designator.name?
      = .error (.malformedDesignator designator.kind designator.lacking) := by
  cases designator with
  | member context name =>
      by_cases empty : context = ""
      · simp [describe, kind, context?, ofParts, demand, lacking, empty, bind, Except.bind,
          Except.mapError]
      · have noName : name = "" := by
          simpa [Complete, context?, name?, eq_comm, empty] using incomplete
        simp [describe, kind, context?, name?, ofParts, demand, lacking, empty, noName, bind,
          Except.bind, Except.mapError]
  | nominal context | potentialMember context =>
      obtain rfl : context = "" := by
        simpa [Complete, context?, name?, eq_comm] using incomplete
      rfl
  | topLevel name | dynamicLookup name | externalDepend name | sourceFileProvide name =>
      obtain rfl : name = "" := by
        simpa [Complete, context?, name?, eq_comm] using incomplete
      rfl

end Designator

/-- Why the saved form of a fact cannot be loaded, if its key has an empty part. -/
def Fact.refusal (fact : Fact) (unit : UnitName)
    : Inconsistency :=
  .malformedNode unit
    (.malformedDesignator fact.key.designator.kind fact.key.designator.lacking)

/-- Whether no key that is stored has an empty part. -/
def Graph.KeysComplete (graph : Graph) : Prop :=
  ∀ unit ∈ graph.store.unitNames,
    ∀ fact ∈ graph.store.factsOf unit, fact.key.designator.Complete

instance (graph : Graph) : Decidable graph.KeysComplete :=
  inferInstanceAs
    (Decidable (∀ unit ∈ graph.store.unitNames,
      ∀ fact ∈ graph.store.factsOf unit, fact.key.designator.Complete))

namespace Saved

variable {table : List String} {unit : UnitName} {keys : List Key} {fact : Fact}

-----------------------------------------------------------------------------------------
-- Facts
-----------------------------------------------------------------------------------------

theorem text_idxOf {text : String} (known : text ∈ table)
    : Saved.text table (table.idxOf text) = .ok text := by
  rw [Saved.text, List.getElem?_idxOf known]

theorem text?_idxOf {part : Option String} (known : ∀ text ∈ part, text ∈ table)
    : text? table (part.map table.idxOf) = .ok part := by
  cases part with
  | none => rfl
  | some text =>
      rw [Option.map_some, text?, text_idxOf (known text rfl)]
      rfl

theorem toFingerprint_ofFingerprint {fingerprint : Option Invalidation.Fingerprint}
    (known : ∀ text ∈ fingerprintTexts fingerprint, text ∈ table)
    : toFingerprint table (fingerprint.map (ofFingerprint table))
      = .ok (fingerprint.map .reread) := by
  cases fingerprint with
  | none => rfl
  | some fingerprint =>
      cases fingerprint with
      | unreadable => rfl
      | digest token =>
          have here : token ∈ table := known token (List.mem_singleton.2 rfl)
          rw [Option.map_some, ofFingerprint, toFingerprint, text_idxOf here]
          rfl

/-- The key of a saved fact is read if it has no empty part, and is refused for that otherwise. -/
theorem toKey_ofFact (known : ∀ text ∈ factTexts fact, text ∈ table)
    : toKey table unit (ofFact table keys fact)
      = if fact.key.designator.Complete then .ok fact.key else .error (fact.refusal unit) := by
  have context
      : text? table (fact.key.designator.context?.map table.idxOf)
        = .ok fact.key.designator.context? :=
    text?_idxOf fun text member => known text (by simp [factTexts, Option.mem_def.1 member])
  have name
      : text? table (fact.key.designator.name?.map table.idxOf)
        = .ok fact.key.designator.name? :=
    text?_idxOf fun text member => known text (by simp [factTexts, Option.mem_def.1 member])
  simp only [toKey, ofFact, context, name, bind, Except.bind]
  by_cases complete : fact.key.designator.Complete
  · rw [Designator.describe_eq_ok_iff.2 ⟨complete, rfl⟩, if_pos complete]
    rfl
  · rw [Designator.describe_eq_error complete, if_neg complete]
    rfl

/-- Edges to keys of the unit are read back from the places of these keys, by induction on them. -/
theorem mapM_toTarget {key : Key} {targets : List Key} (within : ∀ target ∈ targets, target ∈ keys)
    : (targets.filterMap fun target => keys.findIdx? (· = target)).mapM (toTarget unit keys key)
      = .ok targets := by
  induction targets with
  | nil => rfl
  | cons target rest ih =>
      rw [List.forall_mem_cons] at within
      have some_place : (keys.findIdx? (· = target)).isSome = true := by
        simpa [List.findIdx?_isSome] using within.1
      obtain ⟨place, found⟩ := Option.isSome_iff_exists.1 some_place
      obtain ⟨inside, here, -⟩ := List.findIdx?_eq_some_iff_getElem.1 found
      have read : toTarget unit keys key place = .ok target := by
        rw [toTarget, List.getElem?_eq_getElem inside, of_decide_eq_true here]
      have places
          : (target :: rest).filterMap (fun target => keys.findIdx? (· = target))
            = place :: rest.filterMap fun target => keys.findIdx? (· = target) :=
        List.filterMap_cons_some found
      rw [places, List.mapM_cons, read, ih within.2]
      rfl

/-- A saved fact is read back, with its fingerprint read anew. -/
theorem toFact_ofFact (known : ∀ text ∈ factTexts fact, text ∈ table)
    (within : ∀ target ∈ fact.dependsOn, target ∈ keys)
    : toFact table unit keys (ofFact table keys fact) fact.key = .ok fact.reread := by
  have fingerprint
      : toFingerprint table (fact.fingerprint.map (ofFingerprint table))
        = .ok (fact.fingerprint.map .reread) :=
    toFingerprint_ofFingerprint fun text member => known text (List.mem_append_right _ member)
  have role
      : (if fact.isDefinition then .definition else .use fact.role.cascades) = fact.role := by
    cases written : fact.role <;> simp [Fact.isDefinition, written, Role.isDefinition, Role.cascades]
  rw [toFact]
  simp only [ofFact, fingerprint, mapM_toTarget within]
  exact congrArg (fun role : Role =>
    Except.ok (⟨fact.key, fact.fingerprint.map .reread, role, fact.dependsOn⟩ : Fact)) role

-----------------------------------------------------------------------------------------
-- Units and artifacts
-----------------------------------------------------------------------------------------

/-- The keys of the saved facts of a unit are read exactly if none has an empty part. -/
theorem mapM_toKey_eq_ok_iff {facts : List Fact}
    (known : ∀ fact ∈ facts, ∀ text ∈ factTexts fact, text ∈ table) {found : List Key}
    : (facts.map (ofFact table keys)).mapM (toKey table unit) = .ok found
      ↔ (∀ fact ∈ facts, fact.key.designator.Complete) ∧ facts.map (·.key) = found := by
  rw [List.mapM_map]
  refine mapM_eq_ok_iff fun fact member key => ?_
  rw [Function.comp_apply, toKey_ofFact (known fact member)]
  split <;> simp [*]

/-- The saved facts of a unit are read back, with their fingerprints read anew. -/
theorem mapM_toFact_ofFact {facts : List Fact}
    (known : ∀ fact ∈ facts, ∀ text ∈ factTexts fact, text ∈ table)
    (within : ∀ fact ∈ facts, ∀ target ∈ fact.dependsOn, target ∈ facts.map (·.key))
    : ((facts.map (ofFact table (facts.map (·.key)))).zip (facts.map (·.key))).mapM
        (fun pair => toFact table unit (facts.map (·.key)) pair.1 pair.2)
      = .ok (facts.map .reread) := by
  rw [List.zip_map', List.mapM_map, Function.comp_def]
  exact mapM_eq_ok fun fact member => toFact_ofFact (known fact member) (within fact member)

/-- A saved unit is stored exactly if none of its keys has an empty part. -/
theorem addUnit_eq_ok_iff {facts : List Fact} {store stored : Store} (named : unit ∈ table)
    (known : ∀ fact ∈ facts, ∀ text ∈ factTexts fact, text ∈ table)
    (within : ∀ fact ∈ facts, ∀ target ∈ fact.dependsOn, target ∈ facts.map (·.key))
    : addUnit table store ⟨table.idxOf unit, facts.map (ofFact table (facts.map (·.key)))⟩
        = .ok stored
      ↔ (∀ fact ∈ facts, fact.key.designator.Complete)
        ∧ store.putAll unit (facts.map .reread) = stored := by
  simp only [addUnit, text_idxOf named, bind_eq_ok, pure_eq_ok, Except.ok.injEq, exists_eq_left',
    mapM_toKey_eq_ok_iff known]
  constructor
  · rintro ⟨_, ⟨complete, rfl⟩, read, stores, same⟩
    rw [mapM_toFact_ofFact known within, Except.ok.injEq] at stores
    exact ⟨complete, by rw [stores, same]⟩
  · rintro ⟨complete, same⟩
    exact ⟨_, ⟨complete, rfl⟩, _, mapM_toFact_ofFact known within, same⟩

/-- A saved unit is refused for a key with an empty part, and for nothing else. -/
theorem exists_of_addUnit_eq_error {facts : List Fact} {store : Store} {cause : Inconsistency}
    (named : unit ∈ table) (known : ∀ fact ∈ facts, ∀ text ∈ factTexts fact, text ∈ table)
    (within : ∀ fact ∈ facts, ∀ target ∈ fact.dependsOn, target ∈ facts.map (·.key))
    (failed
      : addUnit table store ⟨table.idxOf unit, facts.map (ofFact table (facts.map (·.key)))⟩
        = .error cause)
    : ∃ fact ∈ facts, ¬fact.key.designator.Complete ∧ cause = fact.refusal unit := by
  simp only [addUnit, text_idxOf named, bind_eq_error, reduceCtorEq, false_or, Except.ok.injEq,
    exists_eq_left'] at failed
  rcases failed with unread | ⟨keys, read, failed⟩
  · rw [List.mapM_map] at unread
    obtain ⟨fact, member, refused⟩ := exists_of_mapM_eq_error unread
    rw [Function.comp_apply, toKey_ofFact (known fact member)] at refused
    split at refused
    · cases refused
    · rename_i incomplete
      exact ⟨fact, member, incomplete, (Except.error.inj refused).symm⟩
  · obtain ⟨-, rfl⟩ := (mapM_toKey_eq_ok_iff known).1 read
    rw [mapM_toFact_ofFact known within] at failed
    rcases failed with failed | ⟨_, -, failed⟩ <;> cases failed

/-- A saved artifact is recorded, with its fingerprint read anew. -/
theorem addExternal_ofExternal {external : Invalidation.External} {externals : Externals}
    (known
      : ∀ text ∈ external.path :: fingerprintTexts external.fingerprint, text ∈ table)
    : addExternal table externals
        ⟨table.idxOf external.path, external.fingerprint.map (ofFingerprint table)⟩
      = .ok (externals.record external.path (external.fingerprint.map .reread)) := by
  rw [List.forall_mem_cons] at known
  rw [addExternal]
  simp only [toFingerprint_ofFingerprint known.2, text_idxOf known.1]
  rfl

-----------------------------------------------------------------------------------------
-- Graphs
-----------------------------------------------------------------------------------------

/-- What units with the given facts are stored as when a graph is loaded. -/
def restoreUnits (factsOf : UnitName → List Fact) (units : List UnitName) (store : Store)
    : Store :=
  units.foldl (fun store unit => store.putAll unit ((factsOf unit).map .reread)) store

/-- What the artifacts of a graph are recorded as when the graph is loaded. -/
def restoreExternals (externals : List (String × Option Invalidation.Fingerprint))
    : Externals :=
  externals.foldl (fun externals (path, fingerprint) =>
    externals.record path (fingerprint.map .reread)) .empty

/-- The graph that comes back from the saved form of another. -/
def restored (options : Options) (graph : Graph)
    : Graph := {
  options
  phase := .loading
  store := restoreUnits graph.store.factsOf graph.store.unitNames .empty
  externals := restoreExternals graph.externals.entries
}

/-- The edges of a graph lead to keys of the same unit. -/
def EdgesWithin (graph : Graph) : Prop :=
  ∀ unit,
    ∀ fact ∈ graph.store.factsOf unit,
      ∀ target ∈ fact.dependsOn, target ∈ (graph.store.factsOf unit).map (·.key)

/-- The saved units of a graph are stored exactly if no key has an empty part. -/
theorem foldlM_addUnit_eq_ok_iff {graph : Graph} {store : Store} (within : EdgesWithin graph)
    : (ofGraph graph).units.foldlM (addUnit (ofGraph graph).strings) .empty = .ok store
      ↔ graph.KeysComplete
        ∧ restoreUnits graph.store.factsOf graph.store.unitNames .empty = store := by
  rw [ofGraph, List.foldlM_map]
  refine foldlM_eq_ok_iff fun unit known before after => ?_
  exact addUnit_eq_ok_iff (unit_mem_table known)
    (fun fact owned text refers => factText_mem_table owned refers) (within unit)

theorem foldlM_addExternal_eq_ok (graph : Graph)
    : (ofGraph graph).externals.foldlM (addExternal (ofGraph graph).strings) .empty
      = .ok (restoreExternals graph.externals.entries) := by
  rw [ofGraph, List.foldlM_map, Externals.toList, List.foldlM_map]
  refine foldlM_eq_ok fun entry recorded before => addExternal_ofExternal fun text refers => ?_
  exact externalText_mem_table (List.mem_map.2 ⟨entry, recorded, rfl⟩) refers

/-- The saved form of a graph whose edges stay within their units stands for a graph exactly if no
key has an empty part and the restored graph passes a check, and then it stands for that one.
-/
theorem toGraph_ofGraph_eq_ok_iff {graph loaded : Graph} {options : Options}
    (within : EdgesWithin graph)
    : toGraph options (ofGraph graph) = .ok loaded
      ↔ graph.KeysComplete
        ∧ (restored options graph).check = .ok ()
        ∧ restored options graph = loaded := by
  simp only [toGraph, bind_eq_ok, pure_eq_ok, mapError_eq_ok, foldlM_addUnit_eq_ok_iff within,
    foldlM_addExternal_eq_ok]
  constructor
  · rintro ⟨_, ⟨whole, rfl⟩, _, recorded, _, passed, same⟩
    obtain rfl := Except.ok.inj recorded
    exact ⟨whole, passed, same⟩
  · rintro ⟨whole, passed, same⟩
    exact ⟨_, ⟨whole, rfl⟩, _, rfl, (), passed, same⟩

/-- The saved form of a graph in which some key has an empty part is refused for such a key. -/
theorem toGraph_ofGraph_eq_error {graph : Graph} (within : EdgesWithin graph)
    (incomplete : ¬graph.KeysComplete) (options : Options)
    : ∃ unit,
        ∃ fact ∈ graph.store.factsOf unit,
          ¬fact.key.designator.Complete
          ∧ toGraph options (ofGraph graph) = .error (.inconsistent (fact.refusal unit)) := by
  cases units : (ofGraph graph).units.foldlM (addUnit (ofGraph graph).strings) .empty with
  | ok store => exact absurd ((foldlM_addUnit_eq_ok_iff within).1 units).1 incomplete
  | error cause =>
      have failed := units
      rw [ofGraph, List.foldlM_map] at failed
      obtain ⟨unit, known, before, failed⟩ := exists_of_foldlM_eq_error failed
      obtain ⟨fact, owned, lacks, rfl⟩ := exists_of_addUnit_eq_error (unit_mem_table known)
        (fun fact owned text refers => factText_mem_table owned refers) (within unit) failed
      refine ⟨unit, fact, owned, lacks, ?_⟩
      rw [toGraph, units]
      rfl

theorem keys_reread (facts : List Fact)
    : (facts.map Fact.reread).map (·.key) = facts.map (·.key) := by
  rw [List.map_map]
  rfl

/-- What is restored from the empty store keeps the two maps in agreement, by induction on the units.
-/
theorem synced_restoreUnits {store : Store} (synced : store.Synced)
    (factsOf : UnitName → List Fact) (units : List UnitName)
    : (restoreUnits factsOf units store).Synced := by
  induction units generalizing store with
  | nil => exact synced
  | cons unit rest ih => exact ih (synced.putAll unit _)

/-- A restored unit owns the facts that it is restored from, and others own what they did, by
induction on the units.
-/
theorem factsOf_restoreUnits {factsOf : UnitName → List Fact} {units : List UnitName}
    (distinct : units.Nodup)
    (keysDistinct : ∀ unit ∈ units, ((factsOf unit).map (·.key)).Nodup) {store : Store}
    (synced : store.Synced) (fresh : ∀ unit ∈ units, store.factsOf unit = []) (unit : UnitName)
    : (restoreUnits factsOf units store).factsOf unit
      = if unit ∈ units then (factsOf unit).map .reread else store.factsOf unit := by
  induction units generalizing store with
  | nil => simp [restoreUnits]
  | cons owner rest ih =>
      rw [List.nodup_cons] at distinct
      rw [List.forall_mem_cons] at keysDistinct fresh
      have put :=
        synced.factsOf_putAll ((keys_reread (factsOf owner)).symm ▸ keysDistinct.1) owner
      have later : ∀ other ∈ rest,
          (store.putAll owner ((factsOf owner).map .reread)).factsOf other = [] := by
        intro other member
        have different : other ≠ owner := fun same => distinct.1 (same ▸ member)
        rw [put, if_neg different]
        exact fresh.2 other member
      refine (ih distinct.2 keysDistinct.2 (synced.putAll owner _) later).trans ?_
      rw [put]
      by_cases same : unit = owner
      · subst same
        simp [distinct.1, fresh.1]
      · simp [same]

theorem synced_restored (options : Options) (graph : Graph)
    : (restored options graph).store.Synced :=
  synced_restoreUnits Store.synced_empty _ _

/-- The facts of a restored graph are those of the other, with fingerprints read anew. -/
theorem factsOf_restored {graph : Graph} (synced : graph.store.Synced) (options : Options)
    (unit : UnitName)
    : (restored options graph).store.factsOf unit
      = (graph.store.factsOf unit).map .reread := by
  refine (factsOf_restoreUnits graph.store.units.distinct (fun unit _ => synced.keysDistinct unit)
    Store.synced_empty (fun _ _ => rfl) unit).trans ?_
  by_cases known : unit ∈ graph.store.unitNames
  · exact if_pos known
  · have unowned : graph.store.factsOf unit = [] :=
      List.eq_nil_iff_forall_not_mem.2 fun _ owned =>
        known (Store.mem_unitNames_of_mem_factsOf owned)
    rw [unowned]
    exact if_neg known

/-- A restored graph stores the same nodes. -/
theorem contains_restored {graph : Graph} (synced : graph.store.Synced) (options : Options)
    (node : NodeRef)
    : (restored options graph).store.contains node ↔ graph.store.contains node := by
  rw [(synced_restored options graph).contains_iff, synced.contains_iff, factsOf_restored synced]
  constructor
  · rintro ⟨_, owned, sameKey⟩
    obtain ⟨fact, old, rfl⟩ := List.mem_map.1 owned
    exact ⟨fact, old, sameKey⟩
  · rintro ⟨fact, owned, sameKey⟩
    exact ⟨fact.reread, List.mem_map_of_mem owned, sameKey⟩

/-- Restored units become known in their order, by induction on them. -/
theorem unitNames_restoreUnits {factsOf : UnitName → List Fact} {units : List UnitName}
    (nonempty : ∀ unit ∈ units, factsOf unit ≠ []) (store : Store)
    : (restoreUnits factsOf units store).unitNames = units.foldl addLast store.unitNames := by
  induction units generalizing store with
  | nil => rfl
  | cons unit rest ih =>
      rw [List.forall_mem_cons] at nonempty
      have someFact : (factsOf unit).map Fact.reread ≠ [] := by simpa using nonempty.1
      rw [List.foldl_cons, ← Store.unitNames_putAll someFact]
      exact ih nonempty.2 _

/-- A restored graph knows the same units in the same order, if each has a fact. -/
theorem unitNames_restored {graph : Graph}
    (nonempty : ∀ unit ∈ graph.store.unitNames, graph.store.factsOf unit ≠ [])
    (options : Options)
    : (restored options graph).store.unitNames = graph.store.unitNames :=
  (unitNames_restoreUnits nonempty .empty).trans (foldl_addLast_of_nodup graph.store.units.distinct)

/-- Artifacts that were not recorded before are recorded after those that were, in their order, by
induction on them.
-/
theorem entries_foldl_record {externals : List (String × Option Invalidation.Fingerprint)}
    (distinct : (externals.map Prod.fst).Nodup) {before : Externals}
    (fresh : ∀ entry ∈ externals, entry.1 ∉ before.keys)
    : (externals.foldl
        (fun after (path, fingerprint) => Externals.record after path (fingerprint.map .reread))
        before).entries
      = before.entries ++ externals.map fun (path, fingerprint) =>
          (path, fingerprint.map .reread) := by
  induction externals generalizing before with
  | nil => simp
  | cons entry rest ih =>
      obtain ⟨path, fingerprint⟩ := entry
      rw [List.map_cons, List.nodup_cons] at distinct
      rw [List.forall_mem_cons] at fresh
      have recorded
          : (before.record path (fingerprint.map .reread)).entries
            = before.entries ++ [(path, fingerprint.map .reread)] :=
        Table.entries_alter_of_notMem fresh.1 rfl
      have later : ∀ entry ∈ rest,
          entry.1 ∉ Table.keys (before.record path (fingerprint.map .reread)) := by
        intro entry member known
        rw [Table.keys, recorded, List.map_append, List.mem_append] at known
        rcases known with old | new
        · exact fresh.2 entry member old
        · have same : entry.1 = path := by simpa using new
          exact distinct.1 (same ▸ List.mem_map.2 ⟨entry, member, rfl⟩)
      rw [List.foldl_cons, ih distinct.2 later, recorded, List.append_assoc, List.map_cons]
      rfl

/-- The artifacts in use in a restored graph are those of the other, in the same order, with
fingerprints read anew.
-/
theorem entries_restored_externals (options : Options) (graph : Graph)
    : (restored options graph).externals.entries
      = graph.externals.entries.map fun (path, fingerprint) =>
          (path, fingerprint.map .reread) :=
  (entries_foldl_record graph.externals.distinct fun _ _ => List.not_mem_nil).trans
    (List.nil_append _)

theorem keys_restored_externals (options : Options) (graph : Graph)
    : Table.keys (restored options graph).externals = Table.keys graph.externals := by
  rw [Table.keys, entries_restored_externals, List.map_map]
  rfl

/-- What a graph is saved as is given by what it stores about units and by its artifacts. -/
theorem ofGraph_congr {left right : Graph} (nodes : left.store.SameNodes right.store)
    (externals : left.externals = right.externals)
    : ofGraph left = ofGraph right := by
  simp only [ofGraph, table, texts, nodes.unitNames, nodes.factsOf, externals]

end Saved

end Invalidation
