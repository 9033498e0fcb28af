import Invalidation.Proofs.Graph.Carried

/-! Where the fingerprints of a graph come from. If those that operations bring in were read from
tokens, as they are in documents, then so were all that the graph holds; and a loaded graph holds no
others in any case.
-/

namespace Invalidation

-----------------------------------------------------------------------------------------
-- What comes in
-----------------------------------------------------------------------------------------

/-- Every fingerprint of a snapshot was read from a token. -/
def Snapshot.FingerprintsParsed (snapshot : Snapshot) : Prop :=
  ∀ node ∈ snapshot.nodes, ∀ fingerprint ∈ node.fingerprint, fingerprint.Parsed

instance (snapshot : Snapshot) : Decidable snapshot.FingerprintsParsed :=
  inferInstanceAs
    (Decidable (∀ node ∈ snapshot.nodes, ∀ fingerprint ∈ node.fingerprint, fingerprint.Parsed))

/-- Every fingerprint that an operation brings in was read from a token. -/
def Operation.FingerprintsParsed : Operation → Prop
  | integrate snapshot => snapshot.FingerprintsParsed
  | askExternal external _ => ∀ fingerprint ∈ external.fingerprint, fingerprint.Parsed
  | _ => True

instance (operation : Operation) : Decidable operation.FingerprintsParsed :=
  match operation with
  | .integrate snapshot => inferInstanceAs (Decidable snapshot.FingerprintsParsed)
  | .askExternal external _ =>
      inferInstanceAs (Decidable (∀ fingerprint ∈ external.fingerprint, fingerprint.Parsed))
  | .integrateDocument _ | .askChanges _ | .askUnit _ | .reopen _ | .enter _ =>
      inferInstanceAs (Decidable True)

theorem Document.Node.parsed_of_toSnapshot {node : Document.Node} {read : Snapshot.Node}
    (reads : node.toSnapshot = .ok read)
    : ∀ fingerprint ∈ read.fingerprint, fingerprint.Parsed := by
  obtain ⟨designator, -, reads⟩ := bind_eq_ok.1 reads
  rw [← pure_eq_ok.1 reads]
  intro fingerprint given
  obtain ⟨token, -, rfl⟩ := Option.map_eq_some_iff.1 given
  exact ⟨token, rfl⟩

/-- The fingerprints of a document are read from tokens. -/
theorem Snapshot.fingerprintsParsed_of_ofJson {bytes : Bytes} {snapshot : Snapshot}
    (reads : Snapshot.ofJson bytes = .ok snapshot)
    : snapshot.FingerprintsParsed := by
  obtain ⟨version, -, reads⟩ := bind_eq_ok.1 reads
  dsimp only at reads
  split at reads
  · obtain ⟨_, failed, -⟩ := bind_eq_ok.1 reads
    cases failed
  · obtain ⟨document, -, reads⟩ := bind_eq_ok.1 reads
    obtain ⟨nodes, done, reads⟩ := bind_eq_ok.1 reads
    rw [← pure_eq_ok.1 reads]
    intro node member
    obtain ⟨given, -, read⟩ := exists_of_mem_mapM (mapError_eq_ok.1 done) member
    exact Document.Node.parsed_of_toSnapshot read

/-- The fingerprints of a normal form were read from tokens if those of its snapshot were. -/
theorem Snapshot.FingerprintsParsed.normalForm {snapshot : Snapshot}
    (parsed : snapshot.FingerprintsParsed) {facts : List Fact}
    (normal : snapshot.normalForm = .ok facts)
    : ∀ fact ∈ facts, ∀ fingerprint ∈ fact.fingerprint, fingerprint.Parsed := by
  intro fact member fingerprint given
  obtain ⟨node, isNode, origin⟩ := exists_node_of_fingerprint normal member given
  exact parsed node isNode fingerprint origin

-----------------------------------------------------------------------------------------
-- Artifacts
-----------------------------------------------------------------------------------------

namespace Externals

/-- Every fingerprint that was seen of an artifact was read from a token. -/
def FingerprintsParsed (externals : Externals) : Prop :=
  ∀ entry ∈ externals.entries, ∀ fingerprint ∈ entry.2, fingerprint.Parsed

instance (externals : Externals) : Decidable externals.FingerprintsParsed :=
  inferInstanceAs
    (Decidable (∀ entry ∈ externals.entries, ∀ fingerprint ∈ entry.2, fingerprint.Parsed))

namespace FingerprintsParsed

variable {externals : Externals}

theorem alter (parsed : externals.FingerprintsParsed) {path : String}
    {change : Option (Option Fingerprint) → Option (Option Fingerprint)}
    (changed
      : ∀ seen,
          change (Table.get? externals path) = some seen
          → ∀ fingerprint ∈ seen, fingerprint.Parsed)
    : FingerprintsParsed (Table.alter externals path change) :=
  Table.forall_mem_alter
    (fun entry : String × Option Fingerprint => ∀ fingerprint ∈ entry.2, fingerprint.Parsed)
    parsed changed

theorem register (parsed : externals.FingerprintsParsed) (path : String)
    : (externals.register path).FingerprintsParsed := by
  refine parsed.alter fun seen kept => ?_
  obtain rfl := Option.some.inj kept
  cases found : Table.get? externals path with
  | none => exact fun _ given => nomatch given
  | some old => exact parsed _ (Table.mem_of_find? found)

theorem forget (parsed : externals.FingerprintsParsed) (path : String)
    : (externals.forget path).FingerprintsParsed :=
  parsed.alter fun _ kept => nomatch kept

theorem observe (parsed : externals.FingerprintsParsed) {external : External}
    (current : ∀ fingerprint ∈ external.fingerprint, fingerprint.Parsed)
    : (externals.observe external).FingerprintsParsed := by
  unfold Externals.observe
  split
  · rename_i fingerprint given
    refine parsed.alter fun seen kept => ?_
    obtain ⟨-, -, rfl⟩ := Option.map_eq_some_iff.1 kept
    exact given ▸ current
  · exact parsed

/-- Registering paths keeps what was seen of others, by induction on the paths. -/
theorem foldl_register (parsed : externals.FingerprintsParsed) (paths : List String)
    : FingerprintsParsed (paths.foldl Externals.register externals) := by
  induction paths generalizing externals with
  | nil => exact parsed
  | cons path rest ih => exact ih (parsed.register path)

/-- Forgetting unused paths keeps what was seen of others, by induction on the removed facts. -/
theorem foldl_forgetUnused (parsed : externals.FingerprintsParsed) (store : Store)
    (removed : List Fact)
    : FingerprintsParsed (removed.foldl (Integration.forgetUnused store) externals) := by
  induction removed generalizing externals with
  | nil => exact parsed
  | cons fact rest ih =>
      refine ih ?_
      unfold Integration.forgetUnused
      split
      · split
        · exact parsed.forget _
        · exact parsed
      · exact parsed

end FingerprintsParsed

end Externals

-----------------------------------------------------------------------------------------
-- Graphs
-----------------------------------------------------------------------------------------

namespace Graph

/-- Every fingerprint that a graph holds was read from a token. -/
structure FingerprintsParsed (graph : Graph) : Prop where
  facts
    : ∀ unit ∈ graph.store.unitNames,
        ∀ fact ∈ graph.store.factsOf unit,
          ∀ fingerprint ∈ fact.fingerprint, fingerprint.Parsed
  externals : graph.externals.FingerprintsParsed

instance (graph : Graph) : Decidable graph.FingerprintsParsed :=
  decidable_of_iff
    ((∀ unit ∈ graph.store.unitNames,
        ∀ fact ∈ graph.store.factsOf unit,
          ∀ fingerprint ∈ fact.fingerprint, fingerprint.Parsed)
      ∧ graph.externals.FingerprintsParsed)
    ⟨fun ⟨facts, externals⟩ => ⟨facts, externals⟩,
      fun parsed => ⟨parsed.facts, parsed.externals⟩⟩

namespace FingerprintsParsed

variable {graph : Graph}

theorem of_mem (parsed : graph.FingerprintsParsed) {unit : UnitName} {fact : Fact}
    (owned : fact ∈ graph.store.factsOf unit)
    : ∀ fingerprint ∈ fact.fingerprint, fingerprint.Parsed :=
  parsed.facts unit (Store.mem_unitNames_of_mem_factsOf owned) fact owned

theorem reread_eq_self (parsed : graph.FingerprintsParsed) {unit : UnitName} {fact : Fact}
    (owned : fact ∈ graph.store.factsOf unit)
    : fact.reread = fact := by
  rw [Fact.reread, Fingerprint.map_reread (parsed.of_mem owned)]

theorem new (options : Options) : (Graph.new options).FingerprintsParsed where
  facts := fun _ known => nomatch known
  externals := fun _ recorded => nomatch recorded

theorem integrate (parsed : graph.FingerprintsParsed) (synced : graph.store.Synced)
    {snapshot : Snapshot} (given : snapshot.FingerprintsParsed)
    : (graph.integrate snapshot).graph.FingerprintsParsed := by
  cases normal : snapshot.normalForm with
  | error violation =>
      rw [integrate_graph_of_violation normal]
      exact parsed
  | ok facts =>
      constructor
      · intro unit _ fact owned
        rw [integrate_factsOf synced normal] at owned
        split at owned
        · exact given.normalForm normal fact owned
        · exact parsed.of_mem owned
      · rw [integrate_graph normal]
        exact (parsed.externals.foldl_register _).foldl_forgetUnused _ _

/-- An operation that disturbs no facts keeps the fingerprints of facts. -/
theorem of_undisturbed (parsed : graph.FingerprintsParsed) {after : Graph}
    (undisturbed : graph.Undisturbed after) (externals : after.externals.FingerprintsParsed)
    : after.FingerprintsParsed := by
  refine ⟨fun unit _ fact owned => ?_, externals⟩
  rw [undisturbed.factsOf] at owned
  exact parsed.of_mem owned

/-- Operations that bring in such fingerprints alone leave such fingerprints alone. -/
theorem after (parsed : graph.FingerprintsParsed) (reachable : graph.Reachable)
    {operation : Operation} (given : operation.FingerprintsParsed)
    : (graph.after operation).FingerprintsParsed := by
  cases operation with
  | integrate snapshot => exact parsed.integrate reachable.synced given
  | integrateDocument bytes =>
      simp only [Graph.after, integrateDocument]
      split
      · exact parsed
      · rename_i snapshot reads
        exact parsed.integrate reachable.synced (Snapshot.fingerprintsParsed_of_ofJson reads)
  | askChanges invalidated =>
      refine parsed.of_undisturbed (graph.undisturbed_after rfl) ?_
      simp only [Graph.after, affectedByChanges]
      split <;> exact parsed.externals
  | askUnit unit =>
      refine parsed.of_undisturbed (graph.undisturbed_after rfl) ?_
      simp only [Graph.after, affectedByUnit]
      split <;> exact parsed.externals
  | askExternal external query =>
      refine parsed.of_undisturbed (graph.undisturbed_after rfl) ?_
      simp only [Graph.after, affectedByExternal]
      split
      · exact parsed.externals.observe given
      · split <;> exact parsed.externals.observe given
  | reopen unit => exact parsed.of_undisturbed (graph.undisturbed_after rfl) parsed.externals
  | enter phase => exact parsed.of_undisturbed (graph.undisturbed_after rfl) parsed.externals

/-- If all operations bring in such fingerprints alone, the graph holds no others, by induction on the
operations.
-/
theorem foldl_after (parsed : graph.FingerprintsParsed) (reachable : graph.Reachable)
    {operations : List Operation} (given : ∀ operation ∈ operations, operation.FingerprintsParsed)
    : (operations.foldl Graph.after graph).FingerprintsParsed := by
  induction operations generalizing graph with
  | nil => exact parsed
  | cons operation rest ih =>
      rw [List.forall_mem_cons] at given
      exact ih (parsed.after reachable given.1) (reachable.after operation) given.2

end FingerprintsParsed

/-- A restored graph holds such fingerprints alone, since each is read anew. -/
theorem fingerprintsParsed_restored {graph : Graph} (synced : graph.store.Synced)
    (options : Options)
    : (Saved.restored options graph).FingerprintsParsed := by
  constructor
  · intro unit _ fact owned fingerprint given
    rw [Saved.factsOf_restored synced] at owned
    obtain ⟨old, -, rfl⟩ := List.mem_map.1 owned
    obtain ⟨before, -, rfl⟩ := Option.map_eq_some_iff.1 given
    exact before.parsed_reread
  · intro entry recorded fingerprint given
    rw [Saved.entries_restored_externals] at recorded
    obtain ⟨old, -, rfl⟩ := List.mem_map.1 recorded
    obtain ⟨before, -, rfl⟩ := Option.map_eq_some_iff.1 given
    exact before.parsed_reread

end Graph

end Invalidation
