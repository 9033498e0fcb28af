import Invalidation.Proofs.Graph.Artifacts
import Invalidation.Proofs.Graph.Reload

/-! What a graph remembers of artifacts, told from the history of a run. For an artifact that is
listed it is the fingerprint that the last question about it supplied, among the questions since it
was last discovered; nothing else that happens changes that.
-/

namespace Invalidation

-----------------------------------------------------------------------------------------
-- Histories
-----------------------------------------------------------------------------------------

/-- Something in the history of a graph that concerns artifacts. -/
inductive Sighting where
  /-- An accepted integration discovered these paths. -/
  | discovered (paths : List String)
  /-- Somebody asked about an artifact. -/
  | asked (external : External)
deriving DecidableEq

namespace Sighting

def discovers (path : String) : Sighting → Bool
  | discovered paths => paths.contains path
  | asked _ => false

/-- The fingerprint of an artifact that is supplied with a question. -/
def supplied? (path : String) : Sighting → Option Fingerprint
  | discovered _ => none
  | asked external => if external.path = path then external.fingerprint else none

end Sighting

/-- The fingerprint that the last question about an artifact supplied, among the questions since it
was last discovered that supplied one.
-/
def lastSupplied (path : String) (log : List Sighting)
    : Option Fingerprint :=
  (log.reverse.takeWhile fun sighting => !sighting.discovers path).findSome? (·.supplied? path)

/-- One more sighting: a discovery begins anew, and a question that supplies a fingerprint is the
last one.
-/
theorem lastSupplied_append (path : String) (log : List Sighting) (sighting : Sighting)
    : lastSupplied path (log ++ [sighting])
      = if sighting.discovers path then none
        else (sighting.supplied? path).or (lastSupplied path log) := by
  rw [lastSupplied, List.reverse_append, List.reverse_singleton, List.singleton_append,
    List.takeWhile_cons]
  cases sighting.discovers path with
  | true => rfl
  | false =>
      simp only [Bool.not_false, ↓reduceIte, Bool.false_eq_true, List.findSome?_cons, lastSupplied]
      cases sighting.supplied? path <;> rfl

namespace Operation

/-- The fingerprint that comes with a question was read from a token. -/
def SuppliesParsed : Operation → Prop
  | askExternal external _ => ∀ fingerprint ∈ external.fingerprint, fingerprint.Parsed
  | _ => True

instance (operation : Operation) : Decidable operation.SuppliesParsed :=
  match operation with
  | .askExternal external _ =>
      inferInstanceAs (Decidable (∀ fingerprint ∈ external.fingerprint, fingerprint.Parsed))
  | .integrate _ | .integrateDocument _ | .askChanges _ | .askUnit _ | .reopen _ | .enter _ =>
      .isTrue trivial

/-- The operation is a question about an artifact that comes with a fingerprint. -/
def Supplies (path : String) : Operation → Prop
  | askExternal external _ => external.path = path ∧ external.fingerprint ≠ none
  | _ => False

end Operation

namespace Graph

/-- What an operation adds to the history. -/
def sightings (graph : Graph) : Operation → List Sighting
  | .integrate snapshot =>
      (graph.integrate snapshot).answer.toOption.toList.map (.discovered ·.discovered)
  | .integrateDocument bytes =>
      (graph.integrateDocument bytes).answer.toOption.toList.map (.discovered ·.discovered)
  | .askExternal external _ => [.asked external]
  | _ => []

/-- The graphs of successive builds, each with its history: a new graph has none, an operation adds
what it shows, and saving and loading go on with the same history.
-/
inductive Run : Graph → List Sighting → Prop
  | new (options : Options) : Run (new options) []
  | after {graph log} (run : Run graph log) (operation : Operation)
    (parsed : operation.SuppliesParsed)
    : Run (graph.after operation) (log ++ graph.sightings operation)
  | reloaded {graph log loaded bytes options} (run : Run graph log) (fits : graph.Fits)
    (saved : graph.save.answer = .ok bytes) (loads : load bytes options = .ok loaded)
    : Run loaded log

variable {graph : Graph} {path : String} {log : List Sighting}

theorem Run.carried (run : graph.Run log) : graph.Carried := by
  induction run with
  | new options => exact .new options
  | after _ operation _ ih => exact ih.after operation
  | reloaded _ fits saved loads ih => exact ih.reloaded fits saved loads

-----------------------------------------------------------------------------------------
-- One operation
-----------------------------------------------------------------------------------------

/-- An artifact that is listed after an integration was listed before, and what is remembered of it
stays, or the integration discovered it, and nothing is remembered.
-/
theorem get?_integrate_externals {snapshot : Snapshot} {facts : List Fact}
    (normal : snapshot.normalForm = .ok facts)
    (listed : path ∈ (graph.integrate snapshot).graph.artifacts)
    : let discovered := (graph.integration snapshot.unit facts).invalidated.discovered
      let after := (graph.integrate snapshot).graph.externals
      (path ∉ discovered ∧ path ∈ graph.artifacts ∧ after.get? path = graph.externals.get? path)
      ∨ (path ∈ discovered ∧ after.get? path = some none) := by
  intro discovered after
  have isAfter : after = (graph.integration snapshot.unit facts).externals :=
    congrArg Graph.externals (integrate_graph normal)
  have inUse : (graph.integration snapshot.unit facts).externals.contains path := by
    rw [← isAfter]
    exact mem_artifacts.1 listed
  have kept : after.get? path = _ :=
    (congrArg (Table.get? · path) isAfter).trans
      ((Externals.get?_foldl_forgetUnused _ _ inUse).trans
        (Externals.get?_foldl_register graph.externals _ path))
  have mem_discovered
      : path ∈ discovered
        ↔ (∃ fact ∈ facts, Integration.usedPath? fact = some path) ∧ path ∉ graph.artifacts := by
    rw [← List.mem_filterMap, mem_artifacts]
    exact List.mem_filter.trans (and_congr_right fun _ => by simp)
  rw [kept]
  cases found : graph.externals.get? path with
  | some seen =>
      have known : path ∈ graph.artifacts := mem_artifacts.2 (by simp [Table.contains, found])
      exact .inl ⟨fun isNew => (mem_discovered.1 isNew).2 known, known, rfl⟩
  | none =>
      have unknown : path ∉ graph.artifacts := fun known => by
        simpa [Table.contains, found] using mem_artifacts.1 known
      have origin := ((Integration.contains_run_externals rfl).1 inUse).1
      have isNew : path ∈ discovered :=
        mem_discovered.2 ⟨origin.resolve_left (unknown ∘ mem_artifacts.2), unknown⟩
      exact .inr ⟨isNew, (Option.none_or).trans (if_pos isNew)⟩

/-- Of every listed artifact a graph remembers what its history says. -/
def Recalls (graph : Graph) (log : List Sighting) : Prop :=
  ∀ path ∈ graph.artifacts, graph.externals.get? path = some (lastSupplied path log)

theorem Recalls.integrate (recalls : graph.Recalls log) {snapshot : Snapshot} {facts : List Fact}
    (normal : snapshot.normalForm = .ok facts)
    : (graph.integrate snapshot).graph.Recalls
        (log ++ [.discovered (graph.integration snapshot.unit facts).invalidated.discovered]) := by
  intro path listed
  rw [lastSupplied_append]
  rcases get?_integrate_externals normal listed with ⟨old, known, kept⟩ | ⟨isNew, nothing⟩
  · rw [kept, recalls path known]
    simp [Sighting.discovers, Sighting.supplied?, old]
  · rw [nothing]
    simp [Sighting.discovers, isNew]

theorem Recalls.ask (recalls : graph.Recalls log) (external : External) (query : ReportWhen)
    : (graph.affectedByExternal external query).graph.Recalls (log ++ [.asked external]) := by
  intro path listed
  rw [mem_artifacts, externals_affectedByExternal, Externals.contains_observe,
    ← mem_artifacts] at listed
  rw [externals_affectedByExternal, Externals.get?_observe, recalls path listed,
    lastSupplied_append]
  by_cases same : path = external.path
  · simp [Sighting.discovers, Sighting.supplied?, same]
  · simp [Sighting.discovers, Sighting.supplied?, same, Ne.symm same]

/-- An integration shows what it discovered, or it was refused, and shows nothing. -/
theorem sightings_integrate_cases (consistent : graph.Consistent) (snapshot : Snapshot)
    : (∃ facts,
          snapshot.normalForm = .ok facts
          ∧ graph.sightings (.integrate snapshot)
            = [.discovered (graph.integration snapshot.unit facts).invalidated.discovered])
      ∨ ((graph.integrate snapshot).graph = graph
          ∧ graph.sightings (.integrate snapshot) = []) := by
  cases normal : snapshot.normalForm with
  | error violation =>
      refine .inr ⟨integrate_graph_of_violation normal, ?_⟩
      simp only [sightings, integrate_answer_of_violation normal]
      rfl
  | ok facts =>
      refine .inl ⟨facts, rfl, ?_⟩
      simp only [sightings, consistent.integrate_answer normal]
      rfl

/-- What one operation does to the memory of artifacts and adds to the history: it is an accepted
integration with its discoveries, or a question about an artifact, or neither of the two changes.
-/
theorem sightings_cases (consistent : graph.Consistent) (operation : Operation)
    : (∃ snapshot facts,
          snapshot.normalForm = .ok facts
          ∧ graph.after operation = (graph.integrate snapshot).graph
          ∧ graph.sightings operation
            = [.discovered (graph.integration snapshot.unit facts).invalidated.discovered])
      ∨ (∃ external query, operation = .askExternal external query)
      ∨ ((graph.after operation).externals = graph.externals ∧ graph.sightings operation = []) := by
  cases operation with
  | integrate snapshot =>
      rcases sightings_integrate_cases consistent snapshot with
        ⟨facts, normal, shown⟩ | ⟨same, shown⟩
      · exact .inl ⟨snapshot, facts, normal, rfl, shown⟩
      · exact .inr (.inr ⟨congrArg Graph.externals same, shown⟩)
  | integrateDocument bytes =>
      cases read : Snapshot.ofJson bytes with
      | error refusal =>
          refine .inr (.inr ⟨?_, ?_⟩)
          · simp only [Graph.after, integrateDocument, read]
          · simp only [sightings, integrateDocument, read]
            rfl
      | ok snapshot =>
          have same : graph.integrateDocument bytes = graph.integrate snapshot := by
            simp only [integrateDocument, read]
          simp only [Graph.after, sightings, same]
          rcases sightings_integrate_cases consistent snapshot with
            ⟨facts, normal, shown⟩ | ⟨unchanged, shown⟩
          · exact .inl ⟨snapshot, facts, normal, rfl, shown⟩
          · exact .inr (.inr ⟨congrArg Graph.externals unchanged, shown⟩)
  | askExternal external query => exact .inr (.inl ⟨external, query, rfl⟩)
  | askChanges invalidated =>
      refine .inr (.inr ⟨?_, rfl⟩)
      simp only [Graph.after, affectedByChanges]
      split <;> rfl
  | askUnit unit =>
      refine .inr (.inr ⟨?_, rfl⟩)
      simp only [Graph.after, affectedByUnit]
      split <;> rfl
  | reopen unit => exact .inr (.inr ⟨rfl, rfl⟩)
  | enter phase => exact .inr (.inr ⟨rfl, rfl⟩)

/-- After every operation a graph remembers what its history says. -/
theorem Recalls.after (recalls : graph.Recalls log) (consistent : graph.Consistent)
    (operation : Operation)
    : (graph.after operation).Recalls (log ++ graph.sightings operation) := by
  rcases sightings_cases consistent operation with
    ⟨snapshot, facts, normal, same, shown⟩ | ⟨external, query, rfl⟩ | ⟨same, shown⟩
  · rw [same, shown]
    exact recalls.integrate normal
  · exact recalls.ask external query
  · intro path listed
    rw [mem_artifacts, same, ← mem_artifacts] at listed
    rw [same, shown, List.append_nil, recalls path listed]

/-- An artifact that stays listed is remembered as it was, unless the operation is a question about
it that comes with a fingerprint.
-/
theorem get?_externals_after (consistent : graph.Consistent) {operation : Operation}
    (listed : path ∈ graph.artifacts) (stays : path ∈ (graph.after operation).artifacts)
    (silent : ¬operation.Supplies path)
    : (graph.after operation).externals.get? path = graph.externals.get? path := by
  rcases sightings_cases consistent operation with
    ⟨snapshot, facts, normal, same, -⟩ | ⟨external, query, rfl⟩ | ⟨same, -⟩
  · rw [same] at stays ⊢
    rcases get?_integrate_externals normal stays with ⟨-, -, kept⟩ | ⟨isNew, -⟩
    · exact kept
    · have accepted := consistent.integrate_answer normal
      exact absurd listed ((mem_discovered_iff consistent.synced accepted).1 isNew).1
  · have observed := externals_affectedByExternal graph external query
    refine (congrArg (Table.get? · path) observed).trans ?_
    rw [Externals.get?_observe]
    by_cases asked : path = external.path
    · have absent : external.fingerprint = none := by
        by_contra supplied
        exact silent ⟨asked.symm, supplied⟩
      simp [absent]
    · simp [asked]
  · rw [same]

-----------------------------------------------------------------------------------------
-- Runs
-----------------------------------------------------------------------------------------

/-- Whatever a graph remembers of artifacts was read from tokens, by induction on the run. -/
theorem Run.fingerprintsParsed (run : Run graph log) : graph.externals.FingerprintsParsed := by
  induction run with
  | new options => exact (FingerprintsParsed.new options).externals
  | @after graph log run operation parsed ih =>
      rcases sightings_cases run.carried.consistent operation with
        ⟨snapshot, facts, normal, same, -⟩ | ⟨external, query, rfl⟩ | ⟨same, -⟩
      · rw [same, integrate_graph normal]
        exact (ih.foldl_register _).foldl_forgetUnused _ _
      · have observed := externals_affectedByExternal graph external query
        exact observed ▸ ih.observe parsed
      · rw [same]
        exact ih
  | @reloaded graph log loaded bytes options run fits saved loads ih =>
      have consistent := run.carried.consistent
      obtain ⟨-, -, rfl⟩ :=
        (consistent.load_eq_ok_iff fits saved (incremental_of_load loads)).1 loads
      exact (fingerprintsParsed_restored consistent.synced options).externals

/-- What operations one after the other add to the history. -/
def history (graph : Graph) : List Operation → List Sighting
  | [] => []
  | operation :: rest => graph.sightings operation ++ (graph.after operation).history rest

/-- A run goes on with operations one after the other, by induction on the operations. -/
theorem Run.foldl_after (run : Run graph log) {operations : List Operation}
    (parsed : ∀ operation ∈ operations, operation.SuppliesParsed)
    : Run (operations.foldl Graph.after graph) (log ++ graph.history operations) := by
  induction operations generalizing graph log with
  | nil => simpa [history] using run
  | cons operation rest ih =>
      obtain ⟨first, later⟩ := List.forall_mem_cons.1 parsed
      have gone := ih (run.after operation first) later
      rwa [List.append_assoc] at gone

/-- Saving and loading keep what is remembered of artifacts. -/
theorem Run.externals_loaded (run : Run graph log) (fits : graph.Fits) {bytes : Bytes}
    {options : Options} {loaded : Graph} (saved : graph.save.answer = .ok bytes)
    (loads : load bytes options = .ok loaded)
    : loaded.externals = graph.externals := by
  obtain ⟨-, -, rfl⟩ :=
    (run.carried.consistent.load_eq_ok_iff fits saved (incremental_of_load loads)).1 loads
  exact externals_restored run.fingerprintsParsed options

/-- In every run a graph remembers what its history says, by induction on the run. -/
theorem Run.recalls (run : Run graph log) : graph.Recalls log := by
  induction run with
  | new options => exact fun _ listed => nomatch listed
  | after run operation _ ih => exact ih.after run.carried.consistent operation
  | reloaded run fits saved loads ih =>
      have same := run.externals_loaded fits saved loads
      intro path listed
      rw [mem_artifacts, same, ← mem_artifacts] at listed
      rw [same]
      exact ih path listed

-----------------------------------------------------------------------------------------
-- Questions for changes only
-----------------------------------------------------------------------------------------

/-- An artifact is taken for unchanged exactly if the digest that comes with it is the one that is
remembered.
-/
theorem isChanged_eq_false_iff {externals : Externals} {external : External}
    : externals.isChanged external = false
      ↔ ∃ token,
          external.fingerprint = some (.digest token)
          ∧ externals.get? external.path = some (some (.digest token)) := by
  obtain ⟨path, fingerprint⟩ := external
  unfold Externals.isChanged
  cases seen : externals.get? path with
  | none => simp
  | some recorded =>
      rcases recorded with _ | (old | _) <;> rcases fingerprint with _ | (token | _) <;>
        simp [Fingerprint.agrees]

/-- An artifact that is taken for unchanged gives no unit and changes nothing. -/
theorem affectedByExternal_of_unchanged {external : External}
    (unchanged : graph.externals.isChanged external = false)
    : graph.affectedByExternal external .ifChanged = ⟨[], graph, [.externalUnchanged]⟩ := by
  obtain ⟨token, supplied, seen⟩ := isChanged_eq_false_iff.1 unchanged
  have same : graph.externals.observe external = graph.externals := by
    rw [Externals.observe, supplied]
    exact Table.alter_eq_self (by rw [seen]; rfl)
  simp [affectedByExternal, unchanged, same]

/-- One that is taken for changed is treated as if there were no question of changes. -/
theorem affectedByExternal_of_changed {external : External}
    (changed : graph.externals.isChanged external = true)
    : graph.affectedByExternal external .ifChanged = graph.affectedByExternal external .always := by
  simp [affectedByExternal, changed]

/-- No question of the other kind is cut short. -/
theorem externalUnchanged_notMem_always (graph : Graph) (external : External)
    : .externalUnchanged ∉ (graph.affectedByExternal external .always).events := by
  cases incremental : graph.options.incremental <;> cases loading : graph.phase <;>
    simp [affectedByExternal, incremental, report, loadingEvents, loading]

/-- The memory of artifacts in a run. Of each listed artifact a graph remembers the fingerprint that
the last question about it supplied since it was last discovered, if there was one. No operation
that leaves the artifact listed changes that, unless it is such a question, and neither do saving
and loading. So a question for changes only is cut short, without a unit and without a trace,
exactly if it supplies a digest and that digest is remembered; otherwise it comes to the same as one
of the other kind.
-/
theorem fingerprint_memory (run : Run graph log)
    : (∀ path ∈ graph.artifacts, graph.externals.get? path = some (lastSupplied path log))
      ∧ (∀ operation,
          ∀ path ∈ graph.artifacts,
            path ∈ (graph.after operation).artifacts
            → ¬operation.Supplies path
            → (graph.after operation).externals.get? path = graph.externals.get? path)
      ∧ (∀ bytes options loaded,
          graph.Fits
          → graph.save.answer = .ok bytes
          → load bytes options = .ok loaded
          → loaded.externals = graph.externals)
      ∧ ∀ external,
          let asked := graph.affectedByExternal external .ifChanged
          let unchanged :=
            external.path ∈ graph.artifacts
            ∧ ∃ token,
                external.fingerprint = some (.digest token)
                ∧ lastSupplied external.path log = some (.digest token)
          (asked.events = [.externalUnchanged] ↔ unchanged)
          ∧ (unchanged → asked.answer = [] ∧ asked.graph = graph)
          ∧ (¬unchanged → asked = graph.affectedByExternal external .always) := by
  have consistent := run.carried.consistent
  refine ⟨run.recalls, fun operation path => get?_externals_after consistent,
    fun bytes options loaded fits => run.externals_loaded fits, fun external => ?_⟩
  intro asked unchanged
  have unchanged_iff : unchanged ↔ graph.externals.isChanged external = false := by
    rw [isChanged_eq_false_iff]
    constructor
    · intro given
      obtain ⟨listed, token, supplied, last⟩ := given
      exact ⟨token, supplied, (run.recalls _ listed).trans (congrArg some last)⟩
    · intro given
      obtain ⟨token, supplied, seen⟩ := given
      have listed : external.path ∈ graph.artifacts :=
        mem_artifacts.2 (by rw [Table.contains, seen]; rfl)
      exact ⟨listed, token, supplied, Option.some.inj ((run.recalls _ listed).symm.trans seen)⟩
  rw [unchanged_iff]
  cases changed : graph.externals.isChanged external with
  | false =>
      have cut : asked = ⟨[], graph, [.externalUnchanged]⟩ :=
        affectedByExternal_of_unchanged changed
      rw [cut]
      exact ⟨iff_of_true rfl rfl, fun _ => ⟨rfl, rfl⟩, fun other => absurd rfl other⟩
  | true =>
      have full : asked = graph.affectedByExternal external .always :=
        affectedByExternal_of_changed changed
      refine ⟨iff_of_false (fun cut => ?_) (by simp), fun same => absurd same (by simp),
        fun _ => full⟩
      apply externalUnchanged_notMem_always graph external
      rw [← full, cut]
      exact List.mem_singleton_self _

/-- A run goes on with the restored graph, where saving and loading succeed. -/
theorem Run.restored (run : Run graph log) {options : Options} (fits : graph.Fits)
    (complete : graph.KeysComplete) (incremental : options.incremental = true)
    (passed : (Saved.restored options graph).check = .ok ())
    : Run (Saved.restored options graph) log := by
  have consistent := run.carried.consistent
  have saved := save_answer_eq_ok_iff.2 ⟨consistent.check_eq_ok, rfl⟩
  exact run.reloaded fits saved
    ((consistent.load_eq_ok_iff fits saved incremental).2 ⟨complete, passed, rfl⟩)

/-- An artifact comes into use, and then there are questions about it: one with a digest, one with a
token that cannot be read, one with the first digest again, and one without a fingerprint.
-/
def repeatedQuestions : List Operation :=
  [.integrate ((Snapshot.start "u0").consume (.artifact "/p") true),
    .askExternal ⟨"/p", some (.parse "f1")⟩ .always,
    .askExternal ⟨"/p", some (.parse "?")⟩ .ifChanged,
    .askExternal ⟨"/p", some (.parse "f1")⟩ .ifChanged,
    .askExternal ⟨"/p", none⟩ .always]

/-- The digest that came back is remembered in the next build: a question for changes with it is cut
short, and one with another digest is not.
-/
theorem returning_digest_remembered
    : let graph := Saved.restored {} (repeatedQuestions.foldl after (new {}))
      graph.externals.get? "/p" = some (some (.digest "f1"))
      ∧ (graph.affectedByExternal ⟨"/p", some (.digest "f1")⟩ .ifChanged).answer = []
      ∧ graph.affectedByExternal ⟨"/p", some (.digest "f2")⟩ .ifChanged
        = graph.affectedByExternal ⟨"/p", some (.digest "f2")⟩ .always := by
  intro graph
  have parsed : ∀ operation ∈ repeatedQuestions, operation.SuppliesParsed := by decide
  have run : Run graph ([] ++ (new {}).history repeatedQuestions) :=
    ((Run.new {}).foldl_after parsed).restored (by decide) (by decide) rfl (by decide)
  have listed : "/p" ∈ graph.artifacts := by decide
  have last
      : lastSupplied "/p" ([] ++ (new {}).history repeatedQuestions) = some (.digest "f1") := by
    decide
  obtain ⟨memory, -, -, questions⟩ := fingerprint_memory run
  refine ⟨(memory "/p" listed).trans (congrArg some last), ?_, ?_⟩
  · exact ((questions ⟨"/p", some (.digest "f1")⟩).2.1 ⟨listed, "f1", rfl, last⟩).1
  · apply (questions ⟨"/p", some (.digest "f2")⟩).2.2
    intro unchanged
    obtain ⟨-, token, supplied, same⟩ := unchanged
    have digest := last.symm.trans (same.trans supplied.symm)
    exact absurd digest (by decide)

end Graph

end Invalidation
