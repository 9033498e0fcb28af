import Invalidation.Proofs.Graph.Completeness
import Invalidation.Proofs.Graph.History
import Invalidation.Proofs.Graph.Step
import Invalidation.Proofs.Walk.Marks

/-! Jobs that share a graph do not lose what an integration invalidated. Whatever other operations
come between the integration and the question that belongs to it, a user of an invalidated
definition is told of: by that question, or by another one that marked the way to the user first.
-/

namespace Invalidation.Graph

variable {graph : Graph}

/-- The units that an operation answers; an operation that is not a question answers none. -/
def answer (graph : Graph) : Operation → List UnitName
  | .askChanges invalidated => (graph.affectedByChanges invalidated).answer
  | .askUnit unit => (graph.affectedByUnit unit).answer
  | .askExternal external query => (graph.affectedByExternal external query).answer
  | _ => []

/-- The units that operations answer when they come one after the other. -/
def answers (graph : Graph) : List Operation → List UnitName
  | [] => []
  | operation :: rest => graph.answer operation ++ (graph.after operation).answers rest

-----------------------------------------------------------------------------------------
-- What one operation marks and tells
-----------------------------------------------------------------------------------------

/-- An operation tells of a unit: its answer has it, or it is the question about the unit itself. -/
def Tells (graph : Graph) (operation : Operation) (unit : UnitName) : Prop :=
  unit ∈ graph.answer operation ∨ operation = .askUnit unit

theorem marked_integrate_subset (graph : Graph) (snapshot : Snapshot)
    : (graph.integrate snapshot).graph.store.marked ⊆ graph.store.marked := by
  cases normal : snapshot.normalForm with
  | error violation =>
      rw [integrate_graph_of_violation normal]
      exact List.Subset.refl _
  | ok facts =>
      rw [integrate_graph normal]
      generalize ran : graph.integration snapshot.unit facts = result
      exact fun _ marked => Integration.mem_marked_of_run ran marked

/-- Whatever an operation marks anew, it tells of. An integration marks nothing; a question marks
what its walk expands.
-/
theorem after_accounts (incremental : graph.options.incremental = true) (operation : Operation)
    : graph.store.Accounts (graph.after operation).store (graph.Tells operation) := by
  cases operation with
  | integrate snapshot => exact .of_marked_subset (graph.marked_integrate_subset snapshot)
  | integrateDocument bytes =>
      apply Store.Accounts.of_marked_subset
      simp only [after, integrateDocument]
      split
      · exact List.Subset.refl _
      · exact graph.marked_integrate_subset _
  | askChanges invalidated =>
      have walked := graph.store.walkFrom_accounts invalidated.nodes
      simp only [after, affectedByChanges, incremental, ↓reduceIte, report]
      refine walked.mono fun unit told => .inl ?_
      simpa only [answer, affectedByChanges, incremental, ↓reduceIte, report] using told
  | askUnit named =>
      have walked :=
        graph.store.walkFrom_accounts ((graph.store.nodesOf named).filter (·.isDefinition))
      simp only [after, affectedByUnit, incremental, ↓reduceIte, report]
      refine walked.mono fun unit told => ?_
      by_cases same : unit = named
      · exact .inr (congrArg Operation.askUnit same.symm)
      · left
        simp only [answer, affectedByUnit, incremental, ↓reduceIte, report]
        exact (List.mem_erase_of_ne same).2 told
  | askExternal external query =>
      by_cases unchanged : query = .ifChanged ∧ !graph.externals.isChanged external
      · simp only [after, affectedByExternal, if_pos unchanged]
        exact .of_marked_subset (List.Subset.refl _)
      · have walked := graph.store.walkInto_accounts
          ((graph.store.users.values external.key).map (⟨external.key, ·⟩))
        simp only [after, affectedByExternal, if_neg unchanged, incremental, ↓reduceIte, report]
        refine walked.mono fun unit told => .inl ?_
        simpa only [answer, affectedByExternal, if_neg unchanged, incremental, ↓reduceIte, report]
          using told
  | reopen unit => exact .of_marked_subset fun _ marked => List.mem_of_mem_filter marked
  | enter phase => exact .of_marked_subset (List.Subset.refl _)

-----------------------------------------------------------------------------------------
-- A user that waits to be told of
-----------------------------------------------------------------------------------------

/-- A unit uses the interface key of a node that is a definition, if it is stored at all, and
neither the node nor the use is marked: a walk from the definition will reach the unit.
-/
structure Awaits (graph : Graph) (node : NodeRef) (user : UnitName) : Prop where
  reachable : graph.Reachable
  incremental : graph.options.incremental = true
  shown : node.key.isInterface = true
  provided : ∀ fact, graph.store.fact? node = some fact → fact.isDefinition = true
  uses : graph.store.Uses user node.key
  unmarked : node ∉ graph.store.marked
  useUnmarked : ⟨node.key, user⟩ ∉ graph.store.marked

namespace Awaits

variable {node : NodeRef} {user : UnitName} {operation : Operation}

theorem moves (awaits : graph.Awaits node user) (start : Node) (same : start.ref = node)
    (provided : start.isDefinition = true)
    : graph.store.Moves start ⟨node.key, user⟩ := by
  obtain ⟨fact, owned, sameKey, isUse⟩ := awaits.uses
  subst same
  exact awaits.reachable.sound.indexed.moves_iff.2
    (.use provided (.inl awaits.shown) owned sameKey isUse)

theorem contains_use (awaits : graph.Awaits node user)
    : graph.store.contains ⟨node.key, user⟩ := by
  obtain ⟨fact, owned, sameKey, -⟩ := awaits.uses
  exact Store.contains_of_mem_factsOf owned sameKey

/-- A user that waits is told of by an operation that does not replace its facts or those of the
definition's unit, or it still waits. What would end the waiting is a mark, and an operation tells of
what it marks.
-/
theorem after (awaits : graph.Awaits node user) (kept : ¬operation.Replaces node.unit)
    (userKept : ¬operation.Replaces user)
    : graph.Tells operation user ∨ (graph.after operation).Awaits node user := by
  have accounts := after_accounts awaits.incremental operation
  have sameFact : (graph.after operation).store.fact? node = graph.store.fact? node :=
    (awaits.reachable.after operation).synced.fact?_congr awaits.reachable.synced
      (factsOf_after awaits.reachable.synced kept) node rfl
  by_cases useMarked : ⟨node.key, user⟩ ∈ (graph.after operation).store.marked
  · exact .inl ((accounts.owner _ useMarked).resolve_left awaits.useUnmarked)
  by_cases marked : node ∈ (graph.after operation).store.marked
  · left
    have stored := (awaits.reachable.after operation).sound.marksStored node marked
    obtain ⟨fact, found⟩ := Option.isSome_iff_exists.1 stored
    rw [sameFact] at found
    have provided := awaits.provided fact found
    have sameRef : Node.ref ⟨fact, node.unit⟩ = node := by
      rw [Node.ref, Store.key_of_fact? found]
    have moves := awaits.moves ⟨fact, node.unit⟩ sameRef provided
    have told := accounts.dependent marked found provided moves awaits.contains_use
    exact (told.resolve_left awaits.unmarked).resolve_left awaits.useUnmarked
  · right
    exact {
      reachable := awaits.reachable.after operation
      incremental := by rw [options_after, awaits.incremental]
      shown := awaits.shown
      provided := by
        rw [sameFact]
        exact awaits.provided
      uses := by
        rw [Store.Uses, factsOf_after awaits.reachable.synced userKept]
        exact awaits.uses
      unmarked := marked
      useUnmarked := useMarked
    }

/-- A user that waits is told of by one of several operations that do not replace its facts or those
of the definition's unit, or it waits at the end, by induction on the operations.
-/
theorem foldl_after (awaits : graph.Awaits node user) {operations : List Operation}
    (kept
      : ∀ operation ∈ operations, ¬operation.Replaces node.unit ∧ ¬operation.Replaces user)
    : user ∈ graph.answers operations
      ∨ .askUnit user ∈ operations
      ∨ (operations.foldl Graph.after graph).Awaits node user := by
  induction operations generalizing graph with
  | nil => exact .inr (.inr awaits)
  | cons operation rest ih =>
      rw [List.forall_mem_cons] at kept
      rw [answers, List.mem_append, List.mem_cons, List.foldl_cons]
      rcases awaits.after kept.1.1 kept.1.2 with (answered | named) | waiting
      · exact .inl (.inl answered)
      · exact .inr (.inl (.inl named.symm))
      · rcases ih waiting kept.2 with answered | named | stillWaiting
        · exact .inl (.inr answered)
        · exact .inr (.inl (.inr named))
        · exact .inr (.inr stillWaiting)

/-- A user that waits is affected by every set of changes that lists the definition. -/
theorem mem_affected (awaits : graph.Awaits node user) {invalidated : Invalidated} {start : Node}
    (listed : start ∈ invalidated.nodes) (same : start.ref = node)
    (provided : start.isDefinition = true)
    : user ∈ (graph.affectedByChanges invalidated).answer := by
  rw [affectedByChanges_answer awaits.incremental]
  have begins : start ∈ graph.store.beginnings invalidated.nodes :=
    Store.mem_beginnings.2 ⟨listed, provided, same ▸ awaits.unmarked⟩
  have beyond := Store.walkFrom_beyond (.inl begins) (awaits.moves start same provided)
    awaits.contains_use
  exact beyond.resolve_left awaits.useUnmarked

end Awaits

-----------------------------------------------------------------------------------------
-- From the integration to its question
-----------------------------------------------------------------------------------------

/-- After an integration every user of a definition that it lists waits to be told of: the
integration leaves no mark in the way.
-/
theorem awaits_of_listed {snapshot : Snapshot} {invalidated : Invalidated}
    (reachable : graph.Reachable) (incremental : graph.options.incremental = true)
    (accepted : (graph.integrate snapshot).answer = .ok invalidated) {node : Node}
    (listed : node ∈ invalidated.nodes) (provided : node.isDefinition = true)
    (shown : node.key.isInterface = true) {user : UnitName}
    (uses : (graph.integrate snapshot).graph.store.Uses user node.key)
    : (graph.integrate snapshot).graph.Awaits node.ref user := by
  have after := reachable.after (.integrate snapshot)
  have clear := integrate_clearBeyond reachable.sound accepted
  obtain ⟨fact, owned, sameKey, isUse⟩ := uses
  have moves : (graph.integrate snapshot).graph.store.Moves node ⟨node.key, user⟩ :=
    after.sound.indexed.moves_iff.2 (.use provided (.inl shown) owned sameKey isUse)
  exact {
    reachable := after
    incremental := by rw [integrate_options, incremental]
    shown
    provided := by
      intro stored found
      obtain ⟨owned, sameKey⟩ := after.synced.mem_of_fact? found
      rw [Node.ref_unit, unit_of_listed accepted listed] at owned
      rw [fact_eq_of_listed reachable.synced accepted listed owned sameKey]
      exact provided
    uses := ⟨fact, owned, sameKey, isUse⟩
    unmarked := clear.starts node listed provided
    useUnmarked := clear.reached _
      (.first (List.mem_filter.2 ⟨listed, provided⟩) moves trivial)
  }

/-- A user of an invalidated interface definition is told of, whatever operations come between the
integration and its question, as long as they do not replace the facts of either unit: the question
is answered with the user, or another one in between was, or one in between was about the user.
-/
theorem user_told_despite_interleaving {snapshot : Snapshot} {invalidated : Invalidated}
    (reachable : graph.Reachable) (incremental : graph.options.incremental = true)
    (accepted : (graph.integrate snapshot).answer = .ok invalidated) {node : Node}
    (listed : node ∈ invalidated.nodes) (provided : node.isDefinition = true)
    (shown : node.key.isInterface = true) {user : UnitName}
    (uses : (graph.integrate snapshot).graph.store.Uses user node.key)
    {operations : List Operation}
    (kept
      : ∀ operation ∈ operations,
          ¬operation.Replaces snapshot.unit ∧ ¬operation.Replaces user)
    : user
        ∈ ((operations.foldl after (graph.integrate snapshot).graph).affectedByChanges
            invalidated).answer
      ∨ user ∈ (graph.integrate snapshot).graph.answers operations
      ∨ .askUnit user ∈ operations := by
  have awaits := awaits_of_listed reachable incremental accepted listed provided shown uses
  have sameUnit : node.ref.unit = snapshot.unit := unit_of_listed accepted listed
  rcases awaits.foldl_after (by rwa [sameUnit]) with answered | named | waiting
  · exact .inr (.inl answered)
  · exact .inr (.inr named)
  · exact .inl (waiting.mem_affected listed rfl provided)

/-- A question of another job takes the user of a changed name from the answer that belongs to the
integration, and answers the user itself.
-/
theorem user_told_by_another_job
    : let changed := (Snapshot.start "u0").define (.interface (.topLevel "a")) (some (.digest "f"))
      let others := [.integrate (.start "u2"), .reopen "u0", .askUnit "u0", .enter .updating]
      "u1" ∈ (providedAndUsed.integrate changed).graph.answers others := by
  intro changed others
  let invalidated : Invalidated :=
    ⟨"u0",
      [⟨.changed, ⟨⟨.interface (.topLevel "a"), some (.digest "f"), .definition, []⟩, "u0"⟩⟩,
        ⟨.changed, ⟨⟨.wholeUnit .interface "u0", none, .definition, []⟩, "u0"⟩⟩],
      []⟩
  have reachable : providedAndUsed.Reachable := Reachable.foldl_after (.new {}) _
  have accepted : (providedAndUsed.integrate changed).answer = .ok invalidated := by decide
  have kept
      : ∀ operation ∈ others, ¬operation.Replaces changed.unit ∧ ¬operation.Replaces "u1" := by
    decide
  have told := user_told_despite_interleaving reachable rfl accepted
    (List.mem_cons_self ..) rfl rfl (by decide) kept
  have unanswered
      : "u1"
        ∉ ((others.foldl after (providedAndUsed.integrate changed).graph).affectedByChanges
            invalidated).answer := by
    decide
  have unnamed : .askUnit "u1" ∉ others := by simp [others]
  exact (told.resolve_left unanswered).resolve_right unnamed

end Invalidation.Graph
