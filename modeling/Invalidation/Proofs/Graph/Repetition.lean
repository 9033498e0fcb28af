import Invalidation.Proofs.Graph.Interleaving
import Invalidation.Proofs.Graph.Precision

/-! A question that is asked again tells nothing new. Whatever other questions come in between, all
that the first walk could enter is marked or among the nodes it began with, so the second one stays
where it begins.
-/

namespace Invalidation

-----------------------------------------------------------------------------------------
-- Walks over marked nodes
-----------------------------------------------------------------------------------------

namespace Store

variable {store middle later : Store} {seeds : List Node} {unit : UnitName}

/-- Facts and indices are the same, and whatever was marked still is. -/
structure OnlyMarked (before after : Store) : Prop where
  same : ∃ marked, after = { before with marked }
  kept : before.marked ⊆ after.marked

namespace OnlyMarked

theorem refl (store : Store) : store.OnlyMarked store := ⟨⟨_, rfl⟩, List.Subset.refl _⟩

theorem trans (before : store.OnlyMarked middle) (after : middle.OnlyMarked later)
    : store.OnlyMarked later := by
  obtain ⟨marked, rfl⟩ := before.same
  obtain ⟨marked', rfl⟩ := after.same
  exact ⟨⟨marked', rfl⟩, List.Subset.trans before.kept after.kept⟩

theorem walkFrom (store : Store) (seeds : List Node)
    : store.OnlyMarked (store.walkFrom seeds).store :=
  ⟨⟨_, rfl⟩, fun _ marked => mem_marked_walkFrom.2 (.inl marked)⟩

theorem walkInto (store : Store) (nodes : List NodeRef)
    : store.OnlyMarked (store.walkInto nodes).store :=
  ⟨⟨_, rfl⟩, fun _ marked => mem_marked_walkInto.2 (.inl marked)⟩

theorem factsOf (onlyMarked : store.OnlyMarked later) (unit : UnitName)
    : later.factsOf unit = store.factsOf unit := by
  obtain ⟨marked, rfl⟩ := onlyMarked.same
  rfl

theorem contains (onlyMarked : store.OnlyMarked later) (ref : NodeRef)
    : later.contains ref = store.contains ref := by
  obtain ⟨marked, rfl⟩ := onlyMarked.same
  rfl

theorem moves_iff (onlyMarked : store.OnlyMarked later) {node : Node} {next : NodeRef}
    : later.Moves node next ↔ store.Moves node next := by
  obtain ⟨marked, rfl⟩ := onlyMarked.same
  rfl

end OnlyMarked

/-- Whatever is reached was reached from a start by a first move. -/
theorem Reached.exists_first {moves : Node → NodeRef → Prop} {enters : NodeRef → Prop}
    {starts : List Node} {ref : NodeRef} (reached : store.Reached moves enters starts ref)
    : ∃ start ∈ starts, ∃ next, moves start next ∧ enters next := by
  induction reached with
  | first isStart moved entered => exact ⟨_, isStart, _, moved, entered⟩
  | next _ _ _ _ ih => exact ih

/-- A walk leaves the stored definitions among its nodes marked. -/
theorem mem_marked_walkFrom_of_definition {node : Node} (isSeed : node ∈ seeds)
    (provided : node.isDefinition = true) (stored : store.contains node.ref)
    : node.ref ∈ (store.walkFrom seeds).store.marked := by
  rw [mem_marked_walkFrom]
  by_cases before : node.ref ∈ store.marked
  · exact .inl before
  · exact .inr (.inl ⟨node, mem_beginnings.2 ⟨isSeed, provided, before⟩, rfl, stored⟩)

/-- From the same nodes a walk reaches nothing again: a first move would lead to a node that the
earlier walk marked or that both began with.
-/
theorem walkFrom_reached_again (onlyMarked : (store.walkFrom seeds).store.OnlyMarked later)
    : (later.walkFrom seeds).reached = [] := by
  have since : store.OnlyMarked later := (OnlyMarked.walkFrom store seeds).trans onlyMarked
  have begun : store.OnlyMarked (later.begun seeds) :=
    since.trans ⟨⟨_, rfl⟩, fun _ marked => mem_marked_mark.2 (.inl marked)⟩
  refine List.eq_nil_iff_forall_not_mem.2 fun ref entered => ?_
  rw [walkFrom_reached, mem_discover_iff] at entered
  obtain ⟨start, begins, next, moved, isOpen, notSeed⟩ := entered.exists_first
  obtain ⟨isSeed, provided, unmarked⟩ := mem_beginnings.1 begins
  obtain ⟨stored, nextUnmarked⟩ := isOpen_iff.1 isOpen
  have beganBefore : start ∈ store.beginnings seeds :=
    mem_beginnings.2 ⟨isSeed, provided, fun marked => unmarked (since.kept marked)⟩
  have marked : next ∈ (store.walkFrom seeds).store.marked := by
    rw [begun.moves_iff] at moved
    rw [begun.contains] at stored
    rw [mem_marked_walkFrom]
    rcases walkFrom_enters (.inl beganBefore) moved stored with before | isSeed | reached
    · exact .inl before
    · exact absurd isSeed notSeed
    · exact .inr (.inr reached)
  exact nextUnmarked (mem_marked_mark.2 (.inl (onlyMarked.kept marked)))

/-- From the same nodes a walk reports again the owners of uses and of definitions that are not
marked, which are those that are not stored.
-/
theorem mem_walkFrom_units_again_iff
    (onlyMarked : (store.walkFrom seeds).store.OnlyMarked later) (stored : later.MarksStored)
    : unit ∈ (later.walkFrom seeds).units
      ↔ ∃ node ∈ seeds,
          node.unit = unit ∧ ¬(node.isDefinition = true ∧ store.contains node.ref) := by
  have since : store.OnlyMarked later := (OnlyMarked.walkFrom store seeds).trans onlyMarked
  have marked_iff (node) (isSeed : node ∈ seeds) (provided : node.isDefinition = true)
      : node.ref ∈ later.marked ↔ store.contains node.ref :=
    ⟨fun marked => since.contains node.ref ▸ stored _ marked,
      fun known => onlyMarked.kept (mem_marked_walkFrom_of_definition isSeed provided known)⟩
  rw [walkFrom_units_eq, walkFrom_reached_again onlyMarked, List.map_nil, List.append_nil,
    List.mem_eraseDups, List.mem_map]
  constructor
  · rintro ⟨node, reported, owns⟩
    obtain ⟨isSeed, open_⟩ := List.mem_filter.1 reported
    refine ⟨node, isSeed, owns, fun ⟨provided, known⟩ => ?_⟩
    simp [provided, (marked_iff node isSeed provided).2 known] at open_
  · rintro ⟨node, isSeed, owns, unknown⟩
    refine ⟨node, List.mem_filter.2 ⟨isSeed, ?_⟩, owns⟩
    cases provided : node.isDefinition with
    | false => rfl
    | true =>
        have unmarked : node.ref ∉ later.marked := fun marked =>
          unknown ⟨provided, (marked_iff node isSeed provided).1 marked⟩
        simpa using unmarked

/-- Into the same nodes a walk reports nothing again: the earlier one marked all that it could enter.
-/
theorem walkInto_units_again {nodes : List NodeRef}
    (onlyMarked : (store.walkInto nodes).store.OnlyMarked later)
    : (later.walkInto nodes).units = [] := by
  have since : store.OnlyMarked later := (OnlyMarked.walkInto store nodes).trans onlyMarked
  have none_fresh : fresh later.isOpen [] nodes = [] := by
    refine List.eq_nil_iff_forall_not_mem.2 fun ref found => ?_
    obtain ⟨given, passed, -⟩ := mem_fresh.1 found
    obtain ⟨stored, unmarked⟩ := isOpen_iff.1 passed
    rw [since.contains] at stored
    have wasOpen : store.isOpen ref :=
      isOpen_iff.2 ⟨stored, fun marked => unmarked (since.kept marked)⟩
    have reached : ref ∈ (store.walkInto nodes).reached :=
      List.mem_append_left _ (mem_fresh.2 ⟨given, wasOpen, List.not_mem_nil⟩)
    exact unmarked (onlyMarked.kept (mem_marked_walkInto.2 (.inr reached)))
  have nothing : (later.mark []).discover (later.mark []).isOpen [] [] = [] := by
    rw [discover]
    cases [].length + (later.mark []).nodeCount <;> rfl
  simp only [Store.walkInto, none_fresh, List.filterMap_nil, List.nil_append, nothing]
  rfl

end Store

-----------------------------------------------------------------------------------------
-- Questions in between
-----------------------------------------------------------------------------------------

/-- Whether the operation may take marks away: it replaces the facts of a unit, or reopens one. -/
def Operation.unmarks : Operation → Bool
  | integrate _ | integrateDocument _ | reopen _ => true
  | _ => false

namespace Graph

variable {graph : Graph} {invalidated : Invalidated}

/-- A question takes no mark away. -/
theorem onlyMarked_after (graph : Graph) {operation : Operation}
    (keeps : operation.unmarks = false)
    : graph.store.OnlyMarked (graph.after operation).store := by
  cases operation with
  | integrate _ | integrateDocument _ | reopen _ => cases keeps
  | askChanges invalidated =>
      simp only [after, affectedByChanges]
      split
      · exact .walkFrom graph.store _
      · exact .refl graph.store
  | askUnit unit =>
      simp only [after, affectedByUnit]
      split
      · exact .walkFrom graph.store _
      · exact .refl graph.store
  | askExternal external query =>
      simp only [after, affectedByExternal]
      split
      · exact .refl graph.store
      · split
        · exact .walkInto graph.store _
        · exact .refl graph.store
  | enter phase => exact .refl graph.store

/-- Questions one after the other take no mark away, by induction on the questions. -/
theorem onlyMarked_foldl_after (graph : Graph) {operations : List Operation}
    (keep : ∀ operation ∈ operations, operation.unmarks = false)
    : graph.store.OnlyMarked (operations.foldl after graph).store := by
  induction operations generalizing graph with
  | nil => exact .refl graph.store
  | cons operation rest ih =>
      rw [List.forall_mem_cons] at keep
      exact (graph.onlyMarked_after keep.1).trans (ih (graph.after operation) keep.2)

-----------------------------------------------------------------------------------------
-- The same question
-----------------------------------------------------------------------------------------

/-- The answer to a question that is asked, and asked again after other operations. -/
def answerAgain (graph : Graph) (question : Operation) (others : List Operation)
    : List UnitName :=
  (others.foldl after (graph.after question)).answer question

variable {others : List Operation}

theorem incremental_since (incremental : graph.options.incremental = true) (question : Operation)
    (others : List Operation)
    : (others.foldl after (graph.after question)).options.incremental = true := by
  rw [options_foldl_after, options_after, incremental]

theorem marksStored_since (reachable : graph.Reachable) (question : Operation)
    (others : List Operation)
    : (others.foldl after (graph.after question)).store.MarksStored :=
  ((reachable.after question).foldl_after others).sound.marksStored

/-- A question about a unit that is asked again is not answered: the definitions of the unit are
stored, so the first walk marked them.
-/
theorem answerAgain_askUnit (reachable : graph.Reachable)
    (incremental : graph.options.incremental = true)
    (keep : ∀ operation ∈ others, operation.unmarks = false) (unit : UnitName)
    : graph.answerAgain (.askUnit unit) others = [] := by
  have onlyMarked := (graph.after (.askUnit unit)).onlyMarked_foldl_after keep
  have marksStored := marksStored_since reachable (.askUnit unit) others
  have again := incremental_since incremental (.askUnit unit) others
  rw [answerAgain]
  generalize others.foldl after (graph.after (.askUnit unit)) = later at *
  simp only [after, affectedByUnit, incremental, ↓reduceIte, report] at onlyMarked
  have sameNodes : later.store.nodesOf unit = graph.store.nodesOf unit := by
    rw [Store.nodesOf, onlyMarked.factsOf, (Store.OnlyMarked.walkFrom graph.store _).factsOf]
    rfl
  simp only [answer, affectedByUnit, again, ↓reduceIte, report, sameNodes]
  have untold
      : (later.store.walkFrom ((graph.store.nodesOf unit).filter (·.isDefinition))).units = [] := by
    refine List.eq_nil_iff_forall_not_mem.2 fun told member => ?_
    obtain ⟨node, isSeed, -, unknown⟩ :=
      (Store.mem_walkFrom_units_again_iff onlyMarked marksStored).1 member
    obtain ⟨owned, provided⟩ := List.mem_filter.1 isSeed
    obtain ⟨fact, stored, rfl⟩ := List.mem_map.1 owned
    exact unknown ⟨provided, Store.contains_of_mem_factsOf stored rfl⟩
  rw [untold, List.erase_nil]

/-- A question about an artifact that is asked again is not answered: the first walk marked every use
of it that was not.
-/
theorem answerAgain_askExternal (incremental : graph.options.incremental = true)
    (keep : ∀ operation ∈ others, operation.unmarks = false) (external : External)
    : graph.answerAgain (.askExternal external .always) others = [] := by
  have onlyMarked := (graph.after (.askExternal external .always)).onlyMarked_foldl_after keep
  have again := incremental_since incremental (.askExternal external .always) others
  rw [answerAgain]
  generalize others.foldl after (graph.after (.askExternal external .always)) = later at *
  simp only [after, affectedByExternal, reduceCtorEq, false_and, incremental, ↓reduceIte, report]
    at onlyMarked
  have sameUsers : later.store.users = graph.store.users := by
    obtain ⟨marked, same⟩ := ((Store.OnlyMarked.walkInto graph.store _).trans onlyMarked).same
    rw [same]
  simp only [answer, affectedByExternal, reduceCtorEq, false_and, again, ↓reduceIte, report,
    sameUsers]
  exact Store.walkInto_units_again onlyMarked

/-- A question about changes that is asked again is answered with the owners of what it lists, apart
from definitions that are stored.
-/
theorem mem_answerAgain_askChanges_iff (reachable : graph.Reachable)
    (incremental : graph.options.incremental = true)
    (keep : ∀ operation ∈ others, operation.unmarks = false) {unit : UnitName}
    : unit ∈ graph.answerAgain (.askChanges invalidated) others
      ↔ ∃ node ∈ invalidated.nodes,
          node.unit = unit ∧ ¬(node.isDefinition = true ∧ graph.store.contains node.ref) := by
  have onlyMarked := (graph.after (.askChanges invalidated)).onlyMarked_foldl_after keep
  have marksStored := marksStored_since reachable (.askChanges invalidated) others
  have again := incremental_since incremental (.askChanges invalidated) others
  rw [answerAgain]
  generalize others.foldl after (graph.after (.askChanges invalidated)) = later at *
  simp only [after, affectedByChanges, incremental, ↓reduceIte, report] at onlyMarked
  rw [answer, affectedByChanges_answer again]
  exact Store.mem_walkFrom_units_again_iff onlyMarked marksStored

/-- A question that is asked again is not answered, whatever other questions come in between, as long
as no facts are replaced and no unit is reopened. Only a question about changes is answered with
their own unit, and it is exactly if it lists a use or a definition that is not stored.
-/
theorem repeated_question_silent (reachable : graph.Reachable)
    (incremental : graph.options.incremental = true)
    (keep : ∀ operation ∈ others, operation.unmarks = false)
    : (∀ unit, graph.answerAgain (.askUnit unit) others = [])
      ∧ (∀ external, graph.answerAgain (.askExternal external .always) others = [])
      ∧ ∀ (earlier : Graph) snapshot invalidated,
          (earlier.integrate snapshot).answer = .ok invalidated
          → (∀ unit ∈ graph.answerAgain (.askChanges invalidated) others,
                unit = invalidated.unit)
            ∧ (graph.answerAgain (.askChanges invalidated) others = []
                ↔ ∀ node ∈ invalidated.nodes,
                    node.isDefinition = true ∧ graph.store.contains node.ref) := by
  refine ⟨answerAgain_askUnit reachable incremental keep,
    answerAgain_askExternal incremental keep, fun earlier snapshot invalidated accepted => ?_⟩
  have told_iff (unit : UnitName)
      : unit ∈ graph.answerAgain (.askChanges invalidated) others ↔ _ :=
    mem_answerAgain_askChanges_iff reachable incremental keep
  constructor
  · intro unit told
    obtain ⟨node, listed, rfl, -⟩ := (told_iff unit).1 told
    rw [unit_of_listed accepted listed, unit_of_accepted accepted]
  · rw [List.eq_nil_iff_forall_not_mem]
    constructor
    · intro silent node listed
      by_contra unknown
      exact silent node.unit ((told_iff _).2 ⟨node, listed, rfl, unknown⟩)
    · intro known unit told
      obtain ⟨node, listed, -, unknown⟩ := (told_iff unit).1 told
      exact unknown (known node listed)

/-- What is invalidated when the definition of a used name is removed. -/
def invalidatedByRemoval : Invalidated :=
  ⟨"u0",
    [⟨.removed, ⟨⟨.interface (.topLevel "a"), none, .definition, []⟩, "u0"⟩⟩,
      ⟨.changed, ⟨⟨.wholeUnit .interface "u0", none, .definition, []⟩, "u0"⟩⟩],
    []⟩

/-- The user of a removed definition is told of once; when the question is asked again after others,
only the unit that removed the definition is told of, since the definition is not stored.
-/
theorem user_of_removed_definition_told_once
    : let graph := (providedAndUsed.integrate (.start "u0")).graph
      let others := [.askUnit "u1", .askExternal ⟨"/p", none⟩ .ifChanged, .enter .updating]
      graph.answer (.askChanges invalidatedByRemoval) = ["u0", "u1"]
      ∧ graph.answerAgain (.askUnit "u1") others = []
      ∧ graph.answerAgain (.askChanges invalidatedByRemoval) others ≠ []
      ∧ "u1" ∉ graph.answerAgain (.askChanges invalidatedByRemoval) others := by
  intro graph others
  have usedReachable : providedAndUsed.Reachable := Reachable.foldl_after (.new {}) _
  have reachable : graph.Reachable := usedReachable.after (.integrate (.start "u0"))
  have accepted : (providedAndUsed.integrate (.start "u0")).answer = .ok invalidatedByRemoval := by
    decide
  obtain ⟨unitSilent, -, changesSilent⟩ :=
    @repeated_question_silent graph others reachable rfl (by decide)
  obtain ⟨own, silent_iff⟩ := changesSilent _ _ _ accepted
  refine ⟨by decide, unitSilent "u1", fun silent => ?_, fun told => ?_⟩
  · exact absurd (silent_iff.1 silent) (by decide)
  · exact absurd (own "u1" told) (by decide)

end Graph

end Invalidation
