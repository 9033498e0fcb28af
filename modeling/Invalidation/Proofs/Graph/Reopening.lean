import Invalidation.Proofs.Graph.Continuation
import Invalidation.Proofs.Graph.Repetition
import Invalidation.Proofs.Graph.Spreading

/-! A question that was answered is answered again once the units that it told of are reopened. All
that its walk marked belongs to those units, so that no more is marked then than before the
question, and among fewer marks a walk reports no less.
-/

namespace Invalidation

-----------------------------------------------------------------------------------------
-- Walks among fewer marks
-----------------------------------------------------------------------------------------

namespace Store

variable {store later : Store} {seeds : List Node}

namespace OnlyMarked

theorem alike (onlyMarked : store.OnlyMarked later) : later.Alike store := by
  obtain ⟨marked, rfl⟩ := onlyMarked.same
  exact alike_withMarks store marked

/-- The more is marked, the less nodes spread, by induction on the spread. -/
theorem spread (onlyMarked : store.OnlyMarked later) {starts : NodeRef → Prop} {ref : NodeRef}
    (spread : later.Spread starts ref)
    : store.Spread starts ref := by
  have sameShape : later.SameShape store := fun unit => by rw [onlyMarked.factsOf]
  induction spread with
  | start isStart stored unmarked =>
      exact .start isStart (onlyMarked.contains _ ▸ stored) fun marked =>
        unmarked (onlyMarked.kept marked)
  | step _ held step stored unmarked ih =>
      exact .step ih (onlyMarked.alike.node? _ ▸ held) (step.sameShape sameShape rfl)
        (onlyMarked.contains _ ▸ stored) fun marked => unmarked (onlyMarked.kept marked)

theorem beginnings_subset (onlyMarked : store.OnlyMarked later) (seeds : List Node)
    : later.beginnings seeds ⊆ store.beginnings seeds := by
  intro node begins
  obtain ⟨isSeed, provided, unmarked⟩ := mem_beginnings.1 begins
  exact mem_beginnings.2 ⟨isSeed, provided, fun marked => unmarked (onlyMarked.kept marked)⟩

/-- The more is marked, the less a walk reaches: what it sets out from and what it enters is what a
walk among fewer marks sets out from and enters as well. The marks that either walk sets at first
are on nodes given to both.
-/
theorem walkFrom_reached_subset (onlyMarked : store.OnlyMarked later) (seeds : List Node)
    : (later.walkFrom seeds).reached ⊆ (store.walkFrom seeds).reached := by
  intro ref reached
  have laterMoves : (later.begun seeds).Alike store := by
    obtain ⟨marked, rfl⟩ := onlyMarked.same
    exact alike_withMarks store _
  have moves : (store.begun seeds).Alike store := alike_withMarks store _
  rw [walkFrom_reached, laterMoves.discover, mem_discover_iff] at reached
  rw [walkFrom_reached, moves.discover, mem_discover_iff]
  have entered (next : NodeRef)
      (entered : (later.begun seeds).isOpen next ∧ next ∉ seeds.map Node.ref)
      : (store.begun seeds).isOpen next ∧ next ∉ seeds.map Node.ref := by
    obtain ⟨passed, notSeed⟩ := entered
    obtain ⟨stored, unmarked⟩ := isOpen_iff.1 passed
    refine ⟨isOpen_iff.2 ⟨?_, fun marked => ?_⟩, notSeed⟩
    · rw [moves.contains]
      rwa [laterMoves.contains] at stored
    · rcases mem_marked_mark.1 marked with before | begins
      · exact unmarked (mem_marked_mark.2 (.inl (onlyMarked.kept before)))
      · obtain ⟨node, isBeginning, rfl⟩ := List.mem_map.1 (List.mem_of_mem_filter begins)
        exact notSeed (List.mem_map_of_mem (mem_beginnings.1 isBeginning).1)
  exact (reached.mono fun _ next _ => entered next).of_starts fun start begins =>
    .inl (onlyMarked.beginnings_subset seeds begins)

theorem walkFrom_units_subset (onlyMarked : store.OnlyMarked later) (seeds : List Node)
    : (later.walkFrom seeds).units ⊆ (store.walkFrom seeds).units := by
  intro unit told
  simp only [walkFrom_units_eq, List.mem_eraseDups, List.mem_append, List.mem_map] at told ⊢
  rcases told with ⟨node, reported, rfl⟩ | ⟨ref, reached, rfl⟩
  · left
    obtain ⟨isSeed, given⟩ := List.mem_filter.1 reported
    refine ⟨node, List.mem_filter.2 ⟨isSeed, ?_⟩, rfl⟩
    rw [Bool.or_eq_true] at given ⊢
    refine given.imp_right fun unmarked => ?_
    simp only [Bool.not_eq_true', List.contains_eq_mem, decide_eq_false_iff_not] at unmarked ⊢
    exact fun marked => unmarked (onlyMarked.kept marked)
  · exact .inr ⟨ref, onlyMarked.walkFrom_reached_subset seeds reached, rfl⟩

end OnlyMarked

end Store

-----------------------------------------------------------------------------------------
-- The same question among fewer marks
-----------------------------------------------------------------------------------------

/-- Whether the operation is a question that a walk answers, whatever was seen of artifacts. -/
def Operation.walks : Operation → Bool
  | askChanges _ | askUnit _ | askExternal _ .always => true
  | _ => false

theorem Operation.integrates_of_walks {question : Operation} (walks : question.walks = true)
    : question.integrates = false := by
  cases question with
  | integrate _ | integrateDocument _ => cases walks
  | _ => rfl

namespace Graph

variable {graph later : Graph} {question : Operation}

/-- A question that spreads from the same nodes among fewer marks has no fewer units in its answer.
-/
theorem FollowsSpread.answer_subset {starts : NodeRef → Prop} {leftOut : List UnitName}
    {asked askedLater : Outcome (List UnitName)}
    (follows : graph.FollowsSpread starts leftOut asked)
    (followsLater : later.FollowsSpread starts leftOut askedLater)
    (fewer : later.store.OnlyMarked graph.store)
    : asked.answer ⊆ askedLater.answer := by
  intro unit told
  obtain ⟨listed, ref, owns, spread⟩ := (follows.answer unit).1 told
  exact (followsLater.answer unit).2 ⟨listed, ref, owns, fewer.spread spread⟩

/-- Among fewer marks a question has no fewer units in its answer. -/
theorem answer_subset_of_fewer (indexed : graph.store.Indexed) (laterIndexed : later.store.Indexed)
    (incremental : graph.options.incremental = true)
    (laterIncremental : later.options.incremental = true)
    (fewer : later.store.OnlyMarked graph.store) (walks : question.walks = true)
    : graph.answer question ⊆ later.answer question := by
  cases question with
  | askChanges invalidated =>
      rw [answer, answer, affectedByChanges_answer incremental,
        affectedByChanges_answer laterIncremental]
      exact fewer.walkFrom_units_subset _
  | askUnit unit =>
      have follows := graph.affectedByUnit_followsSpread indexed incremental unit
      simp only [Store.Defines, fewer.factsOf] at follows
      exact follows.answer_subset
        (later.affectedByUnit_followsSpread laterIndexed laterIncremental unit) fewer
  | askExternal external query =>
      cases query with
      | ifChanged => cases walks
      | always =>
          have follows := graph.affectedByExternal_followsSpread indexed incremental external
          simp only [Store.Uses, fewer.factsOf] at follows
          exact follows.answer_subset
            (later.affectedByExternal_followsSpread laterIndexed laterIncremental external) fewer
  | _ => cases walks

/-- Such a question is answered from the store and the settings alone. -/
theorem answer_eq_of_store_eq (sameOptions : later.options = graph.options)
    (sameStore : later.store = graph.store) (walks : question.walks = true)
    : later.answer question = graph.answer question := by
  cases question with
  | askChanges invalidated =>
      simp only [answer, affectedByChanges, sameOptions, sameStore]
      split <;> rfl
  | askUnit unit =>
      simp only [answer, affectedByUnit, sameOptions, sameStore]
      split <;> rfl
  | askExternal external query =>
      cases query with
      | ifChanged => cases walks
      | always =>
          simp only [answer, affectedByExternal, reduceCtorEq, false_and, ↓reduceIte, sameOptions,
            sameStore]
          split <;> rfl
  | _ => cases walks

-----------------------------------------------------------------------------------------
-- After the units are reopened
-----------------------------------------------------------------------------------------

/-- Reopening units leaves the facts undisturbed, by induction on the units. -/
theorem undisturbed_foldl_reopen (graph : Graph) (units : List UnitName)
    : graph.Undisturbed (units.foldl reopen graph) := by
  induction units generalizing graph with
  | nil => exact .refl graph
  | cons unit rest ih =>
      have first : graph.Undisturbed (graph.reopen unit) :=
        graph.undisturbed_after (show (Operation.reopen unit).integrates = false from rfl)
      exact first.trans (ih (graph.reopen unit))

/-- Once every unit that an operation told of is reopened, nothing is marked that was not marked
before the operation: whatever it marked is stored, and belongs to a unit that it told of.
-/
theorem marked_reopened_subset (reachable : graph.Reachable)
    (incremental : graph.options.incremental = true) (operation : Operation)
    {units : List UnitName} (covers : ∀ unit, graph.Tells operation unit → unit ∈ units)
    : (units.foldl reopen (graph.after operation)).store.marked ⊆ graph.store.marked := by
  intro ref marked
  obtain ⟨markedThen, elsewhere⟩ := mem_marked_foldl_reopen (reachable.after operation).synced marked
  have stored := (reachable.after operation).sound.marksStored ref markedThen
  rcases (after_accounts incremental operation).owner ref markedThen with before | told
  · exact before
  · exact absurd (covers ref.unit told) (elsewhere stored)

/-- A question about changes, about a unit, or about an artifact whatever its fingerprint says is
answered with all the same units, and maybe more, once every unit that it told of is reopened, in
any order, and for a question about a unit that unit too. The answer is exactly the same if nothing
was marked before.
-/
theorem reopened_question_answered_again (reachable : graph.Reachable)
    (incremental : graph.options.incremental = true) (walks : question.walks = true)
    {units : List UnitName} (covers : ∀ unit, graph.Tells question unit → unit ∈ units)
    : let later := units.foldl reopen (graph.after question)
      graph.answer question ⊆ later.answer question
      ∧ (graph.store.marked = [] → later.answer question = graph.answer question) := by
  intro later
  have asked := graph.undisturbed_after (Operation.integrates_of_walks walks)
  have undisturbed : graph.Undisturbed later := asked.trans (undisturbed_foldl_reopen _ units)
  have fewer : later.store.marked ⊆ graph.store.marked :=
    marked_reopened_subset reachable incremental question covers
  obtain ⟨marked, sameStore⟩ := undisturbed.store
  have indexed := reachable.sound.indexed
  constructor
  · have onlyMarked : later.store.OnlyMarked graph.store :=
      ⟨⟨graph.store.marked, by rw [sameStore]⟩, fewer⟩
    exact answer_subset_of_fewer indexed (undisturbed.indexed indexed) incremental
      (undisturbed.options ▸ incremental) onlyMarked walks
  · intro unmarked
    refine answer_eq_of_store_eq undisturbed.options ?_ walks
    have nothing : later.store.marked = [] := List.subset_nil.1 (unmarked ▸ fewer)
    rw [sameStore] at nothing ⊢
    obtain rfl : marked = [] := nothing
    rw [← unmarked]

/-- A chain of three units. A question about the second one marked its definitions and the use of
the third one, which was reopened since.
-/
def halfMarkedChain : Graph :=
  [Operation.integrate ((Snapshot.start "u0").define (.interface (.topLevel "a")) none),
    .integrate
      (((Snapshot.start "u1").define (.interface (.topLevel "b")) none).consume
        (.interface (.topLevel "a")) true),
    .integrate ((Snapshot.start "u2").consume (.interface (.topLevel "b")) true),
    .askUnit "u1",
    .reopen "u2"].foldl
    Graph.after (.new {})

/-- The marks in the middle of a chain keep a question from its end. When the units that it told of
are reopened, nothing is marked, and it is answered with the end as well; when those are reopened,
it is answered with the same units.
-/
theorem end_of_chain_told_again
    : let question := Operation.askUnit "u0"
      let first := ["u1", "u0"].foldl reopen (halfMarkedChain.after question)
      let second := ["u0", "u2", "u1"].foldl reopen (first.after question)
      halfMarkedChain.answer question = ["u1"]
      ∧ "u1" ∈ first.answer question
      ∧ "u2" ∈ first.answer question
      ∧ second.answer question = first.answer question := by
  intro question first second
  have reachable : halfMarkedChain.Reachable := Reachable.foldl_after (.new {}) _
  have firstReachable : first.Reachable :=
    (reachable.after question).foldl_after [.reopen "u1", .reopen "u0"]
  have told : halfMarkedChain.answer question = ["u1"] := by decide
  have toldAgain : first.answer question = ["u1", "u2"] := by decide
  have covers {graph : Graph} {answer : List UnitName} (units : List UnitName)
      (told : graph.answer question = answer) (included : "u0" :: answer ⊆ units)
      : ∀ unit, graph.Tells question unit → unit ∈ units := by
    intro unit tells
    rcases tells with answered | named
    · exact included (List.mem_cons_of_mem _ (told ▸ answered))
    · obtain rfl := Operation.askUnit.inj named
      exact included List.mem_cons_self
  have again := reopened_question_answered_again reachable rfl rfl
    (covers ["u1", "u0"] told (by decide))
  have same := reopened_question_answered_again firstReachable rfl rfl
    (covers ["u0", "u2", "u1"] toldAgain (by decide))
  refine ⟨told, again.1 ?_, ?_, same.2 (by decide)⟩
  · rw [told]
    exact List.mem_singleton_self _
  · rw [toldAgain]
    exact List.mem_cons_of_mem _ List.mem_cons_self

end Graph

end Invalidation
