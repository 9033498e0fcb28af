import Invalidation.Walk
import Invalidation.Proofs.Store.Alike
import Mathlib.Data.List.Nodup

/-! A search discovers exactly the nodes that can be reached. Discovery stops at nodes that do not
pass or were seen; the number of stored nodes bounds how often the queue grows, so the fuel never
ends a search early.
-/

namespace Invalidation

namespace Store

/-- A node is reached in one or more moves from the given ones. Each start moves by its given value
and every later node by its stored value; one that is not stored moves nowhere. Every node on the
way has to be one that the walk enters.
-/
inductive Reached (store : Store) (moves : Node → NodeRef → Prop) (enters : NodeRef → Prop)
    (starts : List Node)
    : NodeRef → Prop
  | first {start next} (isStart : start ∈ starts) (moved : moves start next)
    (entered : enters next) : Reached store moves enters starts next
  | next {before node next} (reached : Reached store moves enters starts before)
    (stored : store.node? before = some node) (moved : moves node next)
    (entered : enters next) : Reached store moves enters starts next

namespace Reached

variable {store : Store} {moves : Node → NodeRef → Prop} {enters : NodeRef → Prop}
  {starts : List Node} {ref : NodeRef}

theorem enters_of_reached (reached : store.Reached moves enters starts ref) : enters ref := by
  cases reached with
  | first _ _ entered => exact entered
  | next _ _ _ entered => exact entered

theorem exists_start (reached : store.Reached moves enters starts ref)
    : ∃ start, start ∈ starts := by
  induction reached with
  | first isStart _ _ => exact ⟨_, isStart⟩
  | next _ _ _ _ ih => exact ih

/-- A walk that enters more reaches at least as much, by induction on the way. -/
theorem mono {enters' : NodeRef → Prop} (reached : store.Reached moves enters starts ref)
    (wider : ∀ node next, moves node next → enters next → enters' next)
    : store.Reached moves enters' starts ref := by
  induction reached with
  | first isStart moved entered => exact .first isStart moved (wider _ _ moved entered)
  | next _ stored moved entered ih => exact .next ih stored moved (wider _ _ moved entered)

/-- A start that is itself the stored node of a reached one adds nothing. -/
theorem of_starts {starts' : List Node}
    (reached : store.Reached moves enters starts' ref)
    (known
      : ∀ start ∈ starts',
          start ∈ starts
          ∨ ∃ before, store.Reached moves enters starts before ∧ store.node? before = some start)
    : store.Reached moves enters starts ref := by
  induction reached with
  | first isStart moved entered =>
      rcases known _ isStart with isStart | ⟨before, reached, stored⟩
      · exact .first isStart moved entered
      · exact .next reached stored moved entered
  | next _ stored moved entered ih => exact .next ih stored moved entered

/-- Where the stored nodes of blocked identities are starts themselves, blocking costs only those
identities: a path through one of them begins anew there.
-/
theorem avoiding {blocked : NodeRef → Prop} (reached : store.Reached moves enters starts ref)
    (restart : ∀ before node, blocked before → store.node? before = some node → node ∈ starts)
    : store.Reached moves (fun next => enters next ∧ ¬blocked next) starts ref ∨ blocked ref := by
  induction reached with
  | @first start next isStart moved entered =>
      by_cases atBlocked : blocked next
      · exact .inr atBlocked
      · exact .inl (.first isStart moved ⟨entered, atBlocked⟩)
  | @next before node next _ stored moved entered ih =>
      by_cases atBlocked : blocked next
      · exact .inr atBlocked
      · rcases ih with free | wasBlocked
        · exact .inl (.next free stored moved ⟨entered, atBlocked⟩)
        · exact .inl (.first (restart _ _ wasBlocked stored) moved ⟨entered, atBlocked⟩)

end Reached

-----------------------------------------------------------------------------------------
-- What one expansion finds
-----------------------------------------------------------------------------------------

theorem mem_fresh {passes : NodeRef → Bool} {seen nodes : List NodeRef} {node : NodeRef}
    : node ∈ fresh passes seen nodes ↔ node ∈ nodes ∧ passes node ∧ node ∉ seen := by
  simp [fresh]

theorem nodup_fresh (passes : NodeRef → Bool) (seen nodes : List NodeRef)
    : (fresh passes seen nodes).Nodup :=
  nodup_eraseDups _

/-- The nodes that are found are found in the same order by whatever passes the same of them. -/
theorem fresh_congr {passes passes' : NodeRef → Bool} {seen nodes : List NodeRef}
    (agree : ∀ node ∈ nodes, node ∉ seen → passes node = passes' node)
    : fresh passes seen nodes = fresh passes' seen nodes := by
  unfold fresh
  congr 1
  apply List.filter_congr
  intro node member
  by_cases known : node ∈ seen
  · simp [known]
  · simp [known, agree node member known]

-----------------------------------------------------------------------------------------
-- Fuel
-----------------------------------------------------------------------------------------

/-- How many nodes are stored that a search has not seen. -/
def unseen (store : Store) (seen : List NodeRef)
    : Nat :=
  (store.nodes.keys.filter fun ref => ref ∉ seen).length

theorem unseen_le_nodeCount (store : Store) (seen : List NodeRef)
    : store.unseen seen ≤ store.nodeCount := by
  have all : store.nodes.keys.length = store.nodeCount := List.length_map _
  exact all ▸ List.length_filter_le _ _

/-- Each stored node that is found leaves one unseen node less, since it is found once and was not
seen before.
-/
theorem unseen_append {store : Store} {seen found : List NodeRef} (distinct : found.Nodup)
    (news : ∀ ref ∈ found, ref ∉ seen)
    : store.unseen (seen ++ found) + (found.filterMap store.node?).length ≤ store.unseen seen := by
  have split
      : store.unseen seen
        = (store.nodes.keys.filter fun ref => ref ∉ seen ∧ ref ∈ found).length
          + store.unseen (seen ++ found) := by
    rw [unseen, unseen, List.length_eq_length_filter_add (· ∈ found)]
    simp only [List.filter_filter, List.mem_append, not_or]
    congr 2 <;> refine List.filter_congr fun ref _ => ?_ <;>
      simp [Bool.and_comm, Bool.decide_and]
  have enqueued
      : (found.filterMap store.node?).length
        ≤ (store.nodes.keys.filter fun ref => ref ∉ seen ∧ ref ∈ found).length := by
    have stored : (found.filterMap store.node?).length = (found.filter store.contains).length := by
      rw [← List.countP_eq_length_filter, List.length_filterMap_eq_countP]
      exact List.countP_congr fun ref _ => by simp [contains, node?]
    rw [stored]
    apply (distinct.filter _).length_le_of_subset
    intro ref member
    obtain ⟨inFound, isStored⟩ := List.mem_filter.1 member
    exact List.mem_filter.2
      ⟨Table.contains_iff_mem_keys.1 isStored, by simp [news ref inFound, inFound]⟩
  omega

-----------------------------------------------------------------------------------------
-- What a search discovers
-----------------------------------------------------------------------------------------

/-- The moves of a walk as the indices give them. -/
def Moves (store : Store) (node : Node) (next : NodeRef) : Prop := next ∈ store.stepsFrom node

/-- Whatever a search discovers is reached from its queue, by induction on the fuel: what is found
fresh is one move away, and what the rest of the search finds is reached from there.
-/
theorem reached_of_mem_search {store : Store} {passes : NodeRef → Bool} {fuel : Nat}
    {seen : List NodeRef} {queue : List Node} {ref : NodeRef}
    (member : ref ∈ store.search passes fuel seen queue)
    : store.Reached store.Moves (fun next => passes next ∧ next ∉ seen) queue ref := by
  induction fuel generalizing seen queue with
  | zero => simp [search] at member
  | succ fuel ih =>
      cases queue with
      | nil => simp [search] at member
      | cons node rest =>
          simp only [search, List.mem_append] at member
          have first {next : NodeRef} (found : next ∈ fresh passes seen (store.stepsFrom node))
              : store.Reached store.Moves (fun next => passes next ∧ next ∉ seen) (node :: rest)
                  next := by
            obtain ⟨moved, entered⟩ := mem_fresh.1 found
            exact .first List.mem_cons_self moved entered
          rcases member with found | later
          · exact first found
          · refine Reached.of_starts ((ih later).mono ?_) ?_
            · intro _ next _ entered
              exact ⟨entered.1, fun known => entered.2 (List.mem_append_left _ known)⟩
            · intro start isStart
              rcases List.mem_append.1 isStart with old | new
              · exact .inl (List.mem_cons_of_mem _ old)
              · obtain ⟨next, found, stored⟩ := List.mem_filterMap.1 new
                exact .inr ⟨next, first found, stored⟩

/-- With enough fuel a search discovers every node that passes, was not seen, and is one move away
from a node of the queue or from a stored node that the search discovered.
-/
theorem search_closed {store : Store} {passes : NodeRef → Bool} {fuel : Nat}
    {seen : List NodeRef} {queue : List Node}
    (enough : queue.length + store.unseen seen ≤ fuel)
    {node : Node} {next : NodeRef} (moved : store.Moves node next) (passed : passes next)
    (unseen : next ∉ seen)
    (from_
      : node ∈ queue
        ∨ ∃ before ∈ store.search passes fuel seen queue, store.node? before = some node)
    : next ∈ store.search passes fuel seen queue := by
  induction fuel generalizing seen queue with
  | zero =>
      have empty : queue = [] := List.eq_nil_of_length_eq_zero (by omega)
      simp [search, empty] at from_
  | succ fuel ih =>
      cases queue with
      | nil => simp [search] at from_
      | cons head rest =>
          simp only [search, List.mem_append] at from_ ⊢
          generalize found_eq : fresh passes seen (store.stepsFrom head) = found at from_ ⊢
          by_cases known : next ∈ found
          · exact .inl known
          · right
            have spent : store.unseen (seen ++ found) + (found.filterMap store.node?).length
                ≤ store.unseen seen := by
              subst found_eq
              exact unseen_append (nodup_fresh _ _ _) fun ref member => (mem_fresh.1 member).2.2
            simp only [List.length_cons] at enough
            refine ih (by rw [List.length_append]; omega) ?_ ?_
            · simp [unseen, known]
            · rcases from_ with isHead | ⟨before, foundNow | later, stored⟩
              · rcases List.mem_cons.1 isHead with rfl | inRest
                · exact absurd (found_eq ▸ mem_fresh.2 ⟨moved, passed, unseen⟩) known
                · exact .inl (List.mem_append_left _ inRest)
              · have enqueued := List.mem_filterMap.2 ⟨before, foundNow, stored⟩
                exact .inl (List.mem_append_right _ enqueued)
              · exact .inr ⟨before, later, stored⟩

/-- A search discovers exactly the nodes that are reached from its queue through nodes that pass and
were not seen. Cycles and nodes that are not stored do no harm.
-/
theorem mem_discover_iff {store : Store} {passes : NodeRef → Bool} {seen : List NodeRef}
    {queue : List Node} {ref : NodeRef}
    : ref ∈ store.discover passes seen queue
      ↔ store.Reached store.Moves (fun next => passes next ∧ next ∉ seen) queue ref := by
  refine ⟨reached_of_mem_search, ?_⟩
  have enough : queue.length + store.unseen seen ≤ queue.length + store.nodeCount :=
    Nat.add_le_add_left (unseen_le_nodeCount store seen) _
  intro reached
  induction reached with
  | first isStart moved entered =>
      exact search_closed enough moved entered.1 entered.2 (.inl isStart)
  | next _ stored moved entered ih =>
      exact search_closed enough moved entered.1 entered.2 (.inr ⟨_, ih, stored⟩)

-----------------------------------------------------------------------------------------
-- Searches that go the same way
-----------------------------------------------------------------------------------------

/-- Two tests that agree on everything that can be reached and was not seen lead a search to the
same nodes in the same order, by induction on the fuel.
-/
theorem search_congr {store : Store} {passes passes' : NodeRef → Bool} {fuel : Nat}
    {seen : List NodeRef} {queue : List Node}
    (agree
      : ∀ ref,
          store.Reached store.Moves (fun _ => True) queue ref
          → ref ∉ seen
          → passes ref = passes' ref)
    : store.search passes fuel seen queue = store.search passes' fuel seen queue := by
  induction fuel generalizing seen queue with
  | zero => rfl
  | succ fuel ih =>
      cases queue with
      | nil => rfl
      | cons node rest =>
          have step {next : NodeRef} (moved : next ∈ store.stepsFrom node)
              : store.Reached store.Moves (fun _ => True) (node :: rest) next :=
            .first List.mem_cons_self moved trivial
          have same : fresh passes seen (store.stepsFrom node)
              = fresh passes' seen (store.stepsFrom node) :=
            fresh_congr fun next moved unseen => agree next (step moved) unseen
          simp only [search, same]
          congr 1
          refine ih fun ref reached unseen => agree ref (reached.of_starts ?_) ?_
          · intro start isStart
            rcases List.mem_append.1 isStart with old | new
            · exact .inl (List.mem_cons_of_mem _ old)
            · obtain ⟨next, found, stored⟩ := List.mem_filterMap.1 new
              exact .inr ⟨next, step (mem_fresh.1 found).1, stored⟩
          · exact fun known => unseen (List.mem_append_left _ known)

theorem Alike.stepsFrom {left right : Store} (alike : left.Alike right) (node : Node)
    : left.stepsFrom node = right.stepsFrom node := by
  simp only [Store.stepsFrom, usesOf, dependentNodes, exportsOf, alike.users _,
    alike.dependents _, alike.factsOf]

/-- In stores that are alike a search goes the same way. -/
theorem Alike.discover {left right : Store} (alike : left.Alike right) (passes : NodeRef → Bool)
    (seen : List NodeRef) (queue : List Node)
    : left.discover passes seen queue = right.discover passes seen queue := by
  have search (fuel : Nat) : ∀ seen queue,
      left.search passes fuel seen queue = right.search passes fuel seen queue := by
    induction fuel with
    | zero => exact fun _ _ => rfl
    | succ fuel ih =>
        intro seen queue
        cases queue with
        | nil => rfl
        | cons node rest =>
            simp only [Store.search, alike.stepsFrom, ih, funext alike.node?]
  simp only [Store.discover, search, alike.nodeCount]

end Store

end Invalidation
