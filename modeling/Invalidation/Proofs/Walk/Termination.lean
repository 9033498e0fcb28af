import Invalidation.Proofs.Walk.Marks

/-! Every walk ends, whatever is stored and whatever the indices list. A walk is followed here one
look at a time, with the marks changing on its way: no node enters its queue twice, and so the queue
runs empty. The walk that takes marks away takes exactly those of the nodes further on.
-/

namespace Invalidation.Store

-----------------------------------------------------------------------------------------
-- Walks without a bound
-----------------------------------------------------------------------------------------

/-- What sets a kind of walk apart: which nodes it enters, in the store as it is by then, and what it
does to their marks.
-/
structure Manner where
  enters : Store → NodeRef → Bool
  touch : Store → List NodeRef → Store

namespace Manner

/-- A walk that reports enters stored nodes without a mark, and marks them. -/
def reporting : Manner := ⟨isOpen, mark⟩

/-- A walk that takes marks away enters every node. -/
def unmarking : Manner := ⟨fun _ _ => true, unmark⟩

/-- Entering nodes leaves the facts and the indices alone, decides nothing about other nodes, and may
be done for several nodes at once.
-/
structure Lawful (manner : Manner) : Prop where
  alike : ∀ store nodes, (manner.touch store nodes).Alike store
  enters
    : ∀ store nodes ref,
        ref ∉ nodes → manner.enters (manner.touch store nodes) ref = manner.enters store ref
  none : ∀ store, manner.touch store [] = store
  append
    : ∀ store first later,
        manner.touch (manner.touch store first) later = manner.touch store (first ++ later)

theorem lawful_reporting : reporting.Lawful where
  alike := fun store _ => alike_withMarks store _
  enters := by
    intro store nodes ref other
    have sameMark : ref ∈ (store.mark nodes).marked ↔ ref ∈ store.marked := by
      rw [mem_marked_mark, or_iff_left other]
    change (store.contains ref && !(store.mark nodes).marked.contains ref) = store.isOpen ref
    simp only [isOpen, List.contains_eq_mem, sameMark]
  none := fun _ => rfl
  append := fun store first later => by simp [reporting, mark]

theorem lawful_unmarking : unmarking.Lawful where
  alike := fun store _ => alike_withMarks store _
  enters := fun _ _ _ _ => rfl
  none := fun store => by simp [unmarking, unmark]
  append := fun store first later => by
    simp [unmarking, unmark, List.filter_filter, Bool.and_comm]

end Manner

/-- Where a walk stands. -/
structure Stage where
  store : Store
  seen : List NodeRef
  queue : List Node
  /-- Whatever was placed in the queue so far, in order. -/
  placed : List NodeRef

namespace Stage

/-- A walk that begins with nodes in its queue. -/
def start (store : Store) (seen : List NodeRef) (queue : List Node)
    : Stage :=
  ⟨store, seen, queue, queue.map Node.ref⟩

/-- Looks at a node once. If the walk enters it, its mark changes, and it is placed in the queue if it
is stored.
-/
def look (manner : Manner) (stage : Stage) (next : NodeRef)
    : Stage :=
  if next ∈ stage.seen then stage
  else if manner.enters stage.store next then {
    store := manner.touch stage.store [next]
    seen := stage.seen ++ [next]
    queue := stage.queue ++ [next].filterMap stage.store.node?
    placed := stage.placed ++ ([next].filterMap stage.store.node?).map Node.ref
  }
  else { stage with seen := stage.seen ++ [next] }

/-- Takes the first node from the queue and looks at the nodes one step further. -/
def expand (manner : Manner) (stage : Stage)
    : Stage :=
  match stage.queue with
  | [] => stage
  | node :: rest => (stage.store.stepsFrom node).foldl (look manner) { stage with queue := rest }

/-- The walk after a number of expansions; it stays as it is when the queue is empty. -/
def after (manner : Manner) : Nat → Stage → Stage
  | 0, stage => stage
  | count + 1, stage => (stage.expand manner).after manner count

/-- A walk from a stage ends with a store: its queue is empty after a bounded number of expansions,
and no node is ever placed in the queue twice.
-/
structure Ends (stage : Stage) (manner : Manner) (bound : Nat) (last : Store) : Prop where
  halts
    : ∃ count ≤ bound,
        (stage.after manner count).queue = [] ∧ (stage.after manner count).store = last
  once : ∀ count, (stage.after manner count).placed.Nodup

-----------------------------------------------------------------------------------------
-- No node enters the queue twice
-----------------------------------------------------------------------------------------

/-- The nodes that were placed in the queue are distinct, and all of them have been seen. -/
structure Orderly (stage : Stage) : Prop where
  distinct : stage.placed.Nodup
  known : stage.placed ⊆ stage.seen

variable {manner : Manner} {stage : Stage}

theorem refs_filterMap_node? (store : Store) (nodes : List NodeRef)
    : (nodes.filterMap store.node?).map Node.ref = nodes.filter store.contains := by
  induction nodes with
  | nil => rfl
  | cons ref rest ih =>
      cases found : store.fact? ref with
      | none =>
          have unstored : store.node? ref = none := by rw [node?, found, Option.map_none]
          rw [List.filterMap_cons_none unstored, ih,
            List.filter_cons_of_neg (by simp [Store.contains, found])]
      | some fact =>
          have sameRef : Node.ref ⟨fact, ref.unit⟩ = ref := by
            rw [Node.ref, key_of_fact? found]
          rw [List.filterMap_cons_some (node?_of_fact? found), List.map_cons, ih, sameRef,
            List.filter_cons_of_pos (by simp [Store.contains, found])]

/-- A look places a node in the queue that was not seen before. -/
theorem Orderly.look (orderly : stage.Orderly) (next : NodeRef)
    : (stage.look manner next).Orderly := by
  unfold Stage.look
  split
  · exact orderly
  · rename_i unseen
    have known : stage.placed ⊆ stage.seen ++ [next] :=
      fun ref member => List.mem_append_left _ (orderly.known member)
    split
    · rw [refs_filterMap_node?]
      have atMostNext : ([next].filter stage.store.contains).Sublist [next] := List.filter_sublist
      constructor
      · refine List.nodup_append.2 ⟨orderly.distinct, ?_, ?_⟩
        · exact atMostNext.nodup (List.nodup_singleton next)
        · intro ref isPlaced other isNew same
          rw [same, List.mem_singleton.1 (atMostNext.subset isNew)] at isPlaced
          exact unseen (orderly.known isPlaced)
      · refine List.append_subset.2 ⟨known, fun ref isNew => ?_⟩
        exact List.mem_append_right _ (atMostNext.subset isNew)
    · exact ⟨orderly.distinct, known⟩

theorem Orderly.foldl_look (orderly : stage.Orderly) (nodes : List NodeRef)
    : (nodes.foldl (Stage.look manner) stage).Orderly := by
  induction nodes generalizing stage with
  | nil => exact orderly
  | cons next rest ih => exact ih (orderly.look next)

theorem Orderly.expand (orderly : stage.Orderly) : (stage.expand manner).Orderly := by
  unfold Stage.expand
  split
  · exact orderly
  · rename_i node rest _
    have popped : Orderly { stage with queue := rest } := ⟨orderly.distinct, orderly.known⟩
    exact popped.foldl_look _

theorem Orderly.after (orderly : stage.Orderly) (count : Nat)
    : (stage.after manner count).Orderly := by
  induction count generalizing stage with
  | zero => exact orderly
  | succ count ih => exact ih orderly.expand

/-- Where a walk begins with distinct nodes that count as seen, no node enters the queue twice. -/
theorem orderly_start {store : Store} {seen : List NodeRef} {queue : List Node}
    (distinct : (queue.map Node.ref).Nodup) (known : queue.map Node.ref ⊆ seen)
    : (start store seen queue).Orderly :=
  ⟨distinct, known⟩

-----------------------------------------------------------------------------------------
-- The queue runs empty
-----------------------------------------------------------------------------------------

theorem fresh_cons_of_entered {passes : NodeRef → Bool} {seen : List NodeRef} {next : NodeRef}
    (passed : passes next = true) (unseen : next ∉ seen) (rest : List NodeRef)
    : fresh passes seen (next :: rest) = next :: fresh passes (seen ++ [next]) rest := by
  have entered : (passes next && !seen.contains next) = true := by simp [passed, unseen]
  rw [fresh, List.filter_cons, if_pos entered, List.eraseDups_cons, fresh, List.filter_filter]
  congr 2
  refine List.filter_congr fun ref _ => ?_
  by_cases same : ref = next <;> simp [same]

theorem fresh_cons_of_not_entered {passes : NodeRef → Bool} {seen : List NodeRef}
    {next : NodeRef} (left : passes next = true → next ∈ seen) (rest : List NodeRef)
    : fresh passes seen (next :: rest) = fresh passes seen rest := by
  have entered : ¬(passes next && !seen.contains next) = true := by simpa using left
  rw [fresh, List.filter_cons, if_neg entered, fresh]

/-- A stage of a walk that began in a base store keeps in step with a search in that store: the facts
are the same, so is what the walk may enter, and it has seen what the search has.
-/
structure Follows (stage : Stage) (manner : Manner) (base : Store) (seen : List NodeRef) : Prop where
  alike : stage.store.Alike base
  enters
    : ∀ ref, ref ∉ stage.seen → manner.enters stage.store ref = manner.enters base ref
  seen : ∀ ref, manner.enters base ref = true → (ref ∈ stage.seen ↔ ref ∈ seen)

variable {base : Store} {seen : List NodeRef}

/-- A look that enters a node enters it in step with a search that finds it. -/
theorem Follows.look_of_entered (follows : stage.Follows manner base seen)
    (lawful : manner.Lawful) {next : NodeRef} (entered : manner.enters base next = true)
    (unseen : next ∉ seen)
    : (stage.look manner next).Follows manner base (seen ++ [next])
      ∧ (stage.look manner next).store = manner.touch stage.store [next]
      ∧ (stage.look manner next).queue = stage.queue ++ [next].filterMap base.node? := by
  have isNew : next ∉ stage.seen := fun known => unseen ((follows.seen next entered).1 known)
  have now : manner.enters stage.store next = true := (follows.enters next isNew).trans entered
  unfold look
  rw [if_neg isNew, if_pos now]
  refine ⟨⟨(lawful.alike _ _).trans follows.alike, ?_, ?_⟩, rfl, ?_⟩
  · intro ref other
    rw [List.mem_append, not_or] at other
    rw [lawful.enters _ _ _ other.2, follows.enters ref other.1]
  · intro ref enters
    rw [List.mem_append, List.mem_append, follows.seen ref enters]
  · rw [funext follows.alike.node?]

/-- A look at a node that was seen or is not entered leaves everything to the next look. -/
theorem Follows.look_of_left (follows : stage.Follows manner base seen) {next : NodeRef}
    (left : manner.enters base next = true → next ∈ seen)
    : (stage.look manner next).Follows manner base seen
      ∧ (stage.look manner next).store = stage.store
      ∧ (stage.look manner next).queue = stage.queue := by
  unfold look
  by_cases known : next ∈ stage.seen
  · rw [if_pos known]
    exact ⟨follows, rfl, rfl⟩
  · have closed : ¬manner.enters stage.store next = true := by
      rw [follows.enters next known]
      exact fun enters => known ((follows.seen next enters).2 (left enters))
    rw [if_neg known, if_neg closed]
    refine ⟨⟨follows.alike, ?_, ?_⟩, rfl, rfl⟩
    · exact fun ref other => follows.enters ref fun before =>
        other (List.mem_append_left _ before)
    · intro ref enters
      rw [List.mem_append, ← follows.seen ref enters, List.mem_singleton]
      refine or_iff_left ?_
      rintro rfl
      exact closed ((follows.enters ref known).trans enters)

/-- Looks at nodes one by one enter what a search finds fresh among them, by induction on the nodes.
-/
theorem Follows.foldl_look (follows : stage.Follows manner base seen) (lawful : manner.Lawful)
    (nodes : List NodeRef)
    : (nodes.foldl (look manner) stage).Follows manner base
        (seen ++ fresh (manner.enters base) seen nodes)
      ∧ (nodes.foldl (look manner) stage).store
        = manner.touch stage.store (fresh (manner.enters base) seen nodes)
      ∧ (nodes.foldl (look manner) stage).queue
        = stage.queue ++ (fresh (manner.enters base) seen nodes).filterMap base.node? := by
  induction nodes generalizing stage seen with
  | nil =>
      have nothing : fresh (manner.enters base) seen [] = [] := rfl
      rw [nothing, List.append_nil, lawful.none, List.filterMap_nil, List.append_nil]
      exact ⟨follows, rfl, rfl⟩
  | cons next rest ih =>
      by_cases entered : manner.enters base next = true ∧ next ∉ seen
      · obtain ⟨followed, store, queue⟩ := follows.look_of_entered lawful entered.1 entered.2
        have others := ih followed
        rw [store, queue, lawful.append, List.append_assoc, List.append_assoc,
          ← List.filterMap_append, List.singleton_append] at others
        rw [fresh_cons_of_entered entered.1 entered.2, List.foldl_cons]
        exact others
      · have left : manner.enters base next = true → next ∈ seen := by simpa using entered
        obtain ⟨followed, store, queue⟩ := follows.look_of_left left
        rw [fresh_cons_of_not_entered left, List.foldl_cons, ← store, ← queue]
        exact ih followed

/-- A walk that follows a search runs until its queue is empty, and enters what the search discovers;
by induction on the fuel that is enough for the search.
-/
theorem Follows.exists_after {fuel : Nat} (follows : stage.Follows manner base seen)
    (lawful : manner.Lawful) (enough : stage.queue.length + base.unseen seen ≤ fuel)
    : ∃ count ≤ fuel,
        (stage.after manner count).queue = []
        ∧ (stage.after manner count).store
          = manner.touch stage.store (base.search (manner.enters base) fuel seen stage.queue) := by
  induction fuel generalizing stage seen with
  | zero =>
      have empty : stage.queue = [] := List.eq_nil_of_length_eq_zero (by omega)
      exact ⟨0, Nat.le_refl 0, empty, (lawful.none _).symm⟩
  | succ fuel ih =>
      cases waiting : stage.queue with
      | nil => exact ⟨0, Nat.zero_le _, waiting, (lawful.none _).symm⟩
      | cons node rest =>
          generalize found_eq : fresh (manner.enters base) seen (base.stepsFrom node) = found
          have popped : Follows { stage with queue := rest } manner base seen :=
            ⟨follows.alike, follows.enters, follows.seen⟩
          have expanded
              : stage.expand manner
                = (base.stepsFrom node).foldl (look manner) { stage with queue := rest } := by
            rw [expand, waiting]
            dsimp only
            rw [follows.alike.stepsFrom]
          obtain ⟨followed, store, queue⟩ := popped.foldl_look lawful (base.stepsFrom node)
          rw [← expanded, found_eq] at followed store queue
          have spent : base.unseen (seen ++ found) + (found.filterMap base.node?).length
              ≤ base.unseen seen := by
            subst found_eq
            exact unseen_append (nodup_fresh _ _ _) fun ref member => (mem_fresh.1 member).2.2
          rw [waiting, List.length_cons] at enough
          obtain ⟨count, within, halted, last⟩ :=
            ih followed (by rw [queue, List.length_append]; dsimp only; omega)
          refine ⟨count + 1, by omega, halted, ?_⟩
          rw [after, last, store, queue, lawful.append, search, found_eq]

/-- A walk that begins with distinct nodes, which count as seen, ends with the store in which whatever
a search discovers from them was entered.
-/
theorem ends_start (lawful : manner.Lawful) (store : Store) {queue : List Node}
    (distinct : (queue.map Node.ref).Nodup) (known : queue.map Node.ref ⊆ seen)
    : (start store seen queue).Ends manner (queue.length + store.nodeCount)
        (manner.touch store (store.discover (manner.enters store) seen queue)) := by
  have follows : (start store seen queue).Follows manner store seen :=
    ⟨alike_withMarks _ _, fun _ _ => rfl, fun _ _ => Iff.rfl⟩
  have enough := Nat.add_le_add_left (unseen_le_nodeCount store seen) queue.length
  exact ⟨follows.exists_after lawful enough, fun count =>
    ((orderly_start distinct known).after count).distinct⟩

theorem Ends.weaken {bound wider : Nat} {last : Store} (ends : stage.Ends manner bound last)
    (below : bound ≤ wider)
    : stage.Ends manner wider last := by
  obtain ⟨count, within, halted⟩ := ends.halts
  exact ⟨⟨count, Nat.le_trans within below, halted⟩, ends.once⟩

end Stage

-----------------------------------------------------------------------------------------
-- What lies downstream
-----------------------------------------------------------------------------------------

/-- A step of a walk from a node as the indices list it: to a use that sees a definition's key, to a
node of the same unit that is listed with an edge to the node, and, from a use that cascades, to any
interface definition of its unit. Nothing says that the first two are stored.
-/
inductive IndexStep (store : Store) (node : Node) : NodeRef → Prop
  | use {unit} (provided : node.isDefinition = true)
    (visible : node.key.isInterface = true ∨ unit = node.unit)
    (listed : unit ∈ store.users.values node.key)
    : store.IndexStep node ⟨node.key, unit⟩
  | edge {key} (listed : key ∈ store.dependents.values node.ref)
    : store.IndexStep node ⟨key, node.unit⟩
  | cascade {fact} (cascades : node.role.cascades = true)
    (owned : fact ∈ store.factsOf node.unit) (provided : fact.isDefinition = true)
    (shown : fact.key.isInterface = true)
    : store.IndexStep node ⟨fact.key, node.unit⟩

theorem moves_iff_indexStep {store : Store} {node : Node} {next : NodeRef}
    : store.Moves node next ↔ store.IndexStep node next := by
  simp only [Moves, stepsFrom, List.mem_append]
  constructor
  · intro given
    rcases given with (uses | linked) | shown
    · split at uses
      · rename_i provided
        obtain ⟨unit, listed, rfl⟩ := List.mem_map.1 uses
        obtain ⟨listed, visible⟩ := List.mem_filter.1 listed
        exact .use provided ((Bool.or_eq_true_iff.1 visible).imp_right of_decide_eq_true) listed
      · cases uses
    · obtain ⟨key, listed, rfl⟩ := List.mem_map.1 linked
      exact .edge listed
    · split at shown
      · rename_i cascades
        obtain ⟨fact, member, rfl⟩ := List.mem_map.1 shown
        obtain ⟨owned, exported⟩ := List.mem_filter.1 member
        rw [Bool.and_eq_true] at exported
        exact .cascade cascades owned exported.1 exported.2
      · cases shown
  · intro step
    cases step with
    | @use unit provided visible listed =>
        refine .inl (.inl ?_)
        rw [if_pos provided]
        have visible := Bool.or_eq_true_iff.2 (visible.imp_right fun same => decide_eq_true same)
        exact List.mem_map.2 ⟨unit, List.mem_filter.2 ⟨listed, visible⟩, rfl⟩
    | @edge key listed => exact .inl (.inr (List.mem_map.2 ⟨key, listed, rfl⟩))
    | @cascade fact cascades owned provided shown =>
        refine .inr ?_
        rw [if_pos cascades]
        refine List.mem_map.2 ⟨fact, List.mem_filter.2 ⟨owned, ?_⟩, rfl⟩
        rw [provided, shown, Bool.and_self]

/-- The value by which a node steps on: the given one if it is a seed, and otherwise the stored one. A
node that is neither a seed nor stored steps nowhere.
-/
inductive StepsAs (store : Store) (seeds : List Node) (ref : NodeRef) (node : Node) : Prop
  | given (isSeed : node ∈ seeds) (same : node.ref = ref)
  | stored (other : ref ∉ seeds.map Node.ref) (held : store.node? ref = some node)

/-- A node can be reached from a seed in one or more steps. -/
inductive Downstream (store : Store) (seeds : List Node) : NodeRef → Prop
  | first {seed next} (isSeed : seed ∈ seeds) (step : store.IndexStep seed next)
    : store.Downstream seeds next
  | next {before node next} (downstream : store.Downstream seeds before)
    (value : store.StepsAs seeds before node) (step : store.IndexStep node next)
    : store.Downstream seeds next

/-- A walk that counts its seeds as seen does not come back to them, but whatever lies beyond a seed
lies beyond it from the beginning. Both directions go by induction on the way.
-/
theorem downstream_iff_reached {store : Store} {seeds : List Node} {ref : NodeRef}
    (other : ref ∉ seeds.map Node.ref)
    : store.Downstream seeds ref
      ↔ store.Reached store.Moves (· ∉ seeds.map Node.ref) seeds ref := by
  constructor
  · intro downstream
    induction downstream with
    | first isSeed step => exact .first isSeed (moves_iff_indexStep.2 step) other
    | @next before node next _ value step ih =>
        have moved := moves_iff_indexStep.2 step
        cases value with
        | given isSeed _ => exact .first isSeed moved other
        | stored unseeded held => exact .next (ih unseeded) held moved other
  · intro reached
    clear other
    induction reached with
    | first isStart moved _ => exact .first isStart (moves_iff_indexStep.1 moved)
    | next reached held moved _ ih =>
        exact .next ih (.stored reached.enters_of_reached held) (moves_iff_indexStep.1 moved)

/-- The marks that are taken away are those of the nodes downstream of the seeds, other than the seeds
themselves.
-/
theorem mem_marked_unmarkBeyond_iff {store : Store} {seeds : List Node} {ref : NodeRef}
    : ref ∈ (store.unmarkBeyond seeds).marked
      ↔ ref ∈ store.marked ∧ (store.Downstream seeds ref → ref ∈ seeds.map Node.ref) := by
  rw [unmarkBeyond, mem_marked_unmark, mem_discover_iff]
  refine and_congr_right fun _ => ?_
  simp only [true_and]
  by_cases isSeed : ref ∈ seeds.map Node.ref
  · exact iff_of_true (fun reached => reached.enters_of_reached isSeed) fun _ => isSeed
  · rw [← downstream_iff_reached isSeed]
    exact ⟨fun beyond downstream => absurd downstream beyond,
      fun leads downstream => isSeed (leads downstream)⟩

-----------------------------------------------------------------------------------------
-- Every walk ends
-----------------------------------------------------------------------------------------

/-- A walk that reports ends, from distinct nodes that need not be stored as well as from the users of
a key, and so does one that takes marks away. That one changes nothing but marks: those of the nodes
downstream of its seeds are gone, other than the seeds' own, and all others stay.
-/
theorem walks_end (store : Store) {seeds : List Node} (distinct : (seeds.map Node.ref).Nodup)
    : (Stage.start (store.begun seeds) (seeds.map Node.ref) (store.beginnings seeds)).Ends
          .reporting (seeds.length + store.nodeCount) (store.walkFrom seeds).store
      ∧ (∀ users : List NodeRef,
          let first := fresh store.isOpen [] users
          (Stage.start (store.mark first) first (first.filterMap store.node?)).Ends
            .reporting (first.length + store.nodeCount) (store.walkInto users).store)
      ∧ (Stage.start store (seeds.map Node.ref) seeds).Ends
          .unmarking (seeds.length + store.nodeCount) (store.unmarkBeyond seeds)
      ∧ ∃ marked : List NodeRef,
          store.unmarkBeyond seeds = { store with marked }
          ∧ marked.Sublist store.marked
          ∧ ∀ ref,
              ref ∈ marked
              ↔ ref ∈ store.marked ∧ (store.Downstream seeds ref → ref ∈ seeds.map Node.ref) := by
  refine ⟨?_, fun users => ?_, ?_, ?_⟩
  · have fewer : (store.beginnings seeds).Sublist seeds :=
      List.filter_sublist.trans List.filter_sublist
    have ends := Stage.ends_start Manner.lawful_reporting (store.begun seeds)
      (distinct.sublist (fewer.map Node.ref)) (fewer.map Node.ref).subset
    exact ends.weaken (Nat.add_le_add_right fewer.length_le _)
  · intro first
    have refs : ((first.filterMap store.node?).map Node.ref).Sublist first := by
      rw [Stage.refs_filterMap_node?]
      exact List.filter_sublist
    have ends := Stage.ends_start Manner.lawful_reporting (store.mark first)
      (refs.nodup (nodup_fresh _ _ _)) refs.subset
    exact ends.weaken (Nat.add_le_add_right (List.length_filterMap_le _ _) _)
  · exact Stage.ends_start Manner.lawful_unmarking store distinct (List.Subset.refl _)
  · exact ⟨_, rfl, List.filter_sublist, fun ref => mem_marked_unmarkBeyond_iff⟩

/-- Two units that depend on each other. The definition in the first has edges to itself and to a use
that sees the second unit, whose cascading use sees it in turn; and the indices list a node that is
not stored. Every node is marked.
-/
def circle : Store :=
  let name := Key.interface (.topLevel "name")
  let other := Key.interface (.topLevel "other")
  let absent := Key.interface (.topLevel "absent")
  let stored :=
    (empty.putAll "u0" [⟨name, none, .definition, [name, other]⟩, ⟨other, none, .use true, []⟩])
      |>.putAll "u1" [⟨name, none, .use true, []⟩, ⟨other, none, .definition, []⟩]
  { stored with
    dependents := stored.dependents.file ⟨name, "u0"⟩ absent
    marked := stored.nodes.keys ++ [⟨absent, "u0"⟩] }

/-- From the first unit's definition and a definition that is not stored, marks are taken away around
the circle, and so is the mark of the node that is not stored. The first definition keeps its mark,
although the circle and its edge to itself lead back to it.
-/
theorem circle_unmarked
    : let name := Key.interface (.topLevel "name")
      let other := Key.interface (.topLevel "other")
      let absent := Key.interface (.topLevel "absent")
      let seeds : List Node :=
        [⟨⟨name, none, .definition, []⟩, "u0"⟩, ⟨⟨absent, none, .definition, []⟩, "u2"⟩]
      (seeds.map Node.ref).Nodup
      ∧ (Stage.start circle (seeds.map Node.ref) seeds).Ends .unmarking 6
          (circle.unmarkBeyond seeds)
      ∧ [⟨name, "u0"⟩, ⟨other, "u0"⟩, ⟨absent, "u0"⟩] ⊆ circle.marked
      ∧ ⟨name, "u0"⟩ ∈ (circle.unmarkBeyond seeds).marked
      ∧ ⟨other, "u0"⟩ ∉ (circle.unmarkBeyond seeds).marked
      ∧ ⟨absent, "u0"⟩ ∉ (circle.unmarkBeyond seeds).marked := by
  intro name other absent seeds
  have distinct : (seeds.map Node.ref).Nodup := by decide
  have everywhere : [⟨name, "u0"⟩, ⟨other, "u0"⟩, ⟨absent, "u0"⟩] ⊆ circle.marked := by decide
  have isSeed : ⟨⟨name, none, .definition, []⟩, "u0"⟩ ∈ seeds := List.mem_cons_self
  have atUse : circle.Downstream seeds ⟨name, "u1"⟩ :=
    .first isSeed (.use rfl (.inl rfl) (by decide))
  have user : circle.node? ⟨name, "u1"⟩ = some ⟨⟨name, none, .use true, []⟩, "u1"⟩ := by decide
  have cascades : circle.IndexStep ⟨⟨name, none, .use true, []⟩, "u1"⟩ ⟨other, "u1"⟩ :=
    @IndexStep.cascade circle _ ⟨other, none, .definition, []⟩ rfl (by decide) rfl rfl
  have atOther : circle.Downstream seeds ⟨other, "u1"⟩ :=
    .next atUse (.stored (by decide) user) cascades
  have provider : circle.node? ⟨other, "u1"⟩ = some ⟨⟨other, none, .definition, []⟩, "u1"⟩ := by
    decide
  have around : circle.Downstream seeds ⟨other, "u0"⟩ :=
    .next atOther (.stored (by decide) provider) (.use rfl (.inl rfl) (by decide))
  have beyond : circle.Downstream seeds ⟨absent, "u0"⟩ := .first isSeed (.edge (by decide))
  obtain ⟨-, -, ends, marked, unmarked, -, left⟩ := walks_end circle distinct
  rw [unmarked] at ends ⊢
  refine ⟨distinct, ends.weaken (by decide), everywhere, ?_, ?_, ?_⟩
  · exact (left _).2 ⟨everywhere List.mem_cons_self, fun _ => List.mem_cons_self⟩
  · exact fun kept => absurd (((left _).1 kept).2 around) (by decide)
  · exact fun kept => absurd (((left _).1 kept).2 beyond) (by decide)

end Invalidation.Store
