import Invalidation.Proofs.Graph.Completeness
import Invalidation.Proofs.Walk.Spread

/-! What questions about a unit and about an artifact come to: the answer names the owners of the
nodes to which the question spreads, and those nodes are marked afterwards, besides the nodes that
were. Nothing else about the facts changes.
-/

namespace Invalidation

namespace Store

variable {store : Store} {unit : UnitName} {ref : NodeRef}

/-- The definitions of a unit, as the nodes at which a walk begins. -/
def definitionsIn (store : Store) (unit : UnitName)
    : List Node :=
  (store.nodesOf unit).filter (·.isDefinition)

theorem mem_refs_definitionsIn
    : ref ∈ (store.definitionsIn unit).map Node.ref
      ↔ ref.unit = unit ∧ store.Defines unit ref.key := by
  constructor
  · intro isStart
    obtain ⟨node, isDefinition, rfl⟩ := List.mem_map.1 isStart
    obtain ⟨owned, provided⟩ := List.mem_filter.1 isDefinition
    obtain ⟨fact, stored, rfl⟩ := List.mem_map.1 owned
    exact ⟨rfl, fact, stored, rfl, provided⟩
  · intro defines
    obtain ⟨key, owner⟩ := ref
    obtain ⟨rfl, fact, stored, rfl, provided⟩ := defines
    exact List.mem_map.2
      ⟨⟨fact, owner⟩, List.mem_filter.2 ⟨List.mem_map_of_mem stored, provided⟩, rfl⟩

theorem holdsDefinitions_definitionsIn (store : Store) (unit : UnitName)
    : store.HoldsDefinitions (store.definitionsIn unit) := by
  intro node isDefinition
  obtain ⟨owned, provided⟩ := List.mem_filter.1 isDefinition
  obtain ⟨fact, stored, rfl⟩ := List.mem_map.1 owned
  exact ⟨provided, node?_eq_some_iff.2 ⟨fact?_of_mem_factsOf stored, rfl⟩⟩

theorem Indexed.mem_refs_users (indexed : store.Indexed) {key : Key}
    : ref ∈ (store.users.values key).map (⟨key, ·⟩)
      ↔ ref.key = key ∧ store.Uses ref.unit key := by
  constructor
  · intro isUse
    obtain ⟨user, listed, rfl⟩ := List.mem_map.1 isUse
    exact ⟨rfl, indexed.users.1 listed⟩
  · intro uses
    obtain ⟨own, user⟩ := ref
    obtain ⟨rfl, used⟩ := uses
    exact List.mem_map_of_mem (indexed.users.2 used)

end Store

namespace Graph

variable {graph : Graph}

/-- What a question comes to that spreads from the given nodes, and that leaves out the given units.
Its answer names, each once, the other owners of the nodes to which it spreads. Those nodes are
marked afterwards, besides the ones marked before; facts, indices, settings and phase are as they
were.
-/
structure FollowsSpread (before : Graph) (starts : NodeRef → Prop) (leftOut : List UnitName)
    (asked : Outcome (List UnitName)) : Prop where
  distinct : asked.answer.Nodup
  answer
    : ∀ unit,
        unit ∈ asked.answer
        ↔ unit ∉ leftOut ∧ ∃ ref, ref.unit = unit ∧ before.store.Spread starts ref
  marked
    : ∀ ref,
        ref ∈ asked.graph.store.marked
        ↔ ref ∈ before.store.marked ∨ before.store.Spread starts ref
  store : ∃ marked, asked.graph.store = { before.store with marked }
  options : asked.graph.options = before.options
  phase : asked.graph.phase = before.phase

/-- A question about a unit spreads from its definitions. -/
theorem affectedByUnit_followsSpread (indexed : graph.store.Indexed)
    (incremental : graph.options.incremental = true) (unit : UnitName)
    : graph.FollowsSpread (fun ref => ref.unit = unit ∧ graph.store.Defines unit ref.key) [unit]
        (graph.affectedByUnit unit) := by
  let walk := graph.store.walkFrom (graph.store.definitionsIn unit)
  have walked
      : graph.affectedByUnit unit
        = graph.report walk (walk.units.erase unit) .affectedByUnit :=
    if_pos incremental
  have starts
      : (· ∈ (graph.store.definitionsIn unit).map Node.ref)
        = fun ref => ref.unit = unit ∧ graph.store.Defines unit ref.key :=
    funext fun _ => propext Store.mem_refs_definitionsIn
  have holds := graph.store.holdsDefinitions_definitionsIn unit
  have distinct : walk.units.Nodup := nodup_eraseDups _
  rw [walked, ← starts]
  exact {
    distinct := distinct.erase unit
    answer := by
      intro other
      rw [List.mem_singleton]
      exact distinct.mem_erase_iff.trans
        (and_congr_right fun _ => indexed.mem_walkFrom_units_iff_spread holds)
    marked := fun _ => indexed.mem_marked_walkFrom_iff_spread holds
    store := ⟨_, rfl⟩
    options := rfl
    phase := rfl
  }

/-- A question about an artifact that is taken for changed spreads from its uses. -/
theorem affectedByExternal_followsSpread (indexed : graph.store.Indexed)
    (incremental : graph.options.incremental = true) (external : External)
    : graph.FollowsSpread
        (fun ref => ref.key = external.key ∧ graph.store.Uses ref.unit external.key) []
        (graph.affectedByExternal external .always) := by
  let users : List NodeRef := (graph.store.users.values external.key).map (⟨external.key, ·⟩)
  let remembering := { graph with externals := graph.externals.observe external }
  have walked
      : graph.affectedByExternal external .always
        = remembering.report (graph.store.walkInto users) (graph.store.walkInto users).units
            .affectedByExternal := by
    simp only [affectedByExternal, reduceCtorEq, false_and, ↓reduceIte, incremental]
    rfl
  have starts
      : (· ∈ users)
        = fun ref => ref.key = external.key ∧ graph.store.Uses ref.unit external.key :=
    funext fun _ => propext indexed.mem_refs_users
  rw [walked, ← starts]
  exact {
    distinct := nodup_eraseDups _
    answer := by
      intro unit
      rw [and_iff_right List.not_mem_nil]
      exact indexed.mem_walkInto_units_iff_spread
    marked := fun _ => indexed.mem_marked_walkInto_iff_spread
    store := ⟨_, rfl⟩
    options := rfl
    phase := rfl
  }

/-- In every graph that can come up with incremental tracking, a question about a unit spreads from
its definitions and leaves the unit out, and a question about an artifact that is taken for changed
spreads from the uses of its key. What is known of artifacts stays as it is, up to the fingerprint
of the one in question if its path is in use.
-/
theorem questions_follow_spread (reachable : graph.Reachable)
    (incremental : graph.options.incremental = true)
    : (∀ unit,
        let asked := graph.affectedByUnit unit
        graph.FollowsSpread (fun ref => ref.unit = unit ∧ graph.store.Defines unit ref.key) [unit]
          asked
        ∧ asked.graph.externals = graph.externals)
      ∧ ∀ external,
          let asked := graph.affectedByExternal external .always
          graph.FollowsSpread
            (fun ref => ref.key = external.key ∧ graph.store.Uses ref.unit external.key) [] asked
          ∧ Table.keys asked.graph.externals = Table.keys graph.externals
          ∧ ∀ path,
              asked.graph.externals.get? path
              = (graph.externals.get? path).map fun seen =>
                  if path = external.path then external.fingerprint.or seen else seen := by
  have indexed := reachable.sound.indexed
  refine ⟨fun unit => ⟨graph.affectedByUnit_followsSpread indexed incremental unit, ?_⟩,
    fun external => ⟨graph.affectedByExternal_followsSpread indexed incremental external, ?_⟩⟩
  · unfold affectedByUnit
    split <;> rfl
  · rw [externals_affectedByExternal]
    exact ⟨Externals.keys_observe graph.externals external,
      Externals.get?_observe graph.externals external⟩

/-- A graph in which a unit provides a name and uses an artifact, and another one uses the name; a
question about that other unit has marked its definitions.
-/
def markedUser : Graph :=
  [Operation.integrate
      (((Snapshot.start "u0").define (.interface (.topLevel "a")) none).consume
        (.interface (.externalDepend "/p")) true),
    .integrate ((Snapshot.start "u1").consume (.interface (.topLevel "a")) true),
    .askUnit "u1"].foldl
    Graph.after (.new {})

/-- The user of a name is reached from its provider, and from the artifact that the provider uses,
although definitions of the user are marked; its use of the name is marked then.
-/
theorem questions_reach_marked_user
    : "u1" ∈ (markedUser.affectedByUnit "u0").answer
      ∧ (⟨.interface (.topLevel "a"), "u1"⟩ : NodeRef)
        ∈ (markedUser.affectedByUnit "u0").graph.store.marked
      ∧ "u1" ∈ (markedUser.affectedByExternal ⟨"/p", none⟩ .always).answer := by
  let artifact : NodeRef := ⟨.interface (.externalDepend "/p"), "u0"⟩
  let provided : NodeRef := ⟨.interface (.topLevel "a"), "u0"⟩
  let used : NodeRef := ⟨.interface (.topLevel "a"), "u1"⟩
  let provider : Node := ⟨⟨.interface (.topLevel "a"), none, .definition, []⟩, "u0"⟩
  let artifactUse : Node := ⟨⟨.interface (.externalDepend "/p"), none, .use true, []⟩, "u0"⟩
  let user : Fact := ⟨.interface (.topLevel "a"), none, .use true, []⟩
  have reachable : markedUser.Reachable := Reachable.foldl_after (.new {}) _
  have provides : markedUser.store.node? provided = some provider := by decide
  have usesArtifact : markedUser.store.node? artifact = some artifactUse := by decide
  have toUse : markedUser.store.ReverseStep provider used :=
    .use rfl (.inl rfl) (show user ∈ _ by decide) rfl rfl
  have toProvided : markedUser.store.ReverseStep artifactUse provided :=
    .cascade rfl (show provider.toFact ∈ _ by decide) rfl rfl
  have stored
      : markedUser.store.contains artifact
        ∧ markedUser.store.contains provided
        ∧ markedUser.store.contains used := by
    decide
  have unmarked
      : artifact ∉ markedUser.store.marked
        ∧ provided ∉ markedUser.store.marked
        ∧ used ∉ markedUser.store.marked := by
    decide
  obtain ⟨aboutUnit, aboutArtifact⟩ := questions_follow_spread reachable rfl
  have fromUnit := (aboutUnit "u0").1
  have fromArtifact := (aboutArtifact ⟨"/p", none⟩).1
  have onward {starts : NodeRef → Prop} (spread : markedUser.store.Spread starts provided)
      : markedUser.store.Spread starts used :=
    spread.step provides toUse stored.2.2 unmarked.2.2
  refine ⟨(fromUnit.answer "u1").2 ⟨by decide, used, rfl, onward ?_⟩,
    (fromUnit.marked used).2 (.inr (onward ?_)),
    (fromArtifact.answer "u1").2 ⟨List.not_mem_nil, used, rfl, onward ?_⟩⟩
  · exact .start ⟨rfl, by decide⟩ stored.2.1 unmarked.2.1
  · exact .start ⟨rfl, by decide⟩ stored.2.1 unmarked.2.1
  · apply Store.Spread.step (.start ⟨rfl, by decide⟩ stored.1 unmarked.1) usesArtifact toProvided
    · exact stored.2.1
    · exact unmarked.2.1

end Graph

end Invalidation
