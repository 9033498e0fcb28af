import Invalidation.Error
import Invalidation.Integration

/-! The dependency graph across units, and the operations on it. An operation gives its answer, the
graph after it, and what it tells a log.
-/

namespace Invalidation

/-- The facts of all units, the artifacts they use, and where the graph is in its life. -/
structure Graph where
  options : Options
  phase : Phase
  store : Store
  externals : Externals

/-- What an operation comes to. -/
structure Outcome (α : Type) where
  answer : α
  graph : Graph
  events : List Event

namespace Graph

def new (options : Options) : Graph := ⟨options, .loading, .empty, .empty⟩

-----------------------------------------------------------------------------------------
-- Consistency
-----------------------------------------------------------------------------------------

/-- What is wrong with a stored fact: a use carries a fingerprint, an edge leads nowhere, or the
artifact that it uses is not known.
-/
def factDefect? (graph : Graph) (unit : UnitName) (fact : Fact)
    : Option Inconsistency :=
  if !fact.isDefinition && fact.fingerprint.isSome then
    some (.fingerprintedUse (fact.refIn unit))
  else
    match fact.dependsOn.find? fun target => !graph.store.contains ⟨target, unit⟩ with
    | some target => some (.missingTarget (fact.refIn unit) target)
    | none =>
        match Integration.usedPath? fact with
        | some path =>
            if graph.externals.contains path then none else some (.unknownExternal path unit)
        | none => none

/-- What is wrong with a key that a unit owns: no fact is stored for it, or the fact is wrong. -/
def keyDefect? (graph : Graph) (unit : UnitName) (key : Key)
    : Option Inconsistency :=
  match graph.store.fact? ⟨key, unit⟩ with
  | none => some (.notStored ⟨key, unit⟩)
  | some fact => graph.factDefect? unit fact

/-- What is wrong with a unit: it does not own one of its catch-all keys, or a key is wrong. -/
def unitDefect? (graph : Graph) (unit : UnitName)
    : Option Inconsistency :=
  let keys := graph.store.keysOf unit
  match Aspect.all.find? fun aspect => !keys.contains (.wholeUnit aspect unit) with
  | some aspect => some (.noWholeUnit unit aspect)
  | none => keys.findSome? (graph.keyDefect? unit)

/-- What is wrong with the stored nodes together: units own more or fewer than there are. -/
def countDefect? (graph : Graph)
    : Option Inconsistency :=
  let stored := graph.store.nodeCount
  let owned := graph.store.ownedCount
  if owned = stored then none else some (.notOwned stored owned)

/-- What is wrong with the index of uses under a key: a unit is listed there without such a use. -/
def usersDefect? (graph : Graph) (key : Key)
    : Option Inconsistency :=
  let stray := (graph.store.users.values key).find? fun unit =>
    !(graph.store.fact? ⟨key, unit⟩).any (!·.isDefinition)
  stray.map (.strayUse key)

/-- The first way in which the graph contradicts itself. -/
def defect? (graph : Graph)
    : Option Inconsistency :=
  let ofUnits := graph.store.unitNames.findSome? graph.unitDefect?
  let ofUsers := graph.store.users.keys.findSome? graph.usersDefect?
  (ofUnits.or graph.countDefect?).or ofUsers

/-- Checks that the facts and what is known about them agree. -/
def check (graph : Graph)
    : Except Error Unit :=
  match graph.defect? with
  | some cause => .error (.inconsistent cause)
  | none => .ok ()

-----------------------------------------------------------------------------------------
-- Changing facts
-----------------------------------------------------------------------------------------

/-- Enters a phase. -/
def enter (graph : Graph) (phase : Phase)
    : Outcome Unit :=
  ⟨(), { graph with phase },
    if graph.phase = phase then [] else [.phaseChanged graph.phase phase]⟩

/-- Replaces what a unit contributed by a fresh snapshot, and tells which facts that invalidates.
A snapshot that breaks the contract is refused before anything is touched.
-/
def integrate (graph : Graph) (snapshot : Snapshot)
    : Outcome (Except Error Invalidated) :=
  match snapshot.normalForm with
  | .error violation =>
      ⟨.error (.contract snapshot.unit violation), graph, [.rejected snapshot.unit violation]⟩
  | .ok facts =>
      let result := Integration.run graph.store graph.externals graph.options.granularity
        snapshot.unit facts
      let graph := { graph with store := result.store, externals := result.externals }
      let events := result.events
        ++ [.integrated snapshot.nodes.length result.invalidated.entries.length]
      if graph.options.verifyAfterIntegrate then
        ⟨graph.check.map fun () => result.invalidated, graph, events⟩
      else ⟨.ok result.invalidated, graph, events⟩

def integrateDocument (graph : Graph) (bytes : Bytes)
    : Outcome (Except Error Invalidated) :=
  match Snapshot.ofJson bytes with
  | .error refusal => ⟨.error (.ofRefusal refusal), graph, []⟩
  | .ok snapshot => graph.integrate snapshot

/-- Takes the marks of a unit's nodes away, so that later changes reach the unit again even before
its next snapshot. A driver does this when it schedules the unit.
-/
def reopen (graph : Graph) (unit : UnitName)
    : Graph :=
  { graph with store := graph.store.unmarkUnit unit }

-----------------------------------------------------------------------------------------
-- Asking for units
-----------------------------------------------------------------------------------------

/-- What a log is told before a walk. -/
def loadingEvents (graph : Graph)
    : List Event :=
  if graph.phase = .loading then [.queriedWhileLoading] else []

/-- The outcome of a walk that found the given units worth reporting. -/
def report (graph : Graph) (walk : Walk) (units : List UnitName) (summary : Nat → Event)
    : Outcome (List UnitName) := {
  answer := units
  graph := { graph with store := walk.store }
  events := graph.loadingEvents ++ walk.reached.map .reached ++ [summary units.length]
}

/-- The units to compile again because of what an integration invalidated, its own unit among them.
Without incremental tracking that is every unit.
-/
def affectedByChanges (graph : Graph) (invalidated : Invalidated)
    : Outcome (List UnitName) :=
  if graph.options.incremental then
    let walk := graph.store.walkFrom invalidated.nodes
    graph.report walk walk.units .affectedByChanges
  else ⟨graph.store.unitNames, graph, []⟩

/-- The units, other than the unit itself, to compile again if everything it provides changed. -/
def affectedByUnit (graph : Graph) (unit : UnitName)
    : Outcome (List UnitName) :=
  if graph.options.incremental then
    let walk := graph.store.walkFrom ((graph.store.nodesOf unit).filter (·.isDefinition))
    graph.report walk (walk.units.erase unit) .affectedByUnit
  else ⟨graph.store.unitNames.erase unit, graph, []⟩

/-- The units to compile again because of an artifact. Asked for changes only, an artifact with the
fingerprint that was seen last gives no unit, in either mode; what was seen is remembered first.
-/
def affectedByExternal (graph : Graph) (external : External) (query : ReportWhen)
    : Outcome (List UnitName) :=
  let changed := graph.externals.isChanged external
  let graph := { graph with externals := graph.externals.observe external }
  if query = .ifChanged ∧ !changed then ⟨[], graph, [.externalUnchanged]⟩
  else if graph.options.incremental then
    let users := (graph.store.users.values external.key).map (⟨external.key, ·⟩)
    let walk := graph.store.walkInto users
    graph.report walk walk.units .affectedByExternal
  else ⟨graph.store.unitNames, graph, []⟩

end Graph

end Invalidation
