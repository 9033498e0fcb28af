import Invalidation.Event
import Invalidation.Externals
import Invalidation.Options
import Invalidation.Walk

/-! What a fresh snapshot changes: the facts of a unit are compared with those stored for it, key by
key, and replaced. A fact is new, changed or removed; a change may widen to other facts of the unit.
-/

namespace Invalidation

/-- A fact that an integration invalidated. The node is the current one, or the one that was stored
if it is removed.
-/
structure Entry where
  change : Change
  node : Node
deriving DecidableEq

/-- What a log is told of an entry. -/
def Entry.event (entry : Entry) : Event := .invalidated entry.node.ref entry.change

/-- What an integration invalidated, and the artifacts that it was the first to use. -/
structure Invalidated where
  unit : UnitName
  entries : List Entry
  discovered : List String
deriving DecidableEq

namespace Invalidated

/-- How a key was invalidated, if it was. -/
def change? (invalidated : Invalidated) (key : Key)
    : Option Change :=
  (invalidated.entries.find? (·.node.key = key)).map (·.change)

def nodes (invalidated : Invalidated) : List Node := invalidated.entries.map (·.node)

end Invalidated

namespace Integration

/-- How a fact compares with the one that was stored for its key. -/
def compare? (old : Option Fact) (fact : Fact)
    : Option Change :=
  match old with
  | none => some .new
  | some old => if fact.sameContentAs old then none else some .changed

/-- The entry of an incoming fact, unless nothing about it changed. -/
def arrival? (store : Store) (unit : UnitName) (fact : Fact)
    : Option Entry :=
  (compare? (store.fact? (fact.refIn unit)) fact).map (⟨·, ⟨fact, unit⟩⟩)

/-- The stored facts of a unit that no incoming fact replaces. -/
def removedFacts (store : Store) (unit : UnitName) (incoming : List Fact)
    : List Fact :=
  (store.factsOf unit).filter fun old => !incoming.any (·.key = old.key)

/-- The facts to which a change widens, out of those that the unit now owns. In coarse mode that is
every definition. Otherwise it is the unit's catch-all interface fact, if an interface definition
other than a catch-all is invalidated, since uses of the unit do not say which one they needed.
-/
def widened (granularity : Granularity) (unit : UnitName) (entries : List Entry)
    (current : List Fact)
    : List Fact :=
  if entries.isEmpty then []
  else
    match granularity with
    | .coarse => current.filter Fact.isDefinition
    | .fineGrained =>
        if entries.any fun entry =>
          entry.node.isDefinition && entry.node.key.isInterface && !entry.node.key.isWholeUnit
        then current.filter (·.key = .wholeUnit .interface unit)
        else []

/-- The entries that a change widens to: those facts are changed, unless they are listed already. -/
def widening (granularity : Granularity) (unit : UnitName) (entries : List Entry)
    (current : List Fact)
    : List Entry :=
  ((widened granularity unit entries current).filter fun fact =>
    !entries.any (·.node.key = fact.key)).map fun fact => ⟨.changed, ⟨fact, unit⟩⟩

/-- The path of an artifact that a fact uses. -/
def usedPath? (fact : Fact)
    : Option String :=
  if fact.isDefinition then none else fact.key.externalPath?

/-- Drops the path of a removed fact from the artifacts in use, if no unit uses its key. -/
def forgetUnused (store : Store) (externals : Externals) (fact : Fact)
    : Externals :=
  match fact.key.externalPath? with
  | some path => if store.users.values fact.key = [] then externals.forget path else externals
  | none => externals

/-- What a log is told of an incoming fact. -/
def incomingEvents (store : Store) (unit : UnitName) (fact : Fact)
    : List Event :=
  let unreadable := fact.isDefinition && fact.fingerprint.any (!·.isReadable)
  (if unreadable then [.unreadableFingerprint unit fact.key] else [])
  ++ ((arrival? store unit fact).map Entry.event).toList

/-- The outcome of an integration. -/
structure Result where
  invalidated : Invalidated
  store : Store
  externals : Externals
  events : List Event

/-- Replaces the facts of a unit by those of a snapshot in normal form. Afterwards no fact of the
unit is marked, and neither is anything downstream of an invalidated definition.
-/
def run (store : Store) (externals : Externals) (granularity : Granularity) (unit : UnitName)
    (incoming : List Fact)
    : Result :=
  let removed := removedFacts store unit incoming
  let stored := (store.putAll unit incoming).dropAll unit removed
  let arrived := incoming.filterMap (arrival? store unit)
  let gone := removed.map fun fact => ⟨.removed, ⟨fact, unit⟩⟩
  let extra := widening granularity unit (arrived ++ gone) (stored.factsOf unit)
  let entries := arrived ++ gone ++ extra
  let discovered := (incoming.filterMap usedPath?).filter (!externals.contains ·)
  let definitions := (entries.map Entry.node).filter (·.isDefinition)
  {
    invalidated := ⟨unit, entries, discovered⟩
    store := (stored.unmarkUnit unit).unmarkBeyond definitions
    externals := removed.foldl (forgetUnused stored) (discovered.foldl Externals.register externals)
    events := incoming.flatMap (incomingEvents store unit) ++ (gone ++ extra).map Entry.event
  }

end Integration

end Invalidation
