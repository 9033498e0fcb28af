import Invalidation.Graph
import Invalidation.Saved.Document

/-! What a graph is saved as, and the graph that a saved one stands for. Marks are not saved, so a
loaded graph has none. A loaded body may hold units and nodes more than once: the later one counts.
-/

namespace Invalidation.Saved

-----------------------------------------------------------------------------------------
-- From a graph to its body
-----------------------------------------------------------------------------------------

/-- The texts that a fingerprint refers to. -/
def fingerprintTexts (fingerprint : Option Invalidation.Fingerprint)
    : List String :=
  (fingerprint.bind Invalidation.Fingerprint.token?).toList

/-- The texts that a fact refers to, in the order in which they are written. -/
def factTexts (fact : Fact)
    : List String :=
  fact.key.designator.context?.toList ++ fact.key.designator.name?.toList
  ++ fingerprintTexts fact.fingerprint

/-- The texts that a graph refers to: for each unit those of its facts and then its name, and after
all units those of the artifacts.
-/
def texts (graph : Graph)
    : List String :=
  graph.store.unitNames.flatMap (fun unit => (graph.store.factsOf unit).flatMap factTexts ++ [unit])
  ++ graph.externals.toList.flatMap fun external =>
    external.path :: fingerprintTexts external.fingerprint

/-- The table of a graph: each text once, in the order in which they are first referred to. -/
def table (graph : Graph) : List String := (texts graph).eraseDups

def ofFingerprint (table : List String)
    : Invalidation.Fingerprint → Fingerprint
  | .digest token => .digest (table.idxOf token)
  | .unreadable => .unreadable

/-- The saved form of a fact, where its edges lead to the given keys by their places. -/
def ofFact (table : List String) (keys : List Key) (fact : Fact)
    : Node := {
  aspect := fact.key.aspect
  kind := fact.key.designator.kind
  context := fact.key.designator.context?.map table.idxOf
  name := fact.key.designator.name?.map table.idxOf
  fingerprint := fact.fingerprint.map (ofFingerprint table)
  definition := fact.isDefinition
  cascades := fact.role.cascades
  dependsOn := fact.dependsOn.filterMap fun target => keys.findIdx? (· = target)
}

def ofGraph (graph : Graph)
    : Body :=
  let table := table graph
  {
    strings := table
    units := graph.store.unitNames.map fun unit =>
      let facts := graph.store.factsOf unit
      ⟨table.idxOf unit, facts.map (ofFact table (facts.map (·.key)))⟩
    externals := graph.externals.toList.map fun external =>
      ⟨table.idxOf external.path, external.fingerprint.map (ofFingerprint table)⟩
  }

-----------------------------------------------------------------------------------------
-- From a body to its graph
-----------------------------------------------------------------------------------------

def text (table : List String) (index : Nat)
    : Except Inconsistency String :=
  match table[index]? with
  | some text => .ok text
  | none => .error (.noString index)

def text? (table : List String)
    : Option Nat → Except Inconsistency (Option String)
  | some index => (text table index).map some
  | none => .ok none

/-- The fingerprint that a saved one stands for; its digest is read anew. -/
def toFingerprint (table : List String)
    : Option Fingerprint → Except Inconsistency (Option Invalidation.Fingerprint)
  | some (.digest index) => (text table index).map fun token => some (.parse token)
  | some .unreadable => .ok (some .unreadable)
  | none => .ok none

/-- The key that a saved node of a unit stands for. -/
def toKey (table : List String) (unit : UnitName) (node : Node)
    : Except Inconsistency Key := do
  let context ← text? table node.context
  let name ← text? table node.name
  match Designator.describe node.kind context name with
  | .ok designator => return ⟨node.aspect, designator⟩
  | .error violation => throw (.malformedNode unit violation)

/-- The key that an edge leads to, among those of the unit. -/
def toTarget (unit : UnitName) (keys : List Key) (key : Key) (target : Nat)
    : Except Inconsistency Key :=
  match keys[target]? with
  | some key => .ok key
  | none => .error (.edgePastUnit key unit)

/-- The fact that a saved node of the given key stands for, among the keys of its unit. -/
def toFact (table : List String) (unit : UnitName) (keys : List Key) (node : Node) (key : Key)
    : Except Inconsistency Fact := do
  let fingerprint ← toFingerprint table node.fingerprint
  let dependsOn ← node.dependsOn.mapM (toTarget unit keys key)
  return ⟨key, fingerprint, if node.definition then .definition else .use node.cascades, dependsOn⟩

/-- Stores a saved unit. All its keys are read before any of its facts. -/
def addUnit (table : List String) (store : Store) (saved : Unit)
    : Except Inconsistency Store := do
  let unit ← text table saved.name
  let keys ← saved.nodes.mapM (toKey table unit)
  let facts ← (saved.nodes.zip keys).mapM fun (node, key) => toFact table unit keys node key
  return store.putAll unit facts

/-- Records a saved artifact; its fingerprint is read before its path. -/
def addExternal (table : List String) (externals : Externals) (saved : External)
    : Except Inconsistency Externals := do
  let fingerprint ← toFingerprint table saved.fingerprint
  let path ← text table saved.path
  return externals.record path fingerprint

/-- The graph that a body stands for, or what is wrong with it. -/
def toGraph (options : Options) (body : Body)
    : Except Error Graph := do
  let store ← (body.units.foldlM (addUnit body.strings) .empty).mapError .inconsistent
  let externals ← (body.externals.foldlM (addExternal body.strings) .empty).mapError .inconsistent
  let graph : Graph := ⟨options, .loading, store, externals⟩
  graph.check
  return graph

end Invalidation.Saved
