import Invalidation.Snapshot.Basic
import Invalidation.Text.Cut
import Invalidation.Violation

/-! A shorthand for snapshots. Entries are grouped by kind, and an entry is `a` or `a@f` (the unit
defines `a`, with fingerprint `f`), `a->` (it uses `a`), `#a->` (it uses `a` without cascading) or
`a->b` (it defines `b`, which depends on `a`). Members are written `context,name`.
-/

namespace Invalidation.Shorthand

/-- A definition that an entry asks for. -/
structure Definition where
  key : Key
  fingerprint : Option Fingerprint
deriving DecidableEq

/-- What an entry says. -/
structure Entry where
  cascades : Bool
  used : Option Key
  defined : Option Definition
deriving DecidableEq

/-- Reads a fact: its designator, then `@` and a fingerprint if there is one. -/
def readFact (kind : Kind) (text : String)
    : Except Violation Definition := do
  let (name, token) := match Text.cut? "@" text with
    | some (name, token) => (name, some token)
    | none => (text, none)
  let designator ← match kind with
    | .nominal | .potentialMember => Designator.describe kind (some name) none
    | .member =>
        let (context, member) := (Text.cut? "," name).getD (name, "")
        Designator.describe kind (some context) (some member)
    | _ => Designator.describe kind none (some name)
  return ⟨.interface designator, token.map Fingerprint.parse⟩

/-- Reads an entry. The used fact is read before the defined one, and its fingerprint is left. -/
def readEntry (kind : Kind) (text : String)
    : Except Violation Entry := do
  let (cascades, body) := match text.toList with
    | '#' :: body => (false, String.ofList body)
    | _ => (true, text)
  match Text.cut? "->" body with
  | none => return ⟨cascades, none, some (← readFact kind body)⟩
  | some (used, defined) => do
      let used ← readFact kind used
      if defined = "" then return ⟨cascades, some used.key, none⟩
      else return ⟨cascades, some used.key, some (← readFact kind defined)⟩

/-- Reads the entries of all groups, in order. -/
def readGroups (groups : List (Kind × List String))
    : Except Violation (List Entry) :=
  (groups.flatMap fun (kind, entries) => entries.map (kind, ·)).mapM fun (kind, text) =>
    readEntry kind text

/-- The definitions that entries ask for; the first entry that defines a key decides how. -/
def definitions : List Entry → List Definition
  | entries => (entries.filterMap (·.defined)).foldl keepFirst []
where
  /-- Adds a definition unless its key is defined already. -/
  keepFirst (found : List Definition) (definition : Definition) : List Definition :=
    if found.any (·.key = definition.key) then found else found ++ [definition]

/-- Whether an entry is a mere edge between two definitions of the unit. -/
def Entry.isEdge (entry : Entry) (defined : List Definition)
    : Bool :=
  entry.defined.isSome && entry.used.any fun key => defined.any (·.key = key)

/-- The uses that entries ask for, apart from mere edges: each key at most once with cascading and
once without.
-/
def uses (entries : List Entry)
    : List (Key × Bool) :=
  let defined := definitions entries
  (entries.filterMap fun entry =>
    if entry.isEdge defined then none else entry.used.map (·, entry.cascades)).eraseDups

/-- The node that an entry's use stands for, after the two catch-all facts of the unit. -/
def target? (entries : List Entry) (entry : Entry)
    : Option Nat :=
  let defined := definitions entries
  entry.used.map fun key =>
    if entry.isEdge defined then 2 + defined.findIdx (·.key = key)
    else 2 + defined.length + (uses entries).idxOf (key, entry.cascades)

/-- The nodes that a definition depends on: the uses of the entries that define its key. -/
def targets (entries : List Entry) (key : Key)
    : List Nat :=
  ((entries.filter fun entry => entry.defined.any (·.key = key)).filterMap
    (target? entries)).eraseDups

/-- Lays entries out as a snapshot: the unit's catch-all facts, then all definitions, then all uses,
so that the contract's order holds whatever order the entries come in.
-/
def layOut (unit : UnitName) (entries : List Entry)
    : Snapshot :=
  let defined := definitions entries
  let definitionNodes := defined.mapIdx fun index definition =>
    ⟨definition.key, definition.fingerprint, 2 + index, targets entries definition.key, .definition⟩
  let useNodes := (uses entries).mapIdx fun index (key, cascades) =>
    ⟨key, none, 2 + defined.length + index, [], .use cascades⟩
  ⟨unit, Snapshot.wholeUnitNodes unit ++ definitionNodes ++ useNodes⟩

/-- The snapshot that groups of entries describe. -/
def build (unit : UnitName) (groups : List (Kind × List String))
    : Except Violation Snapshot :=
  (readGroups groups).map (layOut unit)

end Invalidation.Shorthand
