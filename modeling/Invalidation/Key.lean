/-! Keys of declaration-level facts: which declaration a fact is about, and which side of it.
Two keys name the same fact exactly when they are equal.
-/

namespace Invalidation

/-- The name of a compilation unit. -/
abbrev UnitName := String

/-- The side of a declaration that a fact describes: what other units see, or what only the
owning unit sees.
-/
inductive Aspect where
  | interface
  | implementation
deriving DecidableEq

/-- The word for an aspect, in documents and in messages. -/
def Aspect.text : Aspect → String
  | .interface => "interface"
  | .implementation => "implementation"

/-- The kinds of declaration that facts are recorded about. -/
inductive Kind where
  | topLevel
  | nominal
  | potentialMember
  | member
  | dynamicLookup
  | externalDepend
  | sourceFileProvide
deriving DecidableEq

def Kind.text : Kind → String
  | .topLevel => "topLevel"
  | .nominal => "nominal"
  | .potentialMember => "potentialMember"
  | .member => "member"
  | .dynamicLookup => "dynamicLookup"
  | .externalDepend => "externalDepend"
  | .sourceFileProvide => "sourceFileProvide"

/-- The declaration that a fact refers to. A context is the identity of a type; a name is a
declaration's name, a path for an external artifact, and a unit's name for a whole unit.
-/
inductive Designator where
  | topLevel (name : String)
  | nominal (context : String)
  | potentialMember (context : String)
  | member (context : String) (name : String)
  | dynamicLookup (name : String)
  | externalDepend (path : String)
  | sourceFileProvide (name : String)
deriving DecidableEq

/-- What is wrong with a described designator. -/
inductive Malformation where
  | missingContext
  | unexpectedContext
  | missingName
  | unexpectedName
  /-- An external artifact is described as private to a unit. -/
  | privateExternal
deriving DecidableEq

def Malformation.text : Malformation → String
  | .missingContext => "missing context"
  | .unexpectedContext => "unexpected context"
  | .missingName => "missing name"
  | .unexpectedName => "unexpected name"
  | .privateExternal => "external dependencies are interface facts"

namespace Designator

def kind : Designator → Kind
  | topLevel _ => .topLevel
  | nominal _ => .nominal
  | potentialMember _ => .potentialMember
  | member _ _ => .member
  | dynamicLookup _ => .dynamicLookup
  | externalDepend _ => .externalDepend
  | sourceFileProvide _ => .sourceFileProvide

def context? : Designator → Option String
  | nominal context | potentialMember context | member context _ => some context
  | _ => none

/-- The name, or the path of an external artifact, for the kinds that carry one. -/
def name? : Designator → Option String
  | topLevel name | member _ name | dynamicLookup name | sourceFileProvide name => some name
  | externalDepend path => some path
  | nominal _ | potentialMember _ => none

/-- The designator of a kind with the given parts; a part that the kind does not take is left
out.
-/
def ofKind (kind : Kind) (context name : String)
    : Designator :=
  match kind with
  | .topLevel => topLevel name
  | .nominal => nominal context
  | .potentialMember => potentialMember context
  | .member => member context name
  | .dynamicLookup => dynamicLookup name
  | .externalDepend => externalDepend name
  | .sourceFileProvide => sourceFileProvide name

/-- A part that the kind takes has to be there, and an empty text is not there. -/
def demand (missing : Malformation) (part : Option String)
    : Except Malformation String :=
  match part with
  | some text => if text = "" then .error missing else .ok text
  | none => .error missing

/-- A part that the kind does not take has to be absent, and an empty text is absent. -/
def refuse (unexpected : Malformation) (part : Option String)
    : Except Malformation Unit :=
  match part with
  | some text => if text = "" then .ok () else .error unexpected
  | none => .ok ()

/-- The designator that a kind and optional parts describe. The context is looked at before the
name, so a description with two faults is refused for its context.
-/
def ofParts (kind : Kind) (context name : Option String)
    : Except Malformation Designator :=
  match kind with
  | .topLevel => named topLevel
  | .nominal => contextual nominal
  | .potentialMember => contextual potentialMember
  | .member => do
      let context ← demand .missingContext context
      let name ← demand .missingName name
      return member context name
  | .dynamicLookup => named dynamicLookup
  | .externalDepend => named externalDepend
  | .sourceFileProvide => named sourceFileProvide
where
  /-- The description of a kind that takes a name alone. -/
  named (make : String → Designator) : Except Malformation Designator := do
    refuse .unexpectedContext context
    let name ← demand .missingName name
    return make name
  /-- The description of a kind that takes a context alone. -/
  contextual (make : String → Designator) : Except Malformation Designator := do
    let context ← demand .missingContext context
    refuse .unexpectedName name
    return make context

/-- How messages name a declaration; the parts stand as they are, without escapes. -/
def text : Designator → String
  | topLevel name => s!"top-level '{name}'"
  | nominal context => s!"type '{context}'"
  | potentialMember context => s!"potential members of '{context}'"
  | member context name => s!"member '{context}.{name}'"
  | dynamicLookup name => s!"dynamic lookup '{name}'"
  | externalDepend path => s!"external '{path}'"
  | sourceFileProvide name => s!"unit '{name}'"

end Designator

/-- The identity of a declaration-level fact. -/
structure Key where
  aspect : Aspect
  designator : Designator
deriving DecidableEq

namespace Key

/-- The interface side of a declaration. -/
def interface (designator : Designator) : Key := ⟨.interface, designator⟩

/-- The catch-all fact of a unit, which stands for everything the unit provides on one side. -/
def wholeUnit (aspect : Aspect) (unit : UnitName) : Key := ⟨aspect, .sourceFileProvide unit⟩

/-- Whether units other than the owner see the fact. -/
def isInterface (key : Key) : Bool := key.aspect = .interface

/-- Whether the fact is the catch-all of some unit. -/
def isWholeUnit (key : Key) : Bool := key.designator.kind = .sourceFileProvide

/-- The path, when the fact is about an artifact outside the tracked units. -/
def externalPath? (key : Key) : Option String :=
  match key.designator with
  | .externalDepend path => some path
  | _ => none

def text (key : Key) : String := s!"{key.aspect.text} of {key.designator.text}"

end Key

/-- A fact as one unit owns it: units that record the same key keep separate nodes for it. -/
structure NodeRef where
  key : Key
  unit : UnitName
deriving DecidableEq

def NodeRef.text (node : NodeRef) : String := s!"{node.key.text} in {node.unit}"

end Invalidation
