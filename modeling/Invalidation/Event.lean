import Invalidation.Violation

/-! What operations on a graph tell a log, in the order in which it happens. -/

namespace Invalidation

/-- Why a node is invalidated. -/
inductive Change where
  | new
  | changed
  | removed
deriving DecidableEq

def Change.text : Change → String
  | .new => "New"
  | .changed => "Changed"
  | .removed => "Removed"

/-- Where a graph is in its life: facts of a prior or first build come in bulk while it loads, and
after that each compilation is followed by questions. The phase changes no answer.
-/
inductive Phase where
  | loading
  | updating
deriving DecidableEq

def Phase.text : Phase → String
  | .loading => "Loading"
  | .updating => "UpdatingAfterCompilation"

/-- Something that an operation reports. -/
inductive Event where
  | unreadableFingerprint (unit : UnitName) (key : Key)
  | invalidated (node : NodeRef) (change : Change)
  | integrated (nodes : Nat) (entries : Nat)
  | rejected (unit : UnitName) (violation : Violation)
  | reached (node : NodeRef)
  | queriedWhileLoading
  | affectedByChanges (count : Nat)
  | affectedByUnit (count : Nat)
  | affectedByExternal (count : Nat)
  | externalUnchanged
  | phaseChanged (before : Phase) (after : Phase)
  | saved (bytes : Nat) (units : Nat)
  | loaded (nodes : Nat) (externals : Nat)
deriving DecidableEq

def Event.line : Event → String
  | unreadableFingerprint unit key =>
      s!"WARN unreadable fingerprint, treating fact as changed unit={unit} key={key.text}"
  | invalidated node change =>
      s!"TRACE directly invalidated node={node.text} change={change.text}"
  | integrated nodes entries =>
      s!"DEBUG integrated snapshot nodes={nodes} invalidated={entries}"
  | rejected unit violation =>
      s!"WARN rejected snapshot unit={unit} violation={violation.message}"
  | reached node => s!"TRACE reached node={node.text}"
  | queriedWhileLoading => "WARN dependency graph queried while still loading"
  | affectedByChanges count => s!"DEBUG units to recompile units={count}"
  | affectedByUnit count => s!"DEBUG units dependent on unit units={count}"
  | affectedByExternal count => s!"DEBUG units dependent on external units={count}"
  | externalUnchanged => "DEBUG external dependency unchanged"
  | phaseChanged before after =>
      s!"INFO dependency graph phase change from={before.text} to={after.text}"
  | saved bytes units => s!"DEBUG serialized dependency graph bytes={bytes} units={units}"
  | loaded nodes externals => s!"INFO loaded dependency graph nodes={nodes} externals={externals}"

end Invalidation
