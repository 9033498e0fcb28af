import Invalidation.Json.Read
import Invalidation.Json.Write
import Invalidation.KeySchema

/-! Settings that are decided once, when a graph is made. -/

namespace Invalidation

/-- How finely invalidation is tracked. -/
inductive Granularity where
  /-- Fact by fact, by fingerprints. -/
  | fineGrained
  /-- Any change of a unit counts as a change of all its definitions. -/
  | coarse
deriving DecidableEq

def Granularity.text : Granularity → String
  | .fineGrained => "fine-grained"
  | .coarse => "coarse"

def Granularity.schema
    : Schema Granularity :=
  .choice "Granularity" (.spelled Granularity.text [.fineGrained, .coarse])

/-- The settings of a graph. Without incremental tracking every query answers with every unit. -/
structure Options where
  incremental : Bool := true
  granularity : Granularity := .fineGrained
  verifyAfterIntegrate : Bool := false
deriving DecidableEq

namespace Options

/-- Options in a document, where each may be left out. -/
def schema
    : Schema Options :=
  .record "GraphOptions"
    (.defaulted "incremental" .boolean true
      (.defaulted "granularity" Granularity.schema .fineGrained
        (.defaulted "verify-after-integrate" .boolean false .nil)))
    (fun (incremental, granularity, verify, ()) => ⟨incremental, granularity, verify⟩)
    (fun options =>
      (options.incremental, options.granularity, options.verifyAfterIntegrate, ()))
    (fun _ => rfl)

def ofJson (bytes : Bytes) : Except Json.Failure Options := Json.decode schema bytes

def toJson (options : Options) : Bytes := Json.write schema options

end Options

end Invalidation
