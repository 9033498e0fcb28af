import Invalidation.Key
import Invalidation.Schema

/-! How documents spell the aspect and the kind of a key. -/

namespace Invalidation

/-- A variant that stands for one value and is spelled by the value's own text. -/
def Variants.spelled {α : Type} [DecidableEq α] (text : α → String) : List α → Variants α
  | [] => .nil
  | value :: rest => .bare (text value) value (· = value) (by simp) (spelled text rest)

/-- The aspects in the order in which documents number them. -/
def Aspect.all : List Aspect := [.interface, .implementation]

/-- The kinds in the order in which documents number them. -/
def Kind.all : List Kind :=
  [.topLevel, .nominal, .potentialMember, .member, .dynamicLookup, .externalDepend,
    .sourceFileProvide]

def Aspect.schema : Schema Aspect := .choice "Aspect" (.spelled Aspect.text Aspect.all)

def Kind.schema : Schema Kind := .choice "DesignatorKind" (.spelled Kind.text Kind.all)

end Invalidation
