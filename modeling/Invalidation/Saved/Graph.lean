import Invalidation.MessagePack.Read
import Invalidation.MessagePack.Write
import Invalidation.Saved.Body

/-! Saving a graph for the next build, and loading it. A document that another program or another
format wrote cannot be used, which is told apart from one that is damaged.
-/

namespace Invalidation.Graph

/-- Saves a graph that does not contradict itself. -/
def save (graph : Graph)
    : Outcome (Except Error Bytes) :=
  match graph.check with
  | .error error => ⟨.error error, graph, []⟩
  | .ok () =>
      let body := Saved.ofGraph graph
      let bytes := MessagePack.write false Saved.Header.schema .current
        ++ MessagePack.write true Saved.Body.schema body
      ⟨.ok bytes, graph, [.saved bytes.length body.units.length]⟩

/-- Reads the header of a saved graph and gives what follows it. -/
def readHeader (bytes : Bytes)
    : Except Unavailability Bytes := do
  let (header, rest) ← (MessagePack.decode Saved.Header.schema bytes).mapError .unreadableHeader
  if header.magic ≠ Saved.Header.current.magic then throw .notAGraph
  if header.major ≠ Saved.Header.current.major then
    throw (.foreignFormat header.major header.minor)
  return rest

/-- Loads a saved graph. What follows the body is left unread. -/
def load (bytes : Bytes) (options : Options)
    : Except Error Graph := do
  if !options.incremental then throw (.unavailable .disabled)
  let rest ← (readHeader bytes).mapError .unavailable
  let (body, _) ← (MessagePack.decode Saved.Body.schema rest).mapError .undecodable
  Saved.toGraph options body

def loadedEvent (graph : Graph)
    : Event :=
  .loaded graph.store.nodeCount graph.externals.toList.length

end Invalidation.Graph
