import OpenApiServer.Yaml.Tag

/-!
# Events

The events of a text are what its tokens say about the nodes: where each begins and ends, with its
anchor and its tag. They stop at the end of the stream or at a fault.
-/

namespace OpenApiServer.Yaml

/-- What may stand in front of a node. -/
structure Properties where
  anchor : Option String
  tag : Option Tag.Resolved
  deriving DecidableEq, Repr

def Properties.none : Properties := ⟨Option.none, Option.none⟩

namespace Event

inductive Kind where
  | documentStart
  | documentEnd
  | alias (name : String)
  | scalar (properties : Properties) (text : String) (plain : Bool)
  | sequenceStart (properties : Properties)
  | sequenceEnd
  | mappingStart (properties : Properties)
  | mappingEnd
  deriving DecidableEq, Repr

end Event

structure Event where
  kind : Event.Kind
  mark : Mark
  deriving Repr

/-- The events of a text in order; without a fault they reach the end of the stream. -/
structure Events where
  list : List Event
  fault : Option Fault
  deriving Repr

end OpenApiServer.Yaml
