import OpenApiServer.Yaml.Event.Basic

/-!
# A document and its anchors

An anchor gets a number when it is met: how many different names there were before it. A name that
is given twice therefore gets a new number, which the next new name gets too, and an alias stands
for the last node with its number.
-/

namespace OpenApiServer.Yaml

/-- A part of a node, with aliases as numbers. -/
inductive Part where
  | alias (number : Nat)
  | scalar (tag : Option Tag.Resolved) (text : String) (plain : Bool)
  | sequenceStart (tag : Option Tag.Resolved)
  | sequenceEnd
  | mappingStart (tag : Option Tag.Resolved)
  | mappingEnd
  deriving Repr

/-- Why the parts of a document stop before its end. -/
inductive Break where
  | fault (fault : Fault)
  | unknownAnchor (place : Mark)
  deriving Repr

def Break.message : Break → String
  | .fault f => f.message
  | .unknownAnchor place => "unknown anchor" ++ place.suffixText

structure Document where
  parts : Array (Part × Mark)
  targets : List (Nat × Nat)
  stop : Option Break
  deriving Repr

namespace Document

/-- The parts read so far, and the names of anchors with their numbers. -/
structure Builder where
  parts : Array (Part × Mark)
  anchors : List (String × Nat)
  targets : List (Nat × Nat)

namespace Builder

def empty : Builder := ⟨#[], [], []⟩

def add (b : Builder) (p : Part) (m : Mark) : Builder := { b with parts := b.parts.push (p, m) }

/-- Notes that the next part has an anchor. -/
def note (b : Builder) : Option String → Builder
  | none => b
  | some name =>
    let number := b.anchors.length
    { b with
      anchors := (name, number) :: b.anchors.filter (·.1 != name)
      targets := (number, b.parts.size) :: b.targets }

def finish (b : Builder) (stop : Option Break) : Document := ⟨b.parts, b.targets, stop⟩

end Builder

/-- The first document of a list of events, and whether anything but the end of the stream comes
after it. A stream without a document has no parts. -/
def read (fault : Option Fault) (b : Builder) : List Event → Document × Bool
  | [] => (b.finish (fault.map .fault), false)
  | ⟨kind, m⟩ :: rest =>
    match kind with
    | .documentStart => read fault b rest
    | .documentEnd => (b.finish none, !rest.isEmpty || fault.isSome)
    | .alias name =>
      match b.anchors.lookup name with
      | some number => read fault (b.add (.alias number) m) rest
      | none => (b.finish (some (.unknownAnchor m)), false)
    | .scalar p text plain => read fault ((b.note p.anchor).add (.scalar p.tag text plain) m) rest
    | .sequenceStart p => read fault ((b.note p.anchor).add (.sequenceStart p.tag) m) rest
    | .mappingStart p => read fault ((b.note p.anchor).add (.mappingStart p.tag) m) rest
    | .sequenceEnd => read fault (b.add .sequenceEnd m) rest
    | .mappingEnd => read fault (b.add .mappingEnd m) rest

def ofEvents (events : Events) : Document × Bool := read events.fault Builder.empty events.list

end Document

end OpenApiServer.Yaml
