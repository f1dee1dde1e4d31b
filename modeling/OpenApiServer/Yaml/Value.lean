import OpenApiServer.Yaml.Document
import OpenApiServer.Yaml.Event.Stream
import OpenApiServer.Yaml.Scalar.Core
import OpenApiServer.Yaml.Token.Stream

/-!
# The value of a YAML document

The parts of a document are read into a JSON value from left to right, so a part that cannot be
read is reported before a fault that comes after it in the text. An alias is read again from the
place of its anchor; nesting and the number of aliases are limited.
-/

namespace OpenApiServer.Yaml

/-- One step from a node to a part of it. What stands under a key that is an alias has no name. -/
inductive Step where
  | index (i : Nat)
  | key (name : String)
  | unnamed
  deriving DecidableEq, Repr

def parentText (text : String) : String := if text.isEmpty then "" else text ++ "."

/-- The text of a path: keys are joined by points, and the path of the whole document is empty. -/
def pathText (path : List Step) : String :=
  path.foldl (fun text step => match step with
    | .index i => (if text.isEmpty then "." else text) ++ "[" ++ toString i ++ "]"
    | .key name => parentText text ++ name
    | .unnamed => parentText text ++ "?") ""

inductive Failure where
  | stopped (stop : Break)
  | mismatch (path : List Step) (mismatch : Mismatch) (place : Mark)
  | tooDeep (place : Mark)
  | tooManyAliases
  | noValue
  | severalDocuments
  deriving Repr

def Failure.message : Failure → String
  | .stopped stop => stop.message
  | .mismatch path m place =>
    let under := pathText path
    (if under.isEmpty then "" else under ++ ": ") ++ m.message ++ place.suffixText
  | .tooDeep place => "recursion limit exceeded" ++ place.suffixText
  | .tooManyAliases => "repetition limit exceeded"
  | .noValue => "EOF while parsing a value"
  | .severalDocuments =>
    "deserializing from YAML containing more than one document is not supported"

namespace Document

/-- How far the reading has come: the next part and the number of aliases followed so far. -/
structure Progress where
  next : Nat
  aliases : Nat

/-- Where a node stands: its path, and how many more collections may be nested in it. -/
structure Place where
  path : List Step
  depth : Nat

def Place.under (p : Place) (s : Step) : Place := { p with path := p.path ++ [s] }

def Place.fails {α : Type} (p : Place) (m : Mismatch) (mark : Mark) : Except Failure α :=
  .error (.mismatch p.path m mark)

def partAt (d : Document) (i : Nat) : Except Failure (Part × Mark) :=
  match d.parts[i]? with
  | some part => .ok part
  | none => .error ((d.stop.map Failure.stopped).getD .noValue)

/-- The place of the node that an alias stands for. At most a hundred aliases are followed for
each part of the document. -/
def follow (d : Document) (number : Nat) (p : Progress) : Except Failure (Nat × Progress) :=
  let aliases := p.aliases + 1
  if aliases > 100 * d.parts.size then .error .tooManyAliases
  else match d.targets.lookup number with
    | some target => .ok (target, { p with aliases })
    | none => .error .noValue

/-- A local tag is refused; the tags of the core schema ask for a kind of scalar. -/
def checkTag (w : Place) (tag : Option Tag.Resolved) (m : Mark) : Except Failure Unit :=
  if tag.any Tag.isLocal then w.fails .localTag m else .ok ()

/-- What a key has to be: the first one is not yet known to be a text. -/
def keyKind (first : Bool) : String := if first then "a string key" else "a string"

/-- Reads a key that is a scalar or an alias of one. The step is what its value stands under. -/
def key (d : Document) (w : Place) (first : Bool) (p : Progress) :
    Except Failure (String × Step × Progress) := do
  let (part, mark) ← d.partAt p.next
  let p := { p with next := p.next + 1 }
  match part with
  | .scalar _ text _ => return (text, .key text, p)
  | .sequenceStart _ => w.fails (.keyKind "sequence" (keyKind first)) mark
  | .mappingStart _ => w.fails (.keyKind "map" (keyKind first)) mark
  | .alias number => do
    let (target, p) ← d.follow number p
    let (part, mark) ← d.partAt target
    match part with
    | .scalar _ text _ => return (text, .unnamed, p)
    | .sequenceStart _ => w.fails (.keyKind "sequence" (keyKind first)) mark
    | .mappingStart _ => w.fails (.keyKind "map" (keyKind first)) mark
    | _ => .error .noValue
  | _ => .error .noValue

mutual

/-- Reads the node that starts at the next part. -/
def value (d : Document) : Nat → Place → Progress → Except Failure (Json × Progress)
  | 0, _, _ => .error .noValue
  | fuel + 1, w, p => do
    let (part, mark) ← d.partAt p.next
    let p := { p with next := p.next + 1 }
    match part with
    | .alias number => do
      let (target, followed) ← d.follow number p
      let (v, q) ← d.value fuel w { followed with next := target }
      return (v, { q with next := p.next })
    | .scalar tag text plain => do
      checkTag w tag mark
      match Core.value tag text plain with
      | .ok v => return (v, p)
      | .error m => w.fails m mark
    | .sequenceStart tag => do
      checkTag w tag mark
      if w.depth = 0 then .error (.tooDeep mark)
      let (items, p) ← d.items fuel { w with depth := w.depth - 1 } 0 p
      return (.arr items, p)
    | .mappingStart tag => do
      checkTag w tag mark
      if w.depth = 0 then .error (.tooDeep mark)
      let (fields, p) ← d.fields fuel { w with depth := w.depth - 1 } [] p
      return (.obj fields, p)
    | _ => .error .noValue

/-- Reads the entries of a sequence from number `i` on. -/
def items (d : Document) :
    Nat → Place → Nat → Progress → Except Failure (List Json × Progress)
  | 0, _, _, _ => .error .noValue
  | fuel + 1, w, i, p => do
    let (part, _) ← d.partAt p.next
    match part with
    | .sequenceEnd => return ([], { p with next := p.next + 1 })
    | _ => do
      let (v, p) ← d.value fuel (w.under (.index i)) p
      let (rest, p) ← d.items fuel w (i + 1) p
      return (v :: rest, p)

/-- Reads the entries of a mapping after those already read. -/
def fields (d : Document) :
    Nat → Place → List (String × Json) → Progress → Except Failure (List (String × Json) × Progress)
  | 0, _, _, _ => .error .noValue
  | fuel + 1, w, done, p => do
    let (part, _) ← d.partAt p.next
    match part with
    | .mappingEnd => return (done, { p with next := p.next + 1 })
    | _ => do
      let (name, step, p) ← d.key w done.isEmpty p
      let (v, p) ← d.value fuel (w.under step) p
      d.fields fuel w (insertField name v done) p

end

/-- The greatest number of collections that may be nested. -/
def depthLimit : Nat := 128

/-- The value of a document. A document without parts is a null. -/
def toJson (d : Document) : Except Failure Json :=
  match d.parts.isEmpty, d.stop with
  | true, none => .ok .null
  | true, some stop => .error (.stopped stop)
  | false, _ => do
    let fuel := (depthLimit + 2) * (d.parts.size + 3)
    let (v, _) ← d.value fuel ⟨[], depthLimit⟩ ⟨0, 0⟩
    match d.stop with
    | some stop => .error (.stopped stop)
    | none => return v

end Document

/-- The value of a text that is a single document. -/
def parse (cs : List Char) : Except Failure Json := do
  let (document, more) := Document.ofEvents (Events.ofTokens (Tokens.ofText cs))
  let value ← document.toJson
  if more then .error .severalDocuments else return value

end OpenApiServer.Yaml
