import OpenApiServer.Yaml.Event.Basic
import OpenApiServer.Yaml.Token.Basic

/-!
# From tokens to events

Nested nodes are kept as a stack of goals: what has to come next, what has to come after that, and
so on. Each step looks at the next token under the innermost goal, emits one event and says which
goals take the place of that goal.
-/

namespace OpenApiServer.Yaml

/-- What is to be read. The marks are those of the first tokens of collections, for messages. -/
inductive Goal where
  | firstDocument
  | nextDocument
  | content
  | documentEnd
  | blockNode
  | firstEntry (began : Mark)
  | entry (began : Mark)
  | looseEntry
  | firstKey (began : Mark)
  | key (began : Mark)
  | value (began : Mark)
  | flowFirstEntry (began : Mark)
  | flowEntry (began : Mark)
  | pairKey
  | pairValue
  | pairEnd
  | flowFirstKey (began : Mark)
  | flowKey (began : Mark)
  | flowValue (began : Mark)
  | flowNoValue (began : Mark)
  deriving DecidableEq, Repr

/-- The tokens that are left, the goals, innermost first, and the handles for tags. -/
structure Reader where
  tokens : Tokens
  goals : List Goal
  handles : List (String × List UInt8)

namespace Reader

def defaultHandles : List (String × List UInt8) :=
  [("!", asciiBytes ['!']), ("!!", asciiBytes Tag.coreStart.toList)]

def head (r : Reader) : Except Fault Token := r.tokens.head

def skip (r : Reader) : Reader := { r with tokens := r.tokens.tail }

def withGoals (r : Reader) (goals : List Goal) : Reader := { r with goals }

def push (r : Reader) (g : Goal) : Reader := { r with goals := g :: r.goals }

/-- A step's result; there is no event at the end of the stream. -/
abbrev Step := Except Fault (Option Event × Reader)

def emit (r : Reader) (kind : Event.Kind) (m : Mark) : Step := .ok (some ⟨kind, m⟩, r)

/-- A node of which nothing is written. -/
def emitEmpty (r : Reader) (m : Mark) : Step := r.emit (.scalar Properties.none "" true) m

def refuse (p : Problem) (place : Mark) : Step := .error (.problem p place none)

def refuseIn (activity : Activity) (began : Mark) (p : Problem) (place : Mark) : Step :=
  .error (.problem p place (some (activity, began)))

/-! Nodes -/

/-- The properties in front of a node and the place of the first of them. -/
structure NodeStart where
  anchor : Option String
  tag : Option WrittenTag
  tagMark : Mark
  mark : Mark

/-- Reads an anchor and a tag in any order, each at most once. -/
def nodeStart (r : Reader) : Except Fault (NodeStart × Reader) := do
  let t ← r.head
  match t.kind with
  | .anchor name => do
    let r := r.skip
    let u ← r.head
    match u.kind with
    | .tag tag => return (⟨some name, some tag, u.start, t.start⟩, r.skip)
    | _ => return (⟨some name, none, t.start, t.start⟩, r)
  | .tag tag => do
    let r := r.skip
    let u ← r.head
    match u.kind with
    | .anchor name => return (⟨some name, some tag, t.start, t.start⟩, r.skip)
    | _ => return (⟨none, some tag, t.start, t.start⟩, r)
  | _ => return (⟨none, none, t.start, t.start⟩, r)

def lookUp (r : Reader) (s : NodeStart) : Except Fault (Option Tag.Resolved) :=
  match s.tag with
  | none => .ok none
  | some tag =>
    if tag.handle.isEmpty then .ok (some tag.suffix)
    else match r.handles.lookup tag.handle with
      | some start => .ok (some (start ++ tag.suffix))
      | none => .error (.problem .undefinedHandle s.tagMark (some (.node, s.mark)))

/-- Reads a node. Block collections need `block`, and entries without a collection of their own
need `loose`. -/
def node (r : Reader) (block loose : Bool) : Step := do
  let t ← r.head
  match t.kind with
  | .alias name => r.skip.emit (.alias name) t.start
  | _ => do
    let (s, r) ← r.nodeStart
    let tag ← r.lookUp s
    let p : Properties := ⟨s.anchor, tag⟩
    let t ← r.head
    match t.kind, block with
    | .scalar text plain, _ =>
      let p := if tag = some (asciiBytes ['!']) then { p with tag := none } else p
      r.skip.emit (.scalar p text plain) s.mark
    | .flowSequenceStart, _ => (r.push (.flowFirstEntry t.start)).emit (.sequenceStart p) s.mark
    | .flowMappingStart, _ => (r.push (.flowFirstKey t.start)).emit (.mappingStart p) s.mark
    | .blockSequenceStart, true => (r.push (.firstEntry t.start)).emit (.sequenceStart p) s.mark
    | .blockMappingStart, true => (r.push (.firstKey t.start)).emit (.mappingStart p) s.mark
    | kind, _ =>
      if loose && kind == .blockEntry then (r.push .looseEntry).emit (.sequenceStart p) s.mark
      else if s.anchor.isSome || s.tag.isSome then r.emit (.scalar p "" true) s.mark
      else refuseIn (if block then .blockNode else .flowNode) s.mark .contentExpected t.start

/-! Documents -/

def versionTaken (p : Problem) (t : Token) (seen : Bool) (major minor : Nat) : Except Fault Unit :=
  if seen then .error (.problem p t.start none)
  else if major = 1 ∧ (minor = 1 ∨ minor = 2) then .ok ()
  else .error (.problem .incompatibleVersion t.start none)

/-- Reads directives up to another token. -/
def directives : Tokens → Bool → List (String × List UInt8) →
    Except Fault (Tokens × List (String × List UInt8))
  | .more ⟨.directive d, start, stop⟩ rest, version, handles =>
    match d with
    | .version major minor => do
      versionTaken .duplicateVersion ⟨.directive d, start, stop⟩ version major minor
      directives rest true handles
    | .handle name uri =>
      if (handles.lookup name).isSome then .error (.problem .duplicateHandle start none)
      else directives rest version (handles ++ [(name, uri)])
  | .faulty f, _, _ => .error f
  | tokens, _, handles => .ok (tokens, handles)

def skipDocumentEnds : Tokens → Tokens
  | .more ⟨.documentEnd, _, _⟩ rest => skipDocumentEnds rest
  | tokens => tokens

def isDirective : Token.Kind → Bool
  | .directive _ => true
  | _ => false

/-- Starts a document, or ends the stream. Only the first document can start without a sign. -/
def document (r : Reader) (first : Bool) : Step := do
  let r := if first then r else { r with tokens := skipDocumentEnds r.tokens }
  let t ← r.head
  if t.kind = .streamEnd then return (none, r)
  let (tokens, own) ← directives r.tokens false []
  let r := { r with tokens, handles := own ++ defaultHandles }
  let u ← r.head
  if first && !isDirective t.kind && t.kind != .documentStart then
    (r.withGoals [.blockNode, .documentEnd]).emit .documentStart t.start
  else if u.kind = .documentStart then
    (r.skip.withGoals [.content, .documentEnd]).emit .documentStart t.start
  else refuse .documentStartExpected u.start

def endDocument (r : Reader) : Step := do
  let t ← r.head
  let r := if t.kind = .documentEnd then r.skip else r
  (r.withGoals [.nextDocument]).emit .documentEnd t.start

def content (r : Reader) : Step := do
  let t ← r.head
  match t.kind with
  | .directive _ | .documentStart | .documentEnd | .streamEnd => r.emitEmpty t.start
  | _ => r.node true false

/-! Block collections -/

/-- Reads the next entry, where the first token is its indicator. An entry is empty if its end or
one of the tokens in `ends` follows. -/
def afterIndicator (r : Reader) (t : Token) (ends : List Token.Kind) (next : Goal)
    (loose : Bool) : Step := do
  let r := r.skip.push next
  let u ← r.head
  if ends.contains u.kind then r.emitEmpty t.stop else r.node true loose

def entry (r : Reader) (began : Mark) : Step := do
  let t ← r.head
  match t.kind with
  | .blockEntry => r.afterIndicator t [.blockEntry, .blockEnd] (.entry began) false
  | .blockEnd => r.skip.emit .sequenceEnd t.start
  | _ => refuseIn .blockCollection began .entryExpected t.start

def looseEntry (r : Reader) : Step := do
  let t ← r.head
  match t.kind with
  | .blockEntry => r.afterIndicator t [.blockEntry, .key, .value, .blockEnd] .looseEntry false
  | _ => r.emit .sequenceEnd t.start

def blockKey (r : Reader) (began : Mark) : Step := do
  let t ← r.head
  match t.kind with
  | .key => r.afterIndicator t [.key, .value, .blockEnd] (.value began) true
  | .blockEnd => r.skip.emit .mappingEnd t.start
  | _ => refuseIn .blockMapping began .keyExpected t.start

def blockValue (r : Reader) (began : Mark) : Step := do
  let t ← r.head
  match t.kind with
  | .value => r.afterIndicator t [.key, .value, .blockEnd] (.key began) true
  | _ => (r.push (.key began)).emitEmpty t.start

/-! Collections in brackets -/

/-- Reads a comma, which has to stand before all entries but the first. -/
def comma (r : Reader) (first : Bool) (activity : Activity) (began : Mark) (p : Problem) :
    Except Fault Reader := do
  if first then return r
  let t ← r.head
  if t.kind = .flowEntry then return r.skip
  else .error (.problem p t.start (some (activity, began)))

def flowEntry (r : Reader) (first : Bool) (began : Mark) : Step := do
  let t ← r.head
  if t.kind = .flowSequenceEnd then r.skip.emit .sequenceEnd t.start
  else
    let r ← r.comma first .flowSequence began .commaOrBracketExpected
    let t ← r.head
    match t.kind with
    | .flowSequenceEnd => r.skip.emit .sequenceEnd t.start
    | .key =>
      ((r.skip.push (.flowEntry began)).push .pairKey).emit (.mappingStart Properties.none) t.start
    | _ => (r.push (.flowEntry began)).node false false

/-- Reads the key of a pair that stands in a sequence. A token that ends an empty key is skipped. -/
def pairKey (r : Reader) : Step := do
  let t ← r.head
  let r := r.push .pairValue
  match t.kind with
  | .value | .flowEntry | .flowSequenceEnd => r.skip.emitEmpty t.stop
  | _ => r.node false false

def pairValue (r : Reader) : Step := do
  let t ← r.head
  let r := r.push .pairEnd
  if t.kind = .value then
    let r := r.skip
    let t ← r.head
    match t.kind with
    | .flowEntry | .flowSequenceEnd => r.emitEmpty t.start
    | _ => r.node false false
  else r.emitEmpty t.start

def pairEnd (r : Reader) : Step := do
  let t ← r.head
  r.emit .mappingEnd t.start

def flowKey (r : Reader) (first : Bool) (began : Mark) : Step := do
  let t ← r.head
  if t.kind = .flowMappingEnd then r.skip.emit .mappingEnd t.start
  else
    let r ← r.comma first .flowMapping began .commaOrBraceExpected
    let t ← r.head
    match t.kind with
    | .flowMappingEnd => r.skip.emit .mappingEnd t.start
    | .key => do
      let r := r.skip.push (.flowValue began)
      let t ← r.head
      match t.kind with
      | .value | .flowEntry | .flowMappingEnd => r.emitEmpty t.start
      | _ => r.node false false
    | _ => (r.push (.flowNoValue began)).node false false

def flowValue (r : Reader) (began : Mark) : Step := do
  let t ← r.head
  let r := r.push (.flowKey began)
  if t.kind = .value then
    let r := r.skip
    let t ← r.head
    match t.kind with
    | .flowEntry | .flowMappingEnd => r.emitEmpty t.start
    | _ => r.node false false
  else r.emitEmpty t.start

def flowNoValue (r : Reader) (began : Mark) : Step := do
  let t ← r.head
  (r.push (.flowKey began)).emitEmpty t.start

/-- Reads the next event for the innermost goal. -/
def step (r : Reader) : Step :=
  match r.goals with
  | [] => .ok (none, r)
  | g :: goals =>
    let r := { r with goals }
    match g with
    | .firstDocument => r.document true
    | .nextDocument => r.document false
    | .content => r.content
    | .documentEnd => r.endDocument
    | .blockNode => r.node true false
    | .firstEntry began => r.skip.entry began
    | .entry began => r.entry began
    | .looseEntry => r.looseEntry
    | .firstKey began => r.skip.blockKey began
    | .key began => r.blockKey began
    | .value began => r.blockValue began
    | .flowFirstEntry began => r.skip.flowEntry true began
    | .flowEntry began => r.flowEntry false began
    | .pairKey => r.pairKey
    | .pairValue => r.pairValue
    | .pairEnd => r.pairEnd
    | .flowFirstKey began => r.skip.flowKey true began
    | .flowKey began => r.flowKey false began
    | .flowValue began => r.flowValue began
    | .flowNoValue began => r.flowNoValue began

/-- The events up to the end of the stream; those already read are in reverse. -/
def events : Nat → List Event → Reader → Events
  | 0, done, _ => ⟨done.reverse, none⟩
  | fuel + 1, done, r =>
    match r.step with
    | .error f => ⟨done.reverse, some f⟩
    | .ok (none, _) => ⟨done.reverse, none⟩
    | .ok (some e, r) => events fuel (e :: done) r

end Reader

/-- The events of a list of tokens. Every token gives at most four events. -/
def Events.ofTokens (tokens : Tokens) : Events :=
  Reader.events (4 * tokens.length + 16) [] ⟨tokens, [.firstDocument], []⟩

end OpenApiServer.Yaml
