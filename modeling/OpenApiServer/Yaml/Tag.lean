import OpenApiServer.Yaml.Cursor
import OpenApiServer.Text.Utf8

/-!
# Tags and anchors

A tag is a handle and a suffix, or a whole tag in angle brackets. Escaped octets may stand in a
suffix, so tags are lists of bytes; an escaped character is given by all its octets. A tag with
no more than its first exclamation mark for a handle is local.
-/

namespace OpenApiServer.Yaml

/-- A tag as it is written; the handle is empty for a whole tag. -/
structure WrittenTag where
  handle : String
  suffix : List UInt8
  deriving DecidableEq, Repr

/-- The bytes of a text of ASCII characters. -/
def asciiBytes (cs : List Char) : List UInt8 := cs.map fun c => UInt8.ofNat c.toNat

namespace Tag

/-- A tag after its handle has been looked up. -/
abbrev Resolved := List UInt8

def coreStart : String := "tag:yaml.org,2002:"

def core (name : String) : Resolved := asciiBytes (coreStart ++ name).toList

/-- Whether a tag is local to its document. Its name has to be well-formed text. -/
def isLocal : Resolved → Bool
  | 0x21 :: name => match Utf8.decode name with
    | .ok _ => true
    | .error _ => false
  | _ => false

/-- The length of the character that starts with an octet, none if no character does. -/
def octetCount? (first : UInt8) : Option Nat :=
  if first < 0x80 then some 1
  else if first &&& 0xe0 = 0xc0 then some 2
  else if first &&& 0xf0 = 0xe0 then some 3
  else if first &&& 0xf8 = 0xf0 then some 4
  else none

/-- The octet of a percent sign and two hexadecimal digits. -/
def octet? : List Char → Option UInt8
  | '%' :: a :: b :: _ =>
    if isHexDigit a && isHexDigit b then some (UInt8.ofNat (hexValue a * 16 + hexValue b)) else none
  | _ => none

/-- Reads `n` octets that continue a character. -/
def continuation (activity : Activity) (began : Mark) :
    Nat → Cursor → Except Fault (List UInt8 × Cursor)
  | 0, c => .ok ([], c)
  | n + 1, c =>
    match octet? c.rest with
    | none => c.fails .octetExpected activity began
    | some b =>
      if b &&& 0xc0 ≠ 0x80 then c.fails .badTrailingOctet activity began
      else do
        let (bytes, c) ← continuation activity began n (c.skip 3)
        return (b :: bytes, c)

/-- Reads the octets of one escaped character. -/
def escaped (activity : Activity) (began : Mark) (c : Cursor) :
    Except Fault (List UInt8 × Cursor) :=
  match octet? c.rest with
  | none => c.fails .octetExpected activity began
  | some b =>
    match octetCount? b with
    | none => c.fails .badLeadingOctet activity began
    | some n => do
      let (bytes, c) ← continuation activity began (n - 1) (c.skip 3)
      return (b :: bytes, c)

def isUriChar (whole : Bool) (c : Char) : Bool :=
  isNameChar c || ";/?:@&=+$.%!~*'()".toList.contains c || (whole && ",[]".toList.contains c)

/-- Reads the characters of a tag; commas and square brackets may stand in a whole tag only. -/
def uriChars (whole : Bool) (activity : Activity) (began : Mark) :
    Nat → Cursor → Except Fault (List UInt8 × Cursor)
  | 0, c => .ok ([], c)
  | fuel + 1, c =>
    match c.rest with
    | ch :: _ =>
      if ch = '%' then do
        let (bytes, c) ← escaped activity began c
        let (more, c) ← uriChars whole activity began fuel c
        return (bytes ++ more, c)
      else if isUriChar whole ch then do
        let (more, c) ← uriChars whole activity began fuel (c.skip 1)
        return (asciiBytes [ch] ++ more, c)
      else .ok ([], c)
    | [] => .ok ([], c)

/-- Reads a tag's characters. They may be missing only after a handle that stands for a part of
the tag. -/
def uri (whole mayBeEmpty : Bool) (activity : Activity) (began : Mark) (c : Cursor) :
    Except Fault (List UInt8 × Cursor) := do
  let (bytes, after) ← uriChars whole activity began c.rest.length c
  if bytes.isEmpty && !mayBeEmpty then after.fails .uriExpected activity began
  else return (bytes, after)

/-- Reads an exclamation mark, a name and the exclamation mark that may close it. -/
def handle (activity : Activity) (began : Mark) (c : Cursor) : Except Fault (String × Cursor) :=
  if !c.startsWith '!' then c.fails .exclamationExpected activity began
  else
    let name := (c.skip 1).rest.takeWhile isNameChar
    let after := (c.skip 1).skip name.length
    if after.startsWith '!' then .ok ("!" ++ String.ofList name ++ "!", after.skip 1)
    else .ok ("!" ++ String.ofList name, after)

def isClosedHandle (h : String) : Bool := h.length > 1 && h.toList.getLast? == some '!'

/-- Reads a tag before a node. -/
def read (inFlow : Bool) (c : Cursor) : Except Fault (WrittenTag × Cursor) := do
  let began := c.mark
  let (tag, c) ←
    if (c.skip 1).startsWith '<' then do
      let (suffix, c) ← uri true false .tagUri began (c.skip 2)
      if c.startsWith '>' then pure (WrittenTag.mk "" suffix, c.skip 1)
      else c.fails .closingAngleExpected .tag began
    else do
      let (h, c) ← handle .tag began c
      if isClosedHandle h then do
        let (suffix, c) ← uri false false .tagUri began c
        pure (WrittenTag.mk h suffix, c)
      else do
        let start := h.toList.drop 1
        let (more, c) ← uri false true .tagUri began c
        let suffix := asciiBytes start ++ more
        if suffix.isEmpty then pure (WrittenTag.mk "" (asciiBytes ['!']), c)
        else pure (WrittenTag.mk "!" suffix, c)
  if c.atBlankOrEnd || (inFlow && c.startsWith ',') then return (tag, c)
  else c.fails .blankOrBreakExpected .tag began

end Tag

namespace Anchor

/-- The characters besides blanks that may follow the name of an anchor. -/
def mayFollow (c : Char) : Bool := "?:,]\x7d%@\x60".toList.contains c

/-- Reads the name of an anchor or an alias after its indicator. -/
def readName (activity : Activity) (c : Cursor) : Except Fault (String × Cursor) :=
  let name := (c.skip 1).rest.takeWhile isNameChar
  let after := (c.skip 1).skip name.length
  if name.isEmpty || !(after.atBlankOrEnd || after.rest.head?.any mayFollow) then
    after.fails .nameExpected activity c.mark
  else .ok (String.ofList name, after)

end Anchor

end OpenApiServer.Yaml

/-!
## Directives

A line that starts with a percent sign gives the version of the format or a handle for tags.
-/

namespace OpenApiServer.Yaml

inductive Directive where
  | version (major minor : Nat)
  | handle (name : String) (start : List UInt8)
  deriving DecidableEq, Repr

namespace Directive

/-- A number of at most nine digits. -/
def versionNumber (began : Mark) (c : Cursor) : Except Fault (Nat × Cursor) :=
  let digits := c.rest.takeWhile Char.isDigit
  if digits.isEmpty then c.fails .versionExpected .versionDirective began
  else if digits.length > 9 then (c.skip 9).fails .longVersion .versionDirective began
  else .ok (digits.foldl (fun n d => n * 10 + (d.toNat - '0'.toNat)) 0, c.skip digits.length)

def readVersion (began : Mark) (c : Cursor) : Except Fault (Directive × Cursor) := do
  let (major, c) ← versionNumber began (c.skipWhile isBlank)
  if !c.startsWith '.' then c.fails .digitOrPointExpected .versionDirective began
  let (minor, c) ← versionNumber began (c.skip 1)
  return (.version major minor, c)

/-- Reads the handle of a directive: a lonely exclamation mark, or a name between two. -/
def tagHandle (began : Mark) (c : Cursor) : Except Fault (String × Cursor) := do
  let (h, c) ← Tag.handle .tagDirectiveHandle began c
  if h != "!" && !Tag.isClosedHandle h then c.fails .exclamationExpected .tagDirectiveName began
  else return (h, c)

def readHandle (began : Mark) (c : Cursor) : Except Fault (Directive × Cursor) := do
  let (h, c) ← tagHandle began (c.skipWhile isBlank)
  if !c.rest.head?.any isBlank then c.fails .blankExpected .tagDirective began
  let (start, c) ← Tag.uri true false .tagDirectiveUri began (c.skipWhile isBlank)
  if !c.atBlankOrEnd then c.fails .blankOrBreakExpected .tagDirective began
  return (.handle h start, c)

/-- Reads a directive and the rest of its line. -/
def read (c : Cursor) : Except Fault (Directive × Cursor) := do
  let began := c.mark
  let name := (c.skip 1).rest.takeWhile isNameChar
  let after := (c.skip 1).skip name.length
  if name.isEmpty then after.fails .directiveNameExpected .directive began
  if !after.atBlankOrEnd then after.fails .nonAlphabetical .directive began
  let (directive, c) ←
    if name = "YAML".toList then readVersion began after
    else if name = "TAG".toList then readHandle began after
    else after.fails .unknownDirective .directive began
  let c := c.skipComment
  if !c.atBreakOrEnd then c.fails .commentOrBreakExpected .directive began
  return (directive, c.skipBreak)

end Directive

end OpenApiServer.Yaml
