import OpenApiServer.Name.Case
import OpenApiServer.Text.Basic

/-!
# Unique names

A name that is taken gets the least number from two on that makes it free.
-/

namespace OpenApiServer.Name

def numbered (base : String) (n : Nat) : String := base ++ toString n

/-- The first free name among `base` with the numbers from `n` on, after at most `tries` tries. -/
def firstFree (base : String) (used : List String) : Nat → Nat → String
  | 0, n => numbered base n
  | tries + 1, n =>
    if numbered base n ∈ used then firstFree base used tries (n + 1) else numbered base n

/-- The base if it is free, else the base with the least number that makes it free. -/
def unique (base : String) (used : List String) : String :=
  if base ∈ used then firstFree base used used.length 2 else base

end OpenApiServer.Name

/-!
## Identifiers of the generated code

`FieldName` names fields, arguments and methods, `TypeName` names types and variants. Both are made
from any text by `ofText`. A leading minus becomes a word, a leading digit gets a letter or an
underscore before it, and a text without a letter or digit becomes a fixed word. A field name that
is a keyword is written raw, except for the few keywords that cannot be.
-/

namespace OpenApiServer

/-- Keywords, which are written with `r#` before them. -/
def keywords : List String := [
  "as", "break", "const", "continue", "else", "enum", "extern", "false", "fn", "for", "if", "impl",
  "in", "let", "loop", "match", "mod", "move", "mut", "pub", "ref", "return", "static", "struct",
  "trait", "true", "type", "unsafe", "use", "where", "while", "async", "await", "dyn", "try",
  "abstract", "become", "box", "do", "final", "macro", "override", "priv", "typeof", "unsized",
  "virtual", "yield", "gen"]

/-- Keywords that cannot be written raw. -/
def plainKeywords : List String := ["self", "Self", "super", "crate"]

/-- Type names that the generated code uses for something else. -/
def reservedTypeNames : List String := [
  "Box", "Clone", "Copy", "Default", "Err", "From", "Into", "None", "Ok", "Option", "Result",
  "Self", "Send", "Sized", "Some", "String", "Sync", "ToString", "Vec"]

namespace Name

def startsWithDigit (s : String) : Bool := s.toList.head?.any isDigit

/-- Puts a text before an identifier that starts with a digit. -/
def guardDigit (before s : String) : String := if startsWithDigit s then before ++ s else s

/-- Whether the text starts with a minus, and the text without it. -/
def splitMinus (text : String) : Bool × String :=
  match text.toList with
  | '-' :: rest => (true, String.ofList rest)
  | _ => (false, text)

end Name

/-- The name of a field, an argument or a method, without the mark of a raw identifier. -/
structure FieldName where
  bare : String
  deriving DecidableEq, Repr, Inhabited

namespace FieldName

def isKeyword (n : FieldName) : Bool := keywords.contains n.bare

/-- The identifier as it is written. -/
def text (n : FieldName) : String := if n.isKeyword then "r#" ++ n.bare else n.bare

def ofText (raw : String) : FieldName :=
  let (negative, rest) := Name.splitMinus raw
  let word := Name.snakeCase [rest]
  if word.toList.all (· == '_') then ⟨"unnamed"⟩
  else
    let word := if negative then "negative_" ++ word else word
    if plainKeywords.contains word then ⟨word ++ "_"⟩
    else if keywords.contains word then ⟨word⟩
    else ⟨Name.guardDigit "_" word⟩

/-- A method name such as `set_color` for a field. -/
def derived (n : FieldName) (action : String) : FieldName := ofText (action ++ "_" ++ n.bare)

/-- A name whose bare text is not taken. -/
def uniqueAmong (used : List String) (n : FieldName) : FieldName :=
  ofText (Name.unique n.bare used)

end FieldName

/-- The name of a type or a variant. -/
structure TypeName where
  text : String
  deriving DecidableEq, Repr, Inhabited

namespace TypeName

def ofText (raw : String) : TypeName :=
  let (negative, rest) := Name.splitMinus raw
  let word := Name.pascalCase [rest]
  if word = "" then ⟨"Unnamed"⟩
  else
    let word := if negative then "Negative" ++ word else word
    if reservedTypeNames.contains word then ⟨word ++ "Type"⟩ else ⟨Name.guardDigit "T" word⟩

/-- The name of what is found along a path of texts. -/
def ofFragments (fragments : List String) : TypeName := ofText (Name.pascalCase fragments)

def extend (n : TypeName) (ending : String) : TypeName := ⟨n.text ++ ending⟩

end TypeName

/-- The name of a static: snake case in uppercase letters. -/
def constantName (raw : String) : String :=
  let word := Text.upper (Name.snakeCase [raw])
  if word = "" then "UNNAMED" else Name.guardDigit "_" word

end OpenApiServer
