import OpenApiServer.Text.Utf8
import OpenApiServer.Text.Basic
import OpenApiServer.Json.Reader

/-!
# URIs

A URI is in origin form (a path that starts with a slash, or an asterisk), an authority alone, or
absolute with scheme and authority. Only its path and its query are kept; a fragment is dropped.
Characters are checked byte by byte, so every character outside ASCII counts as its bytes.
-/

namespace OpenApiServer.Http

inductive UriError where
  | empty
  | tooLong
  | badCharacter
  | badAuthority
  | badFormat
  | schemeTooLong
  deriving DecidableEq, Repr

def UriError.message : UriError → String
  | .empty => "empty string"
  | .tooLong => "uri too long"
  | .badCharacter => "invalid uri character"
  | .badAuthority => "invalid authority"
  | .badFormat => "invalid format"
  | .schemeTooLong => "scheme too long"

structure Uri where
  path : String
  query : Option String
  deriving DecidableEq, Repr

namespace Uri

def isAlphanumeric (c : Char) : Bool :=
  ('a' ≤ c && c ≤ 'z') || ('A' ≤ c && c ≤ 'Z') || ('0' ≤ c && c ≤ '9')

def isSchemeChar (c : Char) : Bool := isAlphanumeric c || "+-.~".toList.contains c

def isAuthorityChar (c : Char) : Bool := isAlphanumeric c || "!$&'()*+,-.;=_~".toList.contains c

def isPathChar (c : Char) : Bool :=
  c.toNat > 0x7e || c == '"' || c == '\x7b' || c == '\x7d' || c == '!' || c == '|' || c == '~' ||
  c == '=' || ('$' ≤ c && c ≤ ';') || ('@' ≤ c && c ≤ '_') || ('a' ≤ c && c ≤ 'z')

def isQueryChar (c : Char) : Bool :=
  c == '!' || c == '=' || ('$' ≤ c && c ≤ ';') || '?' ≤ c

def startsAnyCase (word cs : List Char) : Bool :=
  (cs.take word.length).map Char.toLower == word

/-- The number of characters of the scheme before its colon and two slashes. -/
def schemeLength? : Nat → List Char → Option Nat
  | _, [] => none
  | n, ':' :: rest => if (Text.dropStart? ['/', '/'] rest).isSome then some n else none
  | n, c :: rest => if isSchemeChar c then schemeLength? (n + 1) rest else none

/-- What follows the scheme; `none` when there is no scheme. -/
def afterScheme (cs : List Char) : Except UriError (Option (List Char)) :=
  if startsAnyCase "http://".toList cs then .ok (some (cs.drop 7))
  else if startsAnyCase "https://".toList cs then .ok (some (cs.drop 8))
  else if Utf8.byteCount cs ≤ 3 then .ok none
  else match schemeLength? 0 cs with
    | none => .ok none
    | some n => if n > 64 then .error .schemeTooLong else .ok (some (cs.drop (n + 3)))

/-- What has been seen of an authority. -/
structure Authority where
  colons : Nat
  opened : Bool
  closed : Bool
  percent : Bool
  endsWithAt : Bool

def Authority.start : Authority := ⟨0, false, false, false, false⟩

def Authority.isComplete (a : Authority) : Bool :=
  a.opened == a.closed && a.colons ≤ 1 && !a.endsWithAt && !a.percent

def isAuthorityEnd (c : Char) : Bool := c == '/' || c == '?' || c == '#'

/-- Reads an authority and gives what follows it. -/
def authority (a : Authority) : List Char → Except UriError (List Char)
  | [] => if a.isComplete then .ok [] else .error .badAuthority
  | c :: rest =>
    let seen := { a with endsWithAt := false }
    if isAuthorityEnd c then if a.isComplete then .ok (c :: rest) else .error .badAuthority
    else if c = ':' then
      if a.colons ≥ 8 then .error .badAuthority
      else authority { seen with colons := a.colons + 1 } rest
    else if c = '[' then
      if a.percent || a.opened then .error .badAuthority
      else authority { seen with opened := true } rest
    else if c = ']' then
      if !a.opened || a.closed then .error .badAuthority
      else authority { seen with closed := true, colons := 0, percent := false } rest
    else if c = '@' then
      authority { a with endsWithAt := true, colons := 0, percent := false } rest
    else if c = '%' then authority { seen with percent := true } rest
    else if isAuthorityChar c then authority seen rest
    else .error .badCharacter

def isHash (c : Char) : Bool := c == '#'

/-- Reads a path with its query. -/
def pathAndQuery (cs : List Char) : Except UriError Uri :=
  let isEnd := fun c => c == '?' || isHash c
  let path := cs.takeWhile (!isEnd ·)
  if !path.all isPathChar then .error .badCharacter
  else match cs.dropWhile (!isEnd ·) with
    | '?' :: rest =>
      let query := rest.takeWhile (!isHash ·)
      if query.all isQueryChar then .ok ⟨String.ofList path, some (String.ofList query)⟩
      else .error .badCharacter
    | _ => .ok ⟨String.ofList path, none⟩

def withRootPath (u : Uri) : Uri := if u.path = "" then { u with path := "/" } else u

def parse (cs : List Char) : Except UriError Uri :=
  if Utf8.byteCount cs > 65534 then .error .tooLong
  else match cs with
    | [] => .error .empty
    | ['*'] => .ok ⟨"*", none⟩
    | '/' :: _ => withRootPath <$> pathAndQuery cs
    | [c] => do
      let rest ← authority Authority.start [c]
      if rest.isEmpty then return ⟨"", none⟩ else .error .badCharacter
    | _ => do
      match ← afterScheme cs with
      | none =>
        let rest ← authority Authority.start cs
        if rest.isEmpty then return ⟨"", none⟩ else .error .badFormat
      | some body =>
        let rest ← authority Authority.start body
        if rest.length = body.length then .error .badFormat
        else withRootPath <$> pathAndQuery rest

end Uri

/-- A method is a token: letters, digits and a few marks, and at least one of them. -/
def isMethod (name : String) : Bool :=
  name ≠ "" && name.toList.all fun c =>
    Uri.isAlphanumeric c || "!#$%&'*+-.^_|~`".toList.contains c

end OpenApiServer.Http
