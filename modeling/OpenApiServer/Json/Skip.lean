import OpenApiServer.Json.Reader

/-!
# Skipping JSON values

A value that nobody asked for is passed over without being built: its grammar is checked, but its
numbers have no range, its surrogates need no partner and its nesting has no limit.
-/

namespace OpenApiServer.Json

def skipDigits (cs : List Char) : List Char := cs.dropWhile isDigit

/-- Passes over an exponent after its letter. -/
def skipExponent (cs : List Char) : Except Failure (List Char) :=
  let cs := match cs with
    | '+' :: rest => rest
    | '-' :: rest => rest
    | _ => cs
  if startsWithDigit cs then .ok (skipDigits cs) else failOn .badNumber cs

def skipTail (cs : List Char) : Except Failure (List Char) :=
  match cs with
  | c :: rest => if isExponentMark c then skipExponent rest else .ok cs
  | [] => .ok []

/-- Passes over a number whose sign has been read. -/
def skipNumber (cs : List Char) : Except Failure (List Char) :=
  match cs with
  | '0' :: rest =>
    if startsWithDigit rest then failOn .badNumber rest else afterInteger rest
  | _ => if startsWithDigit cs then afterInteger (skipDigits cs) else failOn .badNumber cs
where
  afterInteger : List Char → Except Failure (List Char)
    | '.' :: rest =>
      if startsWithDigit rest then skipTail (skipDigits rest) else failOn .badNumber rest
    | rest => skipTail rest

/-- The number of characters of an escape after its backslash. -/
def escapeLength (cs : List Char) : Except Failure Nat :=
  match cs with
  | [] => failAt .endOfString []
  | 'u' :: rest =>
    match rest with
    | a :: b :: c :: d :: _ => if (fourHex? a b c d).isSome then .ok 5 else failHex rest
    | _ => failHex rest
  | c :: _ => if (shortEscape? c).isSome then .ok 1 else failOn .badEscape cs

/-- Passes over a string after its opening quote; the first `skip` characters have been read. -/
def skipString : Nat → List Char → Except Failure (List Char)
  | _, [] => failAt .endOfString []
  | skip + 1, _ :: rest => skipString skip rest
  | 0, c :: rest =>
    if c = '"' then .ok rest
    else if c = '\\' then do
      let n ← escapeLength rest
      skipString n rest
    else if c.toNat < 32 then failAt .controlCharacter (c :: rest)
    else skipString 0 rest

inductive Container where
  | list
  | object
  deriving DecidableEq, Repr

/-- Passes over a key and its colon. -/
def skipKey (cs : List Char) : Except Failure (List Char) :=
  match skipBlank cs with
  | '"' :: rest => do readColon (← skipString 0 rest)
  | [] => failOn .endOfObject []
  | other => failOn .keyNotString other

/-- What follows a skipped value: closes containers until a comma asks for the next value. The
answer is `none` when the outermost value is complete. -/
def afterValue : List Container → List Char → Except Failure (Option (List Container) × List Char)
  | [], cs => .ok (none, cs)
  | .list :: outer, cs =>
    match skipBlank cs with
    | ']' :: rest => afterValue outer rest
    | ',' :: rest => .ok (some (.list :: outer), rest)
    | [] => failOn .endOfList []
    | other => failOn .listCommaOrEnd other
  | .object :: outer, cs =>
    match skipBlank cs with
    | '\x7d' :: rest => afterValue outer rest
    | ',' :: rest => do return (some (.object :: outer), ← skipKey rest)
    | [] => failOn .endOfObject []
    | other => failOn .objectCommaOrEnd other

/-- Starts a value: a scalar is passed over, and a container that is not empty is entered. -/
def startValue (stack : List Container) (cs : List Char) :
    Except Failure (Option (List Container) × List Char) :=
  match skipBlank cs with
  | [] => failOn .endOfValue []
  | 'n' :: rest => do afterValue stack (← readWord ['u', 'l', 'l'] rest)
  | 't' :: rest => do afterValue stack (← readWord ['r', 'u', 'e'] rest)
  | 'f' :: rest => do afterValue stack (← readWord ['a', 'l', 's', 'e'] rest)
  | '"' :: rest => do afterValue stack (← skipString 0 rest)
  | '-' :: rest => do afterValue stack (← skipNumber rest)
  | '[' :: rest =>
    match skipBlank rest with
    | ']' :: after => afterValue stack after
    | [] => failOn .endOfList []
    | _ => .ok (some (.list :: stack), rest)
  | '\x7b' :: rest =>
    match skipBlank rest with
    | '\x7d' :: after => afterValue stack after
    | [] => failOn .endOfObject []
    | _ => do return (some (.object :: stack), ← skipKey rest)
  | c :: rest =>
    if isDigit c then do afterValue stack (← skipNumber (c :: rest))
    else failOn .valueExpected (c :: rest)

def skipFrom : Nat → List Container → List Char → Except Failure (List Char)
  | 0, _, cs => failOn .endOfValue cs
  | fuel + 1, stack, cs => do
    match ← startValue stack cs with
    | (none, rest) => return rest
    | (some stack, rest) => skipFrom fuel stack rest

/-- Passes over one value. -/
def skipValue (cs : List Char) : Except Failure (List Char) := skipFrom (cs.length + 1) [] cs

end OpenApiServer.Json
