import OpenApiServer.Json.Fault

/-!
# Reading JSON text

A reader takes the characters that are left and gives a value with the characters after it, or a
failure with its place. Objects and lists nest at most `maxDepth` levels. Integers that fit 64 bits
stay integers; every other number is a double, read with a significand of at most 64 bits.
-/

namespace OpenApiServer.Json

abbrev Reader (α : Type) := List Char → Except Failure (α × List Char)

/-- A failure whose place is just before `rest`. -/
def failAt {α : Type} (fault : Fault) (rest : List Char) : Except Failure α :=
  .error ⟨fault, Utf8.byteCount rest, []⟩

/-- A failure whose place is after the first byte of `rest`, if there is one. -/
def failOn {α : Type} (fault : Fault) (rest : List Char) : Except Failure α :=
  .error ⟨fault, Utf8.byteCount rest - 1, []⟩

def within {α : Type} (step : Step) (r : Except Failure α) : Except Failure α :=
  r.mapError (Failure.under step)

def isBlank (c : Char) : Bool := c == ' ' || c == '\n' || c == '\t' || c == '\r'

def skipBlank (cs : List Char) : List Char := cs.dropWhile isBlank

def isDigit (c : Char) : Bool := '0' ≤ c && c ≤ '9'

def digitValue (c : Char) : Nat := c.toNat - '0'.toNat

def startsWithDigit (cs : List Char) : Bool := cs.head?.any isDigit

def maxDepth : Nat := 127

/-! ## Numbers -/

def significandLimit : Nat := Nat.pow 2 64

def exponentLimit : Nat := Nat.pow 2 31

/-- Takes digits into `value` while it stays below `limit`, and counts them. -/
def gather (limit value count : Nat) : List Char → Nat × Nat × List Char
  | [] => (value, count, [])
  | c :: rest =>
    if isDigit c ∧ value * 10 + digitValue c < limit then
      gather limit (value * 10 + digitValue c) (count + 1) rest
    else (value, count, c :: rest)

def powerOfTen (n : Nat) : Double := Double.ofDecimal 1 n

/-- A magnitude scaled by `10 ^ exponent`, in steps of at most `10 ^ 308`. -/
def scaled : Nat → Double → Int → Option Double
  | 0, x, _ => some x
  | fuel + 1, x, exponent =>
    if exponent.natAbs ≤ 308 then
      if exponent ≥ 0 then
        let y := x.mulMagnitude (powerOfTen exponent.natAbs)
        if y.isFinite then some y else none
      else some (x.divMagnitude (powerOfTen exponent.natAbs))
    else if x.isZero then some x
    else if exponent ≥ 0 then none
    else scaled fuel (x.divMagnitude (powerOfTen 308)) (exponent + 308)

def realOf (negative : Bool) (significand : Nat) (exponent : Int) : Reader Number := fun rest =>
  match scaled 4 (Double.ofNat significand) exponent with
  | some x => .ok (.real (x.withSign negative), rest)
  | none => failAt .numberRange rest

/-- Reads what follows the letter of an exponent. -/
def readExponent (negative : Bool) (significand : Nat) (start : Int) : Reader Number := fun cs =>
  let (down, cs) := match cs with
    | '+' :: rest => (false, rest)
    | '-' :: rest => (true, rest)
    | _ => (false, cs)
  match cs with
  | [] => failAt .endOfValue []
  | c :: rest =>
    if !isDigit c then failOn .badNumber cs
    else
      let (value, _, rest) := gather exponentLimit (digitValue c) 1 rest
      if startsWithDigit rest then
        if significand ≠ 0 ∧ !down then failOn .numberRange rest
        else .ok (.real (Double.zero.withSign negative), rest.dropWhile isDigit)
      else realOf negative significand (if down then start - value else start + value) rest

def isExponentMark (c : Char) : Bool := c == 'e' || c == 'E'

/-- Reads the exponent of a number, if one follows. -/
def readTail (negative : Bool) (significand : Nat) (exponent : Int) : Reader Number := fun cs =>
  match cs with
  | c :: rest =>
    if isExponentMark c then readExponent negative significand exponent rest
    else realOf negative significand exponent cs
  | [] => realOf negative significand exponent cs

/-- Reads what follows the decimal point. -/
def readDecimals (negative : Bool) (significand : Nat) (exponent : Int) : Reader Number := fun cs =>
  let (value, count, rest) := gather significandLimit significand 0 cs
  if startsWithDigit rest then
    readTail negative value (exponent - count) (rest.dropWhile isDigit)
  else if count = 0 then failOn (if rest.isEmpty then .endOfValue else .badNumber) rest
  else readTail negative value (exponent - count) rest

def integerOf (negative : Bool) (n : Nat) : Number :=
  if !negative then .int n
  else if n = 0 ∨ n > Nat.pow 2 63 then .real (Double.ofNat n).neg
  else .int (-n)

/-- Reads a number whose sign has been read. -/
def readNumber (negative : Bool) : Reader Number := fun cs =>
  match cs with
  | [] => failAt .endOfValue []
  | c :: rest =>
    if c = '0' ∧ startsWithDigit rest then failOn .badNumber rest
    else if !isDigit c then failOn .badNumber cs
    else
      let (value, _, rest) := gather significandLimit (digitValue c) 1 rest
      let more := (rest.takeWhile isDigit).length
      let rest := rest.dropWhile isDigit
      match rest with
      | '.' :: after => readDecimals negative value more after
      | c :: _ =>
        if isExponentMark c ∨ more ≠ 0 then readTail negative value more rest
        else .ok (integerOf negative value, rest)
      | [] =>
        if more ≠ 0 then readTail negative value more rest
        else .ok (integerOf negative value, rest)

/-! ## Strings -/

def hexValue? (c : Char) : Option Nat :=
  if '0' ≤ c ∧ c ≤ '9' then some (c.toNat - '0'.toNat)
  else if 'a' ≤ c ∧ c ≤ 'f' then some (c.toNat - 'a'.toNat + 10)
  else if 'A' ≤ c ∧ c ≤ 'F' then some (c.toNat - 'A'.toNat + 10)
  else none

def fourHex? (a b c d : Char) : Option Nat := do
  let a ← hexValue? a
  let b ← hexValue? b
  let c ← hexValue? c
  let d ← hexValue? d
  return a * 4096 + b * 256 + c * 16 + d

/-- The failure of four hexadecimal digits that should start `rest`. -/
def failHex {α : Type} (rest : List Char) : Except Failure α :=
  if Utf8.byteCount rest < 4 then .error ⟨.endOfString, 0, []⟩
  else .error ⟨.badEscape, Utf8.byteCount rest - 4, []⟩

def shortEscape? : Char → Option Char
  | '"' => some '"'
  | '\\' => some '\\'
  | '/' => some '/'
  | 'b' => some '\x08'
  | 'f' => some '\x0c'
  | 'n' => some '\n'
  | 'r' => some '\r'
  | 't' => some '\t'
  | _ => none

def isHighSurrogate (n : Nat) : Bool := 0xd800 ≤ n && n ≤ 0xdbff

def isLowSurrogate (n : Nat) : Bool := 0xdc00 ≤ n && n ≤ 0xdfff

def surrogatePair (high low : Nat) : Char :=
  Char.ofNat ((high - 0xd800) * 1024 + (low - 0xdc00) + 0x10000)

/-- Reads a hexadecimal escape after its letter: the character and the number of characters
that it takes. -/
def readHexEscape (cs : List Char) : Except Failure (Char × Nat) :=
  match cs with
  | a :: b :: c :: d :: rest =>
    match fourHex? a b c d with
    | none => failHex cs
    | some n =>
      if isLowSurrogate n then failAt .loneSurrogate rest
      else if !isHighSurrogate n then .ok (Char.ofNat n, 4)
      else match rest with
        | [] => failAt .endOfString []
        | '\\' :: [] => failAt .endOfString []
        | '\\' :: 'u' :: second =>
          match second with
          | a :: b :: c :: d :: after =>
            match fourHex? a b c d with
            | none => failHex second
            | some m =>
              if isLowSurrogate m then .ok (surrogatePair n m, 10) else failAt .loneSurrogate after
          | _ => failHex second
        | '\\' :: other => failOn .halfSurrogatePair other
        | _ => failOn .halfSurrogatePair rest
  | _ => failHex cs

/-- Reads one escape after its backslash. -/
def readEscape (cs : List Char) : Except Failure (Char × Nat) :=
  match cs with
  | [] => failAt .endOfString []
  | 'u' :: rest => do
    let (c, n) ← readHexEscape rest
    return (c, n + 1)
  | c :: _ =>
    match shortEscape? c with
    | some value => .ok (value, 1)
    | none => failOn .badEscape cs

/-- Reads a string after its opening quote; the first `skip` characters have been read. -/
def stringFrom : Nat → Reader (List Char)
  | _, [] => failAt .endOfString []
  | skip + 1, _ :: rest => stringFrom skip rest
  | 0, c :: rest =>
    if c = '"' then .ok ([], rest)
    else if c = '\\' then do
      let (value, n) ← readEscape rest
      let (text, after) ← stringFrom n rest
      return (value :: text, after)
    else if c.toNat < 32 then failOn .controlCharacter (c :: rest)
    else do
      let (text, after) ← stringFrom 0 rest
      return (c :: text, after)

def readString : Reader String := fun cs => do
  let (text, rest) ← stringFrom 0 cs
  return (String.ofList text, rest)

/-! ## Words, lists and objects -/

/-- Reads the rest of a fixed word. -/
def readWord : List Char → List Char → Except Failure (List Char)
  | [], cs => .ok cs
  | _ :: _, [] => failAt .endOfValue []
  | w :: word, c :: rest => if w = c then readWord word rest else failOn .wordExpected (c :: rest)

section Containers
variable {α σ : Type}

/-- Reads elements up to and with the closing bracket, starting at an element. -/
def elements (element : Reader α) : Nat → Nat → Reader (List α)
  | 0, _, _ => failAt .endOfList []
  | fuel + 1, index, cs => do
    let (x, rest) ← within (.index index) (element cs)
    match skipBlank rest with
    | ']' :: after => return ([x], after)
    | ',' :: after =>
      match skipBlank after with
      | [] => failOn .endOfValue []
      | ']' :: more => failOn .trailingComma (']' :: more)
      | next => do
        let (xs, last) ← elements element fuel (index + 1) next
        return (x :: xs, last)
    | [] => failOn .endOfList []
    | other => failOn .listCommaOrEnd other

/-- Reads a list after its opening bracket. -/
def listBody (element : Reader α) : Reader (List α) := fun cs =>
  match skipBlank cs with
  | ']' :: after => .ok ([], after)
  | [] => failOn .endOfList []
  | first => elements element first.length 0 first

/-- Reads the colon after a key. -/
def readColon (cs : List Char) : Except Failure (List Char) :=
  match skipBlank cs with
  | ':' :: rest => .ok rest
  | [] => failOn .endOfObject []
  | other => failOn .colonExpected other

/-- Folds over the entries of an object, starting after the quote of a key. The entry function
reads from after the key on, the colon included. -/
def entries (entry : σ → String → Reader σ) : Nat → σ → Reader σ
  | 0, _, _ => within .betweenEntries (failAt .endOfObject [])
  | fuel + 1, state, cs => do
    let (key, rest) ← within .betweenEntries (readString cs)
    let (state, rest) ← entry state key rest
    match skipBlank rest with
    | '\x7d' :: after => return (state, after)
    | ',' :: after =>
      match skipBlank after with
      | '"' :: next => entries entry fuel state next
      | '\x7d' :: more => within .betweenEntries (failOn .trailingComma ('\x7d' :: more))
      | [] => within .betweenEntries (failOn .endOfValue [])
      | other => within .betweenEntries (failOn .keyNotString other)
    | [] => within .betweenEntries (failOn .endOfObject [])
    | other => within .betweenEntries (failOn .objectCommaOrEnd other)

/-- Folds over the entries of an object after its opening brace. -/
def objectBody (entry : σ → String → Reader σ) (state : σ) : Reader σ := fun cs =>
  match skipBlank cs with
  | '\x7d' :: after => .ok (state, after)
  | '"' :: first => entries entry first.length state first
  | [] => within .betweenEntries (failOn .endOfObject [])
  | other => within .betweenEntries (failOn .keyNotString other)

end Containers

/-- Adds the entry of a key to the fields read so far. -/
def valueEntry (value : Reader Json) (fields : List (String × Json)) (key : String) :
    Reader (List (String × Json)) := fun cs =>
  within (.key key) do
    let rest ← readColon cs
    let (v, rest) ← value rest
    return (insertField key v fields, rest)

/-- Reads a value with at most `depth` levels of lists and objects. -/
def value : Nat → Reader Json
  | depth, cs =>
    match skipBlank cs with
    | [] => failOn .endOfValue []
    | 'n' :: rest => do return (.null, ← readWord ['u', 'l', 'l'] rest)
    | 't' :: rest => do return (.bool true, ← readWord ['r', 'u', 'e'] rest)
    | 'f' :: rest => do return (.bool false, ← readWord ['a', 'l', 's', 'e'] rest)
    | '"' :: rest => do
      let (s, rest) ← readString rest
      return (.str s, rest)
    | '[' :: rest =>
      match depth with
      | 0 => failOn .tooDeep ('[' :: rest)
      | depth + 1 => do
        let (items, rest) ← listBody (value depth) rest
        return (.arr items, rest)
    | '\x7b' :: rest =>
      match depth with
      | 0 => failOn .tooDeep ('\x7b' :: rest)
      | depth + 1 => do
        let (fields, rest) ← objectBody (valueEntry (value depth)) [] rest
        return (.obj fields, rest)
    | '-' :: rest => do
      let (n, rest) ← readNumber true rest
      return (.num n, rest)
    | c :: rest =>
      if isDigit c then do
        let (n, rest) ← readNumber false (c :: rest)
        return (.num n, rest)
      else failOn .valueExpected (c :: rest)

/-- Reads a whole text: one value, and nothing but blanks around it. -/
def parse (cs : List Char) : Except Failure Json := do
  let (v, rest) ← value maxDepth cs
  match skipBlank rest with
  | [] => return v
  | other => failOn .trailingCharacters other

end OpenApiServer.Json
