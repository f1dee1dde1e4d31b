/-!
# Cutting and trimming text

Functions on lists of characters with their `String` forms. `splitOn` gives one piece more than
there are separators, `lines` ends a line at each line feed and drops a carriage return before it,
and `trim` takes away every blank of Unicode at both ends.
-/

namespace OpenApiServer.Text

/-- The pieces between the separators; there is always at least one. -/
def splitOn (sep : Char) : List Char → List (List Char)
  | [] => [[]]
  | c :: rest =>
    if c = sep then [] :: splitOn sep rest
    else match splitOn sep rest with
      | [] => [[c]]
      | piece :: pieces => (c :: piece) :: pieces

/-- What is before and after the first separator. -/
def splitFirst? (sep : Char) : List Char → Option (List Char × List Char)
  | [] => none
  | c :: rest =>
    if c = sep then some ([], rest)
    else (splitFirst? sep rest).map fun (before, after) => (c :: before, after)

def dropStart? : List Char → List Char → Option (List Char)
  | [], cs => some cs
  | _ :: _, [] => none
  | p :: ps, c :: cs => if p = c then dropStart? ps cs else none

def dropEnd? (ending cs : List Char) : Option (List Char) :=
  (dropStart? ending.reverse cs.reverse).map List.reverse

/-- What is before and after the first occurrence of a text. -/
def splitAround? (sep : List Char) : List Char → Option (List Char × List Char)
  | [] => (dropStart? sep []).map fun rest => ([], rest)
  | c :: rest =>
    match dropStart? sep (c :: rest) with
    | some after => some ([], after)
    | none => (splitAround? sep rest).map fun (before, after) => (c :: before, after)

/-- Replaces every occurrence of a two-character text, from left to right. -/
def replacePair (a b : Char) (value : List Char) : List Char → List Char
  | [] => []
  | [c] => [c]
  | c :: d :: rest =>
    if c = a ∧ d = b then value ++ replacePair a b value rest
    else c :: replacePair a b value (d :: rest)

/-- The characters with the Unicode property White_Space. -/
def isSpace (c : Char) : Bool :=
  (0x09 ≤ c.toNat && c.toNat ≤ 0x0d) || c.toNat == 0x20 || c.toNat == 0x85 || c.toNat == 0xa0 ||
  c.toNat == 0x1680 || (0x2000 ≤ c.toNat && c.toNat ≤ 0x200a) || c.toNat == 0x2028 ||
  c.toNat == 0x2029 || c.toNat == 0x202f || c.toNat == 0x205f || c.toNat == 0x3000

def dropEndWhile (p : Char → Bool) (cs : List Char) : List Char :=
  (cs.reverse.dropWhile p).reverse

def trimChars (cs : List Char) : List Char := dropEndWhile isSpace (cs.dropWhile isSpace)

def trim (s : String) : String := String.ofList (trimChars s.toList)

def trimEnd (s : String) : String := String.ofList (dropEndWhile isSpace s.toList)

def dropReturn (cs : List Char) : List Char := (dropEnd? ['\r'] cs).getD cs

/-- The lines of a text; a line end at the end of the text starts no further line. -/
def lines (s : String) : List String :=
  let pieces := splitOn '\n' s.toList
  let ended := pieces.dropLast.map dropReturn
  let last := pieces.getLast?.getD []
  (if last.isEmpty then ended else ended ++ [last]).map String.ofList

def lower (s : String) : String := String.ofList (s.toList.map Char.toLower)

def upper (s : String) : String := String.ofList (s.toList.map Char.toUpper)

def startsWith (s start : String) : Bool := (dropStart? start.toList s.toList).isSome

def contains (c : Char) (s : String) : Bool := s.toList.contains c

def joinWith (sep : String) : List String → String
  | [] => ""
  | [s] => s
  | s :: rest => s ++ sep ++ joinWith sep rest

theorem splitOn_ne_nil (sep : Char) (cs : List Char) : splitOn sep cs ≠ [] := by
  cases cs with
  | nil => simp [splitOn]
  | cons c rest =>
    by_cases h : c = sep
    · simp [splitOn, h]
    · cases hs : splitOn sep rest <;> simp [splitOn, h, hs]

end OpenApiServer.Text
