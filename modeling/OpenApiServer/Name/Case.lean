/-!
# ASCII spelling of names

Names are spelled in ASCII before anything else is done with them. ASCII characters stay as they
are, the characters of the table have a spelling of their own, and every other character is
dropped.
-/

namespace OpenApiServer.Name

/-- Code points with their ASCII spelling. -/
def asciiTable : List (Nat × String) := [
  (0xa0, " "), (0xad, ""), (0xbd, "1/2"),
  (0xc0, "A"), (0xc1, "A"), (0xc2, "A"), (0xc3, "A"), (0xc4, "A"), (0xc5, "A"), (0xc6, "Ae"),
  (0xc7, "C"), (0xc8, "E"), (0xc9, "E"), (0xca, "E"), (0xcb, "E"), (0xcc, "I"), (0xcd, "I"),
  (0xce, "I"), (0xcf, "I"), (0xd1, "N"), (0xd2, "O"), (0xd3, "O"), (0xd4, "O"), (0xd5, "O"),
  (0xd6, "O"), (0xd8, "O"), (0xd9, "U"), (0xda, "U"), (0xdb, "U"), (0xdc, "U"), (0xdd, "Y"),
  (0xde, "Th"), (0xdf, "ss"),
  (0xe0, "a"), (0xe1, "a"), (0xe2, "a"), (0xe3, "a"), (0xe4, "a"), (0xe5, "a"), (0xe6, "ae"),
  (0xe7, "c"), (0xe8, "e"), (0xe9, "e"), (0xea, "e"), (0xeb, "e"), (0xec, "i"), (0xed, "i"),
  (0xee, "i"), (0xef, "i"), (0xf1, "n"), (0xf2, "o"), (0xf3, "o"), (0xf4, "o"), (0xf5, "o"),
  (0xf6, "o"), (0xf8, "o"), (0xf9, "u"), (0xfa, "u"), (0xfb, "u"), (0xfc, "u"), (0xfd, "y"),
  (0xfe, "th"), (0xff, "y"),
  (0x111, "d"), (0x130, "I"), (0x141, "L"), (0x142, "l"), (0x152, "Oe"), (0x153, "oe"),
  (0x17a, "z"), (0x301, ""), (0x3a9, "O"), (0x3b1, "a"), (0x3b2, "v"), (0x3b3, "g"),
  (0x41f, "P"), (0x432, "v"), (0x435, "e"), (0x438, "i"), (0x43c, "m"), (0x440, "r"),
  (0x442, "t"), (0x200b, ""), (0x2013, "-"), (0x2028, " "), (0x2116, "No"),
  (0x4eac, "Jing"), (0x65e5, "Ri"), (0x672c, "Ben"), (0x6771, "Dong"), (0xad6d, "Gug"),
  (0xd55c, "Han"), (0xfb01, "fi"), (0xff10, "0"), (0xff11, "1"), (0xff21, "A"), (0xffff, ""),
  (0x1f389, ":tada:"), (0x1f600, ":grinning:")]

def asciiOf (c : Char) : List Char :=
  if c.toNat < 128 then [c]
  else match asciiTable.lookup c.toNat with
    | some spelling => spelling.toList
    | none => []

def toAscii (cs : List Char) : List Char := cs.flatMap asciiOf

theorem toAscii_of_ascii {cs : List Char} (h : ∀ c ∈ cs, c.toNat < 128) : toAscii cs = cs := by
  induction cs with
  | nil => rfl
  | cons c rest ih =>
    have hc := h c (by simp)
    have hr := ih fun d hd => h d (by simp [hd])
    simpa [toAscii, asciiOf, hc] using hr

end OpenApiServer.Name

/-!
## Letter case of names

Two ways to write the words of a name. In snake case a new word starts after a character that is
no letter, digit or underscore, and where an uppercase letter follows a lowercase one; a run of
uppercase letters stays together. In Pascal case every character that is no letter or digit
separates words, and only the first letter of a word changes.
-/

namespace OpenApiServer.Name

def isLower (c : Char) : Bool := 'a' ≤ c && c ≤ 'z'

def isUpper (c : Char) : Bool := 'A' ≤ c && c ≤ 'Z'

def isLetter (c : Char) : Bool := isLower c || isUpper c

def isDigit (c : Char) : Bool := '0' ≤ c && c ≤ '9'

def isAlphanumeric (c : Char) : Bool := isLetter c || isDigit c

def isWordChar (c : Char) : Bool := isAlphanumeric c || c == '_'

/-- What came before a character: nothing, a character of a word, or a separator after a word. -/
inductive WordState where
  | start
  | inWord
  | afterSeparator
  deriving DecidableEq, Repr

def WordState.separated : WordState → WordState
  | .start => .start
  | _ => .afterSeparator

/-- Whether an underscore goes before `c`. -/
def breaksBefore (state : WordState) (afterLower : Bool) (c : Char) : Bool :=
  match state with
  | .start => false
  | .afterSeparator => true
  | .inWord => afterLower && isUpper c

def snakeFrom (state : WordState) (afterLower : Bool) : List Char → List Char
  | [] => []
  | c :: rest =>
    if isWordChar c then
      let after := if isLetter c || c == '_' then isLower c else afterLower
      let tail := c.toLower :: snakeFrom .inWord after rest
      if breaksBefore state afterLower c then '_' :: tail else tail
    else snakeFrom state.separated false rest

def snakeChars (cs : List Char) : List Char := snakeFrom .start false (toAscii cs)

def pascalFrom (atWordStart : Bool) : List Char → List Char
  | [] => []
  | c :: rest =>
    if isAlphanumeric c then (if atWordStart then c.toUpper else c) :: pascalFrom false rest
    else pascalFrom true rest

def pascalChars (cs : List Char) : List Char := pascalFrom true (toAscii cs)

/-- The joined fragments in snake case. -/
def snakeCase (fragments : List String) : String :=
  String.ofList (snakeChars (fragments.flatMap String.toList))

/-- The joined fragments in Pascal case. -/
def pascalCase (fragments : List String) : String :=
  String.ofList (pascalChars (fragments.flatMap String.toList))

end OpenApiServer.Name
