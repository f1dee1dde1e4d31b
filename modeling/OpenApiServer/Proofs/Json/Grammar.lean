import OpenApiServer.Json.Reader

/-!
# The grammar of JSON

Which texts are values, strings and numbers, apart from any reader of them; only the range of
numbers is left to their reader. A value has no blanks around it; between the parts of a list or an
object blanks are free. Lists and objects nest at most `depth` levels.
-/

namespace OpenApiServer.Json

def Blank (cs : List Char) : Prop := ∀ c ∈ cs, isBlank c = true

instance (cs : List Char) : Decidable (Blank cs) :=
  List.decidableBAll (isBlank · = true) cs

/-! ## Strings -/

/-- What stands after a backslash. -/
inductive IsEscape : List Char → Prop
  | short {c : Char} (known : (shortEscape? c).isSome = true) : IsEscape [c]
  | unit {a b c d : Char} {n : Nat} (digits : fourHex? a b c d = some n)
      (high : isHighSurrogate n = false) (low : isLowSurrogate n = false) :
      IsEscape ['u', a, b, c, d]
  | pair {a b c d a' b' c' d' : Char} {n m : Nat} (digits : fourHex? a b c d = some n)
      (high : isHighSurrogate n = true) (digits' : fourHex? a' b' c' d' = some m)
      (low : isLowSurrogate m = true) :
      IsEscape ['u', a, b, c, d, '\\', 'u', a', b', c', d']

/-- What stands after an opening quote, up to and with the closing one. -/
inductive IsString : List Char → Prop
  | close : IsString ['"']
  | plain {c : Char} {cs : List Char} (quote : c ≠ '"') (backslash : c ≠ '\\')
      (control : 32 ≤ c.toNat) (rest : IsString cs) : IsString (c :: cs)
  | escape {e cs : List Char} (first : IsEscape e) (rest : IsString cs) :
      IsString ('\\' :: (e ++ cs))

/-! ## Numbers -/

def IsDigits (cs : List Char) : Prop := cs ≠ [] ∧ ∀ c ∈ cs, isDigit c = true

/-- Digits that do not start with a zero, or a zero alone. -/
def IsWhole (cs : List Char) : Prop := IsDigits cs ∧ (cs.head? = some '0' → cs = ['0'])

inductive IsFraction : List Char → Prop
  | absent : IsFraction []
  | present {digits : List Char} (h : IsDigits digits) : IsFraction ('.' :: digits)

def IsSign (cs : List Char) : Prop := cs = [] ∨ cs = ['+'] ∨ cs = ['-']

inductive IsExponent : List Char → Prop
  | absent : IsExponent []
  | present {mark : Char} {sign digits : List Char} (letter : isExponentMark mark = true)
      (signed : IsSign sign) (h : IsDigits digits) : IsExponent (mark :: (sign ++ digits))

/-- A number without its minus. -/
inductive IsNumeral : List Char → Prop
  | parts {whole fraction exponent : List Char} (hwhole : IsWhole whole)
      (hfraction : IsFraction fraction) (hexponent : IsExponent exponent) :
      IsNumeral (whole ++ (fraction ++ exponent))

/-- A numeral that is read, and is then found to be beyond all doubles. -/
def OutOfRange (negative : Bool) (cs : List Char) : Prop :=
  ∃ f, readNumber negative cs = .error f ∧ f.fault = .numberRange

/-- Whether a number goes on with a character: with a digit, with the mark of an exponent if it has
none yet, and with a point if it has neither. -/
def continues (number : List Char) (c : Char) : Bool :=
  isDigit c ||
    (!number.any isExponentMark && (isExponentMark c || (c == '.' && !number.contains '.')))

/-- Whether a value that is a number goes on with what follows it. -/
def Continued (text rest : List Char) : Prop :=
  (text.head?.any fun c => c == '-' || isDigit c) = true ∧ rest.head?.any (continues text) = true

/-! ## Values -/

inductive IsScalar : List Char → Prop
  | null : IsScalar ['n', 'u', 'l', 'l']
  | true : IsScalar ['t', 'r', 'u', 'e']
  | false : IsScalar ['f', 'a', 'l', 's', 'e']
  | string {cs : List Char} (h : IsString cs) : IsScalar ('"' :: cs)
  | negative {cs : List Char} (h : IsNumeral cs) (range : ¬OutOfRange Bool.true cs) :
      IsScalar ('-' :: cs)
  | positive {cs : List Char} (h : IsNumeral cs) (range : ¬OutOfRange Bool.false cs) : IsScalar cs

/-- Items and the commas between them. -/
inductive Separated (item : List Char → Prop) : List Char → Prop
  | last {text after : List Char} (h : item text) (hafter : Blank after) :
      Separated item (text ++ after)
  | more {text after before items : List Char} (h : item text) (hafter : Blank after)
      (hbefore : Blank before) (rest : Separated item items) :
      Separated item (text ++ (after ++ ',' :: (before ++ items)))

inductive Bracketed (first last : Char) (item : List Char → Prop) : List Char → Prop
  | empty {blanks : List Char} (h : Blank blanks) : Bracketed first last item
      (first :: (blanks ++ [last]))
  | filled {blanks items : List Char} (h : Blank blanks) (hitems : Separated item items) :
      Bracketed first last item (first :: (blanks ++ (items ++ [last])))

/-- A key and its value. -/
inductive IsEntry (value : List Char → Prop) : List Char → Prop
  | intro {key before after text : List Char} (hkey : IsString key) (hbefore : Blank before)
      (hafter : Blank after) (h : value text) :
      IsEntry value ('"' :: (key ++ (before ++ ':' :: (after ++ text))))

def IsValue : Nat → List Char → Prop
  | 0, cs => IsScalar cs
  | depth + 1, cs =>
    IsScalar cs ∨ Bracketed '[' ']' (IsValue depth) cs ∨
      Bracketed '\x7b' '\x7d' (IsEntry (IsValue depth)) cs

/-- A text that is one value, with nothing but blanks around it. -/
inductive IsDocument : List Char → Prop
  | intro {before text after : List Char} (hbefore : Blank before) (h : IsValue maxDepth text)
      (hafter : Blank after) : IsDocument (before ++ (text ++ after))

/-- A text that starts with a value, whatever stands after it. -/
inductive StartsWithValue : List Char → Prop
  | intro {before text after : List Char} (hbefore : Blank before) (h : IsValue maxDepth text)
      (hafter : ¬Continued text after) : StartsWithValue (before ++ (text ++ after))

end OpenApiServer.Json
