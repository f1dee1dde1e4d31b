/-!
# UTF-8

`scan` reads one character from a byte sequence. When the bytes are no character it says how many
of them belong together as a mistake: the longest start of a well-formed sequence, and at least
one byte. `decode` refuses such bytes and `decodeLossy` puts U+FFFD in their place.
-/

namespace OpenApiServer.Utf8

/-- Why bytes are not valid UTF-8: `length` bytes from `index` on, or all that is left. -/
structure Fault where
  index : Nat
  length : Option Nat
  deriving DecidableEq, Repr

def Fault.message (f : Fault) : String :=
  match f.length with
  | some n => "invalid utf-8 sequence of " ++ toString n ++ " bytes from index " ++ toString f.index
  | none => "incomplete utf-8 byte sequence from index " ++ toString f.index

inductive Scan where
  | char (c : Char) (length : Nat)
  | invalid (length : Nat)
  | incomplete
  deriving Repr

def isContinuation (b : UInt8) : Bool := 0x80 ≤ b && b ≤ 0xbf

/-- The second bytes that may follow a first byte of three or four. -/
def secondRange (first : UInt8) : UInt8 × UInt8 :=
  if first = 0xe0 then (0xa0, 0xbf)
  else if first = 0xed then (0x80, 0x9f)
  else if first = 0xf0 then (0x90, 0xbf)
  else if first = 0xf4 then (0x80, 0x8f)
  else (0x80, 0xbf)

def followsFirst (first second : UInt8) : Bool :=
  (secondRange first).1 ≤ second && second ≤ (secondRange first).2

def payload (b : UInt8) : Nat := (b &&& 0x3f).toNat

def scan : List UInt8 → Scan
  | [] => .incomplete
  | a :: rest =>
    if a < 0x80 then .char (Char.ofNat a.toNat) 1
    else if 0xc2 ≤ a && a ≤ 0xdf then
      match rest with
      | [] => .incomplete
      | b :: _ =>
        if isContinuation b then .char (Char.ofNat ((a &&& 0x1f).toNat * 64 + payload b)) 2
        else .invalid 1
    else if 0xe0 ≤ a && a ≤ 0xef then
      match rest with
      | [] => .incomplete
      | b :: rest =>
        if !followsFirst a b then .invalid 1
        else match rest with
          | [] => .incomplete
          | c :: _ =>
            if isContinuation c then
              .char (Char.ofNat ((a &&& 0x0f).toNat * 4096 + payload b * 64 + payload c)) 3
            else .invalid 2
    else if 0xf0 ≤ a && a ≤ 0xf4 then
      match rest with
      | [] => .incomplete
      | b :: rest =>
        if !followsFirst a b then .invalid 1
        else match rest with
          | [] => .incomplete
          | c :: rest =>
            if !isContinuation c then .invalid 2
            else match rest with
              | [] => .incomplete
              | d :: _ =>
                if isContinuation d then
                  .char (Char.ofNat
                    ((a &&& 0x07).toNat * 262144 + payload b * 4096 + payload c * 64 + payload d)) 4
                else .invalid 3
    else .invalid 1

/-- The number of bytes that a scan accounts for when `left` bytes are there. -/
def Scan.width (left : Nat) : Scan → Nat
  | .char _ n => n
  | .invalid n => n
  | .incomplete => left

def decodeFrom (index : Nat) : Nat → List UInt8 → Except Fault (List Char)
  | 0, _ => .ok []
  | _, [] => .ok []
  | fuel + 1, bytes =>
    match scan bytes with
    | .char c n => (c :: ·) <$> decodeFrom (index + n) fuel (bytes.drop n)
    | .invalid n => .error ⟨index, some n⟩
    | .incomplete => .error ⟨index, none⟩

/-- The characters of a byte sequence. -/
def decode (bytes : List UInt8) : Except Fault (List Char) := decodeFrom 0 bytes.length bytes

def decodeLossyFrom : Nat → List UInt8 → List Char
  | 0, _ => []
  | _, [] => []
  | fuel + 1, bytes =>
    let s := scan bytes
    let c := match s with
      | .char c _ => c
      | _ => '\ufffd'
    c :: decodeLossyFrom fuel (bytes.drop (s.width bytes.length))

/-- The characters of a byte sequence with U+FFFD for every mistake. -/
def decodeLossy (bytes : List UInt8) : List Char := decodeLossyFrom bytes.length bytes

/-- The bytes of a text. -/
def encode (cs : List Char) : List UInt8 := cs.flatMap fun c => String.utf8EncodeChar c

/-- The number of bytes of a text. -/
def byteCount : List Char → Nat
  | [] => 0
  | c :: rest => c.utf8Size + byteCount rest

end OpenApiServer.Utf8
