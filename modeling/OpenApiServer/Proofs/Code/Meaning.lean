import Mathlib.Tactic.SplitIfs
import OpenApiServer.Code.Server
import OpenApiServer.Http.Router
import OpenApiServer.Text.Quoted

/-!
# What the code of a dispatcher does

An evaluator for the part of the target language in which the tables and the dispatcher of a server
are written. It gets stuck (`none`) on everything else. What does not matter for routing, such as
the body of a request, is one value `other`, and the evaluation ends where the code calls the
application: `asked` is the operation that is called, with the code of its arguments and the
variables that this code sees.

## Literals read back

`unquote?` is how the target language reads a string literal: a backslash starts an escape, which
is a single letter, a code of two hexadecimal digits, or one of any length in braces. Every text is
read back from its literal.
-/

namespace OpenApiServer.Text

/-- Where a reader is in a literal. -/
inductive Reading where
  | plain
  | escaped
  | hex
  | hexAfter (high : Nat)
  | brace
  | code (n : Nat)

def hexValue? (c : Char) : Option Nat :=
  if '0' ≤ c ∧ c ≤ '9' then some (c.toNat - '0'.toNat)
  else if 'a' ≤ c ∧ c ≤ 'f' then some (c.toNat - 'a'.toNat + 10)
  else if 'A' ≤ c ∧ c ≤ 'F' then some (c.toNat - 'A'.toNat + 10)
  else none

def shortEscape? : Char → Option Char
  | 't' => some '\t'
  | 'r' => some '\r'
  | 'n' => some '\n'
  | '0' => some '\x00'
  | '"' => some '"'
  | '\'' => some '\''
  | '\\' => some '\\'
  | _ => none

/-- The character of a code, before what has been read after it. -/
def withCode (n : Nat) (read : Option (List Char)) : Option (List Char) :=
  if n.isValidChar then read.map (Char.ofNat n :: ·) else none

/-- Reads a literal after its first quote up to its end. -/
def readLiteral : Reading → List Char → Option (List Char)
  | _, [] => none
  | .plain, c :: rest =>
    if c = '"' then if rest.isEmpty then some [] else none
    else if c = '\\' then readLiteral .escaped rest
    else (readLiteral .plain rest).map (c :: ·)
  | .escaped, c :: rest =>
    if c = 'x' then readLiteral .hex rest
    else if c = 'u' then readLiteral .brace rest
    else (shortEscape? c).bind fun d => (readLiteral .plain rest).map (d :: ·)
  | .hex, c :: rest => (hexValue? c).bind fun n => readLiteral (.hexAfter n) rest
  | .hexAfter high, c :: rest =>
    (hexValue? c).bind fun n => withCode (16 * high + n) (readLiteral .plain rest)
  | .brace, c :: rest => if c = '\x7b' then readLiteral (.code 0) rest else none
  | .code n, c :: rest =>
    if c = '\x7d' then withCode n (readLiteral .plain rest)
    else (hexValue? c).bind fun k => readLiteral (.code (16 * n + k)) rest

/-- The text of a literal. -/
def unquote? (word : String) : Option String :=
  match word.toList with
  | '"' :: rest => (readLiteral .plain rest).map String.ofList
  | _ => none

theorem hexValue?_digitChar {n : Nat} (h : n < 16) : hexValue? n.digitChar = some n := by
  have : ∀ n < 16, hexValue? n.digitChar = some n := by decide
  exact this n h

theorem digitChar_ne_brace {n : Nat} (h : n < 16) : n.digitChar ≠ '\x7d' := by
  have : ∀ n < 16, n.digitChar ≠ '\x7d' := by decide
  exact this n h

theorem readLiteral_digit {n k : Nat} (h : k < 16) (rest : List Char) :
    readLiteral (.code n) (k.digitChar :: rest) = readLiteral (.code (16 * n + k)) rest := by
  rw [readLiteral, if_neg (digitChar_ne_brace h), hexValue?_digitChar h]
  rfl

/-- By induction on the number without its last digit. -/
theorem readLiteral_hexDigits (n : Nat) (rest : List Char) :
    readLiteral (.code 0) (hexDigits n ++ rest) = readLiteral (.code n) rest := by
  induction n using Nat.strongRecOn generalizing rest with
  | ind n ih =>
    unfold hexDigits
    rcases Nat.lt_or_ge n 16 with hlt | hge
    · rw [Nat.toDigits_of_lt_base hlt, List.singleton_append, readLiteral_digit hlt]
      simp
    · rw [Nat.toDigits_of_base_le (by decide) hge, List.append_assoc]
      have hlast : n % 16 < 16 := Nat.mod_lt _ (by decide)
      have hfront := ih (n / 16) (by omega) ((n % 16).digitChar :: rest)
      rw [hexDigits] at hfront
      rw [List.singleton_append, hfront, readLiteral_digit hlast, Nat.div_add_mod]

theorem withCode_toNat (c : Char) (read : Option (List Char)) :
    withCode c.toNat read = read.map (c :: ·) := by
  have hvalid : c.toNat.isValidChar := c.valid
  rw [withCode, if_pos hvalid, Char.ofNat_toNat]

theorem readLiteral_codeEscape (c : Char) (rest : List Char) :
    readLiteral .plain (codeEscape c ++ rest) = (readLiteral .plain rest).map (c :: ·) := by
  have hcode : codeEscape c ++ rest =
      '\\' :: 'u' :: '\x7b' :: (hexDigits c.toNat ++ '\x7d' :: rest) := by
    simp [codeEscape]
  rw [hcode, ← withCode_toNat]
  simp [readLiteral, readLiteral_hexDigits]

theorem readLiteral_escape (c : Char) (rest : List Char) :
    readLiteral .plain (escape c ++ rest) = (readLiteral .plain rest).map (c :: ·) := by
  unfold escape
  split_ifs with htab hreturn hline hquote hslash hcode
  · subst htab; rfl
  · subst hreturn; rfl
  · subst hline; rfl
  · subst hquote; rfl
  · subst hslash; rfl
  · exact readLiteral_codeEscape c rest
  · rw [List.singleton_append, readLiteral, if_neg hquote, if_neg hslash]

theorem readLiteral_literalBody (cs : List Char) :
    readLiteral .plain (literalBody cs ++ ['"']) = some cs := by
  induction cs with
  | nil => rfl
  | cons c rest ih =>
    rw [literalBody]
    split_ifs with hnul hoctal
    · subst hnul
      have hcode : readLiteral .plain ('\\' :: 'x' :: '0' :: '0' :: (literalBody rest ++ ['"'])) =
          (readLiteral .plain (literalBody rest ++ ['"'])).map ('\x00' :: ·) := rfl
      simpa [ih] using hcode
    · subst hnul
      have hshort : readLiteral .plain ('\\' :: '0' :: (literalBody rest ++ ['"'])) =
          (readLiteral .plain (literalBody rest ++ ['"'])).map ('\x00' :: ·) := rfl
      simpa [ih] using hshort
    · rw [List.append_assoc, readLiteral_escape, ih]
      rfl

theorem unquote?_literal (s : String) : unquote? (literal s) = some s := by
  unfold unquote? literal
  rw [String.toList_ofList, List.cons_append]
  simp [readLiteral_literalBody]

end OpenApiServer.Text

/-! ## Words and values -/

namespace OpenApiServer.Code

/-- What a word stands for. Only paths have colons. -/
inductive Word where
  | literal (text : String)
  | path (text : String)
  | name (text : String)
  deriving DecidableEq

def Word.read (word : String) : Word :=
  match Text.unquote? word with
  | some text => .literal text
  | none => if Text.contains ':' word then .path word else .name word

inductive Value where
  | text (s : String)
  | flag (b : Bool)
  | path (p : String)
  | pair (first second : Value)
  | record (name : String) (fields : List (String × Value))
  | failure (error : Value)
  | router (r : Http.Router String)
  | found (m : Option (Http.RouteMatch String))
  | matched (m : Http.RouteMatch String)
  | request (method path : String)
  | uri (path : String)
  /-- What a method gives that changes its owner: the owner after it. -/
  | changed (owner : Value)
  | api
  | asked (operation : String) (args : List Expr) (vars : List (String × Value))
  | other

/-- An evaluation ends with the value of the code, or leaves the function with one. -/
inductive Outcome where
  | value (v : Value)
  | left (v : Value)

def Outcome.value? : Option Outcome → Option Value
  | some (.value v) => some v
  | _ => none

namespace Value

def field? (name : String) : Value → Option Value
  | .record _ fields => fields.lookup name
  | .matched m => if name = "value" then some (.path m.value) else none
  | _ => none

def method? (name : String) (args : List Value) : Value → Option Value
  | .request m target =>
    if name = "into_parts" then
      some (.pair (.record "Parts" [("method", .text m), ("uri", .uri target)]) .other)
    else none
  | .uri target =>
    if name = "path" then some (.text target) else if name = "query" then some .other else none
  | .text s => if name ∈ ["as_str", "to_string", "clone"] then some (.text s) else none
  | .router r =>
    match args with
    | [.text target] => if name = "at" then some (.found (r.at? target)) else none
    | [.text template, .path v] =>
      if name = "insert" then some (.changed (.router (r.afterInsert template v))) else none
    | _ => none
  | .found m => if name = "is_some" then some (.flag m.isSome) else none
  | .asked operation args vars =>
    if name ∈ ["map_err", "into_http_response"] then some (.asked operation args vars) else none
  | _ => none

/-- The value without its failure; what is asked of the application is taken to succeed. -/
def attempt? : Value → Option Value
  | .asked operation args vars => some (.asked operation args vars)
  | _ => none

end Value

/-- The variables that a word binds to a value, if it matches. -/
def bindWord? (word : String) (v : Value) : Option (List (String × Value)) :=
  match Word.read word, v with
  | .literal s, .text t => if s = t then some [] else none
  | .path p, .path q => if p = q then some [] else none
  | .name n, v => if n = "_" then some [] else some [(if n = "mut router" then "router" else n, v)]
  | _, _ => none

def Pattern.bind? : Pattern → Value → Option (List (String × Value))
  | .word w, v => bindWord? w v
  | .tuple name [.word w], .found (some m) =>
    if name = "Some" then bindWord? w (.matched m) else none
  | .tuple name [.word w, .word w'], .pair a b =>
    if name = "" then do return (← bindWord? w a) ++ (← bindWord? w' b) else none
  | _, _ => none

/-- What a piece of code sees: variables and functions. -/
structure Scope where
  vars : List (String × Value)
  functions : String → List Value → Option Value

namespace Scope

def bind (s : Scope) (vars : List (String × Value)) : Scope := { s with vars := vars ++ s.vars }

def word? (s : Scope) (word : String) : Option Value :=
  match Word.read word with
  | .literal text => some (.text text)
  | .path p => some (.path p)
  | .name n => if n = "false" then some (.flag false) else s.vars.lookup n

def call? (s : Scope) (function : String) (args : List Value) : Option Value :=
  if function = "support::Router::new" then some (.router .empty)
  else if function = "std::sync::LazyLock::new" then args.head?
  else if function = "support::QueryParams::parse" then some .other
  else if function = "Err" then args.head?.map .failure
  else s.functions function args

end Scope

/-- The variable that a method of it changes. -/
def ownerName : Expr → String
  | .method (.word x) _ _ => x
  | _ => ""

mutual

def eval (s : Scope) : Expr → Option Outcome
  | .word w => (s.word? w).map .value
  | .reference inner => eval s inner
  | .await inner => eval s inner
  | .closure _ body => eval s body
  | .attempt inner => ((Outcome.value? (eval s inner)).bind Value.attempt?).map .value
  | .field owner name => ((Outcome.value? (eval s owner)).bind (Value.field? name)).map .value
  | .method owner name args =>
    match Outcome.value? (eval s owner) with
    | some .api => some (.value (.asked name args s.vars))
    | some v =>
      match v with
      | .asked _ _ _ => (v.method? name []).map .value
      | _ => ((evalAll s args).bind fun args => v.method? name args).map .value
    | none => none
  | .call function args =>
    match function with
    | .word f => ((evalAll s args).bind (s.call? f)).map .value
    | _ => none
  | .record name fields => (evalFields s fields).map fun fields => .value (.record name fields)
  | .binary left op right =>
    if op = "||" then
      match Outcome.value? (eval s left) with
      | some (.flag true) => some (.value (.flag true))
      | some (.flag false) => eval s right
      | _ => none
    else none
  | .block body => run s body
  | .cases subject arms => (Outcome.value? (eval s subject)).bind fun v => select s v arms
  | .choose condition yes no =>
    match Outcome.value? (eval s condition) with
    | some (.flag true) => run s yes
    | some (.flag false) => run s no
    | _ => none
  | .giveBack value => (Outcome.value? (eval s value)).map .left
  | .deref _ => none
  | .assign _ _ => none

def evalAll (s : Scope) : List Expr → Option (List Value)
  | [] => some []
  | e :: rest =>
    (Outcome.value? (eval s e)).bind fun v => (evalAll s rest).map (v :: ·)

def evalFields (s : Scope) : List FieldValue → Option (List (String × Value))
  | [] => some []
  | .same name :: rest =>
    (s.word? name).bind fun v => (evalFields s rest).map ((name, v) :: ·)
  | .given name value :: rest =>
    (Outcome.value? (eval s value)).bind fun v => (evalFields s rest).map ((name, v) :: ·)

/-- The body of the first arm that matches. -/
def select (s : Scope) (v : Value) : List Arm → Option Outcome
  | [] => none
  | .mk pattern body :: rest =>
    match pattern.bind? v with
    | some vars => eval (s.bind vars) body
    | none => select s v rest

def run (s : Scope) : List Stmt → Option Outcome
  | [] => none
  | .result value :: _ => eval s value
  | .run value :: rest =>
    match eval s value with
    | some (.value _) => run s rest
    | other => other
  | .bind pattern value :: rest =>
    match Outcome.value? (eval s value) with
    | some (.changed owner) => run (s.bind [(ownerName value, owner)]) rest
    | some v => (pattern.bind? v).bind fun vars => run (s.bind vars) rest
    | none => none
  | .bindOr pattern value otherwise :: rest =>
    match Outcome.value? (eval s value) with
    | some v =>
      match pattern.bind? v with
      | some vars => run (s.bind vars) rest
      | none => run s otherwise
    | none => none

end

/-! ## Steps of code that the application has no part in -/

namespace Value

/-- Whether the methods of the value are the application's. -/
def isRemote : Value → Bool
  | .api => true
  | .asked _ _ _ => true
  | _ => false

/-- Whether the value is an owner that a method has changed. -/
def isChanged : Value → Bool
  | .changed _ => true
  | _ => false

end Value

section Steps

variable {s : Scope} {v w : Value}

/-- A word that is the name of a variable has its value. -/
theorem eval_variable {name : String} (hread : Word.read name = .name name) (hne : name ≠ "false")
    (h : s.vars.lookup name = some v) : eval s (.word name) = some (.value v) := by
  simp only [eval, Scope.word?, hread, if_neg hne, h, Option.map_some]

theorem evalAll_singleton {e : Expr} (h : eval s e = some (.value v)) :
    evalAll s [e] = some [v] := by
  simp only [evalAll, h, Outcome.value?, Option.bind_some, Option.map_some]

theorem eval_field {owner : Expr} {name : String} (howner : eval s owner = some (.value v))
    (hfield : v.field? name = some w) : eval s (.field owner name) = some (.value w) := by
  simp only [eval, howner, Outcome.value?, Option.bind_some, hfield, Option.map_some]

theorem eval_call {function : String} {args : List Expr} {values : List Value}
    (hargs : evalAll s args = some values) (hcall : s.call? function values = some w) :
    eval s (.call (.word function) args) = some (.value w) := by
  simp only [eval, hargs, Option.bind_some, hcall, Option.map_some]

theorem eval_method {owner : Expr} {name : String} {args : List Expr} {values : List Value}
    (howner : eval s owner = some (.value v)) (hargs : evalAll s args = some values)
    (hmethod : v.method? name values = some w) (hremote : v.isRemote = false) :
    eval s (.method owner name args) = some (.value w) := by
  rw [eval, howner]
  cases v with
  | api => cases hremote
  | asked operation args vars => cases hremote
  | _ => simp only [Outcome.value?, hargs, Option.bind_some, hmethod, Option.map_some]

theorem run_bind {pattern : Pattern} {value : Expr} {vars : List (String × Value)}
    (hvalue : eval s value = some (.value v)) (hchanged : v.isChanged = false)
    (hpattern : pattern.bind? v = some vars) (rest : List Stmt) :
    run s (.bind pattern value :: rest) = run (s.bind vars) rest := by
  rw [run, hvalue]
  cases v with
  | changed owner => cases hchanged
  | _ => simp only [Outcome.value?, hpattern, Option.bind_some]

end Steps

/-- What a function ends with, by either way. -/
def Outcome.result : Outcome → Value
  | .value v => v
  | .left v => v

/-- The statics of a file; each starts from no variables. -/
def staticsOf (items : List Item) : List (String × Value) :=
  items.filterMap fun
    | .static name _ value =>
      (Outcome.value? (eval ⟨[], fun _ _ => none⟩ value)).map fun v => (name, v)
    | _ => none

/-- The functions of a file. A function sees the statics and the functions after it; in the files
that are generated none calls one before it. -/
def functionsOf (statics : List (String × Value)) :
    List Item → String → List Value → Option Value
  | [] => fun _ _ => none
  | .function f :: rest => fun name args =>
    if name = f.name then
      f.body.bind fun body =>
        (run ⟨(f.params.map (·.name)).zip args ++ statics, functionsOf statics rest⟩ body).map
          Outcome.result
    else functionsOf statics rest name args
  | _ :: rest => functionsOf statics rest

/-- What the dispatcher of a file answers to a request. -/
def dispatched (items : List Item) (method path : String) : Option Value :=
  functionsOf (staticsOf items) items "dispatch" [.api, .request method path]

end OpenApiServer.Code
