import OpenApiServer.Code.Basic
import OpenApiServer.Layout.Basic
import OpenApiServer.Text.Basic
import OpenApiServer.Text.Quoted

/-!
# How code is laid out

The layout of each part of the generated code. Arguments and bodies go to lines of their own four
columns further in; a chain of fields and methods is broken before every dot, except after a short
name at the start of a line; an arm of a match gets braces when its expression does not fit.
-/

namespace OpenApiServer.Code

open Layout (step cut space hard glue hardBack spaceBack stack fill stackWithin listed hardLines)

/-! ## Types and patterns -/

mutual

def CodeType.layout : CodeType → List Layout
  | .path name [] => [.text name]
  | .path name args =>
    .text name :: .text "<" :: listed Layout.step (layoutTypes args) ++ [.text ">"]
  | .binding name value => .text (name ++ " = ") :: value.layout
  | .reference mark target => .text ("&" ++ mark) :: target.layout
  | .some bounds => .text "impl " :: ((layoutTypes bounds).intersperse [.text " + "]).flatten

def layoutTypes : List CodeType → List (List Layout)
  | [] => []
  | t :: rest => t.layout :: layoutTypes rest

end

mutual

def Pattern.layout : Pattern → List Layout
  | .word text => [.text text]
  | .tuple name parts =>
    .text name :: .text "(" :: listed Layout.step (layoutPatterns parts) ++ [.text ")"]

def layoutPatterns : List Pattern → List (List Layout)
  | [] => []
  | p :: rest => p.layout :: layoutPatterns rest

end

/-! ## Expressions -/

namespace Expr

/-- The longest name after which a chain at the start of a line is not broken. -/
def shortName : Nat := 4

def isNameChar (c : Char) : Bool := c.isAlphanum || c == '_'

def isShortName : Expr → Bool
  | .word text => text.utf8ByteSize ≤ shortName && text.toList.all isNameChar
  | _ => false

/-- Whether the expression brings its own brackets. -/
def isBlocklike : Expr → Bool
  | .block _ => true
  | .closure _ _ => true
  | .record _ _ => true
  | _ => false

/-- Whether a closure has braces around the expression when it does not fit. -/
def bracesInClosure : Expr → Bool
  | .call _ _ => false
  | .cases _ _ => false
  | e => !e.isBlocklike

/-- Whether the expression ends with a semicolon as a statement. -/
def endsStatement : Expr → Bool
  | .assign _ _ => true
  | .giveBack _ => true
  | _ => false

/-- Whether what follows the expression goes to a new line if the expression is broken. -/
def breaksAtEnd : Expr → Bool
  | .await _ => true
  | .field _ _ => true
  | .method _ _ _ => true
  | .binary _ _ _ => true
  | .assign _ _ => true
  | .call function _ => function.breaksAtEnd
  | .attempt inner => inner.breaksAtEnd
  | .reference inner => inner.breaksAtEnd
  | .deref inner => inner.breaksAtEnd
  | .giveBack inner => inner.breaksAtEnd
  | _ => false

end Expr

/-- Where an expression stands: by itself, at the start of a line, or as the owner in a chain. -/
structure Place where
  startsLine : Bool
  inChain : Bool

namespace Place

def inner : Place := ⟨false, false⟩

def lineStart : Place := ⟨true, false⟩

/-- The place of the owner of a field or a method. -/
def owner (p : Place) : Place := { p with inChain := true }

/-- A chain is one group with all its parts. -/
def chain (p : Place) (body : List Layout) : List Layout :=
  if p.inChain then body else [stack Layout.step body]

/-- What is no chain is a group of its own in a chain. -/
def atom (p : Place) (body : List Layout) : List Layout :=
  if p.inChain then [stack (-Layout.step) body] else body

/-- The break before a dot. -/
def dot (p : Place) (owner : Expr) : List Layout :=
  if p.startsLine && owner.isShortName then [] else [cut]

/-- The offset of the arguments of a method. -/
def argsOffset (p : Place) (owner : Expr) : Int :=
  if !p.inChain && p.startsLine && owner.isShortName then -Layout.step else 0

end Place

/-- Braces around an expression that are written only where it does not fit. -/
def bracesIfBroken (joint : Option Char) (e : Expr) (body : List Layout) : Layout :=
  let opening : LineBreak := { LineBreak.blank 0 with before := some '\x7b' }
  let closing : LineBreak :=
    ⟨0, -Layout.step, if e.endsStatement then some ';' else none, "\x7d", joint, false⟩
  stack Layout.step (.lineBreak opening :: body ++ [.lineBreak closing])

/-- Arguments; a single argument with brackets of its own is written as it is. -/
def argsLayout (args : List Expr) (layouts : List (List Layout)) : List Layout :=
  match args with
  | [e] => if e.isBlocklike then layouts.flatten else listed Layout.step layouts
  | _ => listed Layout.step layouts

/-- Fields between braces, in one line only up to a width. -/
def recordLayout (name : String) (fields : List (List Layout)) : List Layout :=
  if fields.isEmpty then [.text name, .text " \x7b\x7d"]
  else
    let last := LineBreak.withComma ((LineBreak.blank 1).shift (-Layout.step))
    [stackWithin 34 Layout.step (.text name :: .text " \x7b" :: space ::
      Layout.commaSeparated fields ++ [.lineBreak last]), .text "\x7d"]

/-- Braces around statements; a single result may stay on the line. -/
def braced (body : List Stmt) (layouts : List (List Layout)) : List Layout :=
  match body with
  | [] => [.text "\x7b\x7d"]
  | [.result _] => .text "\x7b" :: space :: layouts.flatten ++ [spaceBack, .text "\x7d"]
  | _ => .text "\x7b" :: space :: (layouts.intersperse [hard]).flatten ++ [hardBack, .text "\x7d"]

mutual

def Expr.layout (p : Place) : Expr → List Layout
  | .word text => p.atom [.text text]
  | .reference inner => p.atom (.text "&" :: inner.layout .inner)
  | .deref inner => p.atom (.text "*" :: inner.layout .inner)
  | .field owner name => p.chain (owner.layout p.owner ++ p.dot owner ++ [.text ("." ++ name)])
  | .await inner => p.chain (inner.layout p.owner ++ p.dot inner ++ [.text ".await"])
  | .attempt inner => inner.layout p ++ [.text "?"]
  | .call function args =>
    let place : Place := if p.inChain then ⟨false, true⟩ else p
    function.layout place ++ .text "(" :: argsLayout args (layoutExprs args) ++ [.text ")"]
  | .method owner name args =>
    p.chain (owner.layout p.owner ++ p.dot owner ++
      [.text ("." ++ name), stack (p.argsOffset owner)
        (.text "(" :: argsLayout args (layoutExprs args) ++ [.text ")"])])
  | .closure params body =>
    let names := Layout.commaSeparated (params.map fun name => [.text name])
    let head := .text "|" :: (if params.isEmpty then [] else [cut]) ++ names ++
      [.text "|", spaceBack]
    let body := if body.bracesInClosure then
        [bracesIfBroken none body (body.layout .inner)]
      else body.layout .inner
    p.atom [fill 0 (stack Layout.step head :: glue :: body)]
  | .record name fields => p.atom (recordLayout name (layoutFields fields))
  | .binary left op right =>
    p.atom [fill Layout.step (fill (-Layout.step) (left.layout .inner) :: space :: .text op ::
      .text " " :: right.layout .inner)]
  | .assign target value =>
    p.atom [fill 0 (target.layout .inner ++ .text " = " :: glue :: value.layout .inner)]
  | .block body => p.atom [stack Layout.step (braced body (layoutStmts body))]
  | .cases subject arms =>
    p.atom [fill 0 (.text "match " :: stack 0 (subject.layout .inner ++
      [if subject.breaksAtEnd then space else .text " "]) ::
      [.text "\x7b", glue, stack Layout.step (hardLines (layoutArms arms)), .text "\x7d"])]
  | .choose condition yes no =>
    p.atom [stack Layout.step (.text "if " :: stack 0 (condition.layout .inner ++
      [if condition.breaksAtEnd then space else .text " "]) ::
      braced yes (layoutStmts yes) ++ .text " else " :: braced no (layoutStmts no))]
  | .giveBack value => p.atom (.text "return " :: value.layout .inner)

def layoutExprs : List Expr → List (List Layout)
  | [] => []
  | e :: rest => e.layout .inner :: layoutExprs rest

def FieldValue.layout : FieldValue → List Layout
  | .same name => [.text name]
  | .given name value => [.text (name ++ ": "), fill 0 (value.layout .inner)]

def layoutFields : List FieldValue → List (List Layout)
  | [] => []
  | f :: rest => f.layout :: layoutFields rest

def Arm.layout : Arm → List Layout
  | .mk pattern (.block body) =>
    [fill 0 (pattern.layout ++ [.text " => ", .text "\x7b", glue,
      stack Layout.step (hardLines (layoutStmts body)), .text "\x7d"])]
  | .mk pattern body =>
    [fill 0 (pattern.layout ++ [.text " => ", glue,
      bracesIfBroken (some ',') body (body.layout .lineStart)])]

def layoutArms : List Arm → List (List Layout)
  | [] => []
  | arm :: rest => arm.layout :: layoutArms rest

def Stmt.layout : Stmt → List Layout
  | .bind pattern value =>
    [fill 0 (.text "let " :: pattern.layout ++ .text " = " :: glue :: value.layout .inner ++
      [.text ";"])]
  | .bindOr pattern value otherwise =>
    [fill 0 (.text "let " :: pattern.layout ++ .text " = " :: glue :: value.layout .inner ++
      [space, .text "else "]), glue,
      stack Layout.step (braced otherwise (layoutStmts otherwise)), .text ";"]
  | .run value => [fill 0 (value.layout .lineStart ++ [.text ";"])]
  | .result value => [fill 0 (value.layout .lineStart)]

def layoutStmts : List Stmt → List (List Layout)
  | [] => []
  | s :: rest => s.layout :: layoutStmts rest

end

/-! ## Attributes -/

/-- Whether comment marks are balanced in a text, given how many are open. -/
def marksBalanced : Nat → List Char → Bool
  | depth, '/' :: '*' :: rest => marksBalanced (depth + 1) rest
  | 0, '*' :: '/' :: _ => false
  | depth + 1, '*' :: '/' :: rest => marksBalanced depth rest
  | depth, _ :: rest => marksBalanced depth rest
  | depth, [] => depth = 0

/-- Whether a text can stand in a block comment. -/
def fitsBlockComment (cs : List Char) : Bool :=
  marksBalanced 0 cs && cs.getLast? != some '/' && cs.head? != some '*' && cs.head? != some '/'

def dropBlanksAtEnd (cs : List Char) : List Char := Text.dropEndWhile (· == ' ') cs

/-- Drops the blanks at the ends of all lines but the last. -/
def trimInnerLines (cs : List Char) : String :=
  let lines := (Text.splitOn '\n' cs).map String.ofList
  Text.joinWith "\n" (lines.dropLast.map (fun s => String.ofList (dropBlanksAtEnd s.toList)) ++
    lines.getLast?.toList)

/-- The layout of a comment: a line comment if it has one line, else a block comment. -/
def docLayout (doc : String) : List Layout :=
  let cs := doc.toList
  if !cs.contains '\n' && cs.head? != some '/' then
    [.text "///", .text (String.ofList (dropBlanksAtEnd cs)), hard]
  else if fitsBlockComment cs then [.text "/**", .text (trimInnerLines cs), .text "*/", hard]
  else [.text "#[", .text "doc", .text " = ", .text (Text.literal doc), .text "]", space]

def Attribute.layout : Attribute → List Layout
  | .doc text => docLayout text
  | .mark name => [.text "#[", .text name, .text "]", space]
  | .listed name args =>
    .text "#[" :: .text name :: .text "(" ::
      stack Layout.step (cut :: Layout.commaSeparated (args.map fun a => [.text a]) ++
        [.lineBreak ((LineBreak.blank 0).shift (-Layout.step))]) :: [.text ")", .text "]", space]

def layoutAttributes (attributes : List Attribute) : List Layout :=
  attributes.flatMap Attribute.layout

/-! ## Items -/

def FieldItem.layout (f : FieldItem) : List Layout :=
  layoutAttributes f.attributes ++ .text f.visibility.text :: .text f.name :: .text ": " ::
    f.type.layout ++ [.text ","]

def VariantItem.layout (v : VariantItem) : List Layout :=
  let payload := match v.payload with
    | some type =>
      [stack Layout.step (.text "(" :: listed Layout.step [type.layout] ++ [.text ")"])]
    | none => []
  layoutAttributes v.attributes ++ .text v.name :: payload ++ [.text ","]

def ParamItem.layout (p : ParamItem) : List Layout :=
  match p.type with
  | some type => .text p.name :: .text ": " :: type.layout
  | none => [.text p.name]

def Bound.layout (b : Bound) : List Layout :=
  let offset := if b.bounds.length = 1 then 0 else Layout.step
  [.text b.type, .text ":", fill offset
    (.text " " :: ((layoutTypes b.bounds).intersperse [space, .text "+ "]).flatten), .text ","]

/-- The bounds between a signature and its body. -/
def boundsLayout (bounds : List Bound) : List Layout :=
  if bounds.isEmpty then [.text " "]
  else hardBack :: .text "where" :: hardLines (bounds.map Bound.layout)

def FunctionItem.layout (f : FunctionItem) : List Layout :=
  let typeParams := if f.typeParams.isEmpty then []
    else .text "<" :: listed 0 (f.typeParams.map fun t => [.text t]) ++ [.text ">"]
  let result := match f.result with
    | some type => .text " -> " :: type.layout
    | none => []
  let signature := .text f.visibility.text :: .text (if f.isAsync then "async fn " else "fn ") ::
    .text f.name :: typeParams ++ .text "(" :: glue :: listed 0 (f.params.map ParamItem.layout) ++
    [.text ")", stack (-Layout.step) result]
  let body := match f.body with
    | some stmts => boundsLayout f.bounds ++ .text "\x7b" :: hardLines (layoutStmts stmts) ++
        [.text "\x7d"]
    | none => [.text ";"]
  layoutAttributes f.attributes ++ [stack Layout.step (signature ++ body)]

def ImplItem.layout : ImplItem → List Layout
  | .function f => f.layout
  | .type name value =>
    [stack Layout.step [.text "type ", .text name, .text " = ", glue,
      fill (-Layout.step) value.layout, .text ";"]]

/-- A head and a body in braces. -/
def bodyLayout (head : List Layout) (lines : List (List Layout)) : Layout :=
  stack Layout.step (head ++ .text " \x7b" :: hardLines lines ++ [.text "\x7d"])

def Item.layout : Item → List Layout
  | .module visibility name => [.text visibility.text, .text "mod ", .text name, .text ";"]
  | .useAll path => [.text "use ", .text path, .text "::*;"]
  | .useNames visibility path names =>
    let last := LineBreak.withComma ((LineBreak.blank 0).shift (-Layout.step))
    [.text visibility.text, .text "use ", .text path, .text "::", .text "\x7b",
      stack Layout.step [cut, fill 0 (Layout.commaSeparated (names.map fun n => [.text n])),
        .lineBreak last], .text "\x7d", .text ";"]
  | .typeAlias attributes visibility name value =>
    layoutAttributes attributes ++ [stack Layout.step [.text visibility.text, .text "type ",
      .text name, .text " = ", glue, fill (-Layout.step) value.layout, .text ";"]]
  | .struct attributes visibility name fields =>
    layoutAttributes attributes ++ [bodyLayout [.text visibility.text, .text "struct ", .text name]
      (fields.map FieldItem.layout)]
  | .enum attributes visibility name variants =>
    layoutAttributes attributes ++ [bodyLayout [.text visibility.text, .text "enum ", .text name]
      (variants.map VariantItem.layout)]
  | .impl none type items =>
    [bodyLayout [fill (-Layout.step) (.text "impl" :: .text " " :: type.layout)]
      (items.map ImplItem.layout)]
  | .impl (some base) type items =>
    [bodyLayout [fill (-Layout.step) (.text "impl" :: .text " " :: base.layout ++ space ::
      .text "for " :: type.layout)] (items.map ImplItem.layout)]
  | .interface attributes visibility name bounds items =>
    let bounds := ((layoutTypes bounds).intersperse [.text " + "]).flatten
    layoutAttributes attributes ++ [bodyLayout (.text visibility.text :: .text "trait " ::
      .text name :: .text ": " :: bounds) (items.map ImplItem.layout)]
  | .static name type value =>
    [stack 0 (.text "static " :: .text name :: .text ": " :: type.layout ++ .text " = " :: glue ::
      value.layout .inner ++ [.text ";"])]
  | .function f => f.layout

/-- The text of a file: each item ends its line. -/
def render (items : List Item) : String :=
  Layout.render (items.flatMap fun item => item.layout ++ [hard])

end OpenApiServer.Code
