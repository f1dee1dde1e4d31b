import OpenApiServer.BuildError
import OpenApiServer.Http.Router

/-!
# Path templates

A template such as `/items/{id}` is split into whole segments, each a fixed text or a placeholder;
no placeholder occurs twice. Its shape forgets the names of the placeholders: two templates of one
shape match the same paths.
-/

namespace OpenApiServer

structure PathTemplate where
  text : String
  segments : List Http.Segment
  deriving DecidableEq, Repr

namespace PathTemplate
open Http (Segment isBrace)

def segmentOf (cs : List Char) : Except PathFlaw Segment :=
  match (Text.dropStart? ['\x7b'] cs).bind (Text.dropEnd? ['\x7d']) with
  | some [] => .error (.emptyPlaceholder (String.ofList cs))
  | some name =>
    if name.any isBrace then .error (.nestedBraces (String.ofList cs))
    else .ok (.placeholder (String.ofList name))
  | none =>
    if cs.any isBrace then .error (.partialPlaceholder (String.ofList cs))
    else .ok (.fixed (String.ofList cs))

/-- The segments of a template, given the ones before them. -/
def segmentsFrom (before : List Segment) : List (List Char) → Except PathFlaw (List Segment)
  | [] => .ok []
  | cs :: rest => do
    let segment ← segmentOf cs
    match segment with
    | .placeholder name => if segment ∈ before then .error (.repeatedPlaceholder name)
    | .fixed _ => pure ()
    return segment :: (← segmentsFrom (before ++ [segment]) rest)

def parse (text : String) : Except BuildError PathTemplate :=
  if !Text.startsWith text "/" then .error (.invalidPath text .noLeadingSlash)
  else
    match segmentsFrom [] ((Text.splitOn '/' text.toList).filter (!·.isEmpty)) with
    | .ok segments => .ok ⟨text, segments⟩
    | .error flaw => .error (.invalidPath text flaw)

/-- The names of the placeholders. -/
def params (t : PathTemplate) : List String :=
  t.segments.filterMap fun
    | .placeholder name => some name
    | .fixed _ => none

def shapePart : Segment → String
  | .fixed text => text
  | .placeholder _ => "\x7b\x7d"

def shape (t : PathTemplate) : String := "/" ++ Text.joinWith "/" (t.segments.map shapePart)

end PathTemplate

end OpenApiServer
