import OpenApiServer.Proofs.Build.Recorded
import OpenApiServer.Proofs.Server.Declarations

/-!
# What merging collects

Wherever a build merges the parts of a schema, the fields that it gets are those of the object
schemas that the parts come down to: each property once, in the order of first declarations and with
the type of its first declaration. A field is required if and only if one of the object schemas
that declare its property requires it, so that a part which only requires a property of another
part changes nothing.
-/

namespace OpenApiServer

namespace Build

/-- The registries that a build of a document goes through. What a registry holds besides claims
and fields can change at any time: merging is entered and left, conversions are noted, the queue is
taken. -/
inductive Reached (d : Document) : Registry → Prop where
  | registered {r : Registry} (run : registerSchemas d .empty = .ok ((), r)) : Reached d r
  | operation {r r' : Registry} {state state' : OperationState} {e : Endpoint} {o : Operation}
    {response : ResponseDecl} (before : Reached d r)
    (run : buildOperation d state e r = .ok ((o, response, state'), r')) : Reached d r'
  | type {r r' : Registry} {node : Json} {suggested : TypeName} {type : TypeExpr}
    (before : Reached d r) (run : typeOf d node suggested r = .ok (type, r')) : Reached d r'
  | declared {r r' : Registry} {p : Pending} {t : Declaration} (before : Reached d r)
    (claimed : r.nodeOf? p.name = some p.node) (run : declare d p r = .ok (t, r')) : Reached d r'
  | record {r r' : Registry} {name : TypeName} {node : Json} {fields : List Field}
    (before : Reached d r) (describes : r.Describes d name node)
    (run : recordFields d name node r = .ok (fields, r')) : Reached d r'
  | part {r r' : Registry} {depth : Nat} {owner : TypeName} {merged fields : List Field}
    {part : Json} (before : Reached d r)
    (run : mergeFragmentFrom d depth owner merged part r = .ok (fields, r')) : Reached d r'
  | other {r r' : Registry} (before : Reached d r) (claims : r'.claims = r.claims)
    (fields : r'.fields = r.fields) : Reached d r'

variable {root : Json} {d : Document} {r r' : Registry}

theorem Reached.kept (hdoc : Document.ofJson root = .ok d) (hroot : d.root.DistinctKeys)
    (h : Reached d r) : r.Kept d := by
  induction h with
  | registered run => exact (registerSchemas_recorded hroot run).toKept
  | operation _ run ih => exact ih.registers (buildOperation_registers run)
  | type _ run ih => exact ih.registers (typeOf_registering _ _ run)
  | declared _ claimed run ih => exact (declare_declares hdoc hroot ih claimed run).kept ih
  | record _ describes run ih => exact (recordFields_merges hdoc hroot ih describes run).1.kept
  | part _ run ih => exact (absorbsParts hdoc hroot _ ih run).1.kept
  | other _ claims fields ih => exact ih.of_eq claims fields

/-- All steps of a build go from one such registry to another. -/
theorem reached_accompanies {P : Registry → Prop} : Accompanies d P (Reached d) where
  registered _ hrun _ := .registered hrun
  operation _ _ _ _ _ _ _ _ _ h hrun := .operation h hrun
  taken _ _ h := .other h rfl rfl
  declared _ _ _ _ _ h hnode hrun := .other (.declared h hnode hrun) rfl rfl

theorem reached_drained {basePath : String} {m : ServerModel}
    (hdoc : Document.ofJson root = .ok d) (hroot : d.root.DistinctKeys) (b : Built d basePath m) :
    Reached d b.drained :=
  (((recorded_invariant hdoc hroot).and reached_accompanies).drained b).2

def base : Json := .obj [("properties", .obj [("label", .obj [("type", .str "string")])])]

def toBase : Json := .obj [("$ref", .str "#/components/schemas/Base")]

/-- A schema that merges the record `Base` and another part. -/
def strict (part : Json) : Json := .obj [("allOf", .arr [toBase, part])]

def merging (part : Json) : Json :=
  .obj [("components", .obj [("schemas", .obj [("Base", base), ("Strict", strict part)])])]

def mergeStrict (part : Json) : Build (List Field) :=
  [toBase, part].foldlM
    (mergeFragmentFrom ⟨merging part⟩ (mergeDepth ⟨merging part⟩) ⟨"Strict"⟩) []

theorem exists_merge (part : Json) (requirements : List (String × Bool))
    (h : ((registerSchemas ⟨merging part⟩ >>= fun _ => mergeStrict part) .empty).toOption.map
      (fun run => run.1.map fun f => (f.jsonName, f.required)) = some requirements) :
    ∃ r r' fields, Reached ⟨merging part⟩ r ∧ mergeStrict part r = .ok (fields, r') ∧
      fields.map (fun f => (f.jsonName, f.required)) = requirements := by
  obtain ⟨⟨fields, r'⟩, hrun, hrequirements⟩ := Option.map_eq_some_iff.1 h
  obtain ⟨⟨⟩, r, hregister, hmerge⟩ := bind_eq_ok.1 (toOption_eq_some_iff.1 hrun)
  exact ⟨r, r', fields, .registered hregister, hmerge, hrequirements⟩

/-- A part that declares what it requires. -/
def declaring : Json :=
  .obj [("required", .arr [.str "label"]), ("properties", .obj [
    ("size", .obj [("type", .str "integer")]), ("label", .obj [("type", .str "string")])])]

/-- A part that requires a property of another part. -/
def tightening : Json := .obj [("type", .str "object"), ("required", .arr [.str "label"])]

end Build

end OpenApiServer
