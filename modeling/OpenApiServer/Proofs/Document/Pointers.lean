import OpenApiServer.Proofs.Document.References
import OpenApiServer.Proofs.Http.Integer

/-!
# Pointers to the nodes of a document

A path leads into a value by keys of objects and by indices of lists. Written as a pointer, with
tildes and slashes escaped, it resolves to the node that it leads to. A pointer that names a schema
resolves to what `components.schemas` has under that name.
-/

namespace OpenApiServer

namespace Text

variable {a b c d : Char} {value rest : List Char}

theorem replacePair_pair : replacePair a b value (a :: b :: rest) =
    value ++ replacePair a b value rest := by
  rw [replacePair, if_pos ⟨rfl, rfl⟩]

theorem replacePair_cons_ne (h : c ≠ a) :
    replacePair a b value (c :: rest) = c :: replacePair a b value rest := by
  cases rest with
  | nil => rfl
  | cons d rest => rw [replacePair, if_neg fun hpair => h hpair.1]

theorem replacePair_cons_cons_ne (h : d ≠ b) :
    replacePair a b value (c :: d :: rest) = c :: replacePair a b value (d :: rest) := by
  rw [replacePair, if_neg fun hpair => h hpair.2]

end Text

namespace Pointer

/-! ## Segments -/

/-- A key with its tildes escaped, and its slashes as they are. -/
def escapeTildes (cs : List Char) : List Char :=
  cs.flatMap fun c => if c = '~' then ['~', '0'] else [c]

/-- The first replacement puts the slashes back. -/
theorem replacePair_escape (cs : List Char) :
    Text.replacePair '~' '1' ['/'] (cs.flatMap escapeChar) = escapeTildes cs := by
  induction cs with
  | nil => rfl
  | cons c rest ih =>
    rw [List.flatMap_cons, escapeTildes, List.flatMap_cons, ← escapeTildes, ← ih]
    by_cases htilde : c = '~'
    · subst htilde
      exact (Text.replacePair_cons_cons_ne (by decide)).trans
        (congrArg _ (Text.replacePair_cons_ne (by decide)))
    · by_cases hslash : c = '/'
      · subst hslash
        exact Text.replacePair_pair
      · rw [escapeChar, if_neg htilde, if_neg hslash, if_neg htilde]
        exact Text.replacePair_cons_ne htilde

/-- The second replacement puts the tildes back. -/
theorem replacePair_escapeTildes (cs : List Char) :
    Text.replacePair '~' '0' ['~'] (escapeTildes cs) = cs := by
  induction cs with
  | nil => rfl
  | cons c rest ih =>
    rw [escapeTildes, List.flatMap_cons, ← escapeTildes]
    by_cases htilde : c = '~'
    · subst htilde
      exact Text.replacePair_pair.trans (congrArg _ ih)
    · rw [if_neg htilde]
      exact (Text.replacePair_cons_ne htilde).trans (congrArg _ ih)

theorem unescape_escape (key : String) : unescape (escape key) = key := by
  rw [unescape, escape, replacePair_escape, replacePair_escapeTildes, String.ofList_toList]

theorem slash_not_mem_escape (key : String) : '/' ∉ escape key := by
  intro h
  obtain ⟨c, -, hc⟩ := List.mem_flatMap.1 h
  unfold escapeChar at hc
  split_ifs at hc with htilde hslash
  · simp at hc
  · simp at hc
  · exact hslash (List.mem_singleton.1 hc).symm

theorem index?_toString {n : Nat} (h : n < 2 ^ 64) : index? (toString n) = some n := by
  have hfits : Http.Fits .u64 (toString n).toList n := by
    rw [Nat.toString_eq_ofList_toDigits, String.toList_ofList]
    have hdigits := Http.digits_toDigits n
    refine ⟨?_, ?_, fun hminus => absurd hminus hdigits.head_ne_sign.2⟩
    · have htext := Http.IntegerText.unsigned hdigits
      rwa [Http.decimal_toDigits] at htext
    · have hhigh : Json.IntegerRange.u64.high = 2 ^ 64 - 1 := rfl
      have hlow : Json.IntegerRange.u64.low = 0 := rfl
      simp only [Json.IntegerRange.contains, hhigh, hlow, Bool.and_eq_true, decide_eq_true_eq]
      omega
  rw [index?, (Http.Scalar.parseInteger_eq_ok_iff (by decide) (by decide)).2 hfits]
  rfl

/-! ## Paths -/

/-- A step into a value, to the field of a key or to the item at an index. An index is a machine word,
as the length of a list is. -/
inductive Step where
  | field (key : String)
  | item (i : UInt64)

/-- The text of a step before it is escaped. -/
def Step.text : Step → String
  | .field key => key
  | .item i => toString i.toNat

/-- A path leads from a value to a node in it. -/
inductive Leads : Json → List Step → Json → Prop where
  | here (node : Json) : Leads node [] node
  | field {fields : List (String × Json)} {key : String} {value node : Json} {path : List Step}
    (found : fieldNamed? key fields = some value) (more : Leads value path node) :
    Leads (.obj fields) (.field key :: path) node
  | item {items : List Json} {i : UInt64} {value node : Json} {path : List Step}
    (found : items[i.toNat]? = some value) (more : Leads value path node) :
    Leads (.arr items) (.item i :: path) node

/-- The pointer that is written for a path. -/
def ofPath (path : List Step) : String :=
  String.ofList ('#' :: path.flatMap fun s => '/' :: escape s.text)

theorem splitOn_path (first : String) (path : List Step) :
    Text.splitOn '/' (escape first ++ path.flatMap fun s => '/' :: escape s.text) =
      escape first :: path.map fun s => escape s.text := by
  induction path generalizing first with
  | nil => simpa using Text.splitOn_eq_singleton (slash_not_mem_escape first)
  | cons s rest ih =>
    rw [List.flatMap_cons, List.cons_append, Text.splitOn_append_sep,
      Text.splitOn_eq_singleton (slash_not_mem_escape first), ih]
    rfl

theorem keys?_ofPath (path : List Step) : keys? (ofPath path) = some (path.map Step.text) := by
  cases path with
  | nil => rfl
  | cons s rest =>
    have hkeys : keys? (ofPath (s :: rest)) = some ((Text.splitOn '/'
        (escape s.text ++ rest.flatMap fun s => '/' :: escape s.text)).map unescape) := by
      rw [keys?, ofPath, String.toList_ofList]
      rfl
    rw [hkeys, splitOn_path, List.map_cons, List.map_map, List.map_cons, unescape_escape]
    congr 2
    exact List.map_congr_left fun s _ => unescape_escape s.text

theorem follow_of_leads {root node : Json} {path : List Step} (h : Leads root path node) :
    follow root (path.map Step.text) = some node := by
  induction h with
  | here => rfl
  | field found _ ih =>
    rw [List.map_cons, follow, step, Step.text, found]
    exact ih
  | @item _ i _ _ _ found _ ih =>
    rw [List.map_cons, follow, step, Step.text, index?_toString i.toNat_lt, Option.bind_some, found]
    exact ih

end Pointer

namespace Document

open Pointer (Leads ofPath schemaName?)

theorem resolve_ofPath {d : Document} {path : List Pointer.Step} {node : Json}
    (h : Leads d.root path node) : d.resolve (ofPath path) = .ok node := by
  rw [resolve, Pointer.resolve?, Pointer.keys?_ofPath, Option.bind_some, Pointer.follow_of_leads h]

/-- A node resolves from the pointer that is written for any path to it, whatever characters the keys
on the path have. A pointer that names a schema resolves exactly if there is a schema of that name,
and then to this schema. -/
theorem nodes_resolved_by_path {root : Json} {d : Document} (hdoc : ofJson root = .ok d) :
    (∀ path node, Leads d.root path node → d.resolve (ofPath path) = .ok node) ∧
    ∀ pointer name, schemaName? pointer = some name →
      ((∃ node, d.resolve pointer = .ok node) ↔ name ∈ d.schemas.map (·.1)) ∧
      ∀ node, d.resolve pointer = .ok node ↔ fieldNamed? name d.schemas = some node := by
  refine ⟨fun path node => resolve_ofPath, fun pointer name hname => ⟨?_, fun node => ?_⟩⟩
  · simp only [resolve_schema_eq_ok_iff hdoc hname]
    rw [← Option.isSome_iff_exists, Option.isSome_iff_ne_none, Ne, fieldNamed?_eq_none_iff,
      not_not]
  · exact resolve_schema_eq_ok_iff hdoc hname

/-- A document with an empty key, a key of a tilde, a zero and a slash, and a schema whose name looks
escaped. -/
theorem escaped_keys_resolved :
    let schema := Json.obj [("type", .str "string")]
    let root := Json.obj [("", .arr [.null, .obj [("~0/", .bool true)]]),
      ("components", .obj [("schemas", .obj [("~1", schema)])])]
    ofJson root = .ok ⟨root⟩ ∧ resolve ⟨root⟩ "#//1/~00~1" = .ok (.bool true) ∧
      schemaName? "#/components/schemas/~01" = some "~1" ∧
      resolve ⟨root⟩ "#/components/schemas/~01" = .ok schema := by
  intro schema root
  have hdoc : ofJson root = .ok ⟨root⟩ := rfl
  obtain ⟨hpath, hschema⟩ := nodes_resolved_by_path hdoc
  have hleads : Leads root [.field "", .item 1, .field "~0/"] (.bool true) :=
    .field rfl (.item rfl (.field rfl (.here _)))
  have hname : schemaName? "#/components/schemas/~01" = some "~1" := by decide
  exact ⟨hdoc, hpath _ _ hleads, hname, ((hschema _ _ hname).2 schema).2 rfl⟩

end Document

end OpenApiServer
