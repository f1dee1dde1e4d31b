import OpenApiServer.Proofs.Build.Arms
import OpenApiServer.Proofs.Name.Words
import OpenApiServer.Proofs.Server.Coherence
import OpenApiServer.Proofs.Server.Enumerations
import OpenApiServer.Proofs.Server.Redeclaring
import OpenApiServer.Proofs.Server.SharedFields

/-!
# The variants of a union

A union has one variant for each arm of its schema, and which variant an arm gets can be told from the
arm and the finished registry. Tags do not repeat, so that an object has the tag of one variant at most,
and neither do variant names. So the payloads are distinct types, which is to be seen from how they are
written: a text of a type with a declared name in it is the text of no other type.

## Types by their texts
-/

namespace OpenApiServer

/-- A word is not the text of a list, an option or a box. -/
theorem TypeName.IsWord.ne_wrapped {name : TypeName} (h : name.IsWord) (before after : String) :
    name.text ≠ before ++ "<" ++ after := by
  intro htext
  have hmem : '<' ∈ name.text.toList := by simp [htext]
  have hletter := h.chars _ hmem
  revert hletter
  decide

namespace TypeExpr

/-- Whether the declared names in a type are words. -/
def Worded (t : TypeExpr) : Prop := ∀ name ∈ t.names, name.IsWord

theorem text_inj {a b : TypeExpr} (ha : a.Worded) (hb : b.Worded) (hdeclared : a.isBuiltin = false)
    (hdeclared' : b.isBuiltin = false) (h : a.text = b.text) : a = b := by
  induction a generalizing b with
  | primitive => cases hdeclared
  | named name =>
    have hword := ha name (List.mem_singleton_self _)
    cases b with
    | primitive => cases hdeclared'
    | named => exact congrArg named (congrArg TypeName.mk h)
    | list inner => exact absurd h (hword.ne_wrapped "Vec" (inner.text ++ ">"))
    | option inner => exact absurd h (hword.ne_wrapped "Option" (inner.text ++ ">"))
    | box inner => exact absurd h (hword.ne_wrapped "Box" (inner.text ++ ">"))
  | list inner ih =>
    cases b with
    | primitive => cases hdeclared'
    | named name =>
      have hword := hb name (List.mem_singleton_self _)
      exact absurd h.symm (hword.ne_wrapped "Vec" (inner.text ++ ">"))
    | list other => exact congrArg list (ih ha hb hdeclared hdeclared' (by simpa [text] using h))
    | option | box => exact absurd (congrArg (·.toList.head?) h) (by simp [text])
  | option inner ih =>
    cases b with
    | primitive => cases hdeclared'
    | named name =>
      have hword := hb name (List.mem_singleton_self _)
      exact absurd h.symm (hword.ne_wrapped "Option" (inner.text ++ ">"))
    | option other =>
      exact congrArg option (ih ha hb hdeclared hdeclared' (by simpa [text] using h))
    | list | box => exact absurd (congrArg (·.toList.head?) h) (by simp [text])
  | box inner ih =>
    cases b with
    | primitive => cases hdeclared'
    | named name =>
      have hword := hb name (List.mem_singleton_self _)
      exact absurd h.symm (hword.ne_wrapped "Box" (inner.text ++ ">"))
    | box other => exact congrArg box (ih ha hb hdeclared hdeclared' (by simpa [text] using h))
    | list | option => exact absurd (congrArg (·.toList.head?) h) (by simp [text])

/-- In the code a list, an option and a box have an argument, other than a declared name. -/
theorem code_inj {a b : TypeExpr} (hdeclared : a.isBuiltin = false)
    (hdeclared' : b.isBuiltin = false) (h : a.code = b.code) : a = b := by
  induction a generalizing b with
  | primitive => cases hdeclared
  | named name =>
    cases b with
    | primitive => cases hdeclared'
    | named other =>
      rw [code, code, Code.CodeType.path.injEq] at h
      exact congrArg named (congrArg TypeName.mk h.1)
    | _ => simp [code] at h
  | list inner ih =>
    cases b with
    | primitive => cases hdeclared'
    | list other => exact congrArg list (ih hdeclared hdeclared' (by simpa [code] using h))
    | _ => simp [code] at h
  | option inner ih =>
    cases b with
    | primitive => cases hdeclared'
    | option other => exact congrArg option (ih hdeclared hdeclared' (by simpa [code] using h))
    | _ => simp [code] at h
  | box inner ih =>
    cases b with
    | primitive => cases hdeclared'
    | box other => exact congrArg box (ih hdeclared hdeclared' (by simpa [code] using h))
    | _ => simp [code] at h

end TypeExpr

namespace Build

variable {d : Document}

/-- The names in a type are those of named schemas or made from the suggested name. -/
theorem Placed.worded {steps : Nat} {node : Json} {suggested : TypeName} {place : Place}
    (h : Placed d steps node suggested place) (hsuggested : suggested.IsWord) :
    place.type.Worded := by
  refine h.forall_names (fun _ name _ _ _ => TypeName.isWord_ofText name) fun name _ hinline => ?_
  obtain ⟨lists, rfl⟩ := h.inline_eq hinline
  have hitem (name : TypeName) (hname : name.IsWord) : (name.extend "Item").IsWord :=
    hname.extend (by decide)
  exact Function.Iterate.rec _ hsuggested hitem lists

end Build

/-! ## Unions of a build -/

/-- Whether a union has been drafted from the arms of its schema, and these are not a nullable one. -/
def Registry.Unites (d : Document) (r : Registry) (u : UnionDecl) : Prop :=
  ∃ node arms, r.nodeOf? u.name = some node ∧
    Schema.classify u.name.text node = .ok (.oneOf arms) ∧ Schema.nullableArm? arms = none ∧
      Build.Drafted d r u.name arms ⟨some u.layout, u.variants⟩

namespace Registry.Unites

variable {d : Document} {r r' : Registry} {u : UnionDecl}

theorem remembers (h : r.Unites d u) (hremembers : r.Remembers r') : r'.Unites d u := by
  obtain ⟨node, arms, hnode, hclassify, hseveral, hdrafted⟩ := h
  exact ⟨node, arms, hremembers.nodeOf? hnode, hclassify, hseveral, hdrafted.remembers hremembers⟩

end Registry.Unites

namespace Build

variable {d : Document} {r r' : Registry} {root : Json} (hdoc : Document.ofJson root = .ok d)
  (hroot : d.root.DistinctKeys)

include hdoc hroot

/-- What the declared unions have been drafted from. -/
theorem unites_accompanies : Accompanies d (·.Recorded d) fun r =>
    ∀ u, .union u ∈ r.types → r.Unites d u where
  registered r hrun _ := by
    obtain ⟨-, htypes⟩ := registerSchemas_sound hdoc hrun
    simp [htypes]
  operation r r' _ _ _ _ _ _ _ h hrun := by
    have hregisters := buildOperation_registers hrun
    rw [hregisters.types]
    exact fun u hu => (h u hu).remembers hregisters.toRemembers
  taken r _ h u hu := (h u hu).remembers r.remembers_taken
  declared r s p t hrecorded h hnode hrun u hu := by
    have hdeclares := declare_declares hdoc hroot hrecorded.toKept hnode hrun
    have hremembers := hdeclares.remembers.trans (s.remembers_declared (s.types ++ [t]))
    rw [hdeclares.types_eq] at hu
    rcases List.mem_append.1 hu with hold | hnew
    · exact (h u hold).remembers hremembers
    · obtain rfl := List.mem_singleton.1 hnew
      cases declaresBy_of_declare hrun with
      | @union arms _ _ classified run several =>
        obtain ⟨hname, hdrafted⟩ := buildUnion_drafted hdoc hroot hrecorded.toKept run
        rw [← hname] at classified hdrafted hnode
        exact ⟨p.node, arms, hremembers.nodeOf? hnode, classified, several,
          hdrafted.remembers (s.remembers_declared _)⟩

end Build

namespace UnionDecl

variable {u : UnionDecl}

/-- The variant by which a union presents an arm: the arm reads under the layout of the union, the
variant has its tag and the type of its payload, which is found again without a change to the registry,
and it is named after this type. -/
inductive Presents (u : UnionDecl) (d : Document) (r : Registry) (arm : Json) :
    UnionVariant → Prop where
  | arm {reading : Build.ArmReading} {type : TypeExpr}
    (reads : Build.Reads d u.name u.layout arm reading)
    (typed : Build.typeOf d reading.payload (reading.suggested u.name) r = .ok (type, r)) :
    Presents u d r arm ⟨type.variantName, reading.tag, type⟩

/-- No object has the tags of two variants. -/
theorem length_tagged_le (h : (u.variants.map (·.tag)).Nodup) (j : Json) :
    (u.variants.filter fun v => j.string u.tagField == some v.tag).length ≤ 1 := by
  generalize hpicked : u.variants.filter (fun v => j.string u.tagField == some v.tag) = picked
  have hnodup : (picked.map (·.tag)).Nodup := h.sublist (hpicked ▸ List.filter_sublist.map _)
  have hsame : ∀ v ∈ picked, j.string u.tagField = some v.tag := by
    intro v hv
    rw [← hpicked] at hv
    exact beq_iff_eq.1 (List.mem_filter.1 hv).2
  rcases picked with _ | ⟨v, _ | ⟨w, rest⟩⟩
  · exact Nat.zero_le 1
  · exact Nat.le_refl 1
  · have htag := (hsame v (by simp)).symm.trans (hsame w (by simp))
    simp [Option.some.inj htag] at hnodup

theorem isBuiltin_of_mem_convertible {v : UnionVariant} (hv : v ∈ u.convertible) :
    v.payload.isBuiltin = false := by
  have hdeclared := (List.mem_filter.1 hv).2
  simpa using hdeclared

/-- Distinct declared payloads are written differently. -/
theorem nodup_texts (h : (u.variants.map (·.payload)).Nodup)
    (hworded : ∀ v ∈ u.variants, v.payload.Worded) :
    (u.convertible.map (·.payload.text)).Nodup := by
  rw [List.Nodup, List.pairwise_map] at h ⊢
  refine (h.sublist List.filter_sublist).imp_of_mem fun {v w} hv hw hne htext => hne ?_
  exact TypeExpr.text_inj (hworded v (List.mem_of_mem_filter hv)) (hworded w (List.mem_of_mem_filter hw))
    (isBuiltin_of_mem_convertible hv) (isBuiltin_of_mem_convertible hw) htext

/-- No conversion into a union is implemented twice. -/
theorem nodup_fromSources (h : (u.variants.map (·.payload)).Nodup) (visibility : Code.Visibility) :
    (((Code.union visibility u).filterMap Code.Item.fromPair?).map (·.1)).Nodup := by
  have hsources : ((Code.union visibility u).filterMap Code.Item.fromPair?).map (·.1) =
      u.convertible.map (·.payload.code) := by
    rw [Code.fromPairs_union, Declaration.fromPairs, Declaration.sources, List.map_map, List.map_map,
      List.map_map]
    rfl
  rw [hsources]
  rw [List.Nodup, List.pairwise_map] at h ⊢
  refine (h.sublist List.filter_sublist).imp_of_mem fun {v w} hv hw hne hcode => hne ?_
  exact TypeExpr.code_inj (isBuiltin_of_mem_convertible hv) (isBuiltin_of_mem_convertible hw) hcode

end UnionDecl

variable {root : Json} {d : Document} {basePath : String} {m : ServerModel}

namespace Build.Drafted

variable {r : Registry} {union : TypeName} {arms : List Json} {layout : UnionLayout}
  {variants : List UnionVariant} (h : Drafted d r union arms ⟨some layout, variants⟩)

include h

theorem stands : List.Forall₂ (VariantOf d r union layout) arms variants := by
  cases h with
  | arms _ _ stands => exact stands

theorem nodup_tags : (variants.map (·.tag)).Nodup := by
  cases h with
  | arms _ _ _ tags => exact tags

theorem named : VariantsNamed variants := by
  cases h with
  | arms _ _ stands _ names =>
    refine ⟨fun v hv => ?_, names⟩
    obtain ⟨arm, -, hstands⟩ := exists_of_mem_forall₂ stands hv
    cases hstands
    rfl

theorem worded : ∀ v ∈ variants, v.payload.Worded := by
  intro v hv
  obtain ⟨arm, -, hstands⟩ := exists_of_mem_forall₂ h.stands hv
  cases hstands with
  | arm _ typed =>
    obtain ⟨inline, hplace, -⟩ := typed
    exact (placeFrom_eq_ok_iff.1 hplace).worded (TypeName.isWord_ofFragments _)

end Build.Drafted

namespace Built

/-- Boxing changes no union but for its shared fields. -/
theorem exists_drained_union (b : Built d basePath m) {u : UnionDecl} (hu : .union u ∈ m.types) :
    ∃ shared, .union { u with sharedFields := shared } ∈ b.drained.types := by
  have hbox := b.mem_box hu fun response heq => by cases heq
  obtain ⟨t, ht, hboxed⟩ := exists_of_mem_forall₂ (Boxing.boxed_box _ _) hbox
  cases hboxed with
  | union decl shared => exact ⟨decl.sharedFields, ht⟩

theorem unites (b : Built d basePath m) (hdoc : Document.ofJson root = .ok d)
    (hroot : d.root.DistinctKeys) {u : UnionDecl} (hu : .union u ∈ m.types) :
    b.drained.Unites d u := by
  obtain ⟨shared, hdrained⟩ := b.exists_drained_union hu
  have hunites := (((Build.recorded_invariant hdoc hroot).and
    (Build.unites_accompanies hdoc hroot)).drained b).2
  exact hunites { u with sharedFields := shared } hdrained

end Built

def unionNode (arms : List Json) : Json := .obj [("oneOf", .arr arms)]

def circleArm : Json :=
  taggedArm "circle" (.obj [("properties", .obj [("radius", .obj [("type", .str "number")])])])

def groupArm : Json :=
  taggedArm "group" (.obj [("type", .str "array"),
    ("items", .obj [("$ref", .str "#/components/schemas/Shape")])])

def holeArm : Json := taggedArm "hole" (.obj [("const", .str "empty")])

/-- A union of a record, of a list of itself, and of a constant that could be a tag. -/
def shapes : Json := oneSchema "Shape" (unionNode [circleArm, groupArm, holeArm])

end OpenApiServer
