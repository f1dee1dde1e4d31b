import Mathlib.Data.Finite.Prod
import OpenApiServer.Build.Server
import OpenApiServer.Proofs.Build.Merging
import OpenApiServer.Proofs.Build.Places
import OpenApiServer.Proofs.Document.Keys
import OpenApiServer.Proofs.Json.Within
import OpenApiServer.Proofs.Schema.Contexts

/-!
# What a schema holds

A schema holds its properties, items, parts and arms, and a reference that names no component holds
what it refers to; the arms of a union are held with their references followed. What the declaration
of a schema queues is held by it, under a name that is made of its own name and of a text of the
document.
-/

namespace OpenApiServer

/-- Whether schemas of the kind get a declaration of their own where they stand inline. -/
def Schema.Kind.isDeclared : Schema.Kind → Bool
  | .object | .allOf | .oneOf | .stringEnum => true
  | .primitive | .reference | .array => false

namespace Build

open Relation (ReflTransGen TransGen)

variable {d : Document} {node : Json}

/-- Whether a schema has another one inside it, or refers to it other than by naming a component. -/
inductive Holds (d : Document) : Json → Json → Prop where
  | property {context : String} {node : Json} {properties : List (String × Json)}
    {required : List String} {property : String × Json}
    (object : Schema.classify context node = .ok (.object properties required))
    (mem : property ∈ properties) : Holds d node property.2
  | items {context : String} {node items : Json}
    (array : Schema.classify context node = .ok (.array items)) : Holds d node items
  | part {context : String} {node part : Json} {parts : List Json}
    (allOf : Schema.classify context node = .ok (.allOf parts)) (mem : part ∈ parts) :
    Holds d node part
  | nullable {context : String} {node arm : Json} {arms : List Json}
    (oneOf : Schema.classify context node = .ok (.oneOf arms))
    (other : Schema.nullableArm? arms = some arm) : Holds d node arm
  | arm {context : String} {node arm target : Json} {arms : List Json}
    (oneOf : Schema.classify context node = .ok (.oneOf arms))
    (union : Schema.nullableArm? arms = none) (mem : arm ∈ arms)
    (leads : d.dereference arm = .ok target) : Holds d node target
  | target {node target : Json} {pointer : String}
    (refers : Document.reference? node = some pointer)
    (unnamed : Pointer.schemaName? pointer = none) (resolves : d.resolve pointer = .ok target) :
    Holds d node target

/-- What a value of the document holds is a value of the document. -/
theorem Holds.hereditary {N : Json → Prop} (hN : Json.Hereditary N) (hroot : N d.root)
    {held : Json} (h : Holds d node held) (hnode : N node) : N held := by
  cases h with
  | property object mem =>
    exact Schema.forall_nodes hN hnode object _ (List.mem_map_of_mem mem)
  | items array => exact Schema.forall_nodes hN hnode array _ (List.mem_singleton_self _)
  | part allOf mem => exact Schema.forall_nodes hN hnode allOf _ mem
  | nullable oneOf other =>
    exact Schema.forall_nodes hN hnode oneOf _ (Schema.mem_of_nullableArm? other)
  | arm oneOf _ mem leads =>
    exact hN.dereference hroot (Schema.forall_nodes hN hnode oneOf _ mem) leads
  | target _ _ resolves => exact hN.resolve hroot resolves

theorem within_of_holds {held : Json} (hnode : d.root.Within node)
    (h : ReflTransGen (Holds d) node held) : d.root.Within held := by
  induction h with
  | refl => exact hnode
  | tail _ hlast ih => exact hlast.hereditary (Json.hereditary_within _) (.refl _) ih

/-! ## Inline schemas -/

section Inline

variable {steps : Nat} {suggested name : TypeName} {place : Place} {inline : Json}

/-- What a place registers gets a declaration of its own. -/
theorem Placed.isDeclared_inline (h : Placed d steps node suggested place)
    (hinline : place.inline = some (name, inline)) : inline.schemaKind.isDeclared = true := by
  induction h with
  | component | primitive => cases hinline
  | target _ _ _ _ _ ih => exact ih hinline
  | list _ _ ih => exact ih hinline
  | optional _ _ _ ih => exact ih hinline
  | @inline _ _ _ schema classified standsInline =>
    obtain ⟨-, rfl⟩ := Prod.mk.inj (Option.some.inj hinline)
    rw [← Schema.kind_of_classify classified]
    cases schema with
    | object | allOf | oneOf | stringEnum => rfl
    | primitive | reference | array => cases standsInline

theorem Placed.holds (h : Placed d steps node suggested place)
    (hinline : place.inline = some (name, inline)) : ReflTransGen (Holds d) node inline := by
  induction h with
  | component | primitive => cases hinline
  | target refers unnamed _ resolves _ ih =>
    have hreference := (Schema.eq_reference_iff refers).1 rfl
    exact .head (.target hreference unnamed resolves) (ih hinline)
  | list array _ ih => exact .head (.items array) (ih hinline)
  | optional oneOf nullable _ ih => exact .head (.nullable oneOf nullable) (ih hinline)
  | inline =>
    obtain ⟨-, rfl⟩ := Prod.mk.inj (Option.some.inj hinline)
    exact .refl

/-- A schema without a declaration of its own is not the inline schema of its place. -/
theorem Placed.holds_of_alias (h : Placed d steps node suggested place)
    (hkind : node.schemaKind.isDeclared = false)
    (hinline : place.inline = some (name, inline)) : TransGen (Holds d) node inline := by
  rcases Relation.reflTransGen_iff_eq_or_transGen.1 (h.holds hinline) with rfl | hholds
  · rw [h.isDeclared_inline hinline] at hkind
    cases hkind
  · exact hholds

end Inline

/-! ## Parts -/

/-- A part without a component on the way is held with everything on the way. -/
theorem Traverses.holds_of_inline {component last : Option TypeName} {target : Json}
    (h : Traverses d component node last target) (hlast : last = none) :
    ReflTransGen (Holds d) node target ∧ component = none := by
  induction h with
  | done => exact ⟨.refl, hlast⟩
  | named _ _ _ _ ih => cases (ih hlast).2
  | unnamed reference unnamed resolves _ ih =>
    obtain ⟨hholds, hcomponent⟩ := ih hlast
    exact ⟨.head (.target reference unnamed resolves) hholds, hcomponent⟩

/-- What an inline part stands for is held by it. -/
theorem holds_of_inlinePart {owner : TypeName} {part target : Json}
    (hplain : fragmentComponent d owner part = .ok none)
    (hleads : d.dereference part = .ok target) :
    ReflTransGen (Holds d) part target := by
  obtain ⟨target', hleads', htraverses⟩ := traverses_of_inline hplain
  obtain rfl := Except.ok.inj (hleads'.symm.trans hleads)
  exact (htraverses.holds_of_inline rfl).1

/-! ## What a declaration queues -/

/-- The names that places in the declaration of a name can get. -/
inductive Suggests (d : Document) (owner : TypeName) : TypeName → Prop where
  | self : Suggests d owner owner
  | value : Suggests d owner (valueName owner)
  | text {text : String} (mem : text ∈ d.root.texts) :
    Suggests d owner (.ofFragments [owner.text, Name.pascalCase [text]])

theorem finite_suggests (d : Document) (owner : TypeName) :
    {name | Suggests d owner name}.Finite := by
  have htexts := d.root.finite_texts.image fun text =>
    TypeName.ofFragments [owner.text, Name.pascalCase [text]]
  refine ((htexts.insert (valueName owner)).insert owner).subset ?_
  rintro name (_ | _ | ⟨hmem⟩)
  · exact .inl rfl
  · exact .inr (.inl rfl)
  · exact .inr (.inr ⟨_, hmem, rfl⟩)

/-- Whether the declaration of a schema under a name can queue a schema under another name. -/
structure Queues (d : Document) (owner : TypeName) (node : Json) (name : TypeName) (inline : Json) :
    Prop where
  holds : TransGen (Holds d) node inline
  placed : ∃ place suggested type, d.root.Within place ∧ Suggests d owner suggested ∧
    placeOf d place suggested = .ok ⟨type, some (name, inline)⟩

/-- The declaration of a schema under a name can queue finitely many names. -/
theorem finite_queues (d : Document) (owner : TypeName) (node : Json) :
    {name | ∃ inline, Queues d owner node name inline}.Finite := by
  let nameAt (place : Json) (suggested : TypeName) : Option TypeName :=
    (placeOf d place suggested).toOption.bind fun p => p.inline.map (·.1)
  have hfinite := (Json.finite_within d.root).image2 nameAt (finite_suggests d owner)
  refine (hfinite.preimage (f := some) fun _ _ _ _ h => Option.some.inj h).subset ?_
  rintro name ⟨inline, -, place, suggested, type, hplace, hsuggested, hplaced⟩
  exact ⟨place, hplace, suggested, hsuggested, by simp [nameAt, hplaced, Except.toOption]⟩

end Build

end OpenApiServer
