import Mathlib.Data.Fintype.Order
import OpenApiServer.Proofs.Build.Origins
import OpenApiServer.Proofs.Server.Declarations

/-!
# Building ends

Where every declaration that is built succeeds, the queue is empty after some number of passes,
unless a claimed schema holds itself. A schema that does is queued again and again, each time under
a longer name.

## When the queue empties

As long as something is queued after a pass, the pass has claimed a name. So the queue empties if
finitely many names can be claimed. Each claim comes from an owned schema that holds the claimed
one, and a declaration queues finitely many names; so they are finitely many if no claimed schema
holds itself.
-/

namespace OpenApiServer.Build

open Relation (TransGen)

variable {d : Document} {r s t : Registry} {n : Nat}

/-! ## Passes claim names -/

/-- The names that a pass claims are queued after it. -/
theorem length_claimed_declarePass {others : List TypeName}
    (sound : r.Sound d (others ++ r.types.map (·.name))) (h : declarePass d r = .ok ((), s)) :
    s.claimed.length = r.claimed.length + s.queued.length := by
  obtain ⟨hsound, -, htypes⟩ := declarePass_declares sound h
  have hbefore := sound.perm.length_eq
  have hafter := hsound.perm.length_eq
  rw [htypes] at hafter
  simp only [List.length_append] at hbefore hafter
  omega

theorem le_length_claimed {others : List TypeName}
    (sound : r.Sound d (others ++ r.types.map (·.name))) (h : passes d n r = .ok ((), s))
    (hqueued : s.pending ≠ []) : n ≤ s.claimed.length := by
  induction n generalizing s with
  | zero => exact Nat.zero_le _
  | succ n ih =>
    obtain ⟨t, hbefore, hlast⟩ := passes_add_eq_ok.1 h
    obtain ⟨u, hpass, hnone⟩ := passes_succ_eq_ok.1 hlast
    obtain rfl := passes_zero_eq_ok.1 hnone
    obtain ⟨hsound, -⟩ := passes_declares sound hbefore
    have hlength := length_claimed_declarePass hsound hpass
    have hmore : t.pending ≠ [] := by
      intro hempty
      rw [declarePass_of_empty hempty] at hpass
      obtain ⟨-, rfl⟩ := Prod.mk.inj (Except.ok.inj hpass)
      exact hqueued hempty
    have hn := ih hbefore hmore
    have hpos : 0 < u.queued.length := by
      rw [Registry.queued, List.length_map]
      exact List.length_pos_iff.2 hqueued
    omega

/-! ## Names that can be claimed -/

/-- Whether passes over the queue claim a name for a schema. -/
def Arises (d : Document) (r : Registry) (name : TypeName) (node : Json) : Prop :=
  ∃ n s, passes d n r = .ok ((), s) ∧ s.nodeOf? name = some node

/-- What is known of all claims that passes make. -/
structure Grounded (d : Document) (r : Registry) : Prop where
  traced : ∀ ⦃n s⦄, passes d n r = .ok ((), s) →
    s.Traced d (fun name node => r.nodeOf? name = some node) fun _ _ => False
  apart : ∀ ⦃name node⦄, Arises d r name node → ¬ TransGen (Holds d) node node

namespace Grounded

variable (h : Grounded d r)

include h

theorem within {name : TypeName} {node : Json} (harises : Arises d r name node) :
    d.root.Within node := by
  obtain ⟨n, s, hrun, hnode⟩ := harises
  exact (h.traced hrun).within_of_owns (.inr hnode)

/-- What arises is there from the start, queued by a component or queued by what arises. -/
theorem arises_cases {name : TypeName} {node : Json} (harises : Arises d r name node) :
    r.nodeOf? name = some node ∨
      (∃ owner target, owner ∈ d.schemaTypes ∧ d.root.Within target ∧
        Queues d owner target name node) ∨
      ∃ owner target, Arises d r owner target ∧ Queues d owner target name node := by
  obtain ⟨n, s, hrun, hnode⟩ := harises
  have htraced := h.traced hrun
  obtain ⟨c, hc, rfl⟩ := Option.map_eq_some_iff.1 hnode
  obtain rfl : c.name = name := by simpa using List.find?_some hc
  rcases htraced.origins c (List.mem_of_find?_eq_some hc) with hinitial | ⟨owner, target, howns, hq⟩
  · exact .inl hinitial
  · have hwithin := htraced.within_of_owns howns
    rcases howns with hdescribes | hclaimed
    · exact .inr (.inl ⟨owner, target, hdescribes.mem_schemaTypes, hwithin, hq⟩)
    · exact .inr (.inr ⟨owner, target, ⟨n, s, hrun, hclaimed⟩, hq⟩)

/-- No claimed schema holds itself, and they are finitely many, so there is a first one. -/
theorem wellFounded :
    WellFounded fun a b : {node // ∃ name, Arises d r name node} => TransGen (Holds d) a.1 b.1 := by
  have hfinite : Finite {node // ∃ name, Arises d r name node} :=
    (Json.finite_within d.root).subset fun node ⟨name, harises⟩ => h.within harises
  have htrans : IsTrans {node // ∃ name, Arises d r name node} fun a b =>
      TransGen (Holds d) a.1 b.1 := ⟨fun _ _ _ => TransGen.trans⟩
  have hirrefl : Std.Irrefl fun a b : {node // ∃ name, Arises d r name node} =>
      TransGen (Holds d) a.1 b.1 := ⟨fun node => h.apart node.2.choose_spec⟩
  exact Finite.wellFounded_of_trans_of_irrefl _

/-- One schema is claimed under finitely many names. -/
theorem finite_names (node : {node // ∃ name, Arises d r name node}) :
    {name | Arises d r name node.1}.Finite := by
  induction node using h.wellFounded.induction with
  | _ node ih =>
    have hinitial : {name | r.nodeOf? name = some node.1}.Finite := by
      refine (List.finite_toSet r.claimed).subset fun name hname => ?_
      obtain ⟨c, hc, -⟩ := Option.map_eq_some_iff.1 hname
      exact Registry.mem_claimed_of_claim? hc
    have hcomponents : {name | ∃ owner target, owner ∈ d.schemaTypes ∧ d.root.Within target ∧
        Queues d owner target name node.1}.Finite := by
      refine ((List.finite_toSet d.schemaTypes).biUnion fun owner _ =>
        (Json.finite_within d.root).biUnion fun target _ => finite_queues d owner target).subset ?_
      rintro name ⟨owner, target, howner, htarget, hq⟩
      exact Set.mem_biUnion howner (Set.mem_biUnion htarget ⟨node.1, hq⟩)
    have hqueued : {name | ∃ owner target, Arises d r owner target ∧
        Queues d owner target name node.1}.Finite := by
      let holders := {target : {node // ∃ name, Arises d r name node} |
        TransGen (Holds d) target.1 node.1}
      have hholders : holders.Finite := by
        have hfinite : Finite {node // ∃ name, Arises d r name node} :=
          (Json.finite_within d.root).subset fun node ⟨name, harises⟩ => h.within harises
        exact Set.toFinite holders
      refine (hholders.biUnion fun target htarget =>
        (ih target htarget).biUnion fun owner _ => finite_queues d owner target.1).subset ?_
      rintro name ⟨owner, target, harises, hq⟩
      exact Set.mem_biUnion (x := ⟨target, owner, harises⟩) hq.holds
        (Set.mem_biUnion harises ⟨node.1, hq⟩)
    refine (hinitial.union (hcomponents.union hqueued)).subset fun name harises => ?_
    exact h.arises_cases harises

/-- All names that passes can claim are finitely many. -/
theorem finite_arising : {name | ∃ node, Arises d r name node}.Finite := by
  have hfinite : Finite {node // ∃ name, Arises d r name node} :=
    (Json.finite_within d.root).subset fun node ⟨name, harises⟩ => h.within harises
  refine (Set.finite_iUnion fun node => h.finite_names node).subset ?_
  rintro name ⟨node, harises⟩
  exact Set.mem_iUnion.2 ⟨⟨node, name, harises⟩, harises⟩

/-- If every pass succeeds, one leaves nothing queued. -/
theorem exists_empty {others : List TypeName}
    (sound : r.Sound d (others ++ r.types.map (·.name)))
    (hpasses : ∀ n, ∃ s, passes d n r = .ok ((), s)) :
    ∃ n s, passes d n r = .ok ((), s) ∧ s.pending = [] := by
  let names := h.finite_arising.toFinset
  obtain ⟨s, hrun⟩ := hpasses (names.card + 1)
  refine ⟨names.card + 1, s, hrun, ?_⟩
  by_contra hqueued
  have hlength := le_length_claimed sound hrun hqueued
  obtain ⟨hsound, -⟩ := passes_declares sound hrun
  have hsubset : s.claimed.toFinset ⊆ names := by
    intro name hname
    rw [List.mem_toFinset] at hname
    have hsome : s.claim? name ≠ none := fun hnone => Registry.claim?_eq_none_iff.1 hnone hname
    obtain ⟨c, hc⟩ := Option.ne_none_iff_exists'.1 hsome
    exact h.finite_arising.mem_toFinset.2
      ⟨c.node, names.card + 1, s, hrun, Option.map_eq_some_iff.2 ⟨c, hc, rfl⟩⟩
  have hcard := Finset.card_le_card hsubset
  rw [List.toFinset_card_of_nodup hsound.nodup] at hcard
  omega

end Grounded

end OpenApiServer.Build

/-! ## Passes of a build -/

namespace OpenApiServer

open Relation (TransGen)

namespace Build

variable {d : Document} {root : Json} {r s : Registry} {n : Nat}

/-- Whether a registry is what the named schemas and the operations of a document leave queued. -/
def Bound (d : Document) (r : Registry) : Prop :=
  ∃ registered built tables, registerSchemas d .empty = .ok ((), registered) ∧
    buildOperations d ⟨[], []⟩ d.endpoints registered = .ok ((built, tables), r)

/-- An invariant of a build holds of what is queued when the operations are bound. -/
theorem Invariant.of_bound {P : Registry → Prop} (inv : Invariant d P) (hbound : Bound d r) :
    P r := by
  obtain ⟨registered, built, tables, hregister, hoperations⟩ := hbound
  have hrun := operationsRun_of_buildOperations hoperations
  exact inv.operationsRun hrun (fun _ he => he) (inv.registered hregister)

section Bound

variable (hdoc : Document.ofJson root = .ok d)

include hdoc

theorem sound_of_bound (hbound : Bound d r) :
    ∃ others, r.Sound d (others ++ r.types.map (·.name)) := by
  obtain ⟨registered, built, tables, hregister, hoperations⟩ := hbound
  obtain ⟨hregistered, htypes⟩ := registerSchemas_sound hdoc hregister
  have hrun := operationsRun_of_buildOperations hoperations
  obtain ⟨hsound, hgrows, -⟩ := hrun.declares hregistered
  refine ⟨built.map (·.2.name), ?_⟩
  rw [hgrows.types, htypes, List.map_nil, List.append_nil]
  exact hsound

variable (hroot : d.root.DistinctKeys)

include hroot

theorem steady_traced (initial : TypeName → Json → Prop) :
    Steady d fun r => r.Recorded d ∧ r.Traced d initial fun _ _ => False where
  queued _ h := h.1.queued
  taken _ h := ⟨(recorded_invariant hdoc hroot).taken h.1, h.2.of_eq rfl⟩
  declared r r' p h hnode hrun := by
    obtain ⟨hrecorded, hnodes⟩ := (recorded_invariant hdoc hroot).declared h.1 hnode hrun
    refine ⟨⟨hrecorded, ?_⟩, hnodes⟩
    obtain ⟨t, s, hdeclare, hrun⟩ := bind_eq_ok.1 hrun
    obtain rfl := modify_eq_ok.1 hrun
    have hwithin := h.2.within_of_owns (.inr hnode)
    have hknown : r.Traced d initial fun name node => name = p.name ∧ node = p.node :=
      ⟨h.2.within, h.2.origins, by rintro name node ⟨rfl, rfl⟩; exact hnode⟩
    have htraced := (declare_traced hdoc hwithin (fun _ hs => .inr (hs.known ⟨rfl, rfl⟩))
      hknown hdeclare).1
    exact (htraced.mono fun _ _ => False.elim).of_eq rfl

theorem within_of_bound (hbound : Bound d r) : ∀ c ∈ r.claims, d.root.Within c.node := by
  have laws := FieldLaws.of_nodes (Json.hereditary_within d.root) (.refl d.root)
  exact ((laws.invariant hdoc hroot).of_bound hbound).2.nodes

theorem traced_of_passes (hbound : Bound d r) (hrun : passes d n r = .ok ((), s)) :
    s.Traced d (fun name node => r.nodeOf? name = some node) fun _ _ => False := by
  have hrecorded := (recorded_invariant hdoc hroot).of_bound hbound
  have hnodup := (sound_of_bound hdoc hbound).choose_spec.nodup
  refine ((steady_traced hdoc hroot _).passes ⟨hrecorded, ?_⟩ hrun).2
  refine ⟨within_of_bound hdoc hroot hbound, fun c hc => .inl ?_, fun _ _ => False.elim⟩
  exact Registry.nodeOf?_of_mem_claims hnodup hc

/-- What is known of all claims, if no claimed schema holds itself. -/
theorem grounded_of_bound (hbound : Bound d r)
    (hapart : ∀ n s, passes d n r = .ok ((), s) → ∀ c ∈ s.claims,
      ¬ TransGen (Holds d) c.node c.node) : Grounded d r where
  traced _ _ hrun := traced_of_passes hdoc hroot hbound hrun
  apart name node harises := by
    obtain ⟨n, s, hrun, hnode⟩ := harises
    obtain ⟨c, hc, rfl⟩ := Option.map_eq_some_iff.1 hnode
    exact hapart n s hrun c (List.mem_of_find?_eq_some hc)

end Bound

theorem server_of_drain (hbound : Bound d r) (h : drain d r = .ok ((), s)) (basePath : String) :
    ∃ m, d.server basePath = .ok m := by
  obtain ⟨registered, built, tables, hregister, hoperations⟩ := hbound
  refine ⟨finish basePath s built tables, map_eq_ok_iff.2 ⟨(_, s), ?_, rfl⟩⟩
  refine bind_eq_ok.2 ⟨(), registered, hregister, ?_⟩
  refine bind_eq_ok.2 ⟨(built, tables), r, hoperations, ?_⟩
  refine bind_eq_ok.2 ⟨(), s, h, ?_⟩
  exact get_bind_eq_ok.2 (pure_eq_ok.2 ⟨rfl, rfl⟩)

/-! ## Schemas that hold no other but smaller ones -/

/-- What a schema holds is smaller, unless the schema is a union or a reference that names no
component. -/
theorem Holds.size_lt {node held : Json} (h : Holds d node held) (hone : node.get? "oneOf" = none)
    (hnamed : ∀ pointer, Document.reference? node = some pointer →
      Pointer.schemaName? pointer ≠ none) : held.size < node.size := by
  cases h with
  | @property _ _ _ _ property object mem =>
    rcases Schema.properties_of_classify object with rfl | hlisted
    · cases mem
    · have hlt := Json.size_get?_lt hlisted
      have hle := Json.size_le_sizeFields mem
      rw [Json.size] at hlt
      omega
  | items array => exact Json.size_get?_lt (Schema.get?_items_of_classify array)
  | part allOf mem =>
    have hlt := Json.size_get?_lt (Schema.get?_allOf_of_classify allOf)
    have hle := Json.size_le_sizeItems mem
    rw [Json.size] at hlt
    omega
  | nullable oneOf _ | arm oneOf _ _ _ =>
    rw [Schema.get?_oneOf_of_classify oneOf] at hone
    cases hone
  | target refers unnamed _ => exact absurd unnamed (hnamed _ refers)

/-- Whether a value is no union, and if it is a reference, then one that names a component. -/
def withoutUnions (node : Json) : Bool :=
  (node.get? "oneOf").isNone &&
    (Document.reference? node).all fun pointer => (Pointer.schemaName? pointer).isSome

/-- In a document without unions and without other references no schema holds itself. -/
theorem size_lt_of_transGen {node held : Json} (hroot : d.root.everywhere withoutUnions = true)
    (hnode : d.root.Within node) (h : TransGen (Holds d) node held) : held.size < node.size := by
  have hN := Json.hereditary_everywhere withoutUnions
  have hstep {a b : Json} (ha : a.everywhere withoutUnions = true) (hab : Holds d a b) :
      b.everywhere withoutUnions = true ∧ b.size < a.size := by
    have hcheck := Json.check_of_everywhere ha
    rw [withoutUnions, Bool.and_eq_true, Option.isNone_iff_eq_none] at hcheck
    refine ⟨hab.hereditary hN hroot ha, hab.size_lt hcheck.1 fun pointer hpointer hnone => ?_⟩
    simp [hpointer, hnone] at hcheck
  have hboth : held.everywhere withoutUnions = true ∧ held.size < node.size := by
    induction h with
    | single hfirst => exact hstep (hnode _ hN hroot) hfirst
    | tail _ hlast ih =>
      obtain ⟨hheld, hlt⟩ := hstep ih.1 hlast
      exact ⟨hheld, hlt.trans ih.2⟩
  exact hboth.2

end Build

open Build

/-- A record with an inline enumeration, and with itself under another property. -/
def friends : Json :=
  oneSchema "Pet" (.obj [("properties", .obj [
    ("kind", .obj [("enum", .arr [.str "cat"])]),
    ("friend", .obj [("$ref", .str "#/components/schemas/Pet")])])])

/-- A schema whose property refers back to the place of that property. -/
def nested : Json :=
  .obj [("properties", .obj [("p", .obj [("$ref", .str "#/components/schemas/A/properties/p")])])]

def endless : Json :=
  oneSchema "A" (.obj [("properties", .obj [("p", nested)])])

/-- The name that is queued after a number of passes. -/
def deeperName (n : Nat) : TypeName := ⟨String.ofList ('A' :: List.replicate n 'P')⟩

/-- The schema that is queued after a number of passes. -/
def deeperNode : Nat → Json
  | 0 => .obj [("properties", .obj [("p", nested)])]
  | _ + 1 => nested

theorem pascalCase_deeper {fragments : List String} {n : Nat}
    (h : fragments.flatMap String.toList = 'A' :: List.replicate n 'P') :
    Name.pascalCase fragments = (deeperName n).text := by
  have hascii : ∀ c ∈ 'A' :: List.replicate n 'P', c.toNat < 128 := by
    intro c hc
    rcases List.mem_cons.1 hc with rfl | hc
    · decide
    · obtain rfl := List.eq_of_mem_replicate hc
      decide
  have hkept (n : Nat) : Name.pascalFrom false (List.replicate n 'P') = List.replicate n 'P' := by
    induction n with
    | zero => rfl
    | succ n ih =>
      have hletter : Name.isAlphanumeric 'P' = true := by decide
      rw [List.replicate_succ, Name.pascalFrom, if_pos hletter, ih]
      rfl
  have hletter : Name.isAlphanumeric 'A' = true := by decide
  rw [Name.pascalCase, Name.pascalChars, h, Name.toAscii_of_ascii hascii, Name.pascalFrom,
    if_pos hletter, hkept, deeperName]
  rfl

theorem ofFragments_deeperName (n : Nat) :
    TypeName.ofFragments [(deeperName n).text, Name.pascalCase ["p"]] = deeperName (n + 1) := by
  have hproperty : Name.pascalCase ["p"] = "P" := by decide +kernel
  have hjoined : Name.pascalCase [(deeperName n).text, "P"] = (deeperName (n + 1)).text := by
    refine pascalCase_deeper ?_
    simp [deeperName, List.replicate_succ']
  have hminus : Name.splitMinus (deeperName (n + 1)).text = (false, (deeperName (n + 1)).text) := by
    simp [Name.splitMinus, deeperName]
  have hsame : Name.pascalCase [(deeperName (n + 1)).text] = (deeperName (n + 1)).text := by
    refine pascalCase_deeper ?_
    simp [deeperName]
  have hne : (deeperName (n + 1)).text ≠ "" := by simp [deeperName]
  have hfree : reservedTypeNames.contains (deeperName (n + 1)).text = false := by
    simp [reservedTypeNames, deeperName, ← String.toList_inj]
  have hdigit : Name.guardDigit "T" (deeperName (n + 1)).text = (deeperName (n + 1)).text := by
    simp [Name.guardDigit, Name.startsWithDigit, deeperName, Name.isDigit]
  rw [TypeName.ofFragments, hproperty, hjoined, TypeName.ofText, hminus]
  dsimp only
  rw [hsame, if_neg hne]
  simp only [Bool.false_eq_true, if_false, hfree, hdigit]

theorem deeperName_inj {n m : Nat} (h : deeperName n = deeperName m) : n = m := by
  have hlength := congrArg (fun name => name.text.toList.length) h
  simpa [deeperName] using hlength

/-- The one property of each schema has the nested schema as its inline schema. -/
theorem deeperNode_place (n : Nat) :
    ∃ v, (∀ context, Schema.classify context (deeperNode n) = .ok (.object [("p", v)] [])) ∧
      ∀ suggested, placeOf ⟨endless⟩ v suggested = .ok (.ofInline nested suggested) := by
  let reference : Json := .obj [("$ref", .str "#/components/schemas/A/properties/p")]
  have hnested : Schema.classify "" nested = .ok (.object [("p", reference)] []) := rfl
  have hplace (context : String) := Schema.classify_of_ok context hnested
  cases n with
  | zero =>
    have houter : Schema.classify "" (deeperNode 0) = .ok (.object [("p", nested)] []) := rfl
    refine ⟨nested, fun context => Schema.classify_of_ok context houter, fun suggested => ?_⟩
    rw [placeOf, placeFrom, hplace]
    rfl
  | succ n =>
    refine ⟨reference, hplace, fun suggested => ?_⟩
    have hreference : Schema.classify "" reference =
        .ok (.reference "#/components/schemas/A/properties/p") := rfl
    have hunnamed : Pointer.schemaName? "#/components/schemas/A/properties/p" = none := by
      decide +kernel
    have hresolve : (Document.mk endless).resolve "#/components/schemas/A/properties/p" =
        .ok nested := rfl
    have hleads : (Document.mk endless).dereference reference = .ok nested := rfl
    refine bind_eq_ok_iff.2 ⟨_, Schema.classify_of_ok _ hreference, ?_⟩
    simp only [hunnamed]
    refine bind_eq_ok_iff.2 ⟨_, hleads, bind_eq_ok_iff.2 ⟨_, hresolve, ?_⟩⟩
    rw [placeFrom, hplace]
    rfl

/-- What is known after a number of passes. -/
structure Deepens (n : Nat) (r : Registry) : Prop where
  pending : r.pending = [⟨deeperName n, deeperNode n⟩]
  claimed : ∀ name ∈ r.claimed, ∃ k ≤ n, name = deeperName k
  fields : ∀ kept ∈ r.fields, ∃ k < n, kept.1 = deeperName k

/-- A pass over the queue queues the nested schema again. -/
theorem Deepens.step {n : Nat} {r : Registry} (h : Deepens n r) :
    ∃ s, declarePass ⟨endless⟩ r = .ok ((), s) ∧ Deepens (n + 1) s := by
  obtain ⟨v, hview, hplace⟩ := deeperNode_place n
  obtain ⟨depth, hdepth⟩ : ∃ depth, mergeDepth ⟨endless⟩ = depth + 1 := ⟨_, rfl⟩
  let taken : Registry := { r with pending := [] }
  let claimed := taken.claim (deeperName (n + 1)) nested (deeperName (n + 1)).text
  have hnew : taken.claim? (deeperName (n + 1)) = none := by
    refine Registry.claim?_eq_none_iff.2 fun hmem => ?_
    obtain ⟨k, hk, hname⟩ := h.claimed _ hmem
    have := deeperName_inj hname
    omega
  have henlist : taken.enlist (some (deeperName (n + 1), nested)) = .ok claimed := by
    rw [Registry.enlist, Registry.register, hnew]
    rfl
  have hnone : taken.fieldsOf? (deeperName n) = none := by
    rw [Registry.fieldsOf?, List.lookup_eq_none_iff]
    intro kept hkept
    obtain ⟨k, hk, hname⟩ := h.fields kept hkept
    rw [hname, bne_iff_ne]
    intro heq
    have := deeperName_inj heq
    omega
  let field : Field := ⟨.ofText "p", "p", .named (deeperName (n + 1)), false, .ofNode v⟩
  have hfield : objectField ⟨endless⟩ (deeperName n) [] ("p", v) taken = .ok (field, claimed) := by
    refine bind_eq_ok.2 ⟨_, claimed, ?_, pure_eq_ok.2 ⟨rfl, rfl⟩⟩
    rw [ofFragments_deeperName]
    exact typeOf_eq_ok.2 ⟨_, hplace _, henlist⟩
  have hfields : objectFields ⟨endless⟩ (deeperName n) [("p", v)] [] taken =
      .ok ([field], claimed) := by
    rw [objectFields, List.mapM_cons]
    exact bind_eq_ok.2 ⟨field, claimed, hfield, rfl⟩
  let kept := claimed.keepFields (deeperName n) (distinctNames [field])
  have hrecord : recordFields ⟨endless⟩ (deeperName n) (deeperNode n) taken =
      .ok (distinctNames [field], kept) := by
    rw [recordFields, hdepth, recordFieldsFrom, get_bind_eq_ok, hnone]
    refine lift_bind_eq_ok.2 ⟨_, hview _, ?_⟩
    exact bind_eq_ok.2 ⟨[field], claimed, hfields, keepFields_eq_ok.2 ⟨rfl, rfl⟩⟩
  let decl : RecordDecl := ⟨deeperName n, .ofNode (deeperNode n), distinctNames [field]⟩
  have hdeclare :
      declare ⟨endless⟩ ⟨deeperName n, deeperNode n⟩ taken = .ok (.record decl, kept) := by
    refine lift_bind_eq_ok.2 ⟨_, hview _, map_eq_ok.2 ⟨decl, ?_, rfl⟩⟩
    refine bind_eq_ok.2 ⟨_, kept, hrecord, lift_bind_eq_ok.2 ⟨_, hview _, ?_⟩⟩
    rfl
  refine ⟨{ kept with types := kept.types ++ [.record decl] }, ?_, ?_, ?_, ?_⟩
  · refine bind_eq_ok.2 ⟨_, taken, modifyGet_eq_ok.2 rfl, ?_⟩
    rw [h.pending, List.forM]
    refine bind_eq_ok.2 ⟨(), _, bind_eq_ok.2 ⟨_, kept, hdeclare, modify_eq_ok.2 rfl⟩, ?_⟩
    exact pure_eq_ok.2 ⟨rfl, rfl⟩
  · rfl
  · have hclaimed : Registry.claimed { kept with types := kept.types ++ [.record decl] } =
        r.claimed ++ [deeperName (n + 1)] :=
      taken.claimed_claim (deeperName (n + 1)) nested (deeperName (n + 1)).text
    rw [hclaimed]
    refine List.forall_mem_append.2 ⟨fun name hname => ?_, by simpa using ⟨n + 1, le_rfl, rfl⟩⟩
    obtain ⟨k, hk, rfl⟩ := h.claimed name hname
    exact ⟨k, by omega, rfl⟩
  · refine List.forall_mem_cons.2 ⟨⟨n, by omega, rfl⟩, fun kept hkept => ?_⟩
    obtain ⟨k, hk, hname⟩ := h.fields kept hkept
    exact ⟨k, by omega, hname⟩

end OpenApiServer
