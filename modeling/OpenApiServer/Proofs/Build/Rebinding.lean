import OpenApiServer.Proofs.Build.Operations
import OpenApiServer.Proofs.Build.Succeeds

/-!
# Binding operations again

Reordered documents have the same operations, and binding them goes the same way: `Tracks x x'` says
that wherever `x` succeeds, `x'` succeeds with the same result from a registry in which the same names
are claimed for schemas that match, and that it is so afterwards.
-/

namespace OpenApiServer

theorem Docs.ofNode_eq {node node' : Json} (h : node.Matches node') : ofNode node = ofNode node' := by
  rw [ofNode, ofNode, h.string_eq, h.string_eq, h.string_eq]

/-- Whether two registries claim the same names, for schemas that match. -/
def Registry.ClaimsMatch (r r' : Registry) : Prop :=
  ∀ name, Option.Rel Json.Matches (r.nodeOf? name) (r'.nodeOf? name)

namespace Registry.ClaimsMatch

variable {r r' s s' : Registry}

theorem of_eq (h : r.ClaimsMatch r') (hclaims : s.claims = r.claims) (hclaims' : s'.claims = r'.claims) :
    s.ClaimsMatch s' := by
  intro name
  rw [nodeOf?, nodeOf?, claim?, claim?, hclaims, hclaims']
  exact h name

theorem below (h : r.ClaimsMatch r') : r'.Below r := by
  intro name node' hnode'
  exact exists_of_rel_right (h name) hnode'

theorem of_below (h : r'.Below r) (h' : r.Below r') : r.ClaimsMatch r' := by
  intro name
  cases hnode : r.nodeOf? name with
  | none =>
    cases hnode' : r'.nodeOf? name with
    | none => exact .none
    | some node' =>
      obtain ⟨node, hclaimed, -⟩ := h hnode'
      rw [hnode] at hclaimed
      cases hclaimed
  | some node =>
    obtain ⟨node', hclaimed, hmatch⟩ := h' hnode
    rw [hclaimed]
    exact .some hmatch.symm

theorem claim?_eq_none_iff (h : r.ClaimsMatch r') {name : TypeName} :
    r.claim? name = none ↔ r'.claim? name = none := by
  have hnone (r : Registry) : r.claim? name = none ↔ r.nodeOf? name = none :=
    Option.map_eq_none_iff.symm
  have hrel := h name
  rw [hnone, hnone]
  generalize r.nodeOf? name = node, r'.nodeOf? name = node' at hrel ⊢
  cases hrel <;> simp

/-- A new name is claimed in both. -/
theorem claim (h : r.ClaimsMatch r') {name : TypeName} {node node' : Json} {origin origin' : String}
    (hnew : r.claim? name = none) (hmatch : node.Matches node') :
    ClaimsMatch { r with claims := r.claims ++ [⟨name, node, origin⟩] }
      { r' with claims := r'.claims ++ [⟨name, node', origin'⟩] } := by
  intro other
  have hnew' := h.claim?_eq_none_iff.1 hnew
  have hrel := h other
  simp only [nodeOf?, claim?, List.find?_append] at hrel hnew hnew' ⊢
  by_cases hname : name = other
  · subst hname
    rw [hnew, hnew']
    have hrel : Option.Rel Json.Matches (some node) (some node') := .some hmatch
    simpa using hrel
  · simpa [beq_false_of_ne hname] using hrel

/-- What is registered in one can be registered in the other. -/
theorem register (h : r.ClaimsMatch r') {name : TypeName} {node node' : Json} {origin : String}
    (hmatch : node.Matches node') (hrun : r.register name node origin = .ok s) (origin' : String) :
    ∃ s', r'.register name node' origin' = .ok s' ∧ s.ClaimsMatch s' := by
  rw [Registry.register] at hrun ⊢
  cases hclaim : r.claim? name with
  | some claim =>
    rw [hclaim] at hrun
    dsimp only at hrun
    split_ifs at hrun with hsame
    obtain rfl := Except.ok.inj hrun
    have hnode : r.nodeOf? name = some claim.node := by rw [nodeOf?, hclaim, Option.map_some]
    obtain ⟨known, hknown, hclaimed⟩ := exists_of_rel_left (h name) hnode
    obtain ⟨claim', hclaim', rfl⟩ := Option.map_eq_some_iff.1 hknown
    have hagain : claim.node.Matches node := ⟨hclaimed.left, hmatch.left, .inr hsame⟩
    rw [hclaim']
    exact ⟨r', if_pos (hclaimed.symm.trans (hagain.trans hmatch)).same, h⟩
  | none =>
    rw [hclaim] at hrun
    obtain rfl := Except.ok.inj hrun
    rw [h.claim?_eq_none_iff.1 hclaim]
    exact ⟨_, rfl, (h.claim hclaim hmatch).of_eq rfl rfl⟩

end Registry.ClaimsMatch

namespace Build

variable {α β γ γ' : Type}

def Tracks (x x' : Build α) : Prop :=
  ∀ ⦃r a s r'⦄, x r = .ok (a, s) → r.ClaimsMatch r' → ∃ s', x' r' = .ok (a, s') ∧ s.ClaimsMatch s'

namespace Tracks

variable {x x' : Build α} {f f' : α → Build β}

theorem pure (a : α) : Tracks (pure a) (pure a) := by
  intro r b s r' hrun hmatch
  obtain ⟨rfl, rfl⟩ := pure_eq_ok.1 hrun
  exact ⟨r', pure_eq_ok.2 ⟨rfl, rfl⟩, hmatch⟩

theorem fail {e : BuildError} : Tracks (fail e) x' := fun _ _ _ _ hrun => absurd hrun fail_ne_ok

theorem bind (hx : Tracks x x') (hf : ∀ a, Tracks (f a) (f' a)) :
    Tracks (x >>= f) (x' >>= f') := by
  intro r b s r' hrun hmatch
  obtain ⟨a, t, hxrun, hfrun⟩ := bind_eq_ok.1 hrun
  obtain ⟨t', hxrun', hmatch'⟩ := hx hxrun hmatch
  obtain ⟨s', hfrun', hlast⟩ := hf a hfrun hmatch'
  exact ⟨s', bind_eq_ok.2 ⟨a, t', hxrun', hfrun'⟩, hlast⟩

/-- What is read first can differ, as long as what follows is the same. -/
theorem lift_bind {y : Except BuildError γ} {y' : Except BuildError γ'} {f : γ → Build β}
    {f' : γ' → Build β} (h : ∀ a, y = .ok a → ∃ a', y' = .ok a' ∧ Tracks (f a) (f' a')) :
    Tracks (liftM y >>= f) (liftM y' >>= f') := by
  intro r b s r' hrun hmatch
  obtain ⟨a, ha, hfrun⟩ := lift_bind_eq_ok.1 hrun
  obtain ⟨a', ha', hf⟩ := h a ha
  obtain ⟨s', hfrun', hlast⟩ := hf hfrun hmatch
  exact ⟨s', lift_bind_eq_ok.2 ⟨a', ha', hfrun'⟩, hlast⟩

/-- What is read from the same place is the same. -/
theorem lift_bind_same {y : Except BuildError γ} {f f' : γ → Build β}
    (hf : ∀ a, Tracks (f a) (f' a)) : Tracks (liftM y >>= f) (liftM y >>= f') :=
  lift_bind fun a ha => ⟨a, ha, hf a⟩

theorem get_bind {f f' : Registry → Build β} (hf : ∀ r r', r.ClaimsMatch r' → Tracks (f r) (f' r')) :
    Tracks (get >>= f) (get >>= f') := by
  intro r b s r' hrun hmatch
  obtain ⟨s', hrun', hlast⟩ := hf r r' hmatch (get_bind_eq_ok.1 hrun) hmatch
  exact ⟨s', get_bind_eq_ok.2 hrun', hlast⟩

theorem warn (message : String) : Tracks (warn message) (warn message) := by
  intro r a s r' hrun hmatch
  obtain rfl := modify_eq_ok.1 hrun
  exact ⟨r'.warn message, modify_eq_ok.2 rfl, hmatch.of_eq rfl rfl⟩

theorem guard {c : Prop} [Decidable c] {e : BuildError} {g g' : γ → Build α} (hx : Tracks x x') :
    Tracks (if c then Build.fail e >>= g else x) (if c then Build.fail e >>= g' else x') := by
  split
  · exact fun _ _ _ _ hrun => absurd hrun fail_bind_ne_ok
  · exact hx

theorem reserve {name : TypeName} {node node' : Json} (hnode : node.Matches node')
    (origin : String) :
    Tracks (step (·.reserve name node origin)) (step (·.reserve name node' origin)) := by
  intro r a s r' hrun hmatch
  have hreserve := step_eq_ok.1 hrun
  obtain ⟨hnew, rfl⟩ := Registry.reserve_eq_ok hreserve
  rw [← Registry.claim?_eq_none_iff] at hnew
  have hnew' := hmatch.claim?_eq_none_iff.1 hnew
  refine ⟨{ r' with claims := r'.claims ++ [⟨name, node', origin⟩] }, step_eq_ok.2 ?_,
    hmatch.claim hnew hnode⟩
  rw [Registry.reserve, hnew']

theorem mapM {f f' : γ → Build β} {xs : List γ} (hf : ∀ x ∈ xs, Tracks (f x) (f' x)) :
    Tracks (xs.mapM f) (xs.mapM f') := by
  induction xs with
  | nil => exact pure []
  | cons x rest ih =>
    obtain ⟨hx, hrest⟩ := List.forall_mem_cons.1 hf
    rw [List.mapM_cons, List.mapM_cons]
    exact hx.bind fun y => (ih hrest).bind fun ys => pure (y :: ys)

end Tracks

section Binding

variable {d d' : Document} (h : Document.Reordered d d')

include h

theorem typeOf_tracks {node node' : Json} (hnode : node.Matches node') (suggested : TypeName) :
    Tracks (typeOf d node suggested) (typeOf d' node' suggested) := by
  intro r type s r' hrun hmatch
  obtain ⟨inline, hplace, henlist⟩ := typeOf_eq_ok.1 hrun
  obtain ⟨⟨type', inline'⟩, hplace', htype, hinline⟩ := placeOf_matches h hnode hplace
  obtain rfl : type = type' := htype
  have hagain : ∃ s', r'.enlist inline' = .ok s' ∧ s.ClaimsMatch s' := by
    cases hinline with
    | none =>
      obtain rfl := Except.ok.inj henlist
      exact ⟨r', rfl, hmatch⟩
    | @some found found' hfound =>
      obtain ⟨name, inner⟩ := found
      obtain ⟨name', inner'⟩ := found'
      obtain ⟨rfl, hinner⟩ := hfound
      exact hmatch.register hinner henlist name.text
  obtain ⟨s', henlist', hlast⟩ := hagain
  exact ⟨s', typeOf_eq_ok.2 ⟨inline', hplace', henlist'⟩, hlast⟩

/-- Whether a value can be parsed from a text is seen from the schema of its type. -/
theorem isFromText_tracks (type : TypeExpr) : Tracks (isFromText d type) (isFromText d' type) := by
  unfold isFromText
  split
  · exact .pure _
  next name =>
    refine .get_bind fun r r' hmatch => ?_
    have hrel := hmatch name
    generalize r.nodeOf? name = node, r'.nodeOf? name = node' at hrel ⊢
    cases hrel with
    | none => exact .pure _
    | some hnode =>
      refine .lift_bind fun target htarget => ?_
      obtain ⟨target', htarget', htargetMatch⟩ := h.dereference hnode htarget
      refine ⟨target', htarget', .lift_bind fun schema hschema => ?_⟩
      obtain ⟨schema', hschema', hview⟩ := Schema.classify_matches htargetMatch hschema
      refine ⟨schema', hschema', ?_⟩
      cases hview <;> exact .pure _
  · exact .pure _

end Binding

/-! ## Parameters -/

/-- Whether two declared parameters are told apart by nothing but the order of keys. -/
structure DeclaredParameter.Matches (p p' : DeclaredParameter) : Prop where
  name : p.name = p'.name
  location : p.location = p'.location
  node : p.node.Matches p'.node

theorem overrideParameter_matches {p p' : DeclaredParameter} {ps ps' : List DeclaredParameter}
    (hp : p.Matches p') (hps : List.Forall₂ DeclaredParameter.Matches ps ps') :
    List.Forall₂ DeclaredParameter.Matches (overrideParameter p ps) (overrideParameter p' ps') := by
  induction hps with
  | nil => exact .cons hp .nil
  | cons hfirst hrest ih =>
    rw [overrideParameter, overrideParameter, ← hp.location, ← hp.name, ← hfirst.location,
      ← hfirst.name]
    split
    · exact .cons hp hrest
    · exact .cons hfirst ih

theorem elementOf_matches {p p' : DeclaredParameter} (h : p.Matches p') (context : String)
    (location : ParameterLocation) (type : TypeExpr) :
    elementOf context p location type = elementOf context p' location type := by
  unfold elementOf listStyle
  rw [h.node.string_eq, h.node.flag_eq]

theorem boundLocation_matches {p p' : DeclaredParameter} (h : p.Matches p') (e : Endpoint)
    (template : PathTemplate) : boundLocation e template p = boundLocation e template p' := by
  unfold boundLocation
  rw [h.location, h.name]

section Parameters

variable {d d' : Document} (h : Document.Reordered d d') {e : Endpoint}
include h

theorem declaredParameter_matches {context : String} {node : Json} {p : DeclaredParameter}
    (hnode : node.Proper) (hrun : declaredParameter d context node = .ok p) :
    ∃ p', declaredParameter d' context node = .ok p' ∧ p.Matches p' := by
  obtain ⟨target, htarget, hrun⟩ := bind_eq_ok_iff.1 hrun
  obtain ⟨target', htarget', hmatch⟩ := h.dereference (.refl hnode) htarget
  rw [hmatch.string_eq, hmatch.string_eq] at hrun
  split at hrun
  next name location hname hlocation =>
    obtain rfl := Except.ok.inj hrun
    refine ⟨⟨name, location, target'⟩, bind_eq_ok_iff.2 ⟨target', htarget', ?_⟩, rfl, rfl, hmatch⟩
    rw [hname, hlocation]
    rfl
  next => cases hrun

theorem mergeParameters_matches {context : String} {owner : Json}
    {merged merged' last : List DeclaredParameter} (howner : owner.Proper)
    (hmerged : List.Forall₂ DeclaredParameter.Matches merged merged')
    (hrun : mergeParameters d context merged owner = .ok last) :
    ∃ last', mergeParameters d' context merged' owner = .ok last' ∧
      List.Forall₂ DeclaredParameter.Matches last last' := by
  obtain ⟨nodes, hnodes, hrun⟩ := bind_eq_ok_iff.1 hrun
  have hproper : ∀ node ∈ nodes, node.Proper := by
    unfold parameterNodes at hnodes
    split at hnodes
    · obtain rfl := Except.ok.inj hnodes
      simp
    next found hfound =>
      obtain rfl := Except.ok.inj hnodes
      exact Json.hereditary_proper.arr (Json.hereditary_proper.get? howner hfound)
    · cases hnodes
  have hstep (node node' : Json) (ps ps' next : List DeclaredParameter)
      (hnode : node = node' ∧ node.Proper) (hps : List.Forall₂ DeclaredParameter.Matches ps ps')
      (hstep : (do return overrideParameter (← declaredParameter d context node) ps) = .ok next) :
      ∃ next', (do return overrideParameter (← declaredParameter d' context node') ps') =
        .ok next' ∧ List.Forall₂ DeclaredParameter.Matches next next' := by
    obtain ⟨rfl, hnode⟩ := hnode
    obtain ⟨p, hp, hstep⟩ := bind_eq_ok_iff.1 hstep
    obtain ⟨p', hp', hmatch⟩ := declaredParameter_matches h hnode hp
    obtain rfl := Except.ok.inj hstep
    exact ⟨_, bind_eq_ok_iff.2 ⟨p', hp', rfl⟩, overrideParameter_matches hmatch hps⟩
  obtain ⟨last', hrun', hlast⟩ := foldlM_related hstep
    (List.forall₂_same.2 fun node hnode => ⟨rfl, hproper node hnode⟩) hmerged hrun
  exact ⟨last', bind_eq_ok_iff.2 ⟨nodes, hnodes, hrun'⟩, hlast⟩

theorem declaredParameters_matches (hitem : e.pathItem.Proper) (hnode : e.node.Proper)
    {ps : List DeclaredParameter} (hrun : declaredParameters d e = .ok ps) :
    ∃ ps', declaredParameters d' e = .ok ps' ∧ List.Forall₂ DeclaredParameter.Matches ps ps' := by
  refine foldlM_related (R := fun owner owner' => owner = owner' ∧ owner.Proper)
    (f := mergeParameters d e.context) ?_ ?_ .nil hrun
  · rintro owner _ merged merged' last ⟨rfl, howner⟩ hmerged hmerge
    exact mergeParameters_matches h howner hmerged hmerge
  · exact .cons ⟨rfl, hitem⟩ (.cons ⟨rfl, hnode⟩ .nil)

theorem parameterType_tracks (operation context : String) {p p' : DeclaredParameter}
    (hp : p.Matches p') :
    Tracks (parameterType d operation context p) (parameterType d' operation context p') := by
  have hrel := hp.node.get? "schema"
  unfold parameterType
  rw [← hp.name]
  generalize p.node.get? "schema" = schema, p'.node.get? "schema" = schema' at hrel ⊢
  cases hrel with
  | none => exact (Tracks.warn _).bind fun _ => .pure _
  | some hschema => exact typeOf_tracks h hschema _

theorem bindParameter_tracks (operation : String) (e : Endpoint) {p p' : DeclaredParameter}
    (hp : p.Matches p') (location : ParameterLocation) (used : List String) :
    Tracks (bindParameter d operation e p location used)
      (bindParameter d' operation e p' location used) := by
  unfold bindParameter
  rw [← hp.name, hp.node.flag_eq, Docs.ofNode_eq hp.node]
  refine (parameterType_tracks h operation _ hp).bind fun type => ?_
  rw [elementOf_matches hp]
  refine .lift_bind_same fun element => ?_
  exact (isFromText_tracks h element.2).bind fun _ => .guard (.pure _)

omit h in
theorem boundLocation_tracks (e : Endpoint) (template : PathTemplate) (p : DeclaredParameter) :
    Tracks (boundLocation e template p) (boundLocation e template p) := by
  unfold boundLocation
  split
  · split
    · exact .pure _
    · exact (Tracks.warn _).bind fun _ => .pure _
  · exact .pure _
  · exact (Tracks.warn _).bind fun _ => .pure _
  · exact (Tracks.warn _).bind fun _ => .pure _
  · exact .fail

theorem bindDeclared_tracks (operation : String) (e : Endpoint) (template : PathTemplate)
    (used : List String) {ps ps' : List DeclaredParameter}
    (hps : List.Forall₂ DeclaredParameter.Matches ps ps') :
    Tracks (bindDeclared d operation e template used ps)
      (bindDeclared d' operation e template used ps') := by
  induction hps generalizing used with
  | nil => exact .pure _
  | cons hp _ ih =>
    rw [bindDeclared, bindDeclared, ← boundLocation_matches hp]
    refine (boundLocation_tracks e template _).bind fun location => ?_
    cases location with
    | none => exact ih used
    | some location =>
      refine (bindParameter_tracks h operation e hp location used).bind fun bound => ?_
      exact (ih bound.2).bind fun _ => .pure _

omit h in
theorem bindUndeclared_tracks (e : Endpoint) (used placeholders : List String) :
    Tracks (bindUndeclared e used placeholders) (bindUndeclared e used placeholders) := by
  induction placeholders generalizing used with
  | nil => exact .pure _
  | cons placeholder rest ih =>
    rw [bindUndeclared]
    exact (Tracks.warn _).bind fun _ => (ih _).bind fun _ => .pure _

theorem bindParameters_tracks (operation : String) (hitem : e.pathItem.Proper)
    (hnode : e.node.Proper) (template : PathTemplate) :
    Tracks (bindParameters d operation e template) (bindParameters d' operation e template) := by
  refine .lift_bind fun ps hps => ?_
  obtain ⟨ps', hps', hmatch⟩ := declaredParameters_matches h hitem hnode hps
  refine ⟨ps', hps', (bindDeclared_tracks h operation e template [] hmatch).bind fun bound => ?_⟩
  exact (bindUndeclared_tracks e bound.2 _).bind fun _ => .pure _

end Parameters

/-! ## Bodies and responses -/

section Contents

variable {d d' : Document} (h : Document.Reordered d d') {e : Endpoint}

theorem contentOf?_eq {node node' : Json} (h : node'.get? "content" = node.get? "content") :
    contentOf? node' = contentOf? node := by
  rw [contentOf?, contentOf?, h]

theorem proper_of_jsonSchema? {node schema : Json} {content : List (String × Json)}
    (hnode : node.Proper) (hcontent : contentOf? node = some content)
    (hschema : jsonSchema? content = some schema) : schema.Proper := by
  unfold contentOf? at hcontent
  split at hcontent
  next media rest hfound =>
    obtain rfl := Option.some.inj hcontent
    obtain ⟨found, hmem, hfound'⟩ := List.exists_of_findSome?_eq_some hschema
    have hlisted := Json.hereditary_proper.get? hnode hfound
    exact Json.hereditary_proper.get?
      (Json.hereditary_proper.obj hlisted found (List.mem_filter.1 hmem).1) hfound'
  next => cases hcontent

include h

theorem bodyKind_tracks (operation : String) {node node' : Json} {content : List (String × Json)}
    (hnode : node.Matches node') (hcontent : contentOf? node = some content) :
    Tracks (bodyKind d operation node content) (bodyKind d' operation node' content) := by
  unfold bodyKind
  split
  next schema hschema =>
    rw [hnode.flag_eq]
    have hproper := proper_of_jsonSchema? hnode.left hcontent hschema
    exact (typeOf_tracks h (.refl hproper) _).bind fun _ => .pure _
  next => exact .pure _

theorem bindBody_tracks (operation : String) (hnode : e.node.Proper)
    (parameters : List Parameter) :
    Tracks (bindBody d operation e parameters) (bindBody d' operation e parameters) := by
  unfold bindBody
  split
  next => exact .pure _
  next declared hdeclared =>
    have hproper := Json.hereditary_proper.get? hnode hdeclared
    refine .lift_bind fun node hleads => ?_
    obtain ⟨node', hleads', hmatch, hcontents⟩ := h.dereference_contents hproper hleads
    refine ⟨node', hleads', ?_⟩
    rw [contentOf?_eq hcontents]
    split
    next => exact (Tracks.warn _).bind fun _ => .pure _
    next content hcontent =>
      exact (bodyKind_tracks h operation hmatch hcontent).bind fun _ => .pure _

theorem responsePayload_tracks (operation key : String) {node node' : Json}
    (hnode : node.Proper) (hcontents : node'.get? "content" = node.get? "content") :
    Tracks (responsePayload d operation key node) (responsePayload d' operation key node') := by
  unfold responsePayload
  rw [contentOf?_eq hcontents]
  split
  next => exact .pure _
  next content hcontent =>
    split
    next schema hschema =>
      have hproper := proper_of_jsonSchema? hnode hcontent hschema
      exact (typeOf_tracks h (.refl hproper) _).bind fun _ => .pure _
    next => exact .pure _

theorem responseVariant_tracks (operation context : String) {declared : String × Json}
    (hdeclared : declared.2.Proper) :
    Tracks (responseVariant d operation context declared)
      (responseVariant d' operation context declared) := by
  refine .lift_bind_same fun status => .lift_bind fun node hleads => ?_
  obtain ⟨node', hleads', hmatch, hcontents⟩ := h.dereference_contents hdeclared hleads
  refine ⟨node', hleads', ?_⟩
  rw [Docs.ofNode_eq hmatch]
  exact (responsePayload_tracks h operation declared.1 hmatch.left hcontents).bind fun _ => .pure _

theorem buildResponse_tracks (operation : String) (hnode : e.node.Proper) :
    Tracks (buildResponse d operation e) (buildResponse d' operation e) := by
  refine (Tracks.reserve (.refl hnode) e.context).bind fun _ => ?_
  split
  next first rest hfound =>
    have hlisted := Json.hereditary_proper.get? hnode hfound
    refine Tracks.bind (.mapM fun declared hdeclared => ?_) fun _ => .pure _
    exact responseVariant_tracks h operation e.context
      (Json.hereditary_proper.obj hlisted declared hdeclared)
  next => exact .fail

/-! ## Operations -/

theorem buildOperation_tracks (state : OperationState) (hitem : e.pathItem.Proper)
    (hnode : e.node.Proper) :
    Tracks (buildOperation d state e) (buildOperation d' state e) := by
  refine .lift_bind_same fun template => .lift_bind_same fun added => ?_
  refine (bindParameters_tracks h _ hitem hnode template).bind fun parameters => ?_
  refine (bindBody_tracks h _ hnode parameters).bind fun body => ?_
  exact (buildResponse_tracks h _ hnode).bind fun response => .pure _

theorem buildOperations_tracks (state : OperationState) {es : List Endpoint}
    (hes : ∀ e ∈ es, e.node.Proper ∧ e.pathItem.Proper) :
    Tracks (buildOperations d state es) (buildOperations d' state es) := by
  induction es generalizing state with
  | nil => exact .pure _
  | cons e rest ih =>
    obtain ⟨⟨hnode, hitem⟩, hrest⟩ := List.forall_mem_cons.1 hes
    refine (buildOperation_tracks h state hitem hnode).bind fun found => ?_
    exact (ih found.2.2 hrest).bind fun _ => .pure _

end Contents

end Build

end OpenApiServer
