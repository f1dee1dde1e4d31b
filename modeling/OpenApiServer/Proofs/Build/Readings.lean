import OpenApiServer.Proofs.Build.Origins
import OpenApiServer.Proofs.Document.Matching

/-!
# What reading finds in reordered documents

Places, components and sources are read from a document without a look at the registry. In reordered
documents nodes that match have the same type, inline schemas that match, and parts that refer to
the same components.
-/

namespace OpenApiServer

/-- Whether two named schemas have one name and match. -/
structure NamedMatch (a b : TypeName × Json) : Prop where
  name : a.1 = b.1
  node : a.2.Matches b.2

/-- Whether two places have one type, and inline schemas that match. -/
structure Place.Matches (p p' : Place) : Prop where
  type : p.type = p'.type
  inline : Option.Rel NamedMatch p.inline p'.inline

namespace Place.Matches

variable {p p' : Place} {node node' : Json}

theorem none (type : TypeExpr) : Matches ⟨type, .none⟩ ⟨type, .none⟩ := ⟨rfl, .none⟩

theorem ofInline (h : node.Matches node') (suggested : TypeName) :
    (Place.ofInline node suggested).Matches (.ofInline node' suggested) :=
  ⟨rfl, .some ⟨rfl, h⟩⟩

theorem within (h : p.Matches p') (type : TypeExpr → TypeExpr) :
    (p.within type).Matches (p'.within type) :=
  ⟨congrArg type h.type, h.inline⟩

end Place.Matches

theorem Schema.Matches.standsInline_eq {s s' : Schema} (h : s.Matches s') :
    s.standsInline = s'.standsInline := by
  cases h with
  | @oneOf arms arms' harms =>
    have hother := nullableArm?_matches harms
    change (nullableArm? arms).isNone = (nullableArm? arms').isNone
    generalize nullableArm? arms = arm, nullableArm? arms' = arm' at hother ⊢
    cases hother with
    | none => rfl
    | some _ => rfl
  | _ => rfl

namespace Build

theorem ok_bind {α β ε : Type} (a : α) (f : α → Except ε β) : (Except.ok a >>= f) = f a := rfl

/-- Related steps take related starts over related lists to related ends. -/
theorem foldlM_related {α α' β β' ε : Type} {R : α → α' → Prop} {S : β → β' → Prop}
    {f : β → α → Except ε β} {g : β' → α' → Except ε β'}
    (hstep : ∀ x x' b b' c, R x x' → S b b' → f b x = .ok c → ∃ c', g b' x' = .ok c' ∧ S c c')
    {xs : List α} {xs' : List α'} (hxs : List.Forall₂ R xs xs') {b c : β} {b' : β'} (hb : S b b')
    (h : xs.foldlM f b = .ok c) : ∃ c', xs'.foldlM g b' = .ok c' ∧ S c c' := by
  induction hxs generalizing b b' with
  | nil =>
    obtain rfl := Except.ok.inj h
    exact ⟨b', rfl, hb⟩
  | cons hx _ ih =>
    rw [List.foldlM_cons] at h
    obtain ⟨next, hnext, h⟩ := bind_eq_ok_iff.1 h
    obtain ⟨next', hnext', hrelated⟩ := hstep _ _ _ _ _ hx hb hnext
    obtain ⟨last, hlast, hend⟩ := ih hrelated h
    exact ⟨last, by rw [List.foldlM_cons]; exact bind_eq_ok_iff.2 ⟨next', hnext', hlast⟩, hend⟩

theorem any_named_eq {sources sources' : List (TypeName × Json)}
    (hsources : List.Forall₂ NamedMatch sources sources') (name : TypeName) :
    (sources.any fun s => s.1 == name) = sources'.any fun s => s.1 == name := by
  induction hsources with
  | nil => rfl
  | cons hsource _ ih => rw [List.any_cons, List.any_cons, ih, hsource.name]

variable {d d' : Document} (h : Document.Reordered d d') {node node' : Json}

/-! ## Places -/

include h

theorem Placed.matches {steps : Nat} {suggested : TypeName} {place : Place}
    (hplace : Placed d steps node suggested place) (hnode : node.Matches node') :
    ∃ place', Placed d' steps node' suggested place' ∧ place.Matches place' := by
  induction hplace generalizing node' with
  | component refers named resolves =>
    obtain ⟨_, refers', ⟨⟩⟩ := Schema.classify_matches hnode refers
    obtain ⟨target', resolves', -⟩ := h.resolve resolves
    exact ⟨_, .component refers' named resolves', .none _⟩
  | target refers unnamed leads resolves _ ih =>
    obtain ⟨_, refers', ⟨⟩⟩ := Schema.classify_matches hnode refers
    obtain ⟨last', leads', -⟩ := h.dereference hnode leads
    obtain ⟨target', resolves', htarget⟩ := h.resolve resolves
    obtain ⟨place', hplace', hmatch⟩ := ih htarget
    exact ⟨place', .target refers' unnamed leads' resolves' hplace', hmatch⟩
  | primitive primitive typed =>
    obtain ⟨_, primitive', ⟨⟩⟩ := Schema.classify_matches hnode primitive
    exact ⟨_, .primitive primitive' typed, .none _⟩
  | list array _ ih =>
    obtain ⟨_, array', hview⟩ := Schema.classify_matches hnode array
    cases hview with | array hitems =>
    obtain ⟨place', hplace', hmatch⟩ := ih hitems
    exact ⟨_, .list array' hplace', hmatch.within .list⟩
  | optional oneOf nullable _ ih =>
    obtain ⟨_, oneOf', hview⟩ := Schema.classify_matches hnode oneOf
    cases hview with | @oneOf _ arms' harms =>
    have hother := Schema.nullableArm?_matches harms
    rw [nullable] at hother
    generalize nullable' : Schema.nullableArm? arms' = arm' at hother
    cases hother with | some harm =>
    obtain ⟨place', hplace', hmatch⟩ := ih harm
    exact ⟨_, .optional oneOf' nullable' hplace', hmatch.within .optional⟩
  | inline classified standsInline =>
    obtain ⟨schema', classified', hview⟩ := Schema.classify_matches hnode classified
    rw [hview.standsInline_eq] at standsInline
    exact ⟨_, .inline classified' standsInline, .ofInline hnode _⟩

theorem placeOf_matches {suggested : TypeName} {place : Place} (hnode : node.Matches node')
    (hplace : placeOf d node suggested = .ok place) :
    ∃ place', placeOf d' node' suggested = .ok place' ∧ place.Matches place' := by
  rw [placeOf, ← h.size_eq]
  obtain ⟨place', hplace', hmatch⟩ := (placeFrom_eq_ok_iff.1 hplace).matches h hnode
  exact ⟨place', placeFrom_eq_ok_iff.2 hplace', hmatch⟩

/-! ## Components -/

theorem componentFrom_matches {context : String} {steps : Nat} {component last : Option TypeName}
    {found : Json} (hnode : node.Matches node')
    (hrun : componentFrom d context steps component node = .ok (last, found)) :
    ∃ found', componentFrom d' context steps component node' = .ok (last, found') ∧
      found.Matches found' := by
  induction steps generalizing node node' component with
  | zero =>
    obtain ⟨rfl, rfl⟩ := Prod.mk.inj (Except.ok.inj hrun)
    exact ⟨node', rfl, hnode⟩
  | succ steps ih =>
    rw [componentFrom] at hrun ⊢
    obtain ⟨schema, hclassify, hrun⟩ := bind_eq_ok_iff.1 hrun
    obtain ⟨schema', hclassify', hview⟩ := Schema.classify_matches hnode hclassify
    rw [hclassify', ok_bind]
    cases hview with
    | reference pointer =>
      obtain ⟨target, htarget, hrun⟩ := bind_eq_ok_iff.1 hrun
      obtain ⟨target', htarget', hmatch⟩ := h.resolve htarget
      dsimp only
      rw [htarget', ok_bind]
      exact ih hmatch hrun
    | _ =>
      obtain ⟨rfl, rfl⟩ := Prod.mk.inj (Except.ok.inj hrun)
      exact ⟨node', rfl, hnode⟩

theorem fragmentComponent_matches {owner : TypeName} {found : Option (TypeName × Json)}
    (hnode : node.Matches node') (hrun : fragmentComponent d owner node = .ok found) :
    ∃ found', fragmentComponent d' owner node' = .ok found' ∧ Option.Rel NamedMatch found found' := by
  obtain ⟨target, htarget, hrun⟩ := bind_eq_ok_iff.1 hrun
  obtain ⟨⟨component, last⟩, hlast, hrun⟩ := bind_eq_ok_iff.1 hrun
  obtain rfl := Except.ok.inj hrun
  obtain ⟨target', htarget', -⟩ := h.dereference hnode htarget
  obtain ⟨last', hlast', hmatch⟩ := componentFrom_matches h hnode hlast
  rw [h.size_eq] at hlast'
  refine ⟨_, bind_eq_ok_iff.2 ⟨target', htarget', bind_eq_ok_iff.2 ⟨_, hlast', rfl⟩⟩, ?_⟩
  cases component with
  | none => exact .none
  | some name => exact .some ⟨rfl, hmatch⟩

theorem mergeDepth_eq : mergeDepth d = mergeDepth d' := by
  rw [mergeDepth, mergeDepth, h.size_eq]

theorem sourcesFrom_matches {owner : TypeName} {depth : Nat}
    {sources sources' last : List (TypeName × Json)} (hnode : node.Matches node')
    (hsources : List.Forall₂ NamedMatch sources sources')
    (hrun : sourcesFrom d owner depth sources node = .ok last) :
    ∃ last', sourcesFrom d' owner depth sources' node' = .ok last' ∧
      List.Forall₂ NamedMatch last last' := by
  induction depth generalizing node node' sources sources' last with
  | zero => cases hrun
  | succ depth ih =>
    rw [sourcesFrom] at hrun ⊢
    obtain ⟨found, hfound, hrun⟩ := bind_eq_ok_iff.1 hrun
    obtain ⟨found', hfound', hmatch⟩ := fragmentComponent_matches h hnode hfound
    rw [hfound', ok_bind]
    cases hmatch with
    | @some source source' hsource =>
      obtain rfl := Except.ok.inj hrun
      refine ⟨_, rfl, ?_⟩
      rw [any_named_eq hsources, hsource.name]
      split
      · exact hsources
      · exact List.rel_append hsources (.cons ⟨rfl, hsource.node⟩ .nil)
    | none =>
      obtain ⟨target, htarget, hrun⟩ := bind_eq_ok_iff.1 hrun
      obtain ⟨target', htarget', hmatch⟩ := h.dereference hnode htarget
      obtain ⟨schema, hclassify, hrun⟩ := bind_eq_ok_iff.1 hrun
      obtain ⟨schema', hclassify', hview⟩ := Schema.classify_matches hmatch hclassify
      dsimp only
      rw [htarget', ok_bind, hclassify', ok_bind]
      cases hview with
      | allOf hparts =>
        refine foldlM_related (f := sourcesFrom d owner depth) (fun _ _ _ _ _ hpart hbefore => ?_) hparts
          hsources hrun
        exact ih hpart hbefore
      | _ =>
        obtain rfl := Except.ok.inj hrun
        exact ⟨sources', rfl, hsources⟩

theorem sources_match {owner : TypeName} {depth : Nat} {parts parts' : List Json}
    {sources : List (TypeName × Json)} (hparts : List.Forall₂ Json.Matches parts parts')
    (hrun : parts.foldlM (sourcesFrom d owner depth) [] = .ok sources) :
    ∃ sources', parts'.foldlM (sourcesFrom d' owner depth) [] = .ok sources' ∧
      List.Forall₂ NamedMatch sources sources' := by
  refine foldlM_related (f := sourcesFrom d owner depth) (fun _ _ _ _ _ hpart hbefore => ?_) hparts .nil
    hrun
  exact sourcesFrom_matches h hpart hbefore

/-! ## Arms of unions -/

theorem singleLiteral_matches {union : TypeName} {literal : Option String}
    (hnode : node.Matches node') (hrun : singleLiteral d union node = .ok literal) :
    singleLiteral d' union node' = .ok literal := by
  obtain ⟨target, htarget, hrun⟩ := bind_eq_ok_iff.1 hrun
  obtain ⟨target', htarget', hmatch⟩ := h.dereference hnode htarget
  rw [singleLiteral, htarget', ok_bind]
  cases hclassify : Schema.classify union.text target with
  | ok schema =>
    obtain ⟨schema', hclassify', hview⟩ := Schema.classify_matches hmatch hclassify
    rw [hclassify] at hrun
    rw [hclassify']
    cases hview <;> exact hrun
  | error e =>
    rw [hclassify] at hrun
    cases hclassify' : Schema.classify union.text target' with
    | ok schema' =>
      obtain ⟨schema, hview, -⟩ := Schema.classify_matches hmatch.symm hclassify'
      rw [hclassify] at hview
      cases hview
    | error e' => exact hrun

omit h in
theorem armLiterals_pair {union : TypeName} {p q : String × Json}
    {literals : List (String × String)} :
    armLiterals d union [p, q] = .ok literals ↔ ∃ first second,
      singleLiteral d union p.2 = .ok first ∧ singleLiteral d union q.2 = .ok second ∧
        literals = (first.map (p.1, ·)).toList ++ (second.map (q.1, ·)).toList := by
  simp only [armLiterals, bind_eq_ok_iff]
  constructor
  · rintro ⟨first, hfirst, later, ⟨second, hsecond, _, hnil, hlater⟩, h⟩
    obtain rfl := Except.ok.inj hnil
    obtain rfl := Except.ok.inj hlater
    obtain rfl := Except.ok.inj h
    exact ⟨first, second, hfirst, hsecond, by cases first <;> cases second <;> rfl⟩
  · rintro ⟨first, second, hfirst, hsecond, rfl⟩
    refine ⟨first, hfirst, _, ⟨second, hsecond, [], rfl, rfl⟩, ?_⟩
    cases first <;> cases second <;> rfl

omit h in
/-- Which of two constants is the tag does not depend on their order. -/
theorem tagOf_comm {arm : Nat} {layout : Option UnionLayout} {p q : String} (hne : p ≠ q)
    (first second : Option String) :
    tagOf arm layout ((first.map (p, ·)).toList ++ (second.map (q, ·)).toList) =
      tagOf arm layout ((second.map (q, ·)).toList ++ (first.map (p, ·)).toList) := by
  cases first with
  | none => cases second <;> rfl
  | some a =>
    cases second with
    | none => rfl
    | some b =>
      cases layout with
      | none => rfl
      | some expected =>
        simp only [Option.map_some, Option.toList_some, List.singleton_append, tagOf, List.find?]
        by_cases hp : p = expected.tagField
        · subst hp
          simp [beq_false_of_ne hne.symm]
        · by_cases hq : q = expected.tagField
          · subst hq
            simp [beq_false_of_ne hne]
          · simp [beq_false_of_ne hp, beq_false_of_ne hq]

omit h in
/-- Reading an arm looks at its tag and at the first property that is not the tag. -/
theorem readArm_of_find? {arm : Nat} {draft : UnionDraft} {properties properties' : List (String × Json)}
    {literals literals' : List (String × String)} {layout : UnionLayout} {tag : String}
    {payload : Json} (htags : tagOf arm draft.layout literals' = tagOf arm draft.layout literals)
    (hfind : ∀ tagged ∈ literals, ∃ key v w,
      properties.find? (·.1 != tagged.1) = some (key, v) ∧
        properties'.find? (·.1 != tagged.1) = some (key, w) ∧ v.Matches w)
    (hread : readArm arm draft properties literals = .ok (layout, tag, payload)) :
    ∃ payload', readArm arm draft properties' literals' = .ok (layout, tag, payload') ∧
      payload.Matches payload' := by
  obtain ⟨tagged, htag, hread⟩ := bind_eq_ok_iff.1 hread
  obtain ⟨key, v, w, hfound, hfound', hmatch⟩ := hfind tagged (mem_of_tagOf htag)
  rw [readArm, htags, htag, ok_bind]
  dsimp only at hread ⊢
  rw [hfound] at hread
  rw [hfound']
  dsimp only at hread ⊢
  obtain ⟨⟨⟩, hagree, hread⟩ := bind_eq_ok_iff.1 hread
  rw [hagree, ok_bind]
  split at hread
  · cases hread
  next hnew =>
    rw [if_neg hnew]
    obtain ⟨rfl, htail⟩ := Prod.mk.inj (Except.ok.inj hread)
    obtain ⟨rfl, rfl⟩ := Prod.mk.inj htail
    exact ⟨w, rfl, hmatch⟩

/-- The two properties of an arm can stand in any order. -/
theorem readArm_matches {union : TypeName} {arm : Nat} {draft : UnionDraft}
    {properties properties' : List (String × Json)} {literals : List (String × String)}
    {layout : UnionLayout} {tag : String} {payload : Json}
    (hfields : Json.FieldsMatch properties properties') (hlength : properties.length = 2)
    (hliterals : armLiterals d union properties = .ok literals)
    (hread : readArm arm draft properties literals = .ok (layout, tag, payload)) :
    ∃ literals' payload', armLiterals d' union properties' = .ok literals' ∧
      readArm arm draft properties' literals' = .ok (layout, tag, payload') ∧
        payload.Matches payload' := by
  obtain ⟨p, q, rfl⟩ := List.length_eq_two.1 hlength
  obtain ⟨v, w, hv, hw, hordered⟩ := hfields.pair_cases
  obtain ⟨first, second, hfirst, hsecond, rfl⟩ := armLiterals_pair.1 hliterals
  have hfirst' := singleLiteral_matches h hv hfirst
  have hsecond' := singleLiteral_matches h hw hsecond
  have hne : p.1 ≠ q.1 := by
    have hnodup := hfields.nodup
    simp only [List.map_cons, List.map_nil, List.nodup_cons, List.mem_singleton] at hnodup
    exact hnodup.1
  have hpq : (p.1 != q.1) = true := bne_iff_ne.2 hne
  have hqp : (q.1 != p.1) = true := bne_iff_ne.2 hne.symm
  have htagged : ∀ tagged ∈ (first.map (p.1, ·)).toList ++ (second.map (q.1, ·)).toList,
      tagged.1 = p.1 ∨ tagged.1 = q.1 := by
    intro tagged hmem
    rcases List.mem_append.1 hmem with hmem | hmem
    · obtain ⟨text, -, rfl⟩ := Option.map_eq_some_iff.1 (Option.mem_toList.1 hmem)
      exact .inl rfl
    · obtain ⟨text, -, rfl⟩ := Option.map_eq_some_iff.1 (Option.mem_toList.1 hmem)
      exact .inr rfl
  have hfind : ∀ tagged ∈ (first.map (p.1, ·)).toList ++ (second.map (q.1, ·)).toList,
      ∃ key v w, [p, q].find? (·.1 != tagged.1) = some (key, v) ∧
        properties'.find? (·.1 != tagged.1) = some (key, w) ∧ v.Matches w := by
    intro tagged hmem
    rcases htagged tagged hmem with hkey | hkey
    · refine ⟨q.1, q.2, w, ?_, ?_, hw⟩
      · simp [List.find?, hkey, hqp]
      · rcases hordered with rfl | rfl <;> simp [List.find?, hkey, hqp]
    · refine ⟨p.1, p.2, v, ?_, ?_, hv⟩
      · simp [List.find?, hkey, hpq]
      · rcases hordered with rfl | rfl <;> simp [List.find?, hkey, hpq]
  rcases hordered with rfl | rfl
  · obtain ⟨payload', hread', hmatch⟩ := readArm_of_find? rfl hfind hread
    exact ⟨_, payload', armLiterals_pair.2 ⟨first, second, hfirst', hsecond', rfl⟩, hread', hmatch⟩
  · obtain ⟨payload', hread', hmatch⟩ := readArm_of_find? (tagOf_comm hne.symm second first) hfind hread
    exact ⟨_, payload', armLiterals_pair.2 ⟨second, first, hsecond', hfirst', rfl⟩, hread', hmatch⟩

end Build

end OpenApiServer
