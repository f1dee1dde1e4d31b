import OpenApiServer.Proofs.Http.Template

/-!
# The routes of a trie

`routeAt` is the route that stands at the end of given segments; it does not look at the names of
placeholders. Insertion changes it at one shape only, and not at all when it fails. The search for
a path finds the route of the first template that accepts the path, in the order of `Precedes`,
and its buffer ends with what the placeholders of that template take.
-/

namespace OpenApiServer

theorem insertField_eq_self {α : Type} {key : String} {value : α} {fields : List (String × α)}
    (h : fieldNamed? key fields = some value) : insertField key value fields = fields := by
  induction fields with
  | nil => simp [fieldNamed?] at h
  | cons f rest ih =>
    by_cases hk : f.1 = key
    · obtain rfl : f.2 = value := by simpa [fieldNamed?, hk] using h
      simp [insertField, ← hk]
    · have hrest : fieldNamed? key rest = some value := by simpa [fieldNamed?, hk] using h
      simp [insertField, hk, ih hrest]

namespace Http

/-- The texts of a path that the placeholders of a template take. -/
def capturedTexts (segments : List Segment) (path : List (List Char)) : List String :=
  (captures segments path).map (·.2)

@[simp] theorem capturedTexts_fixed (text : String) (segments : List Segment) (cs : List Char)
    (path : List (List Char)) :
    capturedTexts (.fixed text :: segments) (cs :: path) = capturedTexts segments path := rfl

@[simp] theorem capturedTexts_placeholder (name : String) (segments : List Segment)
    (cs : List Char) (path : List (List Char)) :
    capturedTexts (.placeholder name :: segments) (cs :: path) =
      percentDecode cs :: capturedTexts segments path := rfl

/-- What placeholders take does not depend on their names. -/
theorem capturedTexts_eq_of_sameShape {a b : List Segment} (same : SameShape a b)
    (path : List (List Char)) : capturedTexts a path = capturedTexts b path := by
  induction same generalizing path with
  | nil => rfl
  | @cons s t a b hs _ ih =>
    cases path with
    | nil => simp [capturedTexts, captures]
    | cons cs path => cases s <;> cases t <;> simp_all [Segment.SameKind]

theorem zip_capturedTexts {segments : List Segment} {path : List (List Char)}
    (h : AcceptsAll segments path) :
    (Router.placeholderNames segments).zip (capturedTexts segments path) =
      captures segments path := by
  rw [← captures_map_fst h, capturedTexts, List.zip_map', List.map_id'']
  exact fun _ => rfl

namespace Node

variable {α : Type}

@[simp] theorem fixedChild?_empty (text : String) : (empty : Node α).fixedChild? text = none := rfl

@[simp] theorem placeholderChild?_empty : (empty : Node α).placeholderChild? = none := rfl

@[simp] theorem route_empty : (empty : Node α).route = none := rfl

@[simp] theorem route_setFixedChild (node child : Node α) (text : String) :
    (node.setFixedChild text child).route = node.route := by
  cases node
  rfl

@[simp] theorem fixedChild?_setFixedChild_self (node child : Node α) (text : String) :
    (node.setFixedChild text child).fixedChild? text = some child := by
  cases node
  exact fieldNamed?_insertField_self ..

theorem fixedChild?_setFixedChild_ne {text other : String} (h : text ≠ other)
    (node child : Node α) :
    (node.setFixedChild text child).fixedChild? other = node.fixedChild? other := by
  cases node
  exact fieldNamed?_insertField_ne h ..

@[simp] theorem placeholderChild?_setFixedChild (node child : Node α) (text : String) :
    (node.setFixedChild text child).placeholderChild? = node.placeholderChild? := by
  cases node
  rfl

@[simp] theorem route_setPlaceholderChild (node child : Node α) :
    (node.setPlaceholderChild child).route = node.route := by
  cases node
  rfl

@[simp] theorem fixedChild?_setPlaceholderChild (node child : Node α) (text : String) :
    (node.setPlaceholderChild child).fixedChild? text = node.fixedChild? text := by
  cases node
  rfl

@[simp] theorem placeholderChild?_setPlaceholderChild (node child : Node α) :
    (node.setPlaceholderChild child).placeholderChild? = some child := by
  cases node
  rfl

theorem setFixedChild_self {node child : Node α} {text : String}
    (h : node.fixedChild? text = some child) : node.setFixedChild text child = node := by
  cases node
  exact congrArg (fun fixed => mk _ fixed _) (insertField_eq_self h)

theorem setPlaceholderChild_self {node child : Node α} (h : node.placeholderChild? = some child) :
    node.setPlaceholderChild child = node := by
  cases node
  exact congrArg (mk _ _) h.symm

/-- The route at the end of the segments. -/
def routeAt : List Segment → Node α → Option (Route α)
  | [], node => node.route
  | .fixed text :: rest, node => (node.fixedChild? text).bind (routeAt rest)
  | .placeholder _ :: rest, node => node.placeholderChild?.bind (routeAt rest)

@[simp] theorem routeAt_empty (segments : List Segment) :
    routeAt segments (empty : Node α) = none := by
  cases segments with
  | nil => rfl
  | cons s rest => cases s <;> rfl

theorem routeAt_getD_fixed (node : Node α) (text : String) (rest : List Segment) :
    routeAt rest ((node.fixedChild? text).getD empty) = routeAt (.fixed text :: rest) node := by
  cases h : node.fixedChild? text <;> simp [routeAt, h]

theorem routeAt_getD_placeholder (node : Node α) (name : String) (rest : List Segment) :
    routeAt rest (node.placeholderChild?.getD empty) =
      routeAt (.placeholder name :: rest) node := by
  cases h : node.placeholderChild? <;> simp [routeAt, h]

theorem routeAt_eq_of_sameShape {a b : List Segment} (h : SameShape a b) (node : Node α) :
    routeAt a node = routeAt b node := by
  induction h generalizing node with
  | nil => rfl
  | @cons s t a b same _ ih =>
    have hrest : (routeAt a : Node α → Option (Route α)) = routeAt b := funext ih
    cases s <;> cases t <;> simp_all [routeAt, Segment.SameKind]

/-! ## Insertion -/

section Insertion

variable (r : Route α)

/-- A route is put where none stands. -/
theorem insert_placed (segments : List Segment) (node : Node α) :
    (insert r segments node).2 = (routeAt segments node).isNone := by
  induction segments generalizing node with
  | nil =>
    cases node with
    | mk route fixed placeholder => cases route <;> rfl
  | cons s rest ih =>
    cases s with
    | fixed text => rw [← routeAt_getD_fixed, ← ih]; rfl
    | placeholder name => rw [← routeAt_getD_placeholder, ← ih]; rfl

theorem routeAt_insert_same {segments other : List Segment} {node : Node α}
    (hplaced : routeAt segments node = none) (h : SameShape segments other) :
    routeAt other (insert r segments node).1 = some r := by
  induction h generalizing node with
  | nil =>
    cases node with
    | mk route fixed placeholder =>
      obtain rfl : route = none := hplaced
      rfl
  | @cons s t a b same _ ih =>
    cases s with
    | fixed text =>
      cases t with
      | fixed text' =>
        obtain rfl : text = text' := same
        rw [← routeAt_getD_fixed] at hplaced
        simpa [insert, routeAt] using ih hplaced
      | placeholder name => exact same.elim
    | placeholder name =>
      cases t with
      | fixed text => exact same.elim
      | placeholder name' =>
        rw [← routeAt_getD_placeholder] at hplaced
        simpa [insert, routeAt] using ih hplaced

/-- The nodes that insertion opens hold no route of another shape. -/
theorem routeAt_insert_other {segments other : List Segment} (h : ¬ SameShape segments other)
    (node : Node α) : routeAt other (insert r segments node).1 = routeAt other node := by
  induction segments generalizing other node with
  | nil =>
    cases other with
    | nil => exact absurd .nil h
    | cons t rest =>
      cases node with
      | mk route fixed placeholder => cases route <;> cases t <;> rfl
  | cons s rest ih =>
    cases other with
    | nil => cases s <;> simp [insert, routeAt]
    | cons t others =>
      have hrest (same : s.SameKind t) : ¬ SameShape rest others := fun h' => h (.cons same h')
      cases s with
      | fixed text =>
        cases t with
        | fixed text' =>
          by_cases ht : text = text'
          · subst ht
            have hchild := ih (hrest rfl) ((node.fixedChild? text).getD empty)
            rw [routeAt_getD_fixed] at hchild
            simpa [insert, routeAt] using hchild
          · simp [insert, routeAt, fixedChild?_setFixedChild_ne ht]
        | placeholder name => simp [insert, routeAt]
      | placeholder name =>
        cases t with
        | fixed text => simp [insert, routeAt]
        | placeholder name' =>
          have hchild := ih (hrest trivial) (node.placeholderChild?.getD empty)
          rw [routeAt_getD_placeholder node name'] at hchild
          simpa [insert, routeAt] using hchild

/-- The segments of a template that is there lead over nodes that are there. -/
theorem insert_eq_self {segments : List Segment} {node : Node α}
    (h : (routeAt segments node).isSome) : (insert r segments node).1 = node := by
  induction segments generalizing node with
  | nil =>
    cases node with
    | mk route fixed placeholder =>
      cases route with
      | none => simp [routeAt, Node.route] at h
      | some old => rfl
  | cons s rest ih =>
    cases s with
    | fixed text =>
      cases hc : node.fixedChild? text with
      | none => simp [routeAt, hc] at h
      | some child =>
        have hchild : (insert r rest child).1 = child := ih (by simpa [routeAt, hc] using h)
        simpa [insert, hc, hchild] using setFixedChild_self hc
    | placeholder name =>
      cases hc : node.placeholderChild? with
      | none => simp [routeAt, hc] at h
      | some child =>
        have hchild : (insert r rest child).1 = child := ih (by simpa [routeAt, hc] using h)
        simpa [insert, hc, hchild] using setPlaceholderChild_self hc

end Insertion

/-! ## Search -/

/-- What a search for `path` below a node ends with, when it started with the texts `captured`. -/
inductive Found (path : List (List Char)) (node : Node α) (captured : List String) :
    Option (Route α) × List String → Prop where
  | route {segments : List Segment} {r : Route α} (accepts : AcceptsAll segments path)
    (stands : routeAt segments node = some r)
    (first : ∀ other, AcceptsAll other path → (routeAt other node).isSome →
      SameShape segments other ∨ Precedes segments other) :
    Found path node captured (some r, captured ++ capturedTexts segments path)
  | nothing (absent : ∀ other, AcceptsAll other path → routeAt other node = none) :
    Found path node captured (none, captured)

theorem accepts_cons_iff {segments : List Segment} {cs : List Char} {path : List (List Char)} :
    AcceptsAll segments (cs :: path) ↔
      (∃ rest, segments = .fixed (String.ofList cs) :: rest ∧ AcceptsAll rest path) ∨
      ∃ name rest, segments = .placeholder name :: rest ∧ AcceptsAll rest path := by
  constructor
  · intro h
    cases h with
    | @cons s _ rest _ h hrest =>
      cases s with
      | fixed text =>
        obtain rfl : text.toList = cs := h
        exact .inl ⟨rest, by simp, hrest⟩
      | placeholder name => exact .inr ⟨name, rest, rfl, hrest⟩
  · rintro (⟨rest, rfl, hrest⟩ | ⟨name, rest, rfl, hrest⟩)
    · exact .cons (String.toList_ofList) hrest
    · exact .cons trivial hrest

theorem Found.viaFixed {cs : List Char} {path : List (List Char)} {node child : Node α}
    {captured buffer : List String} {r : Route α}
    (hchild : node.fixedChild? (String.ofList cs) = some child)
    (h : Found path child captured (some r, buffer)) :
    Found (cs :: path) node captured (some r, buffer) := by
  cases h with
  | @route segments _ accepts stands first =>
    have haccepts : AcceptsAll (.fixed (String.ofList cs) :: segments) (cs :: path) :=
      .cons String.toList_ofList accepts
    refine Found.route haccepts (by simpa [routeAt, hchild] using stands) ?_
    intro other hother hstands
    rcases accepts_cons_iff.1 hother with ⟨rest, rfl, hrest⟩ | ⟨name, rest, rfl, -⟩
    · rcases first rest hrest (by simpa [routeAt, hchild] using hstands) with hsame | hprec
      · exact .inl (.cons rfl hsame)
      · exact .inr (.cons rfl hprec)
    · exact .inr .fixed_placeholder

theorem Found.viaPlaceholder {cs : List Char} {path : List (List Char)} {node child : Node α}
    {captured buffer : List String} {r : Route α}
    (hfixed : ∀ other, AcceptsAll other path →
      routeAt (.fixed (String.ofList cs) :: other) node = none)
    (hchild : node.placeholderChild? = some child)
    (h : Found path child (captured ++ [percentDecode cs]) (some r, buffer)) :
    Found (cs :: path) node captured (some r, buffer) := by
  cases h with
  | @route segments _ accepts stands first =>
    have haccepts : AcceptsAll (.placeholder "" :: segments) (cs :: path) := .cons trivial accepts
    rw [List.append_assoc]
    refine Found.route haccepts (by simpa [routeAt, hchild] using stands) ?_
    intro other hother hstands
    rcases accepts_cons_iff.1 hother with ⟨rest, rfl, hrest⟩ | ⟨name, rest, rfl, hrest⟩
    · simp [hfixed rest hrest] at hstands
    · rcases first rest hrest (by simpa [routeAt, hchild] using hstands) with hsame | hprec
      · exact .inl (.cons trivial hsame)
      · exact .inr (.cons trivial hprec)

/-- What is found below the placeholder once the fixed text has led to no route. -/
theorem search_placeholder {cs : List Char} {path : List (List Char)} {node : Node α}
    {captured : List String}
    (ih : ∀ (child : Node α) captured, Found path child captured (search path child captured))
    (hfixed : ∀ other, AcceptsAll other path →
      routeAt (.fixed (String.ofList cs) :: other) node = none) :
    Found (cs :: path) node captured
      (match node.placeholderChild? with
      | none => (none, captured)
      | some child =>
        match search path child (captured ++ [percentDecode cs]) with
        | (some r, captured) => (some r, captured)
        | (none, left) => (none, left.take captured.length)) := by
  have absent (hplaceholder : ∀ name other, AcceptsAll other path →
      routeAt (.placeholder name :: other) node = none) :
      Found (cs :: path) node captured (none, captured) := by
    refine .nothing fun other hother => ?_
    rcases accepts_cons_iff.1 hother with ⟨rest, rfl, hrest⟩ | ⟨name, rest, rfl, hrest⟩
    · exact hfixed rest hrest
    · exact hplaceholder name rest hrest
  cases hchild : node.placeholderChild? with
  | none => exact absent fun name other _ => by simp [routeAt, hchild]
  | some child =>
    have hfound := ih child (captured ++ [percentDecode cs])
    rcases hsearch : search path child (captured ++ [percentDecode cs]) with ⟨found, buffer⟩
    rw [hsearch] at hfound
    cases found with
    | some r => simpa only [hsearch] using hfound.viaPlaceholder hfixed hchild
    | none =>
      cases hfound with
      | nothing hnone =>
        simpa [hsearch] using absent fun name other h => by
          simpa [routeAt, hchild] using hnone other h

/-- The fixed text is tried first; when it leads to no route the buffer is as it was. -/
theorem search_found (path : List (List Char)) (node : Node α) (captured : List String) :
    Found path node captured (search path node captured) := by
  induction path generalizing node captured with
  | nil =>
    have hnil {other : List Segment} (h : AcceptsAll other []) : other = [] := by
      simpa using h
    cases hr : node.route with
    | none =>
      rw [show search [] node captured = (none, captured) by simp [search, hr]]
      exact .nothing fun other h => by rw [hnil h]; exact hr
    | some r =>
      rw [show search [] node captured = (some r, captured ++ capturedTexts [] []) by
        simp [search, hr, capturedTexts, captures]]
      exact .route .nil hr fun other h _ => .inl (by rw [hnil h]; exact .nil)
  | cons cs path ih =>
    unfold search
    cases hchild : node.fixedChild? (String.ofList cs) with
    | none => exact search_placeholder ih fun other _ => by simp [routeAt, hchild]
    | some child =>
      have hfound := ih child captured
      rcases hsearch : search path child captured with ⟨found, buffer⟩
      rw [hsearch] at hfound
      cases found with
      | some r => simpa [hsearch] using hfound.viaFixed hchild
      | none =>
        cases hfound with
        | nothing hnone =>
          have hfixed (other : List Segment) (h : AcceptsAll other path) :
              routeAt (.fixed (String.ofList cs) :: other) node = none := by
            simpa [routeAt, hchild] using hnone other h
          simp only [hsearch]
          exact search_placeholder ih hfixed

end Node

end Http

end OpenApiServer
