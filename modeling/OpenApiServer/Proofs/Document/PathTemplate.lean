import OpenApiServer.Document.PathTemplate
import OpenApiServer.Proofs.Http.Template

/-!
# Path templates of documents

A document's template is read as a router reads it: `parse` accepts a text only if every segment is
well-formed, and its segments are those that the router will see. So templates that a router cannot
tell apart have one shape.
-/

namespace OpenApiServer.PathTemplate

open Http

theorem segmentOf_eq_ok_iff {cs : List Char} {segment : Segment} :
    segmentOf cs = .ok segment ↔ Segment.Spells cs segment := by
  unfold segmentOf
  constructor
  · intro h
    split at h
    · cases h
    next name hne hname =>
      obtain rfl := braced_iff.1 hname
      split_ifs at h with hbad
      obtain rfl := Except.ok.inj h
      exact .placeholder hne (braceFree_iff.2 (Bool.not_eq_true _ ▸ hbad))
    next hnone =>
      split_ifs at h with hbad
      obtain rfl := Except.ok.inj h
      exact .fixed (braceFree_iff.2 (Bool.not_eq_true _ ▸ hbad))
  · intro h
    cases h with
    | fixed free =>
      split
      next hname =>
        obtain rfl := braced_iff.1 hname
        exact absurd free (not_braceFree_braced [])
      next name _ hname =>
        obtain rfl := braced_iff.1 hname
        exact absurd free (not_braceFree_braced name)
      next => rw [braceFree_iff.1 free]; rfl
    | @placeholder name ne free =>
      rw [braced_iff.2 rfl]
      cases name with
      | nil => exact absurd rfl ne
      | cons c cs => simp [braceFree_iff.1 free]

theorem segmentsFrom_spells {before segments : List Segment} {texts : List (List Char)}
    (h : segmentsFrom before texts = .ok segments) :
    List.Forall₂ Segment.Spells texts segments := by
  induction texts generalizing before segments with
  | nil =>
    obtain rfl := Except.ok.inj h
    exact .nil
  | cons cs rest ih =>
    obtain ⟨segment, hsegment, h⟩ := bind_eq_ok_iff.1 h
    have hlater : ∃ later, segmentsFrom (before ++ [segment]) rest = .ok later ∧
        pure (segment :: later) = (.ok segments : Except PathFlaw _) := by
      cases segment with
      | fixed text => exact bind_eq_ok_iff.1 h
      | placeholder name =>
        dsimp only at h
        split_ifs at h with hrepeated
        · cases h
        · exact bind_eq_ok_iff.1 h
    obtain ⟨later, hrest, h⟩ := hlater
    obtain rfl := Except.ok.inj h
    exact .cons (segmentOf_eq_ok_iff.1 hsegment) (ih hrest)

/-- What a template that has been parsed looks like. -/
structure Parsed (text : String) (t : PathTemplate) : Prop where
  text_eq : t.text = text
  slash : ∃ cs, text.toList = '/' :: cs
  reads : Reads text t.segments

theorem parsed_of_parse {text : String} {t : PathTemplate} (h : parse text = .ok t) :
    Parsed text t := by
  unfold parse at h
  split_ifs at h with hslash
  split at h
  next segments hsegments =>
    obtain rfl := Except.ok.inj h
    have hstarts : Text.startsWith text "/" = true := by simpa using hslash
    obtain ⟨rest, hrest⟩ := Option.isSome_iff_exists.1 hstarts
    exact ⟨rfl, ⟨rest, Text.dropStart?_eq_some_iff.1 hrest⟩, segmentsFrom_spells hsegments⟩
  next => cases h

theorem shape_eq_of_sameShape {a b : PathTemplate} (h : SameShape a.segments b.segments) :
    a.shape = b.shape := by
  have hparts : a.segments.map shapePart = b.segments.map shapePart := by
    generalize a.segments = s at h
    generalize b.segments = t at h
    induction h with
    | nil => rfl
    | @cons s t _ _ same _ ih =>
      rw [List.map_cons, List.map_cons, ih]
      cases s <;> cases t <;> simp_all [Segment.SameKind, shapePart]
  rw [shape, shape, hparts]

end OpenApiServer.PathTemplate
