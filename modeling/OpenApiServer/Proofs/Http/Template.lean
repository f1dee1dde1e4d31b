import Mathlib.Tactic.SplitIfs
import OpenApiServer.Http.Router
import OpenApiServer.Proofs.Data.Except
import OpenApiServer.Proofs.Text.Split

/-!
# Templates

The meaning of a path template, apart from any router. `Reads` says which segments a template
stands for; it has at most one reading, and none where a brace is misplaced. Two templates have
the same shape when they differ in the names of placeholders only. Among the templates that accept
one path, `Precedes` puts the fixed text before the placeholder at the first difference.

## Segments of paths

`segmentTexts` are the texts between the slashes of a path that are not empty. The router looks at
the normalized path; normalizing neither adds, drops nor changes a segment, so it sees the same
segments.
-/

namespace OpenApiServer.Http
open Text

/-- The texts between the slashes of a path that are not empty. -/
def segmentTexts (path : String) : List (List Char) := filledPieces '/' path.toList

/-- The second part carries the induction through a segment: its first piece is still open. -/
theorem splitOn_collapse (cs : List Char) :
    filledPieces '/' (normalizeChars.collapse true cs) = filledPieces '/' cs ∧
      ∃ piece pieces pieces', splitOn '/' cs = piece :: pieces ∧
        splitOn '/' (normalizeChars.collapse false cs) = piece :: pieces' ∧
        pieces'.filter (!·.isEmpty) = pieces.filter (!·.isEmpty) := by
  induction cs with
  | nil => simp [normalizeChars.collapse]
  | cons c rest ih =>
    obtain ⟨ihStart, piece, pieces, pieces', hs, hs', hpieces⟩ := ih
    by_cases hc : c = '/'
    · subst hc
      refine ⟨by simpa [normalizeChars.collapse] using ihStart,
        [], splitOn '/' rest, splitOn '/' (normalizeChars.collapse true rest), by simp,
        by simp [normalizeChars.collapse], ihStart⟩
    · have hcons : splitOn '/' (c :: rest) = (c :: piece) :: pieces := by
        simp [splitOn, hc, hs]
      have hcons' : splitOn '/' (c :: normalizeChars.collapse false rest) =
          (c :: piece) :: pieces' := by
        simp [splitOn, hc, hs']
      refine ⟨?_, c :: piece, pieces, pieces', hcons, ?_, hpieces⟩
      · simp [normalizeChars.collapse, hc, filledPieces, hcons, hcons', hpieces]
      · simpa [normalizeChars.collapse, hc] using hcons'

theorem filledPieces_normalizeChars (cs : List Char) :
    filledPieces '/' (normalizeChars cs) = filledPieces '/' cs := by
  unfold normalizeChars
  rw [filledPieces_cons_self]
  split_ifs with hlast
  · obtain ⟨before, hbefore⟩ := List.getLast?_eq_some_iff.1 hlast
    rw [hbefore, List.dropLast_concat, ← filledPieces_concat_self, ← hbefore]
    exact (splitOn_collapse cs).1
  · exact (splitOn_collapse cs).1

theorem pathSegments_eq (path : String) : pathSegments path = segmentTexts path :=
  filledPieces_normalizeChars path.toList

/-- A path that starts with a slash adds its segments to those of the path before it. -/
theorem segmentTexts_append {before after : String} (h : ∃ cs, after.toList = '/' :: cs) :
    segmentTexts (before ++ after) = segmentTexts before ++ segmentTexts after := by
  obtain ⟨cs, hcs⟩ := h
  simp [segmentTexts, hcs, filledPieces_append_sep]

end OpenApiServer.Http

/-! ## The meaning of templates -/

namespace OpenApiServer

namespace Http

theorem braced_iff {cs name : List Char} :
    (Text.dropStart? ['\x7b'] cs).bind (Text.dropEnd? ['\x7d']) = some name ↔
      cs = '\x7b' :: (name ++ ['\x7d']) := by
  simp only [Option.bind_eq_some_iff, Text.dropStart?_eq_some_iff, Text.dropEnd?_eq_some_iff]
  constructor
  · rintro ⟨rest, rfl, rfl⟩
    rfl
  · rintro rfl
    exact ⟨_, rfl, rfl⟩

def BraceFree (cs : List Char) : Prop := ∀ c ∈ cs, isBrace c = false

theorem braceFree_iff {cs : List Char} : BraceFree cs ↔ cs.any isBrace = false := by
  simp [BraceFree]

theorem not_braceFree_braced (name : List Char) : ¬ BraceFree ('\x7b' :: (name ++ ['\x7d'])) :=
  fun h => by simpa [isBrace] using h '\x7b' (by simp)

namespace Segment

/-- The text is a segment of a template: without braces, or a name between two of them. -/
inductive Spells : List Char → Segment → Prop where
  | fixed {cs : List Char} (free : BraceFree cs) : Spells cs (.fixed (String.ofList cs))
  | placeholder {name : List Char} (ne : name ≠ []) (free : BraceFree name) :
    Spells ('\x7b' :: (name ++ ['\x7d'])) (.placeholder (String.ofList name))

/-- A segment is free of braces, or a placeholder in braces whose name is neither empty nor has
braces. -/
def WellFormed (cs : List Char) : Prop :=
  BraceFree cs ∨ ∃ name, name ≠ [] ∧ BraceFree name ∧ cs = '\x7b' :: (name ++ ['\x7d'])

theorem wellFormed_iff {cs : List Char} : WellFormed cs ↔ ∃ segment, Spells cs segment := by
  constructor
  · rintro (h | ⟨name, hne, hfree, rfl⟩)
    · exact ⟨_, .fixed h⟩
    · exact ⟨_, .placeholder hne hfree⟩
  · rintro ⟨segment, h⟩
    cases h with
    | fixed free => exact .inl free
    | placeholder ne free => exact .inr ⟨_, ne, free, rfl⟩

theorem ofText?_eq_some_iff {cs : List Char} {segment : Segment} :
    ofText? cs = some segment ↔ Spells cs segment := by
  unfold ofText?
  constructor
  · intro h
    split at h
    next name hname =>
      obtain rfl := braced_iff.1 hname
      split_ifs at h with hbad
      obtain rfl := Option.some.inj h
      simp only [Bool.or_eq_true, not_or, Bool.not_eq_true, List.isEmpty_eq_false_iff] at hbad
      exact .placeholder hbad.1 (braceFree_iff.2 hbad.2)
    next =>
      split_ifs at h with hbad
      obtain rfl := Option.some.inj h
      exact .fixed (braceFree_iff.2 (Bool.not_eq_true _ ▸ hbad))
  · intro h
    cases h with
    | fixed free =>
      split
      next name hname =>
        obtain rfl := braced_iff.1 hname
        exact absurd free (not_braceFree_braced name)
      next => rw [braceFree_iff.1 free]; rfl
    | @placeholder name ne free =>
      rw [braced_iff.2 rfl]
      simp [ne, braceFree_iff.1 free]

theorem Spells.unique {cs : List Char} {a b : Segment} (ha : Spells cs a) (hb : Spells cs b) :
    a = b :=
  Option.some.inj ((ofText?_eq_some_iff.2 ha).symm.trans (ofText?_eq_some_iff.2 hb))

/-- Both are placeholders, or both the same fixed text. -/
def SameKind : Segment → Segment → Prop
  | .fixed a, .fixed b => a = b
  | .placeholder _, .placeholder _ => True
  | _, _ => False

theorem SameKind.refl (s : Segment) : SameKind s s := by
  cases s <;> simp [SameKind]

theorem SameKind.symm {s t : Segment} (h : SameKind s t) : SameKind t s := by
  cases s <;> cases t <;> simp_all [SameKind]

theorem SameKind.trans {s t u : Segment} (h : SameKind s t) (h' : SameKind t u) :
    SameKind s u := by
  cases s <;> cases t <;> cases u <;> simp_all [SameKind]

/-- A placeholder accepts every text and a fixed text only itself. -/
def Accepts : Segment → List Char → Prop
  | .fixed text, cs => text.toList = cs
  | .placeholder _, _ => True

end Segment

open Segment

/-- The segments that a template stands for. -/
def Reads (template : String) (segments : List Segment) : Prop :=
  List.Forall₂ Spells (segmentTexts template) segments

theorem Reads.unique {template : String} {a b : List Segment} (ha : Reads template a)
    (hb : Reads template b) : a = b := by
  unfold Reads at ha hb
  generalize segmentTexts template = texts at ha hb
  induction ha generalizing b with
  | nil => exact (List.forall₂_nil_left_iff.1 hb).symm
  | cons h _ ih =>
    cases hb with
    | cons h' hrest => rw [h.unique h', ih hrest]

theorem exists_reads_iff {template : String} :
    (∃ segments, Reads template segments) ↔ ∀ cs ∈ segmentTexts template, WellFormed cs := by
  unfold Reads
  induction segmentTexts template with
  | nil => simp
  | cons cs rest ih =>
    rw [List.forall_mem_cons, ← ih, wellFormed_iff]
    constructor
    · rintro ⟨_, h⟩
      cases h with
      | cons h hrest => exact ⟨⟨_, h⟩, _, hrest⟩
    · rintro ⟨⟨segment, h⟩, segments, hrest⟩
      exact ⟨segment :: segments, .cons h hrest⟩

/-- A template that starts with a slash is read apart from what stands before it. -/
theorem reads_append_iff {before after : String} (h : ∃ cs, after.toList = '/' :: cs)
    {segments : List Segment} :
    Reads (before ++ after) segments ↔
      ∃ s t, segments = s ++ t ∧ Reads before s ∧ Reads after t := by
  unfold Reads
  rw [segmentTexts_append h]
  constructor
  · intro hreads
    have hfirst := List.forall₂_take_append _ _ _ hreads.flip
    have hrest := List.forall₂_drop_append _ _ _ hreads.flip
    exact ⟨_, _, (List.take_append_drop _ segments).symm, hfirst.flip, hrest.flip⟩
  · rintro ⟨s, t, rfl, hs, ht⟩
    exact List.rel_append hs ht

theorem parseTemplate_eq_ok_iff {template : String} {segments : List Segment} :
    parseTemplate template = .ok segments ↔ Reads template segments := by
  unfold parseTemplate Reads
  rw [mapM_eq_ok_iff, pathSegments_eq]
  constructor
  · intro h
    refine h.imp fun cs segment hcs => ofText?_eq_some_iff.1 ?_
    cases hof : ofText? cs with
    | none => simp [hof] at hcs
    | some found => simpa [hof] using hcs
  · intro h
    refine h.imp fun cs segment hcs => ?_
    rw [ofText?_eq_some_iff.2 hcs]

/-- The templates differ in the names of placeholders only. -/
abbrev SameShape : List Segment → List Segment → Prop := List.Forall₂ SameKind

theorem SameShape.refl (segments : List Segment) : SameShape segments segments :=
  List.forall₂_same.2 fun s _ => SameKind.refl s

theorem SameShape.symm {a b : List Segment} (h : SameShape a b) : SameShape b a :=
  (List.Forall₂.imp (fun _ _ => SameKind.symm) h).flip

theorem SameShape.trans {a b c : List Segment} (h : SameShape a b) (h' : SameShape b c) :
    SameShape a c := by
  induction h generalizing c with
  | nil => simpa using h'
  | cons hs _ ih =>
    cases h' with
    | cons hs' h' => exact .cons (hs.trans hs') (ih h')

theorem SameShape.of_append {s a b : List Segment} (h : SameShape (s ++ a) (s ++ b)) :
    SameShape a b := by
  simpa using List.forall₂_drop s.length h

/-- The path has the fixed texts of the template, and any text where it has a placeholder. -/
abbrev AcceptsAll : List Segment → List (List Char) → Prop := List.Forall₂ Accepts

theorem AcceptsAll.of_sameShape {a b : List Segment} {path : List (List Char)}
    (same : SameShape a b) (h : AcceptsAll b path) : AcceptsAll a path := by
  induction same generalizing path with
  | nil => exact h
  | @cons s t a b hs _ ih =>
    cases h with
    | cons ht hrest =>
      refine .cons ?_ (ih hrest)
      cases s <;> cases t <;> simp_all [SameKind, Accepts]

/-- At the first difference in kind the first template has a fixed text and the second one a
placeholder. -/
inductive Precedes : List Segment → List Segment → Prop where
  | fixed_placeholder {text name : String} {a b : List Segment} :
    Precedes (.fixed text :: a) (.placeholder name :: b)
  | cons {s t : Segment} {a b : List Segment} (same : SameKind s t) (rest : Precedes a b) :
    Precedes (s :: a) (t :: b)

theorem Precedes.asymm {a b : List Segment} (h : Precedes a b) : ¬ Precedes b a := by
  induction h with
  | fixed_placeholder =>
    intro h
    cases h with
    | cons same _ => exact same
  | cons same _ ih =>
    intro h
    cases h with
    | fixed_placeholder => exact same
    | cons _ rest => exact ih rest

theorem Precedes.of_sameShape {a b c : List Segment} (same : SameShape a b) (h : Precedes b c) :
    Precedes a c := by
  induction h generalizing a with
  | fixed_placeholder =>
    cases same with
    | @cons s _ _ _ hs _ =>
      cases s with
      | fixed text => exact .fixed_placeholder
      | placeholder name => exact hs.elim
  | cons hst _ ih =>
    cases same with
    | cons hs hrest => exact .cons (hs.trans hst) (ih hrest)

/-- The placeholders of a template with what they take of a path, percent-decoded. -/
def captures (segments : List Segment) (path : List (List Char)) : List (String × String) :=
  (segments.zip path).filterMap fun
    | (.placeholder name, cs) => some (name, percentDecode cs)
    | (.fixed _, _) => none

/-- No placeholder is dropped. -/
theorem captures_map_fst {segments : List Segment} {path : List (List Char)}
    (h : AcceptsAll segments path) :
    (captures segments path).map (·.1) = Router.placeholderNames segments := by
  induction h with
  | nil => rfl
  | @cons s cs segments path _ _ ih =>
    cases s with
    | fixed text => simpa [captures, Router.placeholderNames] using ih
    | placeholder name => simpa [captures, Router.placeholderNames] using ih

end Http

end OpenApiServer
