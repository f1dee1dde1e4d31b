import OpenApiServer.Proofs.Http.Template

/-!
# Paths and their segments

A normalized path is made of its segments alone: each of them comes after one slash, and a path
without segments is one slash. So two paths are normalized to one text exactly if they have the same
segments, and a router cannot tell such paths apart, neither as paths nor as templates.
-/

namespace OpenApiServer.Http

open Text

/-- A path without the slash at its end. -/
def dropFinalSlash (cs : List Char) : List Char :=
  if cs.getLast? = some '/' then cs.dropLast else cs

theorem dropFinalSlash_cons {c : Char} {cs : List Char} (h : c ≠ '/' ∨ cs ≠ []) :
    dropFinalSlash (c :: cs) = c :: dropFinalSlash cs := by
  cases cs with
  | nil => simp_all [dropFinalSlash]
  | cons d rest =>
    rw [dropFinalSlash, dropFinalSlash, List.getLast?_cons_cons, List.dropLast_cons_cons]
    split_ifs <;> rfl

theorem collapse_eq_nil_iff (cs : List Char) :
    normalizeChars.collapse true cs = [] ↔ filledPieces '/' cs = [] := by
  induction cs with
  | nil => simp [normalizeChars.collapse]
  | cons c rest ih =>
    by_cases hc : c = '/'
    · subst hc
      simpa [normalizeChars.collapse] using ih
    · obtain ⟨piece, pieces, -, hcons⟩ := splitOn_cons_ne hc rest
      simp [normalizeChars.collapse, hc, filledPieces, hcons]

theorem cons_intercalate (c : Char) (sep piece : List Char) (pieces : List (List Char)) :
    c :: sep.intercalate (piece :: pieces) = sep.intercalate ((c :: piece) :: pieces) := by
  cases pieces <;> simp

/-- What is left of a path is its segments with a slash between any two. After a segment has
started, its first piece is still open and may be empty. -/
theorem dropFinalSlash_collapse (cs : List Char) :
    dropFinalSlash (normalizeChars.collapse true cs) = ['/'].intercalate (filledPieces '/' cs) ∧
      ∃ piece pieces, splitOn '/' cs = piece :: pieces ∧
        dropFinalSlash (normalizeChars.collapse false cs) =
          ['/'].intercalate (piece :: pieces.filter (!·.isEmpty)) := by
  induction cs with
  | nil => simp [normalizeChars.collapse, dropFinalSlash]
  | cons c rest ih =>
    obtain ⟨ihStart, piece, pieces, hpieces, ihOpen⟩ := ih
    by_cases hc : c = '/'
    · subst hc
      refine ⟨by simpa [normalizeChars.collapse] using ihStart, [], splitOn '/' rest, by simp, ?_⟩
      change dropFinalSlash (normalizeChars.collapse false ('/' :: rest)) =
        ['/'].intercalate ([] :: filledPieces '/' rest)
      simp only [normalizeChars.collapse, if_true, Bool.false_eq_true, if_false]
      by_cases hnil : normalizeChars.collapse true rest = []
      · rw [hnil, (collapse_eq_nil_iff rest).1 hnil]
        rfl
      · rw [dropFinalSlash_cons (.inr hnil), ihStart,
          List.intercalate_cons_of_ne_nil (mt (collapse_eq_nil_iff rest).2 hnil)]
        rfl
    · have hcons : splitOn '/' (c :: rest) = (c :: piece) :: pieces := by
        simp [splitOn, hc, hpieces]
      have hopen (afterSlash : Bool) :
          dropFinalSlash (normalizeChars.collapse afterSlash (c :: rest)) =
            ['/'].intercalate ((c :: piece) :: pieces.filter (!·.isEmpty)) := by
        rw [normalizeChars.collapse, if_neg hc, dropFinalSlash_cons (.inl hc), ihOpen,
          cons_intercalate]
      refine ⟨?_, c :: piece, pieces, hcons, hopen false⟩
      rw [hopen true, filledPieces, hcons]
      rfl

/-- A normalized path is its segments, with a slash before each of them. -/
theorem normalizeChars_eq (cs : List Char) :
    normalizeChars cs = '/' :: ['/'].intercalate (filledPieces '/' cs) :=
  congrArg ('/' :: ·) (dropFinalSlash_collapse cs).1

theorem splitOn_normalizeChars {cs : List Char} (h : filledPieces '/' cs ≠ []) :
    splitOn '/' (normalizeChars cs) = [] :: filledPieces '/' cs := by
  have hsep : ∀ piece ∈ filledPieces '/' cs, '/' ∉ piece := fun piece hpiece =>
    sep_not_mem_of_mem_splitOn (List.mem_of_mem_filter hpiece)
  rw [normalizeChars_eq, splitOn_cons_self, splitOn_eq, List.splitOn_intercalate '/' hsep h]

theorem toList_normalizePath (path : String) :
    (normalizePath path).toList = normalizeChars path.toList :=
  String.toList_ofList

/-- A slash in a normalized path stands before a segment, but for the root. -/
theorem filled_after_slash {path : String} {before after : List Char}
    (h : (normalizePath path).toList = before ++ '/' :: after) :
    normalizePath path = "/" ∨ ∃ piece pieces, splitOn '/' after = piece :: pieces ∧ piece ≠ [] := by
  rw [toList_normalizePath] at h
  by_cases hnone : filledPieces '/' path.toList = []
  · rw [normalizePath, normalizeChars_eq, hnone]
    exact .inl rfl
  · obtain ⟨piece, pieces, hafter⟩ := List.exists_cons_of_ne_nil (splitOn_ne_nil '/' after)
    obtain ⟨first, rest, hbefore⟩ := List.exists_cons_of_ne_nil (splitOn_ne_nil '/' before)
    have hsplit := splitOn_normalizeChars hnone
    rw [h, splitOn_append_sep, hafter, hbefore, List.cons_append] at hsplit
    have hmem : piece ∈ filledPieces '/' path.toList := by
      rw [← (List.cons.inj hsplit).2]
      simp
    exact .inr ⟨piece, pieces, hafter, filled_of_mem_filledPieces hmem⟩

theorem no_double_slash (path : String) : ¬['/', '/'] <:+: (normalizePath path).toList := by
  rintro ⟨before, after, h⟩
  have hslash : (normalizePath path).toList = before ++ '/' :: ('/' :: after) := by simp [← h]
  rcases filled_after_slash hslash with hroot | ⟨piece, pieces, hpieces, hfilled⟩
  · rw [hroot] at hslash
    have hlength := congrArg List.length hslash
    simp only [List.length_append, List.length_cons] at hlength
    have hroot : "/".toList.length = 1 := rfl
    omega
  · rw [splitOn_cons_self] at hpieces
    exact hfilled (List.cons.inj hpieces).1.symm

theorem eq_root_of_final_slash {path : String} (h : ['/'] <:+ (normalizePath path).toList) :
    normalizePath path = "/" := by
  obtain ⟨before, hbefore⟩ := h
  rcases filled_after_slash hbefore.symm with hroot | ⟨piece, pieces, hpieces, hfilled⟩
  · exact hroot
  · exact absurd (List.cons.inj hpieces).1.symm hfilled

theorem segmentTexts_normalizePath (path : String) :
    segmentTexts (normalizePath path) = segmentTexts path := by
  rw [segmentTexts, toList_normalizePath, filledPieces_normalizeChars, segmentTexts]

theorem normalizePath_eq_iff {path other : String} :
    normalizePath other = normalizePath path ↔ segmentTexts other = segmentTexts path := by
  constructor
  · intro h
    rw [← segmentTexts_normalizePath, h, segmentTexts_normalizePath]
  · intro h
    rw [normalizePath, normalizePath, normalizeChars_eq, normalizeChars_eq]
    exact congrArg (fun pieces => String.ofList ('/' :: ['/'].intercalate pieces)) h

/-! ## Routers -/

/-- The error of an insertion as another spelling of the template gets it. -/
def InsertError.withTemplate (template : String) : InsertError → InsertError
  | .duplicate _ => .duplicate template
  | .malformedSegment _ segment => .malformedSegment template segment

theorem parseTemplate_respelled {template other : String}
    (h : segmentTexts other = segmentTexts template) :
    parseTemplate other = (parseTemplate template).mapError (·.withTemplate other) := by
  rw [parseTemplate, parseTemplate, mapError_mapM, pathSegments_eq, pathSegments_eq, h]
  congr 1
  funext cs
  cases Segment.ofText? cs <;> rfl

namespace Router

variable {α : Type} {template other : String}

/-- Insertions under two spellings of one template differ in the template that an error quotes. -/
theorem tryInsert_respelled (h : segmentTexts other = segmentTexts template) (router : Router α)
    (value : α) :
    router.tryInsert other value =
      ((router.tryInsert template value).1,
        (router.tryInsert template value).2.map (·.withTemplate other)) := by
  rw [tryInsert, tryInsert, parseTemplate_respelled h]
  cases parseTemplate template with
  | error e => rfl
  | ok segments =>
    simp only [Except.mapError]
    cases (router.root.insert ⟨placeholderNames segments, value⟩ segments).2 <;> rfl

theorem afterInsert_respelled (h : segmentTexts other = segmentTexts template) (router : Router α)
    (value : α) : router.afterInsert other value = router.afterInsert template value := by
  rw [afterInsert, tryInsert_respelled h, afterInsert]

theorem at?_respelled (h : segmentTexts other = segmentTexts template) (router : Router α) :
    router.at? other = router.at? template := by
  rw [at?, at?, pathSegments_eq, pathSegments_eq, h]

/-- Insertions of the same values in the same order, under other spellings of their templates. -/
def Respelled (calls' calls : List (String × α)) : Prop :=
  List.Forall₂ (fun c' c => segmentTexts c'.1 = segmentTexts c.1 ∧ c'.2 = c.2) calls' calls

/-- The spelling of templates leaves no trace in a router. -/
theorem foldl_respelled {calls' calls : List (String × α)} (h : Respelled calls' calls)
    (router : Router α) :
    calls'.foldl (fun router (template, value) => router.afterInsert template value) router =
      calls.foldl (fun router (template, value) => router.afterInsert template value) router := by
  induction h generalizing router with
  | nil => rfl
  | @cons c' c rest' rest same _ ih =>
    obtain ⟨template', value'⟩ := c'
    obtain ⟨template, value⟩ := c
    obtain ⟨hsegments, rfl⟩ : segmentTexts template' = segmentTexts template ∧ value' = value := same
    rw [List.foldl_cons, List.foldl_cons, ih]
    exact congrArg (List.foldl _ · rest) (afterInsert_respelled hsegments router value')

theorem ofRoutes_respelled {calls' calls : List (String × α)} (h : Respelled calls' calls) :
    ofRoutes calls' = ofRoutes calls :=
  foldl_respelled h empty

end Router

open Router (Respelled)

/-- A normalized path starts with a slash, has no two slashes in a row and ends with a slash only as
the root. It keeps the segments, and they alone decide what it is, what a router finds under it and
what a router answers to its insertion, after any insertions of templates in any spelling. -/
theorem paths_known_by_segments (path : String) :
    (∃ rest, (normalizePath path).toList = '/' :: rest) ∧
    ¬['/', '/'] <:+: (normalizePath path).toList ∧
    (['/'] <:+ (normalizePath path).toList → normalizePath path = "/") ∧
    segmentTexts (normalizePath path) = segmentTexts path ∧
    normalizePath (normalizePath path) = normalizePath path ∧
    ∀ other, segmentTexts other = segmentTexts path →
      normalizePath other = normalizePath path ∧
      ∀ (α : Type) (calls' calls : List (String × α)), Respelled calls' calls →
        (Router.ofRoutes calls').at? other = (Router.ofRoutes calls).at? path ∧
        ∀ value, (Router.ofRoutes calls').tryInsert other value =
          (((Router.ofRoutes calls).tryInsert path value).1,
            ((Router.ofRoutes calls).tryInsert path value).2.map (·.withTemplate other)) := by
  refine ⟨⟨_, toList_normalizePath path⟩, no_double_slash path, eq_root_of_final_slash,
    segmentTexts_normalizePath path, normalizePath_eq_iff.2 (segmentTexts_normalizePath path),
    fun other h => ⟨normalizePath_eq_iff.2 h, fun α calls' calls hcalls => ?_⟩⟩
  rw [Router.ofRoutes_respelled hcalls]
  exact ⟨Router.at?_respelled h _, fun value => Router.tryInsert_respelled h _ value⟩

theorem pets_under_two_spellings :
    segmentTexts "pets/7" = segmentTexts "//pets//7/" ∧
      Respelled [("pets/\x7bid\x7d/", 1)] [("/pets//\x7bid\x7d", 1)] ∧
      normalizePath "pets/7" = normalizePath "//pets//7/" ∧
      (Router.ofRoutes [("pets/\x7bid\x7d/", 1)]).at? "pets/7" =
        (Router.ofRoutes [("/pets//\x7bid\x7d", 1)]).at? "//pets//7/" := by
  have hpath : segmentTexts "pets/7" = segmentTexts "//pets//7/" := by decide +kernel
  have hcalls : Respelled [("pets/\x7bid\x7d/", 1)] [("/pets//\x7bid\x7d", 1)] :=
    .cons ⟨by decide +kernel, rfl⟩ .nil
  obtain ⟨-, -, -, -, -, hspellings⟩ := paths_known_by_segments "//pets//7/"
  obtain ⟨hnormal, hrouters⟩ := hspellings "pets/7" hpath
  exact ⟨hpath, hcalls, hnormal, (hrouters Nat _ _ hcalls).1⟩

end OpenApiServer.Http
