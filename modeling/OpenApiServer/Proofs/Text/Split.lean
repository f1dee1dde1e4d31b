import Mathlib.Data.List.Basic
import OpenApiServer.Text.Basic

/-!
# Pieces of texts

`dropStart?` and `dropEnd?` take away the two ends of a text. `splitOn` cuts at every separator, so
it distributes over a separator that stands between two texts. `filledPieces` are the pieces that
are not empty; separators before, after or beside each other do not change them.
-/

namespace OpenApiServer.Text

theorem dropStart?_eq_some_iff {start cs rest : List Char} :
    dropStart? start cs = some rest ↔ cs = start ++ rest := by
  induction start generalizing cs with
  | nil => simp [dropStart?]
  | cons p ps ih =>
    cases cs with
    | nil => simp [dropStart?]
    | cons c cs =>
      by_cases h : p = c
      · simp [dropStart?, h, ih]
      · simp [dropStart?, h, Ne.symm h]

theorem dropEnd?_eq_some_iff {ending cs rest : List Char} :
    dropEnd? ending cs = some rest ↔ cs = rest ++ ending := by
  simp only [dropEnd?, Option.map_eq_some_iff, dropStart?_eq_some_iff]
  constructor
  · rintro ⟨before, hbefore, rfl⟩
    simpa using congrArg List.reverse hbefore
  · rintro rfl
    exact ⟨rest.reverse, by simp, by simp⟩

@[simp] theorem splitOn_nil (sep : Char) : splitOn sep [] = [[]] := rfl

@[simp] theorem splitOn_cons_self (sep : Char) (cs : List Char) :
    splitOn sep (sep :: cs) = [] :: splitOn sep cs := by
  simp [splitOn]

/-- A character other than the separator joins the first piece. -/
theorem splitOn_cons_ne {sep c : Char} (h : c ≠ sep) (cs : List Char) :
    ∃ piece pieces, splitOn sep cs = piece :: pieces ∧
      splitOn sep (c :: cs) = (c :: piece) :: pieces := by
  obtain ⟨piece, pieces, hs⟩ := List.exists_cons_of_ne_nil (splitOn_ne_nil sep cs)
  exact ⟨piece, pieces, hs, by simp [splitOn, h, hs]⟩

theorem splitOn_eq (sep : Char) (cs : List Char) : splitOn sep cs = cs.splitOn sep := by
  induction cs with
  | nil => rfl
  | cons c rest ih =>
    rw [List.splitOn, List.splitOnP_cons_eq_if_modifyHead, ← List.splitOn, ← ih]
    by_cases h : c = sep
    · simp [splitOn, h]
    · obtain ⟨piece, pieces, hs, hcons⟩ := splitOn_cons_ne h rest
      simp [h, hs, hcons]

theorem splitOn_append_sep (sep : Char) (before after : List Char) :
    splitOn sep (before ++ sep :: after) = splitOn sep before ++ splitOn sep after := by
  induction before with
  | nil => simp
  | cons c rest ih =>
    by_cases hc : c = sep
    · subst hc
      simp [ih]
    · obtain ⟨piece, pieces, hs, hcons⟩ := splitOn_cons_ne hc rest
      rw [hs] at ih
      simp only [List.cons_append, splitOn, if_neg hc, ih, hs]

theorem splitOn_eq_singleton {sep : Char} {cs : List Char} (h : sep ∉ cs) :
    splitOn sep cs = [cs] := by
  induction cs with
  | nil => rfl
  | cons c rest ih =>
    obtain ⟨hc, hrest⟩ := not_or.1 (mt List.mem_cons.2 h)
    rw [splitOn, if_neg (Ne.symm hc), ih hrest]

theorem sep_not_mem_of_mem_splitOn {sep : Char} {cs piece : List Char}
    (h : piece ∈ splitOn sep cs) : sep ∉ piece := by
  induction cs generalizing piece with
  | nil => simp_all
  | cons c rest ih =>
    by_cases hc : c = sep
    · subst hc
      rw [splitOn_cons_self] at h
      rcases List.mem_cons.1 h with rfl | h
      · exact List.not_mem_nil
      · exact ih h
    · obtain ⟨first, pieces, hs, hcons⟩ := splitOn_cons_ne hc rest
      rw [hs] at ih
      rw [hcons] at h
      rcases List.mem_cons.1 h with rfl | h
      · exact not_or.2 ⟨Ne.symm hc, ih (List.mem_cons_self ..)⟩ ∘ List.mem_cons.1
      · exact ih (List.mem_cons_of_mem _ h)

/-- A text before another one adds to the first of its pieces. -/
theorem splitOn_append (sep : Char) (before after : List Char) :
    ∃ init last first rest, splitOn sep before = init ++ [last] ∧
      splitOn sep after = first :: rest ∧
      splitOn sep (before ++ after) = init ++ (last ++ first) :: rest := by
  obtain ⟨first, rest, hafter⟩ := List.exists_cons_of_ne_nil (splitOn_ne_nil sep after)
  induction before with
  | nil => exact ⟨[], [], first, rest, rfl, hafter, hafter⟩
  | cons c before ih =>
    obtain ⟨init, last, first, rest, hbefore, hafter, hjoined⟩ := ih
    by_cases hc : c = sep
    · subst hc
      refine ⟨[] :: init, last, first, rest, ?_, hafter, ?_⟩
      · rw [splitOn_cons_self, hbefore, List.cons_append]
      · rw [List.cons_append, splitOn_cons_self, hjoined, List.cons_append]
    · cases init with
      | nil =>
        refine ⟨[], c :: last, first, rest, ?_, hafter, ?_⟩
        · simp [splitOn, hc, hbefore]
        · simp [splitOn, hc, hjoined]
      | cons piece init =>
        refine ⟨(c :: piece) :: init, last, first, rest, ?_, hafter, ?_⟩
        · simp [splitOn, hc, hbefore]
        · simp [splitOn, hc, hjoined]

theorem tail_splitOn_append {sep : Char} {before : List Char} (h : sep ∉ before)
    (after : List Char) : (splitOn sep (before ++ after)).tail = (splitOn sep after).tail := by
  obtain ⟨init, last, first, rest, hbefore, hafter, hjoined⟩ := splitOn_append sep before after
  rw [splitOn_eq_singleton h] at hbefore
  obtain ⟨rfl, -⟩ := List.singleton_eq_append_iff.1 hbefore |>.resolve_right (by simp)
  rw [hjoined, hafter]
  rfl

/-- Texts that one text follows have the same later lines as they are and with what follows. -/
theorem tail_splitOn_append_inj {sep : Char} {a b : List Char} (after : List Char) :
    (splitOn sep (a ++ after)).tail = (splitOn sep (b ++ after)).tail ↔
      (splitOn sep a).tail = (splitOn sep b).tail := by
  obtain ⟨init, last, first, rest, ha, hafter, hjoined⟩ := splitOn_append sep a after
  obtain ⟨init', last', first', rest', hb, hafter', hjoined'⟩ := splitOn_append sep b after
  obtain ⟨rfl, rfl⟩ := List.cons_eq_cons.1 (hafter.symm.trans hafter')
  rw [ha, hb, hjoined, hjoined']
  cases init with
  | nil =>
    cases init' with
    | nil => simp
    | cons piece init' =>
      refine iff_of_false (fun heq => ?_) (by simp)
      have hlength := congrArg List.length heq
      simp at hlength
      omega
  | cons piece init =>
    cases init' with
    | nil =>
      refine iff_of_false (fun heq => ?_) (by simp)
      have hlength := congrArg List.length heq
      simp at hlength
      omega
    | cons piece' init' =>
      simp only [List.cons_append, List.tail_cons]
      constructor
      · intro heq
        have hlength : init.length = init'.length := by
          have hlength := congrArg List.length heq
          simpa using hlength
        obtain ⟨rfl, hlast⟩ := List.append_inj heq hlength
        rw [List.append_cancel_right (List.cons_eq_cons.1 hlast).1]
      · intro heq
        obtain ⟨rfl, hlast⟩ := List.append_inj' heq rfl
        rw [List.singleton_inj.1 hlast]

/-- The pieces of a text that are not empty. -/
def filledPieces (sep : Char) (cs : List Char) : List (List Char) :=
  (splitOn sep cs).filter (!·.isEmpty)

theorem filled_of_mem_filledPieces {sep : Char} {cs piece : List Char}
    (h : piece ∈ filledPieces sep cs) : piece ≠ [] := by
  simpa using (List.mem_filter.1 h).2

@[simp] theorem filledPieces_nil (sep : Char) : filledPieces sep [] = [] := by
  simp [filledPieces]

@[simp] theorem filledPieces_cons_self (sep : Char) (cs : List Char) :
    filledPieces sep (sep :: cs) = filledPieces sep cs := by
  simp [filledPieces]

theorem filledPieces_append_sep (sep : Char) (before after : List Char) :
    filledPieces sep (before ++ sep :: after) =
      filledPieces sep before ++ filledPieces sep after := by
  simp [filledPieces, splitOn_append_sep]

theorem filledPieces_concat_self (sep : Char) (cs : List Char) :
    filledPieces sep (cs ++ [sep]) = filledPieces sep cs := by
  rw [filledPieces_append_sep, filledPieces_nil, List.append_nil]

end OpenApiServer.Text
