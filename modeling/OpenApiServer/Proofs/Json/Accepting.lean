import OpenApiServer.Proofs.Json.Numerals
import OpenApiServer.Proofs.Json.Proper
import OpenApiServer.Proofs.Json.Strings

/-!
# Texts that are read

A reader of values takes exactly the values of the grammar: first lists and objects over any reader
of their parts, and then values of every depth. A reader of whole texts takes exactly the documents.
-/

namespace OpenApiServer.Json

/-! ## Lists and objects -/

/-- What a value starts with: neither a blank nor the end of a list. -/
def Opens (cs : List Char) : Prop := ∃ c rest, cs = c :: rest ∧ isBlank c = false ∧ c ≠ ']'

theorem continues_blank {text : List Char} {c : Char} (h : isBlank c = true) :
    continues text c = false := by
  simp only [isBlank, Bool.or_eq_true, beq_iff_eq, or_assoc] at h
  rcases h with rfl | rfl | rfl | rfl <;> simp [continues, isDigit, isExponentMark]

theorem not_continued_cons {rest text : List Char} {c : Char} (h : continues text c = false) :
    ¬Continued text (c :: rest) := by
  rintro ⟨-, hnext⟩
  rw [List.head?_cons, Option.any_some, h] at hnext
  cases hnext

theorem not_continued_blank {after text : List Char} (h : Blank after) :
    ¬Continued text after := by
  cases after with
  | nil => exact fun hnext => Bool.false_ne_true hnext.2
  | cons c after => exact not_continued_cons (continues_blank (h c (List.mem_cons_self ..)))

/-- Blanks, commas and closing brackets go on with no number. -/
theorem not_continued {after rest text : List Char} {c : Char} (hafter : Blank after)
    (hc : c = ',' ∨ c = ']' ∨ c = '\x7d') : ¬Continued text (after ++ c :: rest) := by
  cases after with
  | nil =>
    refine not_continued_cons ?_
    rcases hc with rfl | rfl | rfl <;> simp [continues, isDigit, isExponentMark]
  | cons d after => exact not_continued_cons (continues_blank (hafter d (List.mem_cons_self ..)))

/-- A reader that passes over blanks and then takes one of the values. -/
structure Recognises {α : Type} (read : Reader α) (value : List Char → Prop) : Prop where
  sound {cs rest : List Char} {a : α} (h : read cs = .ok (a, rest)) :
    ∃ before text, Blank before ∧ value text ∧ cs = before ++ (text ++ rest) ∧
      ¬Continued text rest
  complete {before text rest : List Char} (hbefore : Blank before) (htext : value text)
    (hrest : ¬Continued text rest) : ∃ a, read (before ++ (text ++ rest)) = .ok (a, rest)
  opens {text : List Char} (h : value text) : Opens text

section Containers

variable {α : Type} {read : Reader α} {value : List Char → Prop} {cs rest : List Char}

theorem Opens.skipBlank (h : Opens cs) (rest : List Char) :
    skipBlank (cs ++ rest) = cs ++ rest := by
  obtain ⟨c, cs, rfl, hc, -⟩ := h
  exact skipBlank_cons hc _

theorem Opens.length_pos (h : Opens cs) : 0 < cs.length := by
  obtain ⟨c, cs, rfl, -⟩ := h
  exact Nat.succ_pos _

theorem elements_sound (hread : Recognises read value) {fuel index : Nat} {xs : List α}
    (hcs : skipBlank cs = cs) (h : elements read fuel index cs = .ok (xs, rest)) :
    ∃ items, Separated value items ∧ cs = items ++ ']' :: rest := by
  induction fuel generalizing index cs xs rest with
  | zero => cases h
  | succ fuel ih =>
    obtain ⟨⟨x, left⟩, hx, hdone⟩ := bind_eq_ok_iff.1 h
    obtain ⟨before, text, hbefore, htext, rfl, -⟩ := hread.sound (within_eq_ok_iff.1 hx)
    -- An element is read from where no blank stands, so it passes over none.
    rw [skipBlank_append hbefore, (hread.opens htext).skipBlank, List.self_eq_append_left] at hcs
    obtain rfl := hcs
    obtain ⟨after, hafter, hleft⟩ := exists_skipBlank left
    dsimp only at hdone
    split at hdone
    next last heq =>
      obtain rfl := (Prod.mk.inj (Except.ok.inj hdone)).2
      refine ⟨text ++ after, .last htext hafter, ?_⟩
      rw [hleft, heq, List.nil_append, List.append_assoc]
    next more heq =>
      obtain ⟨blanks, hblanks, hnext⟩ := exists_skipBlank more
      split at hdone
      · cases hdone
      · cases hdone
      · obtain ⟨⟨later, last⟩, hlater, hlast⟩ := bind_eq_ok_iff.1 hdone
        obtain rfl := (Prod.mk.inj (Except.ok.inj hlast)).2
        obtain ⟨items, hitems, hall⟩ := ih (skipBlank_skipBlank _) hlater
        refine ⟨text ++ (after ++ ',' :: (blanks ++ items)), .more htext hafter hblanks hitems, ?_⟩
        rw [hleft, heq, hnext, hall]
        simp
    · cases hdone
    · cases hdone

theorem Separated.opens (hvalue : ∀ text, value text → Opens text) {items : List Char}
    (h : Separated value items) : Opens items := by
  cases h with
  | last htext | more htext =>
    obtain ⟨c, cs, rfl, hc⟩ := hvalue _ htext
    exact ⟨c, _, rfl, hc⟩

theorem elements_complete (hread : Recognises read value) {items : List Char}
    (h : Separated value items) (fuel index : Nat) (hfuel : items.length ≤ fuel)
    (rest : List Char) :
    ∃ xs, elements read fuel index (items ++ ']' :: rest) = .ok (xs, rest) := by
  have hstep {text after : List Char} (htext : value text) (hafter : Blank after) {c : Char}
      (hc : c = ',' ∨ c = ']' ∨ c = '\x7d') (rest : List Char) (index : Nat) :
      ∃ x, within (.index index) (read (text ++ (after ++ c :: rest))) =
        .ok (x, after ++ c :: rest) := by
    obtain ⟨x, hx⟩ := hread.complete (List.forall_mem_nil _) htext (not_continued hafter hc)
    exact ⟨x, within_eq_ok_iff.2 hx⟩
  induction h generalizing fuel index with
  | @last text after htext hafter =>
    have hlength := (hread.opens htext).length_pos
    rw [List.length_append] at hfuel
    obtain ⟨fuel, rfl⟩ := Nat.exists_eq_succ_of_ne_zero (n := fuel) (by omega)
    obtain ⟨x, hx⟩ := hstep htext hafter (.inr (.inl rfl)) rest index
    have hskip : skipBlank (after ++ ']' :: rest) = ']' :: rest := skipBlank_append hafter _
    refine ⟨[x], bind_eq_ok_iff.2 ⟨_, (by rw [List.append_assoc]; exact hx), ?_⟩⟩
    simp only [hskip]
    rfl
  | @more text after before items htext hafter hbefore hitems ih =>
    have hlength := (hread.opens htext).length_pos
    simp only [List.length_append, List.length_cons] at hfuel
    obtain ⟨fuel, rfl⟩ := Nat.exists_eq_succ_of_ne_zero (n := fuel) (by omega)
    obtain ⟨x, hx⟩ := hstep htext hafter (.inl rfl) (before ++ (items ++ ']' :: rest)) index
    obtain ⟨xs, hxs⟩ := ih fuel (index + 1) (by omega)
    have hskip : skipBlank (after ++ ',' :: (before ++ (items ++ ']' :: rest))) =
        ',' :: (before ++ (items ++ ']' :: rest)) := skipBlank_append hafter _
    have hnext : skipBlank (before ++ (items ++ ']' :: rest)) = items ++ ']' :: rest := by
      rw [skipBlank_append hbefore, (hitems.opens fun _ => hread.opens).skipBlank]
    refine ⟨x :: xs, bind_eq_ok_iff.2 ⟨_, (by simpa using hx), ?_⟩⟩
    simp only [hskip, hnext]
    obtain ⟨c, cs, rfl, -, hc⟩ := hitems.opens fun _ => hread.opens
    simp only [List.cons_append] at hxs ⊢
    simp [hc, hxs]

theorem exists_listBody_iff (hread : Recognises read value) :
    (∃ xs, listBody read cs = .ok (xs, rest)) ↔
      ∃ text, Bracketed '[' ']' value ('[' :: text) ∧ cs = text ++ rest := by
  obtain ⟨blanks, hblanks, hcs⟩ := exists_skipBlank cs
  constructor
  · rintro ⟨xs, h⟩
    unfold listBody at h
    split at h
    next after heq =>
      obtain rfl := (Prod.mk.inj (Except.ok.inj h)).2
      refine ⟨blanks ++ [']'], .empty hblanks, ?_⟩
      rw [hcs, heq, List.append_assoc, List.cons_append, List.nil_append]
    · cases h
    · obtain ⟨items, hitems, hall⟩ := elements_sound hread (skipBlank_skipBlank _) h
      refine ⟨blanks ++ (items ++ [']']), .filled hblanks hitems, ?_⟩
      rw [hcs, hall]
      simp
  · rintro ⟨text, htext, rfl⟩
    cases htext with
    | empty hempty =>
      refine ⟨[], ?_⟩
      rw [listBody, List.append_assoc, skipBlank_append hempty]
      rfl
    | @filled before items hbefore hitems =>
      have hopens := hitems.opens fun _ => hread.opens
      have hskip : skipBlank (before ++ (items ++ [']']) ++ rest) = items ++ ']' :: rest := by
        rw [List.append_assoc, List.append_assoc, skipBlank_append hbefore, hopens.skipBlank]
        rfl
      obtain ⟨xs, hxs⟩ := elements_complete hread hitems (items ++ ']' :: rest).length 0
        (by simp) rest
      obtain ⟨c, items, rfl, -, hc⟩ := hopens
      refine ⟨xs, ?_⟩
      rw [listBody, hskip]
      split
      next heq => exact absurd (List.cons.inj heq).1 hc
      next heq => cases heq
      next => exact hxs

end Containers

section Objects

variable {read : Reader Json} {value : List Char → Prop} {cs rest : List Char}
  {fields fields' : List (String × Json)} {key : String}

theorem readColon_eq_ok_iff :
    readColon cs = .ok rest ↔ ∃ before, Blank before ∧ cs = before ++ ':' :: rest := by
  constructor
  · intro h
    obtain ⟨before, hbefore, hcs⟩ := exists_skipBlank cs
    unfold readColon at h
    split at h
    next heq =>
      obtain rfl := Except.ok.inj h
      exact ⟨before, hbefore, by rw [hcs, heq]⟩
    · cases h
    · cases h
  · rintro ⟨before, hbefore, rfl⟩
    have hskip : skipBlank (before ++ ':' :: rest) = ':' :: rest := skipBlank_append hbefore _
    rw [readColon, hskip]
    rfl

theorem exists_valueEntry_iff (hread : Recognises read value)
    (fields : List (String × Json)) (key : String) :
    (∃ fields', valueEntry read fields key cs = .ok (fields', rest)) ↔
      ∃ before after text, Blank before ∧ Blank after ∧ value text ∧
        cs = before ++ ':' :: (after ++ (text ++ rest)) ∧ ¬Continued text rest := by
  constructor
  · rintro ⟨fields', h⟩
    obtain ⟨more, hcolon, h⟩ := bind_eq_ok_iff.1 (within_eq_ok_iff.1 h)
    obtain ⟨⟨v, left⟩, hv, h⟩ := bind_eq_ok_iff.1 h
    obtain rfl := (Prod.mk.inj (Except.ok.inj h)).2
    obtain ⟨before, hbefore, rfl⟩ := readColon_eq_ok_iff.1 hcolon
    obtain ⟨after, text, hafter, htext, rfl, hends⟩ := hread.sound hv
    exact ⟨before, after, text, hbefore, hafter, htext, rfl, hends⟩
  · rintro ⟨before, after, text, hbefore, hafter, htext, rfl, hends⟩
    obtain ⟨v, hv⟩ := hread.complete hafter htext hends
    have hcolon : readColon (before ++ ':' :: (after ++ (text ++ rest))) =
        .ok (after ++ (text ++ rest)) := readColon_eq_ok_iff.2 ⟨before, hbefore, rfl⟩
    exact ⟨_, within_eq_ok_iff.2 (bind_eq_ok_iff.2 ⟨_, hcolon, bind_eq_ok_iff.2 ⟨_, hv, rfl⟩⟩)⟩

/-- After its opening quote an entry is a key, a colon and a value. -/
theorem isEntry_iff {cs : List Char} : IsEntry value ('"' :: cs) ↔
    ∃ key before after text, IsString key ∧ Blank before ∧ Blank after ∧ value text ∧
      cs = key ++ (before ++ ':' :: (after ++ text)) := by
  constructor
  · rintro ⟨hkey, hbefore, hafter, h⟩
    exact ⟨_, _, _, _, hkey, hbefore, hafter, h, rfl⟩
  · rintro ⟨key, before, after, text, hkey, hbefore, hafter, h, rfl⟩
    exact .intro hkey hbefore hafter h

theorem entries_sound (hread : Recognises read value) {fuel : Nat}
    (h : entries (valueEntry read) fuel fields cs = .ok (fields', rest)) :
    ∃ items, Separated (IsEntry value) ('"' :: items) ∧ cs = items ++ '\x7d' :: rest := by
  induction fuel generalizing fields cs with
  | zero => cases h
  | succ fuel ih =>
    obtain ⟨⟨key, left⟩, hkey, hlater⟩ := bind_eq_ok_iff.1 h
    obtain ⟨⟨next, more⟩, hentry, hdone⟩ := bind_eq_ok_iff.1 hlater
    obtain ⟨s, hs, rfl⟩ := exists_readString_iff.1 ⟨_, within_eq_ok_iff.1 hkey⟩
    obtain ⟨before, after, text, hbefore, hafter, htext, rfl, -⟩ :=
      (exists_valueEntry_iff hread _ _).1 ⟨_, hentry⟩
    have hfirst := IsEntry.intro hs hbefore hafter htext
    obtain ⟨blanks, hblanks, hmore⟩ := exists_skipBlank more
    dsimp only at hdone
    split at hdone
    next last heq =>
      obtain rfl := (Prod.mk.inj (Except.ok.inj hdone)).2
      refine ⟨s ++ (before ++ ':' :: (after ++ text)) ++ blanks, .last hfirst hblanks, ?_⟩
      rw [hmore, heq]
      simp
    next later heq =>
      obtain ⟨blanks', hblanks', hlater⟩ := exists_skipBlank later
      split at hdone
      next next heq' =>
        obtain ⟨items, hitems, rfl⟩ := ih hdone
        refine ⟨s ++ (before ++ ':' :: (after ++ text)) ++
          (blanks ++ ',' :: (blanks' ++ '"' :: items)), .more hfirst hblanks hblanks' hitems, ?_⟩
        rw [hmore, heq, hlater, heq']
        simp
      · cases hdone
      · cases hdone
      · cases hdone
    · cases hdone
    · cases hdone

theorem IsEntry.quoted {entry : List Char} (h : IsEntry value entry) :
    ∃ cs, entry = '"' :: cs ∧ 0 < cs.length := by
  obtain ⟨hkey, hbefore, hafter, h⟩ := h
  exact ⟨_, rfl, by simp⟩

theorem Separated.quoted {items : List Char} (h : Separated (IsEntry value) items) :
    ∃ cs, items = '"' :: cs := by
  cases h with
  | last hitem | more hitem =>
    obtain ⟨cs, rfl, -⟩ := hitem.quoted
    exact ⟨_, rfl⟩

/-- The key and the value of an entry are read up to what stands after them. -/
theorem exists_entry (hread : Recognises read value) {entry after : List Char} {c : Char}
    (hentry : IsEntry value ('"' :: entry)) (hafter : Blank after) (hc : c = ',' ∨ c = '\x7d')
    (fields : List (String × Json)) (rest : List Char) :
    ∃ key left fields',
      within .betweenEntries (readString (entry ++ (after ++ c :: rest))) = .ok (key, left) ∧
        valueEntry read fields key left = .ok (fields', after ++ c :: rest) := by
  obtain ⟨s, before, later, text, hs, hbefore, hlater, htext, rfl⟩ := isEntry_iff.1 hentry
  have hends : ¬Continued text (after ++ c :: rest) :=
    not_continued hafter (hc.imp_right .inr)
  obtain ⟨key, hkey⟩ := exists_readString_iff.2 ⟨s, hs, rfl⟩
  obtain ⟨fields', hfields'⟩ := (exists_valueEntry_iff hread fields key).2
    ⟨before, later, text, hbefore, hlater, htext, rfl, hends⟩
  exact ⟨key, _, fields', within_eq_ok_iff.2 (by simpa using hkey), hfields'⟩

theorem entries_complete (hread : Recognises read value) {items : List Char}
    (h : Separated (IsEntry value) ('"' :: items)) (fuel : Nat) (hfuel : items.length ≤ fuel)
    (fields : List (String × Json)) (rest : List Char) :
    ∃ fields', entries (valueEntry read) fuel fields (items ++ '\x7d' :: rest) =
      .ok (fields', rest) := by
  -- The reader starts behind the quote of a key, the grammar before it.
  generalize hall : '"' :: items = all at h
  induction h generalizing items fuel fields with
  | @last entry after hentry hafter =>
    obtain ⟨entry, rfl, hpos⟩ := hentry.quoted
    obtain rfl : items = entry ++ after := (List.cons.inj hall).2
    rw [List.length_append] at hfuel
    obtain ⟨fuel, rfl⟩ := Nat.exists_eq_succ_of_ne_zero (n := fuel) (by omega)
    obtain ⟨key, left, fields', hkey, hvalue⟩ :=
      exists_entry hread hentry hafter (.inr rfl) fields rest
    have hskip : skipBlank (after ++ '\x7d' :: rest) = '\x7d' :: rest := skipBlank_append hafter _
    refine ⟨fields', bind_eq_ok_iff.2 ⟨_, (by rw [List.append_assoc]; exact hkey),
      bind_eq_ok_iff.2 ⟨_, hvalue, ?_⟩⟩⟩
    simp only [hskip]
    rfl
  | @more entry after before later hentry hafter hbefore hlater ih =>
    obtain ⟨entry, rfl, hpos⟩ := hentry.quoted
    obtain ⟨later, rfl⟩ := hlater.quoted
    obtain rfl : items = entry ++ (after ++ ',' :: (before ++ '"' :: later)) :=
      (List.cons.inj hall).2
    simp only [List.length_append, List.length_cons] at hfuel
    obtain ⟨fuel, rfl⟩ := Nat.exists_eq_succ_of_ne_zero (n := fuel) (by omega)
    obtain ⟨key, left, next, hkey, hvalue⟩ :=
      exists_entry hread hentry hafter (.inl rfl) fields
        (before ++ '"' :: (later ++ '\x7d' :: rest))
    obtain ⟨fields', hfields'⟩ := ih fuel (by omega) next rfl
    have hskip : skipBlank (after ++ ',' :: (before ++ '"' :: (later ++ '\x7d' :: rest))) =
        ',' :: (before ++ '"' :: (later ++ '\x7d' :: rest)) := skipBlank_append hafter _
    have hnext : skipBlank (before ++ '"' :: (later ++ '\x7d' :: rest)) =
        '"' :: (later ++ '\x7d' :: rest) := skipBlank_append hbefore _
    refine ⟨fields', bind_eq_ok_iff.2 ⟨_, (by simpa using hkey),
      bind_eq_ok_iff.2 ⟨_, hvalue, ?_⟩⟩⟩
    simp only [hskip, hnext]
    exact hfields'

theorem exists_objectBody_iff (hread : Recognises read value) :
    (∃ fields', objectBody (valueEntry read) fields cs = .ok (fields', rest)) ↔
      ∃ text, Bracketed '\x7b' '\x7d' (IsEntry value) ('\x7b' :: text) ∧ cs = text ++ rest := by
  constructor
  · rintro ⟨fields', h⟩
    obtain ⟨blanks, hblanks, hcs⟩ := exists_skipBlank cs
    unfold objectBody at h
    split at h
    next after heq =>
      obtain rfl := (Prod.mk.inj (Except.ok.inj h)).2
      refine ⟨blanks ++ ['\x7d'], .empty hblanks, ?_⟩
      rw [hcs, heq, List.append_assoc, List.cons_append, List.nil_append]
    next first heq =>
      obtain ⟨items, hitems, hall⟩ := entries_sound hread h
      refine ⟨blanks ++ ('"' :: items ++ ['\x7d']), .filled hblanks hitems, ?_⟩
      rw [hcs, heq, hall]
      simp
    · cases h
    · cases h
  · rintro ⟨text, htext, rfl⟩
    cases htext with
    | empty hempty =>
      refine ⟨fields, ?_⟩
      rw [objectBody, List.append_assoc, skipBlank_append hempty]
      rfl
    | @filled before items hbefore hitems =>
      obtain ⟨items, rfl⟩ := hitems.quoted
      obtain ⟨fields', hfields'⟩ := entries_complete hread hitems
        (items ++ '\x7d' :: rest).length (by simp) fields rest
      refine ⟨fields', ?_⟩
      rw [objectBody, List.append_assoc, List.append_assoc, skipBlank_append hbefore]
      exact hfields'

end Objects

/-! ## Values -/

section Values

variable {cs rest text : List Char} {depth : Nat}

theorem isValue_of_scalar (h : IsScalar text) : IsValue depth text := by
  cases depth with
  | zero => exact h
  | succ depth => exact .inl h

theorem IsNumeral.exists_digit (h : IsNumeral text) :
    ∃ c cs, text = c :: cs ∧ isDigit c = true := by
  obtain ⟨⟨⟨hne, hall⟩, -⟩, -, -⟩ := h
  obtain ⟨c, cs, rfl⟩ := List.exists_cons_of_ne_nil hne
  exact ⟨c, _, rfl, hall c (List.mem_cons_self ..)⟩

theorem isBlank_eq_false_of_isDigit {c : Char} (h : isDigit c = true) : isBlank c = false := by
  refine Bool.eq_false_iff.2 fun hblank => ?_
  simp only [isBlank, Bool.or_eq_true, beq_iff_eq, or_assoc] at hblank
  rcases hblank with rfl | rfl | rfl | rfl <;> cases h

theorem IsScalar.opens (h : IsScalar text) : Opens text := by
  cases h with
  | positive h =>
    obtain ⟨c, cs, rfl, hc⟩ := h.exists_digit
    refine ⟨c, cs, rfl, isBlank_eq_false_of_isDigit hc, ?_⟩
    rintro rfl
    cases hc
  | _ => exact ⟨_, _, rfl, rfl, by decide⟩

theorem Bracketed.exists_inner {first last : Char} {item : List Char → Prop}
    (h : Bracketed first last item text) : ∃ inner, text = first :: inner := by
  cases h <;> exact ⟨_, rfl⟩

theorem IsValue.opens (h : IsValue depth text) : Opens text := by
  cases depth with
  | zero => exact IsScalar.opens h
  | succ depth =>
    rcases h with h | h | h
    · exact h.opens
    · obtain ⟨inner, rfl⟩ := h.exists_inner
      exact ⟨_, _, rfl, rfl, by decide⟩
    · obtain ⟨inner, rfl⟩ := h.exists_inner
      exact ⟨_, _, rfl, rfl, by decide⟩

theorem not_continued_of_head {c : Char} (hc : (c == '-' || isDigit c) = false) :
    ¬Continued (c :: text) rest := by
  rintro ⟨h, -⟩
  rw [List.head?_cons, Option.any_some, hc] at h
  cases h

theorem continues_negative : continues ('-' :: text) = continues text := by
  funext c
  simp [continues, isExponentMark]

theorem continued_numeral_iff (h : IsNumeral text) :
    Continued text rest ↔ rest.head?.any (continues text) = true := by
  obtain ⟨c, cs, rfl, hc⟩ := h.exists_digit
  exact and_iff_right (by simp [hc])

theorem continued_negative_iff :
    Continued ('-' :: text) rest ↔ rest.head?.any (continues text) = true := by
  rw [Continued, continues_negative]
  exact and_iff_right rfl

theorem exists_word_iff {word : List Char} (j : Json) :
    (∃ v, (do return (j, ← readWord word cs)) = Except.ok (v, rest)) ↔ cs = word ++ rest := by
  constructor
  · rintro ⟨v, h⟩
    obtain ⟨left, hword, h⟩ := bind_eq_ok_iff.1 h
    obtain rfl := (Prod.mk.inj (Except.ok.inj h)).2
    exact readWord_eq_ok_iff.1 hword
  · intro h
    exact ⟨j, bind_eq_ok_iff.2 ⟨rest, readWord_eq_ok_iff.2 h, rfl⟩⟩

/-- A part that is read is turned into a value. -/
theorem exists_part_iff {α : Type} {part : Except Failure (α × List Char)} (f : α → Json) :
    (∃ v, (do let (a, left) ← part; return (f a, left)) = Except.ok (v, rest)) ↔
      ∃ a, part = .ok (a, rest) := by
  constructor
  · rintro ⟨v, h⟩
    obtain ⟨⟨a, left⟩, hpart, h⟩ := bind_eq_ok_iff.1 h
    obtain rfl := (Prod.mk.inj (Except.ok.inj h)).2
    exact ⟨a, hpart⟩
  · rintro ⟨a, h⟩
    exact ⟨f a, bind_eq_ok_iff.2 ⟨_, h, rfl⟩⟩

theorem value_sound {v : Json} (hbelow : ∀ d < depth, Recognises (value d) (IsValue d))
    (h : value depth cs = .ok (v, rest)) :
    ∃ before text, Blank before ∧ IsValue depth text ∧ cs = before ++ (text ++ rest) ∧
      ¬Continued text rest := by
  obtain ⟨before, hbefore, hcs⟩ := exists_skipBlank cs
  suffices htext : ∃ text, IsValue depth text ∧ skipBlank cs = text ++ rest ∧
      ¬Continued text rest by
    obtain ⟨text, htext, heq, hends⟩ := htext
    exact ⟨before, text, hbefore, htext, by rw [hcs, heq], hends⟩
  -- Only a number, in the last two cases, could go on with what follows.
  unfold value at h
  split at h
  · cases h
  next heq =>
    obtain rfl := (exists_word_iff _).1 ⟨_, h⟩
    exact ⟨_, isValue_of_scalar .null, heq, not_continued_of_head rfl⟩
  next heq =>
    obtain rfl := (exists_word_iff _).1 ⟨_, h⟩
    exact ⟨_, isValue_of_scalar .true, heq, not_continued_of_head rfl⟩
  next heq =>
    obtain rfl := (exists_word_iff _).1 ⟨_, h⟩
    exact ⟨_, isValue_of_scalar .false, heq, not_continued_of_head rfl⟩
  next heq =>
    obtain ⟨s, hs, rfl⟩ := exists_readString_iff.1 ((exists_part_iff _).1 ⟨_, h⟩)
    exact ⟨_, isValue_of_scalar (.string hs), heq, not_continued_of_head rfl⟩
  next heq =>
    split at h
    · cases h
    next depth =>
      obtain ⟨text, htext, rfl⟩ :=
        (exists_listBody_iff (hbelow depth (Nat.lt_succ_self _))).1 ((exists_part_iff _).1 ⟨_, h⟩)
      exact ⟨_, .inr (.inl htext), heq, not_continued_of_head rfl⟩
  next heq =>
    split at h
    · cases h
    next depth =>
      obtain ⟨text, htext, rfl⟩ :=
        (exists_objectBody_iff (hbelow depth (Nat.lt_succ_self _))).1 ((exists_part_iff _).1 ⟨_, h⟩)
      exact ⟨_, .inr (.inr htext), heq, not_continued_of_head rfl⟩
  next heq =>
    obtain ⟨text, htext, hrange, rfl, hends⟩ :=
      exists_readNumber_iff.1 ((exists_part_iff _).1 ⟨_, h⟩)
    refine ⟨_, isValue_of_scalar (.negative htext hrange), heq, ?_⟩
    rw [continued_negative_iff, hends]
    exact Bool.false_ne_true
  next c after _ _ _ _ _ _ _ heq =>
    split at h
    · obtain ⟨text, htext, hrange, hall, hends⟩ :=
        exists_readNumber_iff.1 ((exists_part_iff _).1 ⟨_, h⟩)
      refine ⟨_, isValue_of_scalar (.positive htext hrange), heq.trans hall, ?_⟩
      rw [continued_numeral_iff htext, hends]
      exact Bool.false_ne_true
    · cases h

theorem value_digit {c : Char} (hc : isDigit c = true) (cs : List Char) :
    value depth (c :: cs) =
      (do let (n, left) ← readNumber false (c :: cs); return (.num n, left)) := by
  have hne (d : Char) (hd : isDigit d = false) : c ≠ d := by
    rintro rfl
    cases hc.symm.trans hd
  unfold value
  rw [skipBlank_cons (isBlank_eq_false_of_isDigit hc)]
  simp [hne 'n' rfl, hne 't' rfl, hne 'f' rfl, hne '"' rfl, hne '[' rfl, hne '\x7b' rfl,
    hne '-' rfl, hc]

theorem value_complete_scalar (h : IsScalar text) (hends : ¬Continued text rest) :
    ∃ v, value depth (text ++ rest) = .ok (v, rest) := by
  cases h with
  | null =>
    unfold value
    exact (exists_word_iff _).2 rfl
  | true =>
    unfold value
    exact (exists_word_iff _).2 rfl
  | false =>
    unfold value
    exact (exists_word_iff _).2 rfl
  | string h =>
    unfold value
    exact (exists_part_iff _).2 (exists_readString_iff.2 ⟨_, h, rfl⟩)
  | negative h range =>
    unfold value
    rw [continued_negative_iff, Bool.not_eq_true] at hends
    exact (exists_part_iff _).2 (exists_readNumber_iff.2 ⟨_, h, range, rfl, hends⟩)
  | positive h range =>
    rw [continued_numeral_iff h, Bool.not_eq_true] at hends
    have hnumber := exists_readNumber_iff.2 ⟨_, h, range, rfl, hends⟩
    obtain ⟨c, cs, rfl, hc⟩ := h.exists_digit
    rw [List.cons_append, value_digit hc]
    exact (exists_part_iff _).2 hnumber

theorem value_complete (hbelow : ∀ d < depth, Recognises (value d) (IsValue d))
    (h : IsValue depth text) (hends : ¬Continued text rest) :
    ∃ v, value depth (text ++ rest) = .ok (v, rest) := by
  cases depth with
  | zero => exact value_complete_scalar h hends
  | succ depth =>
    have hread := hbelow depth (Nat.lt_succ_self _)
    rcases h with h | h | h
    · exact value_complete_scalar h hends
    · obtain ⟨inner, rfl⟩ := h.exists_inner
      unfold value
      exact (exists_part_iff _).2 ((exists_listBody_iff hread).2 ⟨inner, h, rfl⟩)
    · obtain ⟨inner, rfl⟩ := h.exists_inner
      unfold value
      exact (exists_part_iff _).2 ((exists_objectBody_iff hread).2 ⟨inner, h, rfl⟩)

theorem value_blank {before : List Char} (h : Blank before) (cs : List Char) :
    value depth (before ++ cs) = value depth cs := by
  unfold value
  rw [skipBlank_append h]

/-- At every depth the reader of values takes the values of that depth. -/
theorem recognises_value (depth : Nat) : Recognises (value depth) (IsValue depth) := by
  induction depth using Nat.strongRecOn with
  | ind depth ih =>
    refine ⟨fun h => value_sound ih h, fun hbefore htext hends => ?_, IsValue.opens⟩
    rw [value_blank hbefore]
    exact value_complete ih htext hends

/-- A value is read from a text exactly if the text starts with one. -/
theorem exists_value_iff : (∃ v, value maxDepth cs = .ok v) ↔ StartsWithValue cs := by
  constructor
  · rintro ⟨⟨v, rest⟩, h⟩
    obtain ⟨before, text, hbefore, htext, rfl, hends⟩ := (recognises_value maxDepth).sound h
    exact .intro hbefore htext hends
  · rintro ⟨hbefore, htext, hends⟩
    obtain ⟨v, hv⟩ := (recognises_value maxDepth).complete hbefore htext hends
    exact ⟨_, hv⟩

/-- A whole text is read exactly if it is one value between blanks. -/
theorem exists_parse_iff : (∃ v, parse cs = .ok v) ↔ IsDocument cs := by
  constructor
  · rintro ⟨v, h⟩
    obtain ⟨⟨w, rest⟩, hvalue, hdone⟩ := bind_eq_ok_iff.1 h
    obtain ⟨before, text, hbefore, htext, rfl, -⟩ := (recognises_value maxDepth).sound hvalue
    dsimp only at hdone
    split at hdone
    next hblank => exact .intro hbefore htext (blank_iff.2 hblank)
    next => cases hdone
  · rintro ⟨hbefore, htext, hafter⟩
    obtain ⟨v, hv⟩ :=
      (recognises_value maxDepth).complete hbefore htext (not_continued_blank hafter)
    refine ⟨v, bind_eq_ok_iff.2 ⟨_, hv, ?_⟩⟩
    simp only [blank_iff.1 hafter]
    rfl

theorem IsDocument.startsWithValue (h : IsDocument cs) : StartsWithValue cs := by
  obtain ⟨hbefore, htext, hafter⟩ := h
  exact .intro hbefore htext (not_continued_blank hafter)

end Values

end OpenApiServer.Json
