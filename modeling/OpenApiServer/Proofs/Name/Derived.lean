import Mathlib.Data.Bool.AllAny
import Mathlib.Data.List.Infix
import Mathlib.Data.List.Pairwise
import OpenApiServer.Declaration.Basic
import OpenApiServer.Name.Identifier
import OpenApiServer.Proofs.Name.Stability

/-!
# Names with a word before them

Methods are named after fields and types by putting a word such as `set_` before a name. What comes
out is read as a name once more, and that changes nothing: the first word keeps the name from being
a keyword, from starting with a digit and from being blank.
-/

namespace OpenApiServer

namespace FieldName

open Name

/-- What a word needs so that a name is made by putting it before another. -/
structure Leading (word : List Char) : Prop where
  chars : ∀ c ∈ word, isSnakeChar c = true
  letter : ∃ c ∈ word, c ≠ '_'
  noDigit : word.head?.any isDigit = false
  noPlain : ∀ plain ∈ plainKeywords, ¬word <+: plain.toList

theorem leading_set : Leading "set_".toList where
  chars := List.all_eq_true.1 (by decide)
  letter := ⟨'s', by decide⟩
  noDigit := rfl
  noPlain := by decide

theorem leading_with : Leading "with_".toList where
  chars := List.all_eq_true.1 (by decide)
  letter := ⟨'w', by decide⟩
  noDigit := rfl
  noPlain := by decide

theorem leading_from : Leading "from_".toList where
  chars := List.all_eq_true.1 (by decide)
  letter := ⟨'f', by decide⟩
  noDigit := rfl
  noPlain := by decide

variable {word name : String}

/-- A leading word before characters of a name makes a proper name. -/
theorem Leading.proper (h : Leading word.toList)
    (hname : ∀ c ∈ name.toList, isSnakeChar c = true) : Proper ⟨word ++ name⟩ := by
  have hlist : (word ++ name).toList = word.toList ++ name.toList := String.toList_append
  refine ⟨?_, ?_, fun hplain => ?_, ?_⟩
  · rw [hlist]
    exact List.forall_mem_append.2 ⟨h.chars, hname⟩
  · obtain ⟨c, hc, hne⟩ := h.letter
    exact ⟨c, hlist ▸ List.mem_append_left _ hc, hne⟩
  · exact h.noPlain _ hplain (hlist ▸ List.prefix_append ..)
  · rw [startsWithDigit, hlist]
    cases hword : word.toList with
    | nil =>
      obtain ⟨c, hc, -⟩ := h.letter
      rw [hword] at hc
      cases hc
    | cons c rest =>
      have hdigit := h.noDigit
      rw [hword] at hdigit
      exact hdigit

theorem Leading.ofText_append (h : Leading word.toList)
    (hname : ∀ c ∈ name.toList, isSnakeChar c = true) : ofText (word ++ name) = ⟨word ++ name⟩ :=
  (h.proper hname).ofText_bare

variable {n n' : FieldName}

theorem Proper.derived_set (h : n.Proper) : n.derived "set" = ⟨"set_" ++ n.bare⟩ :=
  leading_set.ofText_append h.chars

theorem Proper.derived_with (h : n.Proper) : n.derived "with" = ⟨"with_" ++ n.bare⟩ :=
  leading_with.ofText_append h.chars

/-! ## Accessors -/

theorem bare_inj : n.bare = n'.bare ↔ n = n' := by
  cases n
  cases n'
  exact (mk.injEq ..).symm ▸ Iff.rfl

/-- The methods for a field: one that reads it and two that change it. -/
def accessors (n : FieldName) : List FieldName := [n, n.derived "set", n.derived "with"]

theorem Proper.accessors_eq (h : n.Proper) :
    n.accessors = [n, ⟨"set_" ++ n.bare⟩, ⟨"with_" ++ n.bare⟩] := by
  rw [accessors, h.derived_set, h.derived_with]

theorem Proper.mem_accessors_iff (h : n.Proper) {a : FieldName} :
    a ∈ n.accessors ↔ a.bare = n.bare ∨ a.bare = "set_" ++ n.bare ∨ a.bare = "with_" ++ n.bare := by
  simp [h.accessors_eq, ← bare_inj]

theorem Proper.proper_accessors (h : n.Proper) : ∀ a ∈ n.accessors, a.Proper := by
  rw [h.accessors_eq]
  exact List.forall_mem_cons.2 ⟨h, List.forall_mem_cons.2 ⟨leading_set.proper h.chars,
    List.forall_mem_singleton.2 (leading_with.proper h.chars)⟩⟩

theorem set_ne_with (s t : String) : "set_" ++ s ≠ "with_" ++ t := by
  intro heq
  have hfirst := congrArg (·.toList.head?) heq
  simp [String.toList_append] at hfirst

theorem ne_append_self (hword : word ≠ "") (s : String) : s ≠ word ++ s := by
  intro heq
  have hlength := congrArg String.length heq
  rw [String.length_append] at hlength
  have hempty : word.length = 0 := by omega
  exact hword (String.length_eq_zero_iff.1 hempty)

/-- Whether no name is another one with the word of an accessor before it. -/
def Unprefixed (names : List FieldName) : Prop :=
  ∀ n ∈ names, ∀ n' ∈ names, n.bare ≠ "set_" ++ n'.bare ∧ n.bare ≠ "with_" ++ n'.bare

instance (names : List FieldName) : Decidable (Unprefixed names) :=
  inferInstanceAs (Decidable (∀ n ∈ names, ∀ n' ∈ names, _))

namespace Unprefixed

variable {names : List FieldName} (h : Unprefixed names) (hproper : ∀ n ∈ names, n.Proper)

include h hproper

theorem nodup_accessors (hn : n ∈ names) : n.accessors.Nodup := by
  obtain ⟨hset, hwith⟩ := h n hn n hn
  simp [(hproper n hn).accessors_eq, ← bare_inj, hset, hwith]

theorem disjoint_accessors (hn : n ∈ names) (hn' : n' ∈ names) (hne : n ≠ n') :
    n.accessors.Disjoint n'.accessors := by
  have hbare : n.bare ≠ n'.bare := fun heq => hne (bare_inj.1 heq)
  obtain ⟨hset, hwith⟩ := h n hn n' hn'
  obtain ⟨hset', hwith'⟩ := h n' hn' n hn
  intro a ha ha'
  rcases (hproper n hn).mem_accessors_iff.1 ha with hown | hown | hown <;>
    rcases (hproper n' hn').mem_accessors_iff.1 ha' with hother | hother | hother <;>
    have heq := hown.symm.trans hother
  · exact hbare heq
  · exact hset heq
  · exact hwith heq
  · exact hset' heq.symm
  · exact hbare ((String.append_right_inj _).1 heq)
  · exact set_ne_with _ _ heq
  · exact hwith' heq.symm
  · exact set_ne_with _ _ heq.symm
  · exact hbare ((String.append_right_inj _).1 heq)

end Unprefixed

/-- Proper names are distinct exactly if they are written differently. -/
theorem nodup_texts_iff {names : List FieldName} (hproper : ∀ n ∈ names, n.Proper) :
    (names.map text).Nodup ↔ names.Nodup :=
  ⟨List.Nodup.of_map _, nodup_texts hproper⟩

/-- The accessors of distinct proper names are distinct if no name looks like an accessor of
another. -/
theorem nodup_accessors_iff {names : List FieldName} (hproper : ∀ n ∈ names, n.Proper)
    (hnames : names.Nodup) : (names.flatMap accessors).Nodup ↔ Unprefixed names := by
  rw [List.nodup_flatMap]
  constructor
  · rintro ⟨-, hdisjoint⟩ n hn n' hn'
    by_cases heq : n = n'
    · subst heq
      exact ⟨ne_append_self (by decide) _, ne_append_self (by decide) _⟩
    · have hsymm : Std.Symm (Function.onFun List.Disjoint accessors) :=
        ⟨fun _ _ hapart _ ha ha' => hapart ha' ha⟩
      have hapart : n.accessors.Disjoint n'.accessors := hdisjoint.forall hn hn' heq
      have hown : n ∈ n.accessors := List.mem_cons_self ..
      have hother := (hproper n' hn').mem_accessors_iff (a := n)
      exact ⟨fun hset => hapart hown (hother.2 (.inr (.inl hset))),
        fun hwith => hapart hown (hother.2 (.inr (.inr hwith)))⟩
  · intro h
    exact ⟨fun n hn => h.nodup_accessors hproper hn, hnames.pairwise_of_forall_ne
      fun n hn n' hn' hne => h.disjoint_accessors hproper hn hn' hne⟩

end FieldName

namespace Conversion

open FieldName

theorem constructorName_eq (c : Conversion) :
    c.constructorName = ⟨"from_" ++ Name.snakeCase [c.source.text]⟩ :=
  leading_from.ofText_append (Name.isSnakeChar_of_mem_snakeCase _)

theorem proper_constructorName (c : Conversion) : c.constructorName.Proper := by
  rw [constructorName_eq]
  exact leading_from.proper (Name.isSnakeChar_of_mem_snakeCase _)

/-- Constructors have one name if their sources are the same in snake case. -/
theorem constructorName_eq_iff {c c' : Conversion} :
    c.constructorName = c'.constructorName ↔
      Name.snakeCase [c.source.text] = Name.snakeCase [c'.source.text] := by
  rw [constructorName_eq, constructorName_eq, FieldName.mk.injEq, String.append_right_inj]

end Conversion

end OpenApiServer

/-!
## Endings of type names

Whatever text a type name is made of, it keeps a last word that is in Pascal case already. So the
names of responses are told apart from the names under which aliases look for their targets.
-/

namespace OpenApiServer

namespace Name

/-- Words that a type name keeps at its end. -/
structure LastWord (word : List Char) : Prop where
  filled : word ≠ []
  noMinus : word.head? ≠ some '-'
  ascii : ∀ c ∈ word, c.toNat < 128
  pascal : ∀ atWordStart, pascalFrom atWordStart word = word
  free : ∀ name ∈ reservedTypeNames, ¬word <:+ name.toList

variable {word : List Char}

theorem pascalFrom_append (hword : LastWord word) (atWordStart : Bool) (cs : List Char) :
    pascalFrom atWordStart (cs ++ word) = pascalFrom atWordStart cs ++ word := by
  induction cs generalizing atWordStart with
  | nil => exact hword.pascal atWordStart
  | cons c rest ih =>
    rw [List.cons_append, pascalFrom, pascalFrom]
    by_cases hc : isAlphanumeric c = true
    · rw [if_pos hc, if_pos hc, ih, List.cons_append]
    · rw [if_neg hc, if_neg hc, ih]

theorem suffix_pascalCase (hword : LastWord word) {fragments : List String}
    (h : word <:+ fragments.flatMap String.toList) : word <:+ (pascalCase fragments).toList := by
  obtain ⟨before, hbefore⟩ := h
  have hascii : toAscii (before ++ word) = toAscii before ++ word := by
    have hown := toAscii_of_ascii hword.ascii
    rw [toAscii, List.flatMap_append]
    exact congrArg (toAscii before ++ ·) hown
  rw [pascalCase, String.toList_ofList, pascalChars, ← hbefore, hascii,
    pascalFrom_append hword]
  exact List.suffix_append _ _

theorem suffix_splitMinus (hword : LastWord word) {text : String} (h : word <:+ text.toList) :
    word <:+ (splitMinus text).2.toList := by
  unfold splitMinus
  split
  next rest htext =>
    rw [htext] at h
    rcases List.suffix_cons_iff.1 h with rfl | hrest
    · exact absurd rfl hword.noMinus
    · rwa [String.toList_ofList]
  next => exact h

theorem suffix_append_left {before text : String} (h : word <:+ text.toList) :
    word <:+ (before ++ text).toList := by
  rw [String.toList_append]
  exact h.trans (List.suffix_append _ _)

theorem suffix_guardDigit {before text : String} (h : word <:+ text.toList) :
    word <:+ (guardDigit before text).toList := by
  unfold guardDigit
  split
  · exact suffix_append_left h
  · exact h

end Name

namespace TypeName

open Name

variable {word : List Char}

theorem suffix_ofText (hword : LastWord word) {raw : String} (h : word <:+ raw.toList) :
    word <:+ (ofText raw).text.toList := by
  have hpascal : word <:+ (pascalCase [(splitMinus raw).2]).toList := by
    refine suffix_pascalCase hword ?_
    rw [List.flatMap_singleton]
    exact suffix_splitMinus hword h
  have hsigned : word <:+ (if (splitMinus raw).1 then "Negative" ++ pascalCase [(splitMinus raw).2]
      else pascalCase [(splitMinus raw).2]).toList := by
    split
    · exact suffix_append_left hpascal
    · exact hpascal
  have hfilled : pascalCase [(splitMinus raw).2] ≠ "" := by
    intro hempty
    rw [hempty] at hpascal
    exact hword.filled (List.suffix_nil.1 hpascal)
  rw [ofText]
  dsimp only
  rw [if_neg hfilled]
  generalize (if (splitMinus raw).1 then _ else pascalCase [(splitMinus raw).2]) = signed
    at hsigned ⊢
  by_cases hreserved : reservedTypeNames.contains signed = true
  · exact absurd hsigned (hword.free signed (List.contains_iff_mem.1 hreserved))
  · rw [if_neg hreserved]
    exact suffix_guardDigit hsigned

theorem suffix_ofFragments (hword : LastWord word) {fragments : List String}
    (h : word <:+ fragments.flatMap String.toList) : word <:+ (ofFragments fragments).text.toList :=
  suffix_ofText hword (suffix_pascalCase hword h)

end TypeName

theorem Name.lastWord_response : LastWord "Response".toList where
  filled := by decide
  noMinus := by decide
  ascii := List.all_iff_forall_prop.1 (by decide)
  pascal := by decide
  free := by decide

/-- A name that ends as the value of another does is not the name of responses. -/
theorem TypeName.extend_value_ne_response (name : TypeName) (operation : String) :
    name.extend "Value" ≠ ofFragments [operation, "Response"] := by
  intro heq
  have hresponse : "Response".toList <:+ (name.extend "Value").text.toList := by
    rw [heq]
    exact suffix_ofFragments Name.lastWord_response (by simp)
  have hvalue : "Value".toList <:+ (name.extend "Value").text.toList := by
    rw [extend, String.toList_append]
    exact List.suffix_append _ _
  have hboth := List.suffix_of_suffix_length_le hvalue hresponse (by decide)
  exact absurd hboth (by decide)

end OpenApiServer
