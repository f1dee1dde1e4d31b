import Mathlib.Data.Bool.AllAny
import Mathlib.Data.Finset.Card
import Mathlib.Data.List.Nodup
import Std.Data.String.ToNat
import OpenApiServer.Name.Identifier

/-!
# Names that stay as they are

A field name is made of any text, but what it is made of does not show: it consists of small
letters, digits and underscores, and starting over from such a name gives the name again. That
holds of numbered names as well, so that a name that has been chosen because it is free is also the
name that is printed. How texts are spelled in ASCII does not matter for this, as long as texts in
ASCII stay as they are.

## Unique names are free

The numbered forms of a base differ from each other and from the base, so one of as many as there
are used names is free: the search for it ends before its tries do.
-/

namespace OpenApiServer.Name

theorem numbered_injective (base : String) : Function.Injective (numbered base) := by
  intro m n h
  have hdigits : toString m = toString n := (String.append_right_inj base).1 h
  exact Nat.repr_injective hdigits

theorem numbered_ne_base (base : String) (n : Nat) : numbered base n ≠ base := by
  intro h
  simp [numbered] at h

theorem firstFree_spec (base : String) (used : List String) (tries n : Nat) :
    ∃ k, n ≤ k ∧ firstFree base used tries n = numbered base k ∧
      (∀ j, n ≤ j → j < k → numbered base j ∈ used) ∧
      (numbered base k ∉ used ∨ k = n + tries) := by
  induction tries generalizing n with
  | zero => exact ⟨n, Nat.le_refl _, rfl, fun j hj hk => by omega, .inr rfl⟩
  | succ tries ih =>
    by_cases hn : numbered base n ∈ used
    · obtain ⟨k, hk, heq, hused, hend⟩ := ih (n + 1)
      refine ⟨k, by omega, by rw [firstFree, if_pos hn, heq], fun j hj hjk => ?_, ?_⟩
      · rcases Nat.eq_or_lt_of_le hj with rfl | hlt
        · exact hn
        · exact hused j hlt hjk
      · rcases hend with hfree | rfl
        · exact .inl hfree
        · exact .inr (by omega)
    · exact ⟨n, Nat.le_refl _, by rw [firstFree, if_neg hn], fun j hj hk => by omega, .inl hn⟩

/-- The base and its numbered forms are different names, so as many names are used as are found to
be. -/
theorem card_of_numbered_used {base : String} {used : List String} {m : Nat} (hbase : base ∈ used)
    (hused : ∀ j < m, numbered base (2 + j) ∈ used) : m + 1 ≤ used.toFinset.card := by
  let names := base :: (List.range m).map fun j => numbered base (2 + j)
  have hnodup : names.Nodup := by
    refine List.nodup_cons.2 ⟨?_, List.nodup_range.map fun i j h => ?_⟩
    · simp [numbered_ne_base]
    · have := numbered_injective base h
      omega
  have hsubset : names ⊆ used := by
    intro name hname
    rcases List.mem_cons.1 hname with rfl | hname
    · exact hbase
    · obtain ⟨j, hj, rfl⟩ := List.mem_map.1 hname
      exact hused j (List.mem_range.1 hj)
  calc m + 1 = names.length := by simp [names]
    _ = names.toFinset.card := (List.toFinset_card_of_nodup hnodup).symm
    _ ≤ used.toFinset.card := Finset.card_le_card fun name hname =>
        List.mem_toFinset.2 (hsubset (List.mem_toFinset.1 hname))

/-- The base and its first numbered forms cannot all be used: they are more than the used names. -/
theorem exists_free {base : String} {used : List String} (hbase : base ∈ used) :
    ∃ j < used.length, numbered base (2 + j) ∉ used := by
  by_contra hnone
  push Not at hnone
  have hcard := card_of_numbered_used hbase hnone
  have hlength := used.toFinset_card_le
  omega

/-- What `unique` gives: the base, or its first numbered form that is free. -/
theorem unique_spec (base : String) (used : List String) :
    (base ∉ used ∧ unique base used = base) ∨
    (base ∈ used ∧ ∃ k, 2 ≤ k ∧ unique base used = numbered base k ∧ numbered base k ∉ used ∧
      ∀ j, 2 ≤ j → j < k → numbered base j ∈ used) := by
  by_cases hbase : base ∈ used
  · refine .inr ⟨hbase, ?_⟩
    obtain ⟨k, hk, heq, hused, hend⟩ := firstFree_spec base used used.length 2
    refine ⟨k, hk, by rw [unique, if_pos hbase, heq], ?_, hused⟩
    rcases hend with hfree | rfl
    · exact hfree
    · obtain ⟨j, hj, hfree⟩ := exists_free hbase
      exact absurd (hused (2 + j) (by omega) (by omega)) hfree
  · exact .inl ⟨hbase, if_neg hbase⟩

theorem unique_not_mem (base : String) (used : List String) : unique base used ∉ used := by
  rcases unique_spec base used with ⟨hfree, heq⟩ | ⟨-, k, -, heq, hfree, -⟩
  · rwa [heq]
  · rwa [heq]

end OpenApiServer.Name

/-! ## Characters of names -/

namespace OpenApiServer

namespace Name

/-- The characters of names in snake case. -/
def isSnakeChar (c : Char) : Bool := isLower c || isDigit c || c == '_'

theorem isSnakeChar_iff {c : Char} :
    isSnakeChar c = true ↔ 97 ≤ c.val.toNat ∧ c.val.toNat ≤ 122 ∨
      48 ≤ c.val.toNat ∧ c.val.toNat ≤ 57 ∨ c.val.toNat = 95 := by
  have hunderscore : c = '_' ↔ c.val.toNat = 95 := by
    rw [← UInt32.toNat_inj.trans Char.val_inj]
    rfl
  simp only [isSnakeChar, isLower, isDigit, Bool.or_eq_true, Bool.and_eq_true, decide_eq_true_eq,
    beq_iff_eq, Char.le_def, UInt32.le_iff_toNat_le, hunderscore, or_assoc]
  rfl

theorem isUpper_iff {c : Char} :
    isUpper c = true ↔ 65 ≤ c.val.toNat ∧ c.val.toNat ≤ 90 := by
  simp only [isUpper, Bool.and_eq_true, decide_eq_true_eq, Char.le_def, UInt32.le_iff_toNat_le]
  rfl

theorem isUpper_of_isSnakeChar {c : Char} (h : isSnakeChar c = true) : isUpper c = false := by
  have hcode := isSnakeChar_iff.1 h
  rw [Bool.eq_false_iff, Ne, isUpper_iff]
  omega

theorem isWordChar_iff {c : Char} :
    isWordChar c = true ↔ isSnakeChar c = true ∨ isUpper c = true := by
  simp only [isWordChar, isAlphanumeric, isLetter, isSnakeChar, Bool.or_eq_true]
  tauto

theorem toNat_toLower {c : Char} (h : isUpper c = true) :
    c.toLower.val.toNat = c.val.toNat + 32 := by
  have hcode := isUpper_iff.1 h
  have hupper : c.val ≥ 'A'.val ∧ c.val ≤ 'Z'.val :=
    hcode.imp UInt32.le_iff_toNat_le.2 UInt32.le_iff_toNat_le.2
  unfold Char.toLower
  rw [dif_pos hupper]
  change (c.val + 32).toNat = _
  rw [UInt32.toNat_add]
  change (c.val.toNat + 32) % 2 ^ 32 = _
  omega

theorem toLower_of_not_isUpper {c : Char} (h : isUpper c = false) : c.toLower = c := by
  have hcode : ¬(c.val ≥ 'A'.val ∧ c.val ≤ 'Z'.val) := fun hval =>
    Bool.eq_false_iff.1 h <| isUpper_iff.2 <|
      hval.imp UInt32.le_iff_toNat_le.1 UInt32.le_iff_toNat_le.1
  unfold Char.toLower
  rw [dif_neg hcode]

theorem isSnakeChar_toLower {c : Char} (h : isWordChar c = true) :
    isSnakeChar c.toLower = true := by
  rcases isWordChar_iff.1 h with hsnake | hupper
  · rwa [toLower_of_not_isUpper (isUpper_of_isSnakeChar hsnake)]
  · have hcode := isUpper_iff.1 hupper
    rw [isSnakeChar_iff, toNat_toLower hupper]
    omega

/-! ## Snake case -/

theorem isSnakeChar_of_mem_snakeFrom {state : WordState} {afterLower : Bool} {cs : List Char} :
    ∀ c ∈ snakeFrom state afterLower cs, isSnakeChar c = true := by
  induction cs generalizing state afterLower with
  | nil => simp [snakeFrom]
  | cons c rest ih =>
    by_cases hword : isWordChar c = true
    · have htail (after : Bool) : ∀ c' ∈ c.toLower :: snakeFrom .inWord after rest,
          isSnakeChar c' = true :=
        List.forall_mem_cons.2 ⟨isSnakeChar_toLower hword, ih⟩
      rw [snakeFrom, if_pos hword]
      by_cases hbreak : breaksBefore state afterLower c = true
      · rw [if_pos hbreak]
        exact List.forall_mem_cons.2 ⟨by decide, htail _⟩
      · rw [if_neg hbreak]
        exact htail _
    · rw [snakeFrom, if_neg hword]
      exact ih

/-- A word in snake case stays as it is, from its start and inside it. -/
theorem snakeFrom_eq_self {state : WordState} {afterLower : Bool} {cs : List Char}
    (hstate : state ≠ .afterSeparator) (h : ∀ c ∈ cs, isSnakeChar c = true) :
    snakeFrom state afterLower cs = cs := by
  induction cs generalizing state afterLower with
  | nil => rfl
  | cons c rest ih =>
    obtain ⟨hc, hrest⟩ := List.forall_mem_cons.1 h
    have hword : isWordChar c = true := isWordChar_iff.2 (.inl hc)
    have hupper := isUpper_of_isSnakeChar hc
    have hbreak : breaksBefore state afterLower c = false := by
      cases state with
      | start => rfl
      | inWord => simp [breaksBefore, hupper]
      | afterSeparator => exact absurd rfl hstate
    rw [snakeFrom, if_pos hword]
    dsimp only
    rw [hbreak, toLower_of_not_isUpper hupper, ih (by simp) hrest]
    rfl

theorem toNat_lt_of_isSnakeChar {c : Char} (h : isSnakeChar c = true) : c.toNat < 128 := by
  have hcode := isSnakeChar_iff.1 h
  change c.val.toNat < 128
  omega

/-- A way to spell texts, under which those in ASCII stay as they are. -/
def KeepsAscii (spell : List Char → List Char) : Prop :=
  ∀ cs, (∀ c ∈ cs, c.toNat < 128) → spell cs = cs

theorem keepsAscii_toAscii : KeepsAscii toAscii := fun _ => toAscii_of_ascii

/-- The joined fragments in snake case, under a spelling. -/
def snakeCaseBy (spell : List Char → List Char) (fragments : List String) : String :=
  String.ofList (snakeFrom .start false (spell (fragments.flatMap String.toList)))

theorem snakeCase_eq : snakeCase = snakeCaseBy toAscii := rfl

theorem isSnakeChar_of_mem_snakeCaseBy (spell : List Char → List Char) (fragments : List String) :
    ∀ c ∈ (snakeCaseBy spell fragments).toList, isSnakeChar c = true := by
  rw [snakeCaseBy, String.toList_ofList]
  exact isSnakeChar_of_mem_snakeFrom

theorem snakeCaseBy_eq_self {spell : List Char → List Char} (hspell : KeepsAscii spell) {s : String}
    (h : ∀ c ∈ s.toList, isSnakeChar c = true) : snakeCaseBy spell [s] = s := by
  have hascii := hspell s.toList fun c hc => toNat_lt_of_isSnakeChar (h c hc)
  rw [snakeCaseBy, List.flatMap_singleton, hascii, snakeFrom_eq_self (by simp) h,
    String.ofList_toList]

theorem isSnakeChar_of_mem_snakeCase (fragments : List String) :
    ∀ c ∈ (snakeCase fragments).toList, isSnakeChar c = true := by
  rw [snakeCase_eq]
  exact isSnakeChar_of_mem_snakeCaseBy toAscii fragments

end Name

/-! ## Field names -/

namespace FieldName

open Name

/-- Whether the text of a name is a word in snake case that can be written as an identifier. -/
structure Proper (n : FieldName) : Prop where
  chars : ∀ c ∈ n.bare.toList, isSnakeChar c = true
  word : ∃ c ∈ n.bare.toList, c ≠ '_'
  noPlain : n.bare ∉ plainKeywords
  noDigit : startsWithDigit n.bare = false

/-- A name that is written out is checked character by character. -/
theorem proper_of_checks {bare : String} (chars : bare.toList.all isSnakeChar = true)
    (word : bare.toList.any (· ≠ '_') = true) (noPlain : bare ∉ plainKeywords)
    (noDigit : startsWithDigit bare = false) : Proper ⟨bare⟩ :=
  ⟨List.all_eq_true.1 chars, List.any_iff_exists_prop.1 word, noPlain, noDigit⟩

theorem proper_keyword : ∀ word ∈ keywords, Proper ⟨word⟩ := by
  intro word hword
  apply proper_of_checks
  all_goals
    revert word
    decide +kernel

/-- An underscore before a leading digit makes a word an identifier. -/
theorem proper_guardDigit {word : String} (hchars : ∀ c ∈ word.toList, isSnakeChar c = true)
    (hword : ∃ c ∈ word.toList, c ≠ '_') (hplain : word ∉ plainKeywords) :
    Proper ⟨guardDigit "_" word⟩ := by
  rw [guardDigit]
  by_cases hdigit : startsWithDigit word = true
  · rw [if_pos hdigit]
    have hlist : ("_" ++ word).toList = '_' :: word.toList := by simp
    refine ⟨?_, ?_, ?_, by simp [startsWithDigit, isDigit]⟩
    · rw [hlist]
      exact List.forall_mem_cons.2 ⟨by decide, hchars⟩
    · obtain ⟨c, hc, hne⟩ := hword
      exact ⟨c, by simp [hc], hne⟩
    · intro hmem
      have hhead : ∀ plain ∈ plainKeywords, plain.toList.head? ≠ some '_' := by decide
      exact hhead _ hmem (by rw [hlist, List.head?_cons])
  · rw [if_neg hdigit]
    exact ⟨hchars, hword, hplain, Bool.eq_false_iff.2 hdigit⟩

/-- A keyword that cannot be written raw gets an underscore. -/
theorem proper_plainKeyword {word : String} (hchars : ∀ c ∈ word.toList, isSnakeChar c = true)
    (hplain : word ∈ plainKeywords) : Proper ⟨word ++ "_"⟩ := by
  have hcases : word = "self" ∨ word = "Self" ∨ word = "super" ∨ word = "crate" := by
    simpa [plainKeywords] using hplain
  rcases hcases with rfl | rfl | rfl | rfl
  case inr.inl => exact absurd (hchars 'S' (by decide)) (by decide)
  all_goals apply proper_of_checks <;> decide

/-- The name that a word in snake case makes. -/
def ofWord (negative : Bool) (word : String) : FieldName :=
  if word.toList.all (· == '_') then ⟨"unnamed"⟩
  else
    let word := if negative then "negative_" ++ word else word
    if plainKeywords.contains word then ⟨word ++ "_"⟩
    else if keywords.contains word then ⟨word⟩
    else ⟨guardDigit "_" word⟩

/-- The name of a field, an argument or a method, under a spelling. -/
def spelled (spell : List Char → List Char) (raw : String) : FieldName :=
  ofWord (splitMinus raw).1 (snakeCaseBy spell [(splitMinus raw).2])

theorem ofText_eq : ofText = spelled toAscii := rfl

theorem proper_ofWord (negative : Bool) {word : String}
    (hsnake : ∀ c ∈ word.toList, isSnakeChar c = true) : (ofWord negative word).Proper := by
  unfold ofWord
  by_cases hblank : word.toList.all (· == '_') = true
  · rw [if_pos hblank]
    apply proper_of_checks <;> decide
  · rw [if_neg hblank]
    have hletter : ∃ c ∈ word.toList, c ≠ '_' := by simpa using hblank
    have hchars : ∀ c ∈ (if negative = true then "negative_" ++ word else word).toList,
        isSnakeChar c = true := by
      split
      · rw [String.toList_append]
        exact List.forall_mem_append.2 ⟨List.all_eq_true.1 (by decide), hsnake⟩
      · exact hsnake
    have hword : ∃ c ∈ (if negative = true then "negative_" ++ word else word).toList,
        c ≠ '_' := by
      split
      · obtain ⟨c, hc, hne⟩ := hletter
        exact ⟨c, by simp [hc], hne⟩
      · exact hletter
    dsimp only
    generalize (if negative = true then "negative_" ++ word else word) = word' at hchars hword
    by_cases hplain : word' ∈ plainKeywords
    · rw [if_pos (by simpa using hplain)]
      exact proper_plainKeyword hchars hplain
    · rw [if_neg (by simpa using hplain)]
      by_cases hkeyword : word' ∈ keywords
      · rw [if_pos (by simpa using hkeyword)]
        exact proper_keyword word' hkeyword
      · rw [if_neg (by simpa using hkeyword)]
        exact proper_guardDigit hchars hword hplain

theorem proper_spelled (spell : List Char → List Char) (raw : String) : (spelled spell raw).Proper :=
  proper_ofWord _ (isSnakeChar_of_mem_snakeCaseBy spell _)

theorem proper_ofText (raw : String) : (ofText raw).Proper := by
  rw [ofText_eq]
  exact proper_spelled toAscii raw

variable {n n' : FieldName}

theorem Proper.splitMinus_bare (h : n.Proper) : splitMinus n.bare = (false, n.bare) := by
  unfold splitMinus
  split
  next rest heq =>
    have hminus := h.chars '-' (heq ▸ List.mem_cons_self ..)
    exact absurd hminus (by decide)
  next => rfl

theorem Proper.ofWord_bare (h : n.Proper) : ofWord false n.bare = n := by
  have hletter : n.bare.toList.all (· == '_') = false := by
    obtain ⟨c, hc, hne⟩ := h.word
    rw [List.all_eq_false]
    exact ⟨c, hc, by simpa using hne⟩
  have hplain : plainKeywords.contains n.bare = false := by simpa using h.noPlain
  rw [ofWord, hletter]
  simp only [Bool.false_eq_true, if_false, hplain, guardDigit, h.noDigit, ite_self]

/-- A proper name is the name of its own text. -/
theorem Proper.spelled_bare (h : n.Proper) {spell : List Char → List Char}
    (hspell : KeepsAscii spell) : spelled spell n.bare = n := by
  rw [spelled, h.splitMinus_bare, snakeCaseBy_eq_self hspell h.chars, h.ofWord_bare]

theorem Proper.ofText_bare (h : n.Proper) : ofText n.bare = n := by
  rw [ofText_eq]
  exact h.spelled_bare keepsAscii_toAscii

theorem isDigit_of_mem_toString {k : Nat} {c : Char} (hc : c ∈ (toString k).toList) :
    isDigit c = true := by
  rw [Nat.toString_eq_ofList_toDigits, String.toList_ofList] at hc
  have hdigit := Nat.isDigit_of_mem_toDigits (by decide) (by decide) hc
  rw [Char.isDigit, Bool.and_eq_true, decide_eq_true_eq, decide_eq_true_eq] at hdigit
  rw [isDigit, Bool.and_eq_true, decide_eq_true_eq, decide_eq_true_eq]
  exact hdigit

/-- Digits after a proper name make another one. -/
theorem Proper.append_digits (h : n.Proper) {digits : List Char}
    (hdigits : ∀ c ∈ digits, isDigit c = true) :
    Proper ⟨n.bare ++ String.ofList digits⟩ := by
  obtain ⟨letter, hletter, hne⟩ := h.word
  have hlist : (n.bare ++ String.ofList digits).toList = n.bare.toList ++ digits := by
    rw [String.toList_append, String.toList_ofList]
  refine ⟨?_, ⟨letter, by simp [hlist, hletter], hne⟩, fun hplain => ?_, ?_⟩
  · rw [hlist]
    refine List.forall_mem_append.2 ⟨h.chars, fun c hc => ?_⟩
    simp [isSnakeChar, hdigits c hc]
  · have hnone : ∀ plain ∈ plainKeywords, plain.toList.any isDigit = false := by decide
    cases digits with
    | nil => exact h.noPlain (by simpa using hplain)
    | cons c rest =>
      have hmem : c ∈ (n.bare ++ String.ofList (c :: rest)).toList := by simp
      have hdigit := List.any_eq_false.1 (hnone _ hplain) c hmem
      exact absurd (hdigits c (List.mem_cons_self ..)) hdigit
  · have hfirst := h.noDigit
    rw [startsWithDigit] at hfirst ⊢
    rw [hlist]
    cases hbare : n.bare.toList with
    | nil => simp [hbare] at hletter
    | cons c rest =>
      rw [hbare] at hfirst
      exact hfirst

/-- A number after a proper name makes another one. -/
theorem Proper.numbered (h : n.Proper) (k : Nat) : Proper ⟨Name.numbered n.bare k⟩ := by
  have hdigits : ∀ c ∈ (toString k).toList, isDigit c = true := fun c => isDigit_of_mem_toString
  have hproper := h.append_digits hdigits
  rwa [String.ofList_toList] at hproper

theorem Proper.unique (h : n.Proper) (used : List String) : Proper ⟨Name.unique n.bare used⟩ := by
  rcases unique_spec n.bare used with ⟨-, heq⟩ | ⟨-, k, -, heq, -⟩
  · rwa [heq]
  · rw [heq]
    exact h.numbered k

/-- A name that is chosen because it is free stays as it is. -/
theorem Proper.ofText_unique (h : n.Proper) (used : List String) :
    ofText (Name.unique n.bare used) = ⟨Name.unique n.bare used⟩ :=
  (h.unique used).ofText_bare

theorem Proper.uniqueAmong (h : n.Proper) (used : List String) :
    (n.uniqueAmong used).Proper ∧ (n.uniqueAmong used).bare ∉ used := by
  rw [FieldName.uniqueAmong, h.ofText_unique]
  exact ⟨h.unique used, unique_not_mem n.bare used⟩

/-- The mark of a keyword does not make two names fall together. -/
theorem Proper.text_inj (h : n.Proper) (h' : n'.Proper) (htext : n.text = n'.text) : n = n' := by
  have hmark {name : FieldName} {bare : String} (hname : name.Proper) :
      "r#" ++ bare ≠ name.bare := by
    intro heq
    have hhash : isSnakeChar '#' = true := hname.chars '#' (by simp [← heq])
    exact absurd hhash (by decide)
  suffices hbare : n.bare = n'.bare by
    cases n
    cases n'
    exact congrArg FieldName.mk hbare
  rw [text, text] at htext
  split_ifs at htext
  · exact (String.append_right_inj "r#").1 htext
  · exact absurd htext (hmark h')
  · exact absurd htext.symm (hmark h)
  · exact htext

theorem nodup_texts {names : List FieldName} (hproper : ∀ n ∈ names, n.Proper)
    (h : names.Nodup) : (names.map text).Nodup :=
  List.Nodup.map_on (fun n hn n' hn' htext => (hproper n hn).text_inj (hproper n' hn') htext) h

/-! ## Names that are chosen one after another -/

/-- Whether proper names come one after another, each free when it is chosen and used from then
on. -/
inductive Chosen : List String → List FieldName → List String → Prop where
  | nil (used : List String) : Chosen used [] used
  | cons {used last : List String} {n : FieldName} {later : List FieldName} (proper : n.Proper)
    (free : n.bare ∉ used) (rest : Chosen (n.bare :: used) later last) :
    Chosen used (n :: later) last

namespace Chosen

variable {used next last : List String} {names more : List FieldName}

theorem append (h : Chosen used names next) (h' : Chosen next more last) :
    Chosen used (names ++ more) last := by
  induction h with
  | nil => exact h'
  | cons proper free _ ih => exact .cons proper free (ih h')

theorem proper (h : Chosen used names last) : ∀ n ∈ names, n.Proper := by
  induction h with
  | nil => simp
  | cons proper _ _ ih => exact List.forall_mem_cons.2 ⟨proper, ih⟩

theorem free (h : Chosen used names last) : ∀ n ∈ names, n.bare ∉ used := by
  induction h with
  | nil => simp
  | cons _ free _ ih =>
    refine List.forall_mem_cons.2 ⟨free, fun n hn hused => ?_⟩
    exact ih n hn (List.mem_cons_of_mem _ hused)

theorem nodup (h : Chosen used names last) : names.Nodup := by
  induction h with
  | nil => exact List.nodup_nil
  | cons _ _ rest ih =>
    refine List.nodup_cons.2 ⟨fun hmem => ?_, ih⟩
    exact rest.free _ hmem (List.mem_cons_self ..)

theorem nodup_texts (h : Chosen used names last) : (names.map text).Nodup :=
  FieldName.nodup_texts h.proper h.nodup

end Chosen

end FieldName

end OpenApiServer
