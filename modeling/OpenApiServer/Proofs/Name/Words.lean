import OpenApiServer.Build.Registry
import OpenApiServer.Proofs.Name.Stability

/-!
# Names that are one word

Every type name that is made of a text consists of letters and digits, so that a chain of names can
be read back from its text. It starts with an uppercase letter and is not taken by the generated
code, and so starting over from it gives the name again.
-/

namespace OpenApiServer

namespace Name

theorem isLower_iff {c : Char} : isLower c = true ↔ 97 ≤ c.val.toNat ∧ c.val.toNat ≤ 122 := by
  simp only [isLower, Bool.and_eq_true, decide_eq_true_eq, Char.le_def, UInt32.le_iff_toNat_le]
  rfl

theorem isUpper_toUpper {c : Char} (h : isLower c = true) : isUpper c.toUpper = true := by
  have hcode := isLower_iff.1 h
  have hlower : c.val ≥ 'a'.val ∧ c.val ≤ 'z'.val :=
    hcode.imp UInt32.le_iff_toNat_le.2 UInt32.le_iff_toNat_le.2
  rw [isUpper_iff]
  unfold Char.toUpper
  rw [dif_pos hlower]
  change 65 ≤ (c.val + ('A'.val - 'a'.val)).toNat ∧ (c.val + ('A'.val - 'a'.val)).toNat ≤ 90
  rw [UInt32.toNat_add]
  change 65 ≤ (c.val.toNat + 4294967264) % 2 ^ 32 ∧ (c.val.toNat + 4294967264) % 2 ^ 32 ≤ 90
  omega

theorem toUpper_of_not_isLower {c : Char} (h : isLower c = false) : c.toUpper = c := by
  have hcode : ¬(c.val ≥ 'a'.val ∧ c.val ≤ 'z'.val) := fun hval =>
    Bool.eq_false_iff.1 h <| isLower_iff.2 <|
      hval.imp UInt32.le_iff_toNat_le.1 UInt32.le_iff_toNat_le.1
  unfold Char.toUpper
  rw [dif_neg hcode]

theorem isAlphanumeric_toUpper {c : Char} (h : isAlphanumeric c = true) :
    isAlphanumeric c.toUpper = true := by
  cases hlower : isLower c with
  | true => simp [isAlphanumeric, isLetter, isUpper_toUpper hlower]
  | false => rwa [toUpper_of_not_isLower hlower]

theorem isAlphanumeric_of_mem_pascalFrom {atWordStart : Bool} {cs : List Char} :
    ∀ c ∈ pascalFrom atWordStart cs, isAlphanumeric c = true := by
  induction cs generalizing atWordStart with
  | nil => simp [pascalFrom]
  | cons c rest ih =>
    by_cases hletter : isAlphanumeric c = true
    · rw [pascalFrom, if_pos hletter]
      refine List.forall_mem_cons.2 ⟨?_, ih⟩
      split
      · exact isAlphanumeric_toUpper hletter
      · exact hletter
    · rw [pascalFrom, if_neg hletter]
      exact ih

theorem isDigit_iff {c : Char} : isDigit c = true ↔ 48 ≤ c.val.toNat ∧ c.val.toNat ≤ 57 := by
  simp only [isDigit, Bool.and_eq_true, decide_eq_true_eq, Char.le_def, UInt32.le_iff_toNat_le]
  rfl

theorem isLower_eq_false_of_isUpper {c : Char} (h : isUpper c = true) : isLower c = false := by
  have hcode := isUpper_iff.1 h
  rw [Bool.eq_false_iff, Ne, isLower_iff]
  omega

theorem isDigit_eq_false_of_isUpper {c : Char} (h : isUpper c = true) : isDigit c = false := by
  have hcode := isUpper_iff.1 h
  rw [Bool.eq_false_iff, Ne, isDigit_iff]
  omega

/-- In Pascal case a word starts with an uppercase letter or a digit. -/
theorem isLower_head_pascalFrom (cs : List Char) :
    (pascalFrom true cs).head?.any isLower = false := by
  induction cs with
  | nil => rfl
  | cons c rest ih =>
    by_cases hletter : isAlphanumeric c = true
    · rw [pascalFrom, if_pos hletter, List.head?_cons, if_pos rfl, Option.any_some]
      cases hlower : isLower c with
      | true => exact isLower_eq_false_of_isUpper (isUpper_toUpper hlower)
      | false => rwa [toUpper_of_not_isLower hlower]
    · rw [pascalFrom, if_neg hletter]
      exact ih

/-- A word in Pascal case stays as it is. -/
theorem pascalFrom_eq_self {atWordStart : Bool} {cs : List Char}
    (h : ∀ c ∈ cs, isAlphanumeric c = true)
    (hhead : atWordStart = true → cs.head?.any isLower = false) :
    pascalFrom atWordStart cs = cs := by
  induction cs generalizing atWordStart with
  | nil => rfl
  | cons c rest ih =>
    obtain ⟨hc, hrest⟩ := List.forall_mem_cons.1 h
    rw [pascalFrom, if_pos hc, ih hrest (fun hstart => absurd hstart (by decide))]
    split_ifs with hstart
    · rw [toUpper_of_not_isLower (hhead hstart)]
    · rfl

theorem toNat_lt_of_isAlphanumeric {c : Char} (h : isAlphanumeric c = true) : c.toNat < 128 := by
  change c.val.toNat < 128
  simp only [isAlphanumeric, isLetter, Bool.or_eq_true, isLower_iff, isUpper_iff, isDigit_iff] at h
  omega

/-- Whether a text consists of letters and digits, and is not empty. -/
structure IsWord (s : String) : Prop where
  filled : s ≠ ""
  chars : ∀ c ∈ s.toList, isAlphanumeric c = true

theorem IsWord.append {s t : String} (hs : IsWord s) (ht : ∀ c ∈ t.toList, isAlphanumeric c = true) :
    IsWord (s ++ t) where
  filled hempty := by
    have hs' := hs.filled
    simp_all
  chars := by
    rw [String.toList_append, List.forall_mem_append]
    exact ⟨hs.chars, ht⟩

/-- The joined fragments in Pascal case, under a spelling. -/
def pascalCaseBy (spell : List Char → List Char) (fragments : List String) : String :=
  String.ofList (pascalFrom true (spell (fragments.flatMap String.toList)))

theorem isAlphanumeric_of_mem_pascalCaseBy (spell : List Char → List Char)
    (fragments : List String) :
    ∀ c ∈ (pascalCaseBy spell fragments).toList, isAlphanumeric c = true := by
  rw [pascalCaseBy, String.toList_ofList]
  exact isAlphanumeric_of_mem_pascalFrom

theorem isLower_head_pascalCaseBy (spell : List Char → List Char) (fragments : List String) :
    (pascalCaseBy spell fragments).toList.head?.any isLower = false := by
  rw [pascalCaseBy, String.toList_ofList]
  exact isLower_head_pascalFrom _

theorem pascalCaseBy_eq_self {spell : List Char → List Char} (hspell : KeepsAscii spell)
    {s : String} (h : ∀ c ∈ s.toList, isAlphanumeric c = true)
    (hhead : s.toList.head?.any isLower = false) : pascalCaseBy spell [s] = s := by
  have hascii := hspell s.toList fun c hc => toNat_lt_of_isAlphanumeric (h c hc)
  rw [pascalCaseBy, List.flatMap_singleton, hascii, pascalFrom_eq_self h fun _ => hhead,
    String.ofList_toList]

end Name

namespace TypeName

open Name

/-- Whether a name is one word. -/
def IsWord (n : TypeName) : Prop := Name.IsWord n.text

/-- Whether a name is a word in Pascal case that the generated code does not use for something
else. -/
structure Proper (n : TypeName) : Prop where
  upper : n.text.toList.head?.any isUpper = true
  chars : ∀ c ∈ n.text.toList, isAlphanumeric c = true
  free : n.text ∉ reservedTypeNames

/-- A name that is written out is checked character by character. -/
theorem proper_of_checks {text : String} (upper : text.toList.head?.any isUpper = true)
    (chars : text.toList.all isAlphanumeric = true) (free : text ∉ reservedTypeNames) :
    Proper ⟨text⟩ :=
  ⟨upper, List.all_eq_true.1 chars, free⟩

/-- A word that the generated code uses gets another word after it. -/
theorem proper_reserved : ∀ word ∈ reservedTypeNames, Proper ⟨word ++ "Type"⟩ := by
  intro word hword
  apply proper_of_checks
  all_goals
    revert word
    decide +kernel

/-- The letter before a leading digit makes a word a name. -/
theorem proper_guardDigit {word : String} (hfilled : word ≠ "")
    (hchars : ∀ c ∈ word.toList, isAlphanumeric c = true)
    (hhead : word.toList.head?.any isLower = false) (hfree : word ∉ reservedTypeNames) :
    Proper ⟨guardDigit "T" word⟩ := by
  obtain ⟨first, rest, hword⟩ := List.exists_cons_of_ne_nil (mt String.toList_eq_nil_iff.1 hfilled)
  have hstart : startsWithDigit word = isDigit first := by simp [startsWithDigit, hword]
  rw [guardDigit, hstart]
  by_cases hdigit : isDigit first = true
  · rw [if_pos hdigit]
    have hlist : ("T" ++ word).toList = 'T' :: word.toList := by simp
    refine ⟨by simp [isUpper], ?_, fun hmem => ?_⟩
    · rw [hlist]
      exact List.forall_mem_cons.2 ⟨by decide, hchars⟩
    · have hletters : ∀ name ∈ reservedTypeNames, name.toList.any isDigit = false := by decide
      have hin : first ∈ ("T" ++ word).toList := by simp [hlist, hword]
      exact absurd hdigit (List.any_eq_false.1 (hletters _ hmem) first hin)
  · rw [if_neg hdigit]
    refine ⟨?_, hchars, hfree⟩
    have hletter := hchars first (hword ▸ List.mem_cons_self ..)
    rw [hword, List.head?_cons, Option.any_some] at hhead ⊢
    simpa [isAlphanumeric, isLetter, hhead, hdigit] using hletter

/-- The name that a word in Pascal case makes. -/
def ofWord (negative : Bool) (word : String) : TypeName :=
  if word = "" then ⟨"Unnamed"⟩
  else
    let word := if negative then "Negative" ++ word else word
    if reservedTypeNames.contains word then ⟨word ++ "Type"⟩ else ⟨guardDigit "T" word⟩

/-- The name of a type or a variant, under a spelling. -/
def spelled (spell : List Char → List Char) (raw : String) : TypeName :=
  ofWord (splitMinus raw).1 (pascalCaseBy spell [(splitMinus raw).2])

theorem ofText_eq : ofText = spelled toAscii := rfl

theorem proper_ofWord (negative : Bool) {word : String}
    (hchars : ∀ c ∈ word.toList, isAlphanumeric c = true)
    (hhead : word.toList.head?.any isLower = false) : (ofWord negative word).Proper := by
  unfold ofWord
  by_cases hempty : word = ""
  · rw [if_pos hempty]
    apply proper_of_checks <;> decide
  · rw [if_neg hempty]
    have hsigned : (if negative then "Negative" ++ word else word) ≠ "" ∧
        (∀ c ∈ (if negative then "Negative" ++ word else word).toList, isAlphanumeric c = true) ∧
        (if negative then "Negative" ++ word else word).toList.head?.any isLower = false := by
      cases negative with
      | false => exact ⟨hempty, hchars, hhead⟩
      | true =>
        have hlist : ("Negative" ++ word).toList = "Negative".toList ++ word.toList :=
          String.toList_append
        simp only [if_true]
        refine ⟨by simp, ?_, ?_⟩
        · rw [hlist]
          exact List.forall_mem_append.2 ⟨List.all_eq_true.1 (by decide), hchars⟩
        · rw [hlist]
          rfl
    dsimp only
    generalize (if negative then "Negative" ++ word else word) = word' at hsigned
    obtain ⟨hfilled, hchars', hhead'⟩ := hsigned
    by_cases hreserved : word' ∈ reservedTypeNames
    · rw [if_pos (by simpa using hreserved)]
      exact proper_reserved word' hreserved
    · rw [if_neg (by simpa using hreserved)]
      exact proper_guardDigit hfilled hchars' hhead' hreserved

theorem proper_spelled (spell : List Char → List Char) (raw : String) : (spelled spell raw).Proper :=
  proper_ofWord _ (isAlphanumeric_of_mem_pascalCaseBy spell _) (isLower_head_pascalCaseBy spell _)

theorem proper_ofText (raw : String) : (ofText raw).Proper := by
  rw [ofText_eq]
  exact proper_spelled toAscii raw

namespace Proper

variable {n : TypeName} (h : n.Proper)

include h

theorem exists_first : ∃ first rest, n.text.toList = first :: rest ∧ isUpper first = true := by
  have hupper := h.upper
  cases htext : n.text.toList with
  | nil => simp [htext] at hupper
  | cons first rest =>
    rw [htext] at hupper
    exact ⟨first, rest, rfl, by simpa using hupper⟩

theorem isWord : n.IsWord where
  filled hempty := by
    obtain ⟨first, rest, hfirst, -⟩ := h.exists_first
    rw [hempty] at hfirst
    cases hfirst
  chars := h.chars

theorem isLower_head : n.text.toList.head?.any isLower = false := by
  obtain ⟨first, rest, hfirst, hupper⟩ := h.exists_first
  rw [hfirst]
  exact isLower_eq_false_of_isUpper hupper

theorem splitMinus_text : splitMinus n.text = (false, n.text) := by
  unfold splitMinus
  split
  next rest heq =>
    have hminus := h.chars '-' (heq ▸ List.mem_cons_self ..)
    exact absurd hminus (by decide)
  next => rfl

theorem ofWord_text : ofWord false n.text = n := by
  obtain ⟨first, rest, hfirst, hupper⟩ := h.exists_first
  have hdigit : startsWithDigit n.text = false := by
    simp [startsWithDigit, hfirst, isDigit_eq_false_of_isUpper hupper]
  have hreserved : reservedTypeNames.contains n.text = false := by simpa using h.free
  rw [ofWord, if_neg h.isWord.filled]
  simp only [Bool.false_eq_true, if_false, hreserved, guardDigit, hdigit]

theorem spelled_text {spell : List Char → List Char} (hspell : KeepsAscii spell) :
    spelled spell n.text = n := by
  rw [spelled, h.splitMinus_text, pascalCaseBy_eq_self hspell h.chars h.isLower_head, h.ofWord_text]

end Proper

theorem isWord_ofText (raw : String) : (ofText raw).IsWord := (proper_ofText raw).isWord

theorem isWord_ofFragments (fragments : List String) : (ofFragments fragments).IsWord :=
  isWord_ofText _

theorem IsWord.extend {n : TypeName} (h : n.IsWord) {ending : String}
    (hending : ending.toList.all isAlphanumeric = true) : (n.extend ending).IsWord :=
  Name.IsWord.append h fun c hc => List.all_eq_true.1 hending c hc

theorem IsWord.ne_space {n : TypeName} (h : n.IsWord) : ∀ c ∈ n.text.toList, (c != ' ') = true := by
  intro c hc
  rw [bne_iff_ne]
  rintro rfl
  have hspace := h.chars ' ' hc
  revert hspace
  decide

end TypeName

namespace Registry

/-- The text of a chain after its first name. -/
def laterText (names : List TypeName) : List Char :=
  names.flatMap fun n => " -> ".toList ++ n.text.toList

theorem toList_chainText_cons (name : TypeName) (rest : List TypeName) :
    (chainText (name :: rest)).toList = name.text.toList ++ laterText rest := by
  induction rest generalizing name with
  | nil => simp [chainText, Text.joinWith, laterText]
  | cons next rest ih =>
    have hjoin : chainText (name :: next :: rest) =
        name.text ++ " -> " ++ chainText (next :: rest) := rfl
    rw [hjoin, String.toList_append, ih, String.toList_append, laterText, laterText,
      List.flatMap_cons, List.append_assoc, List.append_assoc]

theorem takeWhile_chain {name : TypeName} (h : name.IsWord) (rest : List TypeName) :
    (name.text.toList ++ laterText rest).takeWhile (· != ' ') = name.text.toList := by
  rw [List.takeWhile_append_of_pos h.ne_space]
  cases rest with
  | nil => exact List.append_nil _
  | cons next rest =>
    have hstart : laterText (next :: rest) =
        ' ' :: ("-> ".toList ++ next.text.toList ++ laterText rest) := rfl
    rw [hstart, List.takeWhile_cons_of_neg (by decide), List.append_nil]

theorem laterText_cons (name : TypeName) (rest : List TypeName) :
    laterText (name :: rest) = " -> ".toList ++ (name.text.toList ++ laterText rest) := by
  rw [laterText, List.flatMap_cons, List.append_assoc, laterText]

/-- The first name of a chain ends at the first blank. -/
theorem first_eq {name name' : TypeName} {rest rest' : List TypeName} (h : name.IsWord)
    (h' : name'.IsWord)
    (hchars : name.text.toList ++ laterText rest = name'.text.toList ++ laterText rest') :
    name = name' ∧ laterText rest = laterText rest' := by
  have hfirst := congrArg (List.takeWhile (· != ' ')) hchars
  rw [takeWhile_chain h, takeWhile_chain h'] at hfirst
  rw [hfirst] at hchars
  have hname : name = name' := congrArg TypeName.mk (String.toList_inj.1 hfirst)
  exact ⟨hname, List.append_cancel_left hchars⟩

/-- The names of a chain can be read back from its text. -/
theorem chainText_inj {name name' : TypeName} {rest rest' : List TypeName}
    (h : ∀ n ∈ name :: rest, n.IsWord) (h' : ∀ n ∈ name' :: rest', n.IsWord)
    (htext : chainText (name :: rest) = chainText (name' :: rest')) :
    name = name' ∧ rest = rest' := by
  have hchars := congrArg String.toList htext
  rw [toList_chainText_cons, toList_chainText_cons] at hchars
  clear htext
  induction rest generalizing name name' rest' with
  | nil =>
    obtain ⟨rfl, hlater⟩ := first_eq (h name (by simp)) (h' name' (by simp)) hchars
    cases rest' with
    | nil => exact ⟨rfl, rfl⟩
    | cons next' rest' => cases hlater
  | cons next rest ih =>
    obtain ⟨rfl, hlater⟩ := first_eq (h name (by simp)) (h' name' (by simp)) hchars
    cases rest' with
    | nil => cases hlater
    | cons next' rest' =>
      rw [laterText_cons, laterText_cons] at hlater
      obtain ⟨rfl, rfl⟩ := ih (List.forall_mem_cons.1 h).2 (List.forall_mem_cons.1 h').2
        (List.append_cancel_left hlater)
      exact ⟨rfl, rfl⟩

end Registry

end OpenApiServer
