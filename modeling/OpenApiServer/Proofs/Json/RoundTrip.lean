import OpenApiServer.Proofs.Json.Printed
import OpenApiServer.Proofs.Json.Shape

/-!
# Values that are read back

A value is normal for a shape if it has the form in which the reader of the shape gives values: its
records have declared fields in their order, without absent ones. The text of a normal value is read
back as the value, alone or as a part of another one.
-/

namespace OpenApiServer.Json

/-- The text of a value is read as the value, unless it goes on with what follows it. -/
def ReadBack (read : Reader Json) (j : Json) : Prop :=
  ∀ rest, ¬Continued j.print rest → read (j.print ++ rest) = .ok (j, rest)

/-! ## Lists -/

section Lists

variable {element : Reader Json} {j : Json} {cs rest next : List Char} {items : List Json}

theorem printItems_cons_cons (j next : Json) (items : List Json) :
    printItems (j :: next :: items) = j.print ++ ',' :: printItems (next :: items) := by
  rw [printItems]
  simp

theorem printItems_opens (hopens : ∀ j ∈ items, Opens j.print) (hne : items ≠ []) :
    Opens (printItems items) := by
  cases items with
  | nil => exact absurd rfl hne
  | cons j items =>
    have hj := hopens j (List.mem_cons_self ..)
    cases items with
    | nil => exact hj
    | cons next items =>
      obtain ⟨c, cs, htext, hc⟩ := hj
      rw [printItems_cons_cons, htext]
      exact ⟨c, _, rfl, hc⟩

theorem length_le_printItems (hopens : ∀ j ∈ items, Opens j.print) :
    items.length ≤ (printItems items).length := by
  induction items with
  | nil => exact Nat.zero_le _
  | cons j items ih =>
    have hj := (hopens j (List.mem_cons_self ..)).length_pos
    have hlater := ih fun j' hj' => hopens j' (List.mem_cons_of_mem _ hj')
    cases items with
    | nil => exact hj
    | cons next items =>
      rw [printItems_cons_cons, List.length_append]
      simp only [List.length_cons] at hlater ⊢
      omega

theorem elements_last (h : element cs = .ok (j, ']' :: rest)) (fuel index : Nat) :
    elements element (fuel + 1) index cs = .ok ([j], rest) :=
  bind_eq_ok_iff.2 ⟨_, within_eq_ok_iff.2 h, rfl⟩

theorem elements_more {fuel index : Nat} (h : element cs = .ok (j, ',' :: (next ++ ']' :: rest)))
    (hnext : Opens next)
    (hlater : elements element fuel (index + 1) (next ++ ']' :: rest) = .ok (items, rest)) :
    elements element (fuel + 1) index cs = .ok (j :: items, rest) := by
  have hcomma := skipBlank_cons (c := ',') rfl (next ++ ']' :: rest)
  have hskip := hnext.skipBlank (']' :: rest)
  obtain ⟨c, cs, rfl, -, hbracket⟩ := hnext
  refine bind_eq_ok_iff.2 ⟨_, within_eq_ok_iff.2 h, ?_⟩
  simp only [hcomma, hskip]
  simp only [List.cons_append] at hlater ⊢
  simp [hbracket, hlater]

/-- By induction on the items: each is read up to the comma or the bracket after it. -/
theorem elements_printItems (hread : ∀ j ∈ items, ReadBack element j)
    (hopens : ∀ j ∈ items, Opens j.print) (hne : items ≠ []) {fuel : Nat} (index : Nat)
    (hfuel : items.length ≤ fuel) (rest : List Char) :
    elements element fuel index (printItems items ++ ']' :: rest) = .ok (items, rest) := by
  induction items generalizing fuel index with
  | nil => exact absurd rfl hne
  | cons j items ih =>
    have hj := hread j (List.mem_cons_self ..)
    rw [List.length_cons] at hfuel
    obtain ⟨fuel, rfl⟩ := Nat.exists_eq_succ_of_ne_zero (n := fuel) (by omega)
    cases items with
    | nil =>
      apply elements_last
      exact hj _ (not_continued (List.forall_mem_nil _) (.inr (.inl rfl)))
    | cons next items =>
      have hread' : ∀ j' ∈ next :: items, ReadBack element j' :=
        fun j' hj' => hread j' (List.mem_cons_of_mem _ hj')
      have hopens' : ∀ j' ∈ next :: items, Opens j'.print :=
        fun j' hj' => hopens j' (List.mem_cons_of_mem _ hj')
      have hlater := ih hread' hopens' (List.cons_ne_nil _ _) (index + 1)
        (show (next :: items).length ≤ fuel by omega)
      rw [printItems_cons_cons, List.append_assoc, List.cons_append]
      apply elements_more _ (printItems_opens hopens' (List.cons_ne_nil _ _)) hlater
      exact hj _ (not_continued (List.forall_mem_nil _) (.inl rfl))

theorem listBody_printItems (hread : ∀ j ∈ items, ReadBack element j)
    (hopens : ∀ j ∈ items, Opens j.print) (rest : List Char) :
    listBody element (printItems items ++ ']' :: rest) = .ok (items, rest) := by
  by_cases hne : items = []
  · subst hne
    rfl
  · have hfuel : items.length ≤ (printItems items ++ ']' :: rest).length := by
      have hlength := length_le_printItems hopens
      rw [List.length_append]
      omega
    have hall := elements_printItems hread hopens hne 0 hfuel rest
    have hstart := printItems_opens hopens hne
    unfold listBody
    rw [hstart.skipBlank]
    obtain ⟨c, cs, htext, -, hbracket⟩ := hstart
    rw [htext] at hall ⊢
    split
    next heq => exact absurd (List.cons.inj heq).1 hbracket
    next heq => cases heq
    next => exact hall

end Lists

/-! ## Records -/

section Records

open Shape

variable {fields : List (String × Shape)} {depth : Nat} {found more : List (String × Json)}
  {key : String} {shape : Shape} {f : String × Json} {j : Json} {cs rest : List Char}

theorem fieldReader?_of_fieldNamed? (h : fieldNamed? key fields = some shape) :
    fieldReader? fields depth key = some (Shape.read shape depth) := by
  induction fields with
  | nil => cases h
  | cons field fields ih =>
    rw [fieldNamed?] at h
    rw [fieldReader?]
    by_cases hkey : field.1 = key
    · rw [if_pos hkey] at h ⊢
      obtain rfl := Option.some.inj h
      refine congrArg some (funext fun cs => ?_)
      rw [readField]
    · rw [if_neg hkey] at h ⊢
      exact ih h

theorem recordEntry_print (hshape : fieldNamed? key fields = some shape)
    (hread : ReadBack (Shape.read shape depth) j) (hnew : fieldNamed? key found = none)
    (hends : ¬Continued j.print rest) :
    recordEntry (fieldReader? fields depth) found key (':' :: (j.print ++ rest)) =
      .ok (found ++ [(key, j)], rest) := by
  have hcolon : readColon (':' :: (j.print ++ rest)) = .ok (j.print ++ rest) := rfl
  unfold recordEntry
  rw [fieldReader?_of_fieldNamed? hshape, hnew]
  exact within_eq_ok_iff.2 (bind_eq_ok_iff.2 ⟨_, hcolon, bind_eq_ok_iff.2 ⟨_, hread _ hends, rfl⟩⟩)

/-- The fields that are still to be read: each is declared, has a new key, and is read back. -/
structure Pending (fields : List (String × Shape)) (depth : Nat)
    (found more : List (String × Json)) : Prop where
  distinct : ((found ++ more).map (·.1)).Nodup
  readBack : ∀ f ∈ more, ∃ shape, fieldNamed? f.1 fields = some shape ∧
    ReadBack (Shape.read shape depth) f.2

theorem Pending.next (h : Pending fields depth found (f :: more)) :
    Pending fields depth (found ++ [f]) more := by
  refine ⟨?_, fun f' hf' => h.readBack f' (List.mem_cons_of_mem _ hf')⟩
  rw [List.append_assoc, List.singleton_append]
  exact h.distinct

theorem Pending.head_new (h : Pending fields depth found (f :: more)) :
    fieldNamed? f.1 found = none := by
  have hdistinct := h.distinct
  rw [List.map_append, List.nodup_append] at hdistinct
  rw [fieldNamed?_eq_none_iff]
  intro hmem
  exact hdistinct.2.2 f.1 hmem f.1 (List.mem_cons_self ..) rfl

/-- A printed field behind its opening quote. -/
def fieldTail (f : String × Json) : List Char := quotedTail f.1 ++ ':' :: f.2.print

theorem printField_eq (f : String × Json) : printField f = '"' :: fieldTail f := by
  rw [printField, quoted_eq, List.cons_append, fieldTail]

theorem entry_print (h : Pending fields depth found (f :: more)) (rest : List Char)
    (hends : ¬Continued f.2.print rest) :
    ∃ left, within .betweenEntries (readString (fieldTail f ++ rest)) = .ok (f.1, left) ∧
      recordEntry (fieldReader? fields depth) found f.1 left = .ok (found ++ [f], rest) := by
  obtain ⟨shape, hshape, hread⟩ := h.readBack f (List.mem_cons_self ..)
  refine ⟨':' :: (f.2.print ++ rest), within_eq_ok_iff.2 ?_, ?_⟩
  · rw [fieldTail, List.append_assoc]
    exact readString_quotedTail f.1 _
  · exact recordEntry_print hshape hread h.head_new hends

theorem printFields_cons_cons (f next : String × Json) (more : List (String × Json)) :
    printFields (f :: next :: more) = printField f ++ ',' :: printFields (next :: more) := by
  rw [printFields]
  simp

theorem exists_printFields (f : String × Json) (more : List (String × Json)) :
    ∃ cs, printFields (f :: more) = '"' :: cs ∧ more.length < cs.length := by
  induction more generalizing f with
  | nil =>
    have htext : printFields [f] = printField f := rfl
    exact ⟨_, htext.trans (printField_eq f), by simp [fieldTail]⟩
  | cons next more ih =>
    obtain ⟨cs, hcs, hlength⟩ := ih next
    rw [printFields_cons_cons, printField_eq, hcs]
    refine ⟨fieldTail f ++ ',' :: '"' :: cs, rfl, ?_⟩
    simp only [List.length_append, List.length_cons]
    omega

/-- By induction on the fields that are left: each is read up to the comma or the brace after it. -/
theorem entries_printFields (h : Pending fields depth found more)
    (hcs : printFields more = '"' :: cs) {fuel : Nat} (hfuel : more.length ≤ fuel)
    (rest : List Char) :
    entries (recordEntry (fieldReader? fields depth)) fuel found (cs ++ '\x7d' :: rest) =
      .ok (found ++ more, rest) := by
  induction more generalizing found cs fuel with
  | nil => cases hcs
  | cons f more ih =>
    rw [List.length_cons] at hfuel
    obtain ⟨fuel, rfl⟩ := Nat.exists_eq_succ_of_ne_zero (n := fuel) (by omega)
    cases more with
    | nil =>
      have htext : printFields [f] = printField f := rfl
      rw [htext, printField_eq] at hcs
      obtain rfl := (List.cons.inj hcs).2
      obtain ⟨left, hkey, hentry⟩ := entry_print h ('\x7d' :: rest)
        (not_continued (List.forall_mem_nil _) (.inr (.inr rfl)))
      exact bind_eq_ok_iff.2 ⟨_, hkey, bind_eq_ok_iff.2 ⟨_, hentry, rfl⟩⟩
    | cons next more =>
      obtain ⟨later, hlater, -⟩ := exists_printFields next more
      rw [printFields_cons_cons, printField_eq, hlater, List.cons_append] at hcs
      obtain rfl := (List.cons.inj hcs).2
      obtain ⟨left, hkey, hentry⟩ := entry_print h (',' :: '"' :: (later ++ '\x7d' :: rest))
        (not_continued (List.forall_mem_nil _) (.inl rfl))
      have hread := ih h.next hlater (show (next :: more).length ≤ fuel by omega)
      rw [List.append_assoc, List.singleton_append] at hread
      rw [List.append_assoc, List.cons_append, List.cons_append]
      exact bind_eq_ok_iff.2 ⟨_, hkey, bind_eq_ok_iff.2 ⟨_, hentry, hread⟩⟩

theorem objectBody_printFields (h : Pending fields depth [] more) (rest : List Char) :
    objectBody (recordEntry (fieldReader? fields depth)) [] (printFields more ++ '\x7d' :: rest) =
      .ok (more, rest) := by
  cases more with
  | nil => rfl
  | cons f more =>
    obtain ⟨cs, hcs, hlength⟩ := exists_printFields f more
    have hfuel : (f :: more).length ≤ (cs ++ '\x7d' :: rest).length := by
      rw [List.length_append]
      simp only [List.length_cons]
      omega
    have hread := entries_printFields h hcs hfuel rest
    rw [hcs]
    exact hread

end Records

/-! ## Values -/

/-- The values of a shape without real numbers and maps, in the form in which they are read. -/
inductive Normal : Shape → Nat → Json → Prop
  | integer {range : IntegerRange} {depth : Nat} {n : Int} (hrange : range.contains n = true)
      (hword : IsWord n) : Normal (.integer range) depth (.num (.int n))
  | bool {depth : Nat} (b : Bool) : Normal .bool depth (.bool b)
  | text {depth : Nat} (s : String) : Normal .text depth (.str s)
  | absent {shape : Shape} {depth : Nat} : Normal (.optional shape) depth .null
  | present {shape : Shape} {depth : Nat} {j : Json} (h : Normal shape depth j) (hj : j ≠ .null) :
      Normal (.optional shape) depth j
  | list {shape : Shape} {depth : Nat} {items : List Json} (h : ∀ j ∈ items, Normal shape depth j) :
      Normal (.list shape) (depth + 1) (.arr items)
  | record {name : String} {fields : List (String × Shape)} {depth : Nat}
      {found : List (String × Json)} (hkeys : (found.map (·.1)).Nodup)
      (hknown : ∀ f ∈ found, ∃ shape, fieldNamed? f.1 fields = some shape)
      (hcomplete : Shape.Complete found fields) (harranged : Shape.arrange found fields = found)
      (h : ∀ f ∈ found, ∀ shape, fieldNamed? f.1 fields = some shape → Normal shape depth f.2) :
      Normal (.record name fields) (depth + 1) (.obj found)

section Values

variable {shape : Shape} {depth : Nat} {j : Json} {n : Int} {rest : List Char}

theorem Normal.record_of_forall {name : String} {fields : List (String × Shape)}
    {found : List (String × Json)} (hkeys : (found.map (·.1)).Nodup)
    (hcomplete : Shape.Complete found fields) (harranged : Shape.arrange found fields = found)
    (h : ∀ f ∈ found, ∃ shape, fieldNamed? f.1 fields = some shape ∧ Normal shape depth f.2) :
    Normal (.record name fields) (depth + 1) (.obj found) := by
  refine .record hkeys (fun f hf => ?_) hcomplete harranged fun f hf shape hshape => ?_
  · obtain ⟨shape, hshape, -⟩ := h f hf
    exact ⟨shape, hshape⟩
  · obtain ⟨declared, hdeclared, hnormal⟩ := h f hf
    obtain rfl := Option.some.inj (hdeclared.symm.trans hshape)
    exact hnormal

theorem print_integer (n : Int) :
    ∃ c cs, (numberText (.int n)).toList = c :: cs ∧ (c == '-' || isDigit c) = true := by
  have htext : numberText (.int n) = toString n := rfl
  rw [htext]
  cases n with
  | ofNat m =>
    obtain ⟨c, cs, hdigits⟩ := List.exists_cons_of_ne_nil (Nat.toDigits_ne_nil (n := m) (b := 10))
    have hc : isDigit c = true := isDigit_of_mem_toDigits (n := m) (by rw [hdigits]; simp)
    exact ⟨c, cs, (toList_toString_nat m).trans hdigits, by rw [hc, Bool.or_true]⟩
  | negSucc m => exact ⟨'-', _, toList_toString_neg m, rfl⟩

theorem isBlank_eq_false_of_opening {c : Char} (h : (c == '-' || isDigit c) = true) :
    isBlank c = false := by
  rw [Bool.or_eq_true, beq_iff_eq] at h
  rcases h with rfl | hdigit
  · rfl
  · exact isBlank_eq_false_of_isDigit hdigit

/-- No text of a normal value starts like null, apart from null. -/
theorem Normal.print_head (h : Normal shape depth j) :
    ∃ c cs, j.print = c :: cs ∧ isBlank c = false ∧ c ≠ ']' ∧ (j ≠ .null → c ≠ 'n') := by
  induction h with
  | @integer range depth n hrange hword =>
    obtain ⟨c, cs, htext, hc⟩ := print_integer n
    refine ⟨c, cs, htext, ?_, ?_, ?_⟩
    · exact isBlank_eq_false_of_opening hc
    · rintro rfl
      cases hc
    · rintro - rfl
      cases hc
  | bool b => cases b <;> exact ⟨_, _, rfl, rfl, by decide, fun _ => by decide⟩
  | text s => exact ⟨_, _, rfl, rfl, by decide, fun _ => by decide⟩
  | absent => exact ⟨_, _, rfl, rfl, by decide, fun hj => absurd rfl hj⟩
  | present h hj ih => exact ih
  | list h ih => exact ⟨'[', _, by rw [print]; rfl, rfl, by decide, fun _ => by decide⟩
  | record => exact ⟨'\x7b', _, by rw [print]; rfl, rfl, by decide, fun _ => by decide⟩

theorem Normal.opens (h : Normal shape depth j) : Opens j.print := by
  obtain ⟨c, cs, htext, hblank, hbracket, -⟩ := h.print_head
  exact ⟨c, cs, htext, hblank, hbracket⟩

/-- The text of a normal value is read back. -/
theorem Normal.readBack (h : Normal shape depth j) : ReadBack (Shape.read shape depth) j := by
  induction h with
  | @integer range depth n hrange hword =>
    intro rest hends
    have hnormal : Normal (.integer range) depth (.num (.int n)) := .integer hrange hword
    rw [Shape.read, hnormal.opens.skipBlank rest]
    refine bind_eq_ok_iff.2 ⟨_, number_print range.name hword hends, ?_⟩
    exact if_pos hrange
  | bool b =>
    intro rest hends
    cases b <;> rfl
  | text s =>
    intro rest hends
    have hnormal : Normal .text 0 (.str s) := .text s
    rw [Shape.read, hnormal.opens.skipBlank rest]
    exact bind_eq_ok_iff.2 ⟨_, readString_quotedTail s rest, rfl⟩
  | absent =>
    intro rest hends
    rw [Shape.read]
    rfl
  | present h hj ih =>
    intro rest hends
    obtain ⟨c, cs, htext, hblank, -, hnull⟩ := h.print_head
    have hskip := h.opens.skipBlank rest
    have hread := ih rest hends
    rw [Shape.read, hskip]
    rw [htext, List.cons_append] at hread ⊢
    split
    next heq => exact absurd (List.cons.inj heq).1 (hnull hj)
    next => exact hread
  | @list shape depth items h ih =>
    intro rest hends
    have hbody := listBody_printItems ih (fun j hj => (h j hj).opens) rest
    have htext : (Json.arr items).print ++ rest = '[' :: (printItems items ++ ']' :: rest) := by
      rw [print]
      simp
    have hskip : skipBlank ('[' :: (printItems items ++ ']' :: rest)) = _ := skipBlank_cons rfl _
    rw [htext, Shape.read.eq_def]
    simp only [hskip]
    exact bind_eq_ok_iff.2 ⟨_, hbody, rfl⟩
  | @record name fields depth found hkeys hknown hcomplete harranged h ih =>
    intro rest hends
    have hpending : Pending fields depth [] found := by
      refine ⟨hkeys, fun f hf => ?_⟩
      obtain ⟨shape, hshape⟩ := hknown f hf
      exact ⟨shape, hshape, ih f hf shape hshape⟩
    have hbody := objectBody_printFields hpending rest
    have htext : (Json.obj found).print ++ rest =
        '\x7b' :: (printFields found ++ '\x7d' :: rest) := by
      rw [print]
      simp
    have hskip : skipBlank ('\x7b' :: (printFields found ++ '\x7d' :: rest)) = _ :=
      skipBlank_cons rfl _
    rw [htext, Shape.read.eq_def]
    simp only [hskip]
    refine bind_eq_ok_iff.2 ⟨_, hbody, ?_⟩
    simp only [Shape.firstMissing_eq_none_iff.2 hcomplete, harranged]
    rfl

/-- A text that is decoded is read from its start, with nothing to go on with behind a printed
value. -/
theorem Normal.decode_print (h : Normal shape maxDepth j) : shape.decode j.print = .ok j := by
  have hread := h.readBack [] (not_continued_blank (List.forall_mem_nil _))
  rw [List.append_nil] at hread
  exact bind_eq_ok_iff.2 ⟨_, hread, rfl⟩

end Values

end OpenApiServer.Json
