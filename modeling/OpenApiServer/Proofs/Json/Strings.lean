import OpenApiServer.Proofs.Data.Except
import OpenApiServer.Proofs.Json.Grammar

/-!
# Reading words and strings

Blanks are passed over, a word is read where it stands, and a string is read up to its closing quote
exactly where one of the grammar stands.
-/

namespace OpenApiServer.Json

/-! ## Blanks and words -/

section Blanks

variable {blanks cs rest : List Char}

theorem skipBlank_append (h : Blank blanks) (cs : List Char) :
    skipBlank (blanks ++ cs) = skipBlank cs :=
  List.dropWhile_append_of_pos h

theorem skipBlank_cons {c : Char} (h : isBlank c = false) (cs : List Char) :
    skipBlank (c :: cs) = c :: cs :=
  List.dropWhile_cons_of_neg (by simp [h])

theorem exists_skipBlank (cs : List Char) : ∃ blanks, Blank blanks ∧ cs = blanks ++ skipBlank cs :=
  ⟨cs.takeWhile isBlank, fun c hc => List.all_eq_true.1 List.all_takeWhile c hc,
    List.takeWhile_append_dropWhile.symm⟩

theorem skipBlank_skipBlank (cs : List Char) : skipBlank (skipBlank cs) = skipBlank cs := by
  obtain ⟨blanks, hblanks, hcs⟩ := exists_skipBlank cs
  conv_rhs => rw [hcs, skipBlank_append hblanks]

theorem blank_iff : Blank cs ↔ skipBlank cs = [] := by
  constructor
  · intro h
    have hskip := skipBlank_append h []
    rwa [List.append_nil] at hskip
  · intro h
    obtain ⟨blanks, hblanks, hcs⟩ := exists_skipBlank cs
    rwa [hcs, h, List.append_nil]

theorem readWord_eq_ok_iff {word : List Char} :
    readWord word cs = .ok rest ↔ cs = word ++ rest := by
  induction word generalizing cs with
  | nil =>
    rw [readWord, List.nil_append]
    exact ⟨Except.ok.inj, congrArg _⟩
  | cons w word ih =>
    cases cs with
    | nil => exact iff_of_false nofun nofun
    | cons c cs =>
      rw [readWord, List.cons_append, List.cons.injEq]
      split
      next heq => rw [ih, heq, and_iff_right rfl]
      next hne => exact iff_of_false nofun fun h => hne h.1.symm

end Blanks

/-! ## Strings -/

theorem stringFrom_skip (skip : Nat) (cs : List Char) :
    stringFrom skip cs = stringFrom 0 (cs.drop skip) := by
  induction cs generalizing skip with
  | nil => cases skip <;> rfl
  | cons c cs ih =>
    cases skip with
    | zero => rfl
    | succ skip => exact ih skip

section Escapes

variable {cs rest : List Char} {c : Char} {n : Nat}

theorem failHex_ne_ok {α : Type} (cs : List Char) (a : α) : failHex cs ≠ .ok a := by
  unfold failHex
  split <;> nofun

theorem readHexEscape_sound (h : readHexEscape cs = .ok (c, n)) :
    ∃ e after, IsEscape ('u' :: e) ∧ e.length = n ∧ cs = e ++ after := by
  unfold readHexEscape at h
  split at h
  next a b c d rest =>
    split at h
    · exact absurd h (failHex_ne_ok _ _)
    next n hn =>
      split at h
      · cases h
      next hlow =>
        split at h
        next hhigh =>
          obtain ⟨-, rfl⟩ := Prod.mk.inj (Except.ok.inj h)
          have hunit := IsEscape.unit hn (by simpa using hhigh) (by simpa using hlow)
          exact ⟨[a, b, c, d], rest, hunit, rfl, rfl⟩
        next hhigh =>
          -- Only a second escape completes the first one.
          split at h
          · cases h
          · cases h
          next second =>
            split at h
            next a' b' c' d' after =>
              split at h
              · exact absurd h (failHex_ne_ok _ _)
              next m hm =>
                split at h
                next hlow' =>
                  obtain ⟨-, rfl⟩ := Prod.mk.inj (Except.ok.inj h)
                  exact ⟨[a, b, c, d, '\\', 'u', a', b', c', d'], after,
                    .pair hn (by simpa using hhigh) hm hlow', rfl, rfl⟩
                · cases h
            · exact absurd h (failHex_ne_ok _ _)
          · cases h
          · cases h
  · exact absurd h (failHex_ne_ok _ _)

theorem readEscape_sound (h : readEscape cs = .ok (c, n)) :
    ∃ e after, IsEscape e ∧ e.length = n ∧ cs = e ++ after := by
  unfold readEscape at h
  split at h
  · cases h
  next rest =>
    obtain ⟨⟨c', n'⟩, hread, h⟩ := bind_eq_ok_iff.1 h
    obtain ⟨-, rfl⟩ := Prod.mk.inj (Except.ok.inj h)
    obtain ⟨e, after, he, rfl, rfl⟩ := readHexEscape_sound hread
    exact ⟨'u' :: e, after, he, rfl, rfl⟩
  next first rest _ =>
    split at h
    next value hvalue =>
      obtain ⟨-, rfl⟩ := Prod.mk.inj (Except.ok.inj h)
      exact ⟨[first], rest, .short (by rw [hvalue]; rfl), rfl, rfl⟩
    · cases h

theorem readEscape_complete {e : List Char} (h : IsEscape e) (rest : List Char) :
    ∃ c, readEscape (e ++ rest) = .ok (c, e.length) := by
  cases h with
  | @short c known =>
    obtain ⟨value, hvalue⟩ := Option.isSome_iff_exists.1 known
    have hu : c ≠ 'u' := by
      rintro rfl
      cases known
    exact ⟨value, by simp [readEscape, hvalue]⟩
  | @unit a b c d n digits high low =>
    have hread : readHexEscape (a :: b :: c :: d :: rest) = .ok (Char.ofNat n, 4) := by
      simp [readHexEscape, digits, high, low]
    exact ⟨Char.ofNat n, by simp [readEscape, hread, bind, Except.bind, pure, Except.pure]⟩
  | @pair a b c d a' b' c' d' n m digits high digits' low =>
    have hlow : isLowSurrogate n = false := by
      simp only [isHighSurrogate, isLowSurrogate, Bool.and_eq_true, decide_eq_true_eq,
        Bool.and_eq_false_iff, decide_eq_false_iff_not] at high ⊢
      omega
    have hread : readHexEscape
        (a :: b :: c :: d :: '\\' :: 'u' :: a' :: b' :: c' :: d' :: rest) =
          .ok (surrogatePair n m, 10) := by
      simp [readHexEscape, digits, high, hlow, digits', low]
    exact ⟨surrogatePair n m, by simp [readEscape, hread, bind, Except.bind, pure, Except.pure]⟩

theorem stringFrom_sound {skip : Nat} {text : List Char}
    (h : stringFrom skip cs = .ok (text, rest)) :
    ∃ s, IsString s ∧ cs.drop skip = s ++ rest := by
  induction cs generalizing skip text with
  | nil => cases skip <;> cases h
  | cons c cs ih =>
    cases skip with
    | succ skip => exact ih h
    | zero =>
      rw [stringFrom] at h
      split at h
      next heq =>
        obtain rfl := (Prod.mk.inj (Except.ok.inj h)).2
        exact ⟨['"'], .close, congrArg (· :: cs) heq⟩
      next hquote =>
        split at h
        next heq =>
          obtain ⟨⟨value, n⟩, hescape, h⟩ := bind_eq_ok_iff.1 h
          obtain ⟨⟨later, after⟩, hlater, h⟩ := bind_eq_ok_iff.1 h
          obtain rfl := (Prod.mk.inj (Except.ok.inj h)).2
          obtain ⟨e, left, he, rfl, rfl⟩ := readEscape_sound hescape
          obtain ⟨s, hs, hleft⟩ := ih hlater
          rw [List.drop_left] at hleft
          exact ⟨'\\' :: (e ++ s), .escape he hs, by simp [heq, hleft]⟩
        next hbackslash =>
          split at h
          · cases h
          next hcontrol =>
            obtain ⟨⟨later, after⟩, hlater, h⟩ := bind_eq_ok_iff.1 h
            obtain rfl := (Prod.mk.inj (Except.ok.inj h)).2
            obtain ⟨s, hs, hleft⟩ := ih hlater
            exact ⟨c :: s, .plain hquote hbackslash (Nat.le_of_not_lt hcontrol) hs,
              congrArg (c :: ·) hleft⟩

theorem stringFrom_complete {s : List Char} (h : IsString s) (rest : List Char) :
    ∃ text, stringFrom 0 (s ++ rest) = .ok (text, rest) := by
  induction h with
  | close => exact ⟨[], rfl⟩
  | @plain c cs quote backslash control _ ih =>
    obtain ⟨text, htext⟩ := ih
    have hcontrol : ¬c.toNat < 32 := Nat.not_lt_of_le control
    exact ⟨c :: text, by
      simp [stringFrom, quote, backslash, hcontrol, htext, bind, Except.bind, pure, Except.pure]⟩
  | @escape e cs first _ ih =>
    obtain ⟨text, htext⟩ := ih
    obtain ⟨c, hc⟩ := readEscape_complete first (cs ++ rest)
    have hskip : stringFrom e.length (e ++ (cs ++ rest)) = .ok (text, rest) := by
      rw [stringFrom_skip, List.drop_left, htext]
    exact ⟨c :: text, by
      simp [stringFrom, hc, hskip, bind, Except.bind, pure, Except.pure]⟩

theorem exists_readString_iff :
    (∃ s, readString cs = .ok (s, rest)) ↔ ∃ s, IsString s ∧ cs = s ++ rest := by
  constructor
  · rintro ⟨s, h⟩
    obtain ⟨⟨text, after⟩, htext, h⟩ := bind_eq_ok_iff.1 h
    obtain rfl := (Prod.mk.inj (Except.ok.inj h)).2
    exact stringFrom_sound htext
  · rintro ⟨s, hs, rfl⟩
    obtain ⟨text, htext⟩ := stringFrom_complete hs rest
    exact ⟨String.ofList text, bind_eq_ok_iff.2 ⟨_, htext, rfl⟩⟩

end Escapes

end OpenApiServer.Json
