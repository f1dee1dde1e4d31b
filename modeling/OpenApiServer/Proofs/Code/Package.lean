import OpenApiServer.Proofs.Code.Headers
import OpenApiServer.Proofs.Http.Integer
import OpenApiServer.Proofs.Name.Stability

/-!
# Names and versions of packages

Whatever the title of a document and the name that is asked for, the package has a name that starts
with a letter and consists of small letters, digits and underscores. A version is meant to be three
numbers between dots. A document's version is taken over if its parts can be read as numbers, and
numbers are read with a plus sign or zeros before them as well; so the version of the package is no
proper version exactly if the document's version is one of these.
-/

namespace OpenApiServer

open Http (Digits decimal Fits IntegerText)

/-- The texts that are a list of three parts with dots between them. -/
def ThreeParts (part : List Char → Prop) (version : String) : Prop :=
  ∃ a b c, version.toList = a ++ '.' :: (b ++ '.' :: c) ∧ part a ∧ part b ∧ part c

theorem splitOn_eq_three_iff {sep : Char} {cs a b c : List Char} :
    Text.splitOn sep cs = [a, b, c] ↔
      cs = a ++ sep :: (b ++ sep :: c) ∧ sep ∉ a ∧ sep ∉ b ∧ sep ∉ c := by
  constructor
  · intro h
    have hfree : ∀ piece ∈ [a, b, c], sep ∉ piece := fun piece hpiece =>
      Text.sep_not_mem_of_mem_splitOn (h ▸ hpiece)
    have hjoin : [sep].intercalate (cs.splitOn sep) = cs := List.intercalate_splitOn sep
    rw [← Text.splitOn_eq, h] at hjoin
    refine ⟨by simpa using hjoin.symm, ?_⟩
    simpa using hfree
  · rintro ⟨rfl, ha, hb, hc⟩
    rw [Text.splitOn_append_sep, Text.splitOn_append_sep, Text.splitOn_eq_singleton ha,
      Text.splitOn_eq_singleton hb, Text.splitOn_eq_singleton hc]
    rfl

/-- Three parts without dots are the pieces between the dots. -/
theorem threeParts_iff {part : List Char → Prop} (hdots : ∀ cs, part cs → '.' ∉ cs)
    (version : String) :
    ThreeParts part version ↔ (Text.splitOn '.' version.toList).length = 3 ∧
      ∀ cs ∈ Text.splitOn '.' version.toList, part cs := by
  constructor
  · rintro ⟨a, b, c, htext, ha, hb, hc⟩
    rw [splitOn_eq_three_iff.2 ⟨htext, hdots a ha, hdots b hb, hdots c hc⟩]
    exact ⟨rfl, by simp [ha, hb, hc]⟩
  · rintro ⟨hlength, hparts⟩
    obtain ⟨a, b, c, hpieces⟩ := List.length_eq_three.1 hlength
    rw [hpieces] at hparts
    refine ⟨a, b, c, (splitOn_eq_three_iff.1 hpieces).1, ?_⟩
    simpa using hparts

/-- The digits of a number of 64 bits. -/
structure Numeral (ds : List Char) : Prop where
  digits : Digits ds
  small : decimal ds < 2 ^ 64

/-- A part of a version: a number without zeros before it. -/
structure VersionPart (cs : List Char) : Prop extends Numeral cs where
  noZero : cs.head? = some '0' → cs = ['0']

theorem versionPart_singleton {c : Char} (hc : Json.isDigit c = true) : VersionPart [c] where
  digits := ⟨by simp, by simpa using hc⟩
  small := by
    have hlt := Http.digitValue_lt hc
    change 0 * 10 + Json.digitValue c < 2 ^ 64
    omega
  noZero h := by rw [List.head?_cons] at h; rw [Option.some.inj h]

/-- What is read as a part of a version: a number, with or without a plus sign. -/
inductive ReadableVersionPart : List Char → Prop where
  | unsigned {ds : List Char} (numeral : Numeral ds) : ReadableVersionPart ds
  | plus {ds : List Char} (numeral : Numeral ds) : ReadableVersionPart ('+' :: ds)

theorem Numeral.no_dot {ds : List Char} (h : Numeral ds) : '.' ∉ ds := fun hdot =>
  absurd (h.digits.all '.' hdot) (by decide)

theorem ReadableVersionPart.no_dot {cs : List Char} (h : ReadableVersionPart cs) : '.' ∉ cs := by
  cases h with
  | unsigned numeral => exact numeral.no_dot
  | plus numeral => simp [numeral.no_dot]

theorem numeral_iff {ds : List Char} (h : Digits ds) :
    Json.IntegerRange.u64.contains (decimal ds) = true ↔ Numeral ds := by
  have hrange : Json.IntegerRange.u64.contains (decimal ds) = true ↔ decimal ds < 2 ^ 64 := by
    change (decide ((0 : Int) ≤ _) && decide (_ ≤ (18446744073709551615 : Int))) = true ↔ _
    rw [Bool.and_eq_true, decide_eq_true_eq, decide_eq_true_eq]
    omega
  rw [hrange]
  exact ⟨fun hsmall => ⟨h, hsmall⟩, fun hnumeral => hnumeral.small⟩

theorem exists_fits_iff {cs : List Char} :
    (∃ n, Fits Json.IntegerRange.u64 cs n) ↔ ReadableVersionPart cs := by
  constructor
  · rintro ⟨n, htext, hwithin, hsign⟩
    cases htext with
    | unsigned digits => exact .unsigned ((numeral_iff digits).1 hwithin)
    | plus digits => exact .plus ((numeral_iff digits).1 hwithin)
    | minus digits => exact absurd (hsign rfl) (by decide)
  · intro h
    cases h with
    | @unsigned ds numeral =>
      have hwithin := (numeral_iff numeral.digits).2 numeral
      exact ⟨_, .unsigned numeral.digits, hwithin,
        fun hminus => absurd hminus numeral.digits.head_ne_sign.2⟩
    | plus numeral =>
      exact ⟨_, .plus numeral.digits, (numeral_iff numeral.digits).2 numeral, nofun⟩

/-- A proper version: three numbers between dots, written as numbers are. -/
def IsVersion (version : String) : Prop := ThreeParts VersionPart version

/-- A text that is read as a version. -/
def ReadableVersion (version : String) : Prop := ThreeParts ReadableVersionPart version

theorem isVersion_iff (version : String) :
    IsVersion version ↔ (Text.splitOn '.' version.toList).length = 3 ∧
      ∀ cs ∈ Text.splitOn '.' version.toList, VersionPart cs :=
  threeParts_iff (fun _ h => h.no_dot) version

theorem IsVersion.readable {version : String} (h : IsVersion version) : ReadableVersion version := by
  obtain ⟨a, b, c, htext, ha, hb, hc⟩ := h
  exact ⟨a, b, c, htext, .unsigned ha.toNumeral, .unsigned hb.toNumeral, .unsigned hc.toNumeral⟩

namespace Package

theorem isVersionPart_iff (cs : List Char) :
    isVersionPart cs = true ↔ ReadableVersionPart cs := by
  have hread (n : Int) : Http.Scalar.parseInteger Json.IntegerRange.u64 cs = .ok n ↔
      Fits Json.IntegerRange.u64 cs n :=
    Http.Scalar.parseInteger_eq_ok_iff (by decide) (by decide)
  rw [← exists_fits_iff, isVersionPart]
  simp only [← hread]
  cases Http.Scalar.parseInteger Json.IntegerRange.u64 cs with
  | error e => simp [Except.isOk, Except.toBool]
  | ok n => simp [Except.isOk, Except.toBool]

variable {p : Package}

theorem readableVersion_iff : ReadableVersion p.version ↔
    ((Text.splitOn '.' p.version.toList).length == 3 &&
      (Text.splitOn '.' p.version.toList).all isVersionPart) = true := by
  rw [ReadableVersion, threeParts_iff fun _ h => h.no_dot, Bool.and_eq_true, beq_iff_eq,
    List.all_eq_true]
  simp only [isVersionPart_iff]

theorem packageVersion_of_readable (h : ReadableVersion p.version) :
    p.packageVersion = p.version :=
  if_pos (readableVersion_iff.1 h)

theorem packageVersion_of_not_readable (h : ¬ReadableVersion p.version) :
    p.packageVersion = defaultVersion :=
  if_neg (mt readableVersion_iff.2 h)

theorem isVersion_default : IsVersion defaultVersion :=
  ⟨['0'], ['1'], ['0'], by decide, versionPart_singleton (by decide),
    versionPart_singleton (by decide), versionPart_singleton (by decide)⟩

/-- The version of a package is a proper one unless the document's version is read as a version
without being one. -/
theorem isVersion_packageVersion_iff :
    IsVersion p.packageVersion ↔ (ReadableVersion p.version → IsVersion p.version) := by
  by_cases h : ReadableVersion p.version
  · simp only [packageVersion_of_readable h, h, true_imp_iff]
  · simp only [packageVersion_of_not_readable h, h, false_imp_iff, iff_true]
    exact isVersion_default

/-- Whether a text is the name of a package. -/
structure ProperName (name : String) : Prop where
  letter : ∃ first rest, name.toList = first :: rest ∧ Name.isLower first = true
  chars : ∀ c ∈ name.toList, Name.isSnakeChar c = true

theorem properName_nameFor (text : String) : ProperName (nameFor text) := by
  have hsnake := Name.isSnakeChar_of_mem_snakeCase [text]
  rw [nameFor]
  split
  next => exact ⟨⟨_, _, rfl, by decide⟩, List.all_eq_true.1 (by decide)⟩
  next first rest hfirst =>
    split_ifs with hletter
    · refine ⟨⟨first, rest, hfirst, ?_⟩, hsnake⟩
      have hmem : first ∈ (Name.snakeCase [text]).toList := hfirst ▸ List.mem_cons_self ..
      have hupper := Name.isUpper_of_isSnakeChar (hsnake first hmem)
      simpa [Name.isLetter, hupper] using hletter
    · have hlist : ("api_" ++ String.ofList
          ((Name.snakeCase [text]).toList.dropWhile (· == '_'))).toList =
          "api_".toList ++ (Name.snakeCase [text]).toList.dropWhile (· == '_') := by
        rw [String.toList_append]
        exact congrArg ("api_".toList ++ ·) String.toList_ofList
      refine ⟨⟨'a', _, hlist, by decide⟩, ?_⟩
      rw [hlist]
      refine List.forall_mem_append.2 ⟨List.all_eq_true.1 (by decide), fun c hc => ?_⟩
      exact hsnake c ((List.dropWhile_sublist _).mem hc)

theorem properName_ofDocument (d : Document) (name? : Option String) :
    ProperName (ofDocument d name?).name := by
  dsimp only [ofDocument]
  exact properName_nameFor _

open Scaffold (manifestStart manifestEnd manifestTitle)

end Package

end OpenApiServer
