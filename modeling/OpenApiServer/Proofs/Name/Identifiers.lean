import OpenApiServer.Proofs.Name.Words
import OpenApiServer.Proofs.Text.Split

/-!
# Names as identifiers

Texts are spelled in ASCII before names are made of them. How this is done does not matter here, as
long as texts in ASCII stay as they are. Whatever a text is, its field name can be written as an
identifier, if need be with the mark of a raw one, and its type name is an identifier that nothing
else has taken. Both are the names of their own texts, so names can be numbered and made again
without a change.
-/

namespace OpenApiServer

namespace Name

/-- The words that name nothing as they are. -/
def languageKeywords : List String := [
  "Self", "abstract", "as", "async", "await", "become", "box", "break", "const", "continue",
  "crate", "do", "dyn", "else", "enum", "extern", "false", "final", "fn", "for", "gen", "if",
  "impl", "in", "let", "loop", "macro", "match", "mod", "move", "mut", "override", "priv", "pub",
  "ref", "return", "self", "static", "struct", "super", "trait", "true", "try", "type", "typeof",
  "unsafe", "unsized", "use", "virtual", "where", "while", "yield"]

/-- The keywords that stand in paths and have no raw form. -/
def pathKeywords : List String := ["Self", "crate", "self", "super"]

/-- A letter or an underscore with letters, digits and underscores after it, but not one underscore
alone. -/
structure IsIdentifier (s : String) : Prop where
  start : s.toList.head?.any (fun c => isLetter c || c == '_') = true
  chars : ∀ c ∈ s.toList, isWordChar c = true
  notBlank : s ≠ "_"

theorem isIdentifier_iff {s : String} :
    IsIdentifier s ↔ s.toList.head?.any (fun c => isLetter c || c == '_') = true ∧
      s.toList.all isWordChar = true ∧ s ≠ "_" := by
  rw [List.all_eq_true]
  exact ⟨fun h => ⟨h.start, h.chars, h.notBlank⟩,
    fun ⟨start, chars, notBlank⟩ => ⟨start, chars, notBlank⟩⟩

instance (s : String) : Decidable (IsIdentifier s) := decidable_of_iff' _ isIdentifier_iff

/-- What makes tokens of identifiers; it breaks off where it gives none. -/
structure TokenMaker (α : Type) where
  plain : String → Option α
  raw : String → Option α

/-- Identifiers that are no keywords make tokens, and all but the keywords of paths make raw ones. -/
structure TokenMaker.AcceptsIdentifiers {α : Type} (make : TokenMaker α) : Prop where
  plain : ∀ s, IsIdentifier s → s ∉ languageKeywords → (make.plain s).isSome = true
  raw : ∀ s, IsIdentifier s → s ∉ pathKeywords → (make.raw s).isSome = true

end Name

open Name

/-! ## Field names -/

namespace FieldName

variable {n : FieldName}

/-- The characters of the text after the mark of a raw identifier, if it has one. -/
def markedBare? (n : FieldName) : Option (List Char) := Text.dropStart? ['r', '#'] n.text.toList

/-- The token of a name. -/
def token {α : Type} (make : TokenMaker α) (n : FieldName) : Option α :=
  match n.markedBare? with
  | some bare => make.raw (String.ofList bare)
  | none => make.plain n.text

theorem Proper.markedBare?_eq (h : n.Proper) :
    n.markedBare? = if n.isKeyword then some n.bare.toList else none := by
  rw [markedBare?, text]
  split_ifs
  · exact Text.dropStart?_eq_some_iff.2 String.toList_append
  · cases hmark : Text.dropStart? ['r', '#'] n.bare.toList with
    | none => rfl
    | some rest =>
      have hbare := Text.dropStart?_eq_some_iff.1 hmark
      have hhash : isSnakeChar '#' = true := h.chars '#' (by simp [hbare])
      exact absurd hhash (by decide)

theorem Proper.bare_of_text (h : n.Proper) :
    n.markedBare?.getD n.text.toList = n.bare.toList := by
  rw [h.markedBare?_eq, text]
  split_ifs <;> rfl

theorem Proper.isIdentifier (h : n.Proper) : IsIdentifier n.bare where
  start := by
    obtain ⟨letter, hletter, -⟩ := h.word
    have hdigit := h.noDigit
    rw [startsWithDigit] at hdigit
    cases hbare : n.bare.toList with
    | nil => simp [hbare] at hletter
    | cons first rest =>
      have hfirst := h.chars first (hbare ▸ List.mem_cons_self ..)
      rw [hbare, List.head?_cons, Option.any_some] at hdigit
      simpa [isSnakeChar, isLetter, hdigit, isUpper_of_isSnakeChar hfirst] using hfirst
  chars c hc := isWordChar_iff.2 (.inl (h.chars c hc))
  notBlank heq := by
    obtain ⟨c, hc, hne⟩ := h.word
    rw [heq] at hc
    exact hne (by simpa using hc)

/-- How field names are written: as an identifier of small letters, digits and underscores that is
no keyword, or as a keyword with the mark of a raw identifier. -/
inductive Written : String → Prop where
  | plain {s : String} (identifier : IsIdentifier s) (chars : ∀ c ∈ s.toList, isSnakeChar c = true)
    (free : s ∉ languageKeywords) : Written s
  | raw {word : String} (keyword : word ∈ languageKeywords) (free : word ∉ pathKeywords) :
    Written ("r#" ++ word)

theorem raw_of_mem_keywords :
    ∀ word ∈ keywords, word ∈ languageKeywords ∧ word ∉ pathKeywords := by
  decide +kernel

theorem Proper.not_languageKeyword (h : n.Proper) (hkeyword : n.isKeyword = false) :
    n.bare ∉ languageKeywords := by
  have hcover : ∀ word ∈ languageKeywords, word ∈ keywords ∨ word ∈ plainKeywords := by
    decide +kernel
  intro hmem
  rcases hcover n.bare hmem with hraw | hplain
  · simp [isKeyword, hraw] at hkeyword
  · exact h.noPlain hplain

theorem Proper.written (h : n.Proper) : Written n.text := by
  rw [text]
  cases hkeyword : n.isKeyword with
  | true =>
    obtain ⟨hword, hpath⟩ := raw_of_mem_keywords n.bare (by simpa [isKeyword] using hkeyword)
    exact .raw hword hpath
  | false => exact .plain h.isIdentifier h.chars (h.not_languageKeyword hkeyword)

theorem Proper.isSome_token (h : n.Proper) {α : Type} {make : TokenMaker α}
    (hmake : make.AcceptsIdentifiers) : (n.token make).isSome = true := by
  rw [token, h.markedBare?_eq, text]
  cases hkeyword : n.isKeyword with
  | true =>
    have hpath := (raw_of_mem_keywords n.bare (by simpa [isKeyword] using hkeyword)).2
    simp only [if_true, String.ofList_toList]
    exact hmake.raw n.bare h.isIdentifier hpath
  | false =>
    simp only [Bool.false_eq_true, if_false]
    exact hmake.plain n.bare h.isIdentifier (h.not_languageKeyword hkeyword)

end FieldName

/-! ## Type names -/

namespace TypeName

variable {n : TypeName}

theorem Proper.isIdentifier (h : n.Proper) : IsIdentifier n.text where
  start := by
    obtain ⟨first, rest, hfirst, hupper⟩ := h.exists_first
    simp [hfirst, isLetter, hupper]
  chars c hc := by simp [isWordChar, h.chars c hc]
  notBlank heq := by
    have hblank := h.chars '_' (by simp [heq])
    exact absurd hblank (by decide)

/-- The keyword that starts with an uppercase letter is taken by the generated code. -/
theorem Proper.not_languageKeyword (h : n.Proper) : n.text ∉ languageKeywords := by
  have hcover : ∀ word ∈ languageKeywords,
      word.toList.head?.any isUpper = true → word ∈ reservedTypeNames := by
    decide +kernel
  exact fun hmem => h.free (hcover n.text hmem h.upper)

theorem Proper.isSome_token (h : n.Proper) {α : Type} {make : TokenMaker α}
    (hmake : make.AcceptsIdentifiers) : (make.plain n.text).isSome = true :=
  hmake.plain n.text h.isIdentifier h.not_languageKeyword

end TypeName

/-- The names that a text makes under any spelling that keeps ASCII. The field name is written as an
identifier or as a raw keyword and the type name as an identifier of letters and digits that starts
with an uppercase letter and is not taken, so that both make tokens. The field name is the name of
its own bare text and stays so with digits after it, the type name is the name of its own text, and
texts in snake case or in Pascal case stay as they are. -/
theorem names_written_and_stable {spell : List Char → List Char} (hspell : KeepsAscii spell)
    {α : Type} {make : TokenMaker α} (hmake : make.AcceptsIdentifiers) (raw : String)
    (fragments : List String) :
    let field := FieldName.spelled spell raw
    let type := TypeName.spelled spell raw
    (FieldName.Written field.text ∧ (field.token make).isSome = true) ∧
    (type.Proper ∧ IsIdentifier type.text ∧ (make.plain type.text).isSome = true) ∧
    field.markedBare?.getD field.text.toList = field.bare.toList ∧
    (∀ digits, (∀ c ∈ digits, isDigit c = true) →
      (FieldName.spelled spell (field.bare ++ String.ofList digits)).bare =
        field.bare ++ String.ofList digits) ∧
    TypeName.spelled spell type.text = type ∧
    snakeCaseBy spell [snakeCaseBy spell fragments] = snakeCaseBy spell fragments ∧
    pascalCaseBy spell [pascalCaseBy spell fragments] = pascalCaseBy spell fragments := by
  intro field type
  have hfield : field.Proper := FieldName.proper_spelled spell raw
  have htype : type.Proper := TypeName.proper_spelled spell raw
  refine ⟨⟨hfield.written, hfield.isSome_token hmake⟩,
    ⟨htype, htype.isIdentifier, htype.isSome_token hmake⟩, hfield.bare_of_text,
    fun digits hdigits => ?_, htype.spelled_text hspell, ?_, ?_⟩
  · rw [(hfield.append_digits hdigits).spelled_bare hspell]
  · exact snakeCaseBy_eq_self hspell (isSnakeChar_of_mem_snakeCaseBy spell fragments)
  · exact pascalCaseBy_eq_self hspell (isAlphanumeric_of_mem_pascalCaseBy spell fragments)
      (isLower_head_pascalCaseBy spell fragments)

/-- Makes tokens of identifiers only. -/
def Name.TokenMaker.strict : TokenMaker String where
  plain s := if IsIdentifier s then some s else none
  raw s := if IsIdentifier s ∧ s ∉ pathKeywords then some ("r#" ++ s) else none

theorem type_named_raw :
    KeepsAscii toAscii ∧ TokenMaker.strict.AcceptsIdentifiers ∧
      (FieldName.ofText "type").text = "r#type" ∧ FieldName.Written "r#type" ∧
      (TypeName.ofText "type").text = "Type" ∧ TypeName.ofText "Type" = ⟨"Type"⟩ ∧
      (FieldName.ofText "type7").bare = "type7" := by
  have hmake : TokenMaker.strict.AcceptsIdentifiers :=
    ⟨fun s hs _ => by simp [TokenMaker.strict, hs], fun s hs hpath => by
      simp [TokenMaker.strict, hs, hpath]⟩
  have hfield : (FieldName.ofText "type") = ⟨"type"⟩ := by decide +kernel
  have htype : (TypeName.ofText "type") = ⟨"Type"⟩ := by decide +kernel
  have htext : (⟨"type"⟩ : FieldName).text = "r#type" := by decide +kernel
  obtain ⟨⟨hwritten, -⟩, -, -, hdigits, hstable, -⟩ :=
    names_written_and_stable keepsAscii_toAscii hmake "type" []
  rw [← FieldName.ofText_eq, hfield] at hwritten hdigits
  rw [← TypeName.ofText_eq, htype] at hstable
  exact ⟨keepsAscii_toAscii, hmake, hfield ▸ htext, htext ▸ hwritten, by rw [htype], hstable,
    hdigits ['7'] (List.forall_mem_singleton.2 (by decide))⟩

end OpenApiServer
