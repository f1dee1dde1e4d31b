import OpenApiServer.Proofs.Http.Arguments
import OpenApiServer.Proofs.Json.Keys
import OpenApiServer.Proofs.Text.Split

/-!
# List parameters

A query spells the elements of a list as the values of one name, or between the commas of the first
of them. `Spells` says which texts these are. The list is read as a whole or refused for the first
text that is no element, and only the absence of the name makes an optional list absent.
-/

namespace OpenApiServer.Http

namespace Query

variable {query : Query} {name : String}

theorem contains_iff : query.contains name = true ↔ name ∈ query.pairs.map (·.1) := by
  simp [contains]

theorem contains_of_all_ne_nil (h : query.all name ≠ []) : query.contains name = true := by
  obtain ⟨text, htext⟩ := List.exists_mem_of_ne_nil _ h
  obtain ⟨pair, hpair, -⟩ := List.mem_map.1 htext
  obtain ⟨hpair, hname⟩ := List.mem_filter.1 hpair
  exact List.any_eq_true.2 ⟨pair, hpair, hname⟩

theorem contains_of_first? {text : String} (h : query.first? name = some text) :
    query.contains name = true :=
  contains_iff.2 (List.mem_map_of_mem (mem_of_fieldNamed? h))

end Query

namespace Param

variable {α : Type} {parser : Parser α} {query : Query} {name : String}

/-- The texts that a query has for the elements of a list: all values of the name, or what stands
between the commas of its first value and is not empty. -/
inductive Spells (query : Query) (name : String) : ArrayStyle → List String → Prop where
  | repeated : Spells query name .repeated ((query.pairs.filter (·.1 = name)).map (·.2))
  | delimited {before after : List (String × String)} {text : String}
    (pairs : query.pairs = before ++ (name, text) :: after) (first : name ∉ before.map (·.1)) :
    Spells query name .delimited (((text.toList.splitOn ',').filter (· ≠ [])).map .ofList)

theorem elementTexts_repeated :
    elementTexts query name .repeated = (query.pairs.filter (·.1 = name)).map (·.2) := by
  simp [elementTexts, Query.all, beq_eq_decide]

theorem elementTexts_delimited {text : String} (h : query.first? name = some text) :
    elementTexts query name .delimited =
      ((text.toList.splitOn ',').filter (· ≠ [])).map .ofList := by
  have hfilled : (fun piece : List Char => !piece.isEmpty) = fun piece => decide (piece ≠ []) := by
    funext piece
    cases piece <;> simp
  rw [elementTexts, h, Option.getD_some, Text.splitOn_eq, hfilled]

theorem spells_elementTexts (h : name ∈ query.pairs.map (·.1)) (style : ArrayStyle) :
    Spells query name style (elementTexts query name style) := by
  cases style with
  | repeated =>
    rw [elementTexts_repeated]
    exact .repeated
  | delimited =>
    cases hfirst : query.first? name with
    | none => exact absurd h (fieldNamed?_eq_none_iff.1 hfirst)
    | some text =>
      obtain ⟨before, after, pairs, first⟩ := fieldNamed?_eq_some_iff.1 hfirst
      rw [elementTexts_delimited hfirst]
      exact .delimited pairs first

/-- Texts without commas are found again between the commas that join them. -/
theorem elementTexts_joined {texts : List String} (hne : texts ≠ [])
    (htexts : ∀ text ∈ texts, text ≠ "" ∧ ',' ∉ text.toList)
    (h : query.first? name = some (",".intercalate texts)) :
    elementTexts query name .delimited = texts := by
  have hpieces : (",".intercalate texts).toList.splitOn ',' = texts.map String.toList := by
    rw [String.toList_intercalate]
    refine List.splitOn_intercalate ',' (List.forall_mem_map.2 fun text htext => ?_) ?_
    · exact (htexts text htext).2
    · simpa using hne
  have hfilled : (texts.map String.toList).filter (· ≠ []) = texts.map String.toList := by
    refine List.filter_eq_self.2 (List.forall_mem_map.2 fun text htext => ?_)
    simpa using (htexts text htext).1
  rw [elementTexts_delimited h, hpieces, hfilled, List.map_map]
  simp

/-! ## Reading -/

theorem optionalValues_of_absent (h : name ∉ query.pairs.map (·.1)) (style : ArrayStyle) :
    optionalValues parser query name style = .ok none := by
  rw [optionalValues, if_neg (mt Query.contains_iff.1 h)]

theorem optionalValues_of_present (h : query.contains name = true) (style : ArrayStyle) :
    optionalValues parser query name style =
      some <$> (elementTexts query name style).mapM (parse parser name) := by
  rw [optionalValues, if_pos h]

theorem optionalValues_eq_none_iff {style : ArrayStyle} :
    optionalValues parser query name style = .ok none ↔ name ∉ query.pairs.map (·.1) := by
  constructor
  · intro hnone h
    rw [optionalValues_of_present (Query.contains_iff.2 h), map_eq_ok_iff] at hnone
    obtain ⟨values, -, hvalues⟩ := hnone
    cases hvalues
  · exact fun h => optionalValues_of_absent h style

/-- All texts are elements, or the first one that is none is reported. -/
theorem optionalValues_cases {texts : List String}
    (h : optionalValues parser query name style = some <$> texts.mapM (parse parser name)) :
    (∃ values, List.Forall₂ (fun text value => parser text = .ok value) texts values ∧
        optionalValues parser query name style = .ok (some values)) ∨
      ∃ before text after reason, texts = before ++ text :: after ∧
        (∀ earlier ∈ before, ∃ value, parser earlier = .ok value) ∧
        parser text = .error reason ∧
        optionalValues parser query name style = .error (.invalidParameter name reason) := by
  rw [h]
  cases hvalues : texts.mapM (parse parser name) with
  | ok values =>
    simp only [mapM_eq_ok_iff, parse_eq_ok_iff] at hvalues
    exact .inl ⟨values, hvalues, rfl⟩
  | error e =>
    simp only [mapM_eq_error_iff, parse_eq_ok_iff, parse_eq_error_iff] at hvalues
    obtain ⟨before, text, after, htexts, hbefore, reason, hreason, rfl⟩ := hvalues
    exact .inr ⟨before, text, after, reason, htexts, hbefore, hreason, rfl⟩

theorem values_of_absent (h : name ∉ query.pairs.map (·.1)) (style : ArrayStyle) :
    values parser query name style =
      .error (.invalidParameter name "required but missing") := by
  rw [values, optionalValues_of_absent h]
  rfl

theorem values_of_present (h : query.contains name = true) (style : ArrayStyle) :
    some <$> values parser query name style = optionalValues parser query name style := by
  rw [values, optionalValues_of_present h]
  cases (elementTexts query name style).mapM (parse parser name) <;> rfl

/-- Reading a list parameter. An optional list is absent exactly if its name is. Otherwise the texts of
its elements are read in their order, to all of their values, or the parameter is refused with the
reason for the first of them that is no element. A required list differs only in that an absent name
is refused. One value for each text is the same as one value with all texts between commas, whatever
other names there are before, between and after. -/
theorem list_read_whole_or_refused (parser : Parser α) (query : Query) (name : String) :
    (∀ style, optionalValues parser query name style = .ok none ↔
      name ∉ query.pairs.map (·.1)) ∧
    (∀ style, name ∈ query.pairs.map (·.1) → ∃ texts, Spells query name style texts ∧
      ((∃ values, List.Forall₂ (fun text value => parser text = .ok value) texts values ∧
          optionalValues parser query name style = .ok (some values)) ∨
        ∃ before text after reason, texts = before ++ text :: after ∧
          (∀ earlier ∈ before, ∃ value, parser earlier = .ok value) ∧
          parser text = .error reason ∧
          optionalValues parser query name style = .error (.invalidParameter name reason))) ∧
    (∀ style, name ∉ query.pairs.map (·.1) →
      values parser query name style = .error (.invalidParameter name "required but missing")) ∧
    (∀ style, name ∈ query.pairs.map (·.1) →
      some <$> values parser query name style = optionalValues parser query name style) ∧
    ∀ (texts : List String) (joined : Query), query.all name = texts →
      joined.first? name = some (",".intercalate texts) → texts ≠ [] →
      (∀ text ∈ texts, text ≠ "" ∧ ',' ∉ text.toList) →
      optionalValues parser query name .repeated = optionalValues parser joined name .delimited ∧
        values parser query name .repeated = values parser joined name .delimited := by
  refine ⟨fun style => optionalValues_eq_none_iff, fun style hname => ?_,
    fun style hname => values_of_absent hname style,
    fun style hname => values_of_present (Query.contains_iff.2 hname) style, ?_⟩
  · exact ⟨_, spells_elementTexts hname style,
      optionalValues_cases (optionalValues_of_present (Query.contains_iff.2 hname) style)⟩
  · rintro texts joined rfl hjoined hne htexts
    have heq : optionalValues parser query name .repeated =
        optionalValues parser joined name .delimited := by
      rw [optionalValues_of_present (Query.contains_of_all_ne_nil hne),
        optionalValues_of_present (Query.contains_of_first? hjoined),
        elementTexts_joined hne htexts hjoined]
      rfl
    refine ⟨heq, ?_⟩
    rw [values, values, heq]

/-- A list whose third element is no integer, in repeated values among others and in one value. -/
theorem third_tag_refused :
    let spread : Query :=
      ⟨[("page", "7"), ("tag", "1"), ("page", "x"), ("tag", "+2"), ("tag", "b")]⟩
    let joined : Query := ⟨[("tag", "1,+2,b"), ("tag", "5")]⟩
    let refused : RequestError := .invalidParameter "tag" "invalid digit found in string"
    values (scalar (.integer .i32)) spread "tag" .repeated = .error refused ∧
      values (scalar (.integer .i32)) joined "tag" .delimited = .error refused ∧
      optionalValues (scalar (.integer .i32)) spread "sort" .repeated = .ok none := by
  intro spread joined refused
  have hread : values (scalar (.integer .i32)) spread "tag" .repeated = .error refused := rfl
  obtain ⟨-, -, -, -, hjoin⟩ := list_read_whole_or_refused (scalar (.integer .i32)) spread "tag"
  obtain ⟨-, hsame⟩ := hjoin ["1", "+2", "b"] joined rfl (by decide) (by decide) (by decide)
  obtain ⟨hnone, -⟩ := list_read_whole_or_refused (scalar (.integer .i32)) spread "sort"
  exact ⟨hread, hsame.symm.trans hread, (hnone .repeated).2 (by decide)⟩

end Param

end OpenApiServer.Http
