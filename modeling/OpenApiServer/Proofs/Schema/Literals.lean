import OpenApiServer.Proofs.Data.List
import OpenApiServer.Proofs.Schema.Kind

/-!
# The literals of a schema

The view of an enumeration or a constant has the texts that the node lists, each once and in the
order of first occurrence. Its default is the one that the node declares, and one of them.
-/

namespace OpenApiServer

namespace Json

/-- What an enumeration lists; a constant lists its one value. -/
def enumValues (node : Json) : List Json :=
  match node.get? "enum", node.get? "const" with
  | some (.arr values), _ => values
  | none, some value => [value]
  | _, _ => []

/-- The texts that an enumeration or a constant lists, in their order. -/
def literals (node : Json) : List String := node.enumValues.filterMap asString?

theorem filterMap_asString? (texts : List String) :
    (texts.map Json.str).filterMap asString? = texts := by
  rw [List.filterMap_map]
  exact List.filterMap_some

theorem texts_of_sameItems {xs ys : List Json} (h : sameItems xs ys = true) :
    xs.filterMap asString? = ys.filterMap asString? := by
  induction xs generalizing ys with
  | nil =>
    cases ys with
    | nil => rfl
    | cons y ys => simp [sameItems] at h
  | cons x xs ih =>
    cases ys with
    | nil => simp [sameItems] at h
    | cons y ys =>
      rw [sameItems, Bool.and_eq_true] at h
      rw [List.filterMap_cons, List.filterMap_cons, asString?_of_same h.1, ih h.2]

/-- Texts are equal to themselves only. -/
theorem eq_of_sameItems {texts : List String} {ys : List Json}
    (h : sameItems (texts.map .str) ys = true) : ys = texts.map .str := by
  induction texts generalizing ys with
  | nil =>
    cases ys with
    | nil => rfl
    | cons y ys => simp [sameItems] at h
  | cons text rest ih =>
    cases ys with
    | nil => simp [sameItems] at h
    | cons y ys =>
      rw [List.map_cons, sameItems, Bool.and_eq_true] at h
      cases y with
      | str s =>
        obtain rfl : text = s := by simpa [same] using h.1
        rw [List.map_cons, ih h.2]
      | _ => simp [same] at h

theorem sameItems_enumValues {a b : Json} (hkeys : a.DistinctKeys) (h : a.same b = true) :
    sameItems a.enumValues b.enumValues = true := by
  have henum := get?_of_same hkeys h "enum"
  have hconst := get?_of_same hkeys h "const"
  unfold enumValues
  generalize a.get? "enum" = v, b.get? "enum" = w at henum
  generalize a.get? "const" = v', b.get? "const" = w' at hconst
  cases henum with
  | none =>
    cases hconst with
    | none => simp [sameItems]
    | some hsame => simp [sameItems, hsame]
  | @some x y hsame => cases x <;> cases y <;> simp_all [same, sameItems]

/-- Equal nodes list the same texts. -/
theorem literals_of_same {a b : Json} (hkeys : a.DistinctKeys) (h : a.same b = true) :
    a.literals = b.literals :=
  texts_of_sameItems (sameItems_enumValues hkeys h)

end Json

namespace Schema

variable {context : String} {node : Json}

/-- The texts found so far are kept in the order of their first occurrence. -/
theorem distinctMembers_eq_ok {found members : List String} {values : List Json}
    (h : distinctMembers context found.eraseDups values = .ok members) :
    ∃ texts : List String, values = texts.map .str ∧ members = (found ++ texts).eraseDups := by
  induction values generalizing found with
  | nil =>
    obtain rfl := Except.ok.inj h
    exact ⟨[], rfl, by simp⟩
  | cons value rest ih =>
    cases value with
    | str s =>
      have hnext : (if s ∈ found.eraseDups then found.eraseDups else found.eraseDups ++ [s]) =
          (found ++ [s]).eraseDups := by
        simp only [eraseDups_concat, List.mem_eraseDups]
      rw [distinctMembers, hnext] at h
      obtain ⟨texts, rfl, rfl⟩ := ih h
      exact ⟨s :: texts, rfl, by simp⟩
    | _ => cases h

/-- What the view of an enumeration takes from its node. -/
structure Enumerates (node : Json) (members : List String) (default : Option String) : Prop where
  values_eq : node.enumValues = node.literals.map .str
  members_eq : members = node.literals.eraseDups
  default_eq : node.string "default" = default
  default_mem : ∀ text, default = some text → text ∈ members

/-- A default has to be one of the members. -/
theorem default_of_match {members found : List String} {default : Option String}
    (h : (match node.get? "default" with
      | none => .ok (.stringEnum found none)
      | some (.str text) =>
        if text ∈ found then .ok (.stringEnum found (some text))
        else .error (.unsupported context (.badDefault (.str text)))
      | some other => .error (.unsupported context (.badDefault other)) :
        Except BuildError Schema) = .ok (.stringEnum members default)) :
    found = members ∧ node.string "default" = default ∧
      ∀ text, default = some text → text ∈ members := by
  split at h
  next hdefault =>
    obtain ⟨rfl, rfl⟩ := Schema.stringEnum.inj (Except.ok.inj h)
    exact ⟨rfl, by simp [Json.string, hdefault], nofun⟩
  next text hdefault =>
    split_ifs at h with hmem
    obtain ⟨rfl, rfl⟩ := Schema.stringEnum.inj (Except.ok.inj h)
    refine ⟨rfl, by simp [Json.string, hdefault, Json.asString?], fun text' htext => ?_⟩
    rwa [← Option.some.inj htext]
  next => cases h

theorem enumerates_of_values {members found : List String} {default : Option String}
    {values : List Json} (hvalues : node.enumValues = values)
    (hfound : distinctMembers context [] values = .ok found)
    (h : found = members ∧ node.string "default" = default ∧
      ∀ text, default = some text → text ∈ members) : Enumerates node members default := by
  have hempty : distinctMembers context ([] : List String).eraseDups values = .ok found := hfound
  obtain ⟨texts, rfl, rfl⟩ := distinctMembers_eq_ok hempty
  obtain ⟨rfl, hdefault, hmem⟩ := h
  have hliterals : node.literals = texts := by
    rw [Json.literals, hvalues, Json.filterMap_asString?]
  exact ⟨hliterals ▸ hvalues, by rw [hliterals, List.nil_append], hdefault, hmem⟩

theorem enumerates_of_enum? {type default : Option String} {members : List String}
    (h : enum? context node type = .ok (.stringEnum members default)) :
    Enumerates node members default := by
  unfold enum? at h
  dsimp only at h
  split at h
  · cases h
  · split at h
    case h_3 =>
      obtain ⟨_, hfail, -⟩ := bind_eq_ok_iff.1 h
      cases hfail
    all_goals
      obtain ⟨values, hvalues, h⟩ := bind_eq_ok_iff.1 h
      obtain rfl := Except.ok.inj hvalues
      obtain ⟨found, hfound, h⟩ := bind_eq_ok_iff.1 h
      split at h
      · cases h
      · exact enumerates_of_values (by simp [Json.enumValues, *]) hfound (default_of_match h)

/-- The view of an enumeration lists the literals of its node. -/
theorem enumerates_of_classify {default : Option String} {members : List String}
    (h : classify context node = .ok (.stringEnum members default)) :
    Enumerates node members default := by
  rw [classify] at h
  split at h
  · cases h
  · split at h
    next => cases h
    next => cases h
    next =>
      obtain ⟨parts, -, heq⟩ := map_eq_ok_iff.1 h
      cases heq
    next =>
      obtain ⟨arms, -, heq⟩ := map_eq_ok_iff.1 h
      cases heq
    next =>
      unfold ofPlain at h
      dsimp only at h
      split at h
      · cases h
      · split at h
        · cases h
        · obtain ⟨type, -, h⟩ := bind_eq_ok_iff.1 h
          split at h
          · exact enumerates_of_enum? h
          · have hkind := kind_of_ofType h
            unfold kindOfType at hkind
            split at hkind <;> cases hkind

end Schema

end OpenApiServer
