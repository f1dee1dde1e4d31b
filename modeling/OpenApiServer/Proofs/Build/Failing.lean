import OpenApiServer.Proofs.Build.Reaching
import OpenApiServer.Proofs.Document.Chains
import OpenApiServer.Proofs.Name.Words

/-!
# Failures that name no chain

Finding out types and following references can fail for a recursion as well, and then the message
names a pointer or one type. Such a message is not the text of a chain of names.
-/

namespace OpenApiServer

/-- Whether a text starts as a pointer does or has no blank. -/
def Unchained (text : String) : Prop := text.toList.head? = some '#' ∨ ' ' ∉ text.toList

theorem TypeName.IsWord.unchained {n : TypeName} (h : n.IsWord) : Unchained n.text := by
  refine .inr fun hspace => ?_
  simpa using h.ne_space ' ' hspace

theorem not_unchained_chainText {name next : TypeName} {rest : List TypeName} (h : name.IsWord) :
    ¬Unchained (Registry.chainText (name :: next :: rest)) := by
  rw [Unchained, Registry.toList_chainText_cons, Registry.laterText_cons]
  rintro (hhash | hspace)
  · cases hchars : name.text.toList with
    | nil => exact h.filled (String.toList_eq_nil_iff.1 hchars)
    | cons c cs =>
      rw [hchars, List.cons_append, List.head?_cons, Option.some.injEq] at hhash
      have hletter := h.chars c (hchars ▸ List.mem_cons_self ..)
      rw [hhash] at hletter
      revert hletter
      decide
  · exact hspace (by simp)

/-- Whether a failure for a recursion names no chain. -/
def Unchaining {α : Type} (x : Except BuildError α) : Prop :=
  ∀ ⦃text⦄, x = .error (.recursiveSchema text) → Unchained text

namespace Unchaining

variable {α β : Type} {x : Except BuildError α} {f : α → Except BuildError β}

theorem ok (a : α) : Unchaining (.ok a : Except BuildError α) := nofun

theorem unsupported (context : String) (cause : Unsupported) :
    Unchaining (.error (.unsupported context cause) : Except BuildError α) := nofun

theorem unsupported_bind {context : String} {cause : Unsupported} :
    Unchaining (Except.error (.unsupported context cause) >>= f) := nofun

theorem recursive {text : String} (h : Unchained text) :
    Unchaining (.error (.recursiveSchema text) : Except BuildError α) := by
  rintro text' ⟨rfl⟩
  exact h

theorem bind (hx : Unchaining x) (hf : ∀ a, x = .ok a → Unchaining (f a)) :
    Unchaining (x >>= f) := by
  intro text h
  rcases bind_eq_error_iff.1 h with hfirst | ⟨a, ha, hlater⟩
  · exact hx hfirst
  · exact hf a ha hlater

theorem map {g : α → β} (hx : Unchaining x) : Unchaining (g <$> x) :=
  fun _ h => hx (map_eq_error_iff.1 h)

theorem mapM {xs : List α} (hf : ∀ a ∈ xs, Unchaining (f a)) : Unchaining (xs.mapM f) := by
  induction xs with
  | nil => exact ok []
  | cons a rest ih =>
    obtain ⟨ha, hrest⟩ := List.forall_mem_cons.1 hf
    rw [List.mapM_cons]
    exact ha.bind fun _ _ => (ih hrest).bind fun _ _ => ok _

end Unchaining

/-! ## Views -/

namespace Schema

variable (context : String) (node : Json)

theorem nonEmptyList_unchaining (keyword : String) :
    Unchaining (nonEmptyList context keyword node) := by
  unfold nonEmptyList
  split
  · exact .ok _
  · exact .unsupported ..

theorem requiredName_unchaining : Unchaining (requiredName context node) := by
  unfold requiredName
  split
  · exact .ok _
  · exact .unsupported ..

theorem object?_unchaining : Unchaining (object? context node) := by
  unfold object?
  dsimp only
  split
  case h_3 => exact .unsupported_bind
  all_goals
    refine .bind (.ok _) fun properties _ => ?_
    split
    case h_1 => exact .ok _
    case h_2 => exact .bind (.mapM fun name _ => requiredName_unchaining context name) fun _ _ => .ok _
    case h_3 => exact .unsupported_bind

theorem distinctMembers_unchaining (found : List String) (values : List Json) :
    Unchaining (distinctMembers context found values) := by
  induction values generalizing found with
  | nil => exact .ok found
  | cons value rest ih =>
    cases value with
    | str text => exact ih _
    | _ => exact .unsupported ..

theorem enum?_unchaining (type : Option String) : Unchaining (enum? context node type) := by
  unfold enum?
  dsimp only
  split
  · exact .unsupported ..
  · split
    case h_3 => exact .unsupported_bind
    all_goals
      refine .bind (.ok _) fun values _ => ?_
      refine .bind (distinctMembers_unchaining context [] values) fun members _ => ?_
      split
      · exact .unsupported_bind
      · split
        · exact .ok _
        · split
          · exact .ok _
          · exact .unsupported ..
        · exact .unsupported ..

theorem declaredType_unchaining : Unchaining (declaredType context node) := by
  unfold declaredType
  split
  · exact .ok _
  · exact .ok _
  · exact .unsupported ..

theorem ofType_unchaining (type : Option String) : Unchaining (ofType context node type) := by
  rw [ofType.eq_def]
  split
  case h_1 => exact object?_unchaining context node
  case h_2 =>
    split
    · exact .ok _
    · exact .unsupported ..
  case h_8 => exact .unsupported ..
  case h_9 =>
    split
    · exact object?_unchaining context node
    · exact .unsupported ..
  all_goals exact .ok _

theorem ofPlain_unchaining : Unchaining (ofPlain context node) := by
  unfold ofPlain
  dsimp only
  split
  · exact .unsupported ..
  · split
    · exact .unsupported ..
    · refine .bind (declaredType_unchaining context node) fun type _ => ?_
      split
      · exact enum?_unchaining context node type
      · exact ofType_unchaining context node type

/-- No view fails for a recursion. -/
theorem classify_unchaining : Unchaining (classify context node) := by
  unfold classify
  split
  · exact .unsupported ..
  · split
    · exact .ok _
    · exact .unsupported ..
    · exact (nonEmptyList_unchaining context _ _).map
    · exact (nonEmptyList_unchaining context _ _).map
    · exact ofPlain_unchaining context node

end Schema

/-! ## References -/

namespace Document

variable {d : Document}

theorem resolve_unchaining (pointer : String) : Unchaining (d.resolve pointer) := by
  rw [resolve]
  split
  · exact .ok _
  · exact nofun

/-- Only a text that starts as a pointer does can be resolved. -/
theorem unchained_of_resolve {pointer : String} {node : Json} (h : d.resolve pointer = .ok node) :
    Unchained pointer := by
  unfold resolve at h
  split at h
  next found =>
    obtain ⟨keys, hkeys, -⟩ := Option.bind_eq_some_iff.1 found
    left
    unfold Pointer.keys? at hkeys
    split at hkeys
    next hchars => rw [hchars, List.head?_cons]
    next hchars => rw [hchars, List.head?_cons]
    next => cases hkeys
  next => cases h

/-- A pointer that is met again has been resolved before. -/
theorem Follows.unchaining {visited : List String} {node : Json} {outcome : Except BuildError Json}
    (h : Follows d visited node outcome) (hvisited : ∀ pointer ∈ visited, Unchained pointer) :
    Unchaining outcome := by
  induction h with
  | ends => exact .ok _
  | repeats _ met => exact .recursive (hvisited _ met)
  | breaks => exact nofun
  | hops _ _ resolves _ ih =>
    exact ih (List.forall_mem_cons.2 ⟨unchained_of_resolve resolves, hvisited⟩)

theorem dereference_unchaining (node : Json) : Unchaining (d.dereference node) :=
  (follows_dereference d node).unchaining (by simp)

end Document

end OpenApiServer
