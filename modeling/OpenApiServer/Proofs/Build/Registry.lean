import Mathlib.Data.List.Nodup
import OpenApiServer.Proofs.Build.Monad
import OpenApiServer.Proofs.Declaration.Mentioned
import OpenApiServer.Proofs.Document.References

/-!
# What a registry keeps

A sound registry accounts for every claimed name once: it has been declared, or it is queued.
Whatever the registry holds mentions claimed names only, and so does every reference to a named
schema. `Grows` is what a step may do to the rest: it can claim more names, but gives none up and
declares nothing.
-/

namespace OpenApiServer

namespace Registry

/-- The names that belong to a schema or a declaration. -/
def claimed (r : Registry) : List TypeName := r.claims.map (·.name)

/-- The names that wait for their declaration. -/
def queued (r : Registry) : List TypeName := r.pending.map (·.name)

/-- What the fields, conversions, declarations and enumerations of the registry mention. -/
def mentioned (r : Registry) : List TypeName :=
  r.fields.flatMap (fun kept => fieldsMentioned kept.2) ++
    r.conversions.flatMap Conversion.mentioned ++ r.types.flatMap Declaration.mentioned ++
    r.enums.flatMap (fun bucket => bucket.2.map (·.name))

/-- Every claimed name has been declared or is queued, and nothing is claimed twice. -/
structure Balanced (r : Registry) (declared : List TypeName) : Prop where
  perm : r.claimed.Perm (declared ++ r.queued)
  nodup : r.claimed.Nodup

structure Sound (d : Document) (r : Registry) (declared : List TypeName) : Prop
    extends r.Balanced declared where
  covered : d.Covered r.claimed
  closed : r.mentioned ⊆ r.claimed

structure Grows (r r' : Registry) : Prop where
  claimed : r.claimed ⊆ r'.claimed
  types : r'.types = r.types

theorem Grows.refl (r : Registry) : r.Grows r := ⟨List.Subset.refl _, rfl⟩

theorem Grows.trans {a b c : Registry} (h : a.Grows b) (h' : b.Grows c) : a.Grows c :=
  ⟨List.Subset.trans h.claimed h'.claimed, h'.types.trans h.types⟩

theorem Grows.mono {r r' : Registry} (h : r.Grows r') {names : List TypeName}
    (hnames : names ⊆ r.claimed) : names ⊆ r'.claimed :=
  List.Subset.trans hnames h.claimed

theorem claim?_eq_none_iff {r : Registry} {name : TypeName} :
    r.claim? name = none ↔ name ∉ r.claimed := by
  simp [claim?, claimed]

theorem mem_claimed_of_claim? {r : Registry} {name : TypeName} {claim : Claim}
    (h : r.claim? name = some claim) : name ∈ r.claimed := by
  refine List.mem_map.2 ⟨claim, List.mem_of_find?_eq_some h, ?_⟩
  simpa using List.find?_some h

theorem mentioned_conversions_concat {r : Registry} {names : List TypeName} {c : Conversion}
    (h : r.mentioned ⊆ names) (hc : c.mentioned ⊆ names) :
    Registry.mentioned { r with conversions := r.conversions ++ [c] } ⊆ names := by
  simp only [mentioned, List.append_subset] at h
  obtain ⟨⟨⟨hfields, hconversions⟩, htypes⟩, henums⟩ := h
  simp only [mentioned, List.append_subset, List.flatMap_append, List.flatMap_singleton]
  exact ⟨⟨⟨hfields, hconversions, hc⟩, htypes⟩, henums⟩

theorem mentioned_types_concat {r : Registry} {names : List TypeName} {t : Declaration}
    (h : r.mentioned ⊆ names) (ht : t.mentioned ⊆ names) :
    Registry.mentioned { r with types := r.types ++ [t] } ⊆ names := by
  simp only [mentioned, List.append_subset] at h
  obtain ⟨⟨⟨hfields, hconversions⟩, htypes⟩, henums⟩ := h
  simp only [mentioned, List.append_subset, List.flatMap_append, List.flatMap_singleton]
  exact ⟨⟨⟨hfields, hconversions⟩, htypes, ht⟩, henums⟩

/-- A name gets an owner, and its schema is queued. -/
def claim (r : Registry) (name : TypeName) (node : Json) (origin : String) : Registry :=
  { r with
    claims := r.claims ++ [⟨name, node, origin⟩]
    pending := r.pending ++ [⟨name, node⟩] }

/-- A registered name was claimed before, or it is claimed and queued now. -/
theorem register_cases {r r' : Registry} {name : TypeName} {node : Json} {origin : String}
    (h : r.register name node origin = .ok r') :
    name ∈ r.claimed ∧ r' = r ∨ name ∉ r.claimed ∧ r' = r.claim name node origin := by
  rw [register] at h
  split at h
  next claim hclaim =>
    split_ifs at h with hsame
    exact .inl ⟨mem_claimed_of_claim? hclaim, (Except.ok.inj h).symm⟩
  next hclaim =>
    exact .inr ⟨claim?_eq_none_iff.1 hclaim, (Except.ok.inj h).symm⟩

theorem reserve_eq_ok {r r' : Registry} {name : TypeName} {node : Json} {origin : String}
    (h : r.reserve name node origin = .ok r') :
    name ∉ r.claimed ∧ r' = { r with claims := r.claims ++ [⟨name, node, origin⟩] } := by
  rw [reserve] at h
  split at h
  next => cases h
  next hclaim => exact ⟨claim?_eq_none_iff.1 hclaim, (Except.ok.inj h).symm⟩

section Claim

variable (r : Registry) (name : TypeName) (node : Json) (origin : String)

@[simp] theorem claimed_claim : (r.claim name node origin).claimed = r.claimed ++ [name] := by
  simp [claimed, claim]

@[simp] theorem queued_claim : (r.claim name node origin).queued = r.queued ++ [name] := by
  simp [queued, claim]

theorem mentioned_claim : (r.claim name node origin).mentioned = r.mentioned := rfl

theorem grows_claim : r.Grows (r.claim name node origin) :=
  ⟨by simp, rfl⟩

end Claim

theorem Balanced.claim {r : Registry} {declared : List TypeName} {name : TypeName}
    (h : r.Balanced declared) (hnew : name ∉ r.claimed) (node : Json) (origin : String) :
    (r.claim name node origin).Balanced declared where
  perm := by
    rw [claimed_claim, queued_claim, ← List.append_assoc]
    exact h.perm.append_right [name]
  nodup := by
    rw [claimed_claim, ← List.concat_eq_append]
    exact h.nodup.concat hnew

theorem Balanced.register {r r' : Registry} {declared : List TypeName} {name : TypeName}
    {node : Json} {origin : String} (h : r.Balanced declared)
    (hregister : r.register name node origin = .ok r') :
    r'.Balanced declared ∧ r.Grows r' ∧ name ∈ r'.claimed ∧ r'.mentioned = r.mentioned := by
  rcases register_cases hregister with ⟨hmem, rfl⟩ | ⟨hnew, rfl⟩
  · exact ⟨h, .refl _, hmem, rfl⟩
  · exact ⟨h.claim hnew node origin, r.grows_claim name node origin, by simp,
      r.mentioned_claim name node origin⟩

namespace Sound

variable {d : Document} {r r' : Registry} {declared : List TypeName}

/-- What a registry claims and has queued decides its soundness with what it mentions. -/
theorem of_eq (h : r.Sound d declared) (hclaims : r'.claims = r.claims)
    (hpending : r'.pending = r.pending) (hclosed : r'.mentioned ⊆ r.claimed) :
    r'.Sound d declared := by
  have hclaimed : r'.claimed = r.claimed := by rw [claimed, hclaims, claimed]
  have hqueued : r'.queued = r.queued := by rw [queued, hpending, queued]
  refine ⟨⟨?_, ?_⟩, ?_, ?_⟩
  · rw [hclaimed, hqueued]
    exact h.perm
  · rw [hclaimed]
    exact h.nodup
  · rw [hclaimed]
    exact h.covered
  · rw [hclaimed]
    exact hclosed

theorem register {name : TypeName} {node : Json} {origin : String} (h : r.Sound d declared)
    (hregister : r.register name node origin = .ok r') :
    r'.Sound d declared ∧ r.Grows r' ∧ name ∈ r'.claimed := by
  obtain ⟨hbalanced, hgrows, hmem, hmentioned⟩ := h.toBalanced.register hregister
  refine ⟨⟨hbalanced, h.covered.mono hgrows.claimed, ?_⟩, hgrows, hmem⟩
  rw [hmentioned]
  exact hgrows.mono h.closed

/-- A reserved name counts as declared. -/
theorem reserve {name : TypeName} {node : Json} {origin : String} (h : r.Sound d declared)
    (hreserve : r.reserve name node origin = .ok r') :
    r'.Sound d (declared ++ [name]) ∧ r.Grows r' ∧ name ∈ r'.claimed := by
  obtain ⟨hnew, rfl⟩ := reserve_eq_ok hreserve
  have hclaimed : Registry.claimed { r with claims := r.claims ++ [⟨name, node, origin⟩] } =
      r.claimed ++ [name] := by
    simp [Registry.claimed]
  have hsub : r.claimed ⊆ r.claimed ++ [name] := List.subset_append_left ..
  refine ⟨⟨⟨?_, ?_⟩, ?_, ?_⟩, ⟨?_, rfl⟩, ?_⟩
  · rw [hclaimed, List.append_assoc]
    refine (h.perm.append_right [name]).trans ?_
    rw [List.append_assoc]
    exact List.perm_append_comm.append_left declared
  · rw [hclaimed, ← List.concat_eq_append]
    exact h.nodup.concat hnew
  · rw [hclaimed]
    exact h.covered.mono hsub
  · rw [hclaimed]
    exact List.Subset.trans h.closed hsub
  · rw [hclaimed]
    exact hsub
  · rw [hclaimed]
    simp

/-- What is taken from the queue counts as declared. -/
theorem taken (h : r.Sound d declared) :
    Registry.Sound d { r with pending := [] } (declared ++ r.queued) := by
  refine ⟨⟨?_, h.nodup⟩, h.covered, h.closed⟩
  simpa [Registry.queued, Registry.claimed] using h.perm

end Sound

end Registry

end OpenApiServer
