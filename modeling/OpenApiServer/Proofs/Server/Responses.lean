import OpenApiServer.Proofs.Build.Boxed
import OpenApiServer.Proofs.Build.Recorded
import OpenApiServer.Proofs.Http.Integer
import OpenApiServer.Proofs.Server.Parameters

/-!
# Response enumerations

An operation declares one variant for each key of its responses. The variant is named after the
number that the key writes and not after the key, and a number can be written in more than one way:
leading zeros and a plus sign are read over. So the variants are distinct exactly where no two keys
write the same number.
-/

namespace OpenApiServer

open Http (IntegerText)

variable {root : Json} {d : Document} {basePath : String} {m : ServerModel}

/-- Whether two response keys write the same number. -/
def SameStatus (key key' : String) : Prop :=
  ∃ code : Nat, IntegerText key.toList code ∧ IntegerText key'.toList code

/-- How a variant answers to the key that its response is declared under. -/
inductive ResponseVariant.Answers (v : ResponseVariant) : String → Prop where
  | default (name : v.name = ⟨"Default"⟩) (status : v.status = none) : v.Answers "default"
  | code {key : String} {code : Nat} (text : IntegerText key.toList code)
    (range : 100 ≤ code ∧ code ≤ 599) (name : v.name = ⟨"Http" ++ toString code⟩)
    (status : v.status = some code) : v.Answers key

/-- Whether the variants have distinct names and distinct status codes. -/
structure ResponseDecl.Distinct (r : ResponseDecl) : Prop where
  names : (r.variants.map (·.name)).Nodup
  statuses : (r.variants.filterMap (·.status)).Nodup

/-! ## Keys and variants -/

theorem not_integerText_default (n : Int) : ¬IntegerText "default".toList n := by
  intro h
  cases h with
  | unsigned digits => exact absurd (digits.all 'd' (by decide)) (by decide)

namespace ResponseVariant

theorem name_code_inj {code code' : Nat}
    (h : (⟨"Http" ++ toString code⟩ : TypeName) = ⟨"Http" ++ toString code'⟩) : code = code' :=
  Name.numbered_injective "Http" (TypeName.mk.inj h)

theorem name_code_ne_default (code : Nat) : (⟨"Http" ++ toString code⟩ : TypeName) ≠ ⟨"Default"⟩ := by
  intro h
  have hchars := congrArg (fun n : TypeName => n.text.toList.head?) h
  simp at hchars

variable {v v' : ResponseVariant} {key key' : String}

theorem Answers.name_eq_iff (h : v.Answers key) (h' : v'.Answers key') :
    v.name = v'.name ↔ key = key' ∨ SameStatus key key' := by
  cases h with
  | default name =>
    cases h' with
    | default name' => exact iff_of_true (name.trans name'.symm) (.inl rfl)
    | @code _ code text _ name' =>
      rw [name, name']
      refine iff_of_false (name_code_ne_default code).symm ?_
      rintro (rfl | ⟨_, htext, _⟩)
      · exact not_integerText_default _ text
      · exact not_integerText_default _ htext
  | @code _ code text _ name =>
    cases h' with
    | default name' =>
      rw [name, name']
      refine iff_of_false (name_code_ne_default code) ?_
      rintro (rfl | ⟨_, _, htext⟩)
      · exact not_integerText_default _ text
      · exact not_integerText_default _ htext
    | @code _ code' text' _ name' =>
      rw [name, name']
      constructor
      · intro heq
        obtain rfl := name_code_inj heq
        exact .inr ⟨code, text, text'⟩
      · rintro (rfl | ⟨n, hn, hn'⟩)
        · rw [Int.ofNat.inj (text.unique text')]
        · rw [Int.ofNat.inj (text.unique hn), Int.ofNat.inj (text'.unique hn')]

theorem Answers.status_eq_iff (h : v.Answers key) (h' : v'.Answers key') :
    (∃ code, v.status = some code ∧ v'.status = some code) ↔ SameStatus key key' := by
  cases h with
  | default _ status =>
    refine iff_of_false ?_ fun ⟨_, htext, _⟩ => not_integerText_default _ htext
    simp [status]
  | @code _ code text _ _ status =>
    cases h' with
    | default _ status' =>
      refine iff_of_false ?_ fun ⟨_, _, htext⟩ => not_integerText_default _ htext
      simp [status']
    | @code _ code' text' _ _ status' =>
      constructor
      · rintro ⟨n, hn, hn'⟩
        obtain rfl : code = n := Option.some.inj (status.symm.trans hn)
        obtain rfl : code' = code := Option.some.inj (status'.symm.trans hn')
        exact ⟨code', text, text'⟩
      · rintro ⟨n, hn, hn'⟩
        obtain rfl : code = n := Int.ofNat.inj (text.unique hn)
        obtain rfl : code' = code := Int.ofNat.inj (text'.unique hn')
        exact ⟨code', status, status'⟩

/-- Among keys of three characters none writes the number of another one. -/
theorem Answers.not_sameStatus (h : v.Answers key) (hkeys : key ≠ key')
    (hlength : key = "default" ∨ key.length = 3) (hlength' : key' = "default" ∨ key'.length = 3) :
    ¬SameStatus key key' := by
  rintro ⟨n, htext, htext'⟩
  have hthree : key.length = 3 := hlength.resolve_left fun heq =>
    not_integerText_default _ (heq ▸ htext)
  have hthree' : key'.length = 3 := hlength'.resolve_left fun heq =>
    not_integerText_default _ (heq ▸ htext')
  have hn : 100 ≤ n := by
    cases h with
    | default => exact absurd htext (not_integerText_default _)
    | @code _ code text range =>
      obtain rfl : code = n := Int.ofNat.inj (text.unique htext)
      exact range.1
  obtain ⟨digits, hvalue⟩ := htext.digits_of_length hthree hn
  obtain ⟨digits', hvalue'⟩ := htext'.digits_of_length hthree' hn
  have hlengths : key.toList.length = key'.toList.length := hthree.trans hthree'.symm
  have hsame := (Http.decimalFrom_inj digits.all digits'.all hlengths (hvalue.trans hvalue'.symm)).2
  exact hkeys (String.toList_inj.1 hsame)

end ResponseVariant

/-! ## The responses of an operation -/

namespace ResponseDecl

variable {response : ResponseDecl} {declared : List (String × Json)}

theorem nodup_names_iff (hkeys : (declared.map (·.1)).Nodup)
    (h : List.Forall₂ (fun entry v => v.Answers entry.1) declared response.variants) :
    (response.variants.map (·.name)).Nodup ↔
      declared.Pairwise fun entry entry' => ¬SameStatus entry.1 entry'.1 := by
  rw [List.Nodup, List.pairwise_map] at hkeys ⊢
  have hnames := pairwise_iff_of_forall₂ (T := fun v v' => v.name ≠ v'.name)
    (fun entry entry' v v' hv hv' => (not_congr (hv.name_eq_iff hv')).symm) h
  rw [← hnames]
  simp only [not_or, List.pairwise_and_iff]
  exact and_iff_right hkeys

theorem nodup_statuses_iff
    (h : List.Forall₂ (fun entry v => v.Answers entry.1) declared response.variants) :
    (response.variants.filterMap (·.status)).Nodup ↔
      declared.Pairwise fun entry entry' => ¬SameStatus entry.1 entry'.1 := by
  rw [List.Nodup, List.pairwise_filterMap]
  refine (pairwise_iff_of_forall₂ (fun entry entry' v v' hv hv' => ?_) h).symm
  rw [← hv.status_eq_iff hv']
  constructor
  · rintro hnone code hcode code' hcode' rfl
    exact hnone ⟨code, hcode, hcode'⟩
  · rintro hne ⟨code, hcode, hcode'⟩
    exact hne code hcode code hcode' rfl

theorem distinct_iff (hkeys : (declared.map (·.1)).Nodup)
    (h : List.Forall₂ (fun entry v => v.Answers entry.1) declared response.variants) :
    response.Distinct ↔ declared.Pairwise fun entry entry' => ¬SameStatus entry.1 entry'.1 := by
  constructor
  · intro hdistinct
    exact (nodup_names_iff hkeys h).1 hdistinct.names
  · intro hkeep
    exact ⟨(nodup_names_iff hkeys h).2 hkeep, (nodup_statuses_iff h).2 hkeep⟩

/-- Keys of three characters have distinct variants. -/
theorem distinct_of_length (hkeys : (declared.map (·.1)).Nodup)
    (h : List.Forall₂ (fun entry v => v.Answers entry.1) declared response.variants)
    (hlength : ∀ entry ∈ declared, entry.1 = "default" ∨ entry.1.length = 3) :
    response.Distinct := by
  refine (distinct_iff hkeys h).2 ?_
  rw [List.Nodup, List.pairwise_map] at hkeys
  refine hkeys.imp_of_mem fun {entry entry'} hentry hentry' hne => ?_
  obtain ⟨v, -, hv⟩ := exists_of_mem_forall₂ h.flip hentry
  exact hv.not_sameStatus hne (hlength _ hentry) (hlength _ hentry')

end ResponseDecl

namespace Build

variable {r r' : Registry}

theorem responseStatus_eq_ok {context key : String} {status : Option Nat}
    (h : responseStatus context key = .ok status) :
    (key = "default" ∧ status = none) ∨ ∃ code, IntegerText key.toList (code : Nat) ∧
      (100 ≤ code ∧ code ≤ 599) ∧ status = some code := by
  rw [responseStatus] at h
  split_ifs at h with hkey
  · exact .inl ⟨hkey, (Except.ok.inj h).symm⟩
  · split at h
    next code hcode =>
      split_ifs at h with hrange
      have hfits := (Http.Scalar.parseInteger_eq_ok_iff (by decide) (by decide)).1 hcode
      have hnat : (code.toNat : Int) = code := Int.toNat_of_nonneg (by omega)
      refine .inr ⟨code.toNat, ?_, by omega, (Except.ok.inj h).symm⟩
      rw [hnat]
      exact hfits.text
    next => cases h

theorem responseVariant_answers {operation context : String} {entry : String × Json}
    {v : ResponseVariant} (h : responseVariant d operation context entry r = .ok (v, r')) :
    v.Answers entry.1 := by
  obtain ⟨status, hstatus, h⟩ := lift_bind_eq_ok.1 h
  obtain ⟨node, -, h⟩ := lift_bind_eq_ok.1 h
  obtain ⟨payload, s, -, h⟩ := bind_eq_ok.1 h
  obtain ⟨rfl, -⟩ := pure_eq_ok.1 h
  rcases responseStatus_eq_ok hstatus with ⟨hkey, rfl⟩ | ⟨code, htext, hrange, rfl⟩
  · rw [hkey]
    exact .default rfl rfl
  · exact .code htext hrange rfl rfl

theorem buildResponse_answers {operation : String} {e : Endpoint} {response : ResponseDecl}
    (h : buildResponse d operation e r = .ok (response, r')) :
    ∃ declared, e.node.get? "responses" = some (.obj declared) ∧
      List.Forall₂ (fun entry v => v.Answers entry.1) declared response.variants := by
  obtain ⟨_, s, -, h⟩ := bind_eq_ok.1 h
  generalize hresponses : e.node.get? "responses" = responses at h
  split at h
  next first rest =>
    obtain ⟨variants, s', hvariants, h⟩ := bind_eq_ok.1 h
    obtain ⟨rfl, -⟩ := pure_eq_ok.1 h
    refine ⟨first :: rest, rfl, (forall₂_of_mapM hvariants).imp ?_⟩
    rintro entry v ⟨t, t', hrun⟩
    exact responseVariant_answers hrun
  next => exact absurd h fail_ne_ok

theorem buildOperation_answers {state state' : OperationState} {e : Endpoint} {o : Operation}
    {response : ResponseDecl}
    (h : buildOperation d state e r = .ok ((o, response, state'), r')) :
    o.response = response.name ∧ ∃ declared, e.node.get? "responses" = some (.obj declared) ∧
      List.Forall₂ (fun entry v => v.Answers entry.1) declared response.variants := by
  obtain ⟨run, rfl, rfl⟩ := operationRun_of_buildOperation h
  exact ⟨rfl, buildResponse_answers run.buildResponse⟩

end Build

/-- Responses are declared by operations only. -/
theorem Built.exists_built (b : Built d basePath m) (hdoc : Document.ofJson root = .ok d)
    (hroot : d.root.DistinctKeys) {response : ResponseDecl}
    (h : .response response ∈ m.types) : ∃ o, (o, response) ∈ b.built := by
  rw [b.types_eq] at h
  rcases List.mem_append.1 h with h | h
  · obtain ⟨t, ht, hboxed⟩ := exists_of_mem_forall₂ (Boxing.boxed_box _ _) h
    cases hboxed
    obtain ⟨node, -, hfits⟩ := (b.recorded hdoc hroot).kinds _ ht
    exact hfits.elim
  · obtain ⟨⟨o, response'⟩, hmem, heq⟩ := List.mem_map.1 h
    obtain rfl := Declaration.response.inj heq
    exact ⟨o, hmem⟩

/-- A document with one operation, whose responses are declared under these keys. -/
def answering (keys : List String) : Json :=
  .obj [("paths", .obj [("/pets", .obj [("get", .obj [("responses",
    .obj (keys.map fun key => (key, .obj [])))])])])]

end OpenApiServer
