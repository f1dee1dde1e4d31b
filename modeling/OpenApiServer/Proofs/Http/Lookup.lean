import Mathlib.Data.List.Pairwise
import OpenApiServer.Proofs.Http.Trie

/-!
# Lookups after any insertions

`accepted` are the insertions of a row that succeed. A router holds exactly their templates, so
what a further insertion and what a lookup answer is a matter of these templates alone: an
insertion succeeds when its template is well-formed and differs in shape from all of them, and a
lookup gives the first of them that accepts the path.
-/

namespace OpenApiServer.Http

open Segment

variable {α : Type}

namespace Router

theorem insert_eq_ok_iff {router after : Router α} {template : String} {value : α} :
    router.insert template value = .ok after ↔ router.tryInsert template value = (after, none) := by
  unfold insert
  match router.tryInsert template value with
  | (left, none) => simp
  | (left, some e) => simp

theorem afterInsert_eq_of_ok {router after : Router α} {template : String} {value : α}
    (h : router.insert template value = .ok after) : router.afterInsert template value = after :=
  congrArg Prod.fst (insert_eq_ok_iff.1 h)

/-- The insertions of a row that succeed, in their order. -/
def accepted (router : Router α) : List (String × α) → List (String × α)
  | [] => []
  | (template, value) :: rest =>
    match router.insert template value with
    | .ok after => (template, value) :: accepted after rest
    | .error _ => accepted (router.afterInsert template value) rest

/-- Insertions in a row, as far as the first that fails. -/
def insertAll (router : Router α) (calls : List (String × α)) : Except InsertError (Router α) :=
  calls.foldlM (fun router (template, value) => router.insert template value) router

end Router

open Router (placeholderNames)

/-- Both templates are well-formed, and of the same shape. -/
def Alike (a b : String) : Prop :=
  ∃ segments segments', Reads a segments ∧ Reads b segments' ∧ SameShape segments segments'

theorem Alike.symm {a b : String} (h : Alike a b) : Alike b a := by
  obtain ⟨segments, segments', ha, hb, same⟩ := h
  exact ⟨segments', segments, hb, ha, same.symm⟩

/-- The router holds the routes, each at the end of its own segments, and no others. -/
structure Represents (router : Router α) (routes : List (String × α)) : Prop where
  stands : ∀ t ∈ routes, ∃ segments, Reads t.1 segments ∧
    Node.routeAt segments router.root = some ⟨placeholderNames segments, t.2⟩
  declared : ∀ segments r, Node.routeAt segments router.root = some r →
    ∃ t ∈ routes, ∃ own, Reads t.1 own ∧ SameShape own segments ∧
      r = ⟨placeholderNames own, t.2⟩
  apart : routes.Pairwise fun a b => ¬ Alike a.1 b.1

namespace Represents

variable {router : Router α} {routes : List (String × α)}

theorem empty : Represents (Router.empty : Router α) [] where
  stands := by simp
  declared segments r h := by simp [Router.empty] at h
  apart := .nil

theorem routeAt_eq_none_iff (h : Represents router routes) {template : String}
    {segments : List Segment} (hreads : Reads template segments) :
    Node.routeAt segments router.root = none ↔ ∀ t ∈ routes, ¬ Alike t.1 template := by
  constructor
  · rintro hnone t ht ⟨own, segments', hown, hsegments', same⟩
    obtain rfl := hreads.unique hsegments'
    obtain ⟨own', hown', hroute⟩ := h.stands t ht
    obtain rfl := hown.unique hown'
    rw [Node.routeAt_eq_of_sameShape same, hnone] at hroute
    cases hroute
  · intro hnone
    cases hroute : Node.routeAt segments router.root with
    | none => rfl
    | some r =>
      obtain ⟨t, ht, own, hown, same, -⟩ := h.declared segments r hroute
      exact absurd ⟨own, segments, hown, hreads, same⟩ (hnone t ht)

theorem insert_eq_ok (h : Represents router routes) {template : String} {value : α} :
    (∃ after, router.insert template value = .ok after) ↔
      (∀ cs ∈ segmentTexts template, WellFormed cs) ∧ ∀ t ∈ routes, ¬ Alike t.1 template := by
  simp only [Router.insert_eq_ok_iff, ← exists_reads_iff]
  unfold Router.tryInsert
  cases hparse : parseTemplate template with
  | error e =>
    have hnone (segments : List Segment) : ¬ Reads template segments := fun hreads => by
      rw [parseTemplate_eq_ok_iff.2 hreads] at hparse
      cases hparse
    simp [hnone]
  | ok segments =>
    have hreads := parseTemplate_eq_ok_iff.1 hparse
    rw [← h.routeAt_eq_none_iff hreads, ← Option.isNone_iff_eq_none,
      ← Node.insert_placed ⟨placeholderNames segments, value⟩]
    have hsome : ∃ segments, Reads template segments := ⟨segments, hreads⟩
    simp [hsome]

/-- One insertion that succeeds adds its route. -/
theorem insert (h : Represents router routes) {template : String} {value : α} {after : Router α}
    (hok : router.insert template value = .ok after) :
    Represents after (routes ++ [(template, value)]) := by
  obtain ⟨-, hnew⟩ := h.insert_eq_ok.1 ⟨after, hok⟩
  have hleft := Router.insert_eq_ok_iff.1 hok
  unfold Router.tryInsert at hleft
  cases hparse : parseTemplate template with
  | error e => simp [hparse] at hleft
  | ok segments =>
    have hreads := parseTemplate_eq_ok_iff.1 hparse
    have hfree := (h.routeAt_eq_none_iff hreads).2 hnew
    obtain rfl : ⟨(router.root.insert ⟨placeholderNames segments, value⟩ segments).1⟩ = after := by
      simpa [hparse] using congrArg Prod.fst hleft
    constructor
    · intro t ht
      rcases List.mem_append.1 ht with ht | ht
      · obtain ⟨own, hown, hroute⟩ := h.stands t ht
        refine ⟨own, hown, ?_⟩
        have hother : ¬ SameShape segments own := fun same =>
          hnew t ht ⟨own, segments, hown, hreads, same.symm⟩
        rw [Node.routeAt_insert_other _ hother]
        exact hroute
      · obtain rfl : t = (template, value) := by simpa using ht
        exact ⟨segments, hreads, Node.routeAt_insert_same _ hfree (.refl segments)⟩
    · intro other r hroute
      by_cases same : SameShape segments other
      · rw [Node.routeAt_insert_same _ hfree same] at hroute
        exact ⟨(template, value), by simp, segments, hreads, same, (Option.some.inj hroute).symm⟩
      · rw [Node.routeAt_insert_other _ same] at hroute
        obtain ⟨t, ht, own, hown, hshape, hr⟩ := h.declared other r hroute
        exact ⟨t, List.mem_append_left _ ht, own, hown, hshape, hr⟩
    · rw [List.pairwise_append]
      exact ⟨h.apart, List.pairwise_singleton .., fun t ht u hu => by
        obtain rfl : u = (template, value) := by simpa using hu
        exact hnew t ht⟩

/-- One insertion that fails leaves the router as it was: the nodes it walks over are there. -/
theorem afterInsert_eq_self {router : Router α} {template : String} {value : α} {e : InsertError}
    (herror : router.insert template value = .error e) :
    router.afterInsert template value = router := by
  unfold Router.insert at herror
  unfold Router.afterInsert
  cases hparse : parseTemplate template with
  | error e => simp [Router.tryInsert, hparse]
  | ok segments =>
    have hplaced := Node.insert_placed ⟨placeholderNames segments, value⟩ segments router.root
    cases hroute : Node.routeAt segments router.root with
    | none =>
      rw [hroute] at hplaced
      simp [Router.tryInsert, hparse, hplaced] at herror
    | some r =>
      have hsome : (Node.routeAt segments router.root).isSome := by simp [hroute]
      have hself := Node.insert_eq_self ⟨placeholderNames segments, value⟩ hsome
      simp [Router.tryInsert, hparse, hself]

/-- Insertions in a row add the routes that are accepted. -/
theorem insertAll (h : Represents router routes) (calls : List (String × α)) :
    Represents
      (calls.foldl (fun router (template, value) => router.afterInsert template value) router)
      (routes ++ router.accepted calls) := by
  induction calls generalizing router routes with
  | nil => simpa [Router.accepted] using h
  | cons call rest ih =>
    obtain ⟨template, value⟩ := call
    rw [List.foldl_cons, Router.accepted]
    cases hinsert : router.insert template value with
    | ok after =>
      simpa [Router.afterInsert_eq_of_ok hinsert] using ih (h.insert hinsert)
    | error e => simpa [afterInsert_eq_self hinsert] using ih h

/-- Insertions in a row all succeed when their templates are well-formed and no two of them, nor
one of them and one that is there, are of the same shape. -/
theorem insertAll_eq_ok (h : Represents router routes) {calls : List (String × α)} :
    (∃ after, router.insertAll calls = .ok after) ↔
      (∀ t ∈ calls, ∀ cs ∈ segmentTexts t.1, WellFormed cs) ∧
        (routes ++ calls).Pairwise fun a b => ¬ Alike a.1 b.1 := by
  induction calls generalizing router routes with
  | nil =>
    refine iff_of_true ⟨router, rfl⟩ ⟨by simp, ?_⟩
    simpa using h.apart
  | cons call rest ih =>
    obtain ⟨template, value⟩ := call
    have hsplit : routes ++ (template, value) :: rest =
        (routes ++ [(template, value)]) ++ rest := by simp
    rw [hsplit, List.forall_mem_cons, Router.insertAll, List.foldlM_cons]
    constructor
    · rintro ⟨after, hall⟩
      obtain ⟨next, hinsert, hrest⟩ := bind_eq_ok_iff.1 hall
      obtain ⟨hwell, hapart⟩ := (ih (h.insert hinsert)).1 ⟨after, hrest⟩
      exact ⟨⟨(h.insert_eq_ok.1 ⟨next, hinsert⟩).1, hwell⟩, hapart⟩
    · rintro ⟨⟨hwell, hrestwell⟩, hapart⟩
      have hnew : ∀ t ∈ routes, ¬ Alike t.1 template := fun t ht =>
        (List.pairwise_append.1 (List.pairwise_append.1 hapart).1).2.2 t ht _
          (List.mem_singleton_self _)
      obtain ⟨next, hinsert⟩ := h.insert_eq_ok.2 ⟨hwell, hnew⟩
      obtain ⟨after, hrest⟩ := (ih (h.insert hinsert)).2 ⟨hrestwell, hapart⟩
      exact ⟨after, bind_eq_ok_iff.2 ⟨next, hinsert, hrest⟩⟩

/-- Where all insertions succeed, all are accepted. -/
theorem accepted_eq_self {router after : Router α} {calls : List (String × α)}
    (h : router.insertAll calls = .ok after) : router.accepted calls = calls := by
  induction calls generalizing router with
  | nil => rfl
  | cons call rest ih =>
    obtain ⟨template, value⟩ := call
    obtain ⟨next, hinsert, hrest⟩ := bind_eq_ok_iff.1 h
    simp only [Router.accepted, hinsert]
    rw [ih hrest]

/-- Insertions of malformed templates leave the router as it was. -/
theorem insertions_eq_self (h : Represents router routes) {calls : List (String × α)}
    (hbad : ∀ t ∈ calls, ¬ ∀ cs ∈ segmentTexts t.1, WellFormed cs) :
    calls.foldl (fun router (template, value) => router.afterInsert template value) router =
      router := by
  induction calls with
  | nil => rfl
  | cons call rest ih =>
    obtain ⟨template, value⟩ := call
    obtain ⟨hfirst, hrest⟩ := List.forall_mem_cons.1 hbad
    have hself : router.afterInsert template value = router := by
      cases hinsert : router.insert template value with
      | ok after => exact absurd (h.insert_eq_ok.1 ⟨after, hinsert⟩).1 hfirst
      | error e => exact afterInsert_eq_self hinsert
    rw [List.foldl_cons]
    simpa only [hself] using ih hrest

end Represents

theorem ofRoutes_represents (calls : List (String × α)) :
    Represents (Router.ofRoutes calls) (Router.empty.accepted calls) := by
  simpa [Router.ofRoutes] using Represents.empty.insertAll calls

/-- The route with these segments accepts the path and comes before every other that does. -/
structure Leads (routes : List (String × α)) (path : String) (t : String × α)
    (segments : List Segment) : Prop where
  mem : t ∈ routes
  reads : Reads t.1 segments
  accepts : AcceptsAll segments (segmentTexts path)
  first : ∀ other ∈ routes, other ≠ t → ∀ segments', Reads other.1 segments' →
    AcceptsAll segments' (segmentTexts path) → Precedes segments segments'

theorem Leads.unique {routes : List (String × α)} {path : String} {t u : String × α}
    {segments segments' : List Segment} (ht : Leads routes path t segments)
    (hu : Leads routes path u segments') : t = u ∧ segments = segments' := by
  by_cases htu : u = t
  · subst htu
    exact ⟨rfl, ht.reads.unique hu.reads⟩
  · have hbefore := ht.first u hu.mem htu segments' hu.reads hu.accepts
    have hafter := hu.first t ht.mem (Ne.symm htu) segments ht.reads ht.accepts
    exact absurd hafter hbefore.asymm

namespace Represents

variable {router : Router α} {routes : List (String × α)}

theorem eq_of_alike (h : Represents router routes) {t u : String × α} (ht : t ∈ routes)
    (hu : u ∈ routes) (same : Alike t.1 u.1) : t = u := by
  have : Std.Symm fun a b : String × α => ¬ Alike a.1 b.1 := ⟨fun _ _ hab hba => hab hba.symm⟩
  by_contra hne
  exact h.apart.forall ht hu hne same

/-- What a search that ends at the root's routes says about the routes themselves. -/
theorem at?_spec (h : Represents router routes) (path : String) :
    (router.at? path = none ∧ ∀ t ∈ routes, ∀ segments, Reads t.1 segments →
      ¬ AcceptsAll segments (segmentTexts path)) ∨
    ∃ t segments, Leads routes path t segments ∧
      router.at? path = some ⟨t.2, captures segments (segmentTexts path)⟩ := by
  have hfound := Node.search_found (segmentTexts path) router.root []
  unfold Router.at?
  rw [pathSegments_eq]
  generalize router.root.search (segmentTexts path) [] = result at hfound ⊢
  cases hfound with
  | nothing absent =>
    refine .inl ⟨rfl, fun t ht segments hreads haccepts => ?_⟩
    obtain ⟨own, hown, hroute⟩ := h.stands t ht
    obtain rfl := hreads.unique hown
    rw [absent _ haccepts] at hroute
    cases hroute
  | @route segments r haccepts hroute hfirst =>
    obtain ⟨t, ht, own, hown, same, rfl⟩ := h.declared segments r hroute
    have hown_accepts := haccepts.of_sameShape same
    refine .inr ⟨t, own, ⟨ht, hown, hown_accepts, ?_⟩, ?_⟩
    · intro other hother hne segments' hreads' haccepts'
      obtain ⟨own', hown', hroute'⟩ := h.stands other hother
      obtain rfl := hreads'.unique hown'
      rcases hfirst _ haccepts' (by simp [hroute']) with hsame | hprec
      · have halike : Alike other.1 t.1 := ⟨_, own, hreads', hown, hsame.symm.trans same.symm⟩
        exact absurd (h.eq_of_alike hother ht halike) hne
      · exact hprec.of_sameShape same
    · simp [capturedTexts_eq_of_sameShape same.symm, zip_capturedTexts hown_accepts]

end Represents

/-- The answers of a router to insertions and lookups, after any insertions. -/
theorem answers_after_insertions (calls : List (String × α)) :
    let router := Router.ofRoutes calls
    let routes := Router.empty.accepted calls
    (∀ template value,
      ((∃ after, router.insert template value = .ok after) ↔
        (∀ cs ∈ segmentTexts template, WellFormed cs) ∧ ∀ t ∈ routes, ¬ Alike t.1 template) ∧
      ((∃ e, router.insert template value = .error e) →
        ∀ path, (router.afterInsert template value).at? path = router.at? path)) ∧
    ∀ path,
      (router.at? path = none ↔ ∀ t ∈ routes, ∀ segments, Reads t.1 segments →
        ¬ AcceptsAll segments (segmentTexts path)) ∧
      ∀ found, router.at? path = some found ↔
        ∃ t segments, Leads routes path t segments ∧
          found = ⟨t.2, captures segments (segmentTexts path)⟩ ∧
          found.params.map (·.1) = placeholderNames segments := by
  intro router routes
  have h : Represents router routes := ofRoutes_represents calls
  refine ⟨fun template value => ⟨h.insert_eq_ok, ?_⟩, fun path => ?_⟩
  · rintro ⟨e, herror⟩ path
    rw [Represents.afterInsert_eq_self herror]
  rcases h.at?_spec path with ⟨hnone, hrejected⟩ | ⟨t, segments, hleads, hsome⟩
  · refine ⟨iff_of_true hnone hrejected, fun found => ?_⟩
    constructor
    · intro hfound
      rw [hnone] at hfound
      cases hfound
    · rintro ⟨t, segments, hleads, -⟩
      exact absurd hleads.accepts (hrejected t hleads.mem segments hleads.reads)
  · constructor
    · refine iff_of_false (by simp [hsome]) fun hrejected => ?_
      exact hrejected t hleads.mem segments hleads.reads hleads.accepts
    · intro found
      rw [hsome, Option.some.injEq]
      constructor
      · rintro rfl
        exact ⟨t, segments, hleads, rfl, captures_map_fst hleads.accepts⟩
      · rintro ⟨u, segments', hleads', rfl, -⟩
        obtain ⟨rfl, rfl⟩ := hleads.unique hleads'
        rfl

end OpenApiServer.Http
