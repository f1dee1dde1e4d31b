import OpenApiServer.Document.Basic
import OpenApiServer.Proofs.Data.Except
import OpenApiServer.Proofs.Json.Keys

/-!
# Nodes of a document

What passes on to the parts of a document holds of whatever a pointer or a chain of references leads
to, of the named schemas and of the operations. So where the objects of a document repeat no key,
none of its nodes does.
-/

namespace OpenApiServer

namespace Json.Hereditary

variable {N : Json → Prop} (hN : Hereditary N)

include hN

theorem step {j v : Json} {key : String} (hj : N j) (h : Pointer.step j key = some v) : N v := by
  cases j with
  | obj fields => exact hN.obj hj _ (mem_of_fieldNamed? h)
  | arr items =>
    obtain ⟨i, -, hi⟩ := Option.bind_eq_some_iff.1 h
    exact hN.arr hj v (List.mem_of_getElem? hi)
  | _ => cases h

theorem follow {j v : Json} {keys : List String} (hj : N j)
    (h : Pointer.follow j keys = some v) : N v := by
  induction keys generalizing j with
  | nil =>
    obtain rfl := Option.some.inj h
    exact hj
  | cons key rest ih =>
    obtain ⟨next, hnext, h⟩ := Option.bind_eq_some_iff.1 h
    exact ih (hN.step hj hnext) h

variable {d : Document} (hroot : N d.root)

include hroot

theorem resolve {pointer : String} {node : Json} (h : d.resolve pointer = .ok node) : N node := by
  rw [Document.resolve] at h
  split at h
  next target htarget =>
    obtain rfl := Except.ok.inj h
    obtain ⟨keys, -, hfollow⟩ := Option.bind_eq_some_iff.1 htarget
    exact hN.follow hroot hfollow
  next => cases h

theorem dereferenceFrom {steps : Nat} {visited : List String} {node target : Json} (hnode : N node)
    (h : d.dereferenceFrom steps visited node = .ok target) : N target := by
  induction steps generalizing visited node with
  | zero =>
    rw [Document.dereferenceFrom] at h
    split at h
    · obtain rfl := Except.ok.inj h
      exact hnode
    · split_ifs at h
  | succ steps ih =>
    rw [Document.dereferenceFrom] at h
    split at h
    · obtain rfl := Except.ok.inj h
      exact hnode
    · split_ifs at h
      obtain ⟨next, hnext, h⟩ := bind_eq_ok_iff.1 h
      exact ih (hN.resolve hroot hnext) h

theorem dereference {node target : Json} (hnode : N node)
    (h : d.dereference node = .ok target) : N target :=
  hN.dereferenceFrom hroot hnode h

theorem schemas : ∀ s ∈ d.schemas, N s.2 := by
  intro s hs
  rw [Document.schemas] at hs
  cases hfound : d.root.getPath? ["components", "schemas"] with
  | none => simp [hfound] at hs
  | some schemas =>
    obtain ⟨components, hcomponents, hrest⟩ := Option.bind_eq_some_iff.1 hfound
    obtain ⟨found, hschemas, hlast⟩ := Option.bind_eq_some_iff.1 hrest
    obtain rfl := Option.some.inj hlast
    have hnode := hN.get? (hN.get? hroot hcomponents) hschemas
    rw [hfound] at hs
    cases found with
    | obj fields => exact hN.obj hnode s hs
    | _ => simp [asObject?] at hs

theorem endpoints : ∀ e ∈ d.endpoints, N e.pathItem ∧ N e.node := by
  intro e he
  obtain ⟨⟨path, item⟩, hitem, he⟩ := List.mem_flatMap.1 he
  obtain ⟨method, -, he⟩ := List.mem_filterMap.1 he
  have hpath : N item := by
    cases hpaths : d.root.get? "paths" with
    | none => simp [hpaths] at hitem
    | some paths =>
      have hnode := hN.get? hroot hpaths
      rw [hpaths] at hitem
      cases paths with
      | obj fields => exact hN.obj hnode (path, item) hitem
      | _ => simp [asObject?] at hitem
  split at he
  next node hnode =>
    split_ifs at he
    obtain rfl := Option.some.inj he
    exact ⟨hpath, hN.get? hpath hnode⟩
  next => cases he

end Json.Hereditary

namespace Document

open Json (DistinctKeys hereditary_distinctKeys)

variable {d : Document}

theorem dereference_distinctKeys (hroot : d.root.DistinctKeys) {node target : Json}
    (hnode : node.DistinctKeys) (h : d.dereference node = .ok target) : target.DistinctKeys :=
  hereditary_distinctKeys.dereference hroot hnode h

theorem schemas_distinctKeys (hroot : d.root.DistinctKeys) : ∀ s ∈ d.schemas, s.2.DistinctKeys :=
  hereditary_distinctKeys.schemas hroot

theorem endpoints_distinctKeys (hroot : d.root.DistinctKeys) :
    ∀ e ∈ d.endpoints, e.pathItem.DistinctKeys ∧ e.node.DistinctKeys :=
  hereditary_distinctKeys.endpoints hroot

end Document

end OpenApiServer

/-!
## Endpoints of a document

A document whose objects repeat no key declares a method of a path at most once.
-/

namespace OpenApiServer.Document

theorem map_filterMap_sublist {α β γ : Type} {f : α → Option β} {g : β → γ} {h : α → γ}
    (hfg : ∀ a b, f a = some b → g b = h a) (xs : List α) :
    ((xs.filterMap f).map g).Sublist (xs.map h) := by
  induction xs with
  | nil => exact .slnil
  | cons x rest ih =>
    rw [List.filterMap_cons, List.map_cons]
    cases hx : f x with
    | none => exact ih.cons _
    | some b =>
      rw [List.map_cons, hfg x b hx]
      exact ih.cons_cons _

theorem endpointsOf_sublist (path : String) (item : Json) :
    ((endpointsOf path item).map fun e => (e.method, e.path)).Sublist
      (Method.all.map fun m => (m, path)) := by
  refine map_filterMap_sublist (fun m e he => ?_) _
  split at he
  · split at he
    · obtain rfl := Option.some.inj he
      rfl
    · cases he
  · cases he

theorem endpoints_nodup {d : Document} (h : d.root.DistinctKeys) :
    (d.endpoints.map fun e => (e.method, e.path)).Nodup := by
  have hfields : ((((d.root.get? "paths").bind Json.asObject?).getD []).map (·.1)).Nodup := by
    cases hpaths : d.root.get? "paths" with
    | none => simp
    | some paths =>
      cases h.get? hpaths with
      | obj keys each => simpa [Json.asObject?] using keys
      | _ => simp [Json.asObject?]
  unfold endpoints
  generalize ((d.root.get? "paths").bind Json.asObject?).getD [] = fields at hfields
  rw [List.map_flatMap, List.nodup_flatMap]
  constructor
  · rintro ⟨path, item⟩ -
    refine (endpointsOf_sublist path item).nodup ?_
    exact (show Method.all.Nodup by decide).map fun a b hab => (Prod.mk.inj hab).1
  · rw [List.Nodup, List.pairwise_map] at hfields
    refine hfields.imp fun {a b} hab => ?_
    refine List.disjoint_left.2 fun e ha hb => ?_
    have hea := (endpointsOf_sublist a.1 a.2).subset ha
    have heb := (endpointsOf_sublist b.1 b.2).subset hb
    obtain ⟨m, -, rfl⟩ := List.mem_map.1 hea
    obtain ⟨m', -, heq⟩ := List.mem_map.1 heb
    exact hab (Prod.mk.inj heq).2.symm

end OpenApiServer.Document
