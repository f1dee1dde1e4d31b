import OpenApiServer.Proofs.Build.Failing
import OpenApiServer.Proofs.Build.Keeps

/-!
# The chain that a failed merge names

A merge that fails for a recursion names the names that are being merged, with the one that cannot be
entered again at the end. Each of them has been entered inside the one before it, whose schema
therefore reaches it.
-/

namespace OpenApiServer

namespace Build

variable {α β : Type} {d : Document} {r : Registry}

/-- Whether no run that fails for a recursion names a chain. -/
def RunsUnchaining (x : Build α) : Prop := ∀ r, Unchaining (x r)

namespace RunsUnchaining

variable {x : Build α} {f : α → Build β}

theorem pure (a : α) : RunsUnchaining (pure a) := fun _ => .ok _

theorem bind (hx : RunsUnchaining x) (hf : ∀ a, RunsUnchaining (f a)) :
    RunsUnchaining (x >>= f) := by
  intro r
  change Unchaining (x r >>= fun p => f p.1 p.2)
  exact (hx r).bind fun p _ => hf p.1 p.2

theorem lift {y : Except BuildError α} (hy : Unchaining y) : RunsUnchaining (liftM y) :=
  fun _ => hy.bind fun _ _ => .ok _

theorem lift_bind {y : Except BuildError α} (hy : Unchaining y)
    (hf : ∀ a, y = .ok a → RunsUnchaining (f a)) : RunsUnchaining (liftM y >>= f) := by
  intro r
  change Unchaining ((y >>= fun a => Except.ok (a, r)) >>= fun p => f p.1 p.2)
  refine Unchaining.bind (hy.bind fun _ _ => .ok _) fun p hp => ?_
  obtain ⟨a, ha, heq⟩ := bind_eq_ok_iff.1 hp
  obtain rfl := Except.ok.inj heq
  exact hf a ha r

theorem mapM {xs : List α} (hf : ∀ x ∈ xs, RunsUnchaining (f x)) : RunsUnchaining (xs.mapM f) := by
  induction xs with
  | nil => exact pure []
  | cons x rest ih =>
    obtain ⟨hx, hrest⟩ := List.forall_mem_cons.1 hf
    rw [List.mapM_cons]
    exact hx.bind fun y => (ih hrest).bind fun ys => pure _

end RunsUnchaining

/-! ## Types and fields -/

theorem register_unchaining (name : TypeName) (node : Json) (origin : String) :
    Unchaining (r.register name node origin) := by
  unfold Registry.register
  split
  · split
    · exact .ok _
    · exact nofun
  · exact .ok _

theorem inlineType_unchaining (node : Json) (suggested : TypeName) :
    RunsUnchaining (inlineType node suggested) :=
  .bind (fun _ => (register_unchaining suggested node suggested.text).bind fun _ _ => .ok _)
    fun _ => .pure _

theorem primitiveType_unchaining (context : String) (kind : PrimitiveKind)
    (format : Option String) : Unchaining (primitiveType context kind format) := by
  unfold primitiveType
  split
  case h_4 =>
    split
    · exact .ok _
    · exact nofun
  case h_5 => exact .unsupported ..
  all_goals exact .ok _

theorem typeFrom_unchaining {steps : Nat} {node : Json} {suggested : TypeName}
    (hsuggested : suggested.IsWord) : RunsUnchaining (typeFrom d steps node suggested) := by
  induction steps generalizing node suggested with
  | zero => exact fun _ => .recursive hsuggested.unchained
  | succ steps ih =>
    rw [typeFrom]
    refine .lift_bind (Schema.classify_unchaining _ node) fun schema _ => ?_
    cases schema with
    | reference pointer =>
      dsimp only
      split
      · exact .lift_bind (Document.resolve_unchaining pointer) fun _ _ => .pure _
      · refine .lift_bind (Document.dereference_unchaining node) fun _ _ => ?_
        exact .lift_bind (Document.resolve_unchaining pointer) fun _ _ => ih hsuggested
    | primitive kind format => exact .lift (primitiveType_unchaining _ kind format)
    | array items =>
      have hitem : (suggested.extend "Item").IsWord := hsuggested.extend (by decide)
      exact (ih hitem).bind fun _ => .pure _
    | oneOf arms =>
      dsimp only
      split
      next => exact (ih hsuggested).bind fun _ => .pure _
      next => exact inlineType_unchaining node suggested
    | object | allOf | stringEnum => exact inlineType_unchaining node suggested

theorem objectFields_unchaining (owner : TypeName) (properties : List (String × Json))
    (required : List String) : RunsUnchaining (objectFields d owner properties required) :=
  .mapM fun _ _ =>
    (typeFrom_unchaining (TypeName.isWord_ofFragments _)).bind fun _ => .pure _

theorem componentFrom_unchaining (context : String) (steps : Nat) (component : Option TypeName)
    (node : Json) : Unchaining (componentFrom d context steps component node) := by
  induction steps generalizing component node with
  | zero => exact .ok _
  | succ steps ih =>
    rw [componentFrom]
    refine .bind (Schema.classify_unchaining context node) fun schema _ => ?_
    split
    · exact .bind (Document.resolve_unchaining _) fun next _ => ih _ next
    · exact .ok _

theorem fragmentComponent_unchaining (owner : TypeName) (part : Json) :
    Unchaining (fragmentComponent d owner part) :=
  .bind (Document.dereference_unchaining part) fun _ _ =>
    .bind (componentFrom_unchaining _ _ _ _) fun _ _ => .ok _

/-! ## Chains -/

/-- Whether the last of some names is one of those before it. -/
def Closes (names : List TypeName) : Prop :=
  ∃ earlier last, names = earlier ++ [last] ∧ last ∈ earlier

/-- Whether each of some names reaches the next, and the schema reaches the first. -/
def Follows (d : Document) (node : Json) (names : List TypeName) : Prop :=
  (∀ name ∈ names.head?, Reaches d node name) ∧ names.IsChain (Leads d)

/-- How a run at some depth that finds out the fields of a record can fail for a recursion. -/
def RecordsFail (d : Document) (depth : Nat) : Prop :=
  ∀ ⦃r : Registry⦄ ⦃name : TypeName⦄ ⦃node : Json⦄ ⦃text : String⦄,
    d.root.Within node → name.IsWord →
      recordFieldsFrom d depth name node r = .error (.recursiveSchema text) →
        Unchained text ∨ ∃ rest, text = Registry.chainText (r.merging ++ name :: rest) ∧
          Closes (r.merging ++ name :: rest) ∧ Follows d node rest

/-- How a run at some depth that merges a part of a schema can fail for a recursion. -/
def PartsFail (d : Document) (depth : Nat) : Prop :=
  ∀ ⦃r : Registry⦄ ⦃owner : TypeName⦄ ⦃merged : List Field⦄ ⦃node part : Json⦄ ⦃text : String⦄,
    d.root.Within node → IsPart node part → owner.IsWord →
      mergeFragmentFrom d depth owner merged part r = .error (.recursiveSchema text) →
        Unchained text ∨ ∃ next rest, text = Registry.chainText (r.merging ++ next :: rest) ∧
          Closes (r.merging ++ next :: rest) ∧ Follows d node (next :: rest)

theorem Follows.of_nests {node inner : Json} {next : TypeName} {rest : List TypeName}
    (h : Follows d inner (next :: rest)) (hnests : Nests d node inner) :
    Follows d node (next :: rest) := by
  obtain ⟨hfirst, hchain⟩ := h
  refine ⟨fun name hname => ?_, hchain⟩
  obtain ⟨last, part, hway, hpart, hrefers⟩ := hfirst name hname
  exact ⟨last, part, .head hnests hway, hpart, hrefers⟩

theorem Follows.isWord {node : Json} {names : List TypeName} (h : Follows d node names) :
    ∀ n ∈ names, n.IsWord := by
  induction names generalizing node with
  | nil => simp
  | cons name rest ih =>
    obtain ⟨hfirst, hchain⟩ := h
    obtain ⟨_, part, -, -, hrefers⟩ := hfirst name rfl
    refine List.forall_mem_cons.2 ⟨hrefers.isWord, ?_⟩
    cases rest with
    | nil => simp
    | cons next later =>
      obtain ⟨⟨node', -, hreaches⟩, hlater⟩ := List.isChain_cons_cons.1 hchain
      have hfirst : ∀ name ∈ (next :: later).head?, Reaches d node' name := by
        rintro _ ⟨rfl⟩
        exact hreaches
      exact ih ⟨hfirst, hlater⟩

/-! ## Runs that fail -/

theorem bind_eq_error {x : Build α} {f : α → Build β} {e : BuildError} :
    (x >>= f) r = .error e ↔ x r = .error e ∨ ∃ a s, x r = .ok (a, s) ∧ f a s = .error e := by
  change (x r >>= fun p => f p.1 p.2) = _ ↔ _
  rw [bind_eq_error_iff, Prod.exists]

theorem lift_bind_eq_error {x : Except BuildError α} {f : α → Build β} {e : BuildError} :
    (liftM x >>= f) r = .error e ↔ x = .error e ∨ ∃ a, x = .ok a ∧ f a r = .error e := by
  cases x with
  | error e' =>
    simp [liftM, monadLift, MonadLift.monadLift, StateT.lift, bind, StateT.bind, Except.bind]
  | ok a =>
    simp [liftM, monadLift, MonadLift.monadLift, StateT.lift, bind, StateT.bind, Except.bind,
      pure, Except.pure]

theorem get_bind_eq_error {f : Registry → Build β} {e : BuildError} :
    (get >>= f) r = .error e ↔ f r r = .error e := Iff.rfl

theorem step_eq_error {f : Registry → Except BuildError Registry} {e : BuildError} :
    step f r = .error e ↔ f r = .error e := by
  rw [step, bind_eq_error_iff]
  simp [pure, Except.pure]

theorem keepFields_ne_error {name : TypeName} {fields : List Field} {e : BuildError} :
    (do modify (·.keepFields name fields); return fields : Build (List Field)) r ≠ .error e :=
  nofun

theorem enterMerge_eq_error {name : TypeName} {text : String}
    (h : r.enterMerge name = .error (.recursiveSchema text)) :
    name ∈ r.merging ∧ text = Registry.chainText (r.merging ++ [name]) := by
  rw [Registry.enterMerge] at h
  split_ifs at h with hmem
  exact ⟨hmem, (BuildError.recursiveSchema.inj (Except.error.inj h)).symm⟩

section Failing

variable {root : Json} (hdoc : Document.ofJson root = .ok d) {depth : Nat}

theorem PartsFail.foldlM (hpart : PartsFail d depth) {owner : TypeName} {node : Json}
    {parts : List Json} {merged : List Field} {text : String} (hnode : d.root.Within node)
    (hparts : ∀ part ∈ parts, IsPart node part) (howner : owner.IsWord)
    (h : parts.foldlM (mergeFragmentFrom d depth owner) merged r =
      .error (.recursiveSchema text)) :
    Unchained text ∨ ∃ next rest, text = Registry.chainText (r.merging ++ next :: rest) ∧
      Closes (r.merging ++ next :: rest) ∧ Follows d node (next :: rest) := by
  induction parts generalizing r merged with
  | nil => cases h
  | cons part rest ih =>
    obtain ⟨hfirst, hrest⟩ := List.forall_mem_cons.1 hparts
    rw [List.foldlM_cons] at h
    rcases bind_eq_error.1 h with hfails | ⟨next, s, hrun, hfails⟩
    · exact hpart hnode hfirst howner hfails
    · rw [← mergeFragmentFrom_merging hrun]
      exact ih hrest hfails

theorem PartsFail.recordsFail (hparts : PartsFail d depth) : RecordsFail d (depth + 1) := by
  intro r name node text hnode hname h
  rw [recordFieldsFrom, get_bind_eq_error] at h
  cases hknown : r.fieldsOf? name with
  | some fields =>
    rw [hknown] at h
    cases h
  | none =>
    rw [hknown] at h
    rcases lift_bind_eq_error.1 h with hfails | ⟨schema, hclassify, h⟩
    · exact .inl (Schema.classify_unchaining _ _ hfails)
    cases schema with
    | object properties required =>
      rcases bind_eq_error.1 h with hfails | ⟨own, s, -, hlater⟩
      · exact .inl (objectFields_unchaining _ properties required r hfails)
      · exact absurd hlater keepFields_ne_error
    | allOf parts =>
      rcases bind_eq_error.1 h with hfails | ⟨_, s, henter, h⟩
      · obtain ⟨hmem, rfl⟩ := enterMerge_eq_error (step_eq_error.1 hfails)
        exact .inr ⟨[], rfl, ⟨r.merging, name, rfl, hmem⟩, by simp, .nil⟩
      · obtain ⟨-, rfl⟩ := enterMerge_eq_ok (step_eq_ok.1 henter)
        rcases bind_eq_error.1 h with hfails | ⟨merged, s, -, hlater⟩
        · have hparts := hparts.foldlM hnode (fun _ => isPart_of_mem hclassify) hname hfails
          simp only [List.append_assoc, List.singleton_append] at hparts
          rcases hparts with hplain | ⟨next, rest, hchain⟩
          · exact .inl hplain
          · exact .inr ⟨next :: rest, hchain⟩
        · exact absurd hlater keepFields_ne_error
    | _ => cases h

include hdoc

theorem partsFail_succ (hrecords : RecordsFail d depth) (hparts : PartsFail d depth) :
    PartsFail d (depth + 1) := by
  intro r owner merged node part text hnode hpart howner h
  have hwithin := Json.hereditary_within d.root
  have hpartWithin := hpart.holds hwithin hnode
  rw [mergeFragmentFrom] at h
  rcases lift_bind_eq_error.1 h with hfails | ⟨found, hcomponent, h⟩
  · exact .inl (fragmentComponent_unchaining owner part hfails)
  cases found with
  | some found =>
    obtain ⟨name, inner⟩ := found
    obtain ⟨hrefers, hleads⟩ := fragmentComponent_eq_some hcomponent
    have hinner := hwithin.dereference (.refl d.root) hpartWithin hleads
    rcases bind_eq_error.1 h with hfails | ⟨fields, s, -, hlater⟩
    · refine (hrecords hinner hrefers.isWord hfails).imp_right ?_
      rintro ⟨rest, htext, hcloses, hfirst, hchain⟩
      refine ⟨name, rest, htext, hcloses, ?_, List.isChain_cons.2 ⟨fun next hnext => ?_, hchain⟩⟩
      · rintro _ ⟨rfl⟩
        exact ⟨node, part, .refl, hpart, hrefers⟩
      · exact ⟨inner, hrefers.describes hdoc hleads, hfirst next hnext⟩
    · cases hlater
  | none =>
    rcases lift_bind_eq_error.1 h with hfails | ⟨inner, hleads, h⟩
    · exact .inl (Document.dereference_unchaining part hfails)
    have hinner := hwithin.dereference (.refl d.root) hpartWithin hleads
    rcases lift_bind_eq_error.1 h with hfails | ⟨schema, hclassify, h⟩
    · exact .inl (Schema.classify_unchaining _ _ hfails)
    cases schema with
    | object properties required =>
      rcases bind_eq_error.1 h with hfails | ⟨own, s, -, hlater⟩
      · exact .inl (objectFields_unchaining _ properties required r hfails)
      · cases hlater
    | allOf parts =>
      have hnests : Nests d node inner := ⟨part, hpart, fragmentComponent_eq_none hcomponent, hleads⟩
      rcases hparts.foldlM hinner (fun _ => isPart_of_mem hclassify) howner h with
        hplain | ⟨next, rest, htext, hcloses, hfollows⟩
      · exact .inl hplain
      · exact .inr ⟨next, rest, htext, hcloses, hfollows.of_nests hnests⟩
    | _ => cases h

theorem recordsFail_and_partsFail (depth : Nat) : RecordsFail d depth ∧ PartsFail d depth := by
  induction depth with
  | zero =>
    constructor
    · rintro r name node text - hname ⟨rfl⟩
      exact .inl hname.unchained
    · rintro r owner merged node part text - - howner ⟨rfl⟩
      exact .inl howner.unchained
  | succ depth ih => exact ⟨ih.2.recordsFail, partsFail_succ hdoc ih.1 ih.2⟩

end Failing

end Build

/-- Whether a schema that the first name stands for reaches the second name. -/
def Registry.Leads (d : Document) (r : Registry) (name name' : TypeName) : Prop :=
  ∃ node, r.Describes d name node ∧ Build.Reaches d node name'

namespace Build

/-- A merge that fails with the text of a chain has closed the chain that it names. -/
theorem closes_of_recordFields {root : Json} {d : Document} (hdoc : Document.ofJson root = .ok d)
    {r : Registry} {name : TypeName} {node : Json} {names : List TypeName}
    (hstack : r.merging = []) (hnode : d.root.Within node) (hdescribes : r.Describes d name node)
    (hname : name.IsWord) (hlength : 1 < names.length) (hnames : ∀ n ∈ names, n.IsWord)
    (h : recordFields d name node r = .error (.recursiveSchema (Registry.chainText names))) :
    Closes names ∧ names.IsChain (r.Leads d) := by
  obtain ⟨first, second, later, rfl⟩ : ∃ first second later, names = first :: second :: later := by
    match names, hlength with
    | first :: second :: later, _ => exact ⟨first, second, later, rfl⟩
  have hfirst := hnames first (by simp)
  rcases (recordsFail_and_partsFail hdoc (mergeDepth d)).1 hnode hname h with
    hplain | ⟨rest, htext, hcloses, hfollows⟩
  · exact absurd hplain (not_unchained_chainText hfirst)
  · rw [hstack, List.nil_append] at htext hcloses
    have hwords := List.forall_mem_cons.2 ⟨hname, hfollows.isWord⟩
    obtain ⟨rfl, rfl⟩ := Registry.chainText_inj hnames hwords htext
    obtain ⟨hreaches, hchain⟩ := hfollows
    have hlater : (second :: later).IsChain (r.Leads d) :=
      hchain.imp fun _ _ ⟨found, hfound, hleads⟩ => ⟨found, .inl hfound, hleads⟩
    refine ⟨hcloses, List.isChain_cons.2 ⟨fun next hnext => ?_, hlater⟩⟩
    exact ⟨node, hdescribes, hreaches next hnext⟩

end Build

end OpenApiServer
