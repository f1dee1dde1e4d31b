import OpenApiServer.Code.Scaffold
import OpenApiServer.Proofs.Data.Except
import OpenApiServer.Proofs.Text.Split

/-!
# Texts of the document in comments

The title and the version of a document stand in the comment that starts each source file, and the
title in the comment that starts the manifest. They are written there as they are. So what follows a
line break in them is a line of the file of its own: a source file starts with comment lines exactly
if the later lines of the two texts are comments by themselves, and two manifests differ after their
first line exactly if their titles do.
-/

namespace OpenApiServer

/-- The lines of a text, with the empty one after a line break at its end. -/
def lineTexts (text : String) : List (List Char) := Text.splitOn '\n' text.toList

/-- Whether every line before the first empty one is a comment of its module. -/
def OpensWithComments (lines : List (List Char)) : Prop :=
  ∀ line ∈ lines.takeWhile (!·.isEmpty), ['/', '/', '!'] <+: line

instance (lines : List (List Char)) : Decidable (OpensWithComments lines) :=
  inferInstanceAs (Decidable (∀ line ∈ lines.takeWhile (!·.isEmpty), ['/', '/', '!'] <+: line))

theorem opensWithComments_cons {line : List Char} {lines : List (List Char)} :
    OpensWithComments (line :: lines) ↔
      line = [] ∨ ['/', '/', '!'] <+: line ∧ OpensWithComments lines := by
  cases line <;> simp [OpensWithComments]

theorem opensWithComments_cons_comment {line : List Char} {lines : List (List Char)}
    (h : ['/', '/', '!'] <+: line) :
    OpensWithComments (line :: lines) ↔ OpensWithComments lines := by
  obtain ⟨rest, rfl⟩ := h
  simp [opensWithComments_cons]

/-- A comment line and an empty one end the lines that matter. -/
theorem opensWithComments_append {lines later : List (List Char)} {comment : List Char}
    (h : ['/', '/', '!'] <+: comment) :
    OpensWithComments (lines ++ comment :: [] :: later) ↔ OpensWithComments lines := by
  induction lines with
  | nil =>
    rw [List.nil_append, opensWithComments_cons, opensWithComments_cons]
    simp [OpensWithComments, h]
  | cons line lines ih => rw [List.cons_append, opensWithComments_cons, opensWithComments_cons, ih]

namespace Scaffold

/-- The title and the version of a document, as the comments of source files name them. -/
def heading (d : Document) : String :=
  d.title?.getD "Untitled API" ++ " " ++ d.version?.getD Package.defaultVersion

theorem toList_framed (a title sep version b c d e f code : String) :
    (a ++ title ++ sep ++ version ++ b ++ c ++ d ++ e ++ f ++ code).toList =
      a.toList ++ ((title ++ sep ++ version).toList ++
        ((b ++ c ++ d ++ e ++ f).toList ++ code.toList)) := by
  simp only [String.toList_append, List.append_assoc]

theorem toList_opening : "//! AUTO-GENERATED CODE - DO NOT EDIT!\n//!\n//! ".toList =
    "//! AUTO-GENERATED CODE - DO NOT EDIT!".toList ++ '\n' :: ("//!".toList ++ '\n' ::
      "//! ".toList) := by
  decide

theorem toList_closing :
    ("\n//! Generated by `" ++ generatorName ++ "` " ++ generatorVersion ++ "\n\n").toList =
      '\n' :: ("//! Generated by `oas3-scaffold` 0.1.0".toList ++ ['\n', '\n']) := by
  decide

theorem toList_source (p : Package) (path : String) (items : List Code.Item) :
    (source p path items).content.toList =
      ("//! AUTO-GENERATED CODE - DO NOT EDIT!".toList ++ '\n' :: ("//!".toList ++ '\n' ::
        "//! ".toList)) ++ ((p.title ++ " " ++ p.version).toList ++
          ('\n' :: ("//! Generated by `oas3-scaffold` 0.1.0".toList ++ ['\n', '\n']) ++
            (Code.render items).toList)) := by
  rw [← toList_opening, ← toList_closing]
  exact toList_framed ..

/-- The lines of a source file: four comments, of which the third goes on with the later lines of
the title and the version, an empty line, and the code. -/
theorem lineTexts_source (p : Package) (path : String) (items : List Code.Item) :
    ∃ named later code, lineTexts (p.title ++ " " ++ p.version) = named :: later ∧
      lineTexts (source p path items).content =
        "//! AUTO-GENERATED CODE - DO NOT EDIT!".toList :: "//!".toList ::
          ("//! ".toList ++ named) ::
            (later ++ "//! Generated by `oas3-scaffold` 0.1.0".toList :: [] :: code) := by
  have hfirst : '\n' ∉ "//! AUTO-GENERATED CODE - DO NOT EDIT!".toList := by decide
  have hsecond : '\n' ∉ "//!".toList := by decide
  have hthird : '\n' ∉ "//! ".toList := by decide
  have hlast : '\n' ∉ "//! Generated by `oas3-scaffold` 0.1.0".toList := by decide
  obtain ⟨init, last, named, later, hopening, hnamed, hjoined⟩ :=
    Text.splitOn_append '\n' "//! ".toList (p.title ++ " " ++ p.version).toList
  rw [Text.splitOn_eq_singleton hthird] at hopening
  obtain ⟨rfl, rfl⟩ : init = [] ∧ last = "//! ".toList := by
    cases init <;> simp_all
  refine ⟨named, later, Text.splitOn '\n' (Code.render items).toList, hnamed, ?_⟩
  rw [lineTexts, toList_source]
  generalize "//! AUTO-GENERATED CODE - DO NOT EDIT!".toList = a,
    "//!".toList = b, "//! ".toList = c, "//! Generated by `oas3-scaffold` 0.1.0".toList = e,
    (p.title ++ " " ++ p.version).toList = t, (Code.render items).toList = code at *
  have hregroup : (a ++ '\n' :: (b ++ '\n' :: c)) ++ (t ++ ('\n' :: (e ++ ['\n', '\n']) ++ code)) =
      a ++ '\n' :: (b ++ '\n' :: ((c ++ t) ++ '\n' :: (e ++ '\n' :: ([] ++ '\n' :: code)))) := by
    simp
  rw [hregroup, Text.splitOn_append_sep, Text.splitOn_append_sep, Text.splitOn_append_sep,
    Text.splitOn_append_sep, Text.splitOn_append_sep, Text.splitOn_eq_singleton hfirst,
    Text.splitOn_eq_singleton hsecond, Text.splitOn_eq_singleton hlast, hjoined]
  simp

/-- A source file starts with comments exactly if the later lines of the title and the version are
comments by themselves, or come after an empty one. -/
theorem opensWithComments_source_iff (p : Package) (path : String) (items : List Code.Item) :
    OpensWithComments (lineTexts (source p path items).content) ↔
      OpensWithComments (lineTexts (p.title ++ " " ++ p.version)).tail := by
  obtain ⟨named, later, code, hheading, hlines⟩ := lineTexts_source p path items
  have hfirst : ['/', '/', '!'] <+: "//! AUTO-GENERATED CODE - DO NOT EDIT!".toList := by
    decide
  have hsecond : ['/', '/', '!'] <+: "//!".toList := by decide
  have hthird : ['/', '/', '!'] <+: "//! ".toList ++ named :=
    List.IsPrefix.trans (by decide) (List.prefix_append _ _)
  have hlast : ['/', '/', '!'] <+: "//! Generated by `oas3-scaffold` 0.1.0".toList := by
    decide
  rw [hlines, opensWithComments_cons_comment hfirst, opensWithComments_cons_comment hsecond,
    opensWithComments_cons_comment hthird, opensWithComments_append hlast, hheading, List.tail_cons]

/-! ## The manifest -/

/-- The title of a document as the manifest names it. -/
def manifestTitle (d : Document) : List Char :=
  (d.title?.getD "Untitled API").toList.map Package.quoteAsApostrophe

/-- What the manifest has before the title. -/
def manifestStart : String :=
  "# AUTO-GENERATED by `" ++ generatorName ++ "` " ++ generatorVersion ++ " from \""

/-- What the manifest has after the title. -/
def manifestEnd (name version : String) : String :=
  "\".\n[package]\nname = \"" ++ name ++ "\"\nversion = \"" ++ version ++
  "\"\nedition = \"2024\"\npublish = false\n\n[dependencies]\nanyhow = \"1\"\n" ++
  "oas3-scaffold-support = \"" ++ generatorVersion ++ "\"\n" ++
  "serde = \x7b version = \"1\", features = [\"derive\"] \x7d\nserde_json = \"1\"\n"

theorem manifest_eq (p : Package) : p.manifest =
    manifestStart ++ (String.ofList (p.title.toList.map Package.quoteAsApostrophe) ++
      manifestEnd p.name p.packageVersion) := by
  have hregroup (start title a name b version c d e f g : String) :
      start ++ title ++ a ++ name ++ b ++ version ++ c ++ d ++ e ++ f ++ g =
        start ++ (title ++ (a ++ name ++ b ++ version ++ c ++ d ++ e ++ f ++ g)) := by
    simp only [String.append_assoc]
  exact hregroup ..

theorem toList_manifest (p : Package) :
    p.manifest.toList = manifestStart.toList ++
      (p.title.toList.map Package.quoteAsApostrophe ++
        (manifestEnd p.name p.packageVersion).toList) := by
  rw [manifest_eq, String.toList_append, String.toList_append, String.toList_ofList]

theorem exists_first_manifest (p : Package) :
    ∃ first rest, lineTexts p.manifest = ('#' :: first) :: rest := by
  obtain ⟨more, hmore⟩ : ∃ more, manifestStart.toList = '#' :: more :=
    ⟨manifestStart.toList.tail, by decide⟩
  rw [lineTexts, toList_manifest, hmore, List.cons_append]
  obtain ⟨piece, pieces, -, hlines⟩ := Text.splitOn_cons_ne (by decide : '#' ≠ '\n')
    (more ++ (p.title.toList.map Package.quoteAsApostrophe ++
      (manifestEnd p.name p.packageVersion).toList))
  exact ⟨piece, pieces, hlines⟩

/-- The manifests of packages of one name and one version agree after the first line exactly if
their titles do. -/
theorem tail_manifest_eq_iff {p p' : Package} (hname : p.name = p'.name)
    (hversion : p.version = p'.version) :
    (lineTexts p.manifest).tail = (lineTexts p'.manifest).tail ↔
      (Text.splitOn '\n' (p.title.toList.map Package.quoteAsApostrophe)).tail =
        (Text.splitOn '\n' (p'.title.toList.map Package.quoteAsApostrophe)).tail := by
  have hstart : '\n' ∉ manifestStart.toList := by decide
  have hversions : p.packageVersion = p'.packageVersion := by
    rw [Package.packageVersion, Package.packageVersion, hversion]
  rw [lineTexts, lineTexts, toList_manifest, toList_manifest, Text.tail_splitOn_append hstart,
    Text.tail_splitOn_append hstart, hname, hversions, Text.tail_splitOn_append_inj]

end Scaffold

/-! ## Documents that differ in their title -/

namespace Json

/-- An object without the fields of one key. -/
def without (key : String) : Json → Json
  | .obj fields => .obj (fields.filter (·.1 ≠ key))
  | other => other

/-- A document without its title. -/
def withoutTitle : Json → Json
  | .obj fields => .obj (fields.map fun f => if f.1 = "info" then (f.1, f.2.without "title") else f)
  | other => other

theorem get?_without {key other : String} (h : other ≠ key) (j : Json) :
    (j.without key).get? other = j.get? other := by
  cases j with
  | obj fields =>
    rw [without, get?, get?]
    induction fields with
    | nil => rfl
    | cons f rest ih => grind [fieldNamed?]
  | _ => rfl

theorem get?_info_withoutTitle (root : Json) :
    root.withoutTitle.get? "info" = (root.get? "info").map (without "title") := by
  cases root with
  | obj fields =>
    rw [withoutTitle, get?, get?]
    induction fields with
    | nil => rfl
    | cons f rest ih => grind [fieldNamed?]
  | _ => rfl

end Json

/-- The version of a document does not depend on its title. -/
theorem Document.version?_withoutTitle (d : Document) :
    (Document.mk d.root.withoutTitle).version? = d.version? := by
  rw [version?, version?, Json.getPath?, Json.getPath?, Json.get?_info_withoutTitle]
  cases d.root.get? "info" with
  | none => rfl
  | some info => simp [Json.getPath?, Json.get?_without]

namespace Scaffold

/-- What generation makes of a document. -/
theorem generate_eq_ok {d : Document} {o : Options} {r : Result} (h : generate d o = .ok r) :
    r.package = Package.ofDocument d o.packageName ∧
      ∃ m, r.files = files (Package.ofDocument d o.packageName) o.visibility m := by
  obtain ⟨m, -, hresult⟩ := bind_eq_ok_iff.1 h
  obtain rfl := Except.ok.inj hresult
  exact ⟨rfl, m, rfl⟩

theorem opensWithComments_iff {d : Document} {o : Options} {r : Result} (h : generate d o = .ok r)
    {file : GeneratedFile} (hfile : file ∈ r.files) (hsource : ".rs".toList <:+ file.path.toList) :
    OpensWithComments (lineTexts file.content) ↔
      OpensWithComments (lineTexts (heading d)).tail := by
  obtain ⟨-, m, hfiles⟩ := generate_eq_ok h
  rw [hfiles, files] at hfile
  have hother : ¬".rs".toList <:+ "Cargo.toml".toList := by decide
  simp only [List.mem_cons, List.not_mem_nil, or_false] at hfile
  rcases hfile with rfl | rfl | rfl | rfl
  · exact absurd hsource hother
  all_goals exact opensWithComments_source_iff ..

theorem content_manifest {d : Document} {o : Options} {r : Result} (h : generate d o = .ok r)
    {file : GeneratedFile} (hfile : file ∈ r.files) (hpath : file.path = "Cargo.toml") :
    file.content = (Package.ofDocument d o.packageName).manifest := by
  obtain ⟨-, m, hfiles⟩ := generate_eq_ok h
  rw [hfiles, files] at hfile
  simp only [List.mem_cons, List.not_mem_nil, or_false] at hfile
  rcases hfile with rfl | rfl | rfl | rfl
  · rfl
  all_goals simp [source] at hpath

theorem tail_manifests_eq_iff {d d' : Document}
    (htitle : d.root.withoutTitle = d'.root.withoutTitle) (name : String) :
    (lineTexts (Package.ofDocument d (some name)).manifest).tail =
        (lineTexts (Package.ofDocument d' (some name)).manifest).tail ↔
      (Text.splitOn '\n' (manifestTitle d)).tail = (Text.splitOn '\n' (manifestTitle d')).tail := by
  have hversion : d.version? = d'.version? := by
    rw [← d.version?_withoutTitle, htitle, d'.version?_withoutTitle]
  exact tail_manifest_eq_iff rfl (congrArg (·.getD Package.defaultVersion) hversion)

/-- A document with a title and a version. -/
def titled (title version : String) : Json :=
  .obj [("info", .obj [("title", .str title), ("version", .str version)])]

/-- Options that name the package. -/
def named (name : String) : Options := ⟨.everyone, some name, none⟩

/-- The root module and the manifest of a package. -/
theorem mem_files {d : Document} {o : Options} {r : Result} (h : generate d o = .ok r) :
    source (Package.ofDocument d o.packageName) "src/lib.rs" (rootItems o.visibility) ∈ r.files ∧
      ⟨"Cargo.toml", (Package.ofDocument d o.packageName).manifest⟩ ∈ r.files := by
  obtain ⟨-, m, hfiles⟩ := generate_eq_ok h
  rw [hfiles, files]
  simp

theorem exists_generate_titled (title version : String)
    (h : (generate ⟨titled title version⟩ (named "pets")).toOption.isSome = true) :
    ∃ r, generate ⟨titled title version⟩ (named "pets") = .ok r := by
  obtain ⟨r, hr⟩ := Option.isSome_iff_exists.1 h
  exact ⟨r, toOption_eq_some_iff.1 hr⟩

end Scaffold

end OpenApiServer
