import OpenApiServer.Declaration.Basic

/-!
# Enumerations by their texts

Enumerations with the same set of texts share a bucket and convert into each other. Buckets are
kept in the order of their sorted texts, and the enumerations of a bucket in the order in which
they were declared.
-/

namespace OpenApiServer

/-- The order of lists of texts, word by word. -/
def textsBefore : List String → List String → Bool
  | [], [] => false
  | [], _ :: _ => true
  | _ :: _, [] => false
  | a :: as, b :: bs => if a = b then textsBefore as bs else a < b

/-- Sorts texts by their code points. -/
def sortedTexts (texts : List String) : List String := texts.mergeSort fun a b => a ≤ b

abbrev EnumBuckets := List (List String × List EnumDecl)

namespace EnumBuckets

/-- The variants of an enumeration, under distinct names. -/
def variantsFrom (used : List String) : List String → List EnumVariant
  | [] => []
  | value :: rest =>
    let name := Name.unique (TypeName.ofText value).text used
    ⟨⟨name⟩, value⟩ :: variantsFrom (name :: used) rest

def declare (name : TypeName) (docs : Docs) (members : List String) (default : Option String) :
    EnumDecl :=
  let variants := variantsFrom [] members
  ⟨name, docs, variants, default.bind fun value =>
    (variants.find? (·.value == value)).map (·.name)⟩

/-- Files an enumeration under its sorted texts. -/
def file (key : List String) (decl : EnumDecl) : EnumBuckets → EnumBuckets
  | [] => [(key, [decl])]
  | (k, decls) :: rest =>
    if k = key then (k, decls ++ [decl]) :: rest
    else if textsBefore key k then (key, [decl]) :: (k, decls) :: rest
    else (k, decls) :: file key decl rest

def register (buckets : EnumBuckets) (name : TypeName) (docs : Docs) (members : List String)
    (default : Option String) : EnumDecl × EnumBuckets :=
  let decl := declare name docs members default
  (decl, file (sortedTexts members) decl buckets)

/-- The conversion that keeps the text. -/
def conversion (source target : EnumDecl) : EnumConversion :=
  ⟨source.name, target.name, source.variants.filterMap fun v =>
    (target.variantFor? v.value).map fun name => (v.name, name)⟩

/-- The conversions between the enumerations of one bucket. -/
def siblings (decls : List EnumDecl) : List EnumConversion :=
  decls.flatMap fun source =>
    (decls.filter (·.name != source.name)).map (conversion source)

/-- One conversion for each ordered pair of distinct enumerations of a bucket. -/
def conversions (buckets : EnumBuckets) : List EnumConversion :=
  buckets.flatMap fun (_, decls) => siblings decls

end EnumBuckets

end OpenApiServer
