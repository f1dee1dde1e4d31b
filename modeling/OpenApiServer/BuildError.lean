import OpenApiServer.Json.Basic

/-!
# Why a document cannot be turned into a server

Every cause is a constructor, and `BuildError.message` has the wording of all of them. The first
cause that is met ends the work.
-/

namespace OpenApiServer

inductive InvalidDocument where
  | rootNotObject
  | pathsNotObject
  | schemasNotObject
  deriving DecidableEq, Repr

def InvalidDocument.message : InvalidDocument → String
  | .rootNotObject => "document root must be an object"
  | .pathsNotObject => "`paths` must be an object"
  | .schemasNotObject => "`components.schemas` must be an object"

/-- What a schema, a parameter or a response does that has no counterpart in the server. -/
inductive Unsupported where
  | schemaNotObject
  | referenceNotString
  | notNonEmptyList (name : String)
  | keyword (name : String)
  | typeNotName
  | unknownType (name : String)
  | noType
  | arrayWithoutItems
  | propertiesNotObject
  | requiredNotNames
  | requiredNotList
  | notStringEnum
  | enumNotList
  | enumEmpty
  | badDefault (value : Json)
  | lonelyNull
  | notMergeable
  | fragmentNotObject
  | parametersNotList
  | parameterIncomplete
  | parameterLocation (location : String)
  | arrayInPath
  | arrayStyle (style : String)
  | notFromText (type : String)
  | noResponses
  | responseKey (key : String)
  deriving Repr

def Unsupported.message : Unsupported → String
  | .schemaNotObject => "schema must be an object"
  | .referenceNotString => "`$ref` must be a string"
  | .notNonEmptyList name => "`" ++ name ++ "` must be a non-empty list"
  | .keyword name => "`" ++ name ++ "` is not supported"
  | .typeNotName => "`type` must be a single type name"
  | .unknownType name => "unknown type `" ++ name ++ "`"
  | .noType => "schema declares no type"
  | .arrayWithoutItems => "array schema without `items`"
  | .propertiesNotObject => "`properties` must be an object"
  | .requiredNotNames => "`required` must list property names"
  | .requiredNotList => "`required` must be a list"
  | .notStringEnum => "only string enumerations are supported"
  | .enumNotList => "`enum` must be a list"
  | .enumEmpty => "enumeration has no members"
  | .badDefault value => "default " ++ value.text ++ " is not one of the enumeration members"
  | .lonelyNull => "`null` is only supported as one arm of a two-armed oneOf"
  | .notMergeable => "expected an object or allOf schema"
  | .fragmentNotObject => "allOf fragments must be objects or references to objects"
  | .parametersNotList => "`parameters` must be a list"
  | .parameterIncomplete => "parameters must declare `name` and `in`"
  | .parameterLocation location => "parameter location `" ++ location ++ "` is not supported"
  | .arrayInPath => "array path parameters are not supported"
  | .arrayStyle style => "array parameter style `" ++ style ++ "` is not supported"
  | .notFromText type => "parameter type `" ++ type ++ "` cannot be parsed from text"
  | .noResponses => "operation declares no responses"
  | .responseKey key => "response key `" ++ key ++
      "` must be `default` or a status code between 100 and 599"

/-- What keeps a `oneOf` from being a tagged union. -/
inductive UnionFlaw where
  | armNotObject (arm : Nat)
  | armNotTwoRequired (arm : Nat)
  | tagPropertyAbsent (arm : Nat) (property : String)
  | noTagProperty (arm : Nat)
  | ambiguousTag (arm : Nat)
  | noPayload (arm : Nat)
  | layoutDiffers (arm : Nat) (tag payload expectedTag expectedPayload : String)
  | tagRepeated (tag : String)
  | variantRepeated (name : String)
  | noArms
  deriving DecidableEq, Repr

def UnionFlaw.message : UnionFlaw → String
  | .armNotObject arm => "arm " ++ toString arm ++ " is not an object"
  | .armNotTwoRequired arm =>
    "arm " ++ toString arm ++ " must declare exactly two required properties"
  | .tagPropertyAbsent arm property => "arm " ++ toString arm ++ " has no `" ++ property ++ "`"
  | .noTagProperty arm => "arm " ++ toString arm ++ " has no constant discriminator property"
  | .ambiguousTag arm => "arm " ++ toString arm ++ " has an ambiguous discriminator"
  | .noPayload arm => "arm " ++ toString arm ++ " has no payload property"
  | .layoutDiffers arm tag payload expectedTag expectedPayload =>
    "arm " ++ toString arm ++ " uses `" ++ tag ++ "`/`" ++ payload ++ "` but earlier arms use `" ++
      expectedTag ++ "`/`" ++ expectedPayload ++ "`"
  | .tagRepeated tag => "discriminator value `" ++ tag ++ "` is used by more than one arm"
  | .variantRepeated name => "two arms resolve to the variant `" ++ name ++ "`"
  | .noArms => "no arms"

/-- What keeps a path template from being routed. -/
inductive PathFlaw where
  | noLeadingSlash
  | emptyPlaceholder (segment : String)
  | nestedBraces (segment : String)
  | partialPlaceholder (segment : String)
  | repeatedPlaceholder (name : String)
  | conflict (existing method : String)
  deriving DecidableEq, Repr

def PathFlaw.message : PathFlaw → String
  | .noLeadingSlash => "templates must start with `/`"
  | .emptyPlaceholder segment => "empty placeholder in `" ++ segment ++ "`"
  | .nestedBraces segment => "nested braces in `" ++ segment ++ "`"
  | .partialPlaceholder segment =>
    "placeholder must span the whole segment, found `" ++ segment ++ "`"
  | .repeatedPlaceholder name => "placeholder `" ++ name ++ "` appears twice"
  | .conflict existing method => "conflicts with `" ++ existing ++ "` for " ++ method

inductive BuildError where
  | invalidDocument (cause : InvalidDocument)
  | unresolvedReference (pointer : String)
  | recursiveSchema (chain : String)
  | unsupported (context : String) (cause : Unsupported)
  | unsupportedFormat (context format : String)
  | malformedUnion (union : String) (flaw : UnionFlaw)
  | nameCollision (name first second : String)
  | invalidPath (path : String) (flaw : PathFlaw)
  deriving Repr

def BuildError.message : BuildError → String
  | .invalidDocument cause => "invalid document: " ++ cause.message
  | .unresolvedReference pointer => "unresolved reference `" ++ pointer ++ "`"
  | .recursiveSchema chain =>
    "recursive reference chain through `" ++ chain ++ "` is not supported"
  | .unsupported context cause => "unsupported schema at " ++ context ++ ": " ++ cause.message
  | .unsupportedFormat context format =>
    "unsupported integer format `" ++ format ++ "` at " ++ context
  | .malformedUnion union flaw => "malformed oneOf `" ++ union ++ "`: " ++ flaw.message
  | .nameCollision name first second =>
    "type name `" ++ name ++ "` is synthesized for two different schemas (" ++ first ++ " and " ++
      second ++ ")"
  | .invalidPath path flaw => "invalid path template `" ++ path ++ "`: " ++ flaw.message

end OpenApiServer
