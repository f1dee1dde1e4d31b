/-!
# Places and faults in YAML text

A `Mark` is a place in a text, counted from zero. A `Fault` says what is wrong with a text: a
problem at a place, and what was being read at the time together with the place where that began.
The message leaves out the beginning if it is the first character or the place of the problem.
-/

namespace OpenApiServer.Yaml

structure Mark where
  index : Nat
  line : Nat
  column : Nat
  deriving DecidableEq, Repr, Inhabited

namespace Mark

def start : Mark := ⟨0, 0, 0⟩

/-- The place after `n` more characters of the line. -/
def advance (m : Mark) (n : Nat) : Mark := ⟨m.index + n, m.line, m.column + n⟩

/-- The first place of the next line, after a line break of `n` characters. -/
def newLine (m : Mark) (n : Nat) : Mark := ⟨m.index + n, m.line + 1, 0⟩

def isStart (m : Mark) : Bool := m.line == 0 && m.column == 0

def samePlace (m n : Mark) : Bool := m.line == n.line && m.column == n.column

/-- Lines and columns are shown counted from one; the first place of a text is not shown. -/
def suffixText (m : Mark) : String :=
  if m.isStart then ""
  else " at line " ++ toString (m.line + 1) ++ " column " ++ toString (m.column + 1)

end Mark

inductive Problem where
  | colonExpected
  | noToken
  | entryNotAllowed
  | keyNotAllowed
  | valueNotAllowed
  | unknownDirective
  | directiveNameExpected
  | nonAlphabetical
  | digitOrPointExpected
  | longVersion
  | versionExpected
  | commentOrBreakExpected
  | blankExpected
  | blankOrBreakExpected
  | nameExpected
  | closingAngleExpected
  | exclamationExpected
  | uriExpected
  | octetExpected
  | badLeadingOctet
  | badTrailingOctet
  | zeroIndentation
  | tabAsIndentation
  | tabInIndentation
  | documentIndicator
  | endOfStream
  | unknownEscape
  | hexExpected
  | badCodePoint
  | unexpectedColon
  | documentStartExpected
  | duplicateVersion
  | incompatibleVersion
  | duplicateHandle
  | undefinedHandle
  | contentExpected
  | entryExpected
  | keyExpected
  | commaOrBracketExpected
  | commaOrBraceExpected
  deriving DecidableEq, Repr

def Problem.message : Problem → String
  | .colonExpected => "could not find expected ':'"
  | .noToken => "found character that cannot start any token"
  | .entryNotAllowed => "block sequence entries are not allowed in this context"
  | .keyNotAllowed => "mapping keys are not allowed in this context"
  | .valueNotAllowed => "mapping values are not allowed in this context"
  | .unknownDirective => "found unknown directive name"
  | .directiveNameExpected => "could not find expected directive name"
  | .nonAlphabetical => "found unexpected non-alphabetical character"
  | .digitOrPointExpected => "did not find expected digit or '.' character"
  | .longVersion => "found extremely long version number"
  | .versionExpected => "did not find expected version number"
  | .commentOrBreakExpected => "did not find expected comment or line break"
  | .blankExpected => "did not find expected whitespace"
  | .blankOrBreakExpected => "did not find expected whitespace or line break"
  | .nameExpected => "did not find expected alphabetic or numeric character"
  | .closingAngleExpected => "did not find the expected '>'"
  | .exclamationExpected => "did not find expected '!'"
  | .uriExpected => "did not find expected tag URI"
  | .octetExpected => "did not find URI escaped octet"
  | .badLeadingOctet => "found an incorrect leading UTF-8 octet"
  | .badTrailingOctet => "found an incorrect trailing UTF-8 octet"
  | .zeroIndentation => "found an indentation indicator equal to 0"
  | .tabAsIndentation => "found a tab character where an indentation space is expected"
  | .tabInIndentation => "found a tab character that violates indentation"
  | .documentIndicator => "found unexpected document indicator"
  | .endOfStream => "found unexpected end of stream"
  | .unknownEscape => "found unknown escape character"
  | .hexExpected => "did not find expected hexdecimal number"
  | .badCodePoint => "found invalid Unicode character escape code"
  | .unexpectedColon => "found unexpected ':'"
  | .documentStartExpected => "did not find expected <document start>"
  | .duplicateVersion => "found duplicate %YAML directive"
  | .incompatibleVersion => "found incompatible YAML document"
  | .duplicateHandle => "found duplicate %TAG directive"
  | .undefinedHandle => "found undefined tag handle"
  | .contentExpected => "did not find expected node content"
  | .entryExpected => "did not find expected '-' indicator"
  | .keyExpected => "did not find expected key"
  | .commaOrBracketExpected => "did not find expected ',' or ']'"
  | .commaOrBraceExpected => "did not find expected ',' or '\x7d'"

/-- What was being read when a problem was found. -/
inductive Activity where
  | nextToken
  | simpleKey
  | directive
  | versionDirective
  | tagDirective
  | tagDirectiveHandle
  | tagDirectiveName
  | tagDirectiveUri
  | tag
  | tagUri
  | anchor
  | alias
  | blockScalar
  | quotedScalar
  | escapeSequence
  | plainScalar
  | node
  | blockNode
  | flowNode
  | blockCollection
  | blockMapping
  | flowSequence
  | flowMapping
  deriving DecidableEq, Repr

def Activity.message : Activity → String
  | .nextToken => "while scanning for the next token"
  | .simpleKey => "while scanning a simple key"
  | .directive => "while scanning a directive"
  | .versionDirective => "while scanning a %YAML directive"
  | .tagDirective => "while scanning a %TAG directive"
  | .tagDirectiveHandle => "while scanning a tag directive"
  | .tagDirectiveName => "while parsing a tag directive"
  | .tagDirectiveUri => "while parsing a %TAG directive"
  | .tag => "while scanning a tag"
  | .tagUri => "while parsing a tag"
  | .anchor => "while scanning an anchor"
  | .alias => "while scanning an alias"
  | .blockScalar => "while scanning a block scalar"
  | .quotedScalar => "while scanning a quoted scalar"
  | .escapeSequence => "while parsing a quoted scalar"
  | .plainScalar => "while scanning a plain scalar"
  | .node => "while parsing a node"
  | .blockNode => "while parsing a block node"
  | .flowNode => "while parsing a flow node"
  | .blockCollection => "while parsing a block collection"
  | .blockMapping => "while parsing a block mapping"
  | .flowSequence => "while parsing a flow sequence"
  | .flowMapping => "while parsing a flow mapping"

/-- Why a text is no YAML: a character that no text may have, at an offset in bytes, or a problem
at a place. -/
inductive Fault where
  | controlCharacter (offset : Nat)
  | problem (problem : Problem) (place : Mark) (during : Option (Activity × Mark))
  deriving DecidableEq, Repr

namespace Fault

def message : Fault → String
  | .controlCharacter offset =>
    "control characters are not allowed" ++
      (if offset = 0 then "" else " at position " ++ toString offset)
  | .problem p place during =>
    p.message ++ place.suffixText ++
      match during with
      | none => ""
      | some (activity, began) =>
        ", " ++ activity.message ++ (if began.samePlace place then "" else began.suffixText)

end Fault

end OpenApiServer.Yaml
