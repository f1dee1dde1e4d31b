import OpenApiServer.Yaml.Tag

/-!
# Tokens

The tokens of a text carry the marks of their two ends. Starts and ends of block collections are
tokens too, though no character of the text stands for them.
-/

namespace OpenApiServer.Yaml

namespace Token

inductive Kind where
  | streamEnd
  | directive (directive : Directive)
  | documentStart
  | documentEnd
  | blockSequenceStart
  | blockMappingStart
  | blockEnd
  | flowSequenceStart
  | flowSequenceEnd
  | flowMappingStart
  | flowMappingEnd
  | blockEntry
  | flowEntry
  | key
  | value
  | alias (name : String)
  | anchor (name : String)
  | tag (tag : WrittenTag)
  | scalar (text : String) (plain : Bool)
  deriving DecidableEq, Repr

end Token

structure Token where
  kind : Token.Kind
  start : Mark
  stop : Mark
  deriving Repr

/-- Tokens up to the end of a text, or up to a fault. -/
inductive Tokens where
  | ended (mark : Mark)
  | faulty (fault : Fault)
  | more (first : Token) (rest : Tokens)
  deriving Repr

namespace Tokens

/-- The next token. The end of the stream is a token that never goes away. -/
def head : Tokens → Except Fault Token
  | .ended m => .ok ⟨.streamEnd, m, m⟩
  | .faulty f => .error f
  | .more t _ => .ok t

def tail : Tokens → Tokens
  | .more _ rest => rest
  | other => other

def length : Tokens → Nat
  | .more _ rest => rest.length + 1
  | _ => 0

/-- Puts tokens in front, the last of a reversed list first. -/
def prepend (rest : Tokens) : List Token → Tokens
  | [] => rest
  | t :: before => prepend (.more t rest) before

end Tokens

end OpenApiServer.Yaml
