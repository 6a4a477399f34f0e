import Reveal.Yaml.Cursor
import Reveal.Yaml.Tag
/-!
# Tokens of YAML

What a YAML text is made of, before it is known how the parts belong together. Blocks, which the
text shows by indentation alone, start and end with tokens of their own.
-/
namespace Reveal.Yaml

/-- How a scalar is written. -/
inductive ScalarStyle where
  | plain
  | quoted
  | literal
  | folded
  deriving DecidableEq, Repr

namespace Token

inductive Kind where
  | streamStart
  | streamEnd
  | version (major minor : Nat)
  /-- Tags with the handle start with the octets of `start`. -/
  | tagDirective (handle : String) (start : Tag)
  | documentStart
  | documentEnd
  | blockSequenceStart
  | blockMappingStart
  | blockEnd
  | flowSequenceStart
  | flowSequenceEnd
  | flowMappingStart
  | flowMappingEnd
  | blockEntry
  | flowEntry
  | key
  | value
  | alias (name : String)
  | anchor (name : String)
  /-- Without a handle the suffix is the whole tag. -/
  | tag (handle : String) (suffix : Tag)
  | scalar (text : String) (style : ScalarStyle)
  deriving DecidableEq, Repr

end Token

structure Token where
  kind : Token.Kind
  start : Mark
  stop : Mark
  deriving Repr

end Reveal.Yaml
