import Reveal.Text.Bytes
/-!
# Tags

A tag says what a node stands for. It is made of octets and not of characters, since a text can
escape octets that belong to no character. A zero octet ends a tag.
-/
namespace Reveal.Yaml

structure Tag where
  octets : List UInt8
  deriving DecidableEq, Repr

namespace Tag

/-- The tag of the octets before the first zero. -/
def ofOctets (octets : List UInt8) : Tag :=
  ⟨octets.takeWhile (· != 0)⟩

def ofString (s : String) : Tag :=
  ofOctets (Text.bytes s)

def isEmpty (t : Tag) : Bool :=
  t.octets.isEmpty

def append (a b : Tag) : Tag :=
  ⟨a.octets ++ b.octets⟩

instance : Append Tag := ⟨append⟩

/-- The tag `!`, which asks for nothing. -/
def unspecific : Tag := ofString "!"

/-- What the tags of the YAML types start with. -/
def coreStart : Tag := ofString "tag:yaml.org,2002:"

/-- The tag of a YAML type. -/
def core (name : String) : Tag :=
  coreStart ++ ofString name

/-- Tags that start with `!` mean something to the writer of a text only. -/
def isLocal (t : Tag) : Bool :=
  unspecific.octets.isPrefixOf t.octets

end Tag

end Reveal.Yaml
