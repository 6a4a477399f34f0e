import Reveal.Catalog
import Reveal.Options
/-!
# Profiles

A profile is a set of options with a name.
-/
namespace Reveal

structure Profile where
  name : String
  description : String
  options : Options
  deriving DecidableEq, Repr

/-- The profiles known under their names. -/
abbrev Profiles := Catalog Profile

namespace Profiles

def empty : Profiles := {}

def register (profiles : Profiles) (profile : Profile) : Profiles :=
  Catalog.register profiles profile.name profile

/-- The profiles that a compiler comes with. -/
def builtin : List Profile :=
  [⟨"default", "Html for the renderer", {}⟩,
   ⟨"debug", "Html with source positions and descendant lists", .debugging⟩,
   ⟨"ast-json", "Event sequence as JSON", { format := "ast-json" }⟩,
   ⟨"ast-yaml", "Event sequence as YAML", { format := "ast-yaml" }⟩]

/-- The profiles that are always there unless replaced. -/
def standard : Profiles :=
  builtin.foldl register empty

end Profiles

end Reveal
