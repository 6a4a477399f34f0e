import Std.Data.TreeMap
import Reveal.Text.Bytes
/-!
# Catalogs

A catalog holds entries under names and lists them in the order of the names. Registering under a
name that is taken replaces the entry.
-/
namespace Reveal

structure Catalog (α : Type) where
  entries : Std.TreeMap String α Text.byteOrder := ∅

namespace Catalog

variable {α : Type}

def register (c : Catalog α) (name : String) (entry : α) : Catalog α :=
  ⟨c.entries.insert name entry⟩

/-- Registers one entry after the other. -/
def registerAll (c : Catalog α) (entries : List (String × α)) : Catalog α :=
  entries.foldl (fun c e => c.register e.1 e.2) c

def get? (c : Catalog α) (name : String) : Option α :=
  c.entries[name]?

def has (c : Catalog α) (name : String) : Bool :=
  c.entries.contains name

def names (c : Catalog α) : List String :=
  c.entries.keys

/-- The entries in the order of their names. -/
def all (c : Catalog α) : List α :=
  c.entries.values

end Catalog

end Reveal
