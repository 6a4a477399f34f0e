import Std.Data.TreeSet
import Reveal.Ident.Basic
import Reveal.Text.Bytes
/-!
# The order of identifiers

Identifiers are ordered by kind, then by their fields, names by their bytes. The order is total
and tells any two identifiers apart, so it serves to key maps and sets.
-/
namespace Reveal.Ident

def rank : Ident → Nat
  | named _ => 0
  | numbered _ _ => 1
  | auto _ => 2
  | unreferenced _ => 3
  | anonymous => 4

def nameBytes : Ident → List UInt8
  | named name => Text.bytes name
  | _ => []

/-- The field compared first among identifiers of one kind. -/
def major : Ident → Nat
  | numbered depth _ => depth
  | auto ordinal | unreferenced ordinal => ordinal
  | _ => 0

def minor : Ident → Nat
  | numbered _ number => number
  | _ => 0

def order : Ident → Ident → Ordering :=
  compareLex (compareOn rank)
    (compareLex (compareOn nameBytes) (compareLex (compareOn major) (compareOn minor)))

instance : Std.TransCmp order :=
  inferInstanceAs (Std.TransCmp (compareLex _ _))

theorem eq_of_fields {a b : Ident} (hr : a.rank = b.rank) (hn : a.nameBytes = b.nameBytes)
    (hj : a.major = b.major) (hm : a.minor = b.minor) : a = b := by
  cases a <;> cases b <;> simp_all [rank, nameBytes, major, minor]
  exact Text.bytes_injective hn

instance : Std.LawfulEqCmp order where
  eq_of_compare h := by
    simp only [order, compareLex_eq_eq, compareOn, Std.LawfulEqOrd.compare_eq_iff_eq] at h
    exact eq_of_fields h.1 h.2.1 h.2.2.1 h.2.2.2

@[simp] theorem order_eq_iff {a b : Ident} : order a b = .eq ↔ a = b :=
  Std.LawfulEqCmp.compare_eq_iff_eq

/-- The identifiers in ascending order, equal ones once. -/
def sort (ids : List Ident) : List Ident :=
  (ids.foldl (fun set id => set.insert id) (∅ : Std.TreeSet Ident order)).toList

end Reveal.Ident
