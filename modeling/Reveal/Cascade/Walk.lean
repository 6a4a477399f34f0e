import Std.Data.TreeSet
import Reveal.Cascade.Index
/-!
# Walking the index

What opens along with an identifier is found by a walk over the index, depth first and in the
order of the document at every level. The identifiers still ahead wait on a stack, on which one may
stand more than once; it counts when it is first taken off.
-/
namespace Reveal.Cascade

/-- Every identifier that is filed in the index. -/
def Index.filed (index : Index) : Std.TreeSet Ident Ident.order :=
  index.foldl (fun seen _ children => children.foldl (fun seen id => seen.insert id) seen) ∅

theorem size_erase_lt {ids : Std.TreeSet Ident Ident.order} {id : Ident}
    (h : ids.contains id = true) : (ids.erase id).size < ids.size := by
  have h' : ids.isEmpty = false :=
    Std.TreeSet.isEmpty_eq_false_iff_exists_contains_eq_true.2 ⟨id, h⟩
  rw [Std.TreeSet.isEmpty_eq_size_eq_zero, beq_eq_false_iff_ne] at h'
  rw [Std.TreeSet.size_erase, if_pos h]
  omega

/-- Takes identifiers off the stack. One that is still unseen is found and puts its children on
the stack. -/
def walkFrom (index : Index) (unseen : Std.TreeSet Ident Ident.order) : List Ident → List Ident
  | [] => []
  | id :: stack =>
    if unseen.contains id then
      id :: walkFrom index (unseen.erase id) (index.children id ++ stack)
    else walkFrom index unseen stack
termination_by stack => (unseen.size, stack.length)
decreasing_by
  · exact Prod.Lex.left _ _ (size_erase_lt (by assumption))
  · exact Prod.Lex.right _ (by simp)

/-- All that opens along with `target`, in the order of discovery. -/
def walk (index : Index) (target : Ident) : List Ident :=
  walkFrom index index.filed (index.children target)

end Reveal.Cascade
