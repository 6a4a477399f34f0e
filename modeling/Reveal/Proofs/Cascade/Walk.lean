import Mathlib.Order.Bounds.Defs
import Mathlib.Data.Set.Basic
import Reveal.Cascade.Walk
/-!
# The walk finds all that the index reaches

The walk takes every identifier at most once (`walk_nodup`), and what it takes is the least set that
holds the children of the target and, with an identifier, its children (`walk_least`). Nothing is
asked of the index: identifiers may be filed under each other, under themselves, or many times.
-/
namespace Reveal.Cascade

/-! ## What is filed in an index -/

/-- What the events file under an identifier, in the order of the events that bring it in. -/
def filedUnder (events : List Event) (id : Ident) : List Ident :=
  ((events.flatMap edges).filter fun edge => edge.1 = id).map (·.2)

theorem filedUnder_append (events more : List Event) (id : Ident) :
    filedUnder (events ++ more) id = filedUnder events id ++ filedUnder more id := by
  simp [filedUnder]

theorem mem_filedUnder {events : List Event} {parent child : Ident} :
    child ∈ filedUnder events parent ↔ ∃ e ∈ events, (parent, child) ∈ edges e := by
  simp [filedUnder]

namespace Index

theorem children_file (index : Index) (parent child id : Ident) :
    (index.file parent child).children id =
      index.children id ++ if parent = id then [child] else [] := by
  unfold file children
  rw [Std.TreeMap.getD_insert]
  by_cases h : parent = id <;> simp [h]

theorem children_foldl_file (edges : List (Ident × Ident)) (index : Index) (id : Ident) :
    (edges.foldl (fun index edge => index.file edge.1 edge.2) index).children id =
      index.children id ++ (edges.filter fun edge => edge.1 = id).map (·.2) := by
  induction edges generalizing index with
  | nil => simp
  | cons edge edges ih =>
    rw [List.foldl_cons, ih, children_file]
    by_cases h : edge.1 = id <;> simp [h]

theorem children_ofEvents (events : List Event) (id : Ident) :
    (ofEvents events).children id = filedUnder events id := by
  unfold ofEvents
  rw [children_foldl_file]
  simp [children, filedUnder]

theorem mem_children_ofEvents {events : List Event} {parent child : Ident} :
    child ∈ (ofEvents events).children parent ↔ ∃ e ∈ events, (parent, child) ∈ edges e := by
  rw [children_ofEvents, mem_filedUnder]

theorem mem_foldl_insert {ids : List Ident} {seen : Std.TreeSet Ident Ident.order} {id : Ident} :
    id ∈ ids.foldl (fun seen id => seen.insert id) seen ↔ id ∈ seen ∨ id ∈ ids := by
  induction ids generalizing seen with
  | nil => simp
  | cons x ids ih =>
    rw [List.foldl_cons, ih, Std.TreeSet.mem_insert, Ident.order_eq_iff, List.mem_cons]
    constructor
    · rintro ((rfl | h) | h) <;> simp [*]
    · rintro (h | rfl | h) <;> simp [*]

theorem mem_foldl_filed {entries : List (Ident × List Ident)} {seen : Std.TreeSet Ident Ident.order}
    {id : Ident} :
    id ∈ entries.foldl (fun seen entry => entry.2.foldl (fun seen id => seen.insert id) seen) seen ↔
      id ∈ seen ∨ ∃ entry ∈ entries, id ∈ entry.2 := by
  induction entries generalizing seen with
  | nil => simp
  | cons entry entries ih =>
    rw [List.foldl_cons, ih, mem_foldl_insert]
    simp [or_assoc]

theorem mem_filed {index : Index} {parent child : Ident} (h : child ∈ index.children parent) :
    child ∈ index.filed := by
  unfold children at h
  rw [Std.TreeMap.getD_eq_getD_getElem?] at h
  cases hi : index[parent]? with
  | none => simp [hi] at h
  | some ids =>
    rw [hi, Option.getD_some] at h
    unfold filed
    rw [Std.TreeMap.foldl_eq_foldl_toList, mem_foldl_filed]
    exact .inr ⟨(parent, ids), Std.TreeMap.mem_toList_iff_getElem?_eq_some.2 hi, h⟩

end Index

/-! ## What the walk takes -/

variable {index : Index} {unseen : Std.TreeSet Ident Ident.order} {stack : List Ident} {id child : Ident}

theorem mem_unseen_of_mem_walkFrom (h : id ∈ walkFrom index unseen stack) : id ∈ unseen := by
  fun_induction walkFrom index unseen stack with
  | case1 => cases h
  | case2 unseen x stack hx ih =>
    rcases List.mem_cons.1 h with rfl | h
    · exact hx
    · exact (Std.TreeSet.mem_erase.1 (ih h)).2
  | case3 unseen x stack hx ih => exact ih h

theorem walkFrom_nodup (index : Index) (unseen : Std.TreeSet Ident Ident.order) (stack : List Ident) :
    (walkFrom index unseen stack).Nodup := by
  fun_induction walkFrom index unseen stack with
  | case1 => exact List.nodup_nil
  | case2 unseen x stack hx ih =>
    refine List.nodup_cons.2 ⟨fun h => ?_, ih⟩
    have := (Std.TreeSet.mem_erase.1 (mem_unseen_of_mem_walkFrom h)).1
    exact this (Ident.order_eq_iff.2 rfl)
  | case3 unseen x stack hx ih => exact ih

theorem mem_walkFrom_of_mem_stack (h : id ∈ stack) (hu : id ∈ unseen) :
    id ∈ walkFrom index unseen stack := by
  fun_induction walkFrom index unseen stack with
  | case1 => cases h
  | case2 unseen x stack hx ih =>
    by_cases hxi : x = id
    · simp [hxi]
    · have h' : id ∈ stack := (List.mem_cons.1 h).resolve_left (Ne.symm hxi)
      refine List.mem_cons_of_mem _ (ih (List.mem_append_right _ h') ?_)
      exact Std.TreeSet.mem_erase.2 ⟨by rwa [ne_eq, Ident.order_eq_iff], hu⟩
  | case3 unseen x stack hx ih =>
    rcases List.mem_cons.1 h with rfl | h
    · exact absurd hu hx
    · exact ih h hu

/-- The children of what is taken are taken too, unless they were seen before the walk. -/
theorem mem_walkFrom_of_mem_children (h : id ∈ walkFrom index unseen stack)
    (hc : child ∈ index.children id) (hu : child ∈ unseen) : child ∈ walkFrom index unseen stack := by
  fun_induction walkFrom index unseen stack with
  | case1 => cases h
  | case2 unseen x stack hx ih =>
    by_cases hxc : x = child
    · simp [hxc]
    · have hu' : child ∈ unseen.erase x :=
        Std.TreeSet.mem_erase.2 ⟨by rwa [ne_eq, Ident.order_eq_iff], hu⟩
      rcases List.mem_cons.1 h with rfl | h
      · exact List.mem_cons_of_mem _ (mem_walkFrom_of_mem_stack (List.mem_append_left _ hc) hu')
      · exact List.mem_cons_of_mem _ (ih h hu')
  | case3 unseen x stack hx ih => exact ih h hu

theorem mem_of_mem_walkFrom {s : Set Ident} (hs : ∀ x ∈ s, ∀ child ∈ index.children x, child ∈ s)
    (hstack : ∀ x ∈ stack, x ∈ s) (h : id ∈ walkFrom index unseen stack) : id ∈ s := by
  fun_induction walkFrom index unseen stack with
  | case1 => cases h
  | case2 unseen x stack hx ih =>
    have hxs := hstack x (by simp)
    rcases List.mem_cons.1 h with rfl | h
    · exact hxs
    · refine ih (fun y hy => ?_) h
      rcases List.mem_append.1 hy with hy | hy
      · exact hs x hxs y hy
      · exact hstack y (by simp [hy])
  | case3 unseen x stack hx ih => exact ih (fun y hy => hstack y (by simp [hy])) h

theorem walk_nodup (index : Index) (target : Ident) : (walk index target).Nodup :=
  walkFrom_nodup _ _ _

/-- What the walk finds is the least set that holds, with the target and with whatever it holds, the
children filed under it. -/
theorem walk_least (index : Index) (target : Ident) :
    IsLeast {s : Set Ident | ∀ x, x = target ∨ x ∈ s → ∀ child ∈ index.children x, child ∈ s}
      {id | id ∈ walk index target} := by
  constructor
  · rintro x (rfl | hx) child hc
    · exact mem_walkFrom_of_mem_stack hc (Index.mem_filed hc)
    · exact mem_walkFrom_of_mem_children hx hc (Index.mem_filed hc)
  · intro s hs id hid
    exact mem_of_mem_walkFrom (fun x hx => hs x (.inr hx)) (hs target (.inl rfl)) hid

end Reveal.Cascade
