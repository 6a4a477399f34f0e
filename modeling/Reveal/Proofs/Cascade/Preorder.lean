import Mathlib.Data.Set.Insert
import Reveal.Cascade
import Reveal.Proofs.Cascade.Walk
/-!
# The order of discovery

The walk keeps a stack on which an identifier may stand many times, and asks whether it was seen
before only when it takes it off (`Drains`). It lists what a recursion would: each identifier, then all
that is new under it, then the next one beside it (`Preorder`). The two agree because a stack that is
put together from two is worked off one after the other (`Preorder.split`). Nothing is asked of what
is filed where, so identifiers may lie under each other or under themselves.
-/
namespace Reveal.Cascade

/-- `Drains children seen stack found`: working off the stack, top first, comes to an end and finds
`found`. What was seen is dropped; what is new is found and puts its children on top, the first of them
topmost. -/
inductive Drains (children : Ident → List Ident) : Set Ident → List Ident → List Ident → Prop
  | done (seen : Set Ident) : Drains children seen [] []
  | skip {seen : Set Ident} {id : Ident} {stack found : List Ident} (old : id ∈ seen)
      (behind : Drains children seen stack found) : Drains children seen (id :: stack) found
  | take {seen : Set Ident} {id : Ident} {stack found : List Ident} (new : id ∉ seen)
      (behind : Drains children (insert id seen) (children id ++ stack) found) :
    Drains children seen (id :: stack) (id :: found)

/-- `Preorder children seen siblings found seen'`: going through siblings in their order lists `found`
and leaves `seen'`. One that was seen is skipped; one that is new is listed and marked, and its children
are gone through before the next sibling. -/
inductive Preorder (children : Ident → List Ident) : Set Ident → List Ident → List Ident → Set Ident → Prop
  | done (seen : Set Ident) : Preorder children seen [] [] seen
  | skip {seen seen' : Set Ident} {id : Ident} {siblings found : List Ident} (old : id ∈ seen)
      (behind : Preorder children seen siblings found seen') :
    Preorder children seen (id :: siblings) found seen'
  | visit {seen inner seen' : Set Ident} {id : Ident} {siblings below found : List Ident} (new : id ∉ seen)
      (under : Preorder children (insert id seen) (children id) below inner)
      (behind : Preorder children inner siblings found seen') :
    Preorder children seen (id :: siblings) (id :: (below ++ found)) seen'

variable {children : Ident → List Ident} {seen seen' : Set Ident} {found : List Ident}

/-! ## Recursion and stack -/

/-- Siblings are gone through one part after the other. -/
theorem Preorder.split {first second : List Ident} (h : Preorder children seen (first ++ second) found seen') :
    ∃ before inner behind, found = before ++ behind ∧ Preorder children seen first before inner ∧
      Preorder children inner second behind seen' := by
  generalize hall : first ++ second = all at h
  induction h generalizing first with
  | done seen =>
    obtain ⟨rfl, rfl⟩ := List.append_eq_nil_iff.1 hall
    exact ⟨[], seen, [], rfl, .done seen, .done seen⟩
  | @skip seen seen' id siblings found old behind ih =>
    rcases List.append_eq_cons_iff.1 hall with ⟨rfl, rfl⟩ | ⟨first, rfl, rfl⟩
    · exact ⟨[], seen, found, rfl, .done seen, .skip old behind⟩
    · obtain ⟨before, inner, rest, rfl, hfirst, hsecond⟩ := ih rfl
      exact ⟨before, inner, rest, rfl, .skip old hfirst, hsecond⟩
  | @visit seen inner seen' id siblings below found new under behind ihUnder ihBehind =>
    rcases List.append_eq_cons_iff.1 hall with ⟨rfl, rfl⟩ | ⟨first, rfl, rfl⟩
    · exact ⟨[], seen, _, rfl, .done seen, .visit new under behind⟩
    · obtain ⟨before, last, rest, rfl, hfirst, hsecond⟩ := ihBehind rfl
      exact ⟨id :: (below ++ before), last, rest, by simp, .visit new under hfirst, hsecond⟩

theorem Preorder.unique {siblings found' : List Ident} {seen'' : Set Ident}
    (h : Preorder children seen siblings found seen') (h' : Preorder children seen siblings found' seen'') :
    found = found' ∧ seen' = seen'' := by
  induction h generalizing found' seen'' with
  | done seen =>
    cases h'
    exact ⟨rfl, rfl⟩
  | skip old behind ih =>
    cases h' with
    | skip old' behind' => exact ih behind'
    | visit new' under' behind' => exact absurd old new'
  | visit new under behind ihUnder ihBehind =>
    cases h' with
    | skip old' behind' => exact absurd old' new
    | visit new' under' behind' =>
      obtain ⟨rfl, rfl⟩ := ihUnder under'
      obtain ⟨rfl, rfl⟩ := ihBehind behind'
      exact ⟨rfl, rfl⟩

/-- A stack is worked off as its identifiers are gone through. The children that are put in front of the
rest are worked off completely before it. -/
theorem Drains.preorder {stack : List Ident} (h : Drains children seen stack found) :
    ∃ seen', Preorder children seen stack found seen' := by
  induction h with
  | done seen => exact ⟨seen, .done seen⟩
  | skip old behind ih =>
    obtain ⟨seen', hrest⟩ := ih
    exact ⟨seen', .skip old hrest⟩
  | take new behind ih =>
    obtain ⟨seen', hall⟩ := ih
    obtain ⟨below, inner, rest, rfl, hunder, hrest⟩ := hall.split
    exact ⟨seen', .visit new hunder hrest⟩

/-! ## The walk -/

/-- The walk knows what it has not seen, among all that is filed. -/
theorem drains_walkFrom {index : Index} {unseen : Std.TreeSet Ident Ident.order} {stack : List Ident}
    (hunseen : ∀ id ∈ index.filed, id ∈ unseen ↔ id ∉ seen) (hstack : ∀ id ∈ stack, id ∈ index.filed) :
    Drains index.children seen stack (walkFrom index unseen stack) := by
  fun_induction walkFrom index unseen stack generalizing seen with
  | case1 => exact .done seen
  | case2 unseen x stack hx ih =>
    rw [List.forall_mem_cons] at hstack
    refine .take ((hunseen x hstack.1).1 hx) (ih ?_ ?_)
    · intro id hid
      rw [Std.TreeSet.mem_erase, hunseen id hid, Set.mem_insert_iff, not_or, ne_eq, Ident.order_eq_iff]
      exact and_congr_left' (not_congr eq_comm)
    · intro id hid
      rcases List.mem_append.1 hid with hid | hid
      · exact Index.mem_filed hid
      · exact hstack.2 id hid
  | case3 unseen x stack hx ih =>
    rw [List.forall_mem_cons] at hstack
    refine .skip ?_ (ih hunseen hstack.2)
    by_contra hnew
    exact hx ((hunseen x hstack.1).2 hnew)

/-- Working off the stack ends, from whatever events and for whatever target. -/
theorem drains_descendantsOf (events : List Event) (target : Ident) :
    Drains (filedUnder events) ∅ (filedUnder events target) (descendantsOf events target) := by
  have hchildren : (Index.ofEvents events).children = filedUnder events :=
    funext (Index.children_ofEvents events)
  rw [← hchildren]
  apply drains_walkFrom
  · intro id hid
    simp [hid]
  · intro id hid
    exact Index.mem_filed hid

theorem Preorder.eq_descendantsOf {events : List Event} {target : Ident}
    (h : Preorder (filedUnder events) ∅ (filedUnder events target) found seen') :
    found = descendantsOf events target := by
  obtain ⟨last, hpreorder⟩ := (drains_descendantsOf events target).preorder
  exact (h.unique hpreorder).1

theorem Drains.eq_descendantsOf {events : List Event} {target : Ident}
    (h : Drains (filedUnder events) ∅ (filedUnder events target) found) :
    found = descendantsOf events target := by
  obtain ⟨last, hpreorder⟩ := h.preorder
  exact hpreorder.eq_descendantsOf

/-- Working off the stack from the children of a target, with nothing seen before, comes to an end, and
what it finds is what is found by going down recursively. Both find what `descendantsOf` lists, in its
order, and nothing else. -/
theorem descendantsOf_preorder (events : List Event) (target : Ident) (found : List Ident) :
    (Drains (filedUnder events) ∅ (filedUnder events target) found ↔ found = descendantsOf events target) ∧
    ((∃ seen, Preorder (filedUnder events) ∅ (filedUnder events target) found seen) ↔
      found = descendantsOf events target) := by
  have hdrains := drains_descendantsOf events target
  constructor
  · constructor
    · intro h
      exact h.eq_descendantsOf
    · rintro rfl
      exact hdrains
  · constructor
    · rintro ⟨seen, h⟩
      exact h.eq_descendantsOf
    · rintro rfl
      exact hdrains.preorder

end Reveal.Cascade
