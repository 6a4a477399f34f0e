import Mathlib.Data.List.Forall2
import Reveal.Dump.Tree
import Reveal.Proofs.Ident.Print
/-!
# What a tree tells of a document

The tree of a document tells its events, but for the ordinals of the fragments that no link opens: these
are printed alike. Two documents have the same tree exactly if their events are alike (`ofDocument_eq_iff`).
-/
namespace Reveal

/-- The same identifier, or two that no link opens. -/
def Ident.Alike (a b : Ident) : Prop :=
  a = b ∨ ∃ m n, a = .unreferenced m ∧ b = .unreferenced n

namespace Event

/-- The same kind with the same texts and alike identifiers. -/
inductive Kind.Alike : Kind → Kind → Prop
  | paragraphOpen {a b : Ident} (openedBy : a.Alike b) : Alike (.paragraphOpen a) (.paragraphOpen b)
  | paragraphClose : Alike .paragraphClose .paragraphClose
  | fragmentOpen {a b : Ident} (openedBy : a.Alike b) : Alike (.fragmentOpen a) (.fragmentOpen b)
  | fragmentClose : Alike .fragmentClose .fragmentClose
  | revealLink {a b : Ident} (opens : a.Alike b) (caption source : String) {as bs : List Ident}
      (descendants : List.Forall₂ Ident.Alike as bs) :
    Alike (.revealLink a caption source as) (.revealLink b caption source bs)
  | text (html source : String) : Alike (.text html source) (.text html source)

structure Alike (e f : Event) : Prop where
  position : e.position = f.position
  chain : List.Forall₂ Ident.Alike e.chain.toList f.chain.toList
  kind : e.kind.Alike f.kind

end Event

namespace Dump.Tree

/-- Induction over the trees in a list and those in the fields of a record. -/
@[elab_as_elim, induction_eliminator]
theorem induction {motive : Tree → Prop} (number : ∀ n, motive (.number n)) (text : ∀ s, motive (.text s))
    (list : ∀ items, (∀ item ∈ items, motive item) → motive (.list items))
    (record : ∀ fields, (∀ field ∈ fields, motive field.2) → motive (.record fields)) (t : Tree) : motive t := by
  refine @Tree.rec motive (fun items => ∀ item ∈ items, motive item)
    (fun fields => ∀ field ∈ fields, motive field.2) (fun field => motive field.2)
    number text list record ?_ ?_ ?_ ?_ ?_ t
  · simp
  · intro item rest hitem hrest
    exact List.forall_mem_cons.2 ⟨hitem, hrest⟩
  · simp
  · intro field rest hfield hrest
    exact List.forall_mem_cons.2 ⟨hfield, hrest⟩
  · intro key value hvalue
    exact hvalue

theorem ofPosition_inj {p q : Position} : ofPosition p = ofPosition q ↔ p = q := by
  cases p
  cases q
  simp [ofPosition]

theorem ofIdent_eq_iff {a b : Ident} : ofIdent a = ofIdent b ↔ a.Alike b := by
  rw [ofIdent, ofIdent, Tree.text.injEq, Ident.print_eq_print_iff]
  rfl

theorem map_eq_map_iff {α : Type} {f : α → Tree} {as bs : List α} :
    as.map f = bs.map f ↔ List.Forall₂ (fun a b => f a = f b) as bs := by
  rw [← List.forall₂_eq_eq_eq, List.forall₂_map_left_iff, List.forall₂_map_right_iff]

theorem ofIdents_eq_iff {as bs : List Ident} : ofIdents as = ofIdents bs ↔ List.Forall₂ Ident.Alike as bs := by
  rw [ofIdents, ofIdents, Tree.list.injEq, map_eq_map_iff]
  simp only [ofIdent_eq_iff]

theorem ofKind_eq_iff {k l : Event.Kind} : ofKind k = ofKind l ↔ k.Alike l := by
  constructor
  · intro h
    cases k <;> cases l <;> simp [ofKind, ofIdent_eq_iff, ofIdents_eq_iff] at h
    case paragraphOpen.paragraphOpen => exact .paragraphOpen h
    case paragraphClose.paragraphClose => exact .paragraphClose
    case fragmentOpen.fragmentOpen => exact .fragmentOpen h
    case fragmentClose.fragmentClose => exact .fragmentClose
    case revealLink.revealLink =>
      obtain ⟨hopens, rfl, rfl, hdescendants⟩ := h
      exact .revealLink hopens _ _ hdescendants
    case text.text =>
      obtain ⟨rfl, rfl⟩ := h
      exact .text _ _
  · intro h
    cases h <;> simp_all [ofKind, ofIdent_eq_iff, ofIdents_eq_iff]

theorem ofEvent_eq_iff {e f : Event} : ofEvent e = ofEvent f ↔ e.Alike f := by
  simp only [ofEvent, Tree.record.injEq, List.cons_append, List.nil_append, List.cons.injEq, Prod.mk.injEq, true_and,
    ofPosition_inj, ofIdents_eq_iff, ofKind_eq_iff]
  exact ⟨fun ⟨hposition, hchain, hkind⟩ => ⟨hposition, hchain, hkind⟩,
    fun ⟨hposition, hchain, hkind⟩ => ⟨hposition, hchain, hkind⟩⟩

theorem ofDocument_eq_iff {d d' : Document} :
    ofDocument d = ofDocument d' ↔ List.Forall₂ Event.Alike d.events d'.events := by
  simp only [ofDocument, Tree.record.injEq, List.cons.injEq, Prod.mk.injEq, Tree.list.injEq, true_and, and_true,
    map_eq_map_iff, ofEvent_eq_iff]

end Dump.Tree

end Reveal
