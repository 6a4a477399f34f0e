import Reveal.Proofs.Cascade.Descendants
import Reveal.Proofs.Cascade.Preorder
import Reveal.Proofs.Resolve.Target
/-!
# A link reveals its target first

The first event that files anything under an identifier is the one that opens it, and it files the
identifier under itself: whatever else carries it on its chain comes later (`filedUnder_cases`). So a
link reveals its target before all else. If nothing is opened by the target, nothing is filed under it,
and the link reveals nothing.
-/
namespace Reveal

theorem Event.OpensOnChain.outward {e : Event} {id : Ident} (h : e.OpensOnChain) (hopened : e.openedBy? = some id)
    (hid : id ≠ .anonymous) : ∃ outer, e.chain.outward = id :: outer := by
  unfold OpensOnChain at h
  unfold openedBy? at hopened
  split at hopened
  · rename_i hkind
    cases hopened
    simp only [hkind] at h
    rcases h with ⟨hid', -⟩ | h
    · exact absurd hid' hid
    · exact ⟨[], h⟩
  · rename_i hkind
    cases hopened
    simpa only [hkind] using h
  · cases hopened

theorem opensOnChain_of_resolve {source : String} {tokens : List Token} {events : List Event}
    (h : resolve source tokens = .ok events) : ∀ e ∈ events, e.OpensOnChain := by
  obtain ⟨es, c, p, ht, rfl⟩ := resolve_trail h
  intro e he
  rcases List.mem_cons.1 (List.mem_reverse.1 he) with rfl | he
  · trivial
  · exact ht.opensOnChain e he

namespace Cascade

variable {events : List Event} {id target : Ident}

theorem mem_filedUnder_of_opened {e : Event} {outer : List Ident} (he : e ∈ events)
    (hopened : e.openedBy? = some id) (hchain : e.chain.outward = id :: outer) : id ∈ filedUnder events id :=
  mem_filedUnder.2 ⟨e, he, edge_of_innermost hchain (.inr hopened)⟩

/-- An event files what it opens under the innermost identifier of its chain before all else. -/
theorem filedUnder_opening {e : Event} {outer : List Ident} (hopened : e.openedBy? = some id)
    (hchain : e.chain.outward = id :: outer) : ∃ rest, filedUnder [e] id = id :: rest := by
  obtain ⟨more, hedges⟩ : ∃ more, edges e = (id, id) :: more := by
    unfold edges
    cases outer <;> simp [hopened, hchain]
  exact ⟨(more.filter fun edge => edge.1 = id).map (·.2), by simp [filedUnder, hedges]⟩

/-- What is filed first under an identifier is the identifier itself. -/
theorem filedUnder_cases {es : List Event} (h : GroundedUpTo es) (id : Ident) :
    filedUnder es.reverse id = [] ∨ ∃ rest, filedUnder es.reverse id = id :: rest := by
  induction es with
  | nil => exact .inl rfl
  | cons e es ih =>
    have hbefore : GroundedUpTo es := fun x before hx => h x before (hx.trans (List.suffix_cons e es))
    rw [List.reverse_cons, filedUnder_append]
    rcases ih hbefore with hnone | ⟨rest, hrest⟩
    · rw [hnone, List.nil_append]
      by_cases hnew : filedUnder [e] id = []
      · exact .inl hnew
      · -- `e` is the first event with `id` on its chain, so no event before it can have opened `id`.
        obtain ⟨child, hchild⟩ := List.exists_mem_of_ne_nil _ hnew
        obtain ⟨x, hx, hedge⟩ := mem_filedUnder.1 hchild
        rw [List.mem_singleton.1 hx] at hedge
        obtain ⟨hmem, -⟩ := mem_edges hedge
        obtain ⟨inner, outer, hsplit⟩ := List.append_of_mem hmem
        obtain ⟨o, ho, hopened, hchain⟩ := h e es List.suffix_rfl id outer ⟨inner, hsplit.symm⟩
        rcases List.mem_cons.1 ho with rfl | ho
        · exact .inr (filedUnder_opening hopened hchain)
        · have hfiled := mem_filedUnder_of_opened (List.mem_reverse.2 ho) hopened hchain
          rw [hnone] at hfiled
          cases hfiled
    · exact .inr ⟨rest ++ filedUnder [e] id, by rw [hrest, List.cons_append]⟩

theorem descendantsOf_eq_nil (h : filedUnder events target = []) : descendantsOf events target = [] := by
  have hdrains := drains_descendantsOf events target
  rw [h] at hdrains
  generalize descendantsOf events target = found at hdrains ⊢
  cases hdrains
  rfl

theorem head?_descendantsOf {rest : List Ident} (h : filedUnder events target = id :: rest) :
    (descendantsOf events target).head? = some id := by
  have hdrains := drains_descendantsOf events target
  rw [h] at hdrains
  generalize descendantsOf events target = found at hdrains ⊢
  cases hdrains with
  | skip old behind => exact absurd old (Set.notMem_empty id)
  | take new behind => rfl

/-- Nothing is filed under what never opens. -/
theorem filedUnder_eq_nil (hg : ∀ e ∈ events, Grounded events e.chain.outward)
    (h : ∀ e ∈ events, e.openedBy? ≠ some id) : filedUnder events id = [] := by
  rw [List.eq_nil_iff_forall_not_mem]
  intro child hchild
  obtain ⟨e, he, hedge⟩ := mem_filedUnder.1 hchild
  obtain ⟨inner, outer, hsplit⟩ := List.append_of_mem (mem_edges hedge).1
  obtain ⟨o, ho, hopened, -⟩ := hg e he id outer ⟨inner, hsplit.symm⟩
  exact h o ho hopened

end Cascade

open Cascade

/-- If a paragraph or a fragment is opened by what a link opens, then this is the first that the link
reveals; otherwise the link reveals nothing. -/
theorem link_reveals_target_first {source : String} {d : Document} {link : Event} {id : Ident}
    {caption text : String} {descendants : List Ident} (h : parse source = .ok d) (hlink : link ∈ d.events)
    (hkind : link.kind = .revealLink id caption text descendants) :
    ((∃ e ∈ d.events, e.openedBy? = some id) → descendants.head? = some id) ∧
      ((¬ ∃ e ∈ d.events, e.openedBy? = some id) → descendants = []) := by
  have htarget := isTarget_of_kind h hlink hkind
  obtain ⟨events, hr, hevents, rfl⟩ := exists_descendantsOf h hlink hkind
  have hopened : (∃ e ∈ d.events, e.openedBy? = some id) ↔ ∃ e ∈ events, e.openedBy? = some id := by
    simp [hevents, mem_fill]
  rw [hopened]
  constructor
  · rintro ⟨e, he, heopened⟩
    obtain ⟨outer, hchain⟩ := (opensOnChain_of_resolve hr e he).outward heopened htarget.ne_anonymous
    have hfiled := mem_filedUnder_of_opened he heopened hchain
    have hcases := filedUnder_cases (groundedUpTo_of_resolve hr) id
    rw [List.reverse_reverse] at hcases
    rcases hcases with hnone | ⟨rest, hrest⟩
    · rw [hnone] at hfiled
      cases hfiled
    · exact head?_descendantsOf hrest
  · intro hnone
    apply descendantsOf_eq_nil
    apply filedUnder_eq_nil (grounded_of_resolve hr)
    intro e he heopened
    exact hnone ⟨e, he, heopened⟩

/-- A name that is opened twice, the first time around a link to nothing. -/
theorem link_reveals_target_first_reopened :
    ∃ d, parse "\x7ba:\x7bz\x7d[x]#b\x7d[y]#a\x7ba:\x7d" = .ok d ∧
      (∃ link ∈ d.events, ∃ caption text descendants,
        link.kind = .revealLink (.named "a") caption text descendants ∧
        (∃ e ∈ d.events, e.openedBy? = some (.named "a")) ∧ descendants.head? = some (.named "a")) ∧
      ∃ link ∈ d.events, ∃ caption text descendants,
        link.kind = .revealLink (.named "b") caption text descendants ∧
        (¬ ∃ e ∈ d.events, e.openedBy? = some (.named "b")) ∧ descendants = [] := by
  obtain ⟨d, hd, ⟨a, ha, haopens⟩, ⟨b, hb, hbopens⟩, haopened, hbopened⟩ :
      ∃ d, parse "\x7ba:\x7bz\x7d[x]#b\x7d[y]#a\x7ba:\x7d" = .ok d ∧
        (∃ e ∈ d.events, e.opens? = some (.named "a")) ∧ (∃ e ∈ d.events, e.opens? = some (.named "b")) ∧
        (∃ e ∈ d.events, e.openedBy? = some (.named "a")) ∧
        ¬ ∃ e ∈ d.events, e.openedBy? = some (.named "b") := by decide +kernel
  obtain ⟨caption, text, descendants, hakind⟩ := Event.kind_of_opens? haopens
  obtain ⟨caption', text', descendants', hbkind⟩ := Event.kind_of_opens? hbopens
  have hafirst := (link_reveals_target_first hd ha hakind).1 haopened
  have hbnone := (link_reveals_target_first hd hb hbkind).2 hbopened
  exact ⟨d, hd, ⟨a, ha, caption, text, descendants, hakind, haopened, hafirst⟩,
    ⟨b, hb, caption', text', descendants', hbkind, hbopened, hbnone⟩⟩

end Reveal
