import Reveal.Proofs.Cascade.Walk
import Reveal.Proofs.Parse
import Reveal.Proofs.Resolve.Trail
/-!
# Descendants

What opens along with an identifier is told by whole chains: whatever lies under it at any depth. The
index files an event only under the two innermost identifiers of its chain. That this is enough rests
on the trail: every identifier of a chain was put there by an event that opens it and carries the
chain up to there (`grounded_of_trail`).
-/
namespace Reveal.Cascade

variable {events : List Event} {target : Ident}

/-- `s` holds all that opens along with `target`: with every identifier on the chain of a link what
the link opens, and with every identifier on the chain of a paragraph or fragment that opens, what it
is opened by. -/
def Closed (events : List Event) (target : Ident) (s : Set Ident) : Prop :=
  ∀ y, y = target ∨ y ∈ s → ∀ e ∈ events, y ∈ e.chain.toList →
    (∀ id, e.opens? = some id → id ∈ s) ∧ ∀ id, e.openedBy? = some id → id ∈ s

/-! ## Where the identifiers of a chain come from -/

/-- Every identifier of `ids`, which lists a chain from the inside out, was opened by an event whose
chain ends there. -/
def Grounded (events : List Event) (ids : List Ident) : Prop :=
  ∀ id outer, id :: outer <:+ ids → ∃ e ∈ events, e.openedBy? = some id ∧ e.chain.outward = id :: outer

theorem grounded_nil (events : List Event) : Grounded events [] := by
  intro id outer hi
  simp at hi

theorem Grounded.mono {more : List Event} {ids : List Ident} (h : Grounded events ids)
    (hmore : ∀ e ∈ events, e ∈ more) : Grounded more ids := by
  intro id outer hi
  obtain ⟨o, ho, h'⟩ := h id outer hi
  exact ⟨o, hmore o ho, h'⟩

theorem Grounded.cons {ids : List Ident} (h : Grounded events ids) (e : Event) : Grounded (e :: events) ids :=
  h.mono fun _ => List.mem_cons_of_mem e

theorem Grounded.tail {id : Ident} {ids : List Ident} (h : Grounded events (id :: ids)) :
    Grounded events ids :=
  fun x outer hx => h x outer (hx.trans (List.suffix_cons id ids))

theorem Grounded.parent {c : Chain} (h : Grounded events c.outward) : Grounded events c.parent.outward := by
  cases c with
  | empty => exact h
  | push c id number => exact h.tail

theorem Grounded.push {e : Event} {c : Chain} {id : Ident} (h : Grounded events c.outward)
    (hc : e.chain = c.push id) (hi : e.openedBy? = some id) : Grounded (e :: events) e.chain.outward := by
  intro x outer hx
  rw [hc, Chain.outward_push, List.suffix_cons_iff] at hx
  rcases hx with hx | hx
  · cases hx
    exact ⟨e, by simp, hi, by rw [hc]; rfl⟩
  · exact h.cons e x outer hx

/-- Every event's chain is grounded in the events up to it, which are listed latest first. -/
def GroundedUpTo (events : List Event) : Prop :=
  ∀ e before, e :: before <:+ events → Grounded (e :: before) e.chain.outward

/-- One more event on a grounded chain leaves all chains grounded. -/
theorem GroundedUpTo.cons {e : Event} (h : GroundedUpTo events) (he : Grounded (e :: events) e.chain.outward) :
    GroundedUpTo (e :: events) := by
  intro x before hx
  rcases List.suffix_cons_iff.1 hx with hx | hx
  · cases hx
    exact he
  · exact h x before hx

/-- The chain that is open behind a trail and the chains of all its events are grounded in it. -/
theorem grounded_of_trail {es : List Event} {c : Chain} {n : Nat} (h : Trail es c n) :
    Grounded es c.outward ∧ GroundedUpTo es := by
  induction h with
  | root p =>
    have hnone : GroundedUpTo [] := fun x before hx => by simp at hx
    exact ⟨grounded_nil _, hnone.cons (grounded_nil _)⟩
  | @paragraph es c p id before ih =>
    have hclose := ih.1.parent.cons ⟨p, c.parent, .paragraphClose⟩
    have hopen := hclose.push (e := ⟨p, c.parent.push id, .paragraphOpen id⟩) rfl rfl
    exact ⟨hopen, (ih.2.cons hclose).cons hopen⟩
  | @fragmentOpen es c n p id before ih =>
    have hopen := ih.1.push (e := ⟨p, c.push id, .fragmentOpen id⟩) rfl rfl
    exact ⟨hopen, ih.2.cons hopen⟩
  | @fragmentClose es c n p before ih =>
    have hclose := ih.1.parent.cons ⟨p, c.parent, .fragmentClose⟩
    exact ⟨hclose, ih.2.cons hclose⟩
  | @link es c n p id caption source descendants before ih =>
    have hlink := ih.1.cons ⟨p, c, .revealLink id caption source descendants⟩
    exact ⟨hlink, ih.2.cons hlink⟩
  | @text es c n p html source before ih =>
    have htext := ih.1.cons ⟨p, c, .text html source⟩
    exact ⟨htext, ih.2.cons htext⟩

theorem groundedUpTo_of_resolve {source : String} {tokens : List Token}
    (h : resolve source tokens = .ok events) : GroundedUpTo events.reverse := by
  obtain ⟨es, c, p, ht, rfl⟩ := resolve_trail h
  obtain ⟨hc, hes⟩ := grounded_of_trail ht
  rw [List.reverse_reverse]
  exact hes.cons (hc.parent.cons _)

theorem grounded_of_resolve {source : String} {tokens : List Token}
    (h : resolve source tokens = .ok events) : ∀ e ∈ events, Grounded events e.chain.outward := by
  intro e he
  obtain ⟨before, after, rfl⟩ := List.append_of_mem he
  have hsuffix : e :: before.reverse <:+ (before ++ e :: after).reverse := ⟨after.reverse, by simp⟩
  refine (groundedUpTo_of_resolve h e before.reverse hsuffix).mono fun o ho => ?_
  rcases List.mem_cons.1 ho with rfl | ho
  · exact he
  · exact List.mem_append_left _ (List.mem_reverse.1 ho)

/-! ## Chains and the index -/

theorem mem_edges {e : Event} {parent child : Ident} (h : (parent, child) ∈ edges e) :
    parent ∈ e.chain.outward ∧ (e.opens? = some child ∨ e.openedBy? = some child) := by
  unfold edges at h
  split at h <;> simp_all
  rcases h with ⟨rfl, rfl⟩ | ⟨rfl, rfl⟩ <;> simp

theorem edge_of_innermost {e : Event} {parent child : Ident} {outer : List Ident}
    (hc : e.chain.outward = parent :: outer) (h : e.opens? = some child ∨ e.openedBy? = some child) :
    (parent, child) ∈ edges e := by
  unfold edges
  rcases h with h | h
  · simp [Event.openedBy?_eq_none_of_opens? h, h, hc]
  · cases outer <;> simp [h, hc]

theorem edge_of_next {e : Event} {parent child : Ident} {outer : List Ident}
    (hc : e.chain.outward = child :: parent :: outer) (h : e.openedBy? = some child) :
    (parent, child) ∈ edges e := by
  unfold edges
  simp [h, hc]

/-- If a set is closed under the index, it holds what is innermost on a chain as soon as it holds
anything on it. -/
theorem innermost_mem {s : Set Ident}
    (hs : ∀ x, x = target ∨ x ∈ s → ∀ child ∈ (Index.ofEvents events).children x, child ∈ s)
    {y id : Ident} {outer : List Ident} (hg : Grounded events (id :: outer)) (hy : y = target ∨ y ∈ s)
    (h : y ∈ id :: outer) : id = target ∨ id ∈ s := by
  induction outer generalizing id with
  | nil =>
    rw [List.mem_singleton] at h
    exact h ▸ hy
  | cons next outer ih =>
    rcases List.mem_cons.1 h with rfl | h
    · exact hy
    · obtain ⟨e, he, hi, hc⟩ := hg id (next :: outer) List.suffix_rfl
      have hnext := ih hg.tail h
      exact .inr (hs next hnext id (Index.mem_children_ofEvents.2 ⟨e, he, edge_of_next hc hi⟩))

/-- On grounded chains, being closed under whole chains is being closed under the index. -/
theorem closed_iff_children (hg : ∀ e ∈ events, Grounded events e.chain.outward) {s : Set Ident} :
    Closed events target s ↔
      ∀ x, x = target ∨ x ∈ s → ∀ child ∈ (Index.ofEvents events).children x, child ∈ s := by
  constructor
  · intro h x hx child hc
    obtain ⟨e, he, hedge⟩ := Index.mem_children_ofEvents.1 hc
    obtain ⟨hx', hb⟩ := mem_edges hedge
    obtain ⟨ho, hb'⟩ := h x hx e he (Chain.mem_toList.2 hx')
    exact hb.elim (ho child) (hb' child)
  · intro h y hy e he hye
    rw [Chain.mem_toList] at hye
    have main : ∀ id, e.opens? = some id ∨ e.openedBy? = some id → id ∈ s := by
      intro id hid
      cases hc : e.chain.outward with
      | nil => simp [hc] at hye
      | cons parent outer =>
        have hparent := innermost_mem h (hc ▸ hg e he) hy (hc ▸ hye)
        exact h parent hparent id (Index.mem_children_ofEvents.2 ⟨e, he, edge_of_innermost hc hid⟩)
    exact ⟨fun id hid => main id (.inl hid), fun id hid => main id (.inr hid)⟩

theorem descendantsOf_least (hg : ∀ e ∈ events, Grounded events e.chain.outward) (target : Ident) :
    IsLeast {s | Closed events target s} {id | id ∈ descendantsOf events target} := by
  simp only [closed_iff_children hg]
  exact walk_least (Index.ofEvents events) target

/-- Filling in descendants changes nothing that `Closed` speaks of. -/
theorem closed_fill {s : Set Ident} : Closed (fill events) target s ↔ Closed events target s := by
  unfold Closed
  simp [mem_fill]

/-- For every source that can be resolved, the descendants of an identifier are listed once each and
are the least set that holds all that opens along with it; and in a document that is what each link
carries for the identifier it opens. -/
theorem descendants_least (source : String) :
    (∀ events, resolve source (tokenize source) = .ok events → ∀ target,
      (descendantsOf events target).Nodup ∧
        IsLeast {s | Closed events target s} {id | id ∈ descendantsOf events target}) ∧
    ∀ d, parse source = .ok d → ∀ e ∈ d.events, ∀ opens caption text descendants,
      e.kind = .revealLink opens caption text descendants →
        descendants.Nodup ∧ IsLeast {s | Closed d.events opens s} {id | id ∈ descendants} := by
  have main : ∀ events, resolve source (tokenize source) = .ok events → ∀ target,
      (descendantsOf events target).Nodup ∧
        IsLeast {s | Closed events target s} {id | id ∈ descendantsOf events target} :=
    fun events h target => ⟨walk_nodup _ _, descendantsOf_least (grounded_of_resolve h) target⟩
  refine ⟨main, ?_⟩
  intro d hd e' he' opens caption text descendants hk
  obtain ⟨events, hr, -, rfl⟩ := parse_eq_ok_iff.1 hd
  obtain ⟨e, he, rfl⟩ := mem_fill.1 he'
  obtain ⟨hopens, hdesc⟩ := Event.descendants_eq_of_withDescendants _ hk
  rw [reveals, hopens] at hdesc
  simp only [closed_fill, hdesc]
  exact main events hr opens

/-- Two fragments that hold links to each other, one of them with another fragment inside. -/
theorem descendants_least_mutual :
    ∃ d, parse "\x7ba:\x7bx\x7d[m]#b\x7d\x7bb:[n]#a\x7d" = .ok d ∧
      (∃ events, resolve "\x7ba:\x7bx\x7d[m]#b\x7d\x7bb:[n]#a\x7d"
          (tokenize "\x7ba:\x7bx\x7d[m]#b\x7d\x7bb:[n]#a\x7d") = .ok events ∧
        IsLeast {s | Closed events (.named "b") s} {id | id ∈ descendantsOf events (.named "b")}) ∧
      ∃ e ∈ d.events, ∃ caption text descendants,
        e.kind = .revealLink (.named "a") caption text descendants ∧
        IsLeast {s | Closed d.events (.named "a") s} {id | id ∈ descendants} := by
  obtain ⟨d, hd, e, he, ho⟩ : ∃ d, parse "\x7ba:\x7bx\x7d[m]#b\x7d\x7bb:[n]#a\x7d" = .ok d ∧
      ∃ e ∈ d.events, e.opens? = some (.named "a") := by decide +kernel
  obtain ⟨caption, text, descendants, hk⟩ := Event.kind_of_opens? ho
  obtain ⟨events, hr, -⟩ := parse_eq_ok_iff.1 hd
  exact ⟨d, hd, ⟨events, hr, ((descendants_least _).1 events hr (.named "b")).2⟩, e, he,
    caption, text, descendants, hk, ((descendants_least _).2 d hd e he _ _ _ _ hk).2⟩

end Reveal.Cascade
