import Reveal.Document
/-!
# Reading a source, stage by stage

A source is resolved, no link may stand inside its target, and then every link gets its descendants.
The last stage changes nothing else: the events keep their chains, and what opens stays.
-/
namespace Reveal

namespace Event

variable (e : Event) (ids : List Ident)

@[simp] theorem chain_withDescendants : (e.withDescendants ids).chain = e.chain := by
  unfold withDescendants; split <;> rfl

@[simp] theorem position_withDescendants : (e.withDescendants ids).position = e.position := by
  unfold withDescendants; split <;> rfl

@[simp] theorem opens?_withDescendants : (e.withDescendants ids).opens? = e.opens? := by
  unfold withDescendants; split
  · rename_i h; simp [opens?, h]
  · rfl

@[simp] theorem openedBy?_withDescendants : (e.withDescendants ids).openedBy? = e.openedBy? := by
  unfold withDescendants; split
  · rename_i h; simp [openedBy?, h]
  · rfl

variable {e}

theorem withDescendants_of_opens?_eq_none (h : e.opens? = none) : e.withDescendants ids = e := by
  unfold withDescendants; split
  · rename_i hk; simp [opens?, hk] at h
  · rfl

/-- A link carries the descendants it was given. -/
theorem descendants_eq_of_withDescendants {opens : Ident} {caption text : String} {descendants : List Ident}
    (h : (e.withDescendants ids).kind = .revealLink opens caption text descendants) :
    e.opens? = some opens ∧ descendants = ids := by
  unfold withDescendants at h
  split at h
  · rename_i hk
    simp only [Kind.revealLink.injEq] at h
    exact ⟨by simp [opens?, hk, h.1], h.2.2.2.symm⟩
  · rename_i hk
    exact absurd h (hk _ _ _ _)

theorem kind_of_opens? {id : Ident} (h : e.opens? = some id) :
    ∃ caption text descendants, e.kind = .revealLink id caption text descendants := by
  unfold opens? at h; split at h
  · rename_i hk
    cases h
    exact ⟨_, _, _, hk⟩
  · cases h

theorem openedBy?_eq_none_of_opens? {id : Ident} (h : e.opens? = some id) : e.openedBy? = none := by
  obtain ⟨_, _, _, hk⟩ := kind_of_opens? h
  simp [openedBy?, hk]

end Event

namespace Cascade

/-- What an event reveals: nothing, unless it is a link. -/
def reveals (events : List Event) (e : Event) : List Ident :=
  match e.opens? with
  | some target => descendantsOf events target
  | none => []

theorem fill_eq_map (events : List Event) :
    fill events = events.map fun e => e.withDescendants (reveals events e) := by
  unfold fill reveals descendantsOf
  refine List.map_congr_left fun e _ => ?_
  cases h : e.opens? with
  | none => rw [Event.withDescendants_of_opens?_eq_none [] h]
  | some target => rfl

theorem mem_fill {events : List Event} {e' : Event} :
    e' ∈ fill events ↔ ∃ e ∈ events, e.withDescendants (reveals events e) = e' := by
  rw [fill_eq_map, List.mem_map]

end Cascade

/-- A document's events are those of a resolution in which no link stands inside its target, with
descendants filled in. -/
theorem parse_eq_ok_iff {source : String} {d : Document} :
    parse source = .ok d ↔ ∃ events, resolve source (tokenize source) = .ok events ∧
      Cascade.recursiveFault? events = none ∧ d = ⟨Cascade.fill events, tokenize source⟩ := by
  unfold parse Cascade.attach
  cases hr : resolve source (tokenize source) with
  | error f => simp [bind, Except.bind, hr]
  | ok events =>
    cases hf : Cascade.recursiveFault? events <;> simp [bind, Except.bind, hr, hf, eq_comm]

/-- What a document's link reveals is found among the resolved events. -/
theorem exists_descendantsOf {source : String} {d : Document} {link : Event} {id : Ident} {caption text : String}
    {descendants : List Ident} (h : parse source = .ok d) (hlink : link ∈ d.events)
    (hkind : link.kind = .revealLink id caption text descendants) :
    ∃ events, resolve source (tokenize source) = .ok events ∧ d.events = Cascade.fill events ∧
      descendants = Cascade.descendantsOf events id := by
  obtain ⟨events, hr, -, rfl⟩ := parse_eq_ok_iff.1 h
  obtain ⟨origin, -, rfl⟩ := Cascade.mem_fill.1 hlink
  obtain ⟨hopens, hdescendants⟩ := Event.descendants_eq_of_withDescendants _ hkind
  rw [Cascade.reveals, hopens] at hdescendants
  exact ⟨events, hr, rfl, hdescendants⟩

/-- A source is refused by the resolution, or for a link that stands inside its target. -/
theorem parse_eq_error_iff {source : String} {f : Fault} :
    parse source = .error f ↔ resolve source (tokenize source) = .error f ∨
      ∃ events, resolve source (tokenize source) = .ok events ∧
        Cascade.recursiveFault? events = some f := by
  unfold parse Cascade.attach
  cases hr : resolve source (tokenize source) with
  | error f => simp [bind, Except.bind, hr]
  | ok events =>
    cases hf : Cascade.recursiveFault? events <;> simp [bind, Except.bind, hr, hf]

end Reveal
