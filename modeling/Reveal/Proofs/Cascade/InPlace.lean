import Mathlib.Data.List.Forall2
import Reveal.Proofs.Parse
/-!
# Filling in descendants, in place

What links reveal is found from chains, targets and what opens, and none of this is touched by writing
descendants. So descendants that links carry already make no difference (`attach_withDescendants`), and
filling them in a second time changes nothing. All of them are found before the first is written, so
events can be filled in place: a fault leaves them as they are (`attachInPlace_run`).
-/
namespace Reveal

namespace Event

/-- The event without descendants. -/
def bare (e : Event) : Event :=
  e.withDescendants []

@[simp] theorem withDescendants_withDescendants (e : Event) (ids more : List Ident) :
    (e.withDescendants ids).withDescendants more = e.withDescendants more := by
  obtain ⟨p, c, kind⟩ := e
  cases kind <;> rfl

end Event

namespace Cascade

/-! ## Descendants that are there already -/

section Stale

variable (stale : Event → List Ident) (events : List Event)

theorem edges_withDescendants (e : Event) (ids : List Ident) : edges (e.withDescendants ids) = edges e := by
  unfold edges
  rw [Event.openedBy?_withDescendants, Event.opens?_withDescendants, Event.chain_withDescendants]

theorem ofEvents_withDescendants :
    Index.ofEvents (events.map fun e => e.withDescendants (stale e)) = Index.ofEvents events := by
  unfold Index.ofEvents
  rw [List.flatMap_map]
  simp only [edges_withDescendants]

theorem firstRecursive_withDescendants (count : OpenCount) (previous : Chain) :
    firstRecursive count previous (events.map fun e => e.withDescendants (stale e)) =
      firstRecursive count previous events := by
  induction events generalizing count previous with
  | nil => rfl
  | cons e events ih => simp [firstRecursive, recursiveLink?, ih]

theorem descendantsOf_withDescendants (id : Ident) :
    descendantsOf (events.map fun e => e.withDescendants (stale e)) id = descendantsOf events id := by
  rw [descendantsOf, ofEvents_withDescendants, descendantsOf]

theorem fill_withDescendants : fill (events.map fun e => e.withDescendants (stale e)) = fill events := by
  rw [fill_eq_map, fill_eq_map, List.map_map]
  apply List.map_congr_left
  intro e _
  simp only [Function.comp_apply, reveals, Event.opens?_withDescendants, descendantsOf_withDescendants,
    Event.withDescendants_withDescendants]

/-- Descendants that links carry already make no difference. -/
theorem attach_withDescendants : attach (events.map fun e => e.withDescendants (stale e)) = attach events := by
  unfold attach recursiveFault?
  rw [firstRecursive_withDescendants, fill_withDescendants]

end Stale

theorem descendantsOf_bare (events : List Event) (id : Ident) :
    descendantsOf (events.map Event.bare) id = descendantsOf events id :=
  descendantsOf_withDescendants (fun _ => []) events id

theorem attach_bare (events : List Event) : attach (events.map Event.bare) = attach events :=
  attach_withDescendants (fun _ => []) events

theorem attach_fill (events : List Event) : attach (fill events) = attach events := by
  rw [fill_eq_map]
  exact attach_withDescendants (reveals events) events

theorem attach_cases (events : List Event) :
    (∃ fault, recursiveFault? events = some fault ∧ attach events = .error fault) ∨
      recursiveFault? events = none ∧ attach events = .ok (fill events) := by
  unfold attach
  cases recursiveFault? events with
  | none => exact .inr ⟨rfl, rfl⟩
  | some fault => exact .inl ⟨fault, rfl, rfl⟩

/-! ## What is written -/

/-- `Gains events e e'`: a link gets what it reveals among `events` in place of the descendants it had,
and nothing else of it changes. Other events stay as they are. -/
inductive Gains (events : List Event) : Event → Event → Prop
  | link {e : Event} {id : Ident} {caption text : String} {stale : List Ident}
      (kind : e.kind = .revealLink id caption text stale) :
    Gains events e { e with kind := .revealLink id caption text (descendantsOf events id) }
  | other {e : Event} (inert : e.opens? = none) : Gains events e e

theorem gains_fill (events : List Event) : List.Forall₂ (Gains events) events (fill events) := by
  rw [fill_eq_map, List.forall₂_map_right_iff, List.forall₂_same]
  intro e _
  cases hopens : e.opens? with
  | none =>
    rw [Event.withDescendants_of_opens?_eq_none _ hopens]
    exact .other hopens
  | some id =>
    obtain ⟨caption, text, stale, hkind⟩ := Event.kind_of_opens? hopens
    have hlink : e.withDescendants (reveals events e) =
        { e with kind := .revealLink id caption text (descendantsOf events id) } := by
      simp only [Event.withDescendants, reveals, hkind, hopens]
    rw [hlink]
    exact .link hkind

/-! ## In place -/

/-- What every link reveals, with the place at which the link stands. -/
def revelations (events : List Event) : List (Nat × List Ident) :=
  events.zipIdx.filterMap fun (e, place) => e.opens?.map fun id => (place, descendantsOf events id)

/-- Writes descendants into the event at a place. -/
def writeAt (events : List Event) (entry : Nat × List Ident) : List Event :=
  events.modify entry.1 (·.withDescendants entry.2)

/-- Gives every link its descendants, one write after the other. Nothing is written if a link stands
inside its target. -/
def attachInPlace : EStateM Fault (List Event) Unit := do
  let events ← get
  match recursiveFault? events with
  | some fault => throw fault
  | none => (revelations events).forM fun entry => modify (writeAt · entry)

/-- The writes to the places behind `done` change the events behind it one by one. -/
theorem foldl_writeAt (reveal : Ident → List Ident) (done events : List Event) :
    ((events.zipIdx done.length).filterMap fun (e, place) => e.opens?.map fun id => (place, reveal id)).foldl
        writeAt (done ++ events) =
      done ++ events.map fun e => e.withDescendants (e.opens?.elim [] reveal) := by
  induction events generalizing done with
  | nil => rfl
  | cons e events ih =>
    have hnext : ∀ e', ((events.zipIdx (done.length + 1)).filterMap fun (e, place) =>
        e.opens?.map fun id => (place, reveal id)).foldl writeAt (done ++ e' :: events) =
          done ++ e' :: events.map fun e => e.withDescendants (e.opens?.elim [] reveal) := by
      intro e'
      have h := ih (done ++ [e'])
      rw [List.length_append, List.length_singleton, List.append_assoc, List.append_assoc] at h
      exact h
    rw [List.zipIdx_cons, List.map_cons]
    cases hopens : e.opens? with
    | none =>
      rw [List.filterMap_cons_none (by simp [hopens]), hnext, Event.withDescendants_of_opens?_eq_none _ hopens]
    | some id =>
      have hwrite : writeAt (done ++ e :: events) (done.length, reveal id) =
          done ++ e.withDescendants (reveal id) :: events := by
        rw [writeAt, List.modify_eq_take_cons_drop (by simp)]
        simp
      rw [List.filterMap_cons_some (by simp [hopens]; rfl), List.foldl_cons, hwrite, hnext]
      rfl

theorem foldl_revelations (events : List Event) : (revelations events).foldl writeAt events = fill events := by
  have h := foldl_writeAt (descendantsOf events) [] events
  rw [fill_eq_map]
  refine h.trans ?_
  refine List.map_congr_left fun e _ => ?_
  unfold reveals
  cases e.opens? <;> rfl

theorem forM_writeAt_run (entries : List (Nat × List Ident)) (events : List Event) :
    (entries.forM fun entry => modify (writeAt · entry) : EStateM Fault (List Event) Unit).run events =
      .ok () (entries.foldl writeAt events) := by
  induction entries generalizing events with
  | nil => rfl
  | cons entry entries ih => exact ih (writeAt events entry)

/-- Filling in place answers as `attach` does. After a fault the events are as before. -/
theorem attachInPlace_run (events : List Event) :
    attachInPlace.run events = match attach events with
      | .error fault => .error fault events
      | .ok filled => .ok () filled := by
  have hrun : attachInPlace.run events = (match recursiveFault? events with
      | some fault => throw fault
      | none => (revelations events).forM fun entry => modify (writeAt · entry) :
        EStateM Fault (List Event) Unit).run events := rfl
  rw [hrun]
  rcases attach_cases events with ⟨fault, hfault, hattach⟩ | ⟨hnone, hattach⟩
  · rw [hattach, hfault]
    rfl
  · rw [hattach, hnone, ← foldl_revelations]
    exact forM_writeAt_run (revelations events) events

/-- Filling in descendants either finds a link inside its target and leaves every event as it was, or
changes no more than the descendants of the links, and doing it again changes nothing. Which of the two
it is, and what is filled in, does not depend on the descendants that were there before. -/
theorem attach_framed (events : List Event) :
    (match attachInPlace.run events with
      | .error fault after =>
        recursiveFault? events = some fault ∧ attach events = .error fault ∧ after = events
      | .ok () after =>
        recursiveFault? events = none ∧ attach events = .ok after ∧ List.Forall₂ (Gains events) events after ∧
          attach after = .ok after ∧ attachInPlace.run after = .ok () after) ∧
    ∀ other : List Event, other.map Event.bare = events.map Event.bare →
      attach other = attach events ∧ ∀ id, descendantsOf other id = descendantsOf events id := by
  constructor
  · rcases attach_cases events with ⟨fault, hfault, hattach⟩ | ⟨hnone, hattach⟩
    · rw [attachInPlace_run, hattach]
      exact ⟨hfault, rfl, rfl⟩
    · have hagain : attach (fill events) = .ok (fill events) := (attach_fill events).trans hattach
      rw [attachInPlace_run, hattach]
      refine ⟨hnone, rfl, gains_fill events, hagain, ?_⟩
      rw [attachInPlace_run, hagain]
  · intro other h
    constructor
    · rw [← attach_bare, h, attach_bare]
    · intro id
      rw [← descendantsOf_bare, h, descendantsOf_bare]

/-- A link in front of its target that carries descendants of old, and one inside its target. -/
theorem attach_framed_stale :
    (∃ stale fresh : List Event, stale ≠ fresh ∧ stale.map Event.bare = fresh.map Event.bare ∧
      attach stale = attach fresh ∧ ∃ after, attachInPlace.run stale = .ok () after ∧
        List.Forall₂ (Gains stale) stale after ∧ attachInPlace.run after = .ok () after) ∧
    ∃ (inside : List Event) (fault : Fault), attachInPlace.run inside = .error fault inside := by
  let opening : Event := ⟨.start, Chain.empty.push (.named "a"), .fragmentOpen (.named "a")⟩
  let link (chain : Chain) (ids : List Ident) : Event := ⟨.start, chain, .revealLink (.named "a") "" "" ids⟩
  constructor
  · refine ⟨[link .empty [.anonymous], opening], [link .empty [], opening], ?_, rfl, ?_, ?_⟩
    · intro h
      cases h
    · exact ((attach_framed [link .empty [], opening]).2 [link .empty [.anonymous], opening] rfl).1
    · have h := (attach_framed [link .empty [.anonymous], opening]).1
      split at h
      · have hnone : recursiveFault? [link .empty [.anonymous], opening] = none := by decide +kernel
        rw [hnone] at h
        cases h.1
      · rename_i after hrun
        exact ⟨after, hrun, h.2.2.1, h.2.2.2.2⟩
  · have h := (attach_framed [opening, link opening.chain []]).1
    split at h
    · rename_i fault after hrun
      refine ⟨[opening, link opening.chain []], fault, ?_⟩
      rw [hrun, h.2.2]
    · have hsome : recursiveFault? [opening, link opening.chain []] ≠ none := by decide +kernel
      exact absurd h.1 hsome

end Cascade

end Reveal
