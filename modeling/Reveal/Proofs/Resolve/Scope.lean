import Mathlib.Data.List.Induction
import Reveal.Event
/-!
# Scopes

The scope of an event is the fragment directly around it, known by the place of the event that opens
the fragment. What stands in no fragment shares one scope, whatever paragraph it is in.
-/
namespace Reveal

/-- The places of the open fragments behind an event that stands at `place`. -/
def Event.moveScope (e : Event) (place : Nat) (places : List Nat) : List Nat :=
  match e.kind with
  | .fragmentOpen _ => place :: places
  | .fragmentClose => places.tail
  | _ => places

/-- The places of the fragments that are open behind some events, innermost first. -/
def openPlaces (events : List Event) : List Nat :=
  events.zipIdx.foldl (fun places (e, place) => e.moveScope place places) []

/-- The scope of the event at a place; none for what stands in no fragment. -/
def scopeAt (events : List Event) (place : Nat) : Option Nat :=
  (openPlaces (events.take place)).head?

/-- The scopes that are open behind some events, innermost first. -/
def openScopes (events : List Event) : List (Option Nat) :=
  (openPlaces events).map some ++ [none]

variable {events more : List Event} {e : Event} {place other : Nat}

@[simp] theorem openPlaces_nil : openPlaces [] = [] := rfl

theorem openPlaces_concat (events : List Event) (e : Event) :
    openPlaces (events ++ [e]) = e.moveScope events.length (openPlaces events) := by
  simp [openPlaces, List.zipIdx_append]

theorem lt_of_mem_openPlaces (h : place ∈ openPlaces events) : place < events.length := by
  induction events using List.reverseRecOn with
  | nil => cases h
  | append_singleton events e ih =>
    rw [openPlaces_concat] at h
    rw [List.length_append, List.length_singleton]
    unfold Event.moveScope at h
    split at h
    · rcases List.mem_cons.1 h with rfl | h
      · exact Nat.lt_succ_self _
      · exact Nat.lt_succ_of_lt (ih h)
    · exact Nat.lt_succ_of_lt (ih (List.mem_of_mem_tail h))
    · exact Nat.lt_succ_of_lt (ih h)

/-- No fragment is open twice. -/
theorem openPlaces_nodup (events : List Event) : (openPlaces events).Nodup := by
  induction events using List.reverseRecOn with
  | nil => exact .nil
  | append_singleton events e ih =>
    rw [openPlaces_concat]
    unfold Event.moveScope
    split
    · exact List.nodup_cons.2 ⟨fun h => Nat.lt_irrefl _ (lt_of_mem_openPlaces h), ih⟩
    · exact ih.tail
    · exact ih

theorem openScopes_nodup (events : List Event) : (openScopes events).Nodup := by
  have hplaces : ((openPlaces events).map some).Nodup :=
    List.Pairwise.map some (fun _ _ hne h => hne (Option.some.inj h)) (openPlaces_nodup events)
  exact List.nodup_append.2 ⟨hplaces, by simp, by simp⟩

/-- The scope of what comes next is the innermost one that is open. -/
theorem openScopes_eq_cons (events : List Event) :
    openScopes events = scopeAt events events.length :: (openScopes events).tail := by
  unfold openScopes scopeAt
  rw [List.take_length]
  cases openPlaces events <;> rfl

/-- What comes later does not move what stands before it. -/
theorem scopeAt_append (h : place ≤ events.length) : scopeAt (events ++ more) place = scopeAt events place := by
  rw [scopeAt, scopeAt, List.take_append_of_le_length h]

theorem scopeAt_take (h : place ≤ other) : scopeAt (events.take other) place = scopeAt events place := by
  rw [scopeAt, scopeAt, List.take_take, Nat.min_eq_left h]

/-- A fragment opens before what stands in it. -/
theorem lt_of_scopeAt_eq_some (h : scopeAt events place = some other) : other < place ∧ other < events.length := by
  have hlt := lt_of_mem_openPlaces (List.mem_of_mem_head? h)
  rw [List.length_take] at hlt
  omega

end Reveal
