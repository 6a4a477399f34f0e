import Reveal.Proofs.Resolve.Trail
import Reveal.Proofs.Split
/-!
# The shape of a document

A document is one or more paragraphs, and in a paragraph or a fragment stand text, links and whole
fragments. Every event's chain is what lies open around it, which replaying the events up to it
gives. Neither is kept by the resolution as such: both are read off its trail, the shape by what may
still follow behind the fragments that are open (`Ending`).
-/
namespace Reveal

/-! ## Paragraphs and what is in them -/

/-- What stands in a paragraph or in a fragment. -/
inductive Body : List Event.Kind → Prop
  | nil : Body []
  | text {rest : List Event.Kind} (html source : String) (behind : Body rest) :
    Body (.text html source :: rest)
  | link {rest : List Event.Kind} (id : Ident) (caption source : String) (descendants : List Ident)
      (behind : Body rest) :
    Body (.revealLink id caption source descendants :: rest)
  | fragment {inner rest : List Event.Kind} (id : Ident) (inside : Body inner) (behind : Body rest) :
    Body (.fragmentOpen id :: (inner ++ .fragmentClose :: rest))

/-- One or more paragraphs. -/
inductive Paragraphs : List Event.Kind → Prop
  | last {inner : List Event.Kind} (id : Ident) (inside : Body inner) :
    Paragraphs (.paragraphOpen id :: (inner ++ [.paragraphClose]))
  | more {inner rest : List Event.Kind} (id : Ident) (inside : Body inner) (behind : Paragraphs rest) :
    Paragraphs (.paragraphOpen id :: (inner ++ .paragraphClose :: rest))

/-- What can follow where a paragraph and `n` fragments are open. -/
inductive Ending : Nat → List Event.Kind → Prop
  | last {inner : List Event.Kind} (inside : Body inner) : Ending 0 (inner ++ [.paragraphClose])
  | more {inner rest : List Event.Kind} (inside : Body inner) (behind : Paragraphs rest) :
    Ending 0 (inner ++ .paragraphClose :: rest)
  | fragment {n : Nat} {inner rest : List Event.Kind} (inside : Body inner) (behind : Ending n rest) :
    Ending (n + 1) (inner ++ .fragmentClose :: rest)

variable {es : List Event} {c : Chain} {n : Nat} {rest : List Event.Kind}

theorem Ending.paragraphs (h : Ending 0 rest) (id : Ident) : Paragraphs (.paragraphOpen id :: rest) := by
  cases h with
  | last inside => exact .last id inside
  | more inside behind => exact .more id inside behind

/-- What can stand at the head of a body can stand at the head of an ending. -/
theorem Ending.cons_item (item : List Event.Kind) (hitem : ∀ {inner}, Body inner → Body (item ++ inner))
    (h : Ending n rest) : Ending n (item ++ rest) := by
  cases h with
  | last inside =>
    rw [← List.append_assoc]
    exact .last (hitem inside)
  | more inside behind =>
    rw [← List.append_assoc]
    exact .more (hitem inside) behind
  | fragment inside behind =>
    rw [← List.append_assoc]
    exact .fragment (hitem inside) behind

/-- Whatever can follow behind a trail makes paragraphs of it. -/
theorem Trail.paragraphs (h : Trail es c n) (hrest : Ending n rest) :
    Paragraphs (es.reverse.map Event.kind ++ rest) := by
  induction h generalizing rest with
  | root p => exact hrest.paragraphs .anonymous
  | paragraph p id _ ih => simpa using ih (.more .nil (hrest.paragraphs id))
  | fragmentOpen p id _ ih =>
    cases hrest with
    | fragment inside behind =>
      -- The fragment that opens here is closed by what follows, so as a whole it heads an ending.
      rename_i inner rest
      have hitem : ∀ {b}, Body b → Body ((.fragmentOpen id :: (inner ++ [.fragmentClose])) ++ b) := by
        intro b hb
        simpa using Body.fragment id inside hb
      simpa using ih (behind.cons_item _ hitem)
  | fragmentClose p _ ih => simpa using ih (.fragment .nil hrest)
  | link p id caption source descendants _ ih =>
    simpa using ih (hrest.cons_item [.revealLink id caption source descendants] (.link id caption source descendants))
  | text p html source _ ih => simpa using ih (hrest.cons_item [.text html source] (.text html source))

/-! ## What lies open -/

/-- What lies open: the paragraph, unless it is the one that every source starts in, and the
fragments, outermost first. -/
structure Enclosing where
  paragraph : Option Ident := none
  fragments : List Ident := []

namespace Enclosing

/-- What lies open behind an event. -/
def step (s : Enclosing) : Event.Kind → Enclosing
  | .paragraphOpen id => { s with paragraph := some id }
  | .paragraphClose => { s with paragraph := none }
  | .fragmentOpen id => { s with fragments := s.fragments ++ [id] }
  | .fragmentClose => { s with fragments := s.fragments.dropLast }
  | .revealLink _ _ _ _ | .text _ _ => s

/-- What lies open behind events that follow the first paragraph's start. -/
def replay (events : List Event) : Enclosing :=
  events.foldl (fun s e => s.step e.kind) {}

/-- The paragraph and the fragments, outermost first. -/
def ids (s : Enclosing) : List Ident :=
  s.paragraph.toList ++ s.fragments

theorem replay_concat (events : List Event) (e : Event) : replay (events ++ [e]) = (replay events).step e.kind := by
  simp [replay]

end Enclosing

open Enclosing

/-- Every event's chain is what lies open behind it. -/
def Enclosed (events : List Event) : Prop :=
  ∀ before e after, events = before ++ e :: after → e.chain.toList = (replay (before ++ [e])).ids

/-- The chain and the number of fragments that replaying some events leaves open. -/
structure Replays (events : List Event) (c : Chain) (n : Nat) : Prop where
  chain : c.toList = (replay events).ids
  fragments : (replay events).fragments.length = n
  enclosed : Enclosed events

namespace Replays

variable {events : List Event} (h : Replays events c n)
include h

theorem concat {m : Nat} (e : Event) (hchain : e.chain.toList = ((replay events).step e.kind).ids)
    (hfragments : ((replay events).step e.kind).fragments.length = m) :
    Replays (events ++ [e]) e.chain m := by
  rw [← replay_concat] at hchain hfragments
  exact ⟨hchain, hfragments, forall_split_concat.2 ⟨h.enclosed, hchain⟩⟩

theorem fragmentOpen (p : Position) (id : Ident) :
    Replays (events ++ [⟨p, c.push id, .fragmentOpen id⟩]) (c.push id) (n + 1) := by
  refine h.concat ⟨p, c.push id, .fragmentOpen id⟩ ?_ ?_
  · simp [h.chain, step, ids]
  · simp [h.fragments, step]

theorem inert (e : Event) (hc : e.chain = c) (hk : ∀ s : Enclosing, s.step e.kind = s) :
    Replays (events ++ [e]) c n := by
  subst hc
  exact h.concat e (by rw [hk, h.chain]) (by rw [hk, h.fragments])

omit h

theorem fragmentClose (h : Replays events c (n + 1)) (p : Position) :
    Replays (events ++ [⟨p, c.parent, .fragmentClose⟩]) c.parent n := by
  have hopen : (replay events).fragments ≠ [] := by
    intro hnil
    simpa [hnil] using h.fragments
  refine h.concat ⟨p, c.parent, .fragmentClose⟩ ?_ ?_
  · simp only [Chain.toList_parent, h.chain, step, ids, List.dropLast_append_of_ne_nil hopen]
  · simp [h.fragments, step]

/-- Outside of fragments there is at most a paragraph on the chain, and closing it leaves nothing. -/
theorem paragraphClose (h : Replays events c 0) (p : Position) :
    Replays (events ++ [⟨p, c.parent, .paragraphClose⟩]) c.parent 0 := by
  have hnone : (replay events).fragments = [] := List.length_eq_zero_iff.1 h.fragments
  refine h.concat ⟨p, c.parent, .paragraphClose⟩ ?_ ?_
  · simp only [Chain.toList_parent, h.chain, step, ids, hnone]
    cases (replay events).paragraph <;> rfl
  · simp [hnone, step]

theorem paragraph (h : Replays events c 0) (p : Position) (id : Ident) :
    Replays (events ++ [⟨p, c.parent, .paragraphClose⟩] ++ [⟨p, c.parent.push id, .paragraphOpen id⟩])
      (c.parent.push id) 0 := by
  have hclose := h.paragraphClose p
  have hnone := List.length_eq_zero_iff.1 hclose.fragments
  refine hclose.concat ⟨p, c.parent.push id, .paragraphOpen id⟩ ?_ ?_
  · simp only [Chain.toList_push, hclose.chain, ids, step, hnone]
    simp [replay_concat, step]
  · simp [hnone, step]

end Replays

/-- A trail starts with the paragraph that is on no chain; replaying the events behind it gives the
chain that the trail leaves open. -/
theorem Trail.replays (h : Trail es c n) :
    ∃ p events, es.reverse = ⟨p, .empty, .paragraphOpen .anonymous⟩ :: events ∧ Replays events c n := by
  induction h with
  | root p => exact ⟨p, [], rfl, rfl, rfl, by simp [Enclosed]⟩
  | paragraph p id _ ih =>
    obtain ⟨q, events, hes, hr⟩ := ih
    exact ⟨q, _, by simp [hes], hr.paragraph p id⟩
  | fragmentOpen p id _ ih =>
    obtain ⟨q, events, hes, hr⟩ := ih
    exact ⟨q, _, by simp [hes], hr.fragmentOpen p id⟩
  | fragmentClose p _ ih =>
    obtain ⟨q, events, hes, hr⟩ := ih
    exact ⟨q, _, by simp [hes], hr.fragmentClose p⟩
  | @link es c n p id caption source descendants _ ih =>
    obtain ⟨q, events, hes, hr⟩ := ih
    exact ⟨q, _, by simp [hes], hr.inert ⟨p, c, .revealLink id caption source descendants⟩ rfl fun _ => rfl⟩
  | @text es c n p html source _ ih =>
    obtain ⟨q, events, hes, hr⟩ := ih
    exact ⟨q, _, by simp [hes], hr.inert ⟨p, c, .text html source⟩ rfl fun _ => rfl⟩

/-- The events of a document are paragraphs. The first one has no name and is on no chain, and every
later event's chain is what lies open behind it. -/
theorem document_shape {source : String} {d : Document} (h : parse source = .ok d) :
    Paragraphs (d.events.map Event.kind) ∧
    ∃ root events, d.events = root :: events ∧ root.kind = .paragraphOpen .anonymous ∧
      root.chain.toList = [] ∧
      ∀ before e after, events = before ++ e :: after → e.chain.toList = (replay (before ++ [e])).ids := by
  obtain ⟨es, c, p, ht, he⟩ := parse_trail h
  rw [List.reverse_cons] at he
  constructor
  · rw [he, List.map_append]
    exact ht.paragraphs (.last .nil)
  · obtain ⟨q, events, hes, hr⟩ := ht.replays
    rw [hes, List.cons_append] at he
    exact ⟨_, _, he, rfl, rfl, (hr.paragraphClose p).enclosed⟩

/-- A link and the fragment it opens, with another one inside, in a named paragraph. -/
theorem document_shape_nested :
    ∃ d, parse ">a [x]\x7by\x7bb:z\x7d\x7d" = .ok d ∧ Paragraphs (d.events.map Event.kind) ∧
      (∃ root events, d.events = root :: events ∧ root.kind = .paragraphOpen .anonymous ∧ Enclosed events) ∧
      ∃ e ∈ d.events, e.fragment? = some (.named "b") ∧
        e.chain.toList = [.named "a", .auto 0, .named "b"] := by
  obtain ⟨d, hd, hid⟩ : ∃ d, parse ">a [x]\x7by\x7bb:z\x7d\x7d" = .ok d ∧
      ∃ e ∈ d.events, e.fragment? = some (.named "b") ∧
        e.chain.toList = [.named "a", .auto 0, .named "b"] := by decide +kernel
  obtain ⟨hparagraphs, root, events, hevents, hroot, -, henclosed⟩ := document_shape hd
  exact ⟨d, hd, hparagraphs, ⟨root, events, hevents, hroot, henclosed⟩, hid⟩

end Reveal
