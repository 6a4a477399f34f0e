import Mathlib.Data.List.Forall2
import Mathlib.Data.List.Pairwise
import Reveal.Proofs.Resolve.Scope
import Reveal.Proofs.Resolve.Numbers
/-!
# Which fragment a link without target opens

In each scope, links without a target and fragments without a name are paired in the order in which
they come. What the resolution keeps for this is one queue per open scope. `Paired` says what the
queues are in terms of the events so far: the numbers of the scope's links that no fragment has taken,
oldest first. So every fragment takes the oldest number that waits in its scope (`Fair`), and that
already fixes who is paired with whom (`Reveal.Proofs.Resolve.Fifo`).
-/
namespace Reveal

/-! ## Links and the fragments that take their numbers -/

def Ident.auto? : Ident → Option Nat
  | .auto n => some n
  | _ => none

def Ident.unreferenced? : Ident → Option Nat
  | .unreferenced n => some n
  | _ => none

/-- The number of a link without target. -/
def Event.linkNumber? (e : Event) : Option Nat := e.opens?.bind Ident.auto?

/-- The number that a fragment without a name takes. -/
def Event.taken? (e : Event) : Option Nat := e.fragment?.bind Ident.auto?

/-- The number of a fragment that no link opens. -/
def Event.unreferenced? (e : Event) : Option Nat := e.fragment?.bind Ident.unreferenced?

/-- At this place stands a link without target that has this number. -/
def LinkAt (events : List Event) (place n : Nat) : Prop :=
  events[place]?.bind Event.linkNumber? = some n

/-- At this place a fragment opens that takes this number. -/
def TakenAt (events : List Event) (place n : Nat) : Prop :=
  events[place]?.bind Event.taken? = some n

/-- A link of the scope has this number, and no fragment has taken it. -/
def Waits (events : List Event) (scope : Option Nat) (n : Nat) : Prop :=
  (∃ place, LinkAt events place n ∧ scopeAt events place = scope) ∧ ∀ place, ¬ TakenAt events place n

section Place

variable {events : List Event} {e : Event} {f : Event → Option Nat} {place other n : Nat}

theorem lt_of_bind (h : events[place]?.bind f = some n) : place < events.length := by
  by_contra hle
  rw [List.getElem?_eq_none (Nat.le_of_not_lt hle)] at h
  cases h

theorem bind_concat : (events ++ [e])[place]?.bind f = some n ↔
    events[place]?.bind f = some n ∨ place = events.length ∧ f e = some n := by
  rcases Nat.lt_trichotomy place events.length with h | rfl | h
  · simp [List.getElem?_append_left h, Nat.ne_of_lt h]
  · simp
  · rw [List.getElem?_eq_none (by simp; omega), List.getElem?_eq_none (Nat.le_of_lt h)]
    simp [Nat.ne_of_gt h]

theorem bind_take : (events.take other)[place]?.bind f = some n ↔
    place < other ∧ events[place]?.bind f = some n := by
  rw [List.getElem?_take]
  by_cases h : place < other <;> simp [h]

end Place

variable {events : List Event} {e : Event} {scope : Option Nat} {place other m n : Nat}

/-- A link that is added waits in the scope where it stands. -/
theorem exists_linkAt_concat : (∃ place, LinkAt (events ++ [e]) place n ∧ scopeAt (events ++ [e]) place = scope) ↔
    (∃ place, LinkAt events place n ∧ scopeAt events place = scope) ∨
      e.linkNumber? = some n ∧ scopeAt events events.length = scope := by
  unfold LinkAt
  simp only [bind_concat]
  constructor
  · rintro ⟨place, h | ⟨rfl, h⟩, hscope⟩
    · rw [scopeAt_append (Nat.le_of_lt (lt_of_bind h))] at hscope
      exact .inl ⟨place, h, hscope⟩
    · rw [scopeAt_append (Nat.le_refl _)] at hscope
      exact .inr ⟨h, hscope⟩
  · rintro (⟨place, h, hscope⟩ | ⟨h, hscope⟩)
    · exact ⟨place, .inl h, by rwa [scopeAt_append (Nat.le_of_lt (lt_of_bind h))]⟩
    · exact ⟨events.length, .inr ⟨rfl, h⟩, by rwa [scopeAt_append (Nat.le_refl _)]⟩

theorem forall_not_takenAt_concat : (∀ place, ¬ TakenAt (events ++ [e]) place n) ↔
    (∀ place, ¬ TakenAt events place n) ∧ e.taken? ≠ some n := by
  unfold TakenAt
  simp only [bind_concat, not_or, not_and, forall_and, forall_eq]

theorem waits_concat_inert (hlink : e.linkNumber? = none) (htaken : e.taken? = none) :
    Waits (events ++ [e]) scope n ↔ Waits events scope n := by
  simp [Waits, exists_linkAt_concat, forall_not_takenAt_concat, hlink, htaken]

theorem waits_concat_link (hlink : e.linkNumber? = some m) (htaken : e.taken? = none)
    (hfresh : ∀ place, ¬ TakenAt events place m) :
    Waits (events ++ [e]) scope n ↔ Waits events scope n ∨ scopeAt events events.length = scope ∧ n = m := by
  simp only [Waits, exists_linkAt_concat, forall_not_takenAt_concat, hlink, htaken]
  constructor
  · rintro ⟨hlink | ⟨hlink, hscope⟩, hnot, -⟩
    · exact .inl ⟨hlink, hnot⟩
    · exact .inr ⟨hscope, (Option.some.inj hlink).symm⟩
  · rintro (⟨hlink, hnot⟩ | ⟨hscope, rfl⟩)
    · exact ⟨.inl hlink, hnot, by simp⟩
    · exact ⟨.inr ⟨rfl, hscope⟩, hfresh, by simp⟩

theorem waits_concat_taken (hlink : e.linkNumber? = none) (htaken : e.taken? = some m) :
    Waits (events ++ [e]) scope n ↔ Waits events scope n ∧ m ≠ n := by
  simp [Waits, exists_linkAt_concat, forall_not_takenAt_concat, hlink, htaken, and_assoc]

/-- Nothing waits in a fragment that opens only now. -/
theorem not_waits_length (hlink : e.linkNumber? = none) : ¬ Waits (events ++ [e]) (some events.length) n := by
  rintro ⟨hlinks, -⟩
  rw [exists_linkAt_concat] at hlinks
  rcases hlinks with ⟨place, h, hscope⟩ | ⟨h, -⟩
  · exact Nat.lt_irrefl _ (lt_of_scopeAt_eq_some hscope).2
  · rw [hlink] at h
    cases h

/-! ## Numbers in order -/

theorem linkAt_lt (h : (events.filterMap Event.linkNumber?).Pairwise (· < ·)) (hm : LinkAt events place m)
    (hn : LinkAt events other n) (hlt : place < other) : m < n := by
  have hplace := lt_of_bind hm
  have hother := lt_of_bind hn
  rw [List.pairwise_filterMap, List.pairwise_iff_getElem] at h
  unfold LinkAt at hm hn
  rw [List.getElem?_eq_getElem hplace] at hm
  rw [List.getElem?_eq_getElem hother] at hn
  exact h place other hplace hother hlt m hm n hn

theorem linkAt_unique (h : (events.filterMap Event.linkNumber?).Pairwise (· < ·)) (hp : LinkAt events place n)
    (ho : LinkAt events other n) : place = other := by
  rcases Nat.lt_trichotomy place other with hlt | heq | hlt
  · exact absurd (linkAt_lt h hp ho hlt) (Nat.lt_irrefl n)
  · exact heq
  · exact absurd (linkAt_lt h ho hp hlt) (Nat.lt_irrefl n)

theorem mem_of_linkAt (h : LinkAt events place n) : n ∈ events.filterMap Event.linkNumber? := by
  have hplace := lt_of_bind h
  unfold LinkAt at h
  rw [List.getElem?_eq_getElem hplace] at h
  exact List.mem_filterMap.2 ⟨_, List.getElem_mem hplace, h⟩

/-- A number waits in one scope only, that of its link. -/
theorem Waits.scope_eq {scope' : Option Nat} (h : Waits events scope n)
    (hsorted : (events.filterMap Event.linkNumber?).Pairwise (· < ·)) (h' : Waits events scope' n) :
    scope = scope' := by
  obtain ⟨⟨place, hplace, rfl⟩, -⟩ := h
  obtain ⟨⟨place', hplace', rfl⟩, -⟩ := h'
  rw [linkAt_unique hsorted hplace hplace']

/-! ## Queues -/

/-- A queue holds the numbers that wait in a scope, oldest first. -/
structure Queue (events : List Event) (scope : Option Nat) (queue : List Nat) : Prop where
  sorted : queue.Pairwise (· < ·)
  mem : ∀ n, n ∈ queue ↔ Waits events scope n

/-- How a fragment without a name comes by its identifier, given the events before it: it takes the
oldest number that waits in its scope, and stays without a link only if none waits there. -/
structure Fair (before : List Event) (e : Event) : Prop where
  taken : ∀ n, e.taken? = some n → Waits before (scopeAt before before.length) n ∧
    ∀ m, Waits before (scopeAt before before.length) m → n ≤ m
  unreferenced : ∀ n, e.unreferenced? = some n → ∀ m, ¬ Waits before (scopeAt before before.length) m

/-- The queues and counters of a resolution, read off the events so far. -/
structure Paired (events : List Event) (queues : List (List Nat)) (auto unreferenced : Nat) : Prop where
  queues : List.Forall₂ (Queue events) (openScopes events) queues
  links : events.filterMap Event.linkNumber? = List.range auto
  orphans : events.filterMap Event.unreferenced? = List.range unreferenced
  fair : ∀ place e, events[place]? = some e → Fair (events.take place) e

theorem fair_concat (h : ∀ place e, events[place]? = some e → Fair (events.take place) e) (he : Fair events e) :
    ∀ place e', (events ++ [e])[place]? = some e' → Fair ((events ++ [e]).take place) e' := by
  intro place e' hplace
  rcases Nat.lt_trichotomy place events.length with hlt | rfl | hlt
  · rw [List.getElem?_append_left hlt] at hplace
    rw [List.take_append_of_le_length (Nat.le_of_lt hlt)]
    exact h place e' hplace
  · rw [List.getElem?_concat_length, Option.some.injEq] at hplace
    rw [List.take_append_of_le_length (Nat.le_refl _), List.take_length, ← hplace]
    exact he
  · rw [List.getElem?_eq_none (by simp; omega)] at hplace
    cases hplace

theorem forall₂_of_mem {α β : Type} {R S : α → β → Prop} {as : List α} {bs : List β} (h : List.Forall₂ R as bs)
    (himp : ∀ a ∈ as, ∀ b, R a b → S a b) : List.Forall₂ S as bs := by
  induction h with
  | nil => exact .nil
  | cons hab _ ih =>
    rw [List.forall_mem_cons] at himp
    exact .cons (himp.1 _ hab) (ih himp.2)

namespace Paired

variable {queues : List (List Nat)} {queue : List Nat} {auto unreferenced : Nat}

theorem paired_nil : Paired [] [[]] 0 0 where
  queues := .cons ⟨.nil, by simp [Waits, LinkAt]⟩ .nil
  links := rfl
  orphans := rfl
  fair := by simp

theorem sorted (h : Paired events queues auto unreferenced) :
    (events.filterMap Event.linkNumber?).Pairwise (· < ·) := by
  rw [h.links]
  exact List.pairwise_lt_range

theorem not_takenAt (h : Paired events queues auto unreferenced) : ∀ place, ¬ TakenAt events place auto := by
  intro place ht
  obtain ⟨e, he, htaken⟩ := Option.bind_eq_some_iff.1 ht
  obtain ⟨⟨⟨other, hlink, -⟩, -⟩, -⟩ := (h.fair place e he).taken auto htaken
  have hmem := mem_of_linkAt (bind_take.1 hlink).2
  rw [h.links, List.mem_range] at hmem
  exact Nat.lt_irrefl _ hmem

theorem lt_of_waits (h : Paired events queues auto unreferenced) (hn : Waits events scope n) : n < auto := by
  obtain ⟨⟨place, hplace, -⟩, -⟩ := hn
  have hmem := mem_of_linkAt hplace
  rwa [h.links, List.mem_range] at hmem

/-- The innermost queue is that of the scope in which the next event stands. -/
theorem current (h : Paired events (queue :: queues) auto unreferenced) :
    Queue events (scopeAt events events.length) queue ∧
      List.Forall₂ (Queue events) (openScopes events).tail queues := by
  have hq := h.queues
  rw [openScopes_eq_cons] at hq
  exact List.forall₂_cons.1 hq

/-- Events that are no links without target and neither open nor close a fragment change nothing. -/
theorem inert (h : Paired events queues auto unreferenced) (hlink : e.linkNumber? = none) (hopen : e.fragment? = none)
    (hmove : ∀ place places, e.moveScope place places = places) :
    Paired (events ++ [e]) queues auto unreferenced := by
  have htaken : e.taken? = none := by simp [Event.taken?, hopen]
  have horphan : e.unreferenced? = none := by simp [Event.unreferenced?, hopen]
  have hscopes : openScopes (events ++ [e]) = openScopes events := by
    simp [openScopes, openPlaces_concat, hmove]
  refine ⟨?_, by simp [h.links, hlink], by simp [h.orphans, horphan], fair_concat h.fair ⟨?_, ?_⟩⟩
  · rw [hscopes]
    refine h.queues.imp fun scope queue hq => ⟨hq.sorted, fun n => ?_⟩
    rw [hq.mem, waits_concat_inert hlink htaken]
  · simp [htaken]
  · simp [horphan]

theorem link (h : Paired events (queue :: queues) auto unreferenced) (hlink : e.linkNumber? = some auto)
    (hopen : e.fragment? = none) (hmove : ∀ place places, e.moveScope place places = places) :
    Paired (events ++ [e]) ((queue ++ [auto]) :: queues) (auto + 1) unreferenced := by
  have htaken : e.taken? = none := by simp [Event.taken?, hopen]
  have horphan : e.unreferenced? = none := by simp [Event.unreferenced?, hopen]
  have hscopes : openScopes (events ++ [e]) = openScopes events := by
    simp [openScopes, openPlaces_concat, hmove]
  have hwaits : ∀ scope n, Waits (events ++ [e]) scope n ↔
      Waits events scope n ∨ scopeAt events events.length = scope ∧ n = auto :=
    fun _ _ => waits_concat_link hlink htaken h.not_takenAt
  obtain ⟨hq, hqs⟩ := h.current
  refine ⟨?_, by simp [h.links, hlink, List.range_succ], by simp [h.orphans, horphan], fair_concat h.fair ⟨?_, ?_⟩⟩
  · have hnodup := openScopes_nodup events
    rw [hscopes, openScopes_eq_cons]
    rw [openScopes_eq_cons, List.nodup_cons] at hnodup
    refine .cons ⟨?_, fun n => ?_⟩ (forall₂_of_mem hqs fun scope hscope queue hq => ⟨hq.sorted, fun n => ?_⟩)
    · refine List.pairwise_append.2 ⟨hq.sorted, by simp, fun n hn k hk => ?_⟩
      rw [List.mem_singleton.1 hk]
      exact h.lt_of_waits ((hq.mem n).1 hn)
    · rw [hwaits, ← hq.mem]
      simp
    · rw [hwaits, ← hq.mem]
      have hne : scopeAt events events.length ≠ scope := fun heq => hnodup.1 (heq ▸ hscope)
      simp [hne]
  · simp [htaken]
  · simp [horphan]

/-! ### Fragments -/

section Open

variable {id : Ident} (hkind : e.kind = .fragmentOpen id)
include hkind

theorem linkNumber?_open : e.linkNumber? = none := by
  simp [Event.linkNumber?, Event.opens?, hkind]

theorem taken?_open : e.taken? = id.auto? := by
  simp [Event.taken?, Event.fragment?, hkind]

theorem unreferenced?_open : e.unreferenced? = id.unreferenced? := by
  simp [Event.unreferenced?, Event.fragment?, hkind]

theorem openScopes_open : openScopes (events ++ [e]) = some events.length :: openScopes events := by
  simp [openScopes, openPlaces_concat, Event.moveScope, hkind]

/-- A new queue is opened and the others are left alone by a fragment that takes no number. -/
theorem queues_open (h : List.Forall₂ (Queue events) (openScopes events) queues) (hid : id.auto? = none) :
    List.Forall₂ (Queue (events ++ [e])) (openScopes (events ++ [e])) ([] :: queues) := by
  have hlink := linkNumber?_open hkind
  have htaken : e.taken? = none := (taken?_open hkind).trans hid
  rw [openScopes_open hkind]
  refine .cons ⟨.nil, by simp [not_waits_length hlink]⟩ (h.imp fun scope queue hq => ⟨hq.sorted, fun n => ?_⟩)
  rw [hq.mem, waits_concat_inert hlink htaken]

theorem named (h : Paired events queues auto unreferenced) (hauto : id.auto? = none)
    (horphan : id.unreferenced? = none) : Paired (events ++ [e]) ([] :: queues) auto unreferenced where
  queues := queues_open hkind h.queues hauto
  links := by simp [h.links, linkNumber?_open hkind]
  orphans := by simp [h.orphans, unreferenced?_open hkind, horphan]
  fair := fair_concat h.fair ⟨by simp [taken?_open hkind, hauto], by simp [unreferenced?_open hkind, horphan]⟩

end Open

/-- A fragment that finds its scope's queue empty. -/
theorem orphan (h : Paired events ([] :: queues) auto unreferenced)
    (hkind : e.kind = .fragmentOpen (.unreferenced unreferenced)) :
    Paired (events ++ [e]) ([] :: [] :: queues) auto (unreferenced + 1) where
  queues := queues_open hkind h.queues rfl
  links := by simp [h.links, linkNumber?_open hkind]
  orphans := by simp [h.orphans, unreferenced?_open hkind, Ident.unreferenced?, List.range_succ]
  fair := by
    refine fair_concat h.fair ⟨by simp [taken?_open hkind, Ident.auto?], fun n _ m hm => ?_⟩
    exact absurd ((h.current.1.mem m).2 hm) (by simp)

/-- A fragment that takes the oldest number of its scope. -/
theorem awaited (h : Paired events ((n :: queue) :: queues) auto unreferenced)
    (hkind : e.kind = .fragmentOpen (.auto n)) :
    Paired (events ++ [e]) ([] :: queue :: queues) auto unreferenced := by
  have hlink := linkNumber?_open hkind
  have htaken : e.taken? = some n := taken?_open hkind
  have hwaits : ∀ scope k, Waits (events ++ [e]) scope k ↔ Waits events scope k ∧ n ≠ k :=
    fun _ _ => waits_concat_taken hlink htaken
  obtain ⟨hq, hqs⟩ := h.current
  have hsorted := List.pairwise_cons.1 hq.sorted
  have hoccurs : Waits events (scopeAt events events.length) n := (hq.mem n).1 List.mem_cons_self
  refine ⟨?_, by simp [h.links, hlink], by simp [h.orphans, unreferenced?_open hkind, Ident.unreferenced?],
    fair_concat h.fair ⟨fun k hk => ?_, by simp [unreferenced?_open hkind, Ident.unreferenced?]⟩⟩
  · have hnodup := openScopes_nodup events
    rw [openScopes_open hkind, openScopes_eq_cons]
    rw [openScopes_eq_cons, List.nodup_cons] at hnodup
    refine .cons ⟨.nil, by simp [not_waits_length hlink]⟩ (.cons ⟨hsorted.2, fun k => ?_⟩
      (forall₂_of_mem hqs fun scope hscope queue hq => ⟨hq.sorted, fun k => ?_⟩))
    · rw [hwaits, ← hq.mem, List.mem_cons]
      constructor
      · intro hk
        exact ⟨.inr hk, Nat.ne_of_lt (hsorted.1 k hk)⟩
      · rintro ⟨rfl | hk, hne⟩
        · exact absurd rfl hne
        · exact hk
    · rw [hwaits, hq.mem]
      refine ⟨fun hk => ⟨hk, ?_⟩, fun hk => hk.1⟩
      rintro rfl
      exact hnodup.1 (hk.scope_eq h.sorted hoccurs ▸ hscope)
  · rw [htaken, Option.some.injEq] at hk
    subst hk
    refine ⟨hoccurs, fun m hm => ?_⟩
    rcases List.mem_cons.1 ((hq.mem m).2 hm) with rfl | hm
    · exact Nat.le_refl _
    · exact Nat.le_of_lt (hsorted.1 m hm)

theorem close {queue' : List Nat} (h : Paired events (queue :: queue' :: queues) auto unreferenced)
    (hkind : e.kind = .fragmentClose) : Paired (events ++ [e]) (queue' :: queues) auto unreferenced := by
  have hlink : e.linkNumber? = none := by simp [Event.linkNumber?, Event.opens?, hkind]
  have hopen : e.fragment? = none := by simp [Event.fragment?, hkind]
  have htaken : e.taken? = none := by simp [Event.taken?, hopen]
  have horphan : e.unreferenced? = none := by simp [Event.unreferenced?, hopen]
  have hscopes : openScopes (events ++ [e]) = (openScopes events).tail := by
    have hlength := h.queues.length_eq
    unfold openScopes at hlength ⊢
    rw [openPlaces_concat, Event.moveScope, hkind]
    cases hplaces : openPlaces events with
    | nil => simp [hplaces] at hlength
    | cons place places => rfl
  refine ⟨?_, by simp [h.links, hlink], by simp [h.orphans, horphan], fair_concat h.fair ⟨?_, ?_⟩⟩
  · rw [hscopes]
    refine h.current.2.imp fun scope queue hq => ⟨hq.sorted, fun n => ?_⟩
    rw [hq.mem, waits_concat_inert hlink htaken]
  · simp [htaken]
  · simp [horphan]

end Paired

/-! ## Every resolution pairs fairly -/

theorem Ident.auto?_ofName (name : String) (level : Nat) : (Ident.ofName name level).auto? = none := by
  unfold Ident.ofName
  split <;> rfl

theorem Ident.unreferenced?_ofName (name : String) (level : Nat) : (Ident.ofName name level).unreferenced? = none := by
  unfold Ident.ofName
  split <;> rfl

namespace Resolution

/-- The queues of a resolution are those of its events so far. -/
def Pairing (r : Resolution) : Prop :=
  Paired r.events (r.waiting :: r.outer) r.nextAuto r.nextUnreferenced

theorem pairing_start : start.Pairing :=
  Paired.paired_nil.inert (e := ⟨.start, .empty, .paragraphOpen .anonymous⟩) rfl rfl fun _ _ => rfl

theorem pairing_step {r r' : Resolution} {p : Position} {t : Token} (h : r.Pairing) (hs : Step r p t r') :
    r'.Pairing := by
  unfold Pairing events at h ⊢
  cases hs with
  | paragraph name kind inner =>
    rw [List.reverse_cons, List.reverse_cons]
    exact (h.inert rfl rfl fun _ _ => rfl).inert rfl rfl fun _ _ => rfl
  | namedFragment name kind =>
    rw [List.reverse_cons]
    exact Paired.named rfl h (Ident.auto?_ofName name r.level) (Ident.unreferenced?_ofName name r.level)
  | awaitedFragment number waiting kind oldest =>
    rw [oldest] at h
    rw [List.reverse_cons]
    exact h.awaited rfl
  | unreferencedFragment kind idle =>
    rw [idle] at h
    rw [List.reverse_cons]
    exact h.orphan rfl
  | fragmentClose waiting outer kind inner =>
    rw [inner] at h
    rw [List.reverse_cons]
    exact h.close rfl
  | targetedLink caption name kind fresh =>
    rw [List.reverse_cons]
    exact h.inert (Ident.auto?_ofName name r.level) rfl fun _ _ => rfl
  | autoLink caption kind =>
    rw [List.reverse_cons]
    exact h.link rfl rfl fun _ _ => rfl
  | text kind =>
    rw [List.reverse_cons]
    exact h.inert rfl rfl fun _ _ => rfl

end Resolution

theorem paired_of_resolve {source : String} {tokens : List Token} (h : resolve source tokens = .ok events) :
    ∃ queues auto unreferenced, Paired events queues auto unreferenced := by
  obtain ⟨r, hp, -, rfl⟩ := Resolution.resolve_reaches (P := fun _ r => r.Pairing)
    Resolution.pairing_start Resolution.pairing_step h
  rw [List.reverse_cons]
  exact ⟨_, _, _, hp.inert rfl rfl fun _ _ => rfl⟩

end Reveal
