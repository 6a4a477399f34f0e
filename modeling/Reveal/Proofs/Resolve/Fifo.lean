import Reveal.Proofs.Resolve.Pairing
/-!
# First come, first served

Links without target and fragments without a name as the source spells them, and how they are paired.
All of it is read off `Paired`: whoever takes a number takes the oldest one that waits in its scope.
-/
namespace Reveal

variable {events : List Event} {e : Event} {scope : Option Nat} {place other m n : Nat}

/-! ## Tokens and identifiers -/

/-- The target of a link, as it is spelled. -/
def Token.linkTarget? (t : Token) : Option (Option String) :=
  match t.kind with
  | .revealLink _ target => some target
  | _ => none

/-- The name of a fragment, as it is spelled. -/
def Token.openName? (t : Token) : Option (Option String) :=
  match t.kind with
  | .fragmentOpen name => some name
  | _ => none

/-- Links have a number exactly if they are spelled without a target, and fragments have a number or
are unreferenced exactly if they are spelled without a name. -/
structure NumberedIfUnnamed (tokens : List Token) (events : List Event) : Prop where
  links : List.Forall₂ (fun target id => target = none ↔ ∃ n, id = Ident.auto n)
    (tokens.filterMap Token.linkTarget?) (events.filterMap Event.opens?)
  fragments : List.Forall₂
    (fun name id => name = none ↔ (∃ n, id = Ident.auto n) ∨ ∃ n, id = Ident.unreferenced n)
    (tokens.filterMap Token.openName?) (events.filterMap Event.fragment?)

theorem Ident.ofName_ne_unreferenced (name : String) (level n : Nat) : Ident.ofName name level ≠ .unreferenced n := by
  unfold Ident.ofName
  split <;> simp

namespace NumberedIfUnnamed

variable {tokens : List Token} {more : List Event} {t : Token} {id : Ident}

theorem append (h : NumberedIfUnnamed tokens events) (hlinks : more.filterMap Event.opens? = [])
    (hfragments : more.filterMap Event.fragment? = []) : NumberedIfUnnamed tokens (events ++ more) where
  links := by simpa [hlinks] using h.links
  fragments := by simpa [hfragments] using h.fragments

theorem inert (h : NumberedIfUnnamed tokens events) (htarget : t.linkTarget? = none) (hname : t.openName? = none) :
    NumberedIfUnnamed (tokens ++ [t]) events where
  links := by simpa [htarget] using h.links
  fragments := by simpa [hname] using h.fragments

theorem link {caption : String} {target : Option String} (h : NumberedIfUnnamed tokens events)
    (hkind : t.kind = .revealLink caption target) (hopens : e.opens? = some id) (hopen : e.fragment? = none)
    (hspelled : target = none ↔ ∃ n, id = .auto n) : NumberedIfUnnamed (tokens ++ [t]) (events ++ [e]) where
  links := by simpa [Token.linkTarget?, hkind, hopens] using List.rel_append h.links (.cons hspelled .nil)
  fragments := by simpa [Token.openName?, hkind, hopen] using h.fragments

theorem fragment {name : Option String} (h : NumberedIfUnnamed tokens events) (hkind : t.kind = .fragmentOpen name)
    (hopen : e.fragment? = some id) (hopens : e.opens? = none)
    (hspelled : name = none ↔ (∃ n, id = .auto n) ∨ ∃ n, id = .unreferenced n) :
    NumberedIfUnnamed (tokens ++ [t]) (events ++ [e]) where
  links := by simpa [Token.linkTarget?, hkind, hopens] using h.links
  fragments := by simpa [Token.openName?, hkind, hopen] using List.rel_append h.fragments (.cons hspelled .nil)

theorem step {r r' : Resolution} {p : Position} (h : NumberedIfUnnamed tokens r.events)
    (hs : Resolution.Step r p t r') : NumberedIfUnnamed (tokens ++ [t]) r'.events := by
  unfold Resolution.events at h ⊢
  cases hs with
  | paragraph name kind inner =>
    rw [List.reverse_cons, List.reverse_cons, List.append_assoc]
    exact (h.inert (by simp [Token.linkTarget?, kind]) (by simp [Token.openName?, kind])).append rfl rfl
  | namedFragment name kind =>
    rw [List.reverse_cons]
    exact h.fragment kind rfl rfl (by simp [Ident.ofName_ne_auto, Ident.ofName_ne_unreferenced])
  | awaitedFragment number waiting kind oldest =>
    rw [List.reverse_cons]
    exact h.fragment kind rfl rfl (by simp)
  | unreferencedFragment kind idle =>
    rw [List.reverse_cons]
    exact h.fragment kind rfl rfl (by simp)
  | fragmentClose waiting outer kind inner =>
    rw [List.reverse_cons]
    exact (h.inert (by simp [Token.linkTarget?, kind]) (by simp [Token.openName?, kind])).append rfl rfl
  | targetedLink caption name kind fresh =>
    rw [List.reverse_cons]
    exact h.link kind rfl rfl (by simp [Ident.ofName_ne_auto])
  | autoLink caption kind =>
    rw [List.reverse_cons]
    exact h.link kind rfl rfl (by simp)
  | text kind =>
    rw [List.reverse_cons]
    exact (h.inert (by simp [Token.linkTarget?, kind]) (by simp [Token.openName?, kind])).append rfl rfl

end NumberedIfUnnamed

theorem numberedIfUnnamed_of_resolve {source : String} {tokens : List Token}
    (h : resolve source tokens = .ok events) : NumberedIfUnnamed tokens events := by
  obtain ⟨r, hs, -, rfl⟩ := Resolution.resolve_reaches (P := fun taken r => NumberedIfUnnamed taken r.events)
    ⟨.nil, .nil⟩ NumberedIfUnnamed.step h
  rw [List.reverse_cons]
  exact hs.append rfl rfl

/-! ## First come, first served -/

/-- How links without target and fragments without a name are paired. -/
structure Fifo (events : List Event) : Prop where
  /-- Links are numbered from 0 in their order. -/
  numbered : ∃ count, events.filterMap Event.linkNumber? = List.range count
  /-- A number is taken behind the link that has it, and in the scope of that link. -/
  follows : ∀ place n, TakenAt events place n →
    ∃ link < place, LinkAt events link n ∧ scopeAt events link = scopeAt events place
  once : ∀ place other n, TakenAt events place n → TakenAt events other n → place = other
  increasing : ∀ place other m n, place < other → scopeAt events place = scopeAt events other →
    TakenAt events place m → TakenAt events other n → m < n
  /-- No earlier link of the scope that still waits is passed over. -/
  oldest : ∀ place n, TakenAt events place n → ∀ link < place, ∀ m, LinkAt events link m →
    scopeAt events link = scopeAt events place → m < n → ∃ earlier < place, TakenAt events earlier m
  /-- Of the fragments without a name, those stay without a link before which all links of their scope
  have been taken. -/
  idle : ∀ place id, events[place]?.bind Event.fragment? = some id →
    (∃ n, id = .auto n) ∨ (∃ n, id = .unreferenced n) →
    ((∃ n, id = .unreferenced n) ↔ ∀ link < place, ∀ m, LinkAt events link m →
      scopeAt events link = scopeAt events place → ∃ earlier < place, TakenAt events earlier m)
  /-- Fragments without a link are numbered from 0 in their order. -/
  unreferenced : ∃ count, events.filterMap Event.unreferenced? = List.range count

theorem waits_take : Waits (events.take other) scope n ↔
    (∃ place < other, LinkAt events place n ∧ scopeAt events place = scope) ∧
      ∀ place < other, ¬ TakenAt events place n := by
  unfold Waits LinkAt TakenAt
  simp only [bind_take, not_and, and_assoc]
  refine and_congr_left fun _ => exists_congr fun place => and_congr_right fun hlt => ?_
  rw [scopeAt_take (Nat.le_of_lt hlt)]

namespace Paired

variable {queues : List (List Nat)} {auto unreferenced : Nat} (h : Paired events queues auto unreferenced)
include h

/-- What is fair to an event, in terms of all events. -/
theorem fair_at (he : events[place]? = some e) :
    (∀ n, e.taken? = some n → Waits (events.take place) (scopeAt events place) n ∧
      ∀ m, Waits (events.take place) (scopeAt events place) m → n ≤ m) ∧
    ∀ n, e.unreferenced? = some n → ∀ m, ¬ Waits (events.take place) (scopeAt events place) m := by
  have hlength : (events.take place).length = place := by
    rw [List.length_take, Nat.min_eq_left (Nat.le_of_lt (List.getElem?_eq_some_iff.1 he).1)]
  have hscope : scopeAt (events.take place) (events.take place).length = scopeAt events place := by
    rw [hlength, scopeAt_take (Nat.le_refl _)]
  obtain ⟨htaken, hidle⟩ := h.fair place e he
  rw [hscope] at htaken hidle
  exact ⟨htaken, hidle⟩

theorem waits_of_takenAt (ht : TakenAt events place n) : Waits (events.take place) (scopeAt events place) n ∧
    ∀ m, Waits (events.take place) (scopeAt events place) m → n ≤ m := by
  obtain ⟨e, he, htaken⟩ := Option.bind_eq_some_iff.1 ht
  exact (h.fair_at he).1 n htaken

theorem takenAt_unique (hp : TakenAt events place n) (ho : TakenAt events other n) : place = other := by
  have hnot : ∀ {place other}, TakenAt events place n → TakenAt events other n → ¬ place < other :=
    fun hp ho hlt => (waits_take.1 (h.waits_of_takenAt ho).1).2 _ hlt hp
  exact Nat.le_antisymm (Nat.not_lt.1 (hnot ho hp)) (Nat.not_lt.1 (hnot hp ho))

theorem takenAt_lt (hlt : place < other) (hscope : scopeAt events place = scopeAt events other)
    (hm : TakenAt events place m) (hn : TakenAt events other n) : m < n := by
  obtain ⟨⟨link, hlink, hnumber, hsame⟩, huntaken⟩ := waits_take.1 (h.waits_of_takenAt hn).1
  obtain ⟨⟨link', hlink', hnumber', -⟩, -⟩ := waits_take.1 (h.waits_of_takenAt hm).1
  have hne : m ≠ n := by
    rintro rfl
    exact huntaken place hlt hm
  by_contra hge
  -- The link of the smaller number stands before the other one, so it was there to be taken first.
  have hbefore : link < place := by
    by_contra hle
    have := linkAt_lt h.sorted hnumber' hnumber (by omega)
    omega
  have hwaits : Waits (events.take place) (scopeAt events place) n :=
    waits_take.2 ⟨⟨link, hbefore, hnumber, hsame.trans hscope.symm⟩,
      fun earlier hearlier => huntaken earlier (Nat.lt_trans hearlier hlt)⟩
  have := (h.waits_of_takenAt hm).2 n hwaits
  omega

theorem takenAt_of_linkAt_lt {link : Nat} (ht : TakenAt events place n) (hlink : link < place)
    (hnumber : LinkAt events link m) (hscope : scopeAt events link = scopeAt events place) (hlt : m < n) :
    ∃ earlier < place, TakenAt events earlier m := by
  by_contra hnone
  have hwaits : Waits (events.take place) (scopeAt events place) m :=
    waits_take.2 ⟨⟨link, hlink, hnumber, hscope⟩, fun earlier he ht => hnone ⟨earlier, he, ht⟩⟩
  have := (h.waits_of_takenAt ht).2 m hwaits
  omega

theorem unreferenced_iff {id : Ident} (hopen : events[place]?.bind Event.fragment? = some id)
    (hid : (∃ n, id = .auto n) ∨ ∃ n, id = .unreferenced n) :
    (∃ n, id = .unreferenced n) ↔ ∀ link < place, ∀ m, LinkAt events link m →
      scopeAt events link = scopeAt events place → ∃ earlier < place, TakenAt events earlier m := by
  obtain ⟨e, he, hfragment⟩ := Option.bind_eq_some_iff.1 hopen
  constructor
  · rintro ⟨n, rfl⟩ link hlink m hnumber hscope
    by_contra hnone
    refine (h.fair_at he).2 n (by simp [Event.unreferenced?, hfragment, Ident.unreferenced?]) m (waits_take.2 ?_)
    exact ⟨⟨link, hlink, hnumber, hscope⟩, fun earlier hearlier ht => hnone ⟨earlier, hearlier, ht⟩⟩
  · intro hall
    rcases hid with ⟨n, rfl⟩ | hid
    · have htaken : e.taken? = some n := by simp [Event.taken?, hfragment, Ident.auto?]
      obtain ⟨⟨link, hlink, hnumber, hscope⟩, huntaken⟩ := waits_take.1 ((h.fair_at he).1 n htaken).1
      obtain ⟨earlier, hearlier, ht⟩ := hall link hlink n hnumber hscope
      exact absurd ht (huntaken earlier hearlier)
    · exact hid

theorem fifo : Fifo events where
  numbered := ⟨auto, h.links⟩
  follows _ _ ht := (waits_take.1 (h.waits_of_takenAt ht).1).1
  once _ _ _ := h.takenAt_unique
  increasing _ _ _ _ := h.takenAt_lt
  oldest _ _ ht _ hlink _ := h.takenAt_of_linkAt_lt ht hlink
  idle _ _ := h.unreferenced_iff
  unreferenced := ⟨unreferenced, h.orphans⟩

end Paired

/-- Wherever a source resolves, its links without target and its fragments without a name are paired
scope by scope, first come, first served. -/
theorem resolve_fifo {source : String} (h : resolve source (tokenize source) = .ok events) :
    NumberedIfUnnamed (tokenize source) events ∧ Fifo events := by
  obtain ⟨queues, auto, unreferenced, hp⟩ := paired_of_resolve h
  exact ⟨numberedIfUnnamed_of_resolve h, hp.fifo⟩

/-- The first fragment belongs to the first of two links and has a pair of its own inside; the second
link's fragment comes behind it, and the last fragment finds nothing. -/
theorem resolve_fifo_nested :
    ∃ events, resolve "[a][b]\x7b[c]\x7bd\x7d\x7d\x7be\x7d\x7bf\x7d"
        (tokenize "[a][b]\x7b[c]\x7bd\x7d\x7d\x7be\x7d\x7bf\x7d") = .ok events ∧
      (NumberedIfUnnamed (tokenize "[a][b]\x7b[c]\x7bd\x7d\x7d\x7be\x7d\x7bf\x7d") events ∧ Fifo events) ∧
      events.filterMap Event.fragment? = [.auto 0, .auto 2, .auto 1, .unreferenced 0] := by
  obtain ⟨events, hevents, hfragments⟩ : ∃ events, resolve "[a][b]\x7b[c]\x7bd\x7d\x7d\x7be\x7d\x7bf\x7d"
      (tokenize "[a][b]\x7b[c]\x7bd\x7d\x7d\x7be\x7d\x7bf\x7d") = .ok events ∧
        events.filterMap Event.fragment? = [.auto 0, .auto 2, .auto 1, .unreferenced 0] := by decide +kernel
  exact ⟨events, hevents, resolve_fifo hevents, hfragments⟩

end Reveal
