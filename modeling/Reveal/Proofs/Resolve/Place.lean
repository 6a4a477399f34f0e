import Reveal.Proofs.Cascade.Descendants
/-!
# Which event stands for a token

Every token makes one event, but for the mark of a paragraph, which makes two: it closes the paragraph
before. So the place of a token's event is known from the tokens alone (`eventPlace`), and the event
tells what the token spells (`StandsFor`). With this a link can be followed from the source to the
paragraph it names (`link_opens_paragraph`).
-/
namespace Reveal

open Resolution (paragraphIdent)

/-! ## Tokens and their events -/

def Token.isParagraph (t : Token) : Bool :=
  match t.kind with
  | .paragraph _ => true
  | _ => false

/-- The place of the event that stands for the token of an index. One event stands before all tokens,
and each mark of a paragraph, that of the index included, adds one that closes the paragraph before. -/
def eventPlace (tokens : List Token) (index : Nat) : Nat :=
  1 + index + (tokens.take (index + 1)).countP Token.isParagraph

/-- The event spells what the token does. Names that are spelled out are read at some depth. -/
inductive StandsFor (t : Token) : Event → Prop
  | paragraph (p : Position) (c : Chain) (name : Option String) (kind : t.kind = .paragraph name) :
    StandsFor t ⟨p, c.push (paragraphIdent name), .paragraphOpen (paragraphIdent name)⟩
  | namedFragment (p : Position) (c : Chain) (name : String) (depth : Nat)
      (kind : t.kind = .fragmentOpen (some name)) :
    StandsFor t ⟨p, c.push (.ofName name depth), .fragmentOpen (.ofName name depth)⟩
  | fragment (p : Position) (c : Chain) (id : Ident) (kind : t.kind = .fragmentOpen none) :
    StandsFor t ⟨p, c.push id, .fragmentOpen id⟩
  | fragmentClose (p : Position) (c : Chain) (kind : t.kind = .fragmentClose) :
    StandsFor t ⟨p, c, .fragmentClose⟩
  | targetedLink (p : Position) (c : Chain) (caption name : String) (depth : Nat) (descendants : List Ident)
      (kind : t.kind = .revealLink caption (some name)) :
    StandsFor t ⟨p, c, .revealLink (.ofName name depth) (Prose.render caption) caption descendants⟩
  | autoLink (p : Position) (c : Chain) (caption : String) (number : Nat) (descendants : List Ident)
      (kind : t.kind = .revealLink caption none) :
    StandsFor t ⟨p, c, .revealLink (.auto number) (Prose.render caption) caption descendants⟩
  | text (p : Position) (c : Chain) (kind : t.kind = .text) :
    StandsFor t ⟨p, c, .text (Prose.render t.text) t.text⟩

/-- Every token has its event where it should be. -/
structure Placed (tokens : List Token) (events : List Event) : Prop where
  length : events.length = 1 + tokens.length + tokens.countP Token.isParagraph
  stands : ∀ i t, tokens[i]? = some t → ∃ e, events[eventPlace tokens i]? = some e ∧ StandsFor t e

namespace Placed

variable {tokens : List Token} {events more : List Event} {t : Token} {e : Event}

theorem eventPlace_append {i : Nat} (h : i < tokens.length) (more : List Token) :
    eventPlace (tokens ++ more) i = eventPlace tokens i := by
  rw [eventPlace, eventPlace, List.take_append_of_le_length h]

theorem eventPlace_length (tokens : List Token) (t : Token) :
    eventPlace (tokens ++ [t]) tokens.length =
      1 + tokens.length + tokens.countP Token.isParagraph + [t].countP Token.isParagraph := by
  rw [eventPlace, List.take_of_length_le (by simp), List.countP_append]
  omega

/-- The last of the events that a token makes stands for it. -/
theorem concat (h : Placed tokens events) (hlength : more.length = 1 + [t].countP Token.isParagraph)
    (hlast : more[[t].countP Token.isParagraph]? = some e) (he : StandsFor t e) :
    Placed (tokens ++ [t]) (events ++ more) where
  length := by
    rw [List.length_append, h.length, hlength, List.countP_append, List.length_append, List.length_singleton]
    omega
  stands i u hu := by
    rcases Nat.lt_trichotomy i tokens.length with hlt | rfl | hlt
    · rw [List.getElem?_append_left hlt] at hu
      obtain ⟨e', he', hstands⟩ := h.stands i u hu
      have hplace := (List.getElem?_eq_some_iff.1 he').1
      exact ⟨e', by rwa [eventPlace_append hlt, List.getElem?_append_left hplace], hstands⟩
    · rw [List.getElem?_concat_length, Option.some.injEq] at hu
      subst hu
      refine ⟨e, ?_, he⟩
      rw [eventPlace_length, ← h.length, List.getElem?_append_right (Nat.le_add_right _ _), Nat.add_sub_cancel_left]
      exact hlast
    · rw [List.getElem?_eq_none (by simp; omega)] at hu
      cases hu

/-- A token that is no mark of a paragraph makes one event. -/
theorem single {es : List Event} (h : Placed tokens es.reverse) (ht : t.isParagraph = false) (he : StandsFor t e) :
    Placed (tokens ++ [t]) (e :: es).reverse := by
  have hcount : [t].countP Token.isParagraph = 0 := by simp [ht]
  rw [List.reverse_cons]
  exact h.concat (by rw [hcount]; rfl) (by rw [hcount]; rfl) he

theorem step {r r' : Resolution} {p : Position} (h : Placed tokens r.events) (hs : Resolution.Step r p t r') :
    Placed (tokens ++ [t]) r'.events := by
  cases hs with
  | paragraph name kind inner =>
    have hcount : [t].countP Token.isParagraph = 1 := by simp [Token.isParagraph, kind]
    rw [Resolution.events, List.reverse_cons, List.reverse_cons, List.append_assoc]
    exact h.concat (by rw [hcount]; rfl) (by rw [hcount]; rfl) (.paragraph p _ name kind)
  | namedFragment name kind =>
    exact h.single (by simp [Token.isParagraph, kind]) (.namedFragment p _ name r.level kind)
  | awaitedFragment number waiting kind oldest =>
    exact h.single (by simp [Token.isParagraph, kind]) (.fragment p _ _ kind)
  | unreferencedFragment kind idle =>
    exact h.single (by simp [Token.isParagraph, kind]) (.fragment p _ _ kind)
  | fragmentClose waiting outer kind inner =>
    exact h.single (by simp [Token.isParagraph, kind]) (.fragmentClose p _ kind)
  | targetedLink caption name kind fresh =>
    exact h.single (by simp [Token.isParagraph, kind]) (.targetedLink p _ caption name r.level [] kind)
  | autoLink caption kind =>
    exact h.single (by simp [Token.isParagraph, kind]) (.autoLink p _ caption r.nextAuto [] kind)
  | text kind => exact h.single (by simp [Token.isParagraph, kind]) (.text p _ kind)

end Placed

variable {source : String} {d : Document} {t : Token} {i j : Nat}

/-- Filling in what links reveal leaves alone what the source spells. -/
theorem StandsFor.withDescendants {e : Event} (h : StandsFor t e) (descendants : List Ident) :
    StandsFor t (e.withDescendants descendants) := by
  cases h with
  | paragraph p c name kind => exact .paragraph p c name kind
  | namedFragment p c name depth kind => exact .namedFragment p c name depth kind
  | fragment p c id kind => exact .fragment p c id kind
  | fragmentClose p c kind => exact .fragmentClose p c kind
  | targetedLink p c caption name depth _ kind => exact .targetedLink p c caption name depth descendants kind
  | autoLink p c caption number _ kind => exact .autoLink p c caption number descendants kind
  | text p c kind => exact .text p c kind

theorem exists_standsFor_of_resolve {tokens : List Token} {events : List Event}
    (h : resolve source tokens = .ok events) (ht : tokens[i]? = some t) :
    ∃ e, events[eventPlace tokens i]? = some e ∧ StandsFor t e := by
  obtain ⟨r, hplaced, -, rfl⟩ := Resolution.resolve_reaches (P := fun taken r => Placed taken r.events)
    ⟨rfl, by simp⟩ Placed.step h
  obtain ⟨e, he, hstands⟩ := hplaced.stands i t ht
  have hplace := (List.getElem?_eq_some_iff.1 he).1
  refine ⟨e, ?_, hstands⟩
  rw [List.reverse_cons]
  exact (List.getElem?_append_left hplace).trans he

/-- In a document every token of the source has its event. -/
theorem exists_standsFor (h : parse source = .ok d) (ht : (tokenize source)[i]? = some t) :
    ∃ e, d.events[eventPlace (tokenize source) i]? = some e ∧ StandsFor t e := by
  obtain ⟨events, hr, -, rfl⟩ := parse_eq_ok_iff.1 h
  obtain ⟨e, he, hstands⟩ := exists_standsFor_of_resolve hr ht
  refine ⟨_, ?_, hstands.withDescendants (Cascade.reveals events e)⟩
  rw [Cascade.fill_eq_map, List.getElem?_map, he]
  rfl

/-! ## Links that name a paragraph -/

theorem Ident.ofName_of_numberOf?_eq_none {name : String} (h : Ident.numberOf? name = none) (depth : Nat) :
    Ident.ofName name depth = .named name := by
  rw [Ident.ofName, h]

theorem StandsFor.link_kind {e : Event} {caption name : String} (h : StandsFor t e)
    (hkind : t.kind = .revealLink caption (some name)) :
    ∃ depth descendants, e.kind = .revealLink (.ofName name depth) (Prose.render caption) caption descendants := by
  cases h <;> simp_all

theorem StandsFor.paragraph_kind {e : Event} {name : String} (h : StandsFor t e)
    (hkind : t.kind = .paragraph (some name)) :
    e.kind = .paragraphOpen (.named name) ∧ .named name ∈ e.chain.toList := by
  cases h <;> simp_all [paragraphIdent]

/-- A link reveals what it opens, if this opens on its own chain. -/
theorem mem_descendants {e link : Event} {id : Ident} {caption text : String} {descendants : List Ident}
    (h : parse source = .ok d) (hlink : link ∈ d.events) (hkind : link.kind = .revealLink id caption text descendants)
    (he : e ∈ d.events) (hopened : e.openedBy? = some id) (hchain : id ∈ e.chain.toList) : id ∈ descendants := by
  obtain ⟨events, hr, hevents, rfl⟩ := exists_descendantsOf h hlink hkind
  rw [hevents] at he
  have hclosed := Cascade.closed_fill.2 (Cascade.descendantsOf_least (Cascade.grounded_of_resolve hr) id).1
  exact (hclosed id (.inl rfl) e he hchain).2 id hopened

/-- A link with a target opens the paragraphs of that name, and reveals them. Names that are numbers are
left out: they count at one depth only, so that links to one number can open different things. -/
theorem link_opens_paragraph {caption name : String} (h : parse source = .ok d)
    (hlink : (tokenize source)[i]?.map Token.kind = some (.revealLink caption (some name)))
    (hmark : (tokenize source)[j]?.map Token.kind = some (.paragraph (some name)))
    (hname : Ident.numberOf? name = none) :
    ∃ link mark id descendants,
      d.events[eventPlace (tokenize source) i]? = some link ∧
      d.events[eventPlace (tokenize source) j]? = some mark ∧
      link.kind = .revealLink id (Prose.render caption) caption descendants ∧
      mark.kind = .paragraphOpen id ∧ id ∈ descendants := by
  obtain ⟨t, ht, htkind⟩ := Option.map_eq_some_iff.1 hlink
  obtain ⟨u, hu, hukind⟩ := Option.map_eq_some_iff.1 hmark
  obtain ⟨link, hlinkAt, hlinkFor⟩ := exists_standsFor h ht
  obtain ⟨mark, hmarkAt, hmarkFor⟩ := exists_standsFor h hu
  obtain ⟨depth, descendants, hlinkKind⟩ := hlinkFor.link_kind htkind
  obtain ⟨hmarkKind, hchain⟩ := hmarkFor.paragraph_kind hukind
  rw [Ident.ofName_of_numberOf?_eq_none hname] at hlinkKind
  have hopened : mark.openedBy? = some (.named name) := by simp [Event.openedBy?, hmarkKind]
  have hmem := mem_descendants h (List.mem_of_getElem? hlinkAt) hlinkKind (List.mem_of_getElem? hmarkAt) hopened hchain
  exact ⟨link, mark, .named name, descendants, hlinkAt, hmarkAt, hlinkKind, hmarkKind, hmem⟩

/-- Digits that are too many for a number name a paragraph like any other name. -/
theorem link_opens_paragraph_huge :
    ∃ d, parse "[x]#18446744073709551616\x7by\x7d>18446744073709551616 z" = .ok d ∧
      Ident.numberOf? "18446744073709551616" = none ∧
      ∃ link mark id descendants,
        d.events[eventPlace (tokenize "[x]#18446744073709551616\x7by\x7d>18446744073709551616 z") 0]? = some link ∧
        d.events[eventPlace (tokenize "[x]#18446744073709551616\x7by\x7d>18446744073709551616 z") 4]? = some mark ∧
        link.kind = .revealLink id (Prose.render "x") "x" descendants ∧
        mark.kind = .paragraphOpen id ∧ id ∈ descendants := by
  obtain ⟨d, hd, hlink⟩ : ∃ d, parse "[x]#18446744073709551616\x7by\x7d>18446744073709551616 z" = .ok d ∧
      (tokenize "[x]#18446744073709551616\x7by\x7d>18446744073709551616 z")[0]?.map Token.kind =
        some (.revealLink "x" (some "18446744073709551616")) := by decide +kernel
  have hname : Ident.numberOf? "18446744073709551616" = none := by decide +kernel
  exact ⟨d, hd, hname, link_opens_paragraph (j := 4) hd hlink (by decide +kernel) hname⟩

/-- Two links to one number and a paragraph that is named by it: the links open fragments, each at its
own depth, so they cannot both open the paragraph, and neither does. -/
theorem numbered_links_open_no_paragraph :
    ∃ d, parse "[x]#1\x7b[y]#1\x7d>1 z" = .ok d ∧
      (tokenize "[x]#1\x7b[y]#1\x7d>1 z").map Token.kind =
        [.revealLink "x" (some "1"), .fragmentOpen none, .revealLink "y" (some "1"), .fragmentClose,
          .paragraph (some "1"), .text] ∧
      ∃ link inner mark,
        d.events[eventPlace (tokenize "[x]#1\x7b[y]#1\x7d>1 z") 0]? = some link ∧
        d.events[eventPlace (tokenize "[x]#1\x7b[y]#1\x7d>1 z") 2]? = some inner ∧
        d.events[eventPlace (tokenize "[x]#1\x7b[y]#1\x7d>1 z") 4]? = some mark ∧
        link.opens? = some (.numbered 0 1) ∧ inner.opens? = some (.numbered 1 1) ∧
        mark.openedBy? = some (.named "1") ∧
        link.opens? ≠ mark.openedBy? ∧ inner.opens? ≠ mark.openedBy? := by
  obtain ⟨d, hd, hlink, hinner, hmark⟩ : ∃ d, parse "[x]#1\x7b[y]#1\x7d>1 z" = .ok d ∧
      d.events[eventPlace (tokenize "[x]#1\x7b[y]#1\x7d>1 z") 0]?.bind Event.opens? = some (.numbered 0 1) ∧
      d.events[eventPlace (tokenize "[x]#1\x7b[y]#1\x7d>1 z") 2]?.bind Event.opens? = some (.numbered 1 1) ∧
      d.events[eventPlace (tokenize "[x]#1\x7b[y]#1\x7d>1 z") 4]?.bind Event.openedBy? = some (.named "1") := by
    decide +kernel
  obtain ⟨link, hlinkAt, hlink⟩ := Option.bind_eq_some_iff.1 hlink
  obtain ⟨inner, hinnerAt, hinner⟩ := Option.bind_eq_some_iff.1 hinner
  obtain ⟨mark, hmarkAt, hmark⟩ := Option.bind_eq_some_iff.1 hmark
  refine ⟨d, hd, by decide +kernel, link, inner, mark, hlinkAt, hinnerAt, hmarkAt, hlink, hinner, hmark, ?_, ?_⟩
  · simp [hlink, hmark]
  · simp [hinner, hmark]

end Reveal
