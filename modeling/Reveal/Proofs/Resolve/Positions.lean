import Mathlib.Data.List.Forall2
import Reveal.Proofs.LineMap
import Reveal.Proofs.Resolve.Place
import Reveal.Proofs.Token.Span
/-!
# Events in the order of the source

A step of the resolution adds the events of one token, all at the position of that token (`Step.makes`).
So the events between the first and the last fall into blocks, one for each token (`Laid`). Reading on
never leads back: behind a text that is not empty every position is a later one (`lt_after`), and no token
is empty. So the positions of a document's events never decrease, and increase from one token to the
next (`events_follow_source`).
-/
namespace Reveal

/-! ## Earlier and later -/

namespace Position

/-- In an earlier line, or in the same line further to the left. -/
instance : LT Position where
  lt p q := p.line < q.line ∨ p.line = q.line ∧ p.column < q.column

/-- In an earlier line, or in the same line and not further to the right. -/
instance : LE Position where
  le p q := p.line < q.line ∨ p.line = q.line ∧ p.column ≤ q.column

variable {p q r : Position} {s : List Char}

theorem lt_iff : p < q ↔ p.line < q.line ∨ p.line = q.line ∧ p.column < q.column := Iff.rfl

theorem le_refl (p : Position) : p ≤ p := .inr ⟨rfl, Nat.le_refl _⟩

theorem le_of_lt (h : p < q) : p ≤ q :=
  h.imp_right fun h => ⟨h.1, Nat.le_of_lt h.2⟩

theorem lt_trans (hpq : p < q) (hqr : q < r) : p < r := by
  rw [lt_iff] at *
  omega

theorem lt_next (p : Position) (c : Char) : p < p.next c := by
  unfold next
  split
  · exact .inl (Nat.lt_succ_self _)
  · exact .inr ⟨rfl, Nat.lt_succ_self _⟩

/-- Reading on leads to a later position. -/
theorem lt_after (p : Position) (h : s ≠ []) : p < p.after s := by
  induction s generalizing p with
  | nil => exact absurd rfl h
  | cons c s ih =>
    cases s with
    | nil => exact p.lt_next c
    | cons d s => exact lt_trans (p.lt_next c) (ih (p.next c) (List.cons_ne_nil d s))

theorem le_after (p : Position) (s : List Char) : p ≤ p.after s := by
  cases s with
  | nil => exact p.le_refl
  | cons c s => exact le_of_lt (p.lt_after (List.cons_ne_nil c s))

end Position

namespace Token

variable {tokens : List Token} {i j : Nat}

/-- From one token to a later one, the position moves on by what stands between them. -/
theorem positionOf_eq_after (tokens : List Token) (h : i ≤ j) :
    positionOf tokens j = (positionOf tokens i).after (chars ((tokens.take j).drop i)) := by
  have hsplit : tokens.take j = tokens.take i ++ (tokens.take j).drop i := by
    conv => lhs; rw [← List.take_append_drop i (tokens.take j), List.take_take, Nat.min_eq_left h]
  rw [positionOf, positionOf, foldl_after, foldl_after, ← Position.after_append, ← chars_append, ← hsplit]

theorem positionOf_le (tokens : List Token) (h : i ≤ j) : positionOf tokens i ≤ positionOf tokens j := by
  rw [positionOf_eq_after tokens h]
  exact Position.le_after ..

/-- Where no token is empty, a later token has a later position. -/
theorem positionOf_lt (htokens : ∀ t ∈ tokens, t.text ≠ "") (hi : i < tokens.length) (hij : i < j) :
    positionOf tokens i < positionOf tokens j := by
  rw [positionOf_eq_after tokens (Nat.le_of_lt hij)]
  refine Position.lt_after _ fun hnil => ?_
  have hmem : tokens[i] ∈ (tokens.take j).drop i := by
    rw [List.mem_iff_getElem]
    exact ⟨0, by simp; omega, by simp⟩
  have htext : tokens[i].text.toList = [] := List.flatMap_eq_nil_iff.1 hnil _ hmem
  exact htokens _ (List.getElem_mem hi) (String.toList_eq_nil_iff.1 htext)

end Token

/-! ## The events of a token -/

/-- The events that a token makes at a position: one that stands for it, and in front of it, where a
paragraph starts, one that closes the paragraph before. -/
inductive Makes (t : Token) (p : Position) : List Event → Prop
  | single {e : Event} (other : t.isParagraph = false) (stands : StandsFor t e) (place : e.position = p) :
    Makes t p [e]
  | paragraph {closing e : Event} (mark : t.isParagraph = true) (closes : closing.kind = .paragraphClose)
      (behind : closing.position = p) (stands : StandsFor t e) (place : e.position = p) :
    Makes t p [closing, e]

variable {source : String} {lines : LineMap} {tokens : List Token} {t : Token} {p : Position} {d : Document} {i : Nat}
  {first last e : Event} {events block : List Event} {blocks : List (List Event)}

namespace Makes

theorem position (h : Makes t p block) : ∀ e ∈ block, e.position = p := by
  cases h with
  | single _ _ place => exact List.forall_mem_singleton.2 place
  | paragraph _ _ behind _ place => exact List.forall_mem_cons.2 ⟨behind, List.forall_mem_singleton.2 place⟩

theorem length (h : Makes t p block) : block.length = 1 + if t.isParagraph then 1 else 0 := by
  cases h with
  | single other => simp [other]
  | paragraph mark => simp [mark]

theorem withDescendants (h : Makes t p block) (descendants : Event → List Ident) :
    Makes t p (block.map fun e => e.withDescendants (descendants e)) := by
  cases h with
  | single other stands place => exact .single other (stands.withDescendants _) (by simpa using place)
  | @paragraph closing e mark closes behind stands place =>
    have hclosing : closing.withDescendants (descendants closing) = closing :=
      Event.withDescendants_of_opens?_eq_none _ (by simp [Event.opens?, closes])
    rw [List.map_cons, hclosing, List.map_singleton]
    exact .paragraph mark closes behind (stands.withDescendants _) (by simpa using place)

end Makes

/-- A step adds the events of its token. -/
theorem Resolution.Step.makes {r r' : Resolution} (h : Step r p t r') :
    ∃ block, r'.events = r.events ++ block ∧ Makes t p block := by
  have hsingle : ∀ {e}, t.isParagraph = false → StandsFor t e → e.position = p →
      ∃ block, (e :: r.emitted).reverse = r.events ++ block ∧ Makes t p block :=
    fun other stands place => ⟨_, List.reverse_cons, .single other stands place⟩
  cases h with
  | paragraph name kind inner =>
    refine ⟨[⟨p, r.chain.parent, .paragraphClose⟩, _], by simp [events],
      .paragraph (by simp [Token.isParagraph, kind]) rfl rfl (.paragraph p r.chain.parent name kind) rfl⟩
  | namedFragment name kind =>
    exact hsingle (by simp [Token.isParagraph, kind]) (.namedFragment p _ name r.level kind) rfl
  | awaitedFragment number waiting kind oldest =>
    exact hsingle (by simp [Token.isParagraph, kind]) (.fragment p _ _ kind) rfl
  | unreferencedFragment kind idle => exact hsingle (by simp [Token.isParagraph, kind]) (.fragment p _ _ kind) rfl
  | fragmentClose waiting outer kind inner =>
    exact hsingle (by simp [Token.isParagraph, kind]) (.fragmentClose p _ kind) rfl
  | targetedLink caption name kind fresh =>
    exact hsingle (by simp [Token.isParagraph, kind]) (.targetedLink p _ caption name r.level [] kind) rfl
  | autoLink caption kind =>
    exact hsingle (by simp [Token.isParagraph, kind]) (.autoLink p _ caption r.nextAuto [] kind) rfl
  | text kind => exact hsingle (by simp [Token.isParagraph, kind]) (.text p _ kind) rfl

/-! ## Blocks of events -/

/-- `Laid lines tokens events first blocks last`: behind the first event come those of the tokens, a block
for each of them, and the last event closes the last paragraph. -/
structure Laid (lines : LineMap) (tokens : List Token) (events : List Event) (first : Event)
    (blocks : List (List Event)) (last : Event) : Prop where
  events_eq : events = first :: (blocks.flatten ++ [last])
  first_opens : first.kind = .paragraphOpen .anonymous
  first_position : first.position = .start
  last_closes : last.kind = .paragraphClose
  last_position : last.position = lines.stop
  makes : List.Forall₂ (fun t block => Makes t (lines.position t.start) block) tokens blocks

/-- The events so far are the first one and those of the tokens taken. -/
def InBlocks (lines : LineMap) (taken : List Token) (r : Resolution) : Prop :=
  ∃ blocks, r.events = ⟨.start, .empty, .paragraphOpen .anonymous⟩ :: blocks.flatten ∧
    List.Forall₂ (fun t block => Makes t (lines.position t.start) block) taken blocks

theorem InBlocks.step {taken : List Token} {r r' : Resolution} (h : InBlocks lines taken r)
    (hs : Resolution.Step r (lines.position t.start) t r') : InBlocks lines (taken ++ [t]) r' := by
  obtain ⟨blocks, hevents, hmakes⟩ := h
  obtain ⟨block, happend, hblock⟩ := hs.makes
  refine ⟨blocks ++ [block], ?_, List.rel_append hmakes (.cons hblock .nil)⟩
  rw [happend, hevents]
  simp

theorem exists_laid_of_resolve (h : resolve source tokens = .ok events) :
    ∃ first blocks last, Laid (LineMap.ofString source) tokens events first blocks last := by
  obtain ⟨r, ⟨blocks, hevents, hmakes⟩, -, rfl⟩ := Resolution.resolve_reaches
    (P := InBlocks (LineMap.ofString source)) ⟨[], rfl, .nil⟩ InBlocks.step h
  refine ⟨⟨.start, .empty, .paragraphOpen .anonymous⟩, blocks,
    ⟨(LineMap.ofString source).stop, r.chain.parent, .paragraphClose⟩, ?_, rfl, rfl, rfl, rfl, hmakes⟩
  rw [List.reverse_cons]
  exact congrArg (· ++ [_]) hevents

/-- What links reveal moves no event. -/
theorem Laid.withDescendants (h : Laid lines tokens events first blocks last) (descendants : Event → List Ident) :
    ∃ first blocks last,
      Laid lines tokens (events.map fun e => e.withDescendants (descendants e)) first blocks last := by
  have hinert : ∀ e : Event, e.opens? = none → e.withDescendants (descendants e) = e :=
    fun e => Event.withDescendants_of_opens?_eq_none _
  have hfirst := hinert first (by simp [Event.opens?, h.first_opens])
  have hlast := hinert last (by simp [Event.opens?, h.last_closes])
  refine ⟨first, blocks.map (List.map fun e => e.withDescendants (descendants e)), last, ?_, h.first_opens,
    h.first_position, h.last_closes, h.last_position, ?_⟩
  · rw [h.events_eq, List.map_cons, List.map_append, List.map_flatten, List.map_singleton, hfirst, hlast]
  · exact List.forall₂_map_right_iff.2 (h.makes.imp fun t block hblock => hblock.withDescendants descendants)

theorem exists_laid (h : parse source = .ok d) :
    ∃ first blocks last, Laid (LineMap.ofString source) (tokenize source) d.events first blocks last := by
  obtain ⟨events, hr, -, rfl⟩ := parse_eq_ok_iff.1 h
  obtain ⟨first, blocks, last, hlaid⟩ := exists_laid_of_resolve hr
  rw [Cascade.fill_eq_map]
  exact hlaid.withDescendants _

theorem length_flatten_blocks {place : Token → Position}
    (h : List.Forall₂ (fun t block => Makes t (place t) block) tokens blocks) :
    blocks.flatten.length = tokens.length + tokens.countP Token.isParagraph := by
  induction h with
  | nil => rfl
  | @cons t block tokens blocks hblock _ ih =>
    rw [List.flatten_cons, List.length_append, hblock.length, ih, List.length_cons, List.countP_cons]
    omega

theorem exists_mem_getElem (h : e ∈ blocks.flatten) : ∃ i, ∃ hi : i < blocks.length, e ∈ blocks[i] := by
  obtain ⟨block, hblock, he⟩ := List.mem_flatten.1 h
  obtain ⟨i, hi, rfl⟩ := List.getElem_of_mem hblock
  exact ⟨i, hi, he⟩

namespace Laid

theorem length_events (h : Laid lines tokens events first blocks last) :
    events.length = tokens.length + tokens.countP Token.isParagraph + 2 := by
  rw [h.events_eq, List.length_cons, List.length_append, length_flatten_blocks h.makes, List.length_singleton]

variable (h : Laid (LineMap.ofString source) (tokenize source) events first blocks last)
include h

/-- The events of a token are at the position that is counted off the tokens before it. -/
theorem makes_at (ht : (tokenize source)[i]? = some t) (hblock : blocks[i]? = some block) :
    Makes t (Token.positionOf (tokenize source) i) block := by
  rw [positionOf_eq_position ht]
  obtain ⟨hi, rfl⟩ := List.getElem?_eq_some_iff.1 ht
  obtain ⟨hi', rfl⟩ := List.getElem?_eq_some_iff.1 hblock
  exact h.makes.get hi hi'

theorem position_of_mem (hi : i < blocks.length) :
    ∀ e ∈ blocks[i], e.position = Token.positionOf (tokenize source) i := by
  have hi' : i < (tokenize source).length := by rwa [h.makes.length_eq]
  exact (h.makes_at (List.getElem?_eq_getElem hi') (List.getElem?_eq_getElem hi)).position

theorem blocks_lt : blocks.Pairwise fun block block' => ∀ e ∈ block, ∀ e' ∈ block', e.position < e'.position := by
  rw [List.pairwise_iff_getElem]
  intro i j hi hj hij e he e' he'
  rw [h.position_of_mem hi e he, h.position_of_mem hj e' he']
  exact Token.positionOf_lt (fun t => text_ne_empty_of_mem_tokenize) (by rwa [h.makes.length_eq]) hij

theorem first_le : ∀ e ∈ blocks.flatten ++ [last], first.position ≤ e.position := by
  rw [h.first_position]
  refine List.forall_mem_append.2 ⟨fun e he => ?_, List.forall_mem_singleton.2 ?_⟩
  · obtain ⟨i, hi, he⟩ := exists_mem_getElem he
    rw [h.position_of_mem hi e he]
    exact Token.positionOf_le _ (Nat.zero_le i)
  · rw [h.last_position, ← positionOf_eq_stop (Nat.le_refl _)]
    exact Token.positionOf_le _ (Nat.zero_le _)

theorem le_last : ∀ e ∈ blocks.flatten, e.position ≤ last.position := by
  intro e he
  obtain ⟨i, hi, he⟩ := exists_mem_getElem he
  rw [h.position_of_mem hi e he, h.last_position, ← positionOf_eq_stop (Nat.le_refl _), h.makes.length_eq]
  exact Token.positionOf_le _ (Nat.le_of_lt hi)

theorem events_le : events.Pairwise fun e e' => e.position ≤ e'.position := by
  have hblock : ∀ block ∈ blocks, block.Pairwise fun e e' => e.position ≤ e'.position := by
    intro block hblock
    obtain ⟨i, hi, rfl⟩ := List.getElem_of_mem hblock
    refine List.pairwise_of_forall_mem_list fun e he e' he' => ?_
    rw [h.position_of_mem hi e he, h.position_of_mem hi e' he']
    exact Position.le_refl _
  have hblocks := h.blocks_lt.imp fun hlt e he e' he' => Position.le_of_lt (hlt e he e' he')
  rw [h.events_eq, List.pairwise_cons, List.pairwise_append, List.pairwise_flatten]
  refine ⟨h.first_le, ⟨hblock, hblocks⟩, List.pairwise_singleton .., fun e he => ?_⟩
  exact List.forall_mem_singleton.2 (h.le_last e he)

end Laid

/-- Each token has its events, one or, where a paragraph starts, two, at the position that is counted off
the tokens before it. They come in the order of the tokens, behind the start of the first paragraph at 1:1
and in front of the end of the last one at the end of the source. Positions never decrease, and they
increase from one token to another. -/
theorem events_follow_source (h : parse source = .ok d) : ∃ (first : Event) (blocks : List (List Event)) (last : Event),
    d.events = first :: (blocks.flatten ++ [last]) ∧
    first.kind = .paragraphOpen .anonymous ∧ first.position = ⟨1, 1⟩ ∧
    last.kind = .paragraphClose ∧ last.position = (LineMap.ofString source).stop ∧
    blocks.length = (tokenize source).length ∧
    (∀ i t block, (tokenize source)[i]? = some t → blocks[i]? = some block →
      Makes t (Token.positionOf (tokenize source) i) block) ∧
    d.events.length = (tokenize source).length + (tokenize source).countP Token.isParagraph + 2 ∧
    d.events.Pairwise (fun e e' => e.position ≤ e'.position) ∧
    blocks.Pairwise fun block block' => ∀ e ∈ block, ∀ e' ∈ block', e.position < e'.position := by
  obtain ⟨first, blocks, last, hlaid⟩ := exists_laid h
  exact ⟨first, blocks, last, hlaid.events_eq, hlaid.first_opens, hlaid.first_position, hlaid.last_closes,
    hlaid.last_position, hlaid.makes.length_eq.symm, fun i t block => hlaid.makes_at, hlaid.length_events,
    hlaid.events_le, hlaid.blocks_lt⟩

/-- Six tokens in two lines, one of them the mark of a paragraph, and characters of two bytes. -/
theorem events_follow_source_lines :
    ∃ d, parse "é\n>a [x]\x7bü\x7d" = .ok d ∧
      d.events.map Event.position =
        [⟨1, 1⟩, ⟨1, 1⟩, ⟨2, 1⟩, ⟨2, 1⟩, ⟨2, 4⟩, ⟨2, 7⟩, ⟨2, 8⟩, ⟨2, 9⟩, ⟨2, 10⟩] ∧
      d.events.Pairwise (fun e e' => e.position ≤ e'.position) ∧
      ∃ (first : Event) (blocks : List (List Event)) (last : Event),
        d.events = first :: (blocks.flatten ++ [last]) ∧ blocks.length = (tokenize "é\n>a [x]\x7bü\x7d").length ∧
        blocks.Pairwise fun block block' => ∀ e ∈ block, ∀ e' ∈ block', e.position < e'.position := by
  obtain ⟨d, hd, hpositions⟩ : ∃ d, parse "é\n>a [x]\x7bü\x7d" = .ok d ∧ d.events.map Event.position =
      [⟨1, 1⟩, ⟨1, 1⟩, ⟨2, 1⟩, ⟨2, 1⟩, ⟨2, 4⟩, ⟨2, 7⟩, ⟨2, 8⟩, ⟨2, 9⟩, ⟨2, 10⟩] := by decide +kernel
  obtain ⟨first, blocks, last, hevents, -, -, -, -, hlength, -, -, hle, hlt⟩ := events_follow_source hd
  exact ⟨d, hd, hpositions, hle, first, blocks, last, hevents, hlength, hlt⟩

end Reveal
