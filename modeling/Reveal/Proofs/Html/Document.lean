import Reveal.Proofs.Html.Attribute
import Reveal.Proofs.Prose.Nesting
import Reveal.Proofs.Resolve.Shape
/-!
# When a document's html is nested

Paragraphs, fragments and links are nested in each other, since the events are, and their attributes
hold no tags. So the html of a document is nested exactly if each of its rendered texts is, which
depends on nothing around the text.
-/
namespace Reveal.Html

open Prose (Uncrossed)

/-! ## Tags that leave things as they are -/

/-- Tags behind which the same is open as before them, and that can be read to their end exactly if
`P` holds. -/
def Neutral (ts : List Tag) (P : Prop) : Prop :=
  ∀ us names names', nest (ts ++ us) names = some names' ↔ P ∧ nest us names = some names'

variable {ts us : List Tag} {P Q : Prop}

theorem neutral_nil : Neutral [] True := by
  intro us names names'
  simp

theorem Neutral.append (hts : Neutral ts P) (hus : Neutral us Q) : Neutral (ts ++ us) (P ∧ Q) := by
  intro vs names names'
  rw [List.append_assoc, hts, hus, and_assoc]

theorem Neutral.element (h : Neutral ts P) (n : List Char) : Neutral (.start n :: (ts ++ [.stop n])) P := by
  intro vs names names'
  rw [List.cons_append, List.append_assoc, List.singleton_append, nest, h, nest, if_pos rfl]

theorem Neutral.congr (h : Neutral ts P) (hPQ : P ↔ Q) : Neutral ts Q := by
  intro us names names'
  rw [h, hPQ]

theorem Neutral.nested_iff (h : Neutral ts P) : nest ts [] = some [] ↔ P := by
  have hnil := h [] [] []
  rw [List.append_nil] at hnil
  rw [hnil]
  simp [nest]

theorem neutral_render (source : String) :
    Neutral (tags (Prose.render source).toList) (Uncrossed source.toList) := by
  intro us names names'
  rw [Prose.render, String.toList_ofList, nest_append, Option.bind_eq_some_iff]
  simp only [Prose.nest_render_iff]
  constructor
  · rintro ⟨_, ⟨huncrossed, rfl⟩, hus⟩
    exact ⟨huncrossed, hus⟩
  · rintro ⟨huncrossed, hus⟩
    exact ⟨names, ⟨huncrossed, rfl⟩, hus⟩

/-! ## The tags of a document -/

/-- The author's text that an event shows. -/
def prose? : Event.Kind → Option String
  | .text _ source | .revealLink _ _ source _ => some source
  | _ => none

/-- The html that an event carries is that of its text. -/
def Rendered : Event.Kind → Prop
  | .text html source | .revealLink _ html source _ => html = Prose.render source
  | _ => True

/-- The tags that an event is written with. -/
def tagsOfKind : Event.Kind → List Tag
  | .paragraphOpen _ => [.start ['p']]
  | .paragraphClose => [.stop ['p']]
  | .fragmentOpen _ => [.start ['s', 'p', 'a', 'n']]
  | .fragmentClose => [.stop ['s', 'p', 'a', 'n']]
  | .revealLink _ caption _ _ => .start ['a'] :: (tags caption.toList ++ [.stop ['a']])
  | .text html _ => tags html.toList

/-- A rendered text does not leave a tag to be read on behind it. -/
theorem tags_render_append (source : String) (s : List Char) :
    tags ((Prose.render source).toList ++ s) = tags (Prose.render source).toList ++ tags s := by
  obtain ⟨course⟩ := Prose.nonempty_course source.toList
  rw [Prose.render, String.toList_ofList, course.renderChars_eq, Prose.tags_write_append course.final_marked.safe,
    Prose.tags_write course.final_marked.safe]

theorem tags_writeEvent {e : Event} (debug : Bool) (h : Rendered e.kind) (s : List Char) :
    tags ((writeEvent debug e).toList ++ s) = tagsOfKind e.kind ++ tags s := by
  have hw := written_writeEvent debug e
  generalize e.kind = k, (writeEvent debug e).toList = html at h hw ⊢
  cases hw with
  | paragraphOpen id trailing => simpa [tagsOfKind] using tags_startTag ['p'] _ s (by simp) (by decide) trailing
  | paragraphClose => simp [tagsOfKind, tags, tagName]
  | fragmentOpen id trailing =>
    simpa [tagsOfKind] using tags_startTag ['s', 'p', 'a', 'n'] _ s (by simp) (by decide) trailing
  | fragmentClose => simp [tagsOfKind, tags, tagName]
  | @revealLink opens caption source descendants attrs trailing =>
    obtain rfl : caption = Prose.render source := h
    have hstart := tags_startTag ['a'] ([' ', 'h', 'r', 'e', 'f', '=', '"', '#', '"'] ++ attrs)
      ((Prose.render source).toList ++ ('<' :: '/' :: 'a' :: '>' :: s)) (by simp) (by decide)
      ⟨by simp [trailing.lt_notMem], .inr ⟨_, rfl⟩⟩
    rw [tags_render_append] at hstart
    simpa [tagsOfKind, tags, tagName] using hstart
  | text html source =>
    rw [tagsOfKind, h]
    exact tags_render_append source s

theorem tags_events {events : List Event} (debug : Bool) (h : ∀ e ∈ events, Rendered e.kind) (s : List Char) :
    tags (events.flatMap (fun e => (writeEvent debug e).toList) ++ s) =
      (events.map Event.kind).flatMap tagsOfKind ++ tags s := by
  induction events with
  | nil => rfl
  | cons e events ih =>
    rw [List.forall_mem_cons] at h
    rw [List.flatMap_cons, List.append_assoc, tags_writeEvent debug h.1, ih h.2, List.map_cons, List.flatMap_cons,
      List.append_assoc]

theorem tags_write {d : Document} (debug : Bool) (h : ∀ e ∈ d.events, Rendered e.kind) :
    tags (write debug d).toList =
      .start ['d', 'i', 'v'] :: ((d.events.map Event.kind).flatMap tagsOfKind ++ [.stop ['d', 'i', 'v']]) := by
  obtain ⟨attrs, htrailing, hwrite⟩ := exists_toList_write debug d
  have hstart := tags_startTag ['d', 'i', 'v'] attrs
    (d.events.flatMap (fun e => (writeEvent debug e).toList) ++ ['<', '/', 'd', 'i', 'v', '>'])
    (by simp) (by decide) htrailing
  rw [tags_events debug h] at hstart
  rw [hwrite]
  simpa [tags, tagName] using hstart

/-! ## Documents -/

/-- The texts of some events are rendered without crossings. -/
def AllUncrossed (kinds : List Event.Kind) : Prop :=
  ∀ k ∈ kinds, ∀ s ∈ prose? k, Uncrossed s.toList

variable {kinds more : List Event.Kind}

@[simp] theorem allUncrossed_nil : AllUncrossed [] := by
  simp [AllUncrossed]

@[simp] theorem allUncrossed_cons (k : Event.Kind) : AllUncrossed (k :: kinds) ↔
    (∀ s ∈ prose? k, Uncrossed s.toList) ∧ AllUncrossed kinds :=
  List.forall_mem_cons

@[simp] theorem allUncrossed_append : AllUncrossed (kinds ++ more) ↔ AllUncrossed kinds ∧ AllUncrossed more :=
  List.forall_mem_append

theorem neutral_body (h : Body kinds) (hr : ∀ k ∈ kinds, Rendered k) :
    Neutral (kinds.flatMap tagsOfKind) (AllUncrossed kinds) := by
  induction h with
  | nil => exact neutral_nil.congr (by simp)
  | text html source _ ih =>
    rw [List.forall_mem_cons] at hr
    obtain rfl : html = Prose.render source := hr.1
    exact ((neutral_render source).append (ih hr.2)).congr (by simp [prose?])
  | link id caption source descendants _ ih =>
    rw [List.forall_mem_cons] at hr
    obtain rfl : caption = Prose.render source := hr.1
    exact (((neutral_render source).element ['a']).append (ih hr.2)).congr (by simp [prose?])
  | fragment id _ _ ihinside ihbehind =>
    simp only [List.forall_mem_cons, List.forall_mem_append] at hr
    have hfragment := ((ihinside hr.2.1).element ['s', 'p', 'a', 'n']).append (ihbehind hr.2.2.2)
    simpa [tagsOfKind, prose?] using hfragment

theorem neutral_paragraphs (h : Paragraphs kinds) (hr : ∀ k ∈ kinds, Rendered k) :
    Neutral (kinds.flatMap tagsOfKind) (AllUncrossed kinds) := by
  induction h with
  | last id inside =>
    simp only [List.forall_mem_cons, List.forall_mem_append] at hr
    have hparagraph := (neutral_body inside hr.2.1).element ['p']
    simpa [tagsOfKind, prose?] using hparagraph
  | more id inside _ ih =>
    simp only [List.forall_mem_cons, List.forall_mem_append] at hr
    have hparagraph := ((neutral_body inside hr.2.1).element ['p']).append (ih hr.2.2.2)
    simpa [tagsOfKind, prose?] using hparagraph

theorem rendered_step {r r' : Resolution} {p : Position} {t : Token} (h : ∀ e ∈ r.emitted, Rendered e.kind)
    (hs : Resolution.Step r p t r') : ∀ e ∈ r'.emitted, Rendered e.kind := by
  cases hs with
  | paragraph => exact List.forall_mem_cons.2 ⟨trivial, List.forall_mem_cons.2 ⟨trivial, h⟩⟩
  | namedFragment => exact List.forall_mem_cons.2 ⟨trivial, h⟩
  | awaitedFragment => exact List.forall_mem_cons.2 ⟨trivial, h⟩
  | unreferencedFragment => exact List.forall_mem_cons.2 ⟨trivial, h⟩
  | fragmentClose => exact List.forall_mem_cons.2 ⟨trivial, h⟩
  | targetedLink => exact List.forall_mem_cons.2 ⟨rfl, h⟩
  | autoLink => exact List.forall_mem_cons.2 ⟨rfl, h⟩
  | text => exact List.forall_mem_cons.2 ⟨rfl, h⟩

theorem rendered_withDescendants {e : Event} (h : Rendered e.kind) (ids : List Ident) :
    Rendered (e.withDescendants ids).kind := by
  unfold Event.withDescendants
  split
  · rename_i hk
    rw [hk] at h
    exact h
  · exact h

theorem rendered_of_parse {source : String} {d : Document} (h : parse source = .ok d) :
    ∀ e ∈ d.events, Rendered e.kind := by
  obtain ⟨events, hr, -, rfl⟩ := parse_eq_ok_iff.1 h
  obtain ⟨r, hrendered, -, rfl⟩ := Resolution.resolve_reaches (P := fun _ r => ∀ e ∈ r.emitted, Rendered e.kind)
    (List.forall_mem_singleton.2 trivial) rendered_step hr
  intro e' he'
  obtain ⟨e, he, rfl⟩ := Cascade.mem_fill.1 he'
  refine rendered_withDescendants ?_ _
  rcases List.mem_cons.1 (List.mem_reverse.1 he) with rfl | he
  · trivial
  · exact hrendered e he

theorem paragraphs_of_parse {source : String} {d : Document} (h : parse source = .ok d) :
    Paragraphs (d.events.map Event.kind) := by
  obtain ⟨es, c, p, ht, he⟩ := parse_trail h
  rw [List.reverse_cons] at he
  rw [he, List.map_append]
  exact ht.paragraphs (.last .nil)

/-- The tags of a document's html are nested exactly if in none of its texts and captions a match of an
inline rule cuts through an element that an earlier rule has put there. -/
theorem write_wellNested_iff {source : String} {d : Document} (h : parse source = .ok d) (debug : Bool) :
    WellNested (write debug d).toList ↔ ∀ e ∈ d.events, ∀ s ∈ prose? e.kind, Uncrossed s.toList := by
  have hr := rendered_of_parse h
  have hneutral := neutral_paragraphs (paragraphs_of_parse h) (by simpa using hr)
  rw [WellNested, tags_write debug hr, (hneutral.element ['d', 'i', 'v']).nested_iff, AllUncrossed, List.forall_mem_map]

/-- Bold text in a caption, and italic text inside of struck-out text in the fragment it opens. -/
theorem write_wellNested_inside :
    ∃ d, parse "[**x**]\x7b~~a *b* c~~\x7d" = .ok d ∧ WellNested (write true d).toList ∧
      ∀ e ∈ d.events, ∀ s ∈ prose? e.kind, Uncrossed s.toList := by
  obtain ⟨d, hd, huncrossed⟩ : ∃ d, parse "[**x**]\x7b~~a *b* c~~\x7d" = .ok d ∧
      ∀ e ∈ d.events, ∀ s ∈ prose? e.kind, Uncrossed s.toList := by decide +kernel
  exact ⟨d, hd, (write_wellNested_iff hd true).2 huncrossed, huncrossed⟩

/-- Bold text that starts inside of struck-out text and ends behind it. -/
theorem write_not_wellNested_across :
    ∃ d, parse "~~a **b~~ c**" = .ok d ∧ ¬ WellNested (write false d).toList ∧
      write false d = "<div data-russiandoll=\"1.0.0\"><p><del>a <strong>b</del> c</strong></p></div>" := by
  decide +kernel

end Reveal.Html
