import Mathlib.Data.List.Infix
import Reveal.Proofs.Html.Document
import Reveal.Proofs.Prose.Scheme
/-!
# The skeleton of a document's html

Some tags stand for the structure of a document: its own, those of paragraphs and fragments, and the
start of a reveal link. Whatever an author writes, these tags are where the events are, and nowhere
else. In a rendered text every `<` starts a piece that a rule has inserted, and no such piece begins
like one of these tags (`occurrences_piece`), with one exception: a link to an address begins like a
reveal link, up to the address (`occurrences_linkStart`).
-/
namespace Reveal.Html

/-- The beginnings of the tags that stand for structure. -/
def structural : List String :=
  ["<div", "</div>", "<p", "</p>", "<span", "</span>", "<a href=\"#\""]

/-- Those words that a text begins with. -/
def heads (words : List String) (place : List Char) : List String :=
  words.filter fun word => word.toList.isPrefixOf place

/-- The occurrences of some words in a text, from left to right. -/
def occurrences (words : List String) (s : List Char) : List String :=
  s.tails.flatMap (heads words)

/-- The structural tag of an event. -/
def structureOf : Event.Kind → List String
  | .paragraphOpen _ => ["<p"]
  | .paragraphClose => ["</p>"]
  | .fragmentOpen _ => ["<span"]
  | .fragmentClose => ["</span>"]
  | .revealLink _ _ _ _ => ["<a href=\"#\""]
  | .text _ _ => []

/-! ## Where tags can start -/

variable {words : List String} {s t u : List Char} {c : Char}

/-- No word goes on behind `u`: whether a text starts with a word is decided in `u`. -/
def Decides (u : List Char) (words : List String) : Prop :=
  ∀ word ∈ words, u <+: word.toList → word.toList <+: u

instance (u : List Char) (words : List String) : Decidable (Decides u words) :=
  inferInstanceAs (Decidable (∀ word ∈ words, u <+: word.toList → word.toList <+: u))

theorem heads_append (h : Decides u words) (s : List Char) : heads words (u ++ s) = heads words u := by
  apply List.filter_congr
  intro word hword
  rw [Bool.eq_iff_iff, List.isPrefixOf_iff_prefix, List.isPrefixOf_iff_prefix]
  constructor
  · intro hprefix
    rcases List.prefix_or_prefix_of_prefix hprefix (List.prefix_append u s) with hle | hge
    · exact hle
    · exact h word hword hge
  · exact fun hprefix => hprefix.trans (List.prefix_append u s)

theorem occurrences_cons (words : List String) (c : Char) (s : List Char) :
    occurrences words (c :: s) = heads words (c :: s) ++ occurrences words s := by
  rw [occurrences, List.tails_cons, List.flatMap_cons]
  rfl

theorem heads_structural_of_ne (hc : c ≠ '<') (s : List Char) : heads structural (c :: s) = [] := by
  simp [heads, structural, Ne.symm hc]

theorem occurrences_append_of_notMem (hu : '<' ∉ u) :
    occurrences structural (u ++ s) = occurrences structural s := by
  induction u with
  | nil => rfl
  | cons c u ih =>
    rw [List.mem_cons, not_or] at hu
    rw [List.cons_append, occurrences_cons, heads_structural_of_ne (Ne.symm hu.1), List.nil_append, ih hu.2]

/-- A stretch with one place for a tag, which decides what starts there. -/
theorem occurrences_append (h : Decides (c :: u) structural) (hu : '<' ∉ u) (s : List Char) :
    occurrences structural (c :: (u ++ s)) = heads structural (c :: u) ++ occurrences structural s := by
  rw [occurrences_cons, ← List.cons_append, heads_append h, occurrences_append_of_notMem hu]

/-! ## Rendered text -/

theorem occurrences_piece (p : Prose.Piece) (hp : p ≠ .linkStart) (s : List Char) :
    occurrences structural (p.html ++ s) = occurrences structural s := by
  obtain ⟨c, u, hhtml, -, hu⟩ := p.html_eq_cons
  have hdecides : Decides p.html structural ∧ heads structural p.html = [] := by
    cases p <;> first | exact absurd rfl hp | decide
  rw [hhtml] at hdecides ⊢
  rw [List.cons_append, occurrences_append hdecides.1 hu, hdecides.2, List.nil_append]

/-- A link to an address begins like a reveal link, but the address does not begin with a hash. -/
theorem occurrences_linkStart (s : List Char) :
    occurrences structural (Prose.Piece.linkStart.html ++ (Prose.http ++ s)) =
      occurrences structural (Prose.http ++ s) := by
  have hhead := occurrences_append (c := '<') (u := Prose.Piece.linkStart.html.tail ++ Prose.http)
    (by decide) (by decide) s
  have hnone : heads structural ('<' :: (Prose.Piece.linkStart.html.tail ++ Prose.http)) = [] := by decide
  rw [hnone, List.nil_append] at hhead
  rw [occurrences_append_of_notMem (u := Prose.http) (by decide), ← hhead]
  simp [Prose.Piece.html, Prose.Tag.linkStart]

theorem occurrences_write {xs : List Prose.Item} (hsafe : Prose.Safe xs) (haddressed : Prose.Addressed xs)
    (s : List Char) : occurrences structural (Prose.write xs ++ s) = occurrences structural s := by
  induction xs with
  | nil => rfl
  | cons i xs ih =>
    have hxs := hsafe.subset (List.subset_cons_self i xs)
    cases i with
    | char c =>
      have hc : '<' ∉ [c] := by simpa using Ne.symm (hsafe c List.mem_cons_self).1
      rw [Prose.write_char, ← List.singleton_append, List.append_assoc, occurrences_append_of_notMem hc,
        ih hxs haddressed]
    | piece p =>
      rw [Prose.write_piece, List.append_assoc]
      by_cases hp : p = .linkStart
      · obtain ⟨rest, hrest⟩ := haddressed.1 (.inl hp)
        have hwrite : Prose.write xs = Prose.http ++ Prose.write rest := by
          rw [← hrest, Prose.write_append, Prose.write_plain]
        have hrec := ih hxs haddressed.2
        rw [hwrite, List.append_assoc] at hrec ⊢
        rw [hp, occurrences_linkStart, hrec]
      · rw [occurrences_piece p hp, ih hxs haddressed.2]

/-- No structural tag stands in a rendered text, and none goes on behind it. -/
theorem occurrences_render (source : String) (s : List Char) :
    occurrences structural ((Prose.render source).toList ++ s) = occurrences structural s := by
  obtain ⟨course⟩ := Prose.nonempty_course source.toList
  rw [Prose.render, String.toList_ofList, course.renderChars_eq]
  exact occurrences_write course.final_marked.safe course.final_addressed s

/-! ## Documents -/

theorem occurrences_tag (tag : String) (h : tag ∈ structural) (s : List Char) :
    occurrences structural (tag.toList ++ s) = tag :: occurrences structural s := by
  have hall : ∀ tag ∈ structural, tag.toList = '<' :: tag.toList.tail ∧ '<' ∉ tag.toList.tail ∧
      Decides tag.toList structural ∧ heads structural tag.toList = [tag] := by
    decide
  obtain ⟨hcons, hnotMem, hdecides, hheads⟩ := hall tag h
  rw [hcons] at hdecides hheads ⊢
  rw [List.cons_append, occurrences_append hdecides hnotMem, hheads, List.singleton_append]

theorem occurrences_startTag (tag : String) (h : tag ∈ structural) {attrs : List Char} (htrailing : Trailing attrs)
    (s : List Char) :
    occurrences structural (tag.toList ++ (attrs ++ '>' :: s)) = tag :: occurrences structural s := by
  have hattrs : '<' ∉ attrs ++ ['>'] := by simp [htrailing.lt_notMem]
  have hbehind : attrs ++ '>' :: s = (attrs ++ ['>']) ++ s := by simp
  rw [occurrences_tag tag h, hbehind, occurrences_append_of_notMem hattrs]

theorem occurrences_writeEvent {e : Event} (debug : Bool) (h : Rendered e.kind) (s : List Char) :
    occurrences structural ((writeEvent debug e).toList ++ s) =
      structureOf e.kind ++ occurrences structural s := by
  have hw := written_writeEvent debug e
  generalize e.kind = k, (writeEvent debug e).toList = html at h hw ⊢
  cases hw with
  | paragraphOpen id trailing =>
    simpa [structureOf] using occurrences_startTag "<p" (by decide) trailing s
  | paragraphClose => simpa [structureOf] using occurrences_tag "</p>" (by decide) s
  | fragmentOpen id trailing =>
    simpa [structureOf] using occurrences_startTag "<span" (by decide) trailing s
  | fragmentClose => simpa [structureOf] using occurrences_tag "</span>" (by decide) s
  | @revealLink opens caption source descendants attrs trailing =>
    obtain rfl : caption = Prose.render source := h
    have hstart := occurrences_startTag "<a href=\"#\"" (by decide) trailing
      ((Prose.render source).toList ++ (Prose.Piece.linkStop.html ++ s))
    rw [occurrences_render, occurrences_piece .linkStop (by decide)] at hstart
    simpa [structureOf, Prose.Piece.html, Prose.Tag.linkStop] using hstart
  | text html source =>
    rw [show html = Prose.render source from h]
    exact occurrences_render source s

theorem occurrences_events {events : List Event} (debug : Bool) (h : ∀ e ∈ events, Rendered e.kind)
    (s : List Char) :
    occurrences structural (events.flatMap (fun e => (writeEvent debug e).toList) ++ s) =
      events.flatMap (fun e => structureOf e.kind) ++ occurrences structural s := by
  induction events with
  | nil => rfl
  | cons e events ih =>
    rw [List.forall_mem_cons] at h
    rw [List.flatMap_cons, List.append_assoc, occurrences_writeEvent debug h.1, ih h.2, List.flatMap_cons,
      List.append_assoc]

/-- The structural tags in the html of a document are those of the document and of its events, in their
order. No text, caption or name adds one or takes one away. -/
theorem write_skeleton {source : String} {d : Document} (h : parse source = .ok d) (debug : Bool) :
    occurrences ["<div", "</div>", "<p", "</p>", "<span", "</span>", "<a href=\"#\""] (write debug d).toList =
      "<div" :: (d.events.flatMap (fun e => structureOf e.kind) ++ ["</div>"]) := by
  obtain ⟨attrs, htrailing, hwrite⟩ := exists_toList_write debug d
  have hstart := occurrences_startTag "<div" (by decide) htrailing
    (d.events.flatMap (fun e => (writeEvent debug e).toList) ++ "</div>".toList)
  have hstop := occurrences_tag "</div>" (by decide) []
  have hnil : occurrences structural [] = [] := by decide
  rw [hnil, List.append_nil] at hstop
  rw [occurrences_events debug (rendered_of_parse h), hstop] at hstart
  rw [hwrite]
  simpa [structural] using hstart

/-- Tags in a text, in a caption and in a fragment, and a link to an address with a hash. -/
theorem write_skeleton_forged :
    ∃ d, parse "<p [<span]#a (link: http://# *x*)>b'\x7b<a href=\"#\"\x7d" = .ok d ∧
      d.events.flatMap (fun e => structureOf e.kind) =
        ["<p", "<a href=\"#\"", "</p>", "<p", "<span", "</span>", "</p>"] ∧
      occurrences ["<div", "</div>", "<p", "</p>", "<span", "</span>", "<a href=\"#\""] (write true d).toList =
        "<div" :: (d.events.flatMap (fun e => structureOf e.kind) ++ ["</div>"]) := by
  obtain ⟨d, hd, hstructure⟩ : ∃ d, parse "<p [<span]#a (link: http://# *x*)>b'\x7b<a href=\"#\"\x7d" = .ok d ∧
      d.events.flatMap (fun e => structureOf e.kind) =
        ["<p", "<a href=\"#\"", "</p>", "<p", "<span", "</span>", "</p>"] := by decide +kernel
  exact ⟨d, hd, hstructure, write_skeleton hd true⟩

end Reveal.Html
