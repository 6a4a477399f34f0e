import Reveal.Proofs.Prose.Entity
import Reveal.Proofs.Prose.Nesting
import Reveal.Proofs.Prose.Scheme
/-!
# Whole tags

The rules insert whole tags, and no rule cuts through what an earlier one has inserted. So whatever the
author writes, a rendered text has no `<` that does not begin a tag of one of the rules. The elements of
one rule may cross those of another, but they do not meet each other: a rule finds none of its own tags
in the text, and puts a start and a stop around each of its matches, which do not overlap. So the tags of
one name stand there by turns (`render_whole`).
-/
namespace Reveal.Prose

open Html (tags)

/-- How the tags of rendered text begin. -/
def tagHeads : List (List Char) :=
  [Tag.delStart, Tag.delStop, Tag.strongStart, Tag.strongStop, Tag.emStart, Tag.emStop,
   Tag.linkStart ++ http, Tag.linkStop, Tag.imageStart ++ http]

/-- A start and a stop of the name, and again, as often as `n` says. -/
def byTurns (name : List Char) (n : Nat) : List Html.Tag :=
  (List.replicate n [.start name, .stop name]).flatten

/-- The tags of the name are a start, a stop, a start and so on, and the last one is a stop. -/
def Alternate (name html : List Char) : Prop :=
  ∃ n, (tags html).filter (fun t => t.name = name) = byTurns name n

variable {rule : Rule} {edit : List Char → List Exchange → Prop} {xs ys : List Item} {places : List (List Char)}
  {name other : List Char}

/-! ## Where tags begin -/

theorem html_mem_tagHeads {p : Piece} (hlt : p.html.head? = some '<') (hlink : p ≠ .linkStart)
    (himage : p ≠ .imageStart) : p.html ∈ tagHeads := by
  revert hlt hlink himage
  cases p <;> decide

/-- A piece that opens a tag has all of it, up to an address. -/
theorem exists_tagHead (p : Piece) (hlt : p.html.head? = some '<')
    (haddress : p = .linkStart ∨ p = .imageStart → plain http <+: xs) :
    ∃ head ∈ tagHeads, head <+: p.html ++ write xs := by
  by_cases hp : p = .linkStart ∨ p = .imageStart
  · obtain ⟨rest, rfl⟩ := haddress hp
    refine ⟨p.html ++ http, ?_, by simp⟩
    rcases hp with rfl | rfl <;> decide
  · rw [not_or] at hp
    exact ⟨p.html, html_mem_tagHeads hlt hp.1 hp.2, List.prefix_append ..⟩

theorem eachBegins_write (hsafe : Safe xs) (haddressed : Addressed xs) : EachBegins '<' tagHeads (write xs) := by
  induction xs with
  | nil => exact eachBegins_nil _ _
  | cons i xs ih =>
    have hxs := hsafe.subset (List.subset_cons_self i xs)
    cases i with
    | char c =>
      rw [write_char, eachBegins_cons]
      exact ⟨fun hc => absurd hc (hsafe c List.mem_cons_self).1, ih hxs haddressed⟩
    | piece p =>
      obtain ⟨c, u, hp, -, hu⟩ := p.html_eq_cons
      have hhead := fun hlt => exists_tagHead p hlt haddressed.1
      rw [hp] at hhead
      rw [write_piece, hp, List.cons_append, eachBegins_cons, eachBegins_append_of_notMem hu]
      exact ⟨fun hc => hhead (congrArg some hc), ih hxs haddressed.2⟩

/-! ## Tags by turns -/

theorem tagsOf_cons (i : Item) (xs : List Item) : tagsOf (i :: xs) = i.tags ++ tagsOf xs :=
  List.flatMap_cons

theorem byTurns_succ (name : List Char) (n : Nat) :
    byTurns name (n + 1) = .start name :: .stop name :: byTurns name n := by
  simp [byTurns, List.replicate_succ]

/-- Behind the rule of a name, its tags stand by turns, a pair for each match. -/
theorem byTurns_rewrites (h : Rewrites rule edit xs ys places)
    (hedit : ∀ place e, edit place e → tagsOf (put e) = .start name :: (tagsOf (taken e) ++ [.stop name]))
    (hname : ∀ t ∈ tagsOf xs, t.name ≠ name) :
    (tagsOf ys).filter (fun t => t.name = name) = byTurns name places.length := by
  induction h with
  | nil => rfl
  | @keep xs ys _ i _ _ ih =>
    rw [tagsOf_cons, List.forall_mem_append] at hname
    rw [tagsOf_cons, List.filter_append, List.filter_eq_nil_iff.2 (by simpa using hname.1), List.nil_append, ih hname.2]
  | @replace xs ys _ e _ valid _ ih =>
    rw [tagsOf_append, List.forall_mem_append] at hname
    have htaken : (tagsOf (taken e)).filter (fun t => t.name = name) = [] :=
      List.filter_eq_nil_iff.2 (by simpa using hname.1)
    rw [tagsOf_append, hedit _ e valid, List.filter_append, ih hname.2,
      List.filter_cons_of_pos (by simp [Html.Tag.name]), List.filter_append, htaken, List.length_cons, byTurns_succ]
    simp [Html.Tag.name]

/-- The rule of another name leaves the tags of a name as they are. -/
theorem filter_tags_rewrites (h : Rewrites rule edit xs ys places)
    (hedit : ∀ place e, edit place e → tagsOf (put e) = .start other :: (tagsOf (taken e) ++ [.stop other]))
    (hne : other ≠ name) :
    (tagsOf ys).filter (fun t => t.name = name) = (tagsOf xs).filter (fun t => t.name = name) := by
  induction h with
  | nil => rfl
  | @keep xs ys _ i _ _ ih =>
    rw [tagsOf_cons, tagsOf_cons, List.filter_append, List.filter_append, ih]
  | @replace xs ys _ e _ valid _ ih =>
    rw [tagsOf_append, tagsOf_append, List.filter_append, List.filter_append, ih, hedit _ e valid]
    simp [Html.Tag.name, hne]

/-- Each rule finds none of its tags in the text, and the rules behind it add none. -/
theorem alternate_renderChars (s : List Char) :
    ∀ name ∈ [['d', 'e', 'l'], ['s', 't', 'r', 'o', 'n', 'g'], ['e', 'm'], ['a']], Alternate name (renderChars s) := by
  obtain ⟨course⟩ := nonempty_course s
  have htags : tags (renderChars s) = tagsOf course.linked := by
    rw [course.renderChars_eq, tags_write course.final_marked.safe, tagsOf_rewrites course.image tagsOf_imageEdit]
  have hdel := byTurns_rewrites course.strike (tagsOf_emphasisEdit rfl rfl) (by simp)
  have hstrong := byTurns_rewrites course.bolden (tagsOf_emphasisEdit rfl rfl)
    (name_ne_of_marked course.struck_marked fun p => by cases p <;> decide)
  have hem := byTurns_rewrites course.slant (tagsOf_emphasisEdit rfl rfl)
    (name_ne_of_marked course.bolded_marked fun p => by cases p <;> decide)
  have ha := byTurns_rewrites course.link tagsOf_linkEdit
    (name_ne_of_marked course.slanted_marked fun p => by cases p <;> decide)
  have hbolden {name : List Char} (hne : ['s', 't', 'r', 'o', 'n', 'g'] ≠ name) :=
    filter_tags_rewrites course.bolden (tagsOf_emphasisEdit rfl rfl) hne
  have hslant {name : List Char} (hne : ['e', 'm'] ≠ name) :=
    filter_tags_rewrites course.slant (tagsOf_emphasisEdit rfl rfl) hne
  have hlink {name : List Char} (hne : ['a'] ≠ name) := filter_tags_rewrites course.link tagsOf_linkEdit hne
  simp only [List.forall_mem_cons, Alternate, htags]
  refine ⟨⟨_, (hlink ?_).trans ((hslant ?_).trans ((hbolden ?_).trans hdel))⟩,
    ⟨_, (hlink ?_).trans ((hslant ?_).trans hstrong)⟩, ⟨_, (hlink ?_).trans hem⟩, ⟨_, ha⟩, by simp⟩
  all_goals decide

/-- Whatever the text, every `<` in its html begins a tag of one of the rules and every ampersand an
entity, and the starts and stops of each element take turns. -/
theorem render_whole (text : String) :
    EachBegins '<' tagHeads (render text).toList ∧ EachBegins '&' entities (render text).toList ∧
    ∀ name ∈ [['d', 'e', 'l'], ['s', 't', 'r', 'o', 'n', 'g'], ['e', 'm'], ['a']],
      Alternate name (render text).toList := by
  rw [render, String.toList_ofList]
  refine ⟨?_, eachBegins_renderChars text.toList, alternate_renderChars text.toList⟩
  obtain ⟨course⟩ := nonempty_course text.toList
  rw [course.renderChars_eq]
  exact eachBegins_write course.final_marked.safe course.final_addressed

/-- Two elements that cross, and a third one behind them: the tags of one name still take turns. -/
theorem render_whole_crossed :
    tags (render "~~a **b~~ & c** ~~d~~").toList =
      [.start ['d', 'e', 'l'], .start ['s', 't', 'r', 'o', 'n', 'g'], .stop ['d', 'e', 'l'],
       .stop ['s', 't', 'r', 'o', 'n', 'g'], .start ['d', 'e', 'l'], .stop ['d', 'e', 'l']] ∧
    Alternate ['d', 'e', 'l'] (render "~~a **b~~ & c** ~~d~~").toList :=
  ⟨by decide +kernel, (render_whole _).2.2 _ List.mem_cons_self⟩

end Reveal.Prose
