import Mathlib.Data.List.Infix
import Reveal.Proofs.Ident.Print
import Reveal.Proofs.Prose.Item
import Reveal.Proofs.Prose.Match
/-!
# Whole entities

Escaping writes five characters as entities, and behind it every ampersand of a text begins one of
them. A printed identifier is no exception, whatever its name (`print_tells_apart`). Nor does an inline
rule take an entity apart: its marks stand in none of them, so a match neither starts nor stops inside
of one (`SparesEntities.apply`).
-/
namespace Reveal.Prose

/-- Every `c` in a text begins one of the words. -/
def EachBegins (c : Char) (words : List (List Char)) (s : List Char) : Prop :=
  ∀ place ∈ s.tails, [c] <+: place → ∃ word ∈ words, word <+: place

instance (c : Char) (words : List (List Char)) (s : List Char) : Decidable (EachBegins c words s) :=
  inferInstanceAs (Decidable (∀ place ∈ s.tails, [c] <+: place → ∃ word ∈ words, word <+: place))

def entities : List (List Char) :=
  [['&', 'a', 'm', 'p', ';'], ['&', 'l', 't', ';'], ['&', 'g', 't', ';'], ['&', 'q', 'u', 'o', 't', ';'],
   ['&', '#', '3', '9', ';']]

/-- Nothing in a text is read as markup, and every ampersand in it begins an entity. -/
structure Escaped (s : List Char) : Prop where
  free : ∀ c ∈ ['<', '>', '"', '\''], c ∉ s
  whole : EachBegins '&' entities s

variable {words : List (List Char)} {s t u : List Char} {c d : Char}

/-! ## Where words begin -/

theorem eachBegins_nil (c : Char) (words : List (List Char)) : EachBegins c words [] := by
  intro place hplace hhead
  rw [List.mem_singleton.1 hplace] at hhead
  exact absurd (List.prefix_nil.1 hhead) (List.cons_ne_nil _ _)

theorem eachBegins_cons : EachBegins c words (d :: s) ↔
    (d = c → ∃ word ∈ words, word <+: d :: s) ∧ EachBegins c words s := by
  rw [EachBegins, List.tails_cons, List.forall_mem_cons]
  refine and_congr_left fun _ => ?_
  rw [List.cons_prefix_cons]
  simp [eq_comm]

theorem EachBegins.suffix (h : EachBegins c words s) (ht : t <:+ s) : EachBegins c words t := by
  intro place hplace
  exact h place ((List.mem_tails _ _).2 (((List.mem_tails _ _).1 hplace).trans ht))

theorem EachBegins.append (hs : EachBegins c words s) (ht : EachBegins c words t) : EachBegins c words (s ++ t) := by
  induction s with
  | nil => exact ht
  | cons d s ih =>
    obtain ⟨hhead, hs⟩ := eachBegins_cons.1 hs
    refine eachBegins_cons.2 ⟨fun hd => ?_, ih hs⟩
    obtain ⟨word, hword, hbegin⟩ := hhead hd
    exact ⟨word, hword, hbegin.trans (List.prefix_append ..)⟩

theorem eachBegins_append_of_notMem (hu : c ∉ u) : EachBegins c words (u ++ s) ↔ EachBegins c words s := by
  induction u with
  | nil => rfl
  | cons d u ih =>
    rw [List.mem_cons, not_or] at hu
    rw [List.cons_append, eachBegins_cons, ih hu.2]
    exact and_iff_right fun heq => absurd heq.symm hu.1

/-- A word in which `d` does not occur ends in front of it. -/
theorem prefix_append_cons_iff (hd : d ∉ u) : u <+: s ++ d :: t ↔ u <+: s := by
  constructor
  · rintro ⟨v, hv⟩
    obtain ⟨w, rfl, -⟩ := exists_append_of_notMem hd hv
    exact List.prefix_append ..
  · exact fun h => h.trans (List.prefix_append ..)

/-- A text can be cut at a character that stands in none of the words. -/
theorem eachBegins_append_cons (hcd : d ≠ c) (hd : ∀ word ∈ words, d ∉ word) :
    EachBegins c words (s ++ d :: t) ↔ EachBegins c words s ∧ EachBegins c words t := by
  induction s with
  | nil =>
    rw [List.nil_append, eachBegins_cons]
    constructor
    · exact fun h => ⟨eachBegins_nil c words, h.2⟩
    · exact fun h => ⟨fun heq => absurd heq hcd, h.2⟩
  | cons b s ih =>
    have hhead : (∃ word ∈ words, word <+: b :: (s ++ d :: t)) ↔ ∃ word ∈ words, word <+: b :: s := by
      refine exists_congr fun word => and_congr_right fun hword => ?_
      rw [← List.cons_append]
      exact prefix_append_cons_iff (hd word hword)
    rw [List.cons_append, eachBegins_cons, eachBegins_cons, ih, hhead, and_assoc]

/-! ## Escaped text -/

/-- The five characters are written as the five entities, in the same order. -/
theorem mem_entities_iff {e : List Char} : e ∈ entities ↔ ∃ c ∈ ['&', '<', '>', '"', '\''], entity c = e := by
  rw [← List.mem_map]
  rfl

theorem exists_of_mem_entities {e : List Char} (h : e ∈ entities) : ∃ u, e = '&' :: u ∧ '&' ∉ u := by
  have hall : ∀ e ∈ entities, e = '&' :: e.tail ∧ '&' ∉ e.tail := by decide
  exact ⟨e.tail, hall e h⟩

theorem eachBegins_escapeChars (s : List Char) : EachBegins '&' entities (escapeChars s) := by
  induction s with
  | nil => exact eachBegins_nil _ _
  | cons c s ih =>
    rw [escapeChars_cons]
    rcases entity_cases c with ⟨hc, hne⟩ | ⟨hc, -⟩
    · rw [hc]
      exact (eachBegins_append_of_notMem (by simpa using hne.symm)).2 ih
    · have hmem : entity c ∈ entities := mem_entities_iff.2 ⟨c, hc, rfl⟩
      obtain ⟨u, hu, hnotMem⟩ := exists_of_mem_entities hmem
      rw [hu] at hmem ⊢
      rw [List.cons_append, eachBegins_cons, eachBegins_append_of_notMem hnotMem]
      exact ⟨fun _ => ⟨_, hmem, List.prefix_append ..⟩, ih⟩

theorem markup_notMem_entity (hc : c ∈ ['<', '>', '"', '\'']) (d : Char) : c ∉ entity d := by
  simp only [List.mem_cons, List.not_mem_nil, or_false] at hc
  unfold entity
  split
  case h_6 hlt hgt hquot hapos =>
    rw [List.mem_singleton]
    rcases hc with rfl | rfl | rfl | rfl
    · exact Ne.symm hlt
    · exact Ne.symm hgt
    · exact Ne.symm hquot
    · exact Ne.symm hapos
  all_goals rcases hc with rfl | rfl | rfl | rfl <;> decide

theorem escaped_of_notMem (h : ∀ c ∈ ['&', '<', '>', '"', '\''], c ∉ s) : Escaped s := by
  rw [List.forall_mem_cons] at h
  refine ⟨h.2, ?_⟩
  rw [← List.append_nil s, eachBegins_append_of_notMem h.1]
  exact eachBegins_nil _ _

theorem Escaped.append (hs : Escaped s) (ht : Escaped t) : Escaped (s ++ t) where
  free c hc hmem := (List.mem_append.1 hmem).elim (hs.free c hc) (ht.free c hc)
  whole := hs.whole.append ht.whole

theorem escaped_escapeChars (s : List Char) : Escaped (escapeChars s) where
  free c hc hmem := by
    obtain ⟨d, -, hd⟩ := List.mem_flatMap.1 hmem
    exact markup_notMem_entity hc d hd
  whole := eachBegins_escapeChars s

/-! ## Rules -/

/-- Between entities, at a character that stands in none of them. -/
theorem eachBegins_entities_cut (hd : ∀ e ∈ entities, d ∉ e) :
    EachBegins '&' entities (s ++ d :: t) ↔ EachBegins '&' entities s ∧ EachBegins '&' entities t := by
  refine eachBegins_append_cons ?_ hd
  rintro rfl
  exact hd ['&', 'l', 't', ';'] (by decide) (by decide)

/-- At a piece, since `<` and the quote stand in no entity. -/
theorem eachBegins_entities_piece (p : Piece) :
    EachBegins '&' entities (s ++ (p.html ++ t)) ↔ EachBegins '&' entities s ∧ EachBegins '&' entities t := by
  have hcut : ∃ c u, p.html = c :: u ∧ (∀ e ∈ entities, c ∉ e) ∧ '&' ∉ u := by
    cases p <;> exact ⟨_, _, rfl, by decide, by decide⟩
  obtain ⟨c, u, hp, hc, hu⟩ := hcut
  rw [hp, List.cons_append, eachBegins_entities_cut hc, eachBegins_append_of_notMem hu]

theorem eachBegins_entities_behind (p : Piece) :
    EachBegins '&' entities (p.html ++ t) ↔ EachBegins '&' entities t := by
  rw [← List.nil_append (p.html ++ t), eachBegins_entities_piece]
  exact and_iff_right (eachBegins_nil _ _)

/-- No blank stands in an entity. -/
theorem notMem_entities_of_isBlank (hc : Text.isBlank c = true) : ∀ e ∈ entities, c ∉ e := by
  have hall : ∀ e ∈ entities, e.all fun c => Text.isBlank c = false := by decide
  intro e he hmem
  have hnot := List.all_iff_forall_prop.1 (hall e he) c hmem
  rw [hc] at hnot
  cases hnot

/-- A rule that leaves entities whole. -/
structure SparesEntities (rule : Rule) : Prop where
  /-- No match starts inside of an entity. -/
  idle : ∀ e ∈ entities, ∀ c ∈ e, ∀ s, rule.matchAt (c :: s) = none
  /-- What is written for a match has none but whole entities. -/
  output : ∀ {s m}, rule.matchAt s = some m → EachBegins '&' entities s →
    ∀ {t}, EachBegins '&' entities t → EachBegins '&' entities (m.output ++ t)

theorem SparesEntities.apply {rule : Rule} (h : SparesEntities rule) (hs : EachBegins '&' entities s) :
    EachBegins '&' entities (rule.apply s) := by
  fun_induction Rule.apply rule s with
  | case1 => exact eachBegins_nil _ _
  | case2 c rest m hm ih =>
    have hrest := (eachBegins_cons.1 hs).2
    exact h.output hm hs (ih (hrest.suffix (List.drop_suffix ..)))
  | case3 c rest hm ih =>
    obtain ⟨hhead, hrest⟩ := eachBegins_cons.1 hs
    refine eachBegins_cons.2 ⟨fun hc => ?_, ih hrest⟩
    obtain ⟨e, he, hbegin⟩ := hhead hc
    obtain ⟨u, rfl, -⟩ := exists_of_mem_entities he
    rw [List.cons_prefix_cons] at hbegin
    obtain ⟨after, rfl⟩ := hbegin.2
    have hkept := Rule.apply_append_of_none (s := after) fun d hd => h.idle _ he d (List.mem_cons_of_mem _ hd)
    refine ⟨_, he, ?_⟩
    rw [hkept.1, List.cons_prefix_cons]
    exact ⟨hbegin.1, List.prefix_append ..⟩

theorem sparesEntities_emphasis {rule : Rule} (mark : Char) (width : Nat) (start stop : Piece)
    (hrule : rule.matchAt = Rule.emphasisAt mark width start.html stop.html) (hw : 0 < width)
    (hmark : ∀ e ∈ entities, mark ∉ e) : SparesEntities rule where
  idle e he c hc s := by
    rw [hrule]
    exact Rule.emphasisAt_eq_none hw fun heq => hmark e he (heq ▸ hc)
  output {s m} hm hs t ht := by
    rw [hrule] at hm
    obtain ⟨body, rest, rfl, -, rfl⟩ := Rule.exists_of_emphasisAt hm
    obtain ⟨width, rfl⟩ := Nat.exists_eq_succ_of_ne_zero (Nat.ne_of_gt hw)
    have hbody := hs.suffix (List.suffix_append ..)
    rw [List.replicate_succ, List.cons_append, eachBegins_entities_cut hmark] at hbody
    rw [List.append_assoc, List.append_assoc, eachBegins_entities_behind, eachBegins_entities_piece]
    exact ⟨hbody.1, ht⟩

/-- No match of a link or an image starts inside of an entity. -/
theorem callAt_idle (opening : List Char) (bodyAt : List Char → Option Match) :
    ∀ e ∈ entities, ∀ c ∈ e, ∀ s, Rule.callAt ('(' :: opening) bodyAt (c :: s) = none := by
  intro e he c hc s
  refine Rule.callAt_eq_none ?_
  rintro rfl
  have hparen : ∀ e ∈ entities, '(' ∉ e := by decide
  exact hparen e he hc

theorem sparesEntities_link : SparesEntities Rule.link where
  idle := callAt_idle _ _
  output {s m} hm hs t ht := by
    obtain ⟨gap, dropped, caption, rest, heq, -, hne, hblank, rfl⟩ := Rule.exists_of_linkAt hm
    generalize Rule.linkAddress s = url at heq ⊢
    subst heq
    obtain ⟨c, dropped, rfl⟩ := List.exists_cons_of_ne_nil hne
    rw [List.forall_mem_cons] at hblank
    have hurl := (hs.suffix (List.suffix_append ..)).suffix (List.suffix_append ..)
    rw [List.cons_append, eachBegins_entities_cut (notMem_entities_of_isBlank hblank.1)] at hurl
    have hcaption := hurl.2.suffix (List.suffix_append ..)
    rw [eachBegins_entities_cut (by decide)] at hcaption
    have hlink := (eachBegins_entities_behind .linkStart).2 ((eachBegins_entities_piece .linkMiddle).2
      ⟨hurl.1, (eachBegins_entities_piece .linkStop).2 ⟨hcaption.1, ht⟩⟩)
    simpa [Rule.linkHtml, Piece.html] using hlink

theorem sparesEntities_image : SparesEntities Rule.image where
  idle := callAt_idle _ _
  output {s m} hm hs t ht := by
    obtain ⟨gap, rest, heq, -, -, -, rfl⟩ := Rule.exists_of_imageAt hm
    generalize Rule.imageAddress s = url at heq ⊢
    subst heq
    have hurl := (hs.suffix (List.suffix_append ..)).suffix (List.suffix_append ..)
    rw [eachBegins_entities_cut (by decide)] at hurl
    have himage := (eachBegins_entities_behind .imageStart).2
      ((eachBegins_entities_piece .imageStop).2 ⟨hurl.1, ht⟩)
    simpa [Rule.imageHtml, Piece.html] using himage

/-- Every ampersand of a rendered text begins an entity. -/
theorem eachBegins_renderChars (s : List Char) : EachBegins '&' entities (renderChars s) := by
  have hstruck := (sparesEntities_emphasis '~' 2 .delStart .delStop rfl (by decide) (by decide) :
    SparesEntities Rule.strikethrough).apply (eachBegins_escapeChars s)
  have hbold := (sparesEntities_emphasis '*' 2 .strongStart .strongStop rfl (by decide) (by decide) :
    SparesEntities Rule.bold).apply hstruck
  have hitalic := (sparesEntities_emphasis '*' 1 .emStart .emStop rfl (by decide) (by decide) :
    SparesEntities Rule.italic).apply hbold
  exact sparesEntities_image.apply (sparesEntities_link.apply hitalic)

end Reveal.Prose

namespace Reveal.Ident

open Prose (Escaped escaped_of_notMem escaped_escapeChars)

theorem escaped_toString (n : Nat) : Escaped (toString n).toList := by
  refine escaped_of_notMem fun c hc hmem => ?_
  have hdigit := isDigit_of_mem_toString hmem
  have hall : ['&', '<', '>', '"', '\''].all fun c => c.isDigit = false := by decide
  rw [List.all_iff_forall_prop.1 hall c hc] at hdigit
  cases hdigit

theorem escaped_of_all (s : String) (h : ['&', '<', '>', '"', '\''].all fun c => c ∉ s.toList) : Escaped s.toList :=
  escaped_of_notMem (List.all_iff_forall_prop.1 h)

theorem escaped_print (a : Ident) : Escaped a.print.toList := by
  cases a with
  | named name =>
    rw [print, String.toList_append, Prose.escape, String.toList_ofList]
    exact (escaped_of_all namedMark (by decide)).append (escaped_escapeChars _)
  | numbered depth number =>
    rw [print, String.toList_append, String.toList_append]
    exact ((escaped_toString depth).append (escaped_of_all "-" (by decide))).append (escaped_toString number)
  | auto ordinal => exact escaped_toString ordinal
  | unreferenced ordinal => exact escaped_of_all unreferencedText (by decide)
  | anonymous => exact escaped_of_all "" (by decide)

/-- Only unreferenced fragments are printed alike, and in no print there is anything that html reads as
markup. -/
theorem print_tells_apart :
    (∀ a b : Ident, a.print = b.print ↔ a = b ∨ ∃ m n, a = .unreferenced m ∧ b = .unreferenced n) ∧
    ∀ a : Ident, Escaped a.print.toList :=
  ⟨fun _ _ => print_eq_print_iff, escaped_print⟩

end Reveal.Ident
