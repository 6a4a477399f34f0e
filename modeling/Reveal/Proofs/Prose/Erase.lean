import Reveal.Proofs.Ident.Print
import Reveal.Proofs.Prose.Address
/-!
# What rendering keeps of a text

Take the tags out of a rendered text, and what is left is the author's: nothing that was not there, and
all in its order (`erase_renderChars_sublist`). What is missing are the marks of the rules that had a
match. Where no link and no image can be, these are the marks of emphasis, and nothing else is lost
(`withoutMarks_erase`).
-/
namespace Reveal.Prose

/-- The piece of inline html at the head of a text. -/
def tagAt? (s : List Char) : Option (List Char) :=
  Tag.all.find? fun tag => tag.isPrefixOf s

/-- Replaces every piece of inline html by nothing. -/
def erasing : Rule where
  name := "erasing"
  matchAt s := (tagAt? s).map fun tag => ⟨tag.length, []⟩

/-- Takes the inline html out of a text. -/
def erase (s : List Char) : List Char :=
  erasing.apply s

def withoutMarks (s : List Char) : List Char :=
  s.filter fun c => c != '~' && c != '*'

/-- What of a marked text is the author's. -/
def authored (xs : List Item) : List Char :=
  xs.filterMap fun
    | .char c => some c
    | .piece _ => none

variable {rule : Rule} {edit : List Char → List Exchange → Prop} {inserted : Piece → Prop} {xs ys : List Item}
  {places : List (List Char)} {s t u : List Char} {c : Char} {p : Piece}

@[simp] theorem authored_nil : authored [] = [] := rfl

@[simp] theorem authored_char (c : Char) (xs : List Item) : authored (.char c :: xs) = c :: authored xs := rfl

@[simp] theorem authored_piece (p : Piece) (xs : List Item) : authored (.piece p :: xs) = authored xs := rfl

@[simp] theorem authored_append (xs ys : List Item) : authored (xs ++ ys) = authored xs ++ authored ys :=
  List.filterMap_append

@[simp] theorem authored_plain (s : List Char) : authored (plain s) = s := by
  induction s with
  | nil => rfl
  | cons c s ih => rw [plain_cons, authored_char, ih]

/-! ## Erasing -/

theorem mem_all_iff : t ∈ Tag.all ↔ ∃ p : Piece, p.html = t := by
  constructor
  · intro h
    have hall : t ∈ [Piece.delStart, .delStop, .strongStart, .strongStop, .emStart, .emStop, .linkStart, .linkMiddle,
      .linkStop, .imageStart, .imageStop].map Piece.html := h
    obtain ⟨p, -, hp⟩ := List.mem_map.1 hall
    exact ⟨p, hp⟩
  · rintro ⟨p, rfl⟩
    cases p <;> decide

theorem tagAt?_piece (p : Piece) (s : List Char) : tagAt? (p.html ++ s) = some p.html := by
  unfold tagAt?
  cases h : Tag.all.find? fun tag => tag.isPrefixOf (p.html ++ s) with
  | none =>
    have hnone := List.find?_eq_none.1 h p.html (mem_all_iff.2 ⟨p, rfl⟩)
    exact absurd (List.isPrefixOf_iff_prefix.2 (List.prefix_append ..)) hnone
  | some tag =>
    have hbegin := List.find?_some h
    obtain ⟨q, rfl⟩ := mem_all_iff.1 (List.mem_of_find?_eq_some h)
    obtain ⟨rest, hrest⟩ := List.isPrefixOf_iff_prefix.1 hbegin
    rw [Piece.eq_of_html_append hrest]

theorem tagAt?_char (hlt : c ≠ '<') (hquot : c ≠ '"') (s : List Char) : tagAt? (c :: s) = none := by
  refine List.find?_eq_none.2 fun tag htag hbegin => ?_
  obtain ⟨p, rfl⟩ := mem_all_iff.1 htag
  obtain ⟨d, u, hp, hd, -⟩ := p.html_eq_cons
  rw [hp, List.isPrefixOf_iff_prefix, List.cons_prefix_cons] at hbegin
  rcases hd with rfl | rfl
  · exact hlt hbegin.1.symm
  · exact hquot hbegin.1.symm

/-- Of a safe text the pieces are erased, and nothing but the pieces. -/
theorem erase_write (h : Safe xs) : erase (write xs) = authored xs := by
  unfold erase
  induction xs with
  | nil => simp
  | cons i xs ih =>
    have hxs := ih (h.subset (List.subset_cons_self i xs))
    cases i with
    | char c =>
      obtain ⟨hlt, -, hquot⟩ := h c List.mem_cons_self
      have hidle : erasing.matchAt (c :: write xs) = none := by simp [erasing, tagAt?_char hlt hquot]
      rw [write_char, Rule.apply_cons_of_none hidle, hxs, authored_char]
    | piece p =>
      obtain ⟨d, u, hp, -⟩ := p.html_eq_cons
      have hmatch : erasing.matchAt (p.html ++ write xs) = some ⟨p.html.length, []⟩ := by
        simp [erasing, tagAt?_piece]
      rw [write_piece, (Rule.apply_of_match (by simp [hp]) hmatch).1, hxs, authored_piece, List.nil_append]

/-! ## What the rules keep -/

theorem Exchanged.authored_sublist (h : Exchanged inserted xs ys) : (authored ys).Sublist (authored xs) := by
  induction h with
  | nil => exact .slnil
  | keep i _ ih =>
    cases i with
    | char c => exact ih.cons_cons c
    | piece p => exact ih
  | exchange dropped p _ _ ih =>
    rw [authored_piece, authored_append]
    exact ih.trans (List.sublist_append_right ..)

theorem Rewrites.authored_sublist (h : Rewrites rule edit xs ys places) : (authored ys).Sublist (authored xs) := by
  have hex : Exchanged (fun _ => True) xs ys := h.exchanged fun _ _ _ _ _ => trivial
  exact hex.authored_sublist

theorem erase_renderChars_sublist (s : List Char) : (erase (renderChars s)).Sublist (escapeChars s) := by
  obtain ⟨course⟩ := nonempty_course s
  have hslanted : (authored course.slanted).Sublist (escapeChars s) := by
    have hemphasis := course.slant.authored_sublist.trans
      (course.bolden.authored_sublist.trans course.strike.authored_sublist)
    rwa [authored_plain] at hemphasis
  rw [course.renderChars_eq, erase_write course.final_marked.safe]
  exact course.image.authored_sublist.trans (course.link.authored_sublist.trans hslanted)

/-! ## Where no link and no image can be -/

/-- What gives way to the two pieces of emphasis is the rule's marks. -/
theorem fence_eq {mark : Char} {width : Nat} {start stop : Piece} {fence : List Char} {body : List Item}
    (hrule : rule.matchAt = Rule.emphasisAt mark width start.html stop.html)
    (hit : rule.matchAt (write (taken [⟨fence, start, body⟩, ⟨fence, stop, []⟩] ++ xs)) =
      some ⟨(write (taken [⟨fence, start, body⟩, ⟨fence, stop, []⟩])).length,
        write (put [⟨fence, start, body⟩, ⟨fence, stop, []⟩])⟩) :
    fence = List.replicate width mark := by
  rw [hrule] at hit
  obtain ⟨body', rest, hplace, -, hm⟩ := Rule.exists_of_emphasisAt hit
  simp only [Match.mk.injEq] at hm
  obtain ⟨hlength, hput⟩ := hm
  have hbody : write body = body' := by simpa [put] using hput
  have hwidth : fence.length = width := by
    simp [taken, hbody] at hlength
    omega
  rw [write_append] at hplace
  simp only [taken, List.flatMap_cons, write_append, write_plain, List.append_assoc] at hplace
  exact List.append_inj_left hplace (by rw [hwidth, List.length_replicate])

theorem withoutMarks_append (s t : List Char) : withoutMarks (s ++ t) = withoutMarks s ++ withoutMarks t :=
  List.filter_append ..

theorem withoutMarks_replicate {mark : Char} (hmark : mark = '~' ∨ mark = '*') (n : Nat) :
    withoutMarks (List.replicate n mark) = [] := by
  refine List.filter_eq_nil_iff.2 fun c hc => ?_
  rw [List.eq_of_mem_replicate hc]
  rcases hmark with rfl | rfl <;> decide

/-- Emphasis costs the text nothing but marks. -/
theorem withoutMarks_emphasis {mark : Char} {width : Nat} {start stop : Piece}
    (h : Rewrites rule (EmphasisEdit start stop) xs ys places)
    (hrule : rule.matchAt = Rule.emphasisAt mark width start.html stop.html) (hmark : mark = '~' ∨ mark = '*') :
    withoutMarks (authored ys) = withoutMarks (authored xs) := by
  induction h with
  | nil => rfl
  | @keep xs ys _ i _ _ ih =>
    have hcons : ∀ zs, authored (i :: zs) = authored [i] ++ authored zs := authored_append [i]
    rw [hcons xs, hcons ys, withoutMarks_append, withoutMarks_append, ih]
  | @replace xs ys _ e hit valid _ ih =>
    obtain ⟨fence, body, rfl⟩ := valid
    have hfence := withoutMarks_replicate hmark width
    rw [← fence_eq hrule hit] at hfence
    have hedit : withoutMarks (authored (put [⟨fence, start, body⟩, ⟨fence, stop, []⟩])) =
        withoutMarks (authored (taken [⟨fence, start, body⟩, ⟨fence, stop, []⟩])) := by
      simp [put, taken, withoutMarks_append, hfence]
    rw [authored_append, authored_append, withoutMarks_append, withoutMarks_append, hedit, ih]

/-- A rule without a match leaves the text as it is. -/
theorem Rewrites.eq_of_places_eq_nil (h : Rewrites rule edit xs ys places) (hplaces : places = []) : ys = xs := by
  induction h with
  | nil => rfl
  | keep i _ _ ih => rw [ih hplaces]
  | replace => cases hplaces

theorem Rule.places_eq_nil (h : ∀ t, t <:+ s → rule.matchAt t = none) : rule.places s = [] := by
  induction s with
  | nil => exact places_nil
  | cons c s ih =>
    rw [places_cons_of_none (h _ List.suffix_rfl)]
    exact ih fun t ht => h t (ht.trans (List.suffix_cons c s))

/-- A link or an image needs its opening. -/
theorem Rule.places_call_eq_nil {opening : List Char} {bodyAt : List Char → Option Match}
    (hrule : rule.matchAt = callAt opening bodyAt) (h : ¬ opening <:+: s) : rule.places s = [] := by
  refine places_eq_nil fun t ht => ?_
  rw [hrule]
  cases hm : callAt opening bodyAt t with
  | none => rfl
  | some m =>
    obtain ⟨gap, address, body, rfl, -⟩ := exists_of_callAt hm
    exact absurd ((List.prefix_append ..).isInfix.trans ht.isInfix) h

/-- An opening in a marked text is the author's. -/
theorem isInfix_of_write (h : '(' :: u <:+: write xs) (hu : ∀ c ∈ u, c ≠ '<' ∧ c ≠ '"') : plain ('(' :: u) <:+: xs := by
  obtain ⟨before, after, heq⟩ := h
  rw [List.append_assoc, List.cons_append] at heq
  obtain ⟨ys, zs, rfl, -, hzs⟩ := cut_at heq.symm fun p _ => p.not_mem_html.2.2.1
  obtain ⟨rest, rfl, -⟩ := cut_of_ne hzs hu
  exact ⟨ys, rest, by simp⟩

theorem prefix_of_prefix_escapeChars (h : u <+: escapeChars s) (hu : '&' ∉ u) : u <+: s := by
  induction s generalizing u with
  | nil => exact h
  | cons c s ih =>
    cases u with
    | nil => exact List.nil_prefix
    | cons d u =>
      rw [List.mem_cons, not_or] at hu
      rw [escapeChars_cons] at h
      rcases entity_cases c with ⟨hc, -⟩ | ⟨-, v, hv⟩
      · rw [hc, List.singleton_append, List.cons_prefix_cons] at h
        exact List.cons_prefix_cons.2 ⟨h.1, ih h.2 hu.2⟩
      · rw [hv, List.cons_append, List.cons_prefix_cons] at h
        exact absurd h.1.symm hu.1

/-- An opening in an escaped text stands in the text. -/
theorem isInfix_of_escapeChars (h : '(' :: u <:+: escapeChars s) (hu : '&' ∉ u) : '(' :: u <:+: s := by
  induction s with
  | nil => exact h
  | cons c s ih =>
    rcases entity_cases c with ⟨hc, -⟩ | ⟨hc, -⟩
    · have hcons : escapeChars (c :: s) = c :: escapeChars s := by rw [escapeChars_cons, hc, List.singleton_append]
      rcases List.infix_cons_iff.1 (hcons ▸ h) with hbegin | hlater
      · refine (prefix_of_prefix_escapeChars (hcons ▸ hbegin) ?_).isInfix
        exact List.not_mem_cons_of_ne_of_not_mem (by decide) hu
      · exact List.infix_cons_iff.2 (.inr (ih hlater))
    · have hall : ['&', '<', '>', '"', '\''].all fun c => '(' ∉ entity c := by decide
      obtain ⟨before, after, heq⟩ := h
      rw [List.append_assoc, List.cons_append, escapeChars_cons] at heq
      obtain ⟨w, -, hw⟩ := exists_append_of_notMem (List.all_iff_forall_prop.1 hall c hc) heq.symm
      refine List.infix_cons_iff.2 (.inr (ih ⟨w, after, ?_⟩))
      rw [hw, List.append_assoc, List.cons_append]

/-- What is lost where there is neither a link nor an image is marks of emphasis. -/
theorem withoutMarks_erase (hlink : ¬ ['(', 'l', 'i', 'n', 'k', ':'] <:+: s)
    (himage : ¬ ['(', 'i', 'm', 'a', 'g', 'e', ':'] <:+: s) :
    withoutMarks (erase (renderChars s)) = withoutMarks (escapeChars s) := by
  obtain ⟨course⟩ := nonempty_course s
  have horigin {u : List Char} (hu : ∀ c ∈ u, c ≠ '<' ∧ c ≠ '"') (hamp : '&' ∉ u)
      (h : '(' :: u <:+: write course.slanted) : '(' :: u <:+: s := by
    obtain ⟨before, after, heq⟩ := course.slanted_origin _ (isInfix_of_write h hu)
    refine isInfix_of_escapeChars ⟨write before, write after, ?_⟩ hamp
    rw [← write_plain (escapeChars s), ← heq, write_append, write_append, write_plain]
  have hlinked : course.linked = course.slanted := by
    refine course.link.eq_of_places_eq_nil (Rule.places_call_eq_nil rfl fun h => hlink ?_)
    exact horigin (by simp) (by decide) h
  have hfinal : course.final = course.linked := by
    refine course.image.eq_of_places_eq_nil (Rule.places_call_eq_nil rfl fun h => himage ?_)
    rw [hlinked] at h
    exact horigin (by simp) (by decide) h
  rw [course.renderChars_eq, erase_write course.final_marked.safe, hfinal, hlinked,
    withoutMarks_emphasis course.slant rfl (.inr rfl), withoutMarks_emphasis course.bolden rfl (.inr rfl),
    withoutMarks_emphasis course.strike rfl (.inl rfl), authored_plain]

/-- Without its tags, a rendered text has nothing that is not in the escaped text, and all in its order.
If the author has opened no link and no image, nothing is lost but marks of emphasis. -/
theorem render_keeps_text (text : String) :
    (erase (render text).toList).Sublist (escape text).toList ∧
    (¬ "(link:".toList <:+: text.toList → ¬ "(image:".toList <:+: text.toList →
      withoutMarks (erase (render text).toList) = withoutMarks (escape text).toList) := by
  rw [render, escape, String.toList_ofList, String.toList_ofList]
  exact ⟨erase_renderChars_sublist text.toList, fun hlink himage => withoutMarks_erase hlink himage⟩

/-- Elements that cross, and an opening with a mark inside, which is none. -/
theorem render_keeps_text_crossed :
    render "~~a **b~~ & c** (li*nk: http://x y*)" =
      "<del>a <strong>b</del> &amp; c</strong> (li<em>nk: http://x y</em>)" ∧
    ¬ "(link:".toList <:+: "~~a **b~~ & c** (li*nk: http://x y*)".toList ∧
    ¬ "(image:".toList <:+: "~~a **b~~ & c** (li*nk: http://x y*)".toList ∧
    withoutMarks (erase (render "~~a **b~~ & c** (li*nk: http://x y*)").toList) =
      withoutMarks (escape "~~a **b~~ & c** (li*nk: http://x y*)").toList := by
  have hlink : ¬ "(link:".toList <:+: "~~a **b~~ & c** (li*nk: http://x y*)".toList := by decide
  have himage : ¬ "(image:".toList <:+: "~~a **b~~ & c** (li*nk: http://x y*)".toList := by decide
  exact ⟨by decide +kernel, hlink, himage, (render_keeps_text _).2 hlink himage⟩

end Reveal.Prose
