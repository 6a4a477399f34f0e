import Reveal.Proofs.Prose.Item
import Reveal.Proofs.Prose.Match
/-!
# Rules on marked text

A rule sees a written text, but it never cuts through a piece: what it matches is a stretch of whole
items, and what it writes is that stretch with some characters exchanged for pieces. `Rewrites` is the
run of a rule over a marked text. That every rule has such a run (`Simulates.exists_rewrites`) is
proved once; a rule owes only that no match starts inside a piece and what a match exchanges.
-/
namespace Reveal.Prose

/-- Characters that give way to a piece, and what is kept behind them. -/
structure Exchange where
  dropped : List Char
  piece : Piece
  kept : List Item

/-- What stood where the exchanges were made. -/
def taken (e : List Exchange) : List Item :=
  e.flatMap fun x => plain x.dropped ++ x.kept

/-- What stands there now. -/
def put (e : List Exchange) : List Item :=
  e.flatMap fun x => .piece x.piece :: x.kept

theorem kept_infix_taken {e : List Exchange} {x : Exchange} (hx : x ∈ e) : x.kept <:+: taken e := by
  obtain ⟨before, after, rfl⟩ := List.append_of_mem hx
  exact ⟨taken before ++ plain x.dropped, taken after, by simp [taken]⟩

/-- `Rewrites rule edit xs ys places`: the rule makes `ys` of `xs`, in order from left to right. It has
matches at `places`, each given as the text from there on, and at each makes an edit. -/
inductive Rewrites (rule : Rule) (edit : List Char → List Exchange → Prop) :
    List Item → List Item → List (List Char) → Prop
  | nil : Rewrites rule edit [] [] []
  | keep {xs ys : List Item} {places : List (List Char)} (i : Item) (idle : rule.matchAt (write (i :: xs)) = none)
      (rest : Rewrites rule edit xs ys places) :
    Rewrites rule edit (i :: xs) (i :: ys) places
  | replace {xs ys : List Item} {places : List (List Char)} (e : List Exchange)
      (hit : rule.matchAt (write (taken e ++ xs)) = some ⟨(write (taken e)).length, write (put e)⟩)
      (valid : edit (write (taken e ++ xs)) e) (rest : Rewrites rule edit xs ys places) :
    Rewrites rule edit (taken e ++ xs) (put e ++ ys) (write (taken e ++ xs) :: places)

/-- What a rule owes to be run on marked texts that are made of `allowed` items. -/
structure Simulates (rule : Rule) (allowed : Item → Prop) (edit : List Char → List Exchange → Prop) : Prop where
  /-- No match starts inside a piece. -/
  skips : ∀ p : Piece, ∀ c ∈ p.html, ∀ s, rule.matchAt (c :: s) = none
  /-- A match takes whole items, and at least one. -/
  edits : ∀ {xs m}, (∀ i ∈ xs, allowed i) → rule.matchAt (write xs) = some m →
    ∃ e rest, xs = taken e ++ rest ∧ write (taken e) ≠ [] ∧
      m = ⟨(write (taken e)).length, write (put e)⟩ ∧ edit (write xs) e

variable {rule : Rule} {allowed : Item → Prop} {edit : List Char → List Exchange → Prop}
  {xs ys : List Item} {places : List (List Char)}

theorem Simulates.exists_rewrites (h : Simulates rule allowed edit) (hxs : ∀ i ∈ xs, allowed i) :
    ∃ ys, rule.apply (write xs) = write ys ∧ Rewrites rule edit xs ys (rule.places (write xs)) := by
  -- Behind a match the run goes on with fewer items, so the induction is on their number.
  induction hn : xs.length using Nat.strongRecOn generalizing xs with
  | ind n ih =>
    subst hn
    cases xs with
    | nil => exact ⟨[], by simp, by simpa using .nil⟩
    | cons i xs =>
      have hrest : ∀ i ∈ xs, allowed i := fun i hi => hxs i (List.mem_cons_of_mem _ hi)
      cases hm : rule.matchAt (write (i :: xs)) with
      | none =>
        obtain ⟨ys, happly, hrun⟩ := ih xs.length (by simp) hrest rfl
        have hkept : rule.apply (write (i :: xs)) = i.html ++ rule.apply (write xs) ∧
            rule.places (write (i :: xs)) = rule.places (write xs) := by
          cases i with
          | char c => exact ⟨Rule.apply_cons_of_none hm, Rule.places_cons_of_none hm⟩
          | piece p => exact Rule.apply_append_of_none (h.skips p)
        refine ⟨i :: ys, ?_, ?_⟩
        · rw [hkept.1, happly]
          rfl
        · rw [hkept.2]
          exact .keep i hm hrun
      | some m =>
        obtain ⟨e, rest, heq, hne, rfl, hedit⟩ := h.edits hxs hm
        have hlt : rest.length < (i :: xs).length := by
          rw [heq, List.length_append, Nat.lt_add_left_iff_pos, List.length_pos_iff]
          rintro hnil
          simp [hnil] at hne
        rw [heq] at hm hxs hedit ⊢
        obtain ⟨ys, happly, hrun⟩ := ih rest.length hlt (fun i hi => hxs i (List.mem_append_right _ hi)) rfl
        have hstep := Rule.apply_of_match hne (by rw [← write_append]; exact hm)
        rw [← write_append] at hstep
        refine ⟨put e ++ ys, ?_, ?_⟩
        · rw [hstep.1, happly, write_append]
        · rw [hstep.2]
          exact .replace e hm hedit hrun

/-! ## What a run keeps -/

/-- `Exchanged inserted xs ys`: some characters of `xs` have given way to pieces. All else is as it was. -/
inductive Exchanged (inserted : Piece → Prop) : List Item → List Item → Prop
  | nil : Exchanged inserted [] []
  | keep {xs ys : List Item} (i : Item) (rest : Exchanged inserted xs ys) : Exchanged inserted (i :: xs) (i :: ys)
  | exchange {xs ys : List Item} (dropped : List Char) (p : Piece) (new : inserted p)
      (rest : Exchanged inserted xs ys) :
    Exchanged inserted (plain dropped ++ xs) (.piece p :: ys)

variable {inserted : Piece → Prop}

theorem Exchanged.kept (h : Exchanged inserted xs ys) (kept : List Item) :
    Exchanged inserted (kept ++ xs) (kept ++ ys) := by
  induction kept with
  | nil => exact h
  | cons i kept ih => exact .keep i ih

theorem Exchanged.exchanges (h : Exchanged inserted xs ys) {e : List Exchange} (he : ∀ x ∈ e, inserted x.piece) :
    Exchanged inserted (taken e ++ xs) (put e ++ ys) := by
  induction e with
  | nil => exact h
  | cons x e ih =>
    rw [List.forall_mem_cons] at he
    simpa [taken, put] using Exchanged.exchange x.dropped x.piece he.1 ((ih he.2).kept x.kept)

theorem Rewrites.exchanged (h : Rewrites rule edit xs ys places)
    (hedit : ∀ place e, edit place e → ∀ x ∈ e, inserted x.piece) : Exchanged inserted xs ys := by
  induction h with
  | nil => exact .nil
  | keep i _ _ ih => exact .keep i ih
  | replace e _ valid _ ih => exact ih.exchanges (hedit _ e valid)

namespace Exchanged

variable (h : Exchanged inserted xs ys)
include h

theorem char_mem {c : Char} (hc : .char c ∈ ys) : .char c ∈ xs := by
  induction h with
  | nil => exact hc
  | keep i _ ih =>
    rcases List.mem_cons.1 hc with hc | hc
    · exact hc ▸ List.mem_cons_self
    · exact List.mem_cons_of_mem _ (ih hc)
  | exchange dropped p _ _ ih =>
    rcases List.mem_cons.1 hc with hc | hc
    · cases hc
    · exact List.mem_append_right _ (ih hc)

theorem safe (hxs : Safe xs) : Safe ys :=
  fun c hc => hxs c (h.char_mem hc)

theorem piece_mem {p : Piece} (hp : .piece p ∈ ys) : .piece p ∈ xs ∨ inserted p := by
  induction h with
  | nil => exact .inl hp
  | keep i _ ih =>
    rcases List.mem_cons.1 hp with hp | hp
    · exact .inl (hp ▸ List.mem_cons_self)
    · exact (ih hp).imp_left (List.mem_cons_of_mem _)
  | exchange dropped q new _ ih =>
    rcases List.mem_cons.1 hp with hp | hp
    · cases hp
      exact .inr new
    · exact (ih hp).imp_left (List.mem_append_right _)

/-- Characters that follow each other followed each other before. -/
theorem isInfix_plain {s : List Char} (hs : plain s <:+: ys) : plain s <:+: xs := by
  have hhead : ∀ {s xs ys}, Exchanged inserted xs ys → plain s <+: ys → plain s <+: xs := by
    intro s xs ys h hs
    induction h generalizing s with
    | nil => exact hs
    | keep i _ ih =>
      cases s with
      | nil => exact List.nil_prefix
      | cons c s =>
        rw [plain_cons, List.cons_prefix_cons] at hs ⊢
        exact ⟨hs.1, ih hs.2⟩
    | exchange dropped p _ _ _ =>
      cases s with
      | nil => exact List.nil_prefix
      | cons c s =>
        rw [plain_cons, List.cons_prefix_cons] at hs
        cases hs.1
  induction h with
  | nil => exact hs
  | keep i rest ih =>
    rcases List.infix_cons_iff.1 hs with hs | hs
    · exact (hhead (.keep i rest) hs).isInfix
    · exact List.infix_cons_iff.2 (.inr (ih hs))
  | exchange dropped p new rest ih =>
    rcases List.infix_cons_iff.1 hs with hs | hs
    · exact (hhead (.exchange dropped p new rest) hs).isInfix
    · exact (ih hs).trans (List.suffix_append ..).isInfix

end Exchanged

theorem Rewrites.isInfix_plain (h : Rewrites rule edit xs ys places) {s : List Char} (hs : plain s <:+: ys) :
    plain s <:+: xs := by
  have hex : Exchanged (fun _ => True) xs ys := h.exchanged fun _ _ _ _ _ => trivial
  exact hex.isInfix_plain hs

/-- What an edit keeps was there before. -/
theorem Rewrites.exists_kept {f : List Char → List Char} (h : Rewrites rule edit xs ys places)
    (hedit : ∀ place e, edit place e → ∃ x ∈ e, write x.kept = f place) :
    ∀ place ∈ places, ∃ kept, kept <:+: xs ∧ write kept = f place := by
  induction h with
  | nil => simp
  | keep i _ _ ih =>
    intro place hplace
    obtain ⟨kept, hkept, heq⟩ := ih place hplace
    exact ⟨kept, List.infix_cons_iff.2 (.inr hkept), heq⟩
  | replace e _ valid _ ih =>
    refine List.forall_mem_cons.2 ⟨?_, fun place hplace => ?_⟩
    · obtain ⟨x, hx, heq⟩ := hedit _ e valid
      exact ⟨x.kept, (kept_infix_taken hx).trans (List.prefix_append ..).isInfix, heq⟩
    · obtain ⟨kept, hkept, heq⟩ := ih place hplace
      exact ⟨kept, hkept.trans (List.suffix_append ..).isInfix, heq⟩

/-! ## What the rules exchange -/

/-- The marks on both sides of what is emphasised give way to a pair of pieces. -/
def EmphasisEdit (start stop : Piece) (_place : List Char) (e : List Exchange) : Prop :=
  ∃ fence body, e = [⟨fence, start, body⟩, ⟨fence, stop, []⟩]

/-- What stands around a link's address and caption gives way to three pieces. -/
def LinkEdit (place : List Char) (e : List Exchange) : Prop :=
  ∃ opening url space caption,
    e = [⟨opening, .linkStart, url⟩, ⟨space, .linkMiddle, caption⟩, ⟨[')'], .linkStop, []⟩] ∧
      write url = Rule.linkAddress place

/-- What stands around an image's address gives way to two pieces. -/
def ImageEdit (place : List Char) (e : List Exchange) : Prop :=
  ∃ opening url, e = [⟨opening, .imageStart, url⟩, ⟨[')'], .imageStop, []⟩] ∧ write url = Rule.imageAddress place

theorem put_link (opening space : List Char) (url caption ys : List Item) :
    put [⟨opening, .linkStart, url⟩, ⟨space, .linkMiddle, caption⟩, ⟨[')'], .linkStop, []⟩] ++ ys =
      .piece .linkStart :: (url ++ .piece .linkMiddle :: (caption ++ .piece .linkStop :: ys)) := by
  simp [put]

theorem put_image (opening : List Char) (url ys : List Item) :
    put [⟨opening, .imageStart, url⟩, ⟨[')'], .imageStop, []⟩] ++ ys =
      .piece .imageStart :: (url ++ .piece .imageStop :: ys) := by
  simp [put]

theorem Marked.kept {rank : Nat} {e : List Exchange} {x : Exchange} (h : Marked rank (taken e ++ xs)) (hx : x ∈ e) :
    Marked rank x.kept :=
  (h.subset (List.subset_append_left ..)).subset (kept_infix_taken hx).subset

theorem ne_of_isBlank {c : Char} (h : Text.isBlank c = true) : c ≠ '<' ∧ c ≠ '"' := by
  constructor <;> (rintro rfl; revert h; decide)

theorem simulates_emphasis (mark : Char) (width : Nat) (start stop : Piece)
    (hrule : rule.matchAt = Rule.emphasisAt mark width start.html stop.html) (hw : 0 < width)
    (hmark : ∀ p : Piece, mark ∉ p.html) : Simulates rule (fun _ => True) (EmphasisEdit start stop) where
  skips p c hc s := by
    rw [hrule]
    exact Rule.emphasisAt_eq_none hw fun heq => hmark p (heq ▸ hc)
  edits {xs m} _ hm := by
    rw [hrule] at hm
    obtain ⟨body, rest, hxs, -, rfl⟩ := Rule.exists_of_emphasisAt hm
    have hne : mark ≠ '<' ∧ mark ≠ '"' := by
      constructor <;> rintro rfl
      · exact hmark .delStart (by decide)
      · exact hmark .linkMiddle (by decide)
    have hfence : ∀ n, ∀ c ∈ List.replicate n mark, c ≠ '<' ∧ c ≠ '"' := by
      intro n c hc
      rw [List.eq_of_mem_replicate hc]
      exact hne
    obtain ⟨ys, rfl, hys⟩ := cut_of_ne hxs (hfence width)
    obtain ⟨width, rfl⟩ := Nat.exists_eq_succ_of_ne_zero (Nat.ne_of_gt hw)
    rw [List.replicate_succ, List.cons_append] at hys
    obtain ⟨body, zs, rfl, rfl, hzs⟩ := cut_at hys fun p _ => hmark p
    obtain ⟨rest, rfl, rfl⟩ := cut_of_ne hzs (hfence width)
    refine ⟨[⟨List.replicate (width + 1) mark, start, body⟩, ⟨List.replicate (width + 1) mark, stop, []⟩], rest,
      ?_, ?_, ?_, _, _, rfl⟩
    · simp [taken, List.replicate_succ]
    · simp [taken, List.replicate_succ]
    · simp [taken, put]
      omega

theorem simulates_strikethrough :
    Simulates Rule.strikethrough (fun _ => True) (EmphasisEdit .delStart .delStop) :=
  simulates_emphasis '~' 2 .delStart .delStop rfl (by decide) fun p => p.not_mem_html.1

theorem simulates_bold : Simulates Rule.bold (fun _ => True) (EmphasisEdit .strongStart .strongStop) :=
  simulates_emphasis '*' 2 .strongStart .strongStop rfl (by decide) fun p => p.not_mem_html.2.1

theorem simulates_italic : Simulates Rule.italic (fun _ => True) (EmphasisEdit .emStart .emStop) :=
  simulates_emphasis '*' 1 .emStart .emStop rfl (by decide) fun p => p.not_mem_html.2.1

theorem ne_of_mem_opening {opening gap : List Char} (hopening : ∀ c ∈ opening, c ≠ '<' ∧ c ≠ '"')
    (hgap : ∀ c ∈ gap, Text.isBlank c = true) : ∀ c ∈ opening ++ gap, c ≠ '<' ∧ c ≠ '"' := by
  intro c hc
  rcases List.mem_append.1 hc with hc | hc
  · exact hopening c hc
  · exact ne_of_isBlank (hgap c hc)

theorem simulates_link :
    Simulates Rule.link (fun i => ∀ p, i = .piece p → p.rank < 3) LinkEdit where
  skips p c hc s := Rule.callAt_eq_none fun heq => p.not_mem_html.2.2.1 (heq ▸ hc)
  edits {xs m} hxs hm := by
    obtain ⟨gap, dropped, caption, rest, heq, hgap, hne, hblank, rfl⟩ := Rule.exists_of_linkAt hm
    generalize haddress : Rule.linkAddress (write xs) = address at heq
    rw [← List.append_assoc] at heq
    obtain ⟨ys, rfl, hys⟩ := cut_of_ne heq (ne_of_mem_opening (by simp) hgap)
    obtain ⟨c, dropped, rfl⟩ := List.exists_cons_of_ne_nil hne
    rw [List.forall_mem_cons] at hblank
    have hpieces : ∀ p, .piece p ∈ ys → c ∉ p.html := by
      intro p hp hc
      have hnot := Piece.not_isBlank_of_rank_lt (hxs _ (List.mem_append_right _ hp) p rfl) c hc
      rw [hblank.1] at hnot
      cases hnot
    obtain ⟨url, zs, rfl, rfl, hzs⟩ := cut_at hys hpieces
    obtain ⟨ws, rfl, hws⟩ := cut_of_ne hzs fun c hc => ne_of_isBlank (hblank.2 c hc)
    obtain ⟨caption, rest, rfl, rfl, rfl⟩ := cut_at hws fun p _ => p.not_mem_html.2.2.2
    refine ⟨[⟨['(', 'l', 'i', 'n', 'k', ':'] ++ gap, .linkStart, url⟩, ⟨c :: dropped, .linkMiddle, caption⟩,
      ⟨[')'], .linkStop, []⟩], rest, ?_, ?_, ?_, _, url, _, caption, rfl, haddress.symm⟩
    · simp [taken]
    · simp [taken]
    · simp [taken, put, Rule.linkHtml, Piece.html]
      omega

theorem simulates_image : Simulates Rule.image (fun _ => True) ImageEdit where
  skips p c hc s := Rule.callAt_eq_none fun heq => p.not_mem_html.2.2.1 (heq ▸ hc)
  edits {xs m} _ hm := by
    obtain ⟨gap, rest, heq, hgap, -, -, rfl⟩ := Rule.exists_of_imageAt hm
    generalize haddress : Rule.imageAddress (write xs) = address at heq
    rw [← List.append_assoc] at heq
    obtain ⟨ys, rfl, hys⟩ := cut_of_ne heq (ne_of_mem_opening (by simp) hgap)
    obtain ⟨url, rest, rfl, rfl, rfl⟩ := cut_at hys fun p _ => p.not_mem_html.2.2.2
    refine ⟨[⟨['(', 'i', 'm', 'a', 'g', 'e', ':'] ++ gap, .imageStart, url⟩, ⟨[')'], .imageStop, []⟩], rest,
      ?_, ?_, ?_, _, url, rfl, haddress.symm⟩
    · simp [taken]
    · simp [taken]
    · simp [taken, put, Rule.imageHtml, Piece.html]
      omega

/-! ## All rules in a row -/

theorem Rewrites.marked {rank : Nat} (h : Rewrites rule edit xs ys places)
    (hedit : ∀ place e, edit place e → ∀ x ∈ e, x.piece.rank = rank) (hxs : Marked rank xs) :
    Marked (rank + 1) ys := by
  have hex : Exchanged (fun p => p.rank = rank) xs ys := h.exchanged hedit
  refine ⟨hex.safe hxs.safe, fun p hp => ?_⟩
  rcases hex.piece_mem hp with hp | hp
  · exact Nat.lt_succ_of_lt (hxs.rank_lt p hp)
  · exact Nat.lt_succ_of_le (Nat.le_of_eq hp)

theorem rank_emphasisEdit {start stop : Piece} (hrank : start.rank = stop.rank) :
    ∀ place e, EmphasisEdit start stop place e → ∀ x ∈ e, x.piece.rank = stop.rank := by
  rintro _ _ ⟨fence, body, rfl⟩
  simp [hrank]

theorem rank_linkEdit : ∀ place e, LinkEdit place e → ∀ x ∈ e, x.piece.rank = 3 := by
  rintro _ _ ⟨opening, url, space, caption, rfl, -⟩
  simp [Piece.rank]

theorem rank_imageEdit : ∀ place e, ImageEdit place e → ∀ x ∈ e, x.piece.rank = 4 := by
  rintro _ _ ⟨opening, url, rfl, -⟩
  simp [Piece.rank]

/-- A text on its way through the rules, as it is marked behind each of them. -/
structure Course (s : List Char) where
  (struck bolded slanted linked final : List Item)
  strike : Rewrites Rule.strikethrough (EmphasisEdit .delStart .delStop) (plain (escapeChars s)) struck
    (Rule.strikethrough.places (escapeChars s))
  bolden : Rewrites Rule.bold (EmphasisEdit .strongStart .strongStop) struck bolded (Rule.bold.places (write struck))
  slant : Rewrites Rule.italic (EmphasisEdit .emStart .emStop) bolded slanted (Rule.italic.places (write bolded))
  link : Rewrites Rule.link LinkEdit slanted linked (Rule.link.places (write slanted))
  image : Rewrites Rule.image ImageEdit linked final (Rule.image.places (write linked))
  write_struck : Rule.strikethrough.apply (escapeChars s) = write struck
  write_bolded : Rule.bold.apply (write struck) = write bolded
  write_slanted : Rule.italic.apply (write bolded) = write slanted
  write_linked : Rule.link.apply (write slanted) = write linked
  write_final : Rule.image.apply (write linked) = write final

namespace Course

variable {s : List Char} (course : Course s)

theorem struck_marked : Marked 1 course.struck :=
  course.strike.marked (rank_emphasisEdit rfl) (marked_escape s)

theorem bolded_marked : Marked 2 course.bolded :=
  course.bolden.marked (rank_emphasisEdit rfl) course.struck_marked

theorem slanted_marked : Marked 3 course.slanted :=
  course.slant.marked (rank_emphasisEdit rfl) course.bolded_marked

theorem linked_marked : Marked 4 course.linked :=
  course.link.marked rank_linkEdit course.slanted_marked

theorem final_marked : Marked 5 course.final :=
  course.image.marked rank_imageEdit course.linked_marked

theorem renderChars_eq : renderChars s = write course.final := by
  simp only [renderChars, markupChars, Rule.all, List.foldl_cons, List.foldl_nil, course.write_struck,
    course.write_bolded, course.write_slanted, course.write_linked, course.write_final]

end Course

theorem nonempty_course (s : List Char) : Nonempty (Course s) := by
  have hall : ∀ xs : List Item, ∀ i ∈ xs, True := fun _ _ _ => trivial
  obtain ⟨struck, hstruck, strike⟩ := simulates_strikethrough.exists_rewrites (hall (plain (escapeChars s)))
  obtain ⟨bolded, hbolded, bolden⟩ := simulates_bold.exists_rewrites (hall struck)
  obtain ⟨slanted, hslanted, slant⟩ := simulates_italic.exists_rewrites (hall bolded)
  have hslant : Marked 3 slanted :=
    slant.marked (rank_emphasisEdit rfl) (bolden.marked (rank_emphasisEdit rfl)
      (strike.marked (rank_emphasisEdit rfl) (marked_escape s)))
  obtain ⟨linked, hlinked, link⟩ := simulates_link.exists_rewrites
    fun i hi p hp => hslant.rank_lt p (hp ▸ hi)
  obtain ⟨final, hfinal, image⟩ := simulates_image.exists_rewrites (hall linked)
  rw [write_plain] at strike hstruck
  exact ⟨⟨struck, bolded, slanted, linked, final, strike, bolden, slant, link, image, hstruck, hbolded, hslanted,
    hlinked, hfinal⟩⟩

end Reveal.Prose
