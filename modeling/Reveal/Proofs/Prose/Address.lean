import Mathlib.Data.List.Infix
import Reveal.Proofs.Prose.Rewrite
/-!
# Addresses in attributes

The link and image rules put an address between quotes. By then the earlier rules have inserted html
of their own, and what they have inserted may lie in the address. An address is clean exactly if it
stands in the escaped text as it is, and the attributes of a rendered text are sealed exactly if all
addresses are clean and the last rule has nothing to replace in the address of a link
(`address_sealed_iff`).
-/
namespace Reveal.Prose

open Rule (linkAddress imageAddress)

/-- A text in which no quote ends an attribute and no markup starts. -/
def Clean (s : List Char) : Prop :=
  ∀ c ∈ s, c ≠ '"' ∧ c ≠ '<' ∧ c ≠ '>'

instance (s : List Char) : Decidable (Clean s) :=
  List.decidableBAll (fun c => c ≠ '"' ∧ c ≠ '<' ∧ c ≠ '>') s

/-- An attribute's value, which html reads up to the next quote, is clean, and the quote is the one
with which `stop` begins. -/
def SealedBy (stop s : List Char) : Prop :=
  Clean (s.takeWhile (· != '"')) ∧ stop <+: s.dropWhile (· != '"')

instance (stop s : List Char) : Decidable (SealedBy stop s) :=
  inferInstanceAs (Decidable (_ ∧ _))

/-- Every address in a text is sealed by the piece that a rule has put behind it. -/
def Sealed (html : List Char) : Prop :=
  ∀ place ∈ html.tails,
    (Tag.linkStart <+: place → SealedBy Tag.linkMiddle (place.drop Tag.linkStart.length)) ∧
    (Tag.imageStart <+: place → SealedBy Tag.imageStop (place.drop Tag.imageStart.length))

instance (html : List Char) : Decidable (Sealed html) :=
  inferInstanceAs (Decidable (∀ place ∈ html.tails, _ ∧ _))

/-- A text as the link rule finds it. -/
def beforeLinks (s : List Char) : List Char :=
  Rule.italic.apply (Rule.bold.apply (Rule.strikethrough.apply (escapeChars s)))

/-- The addresses that the link rule takes. -/
def linkAddresses (s : List Char) : List (List Char) :=
  (Rule.link.places (beforeLinks s)).map linkAddress

/-- The addresses that the image rule takes. -/
def imageAddresses (s : List Char) : List (List Char) :=
  (Rule.image.places (Rule.link.apply (beforeLinks s))).map imageAddress

variable {xs ys : List Item} {places : List (List Char)} {s t u : List Char} {c : Char} {p : Piece}

/-! ## Clean and sealed marked text -/

theorem clean_write_iff (h : Safe xs) : Clean (write xs) ↔ ∃ s, xs = plain s := by
  constructor
  · intro hclean
    refine exists_plain fun p hp => ?_
    obtain ⟨c, s, hhtml, hc, -⟩ := p.html_eq_cons
    have hmem : c ∈ write xs := List.mem_flatMap.2 ⟨.piece p, hp, by simp [Item.html, hhtml]⟩
    rcases hc with rfl | rfl
    · exact (hclean _ hmem).2.1 rfl
    · exact (hclean _ hmem).1 rfl
  · rintro ⟨s, rfl⟩
    rw [write_plain]
    intro c hc
    obtain ⟨hlt, hgt, hquot⟩ := h c (List.mem_map.2 ⟨c, hc, rfl⟩)
    exact ⟨hquot, hlt, hgt⟩

/-- Characters of which `Q` holds, and then the piece. -/
def Closes (Q : List Char → Prop) (p : Piece) (xs : List Item) : Prop :=
  ∃ s rest, xs = plain s ++ .piece p :: rest ∧ Q s

/-- Behind every address comes the piece that belongs to it, and `Q` holds of every link's address. -/
def SealedItems (Q : List Char → Prop) : List Item → Prop
  | [] => True
  | .piece .linkStart :: xs => Closes Q .linkMiddle xs ∧ SealedItems Q xs
  | .piece .imageStart :: xs => Closes (fun _ => True) .imageStop xs ∧ SealedItems Q xs
  | _ :: xs => SealedItems Q xs

variable {Q : List Char → Prop}

theorem sealedItems_char : SealedItems Q (.char c :: xs) ↔ SealedItems Q xs := Iff.rfl

theorem sealedItems_piece (hlink : p ≠ .linkStart) (himage : p ≠ .imageStart) :
    SealedItems Q (.piece p :: xs) ↔ SealedItems Q xs := by
  cases p <;> first | exact absurd rfl hlink | exact absurd rfl himage | exact Iff.rfl

/-- Where a safe text begins like a piece with a quote in front, that piece stands there. -/
theorem exists_piece_of_write (h : Safe xs) (hp : p = .linkMiddle ∨ p = .imageStop) (hxs : write xs = p.html ++ t) :
    ∃ rest, xs = .piece p :: rest := by
  match xs with
  | [] => rcases hp with rfl | rfl <;> cases hxs
  | .char c :: xs =>
    have hc : c = '"' := by
      rcases hp with rfl | rfl <;> exact (List.cons.inj hxs).1
    exact absurd hc (h c List.mem_cons_self).2.2
  | .piece q :: xs => exact ⟨xs, by rw [Piece.eq_of_html_append hxs]⟩

theorem sealedBy_write_iff (h : Safe xs) (hp : p = .linkMiddle ∨ p = .imageStop) :
    SealedBy p.html (write xs) ↔ Closes (fun _ => True) p xs := by
  have hquot : ∃ t, p.html = '"' :: t := by
    rcases hp with rfl | rfl <;> exact ⟨_, rfl⟩
  constructor
  · rintro ⟨hclean, after, hafter⟩
    have hcut : write xs = (write xs).takeWhile (· != '"') ++ (p.html ++ after) := by
      rw [hafter, List.takeWhile_append_dropWhile]
    obtain ⟨ys, hxs, hys⟩ := cut_of_ne hcut fun c hc => ⟨(hclean c hc).2.1, (hclean c hc).1⟩
    obtain ⟨rest, rfl⟩ := exists_piece_of_write (h.subset (hxs ▸ List.subset_append_right ..)) hp hys
    exact ⟨_, rest, hxs, trivial⟩
  · rintro ⟨s, rest, rfl, -⟩
    have hs : ∀ c ∈ s, c ≠ '<' ∧ c ≠ '>' ∧ c ≠ '"' := fun c hc => h c (by simp [plain, hc])
    have hfree : ∀ c ∈ s, (c != '"') = true := fun c hc => bne_iff_ne.2 (hs c hc).2.2
    obtain ⟨t, ht⟩ := hquot
    rw [SealedBy, write_append, write_plain, write_piece, ht, List.cons_append,
      List.takeWhile_append_of_pos hfree, List.takeWhile_cons_of_neg (by decide), List.append_nil,
      List.dropWhile_append_of_pos hfree, List.dropWhile_cons_of_neg (by decide)]
    exact ⟨fun c hc => ⟨(hs c hc).2.2, (hs c hc).1, (hs c hc).2.1⟩, List.prefix_append ..⟩

theorem sealed_cons (c : Char) (s : List Char) : Sealed (c :: s) ↔
    ((Tag.linkStart <+: c :: s → SealedBy Tag.linkMiddle ((c :: s).drop Tag.linkStart.length)) ∧
      (Tag.imageStart <+: c :: s → SealedBy Tag.imageStop ((c :: s).drop Tag.imageStart.length))) ∧ Sealed s := by
  rw [Sealed, List.tails_cons, List.forall_mem_cons]
  rfl

theorem sealed_append_of_notMem (hu : '<' ∉ u) : Sealed (u ++ s) ↔ Sealed s := by
  induction u with
  | nil => rfl
  | cons c u ih =>
    rw [List.mem_cons, not_or] at hu
    rw [List.cons_append, sealed_cons, ih hu.2]
    simp [Tag.linkStart, Tag.imageStart, List.cons_prefix_cons, hu.1]

theorem prefix_write_iff (p q : Piece) (xs : List Item) : q.html <+: write (.piece p :: xs) ↔ p = q := by
  constructor
  · rintro ⟨t, ht⟩
    exact (Piece.eq_of_html_append ht).symm
  · rintro rfl
    exact List.prefix_append ..

/-- What `Sealed` asks where a piece stands, for the addresses that `start` opens and `stop` closes. -/
theorem sealedBy_piece_iff (h : Safe xs) (p start : Piece) {stop : Piece}
    (hstop : stop = .linkMiddle ∨ stop = .imageStop) :
    (start.html <+: write (.piece p :: xs) →
        SealedBy stop.html ((write (.piece p :: xs)).drop start.html.length)) ↔
      (p = start → Closes (fun _ => True) stop xs) := by
  rw [prefix_write_iff]
  refine forall_congr' fun heq => ?_
  rw [heq, write_piece, List.drop_left, sealedBy_write_iff h hstop]

theorem sealed_write_iff (h : Safe xs) : Sealed (write xs) ↔ SealedItems (fun _ => True) xs := by
  induction xs with
  | nil => simp [Sealed, SealedItems, Tag.linkStart, Tag.imageStart]
  | cons i xs ih =>
    have hxs := h.subset (List.subset_cons_self i xs)
    cases i with
    | char c =>
      have hc : '<' ∉ [c] := by simpa using Ne.symm (h c List.mem_cons_self).1
      rw [write_char, ← List.singleton_append, sealed_append_of_notMem hc, ih hxs, sealedItems_char]
    | piece p =>
      obtain ⟨d, t, hp, -, ht⟩ := p.html_eq_cons
      have hwrite : d :: (t ++ write xs) = write (.piece p :: xs) := by rw [write_piece, hp, List.cons_append]
      have hlink := sealedBy_piece_iff hxs p .linkStart (.inl rfl)
      have himage := sealedBy_piece_iff hxs p .imageStart (.inr rfl)
      simp only [Piece.html] at hlink himage
      rw [← hwrite, sealed_cons, sealed_append_of_notMem ht, ih hxs, hwrite, hlink, himage]
      cases p <;> simp [SealedItems]

/-! ## Links -/

theorem sealedItems_append (h : ∀ p, .piece p ∈ xs → p.rank < 3) : SealedItems Q (xs ++ ys) ↔ SealedItems Q ys := by
  induction xs with
  | nil => rfl
  | cons i xs ih =>
    have hxs := ih fun p hp => h p (List.mem_cons_of_mem _ hp)
    cases i with
    | char c => rw [List.cons_append, sealedItems_char, hxs]
    | piece p =>
      have hp := h p List.mem_cons_self
      rw [List.cons_append, sealedItems_piece, hxs]
      · rintro rfl
        exact absurd hp (by decide)
      · rintro rfl
        exact absurd hp (by decide)

/-- Items among which a piece is not are closed by it exactly if they are characters only. -/
theorem closes_append_iff (h : .piece p ∉ xs) (hsafe : Safe xs) :
    Closes Q p (xs ++ .piece p :: ys) ↔ Clean (write xs) ∧ Q (write xs) := by
  rw [clean_write_iff hsafe]
  constructor
  · rintro ⟨s, rest, heq, hs⟩
    obtain ⟨w, hplain, hw⟩ := exists_append_of_notMem h heq
    cases w with
    | nil =>
      rw [List.append_nil] at hplain
      subst hplain
      exact ⟨⟨s, rfl⟩, by rwa [write_plain]⟩
    | cons i w =>
      rw [List.cons_append, List.cons.injEq] at hw
      rw [← hw.1] at hplain
      exact absurd (hplain ▸ by simp) (piece_notMem_plain p s)
  · rintro ⟨⟨s, rfl⟩, hs⟩
    rw [write_plain] at hs
    exact ⟨s, ys, rfl, hs⟩

/-- Behind the link rule, attributes are sealed exactly if all addresses are clean. -/
theorem sealedItems_link_iff (h : Rewrites Rule.link LinkEdit xs ys places) (hxs : Marked 3 xs) :
    SealedItems Q ys ↔ ∀ place ∈ places, Clean (linkAddress place) ∧ Q (linkAddress place) := by
  induction h with
  | nil => simp [SealedItems]
  | @keep xs ys _ i _ _ ih =>
    rw [← ih (hxs.subset (List.subset_cons_self i xs)), ← List.singleton_append]
    refine sealedItems_append fun p hp => hxs.rank_lt p ?_
    rw [List.mem_singleton.1 hp]
    exact List.mem_cons_self
  | @replace xs ys _ e hit valid _ ih =>
    obtain ⟨opening, url, space, caption, rfl, hurl⟩ := valid
    rw [List.forall_mem_cons, ← hurl, ← ih (hxs.subset (List.subset_append_right ..))]
    have hmarkedUrl : Marked 3 url := hxs.kept (x := ⟨opening, .linkStart, url⟩) (by simp)
    have hmarkedCaption : Marked 3 caption := hxs.kept (x := ⟨space, .linkMiddle, caption⟩) (by simp)
    have hmiddle : .piece .linkMiddle ∉ url := fun hmem => absurd (hmarkedUrl.rank_lt _ hmem) (by decide)
    rw [put_link, SealedItems, closes_append_iff hmiddle hmarkedUrl.safe, sealedItems_append hmarkedUrl.rank_lt,
      sealedItems_piece (by decide) (by decide), sealedItems_append hmarkedCaption.rank_lt,
      sealedItems_piece (by decide) (by decide)]

/-! ## Images -/

theorem closes_char : Closes Q p (.char c :: xs) ↔ Closes (fun s => Q (c :: s)) p xs := by
  constructor
  · rintro ⟨s, rest, heq, hs⟩
    cases s with
    | nil => cases (List.cons.inj heq).1
    | cons d s =>
      rw [plain_cons, List.cons_append, List.cons.injEq, Item.char.injEq] at heq
      exact ⟨s, rest, heq.2, heq.1 ▸ hs⟩
  · rintro ⟨s, rest, rfl, hs⟩
    exact ⟨c :: s, rest, rfl, hs⟩

theorem closes_piece {q : Piece} : Closes Q p (.piece q :: xs) ↔ q = p ∧ Q [] := by
  constructor
  · rintro ⟨s, rest, heq, hs⟩
    cases s with
    | nil => exact ⟨Item.piece.inj (List.cons.inj heq).1, hs⟩
    | cons d s => cases (List.cons.inj heq).1
  · rintro ⟨rfl, hs⟩
    exact ⟨[], xs, rfl, hs⟩

theorem closes_plain_append : Closes Q p (plain t ++ xs) ↔ Closes (fun s => Q (t ++ s)) p xs := by
  induction t generalizing Q with
  | nil => rfl
  | cons c t ih =>
    rw [plain_cons, List.cons_append, closes_char, ih]
    rfl

theorem taken_plain_image (opening t : List Char) :
    taken [⟨opening, .imageStart, plain t⟩, ⟨[')'], .imageStop, []⟩] = plain (opening ++ t ++ [')']) := by
  simp [taken]

/-- What lies in front of a piece is there after the image rule as before, provided that the rule has
nothing to replace in it. -/
theorem closes_image_iff (h : Rewrites Rule.image ImageEdit xs ys places) (hxs : Safe xs)
    (hclean : ∀ place ∈ places, Clean (imageAddress place)) :
    Closes (fun _ => True) .linkMiddle ys ↔ Closes (fun s => Rule.image.apply s = s) .linkMiddle xs := by
  induction h with
  | nil => simp [Closes]
  | @keep xs ys _ i idle _ ih =>
    cases i with
    | piece q => simp [closes_piece]
    | char c =>
      rw [closes_char, closes_char, ih (hxs.subset (List.subset_cons_self ..)) hclean]
      refine exists_congr fun s => exists_congr fun rest => and_congr_right fun heq => ?_
      have hidle : Rule.imageAt (c :: s) = none := by
        cases hm : Rule.imageAt (c :: s) with
        | none => rfl
        | some m =>
          have hwhole := Rule.imageAt_append hm (write (.piece .linkMiddle :: rest))
          rw [heq, write_char, write_append, write_plain] at idle
          exact absurd (hwhole.symm.trans idle) (by simp)
      show Rule.image.apply s = s ↔ Rule.image.apply (c :: s) = c :: s
      rw [Rule.image_apply_cons_eq_iff]
      simp [hidle]
  | @replace xs ys _ e hit valid _ ih =>
    obtain ⟨opening, url, rfl, hurl⟩ := valid
    rw [List.forall_mem_cons, ← hurl] at hclean
    have hsafe : Safe url := (hxs.subset (List.subset_append_left ..)).subset
      (kept_infix_taken (x := ⟨opening, .imageStart, url⟩) (by simp)).subset
    obtain ⟨t, rfl⟩ := (clean_write_iff hsafe).1 hclean.1
    rw [taken_plain_image, write_append, write_plain] at hit
    rw [taken_plain_image, closes_plain_append]
    -- After the rule another piece comes first, and before it the match lay in front of the piece.
    constructor
    · intro h
      simp [put, closes_piece] at h
    · rintro ⟨s, rest, -, hs⟩
      have hmatch := Rule.imageAt_take hit s
      rw [List.take_left] at hmatch
      exact absurd hs (Rule.image_apply_ne hmatch)

/-- Behind the image rule, attributes are sealed exactly if they were before, the rule has nothing to
replace in the address of a link, and all addresses that it takes itself are clean. -/
theorem sealedItems_image_iff (h : Rewrites Rule.image ImageEdit xs ys places) (hxs : Marked 4 xs) :
    SealedItems (fun _ => True) ys ↔ SealedItems (fun s => Rule.image.apply s = s) xs ∧
      ∀ place ∈ places, Clean (imageAddress place) := by
  induction h with
  | nil => simp [SealedItems]
  | @keep xs ys places i idle rest ih =>
    have hrest := hxs.subset (List.subset_cons_self i xs)
    cases i with
    | char c => rw [sealedItems_char, sealedItems_char, ih hrest]
    | piece p =>
      have himage : p ≠ .imageStart := by
        rintro rfl
        exact absurd (hxs.rank_lt _ List.mem_cons_self) (by decide)
      by_cases hlink : p = .linkStart
      · subst hlink
        rw [SealedItems, SealedItems, ih hrest]
        constructor
        · rintro ⟨hcloses, hsealed, hclean⟩
          exact ⟨⟨(closes_image_iff rest hrest.safe hclean).1 hcloses, hsealed⟩, hclean⟩
        · rintro ⟨⟨hcloses, hsealed⟩, hclean⟩
          exact ⟨(closes_image_iff rest hrest.safe hclean).2 hcloses, hsealed, hclean⟩
      · rw [sealedItems_piece hlink himage, sealedItems_piece hlink himage, ih hrest]
  | @replace xs ys places e hit valid rest ih =>
    obtain ⟨opening, url, rfl, hurl⟩ := valid
    have hmarked : Marked 4 url := hxs.kept (x := ⟨opening, .imageStart, url⟩) (by simp)
    have hstop : .piece .imageStop ∉ url := fun hmem => absurd (hmarked.rank_lt _ hmem) (by decide)
    rw [put_image, SealedItems, closes_append_iff hstop hmarked.safe, List.forall_mem_cons, ← hurl]
    by_cases hclean : Clean (write url)
    · obtain ⟨t, rfl⟩ := (clean_write_iff hmarked.safe).1 hclean
      have hplain : ∀ s p, Item.piece p ∈ plain s → p.rank < 3 := fun s p hp => absurd hp (piece_notMem_plain p s)
      rw [taken_plain_image, sealedItems_append (hplain t), sealedItems_append (hplain _),
        sealedItems_piece (by decide) (by decide), ih (hxs.subset (List.subset_append_right ..))]
      constructor
      · rintro ⟨-, hsealed, hall⟩
        exact ⟨hsealed, hclean, hall⟩
      · rintro ⟨hsealed, -, hall⟩
        exact ⟨⟨hclean, trivial⟩, hsealed, hall⟩
    · simp [hclean]

/-! ## Rendered text -/

theorem clean_escape (s : List Char) : Clean (escapeChars s) := by
  rw [← write_plain (escapeChars s), clean_write_iff (safe_escape s)]
  exact ⟨_, rfl⟩

/-- A stretch of a marked text is clean exactly if it stands in the escaped text. -/
theorem clean_iff_isInfix (hxs : Safe xs) (horigin : ∀ t, plain t <:+: xs → plain t <:+: plain (escapeChars s))
    {url : List Item} (hurl : url <:+: xs) : Clean (write url) ↔ write url <:+: escapeChars s := by
  constructor
  · intro hclean
    obtain ⟨t, rfl⟩ := (clean_write_iff (hxs.subset hurl.subset)).1 hclean
    obtain ⟨before, after, heq⟩ := horigin t hurl
    refine ⟨write before, write after, ?_⟩
    rw [← write_append, ← write_append, heq, write_plain]
  · intro hpart c hc
    exact clean_escape s c (hpart.subset hc)

theorem exists_kept_linkEdit : ∀ place e, LinkEdit place e → ∃ x ∈ e, write x.kept = linkAddress place := by
  rintro place _ ⟨opening, url, space, caption, rfl, hurl⟩
  exact ⟨_, List.mem_cons_self, hurl⟩

theorem exists_kept_imageEdit : ∀ place e, ImageEdit place e → ∃ x ∈ e, write x.kept = imageAddress place := by
  rintro place _ ⟨opening, url, rfl, hurl⟩
  exact ⟨_, List.mem_cons_self, hurl⟩

namespace Course

variable (course : Course s)

theorem linkAddresses_eq : linkAddresses s = (Rule.link.places (write course.slanted)).map linkAddress := by
  rw [linkAddresses, beforeLinks, course.write_struck, course.write_bolded, course.write_slanted]

theorem imageAddresses_eq : imageAddresses s = (Rule.image.places (write course.linked)).map imageAddress := by
  rw [imageAddresses, beforeLinks, course.write_struck, course.write_bolded, course.write_slanted, course.write_linked]

theorem exists_linkAddress {url : List Char} (h : url ∈ linkAddresses s) :
    ∃ kept, kept <:+: course.slanted ∧ write kept = url := by
  rw [course.linkAddresses_eq] at h
  obtain ⟨place, hplace, rfl⟩ := List.mem_map.1 h
  exact course.link.exists_kept exists_kept_linkEdit place hplace

theorem exists_imageAddress {url : List Char} (h : url ∈ imageAddresses s) :
    ∃ kept, kept <:+: course.linked ∧ write kept = url := by
  rw [course.imageAddresses_eq] at h
  obtain ⟨place, hplace, rfl⟩ := List.mem_map.1 h
  exact course.image.exists_kept exists_kept_imageEdit place hplace

theorem slanted_origin (t : List Char) (h : plain t <:+: course.slanted) : plain t <:+: plain (escapeChars s) :=
  course.strike.isInfix_plain (course.bolden.isInfix_plain (course.slant.isInfix_plain h))

theorem linked_origin (t : List Char) (h : plain t <:+: course.linked) : plain t <:+: plain (escapeChars s) :=
  course.slanted_origin t (course.link.isInfix_plain h)

end Course

theorem address_clean_iff {url : List Char} (h : url ∈ linkAddresses s ++ imageAddresses s) :
    Clean url ↔ url <:+: escapeChars s := by
  obtain ⟨course⟩ := nonempty_course s
  rcases List.mem_append.1 h with h | h
  · obtain ⟨kept, hpart, rfl⟩ := course.exists_linkAddress h
    exact clean_iff_isInfix course.slanted_marked.safe course.slanted_origin hpart
  · obtain ⟨kept, hpart, rfl⟩ := course.exists_imageAddress h
    exact clean_iff_isInfix course.linked_marked.safe course.linked_origin hpart

/-- The rules before the link rule insert no quotes. -/
theorem quot_notMem_linkAddresses {url : List Char} (h : url ∈ linkAddresses s) : '"' ∉ url := by
  obtain ⟨course⟩ := nonempty_course s
  obtain ⟨kept, hpart, rfl⟩ := course.exists_linkAddress h
  have hmarked := course.slanted_marked.subset hpart.subset
  intro hmem
  obtain ⟨i, hi, hquot⟩ := List.mem_flatMap.1 hmem
  cases i with
  | char c => exact (hmarked.safe c hi).2.2 (List.mem_singleton.1 hquot).symm
  | piece p => exact Piece.quot_notMem_of_rank_lt (hmarked.rank_lt p hi) hquot

theorem sealed_render_iff (s : List Char) : Sealed (renderChars s) ↔
    (∀ url ∈ linkAddresses s, Clean url ∧ Rule.image.apply url = url) ∧ ∀ url ∈ imageAddresses s, Clean url := by
  obtain ⟨course⟩ := nonempty_course s
  rw [course.renderChars_eq, sealed_write_iff course.final_marked.safe,
    sealedItems_image_iff course.image course.linked_marked, sealedItems_link_iff course.link course.slanted_marked,
    course.linkAddresses_eq, course.imageAddresses_eq, List.forall_mem_map, List.forall_mem_map]

/-- An address is clean exactly if it stands in the escaped text, and no link's address holds a quote.
The attributes of a rendered text are sealed exactly if all addresses are clean and there is no image
in the address of a link. -/
theorem address_sealed_iff (text : String) :
    (∀ url ∈ linkAddresses text.toList ++ imageAddresses text.toList,
      Clean url ↔ url <:+: escapeChars text.toList) ∧
    (∀ url ∈ linkAddresses text.toList, '"' ∉ url) ∧
    (Sealed (render text).toList ↔
      (∀ url ∈ linkAddresses text.toList, Clean url ∧ Rule.image.apply url = url) ∧
      ∀ url ∈ imageAddresses text.toList, Clean url) := by
  refine ⟨fun url => address_clean_iff, fun url => quot_notMem_linkAddresses, ?_⟩
  rw [render, String.toList_ofList]
  exact sealed_render_iff text.toList

/-- Italic text in a link's address, and a link in an image's address, whose quotes end the attribute. -/
theorem address_not_sealed :
    (render "(link: https://x.y/*z* w)" = "<a href=\"https://x.y/<em>z</em>\" target=\"_blank\">w</a>" ∧
      ¬ Sealed (render "(link: https://x.y/*z* w)").toList) ∧
    render "(image: https://a/(link: https://b/ c))" =
        "<img src=\"https://a/<a href=\"https://b/\" target=\"_blank\">c</a>\" />" ∧
      ¬ Sealed (render "(image: https://a/(link: https://b/ c))").toList := by
  decide +kernel

end Reveal.Prose
