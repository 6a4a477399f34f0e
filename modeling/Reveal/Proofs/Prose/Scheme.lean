import Reveal.Proofs.Prose.Rewrite
/-!
# How addresses begin

Behind the start of every link and every image that the rules insert comes an address, which begins
with `http`. The image rule runs when links are there already, and leaves the beginning of their
addresses alone: what it drops starts or ends with a parenthesis.
-/
namespace Reveal.Prose

/-- How every address begins. -/
def http : List Char := ['h', 't', 't', 'p']

/-- Behind the start of every link and image comes an address. -/
def Addressed : List Item → Prop
  | [] => True
  | .char _ :: xs => Addressed xs
  | .piece p :: xs => (p = .linkStart ∨ p = .imageStart → plain http <+: xs) ∧ Addressed xs

variable {rule : Rule} {edit : List Char → List Exchange → Prop} {xs ys zs : List Item}
  {places : List (List Char)} {s : List Char} {c : Char} {p : Piece}

theorem addressed_piece (hlink : p ≠ .linkStart) (himage : p ≠ .imageStart) :
    Addressed (.piece p :: xs) ↔ Addressed xs := by
  simp [Addressed, hlink, himage]

/-- The rules before the link rule open no addresses. -/
theorem addressed_append (h : ∀ p, .piece p ∈ xs → p.rank < 3) : Addressed (xs ++ ys) ↔ Addressed ys := by
  induction xs with
  | nil => rfl
  | cons i xs ih =>
    have hxs := ih fun p hp => h p (List.mem_cons_of_mem _ hp)
    cases i with
    | char c => exact hxs
    | piece p =>
      have hp := h p List.mem_cons_self
      rw [List.cons_append, addressed_piece, hxs]
      · rintro rfl
        exact absurd hp (by decide)
      · rintro rfl
        exact absurd hp (by decide)

theorem Addressed.of_append (h : Addressed (xs ++ ys)) : Addressed ys := by
  induction xs with
  | nil => exact h
  | cons i xs ih =>
    cases i with
    | char c => exact ih h
    | piece p => exact ih h.2

/-- What comes behind a character that is not in `http` may be exchanged, with that character. -/
theorem Addressed.exchange_tail (h : Addressed (xs ++ .char c :: ys)) (hc : c ∉ http) (hzs : Addressed zs) :
    Addressed (xs ++ zs) := by
  induction xs with
  | nil => exact hzs
  | cons i xs ih =>
    cases i with
    | char d => exact ih h
    | piece p =>
      refine ⟨fun hp => ?_, ih h.2⟩
      obtain ⟨rest, hrest⟩ := h.1 hp
      have hnotMem : .char c ∉ plain http := by simpa [plain] using hc
      obtain ⟨w, rfl, -⟩ := exists_append_of_notMem hnotMem hrest
      exact ⟨w ++ zs, by simp⟩

theorem prefix_of_isAddress {url : List Item} (h : Rule.IsAddress (write url)) : plain http <+: url := by
  obtain ⟨rest, hrest⟩ := h.eq_append
  obtain ⟨ys, rfl, -⟩ := cut_of_ne hrest (by simp)
  exact List.prefix_append ..

theorem addressed_link (h : Rewrites Rule.link LinkEdit xs ys places) (hxs : Marked 3 xs) : Addressed ys := by
  induction h with
  | nil => trivial
  | @keep xs ys _ i _ _ ih =>
    rw [← List.singleton_append, addressed_append]
    · exact ih (hxs.subset (List.subset_cons_self i xs))
    · intro p hp
      apply hxs.rank_lt p
      rw [List.mem_singleton.1 hp]
      exact List.mem_cons_self
  | @replace xs ys _ e hit valid _ ih =>
    obtain ⟨opening, url, space, caption, rfl, hurl⟩ := valid
    have hmarkedUrl : Marked 3 url := hxs.kept (x := ⟨opening, .linkStart, url⟩) (by simp)
    have hmarkedCaption : Marked 3 caption := hxs.kept (x := ⟨space, .linkMiddle, caption⟩) (by simp)
    have haddress : plain http <+: url := by
      apply prefix_of_isAddress
      rw [hurl]
      exact Rule.isAddress_linkAddress hit
    rw [put_link]
    refine ⟨fun _ => haddress.trans (List.prefix_append ..), ?_⟩
    rw [addressed_append hmarkedUrl.rank_lt, addressed_piece (by decide) (by decide),
      addressed_append hmarkedCaption.rank_lt, addressed_piece (by decide) (by decide)]
    exact ih (hxs.subset (List.subset_append_right ..))

/-- Characters at which a rule has no match are left where they are. -/
theorem Rewrites.prefix_plain (h : Rewrites rule edit xs ys places)
    (hidle : ∀ c ∈ s, ∀ t, rule.matchAt (c :: t) = none) (hs : plain s <+: xs) : plain s <+: ys := by
  induction s generalizing xs ys places with
  | nil => exact List.nil_prefix
  | cons c s ih =>
    rw [List.forall_mem_cons] at hidle
    obtain ⟨rest, hrest⟩ := hs
    cases h with
    | nil => cases hrest
    | keep i _ hrun =>
      rw [plain_cons, List.cons_append, List.cons.injEq] at hrest
      rw [plain_cons, List.cons_prefix_cons]
      exact ⟨hrest.1, ih hrun hidle.2 ⟨rest, hrest.2⟩⟩
    | replace e hit _ _ =>
      rw [← hrest, plain_cons, List.cons_append, write_char, hidle.1] at hit
      cases hit

theorem addressed_image (h : Rewrites Rule.image ImageEdit xs ys places) (hxs : Addressed xs) : Addressed ys := by
  induction h with
  | nil => trivial
  | @keep xs ys _ i _ hrun ih =>
    cases i with
    | char c => exact ih hxs
    | piece p =>
      refine ⟨fun hp => hrun.prefix_plain (fun c hc t => ?_) (hxs.1 hp), ih hxs.2⟩
      apply Rule.callAt_eq_none
      rintro rfl
      revert hc
      decide
  | @replace xs ys _ e hit valid _ ih =>
    obtain ⟨opening, url, rfl, hurl⟩ := valid
    have htaken : taken [⟨opening, .imageStart, url⟩, ⟨[')'], .imageStop, []⟩] ++ xs =
        plain opening ++ (url ++ .char ')' :: xs) := by
      simp [taken]
    have haddress : plain http <+: url := by
      obtain ⟨-, -, -, -, hurl', -⟩ := Rule.exists_of_imageAt hit
      apply prefix_of_isAddress
      rwa [hurl]
    rw [htaken] at hxs
    have hurlRest := hxs.of_append
    rw [put_image]
    refine ⟨fun _ => haddress.trans (List.prefix_append ..), hurlRest.exchange_tail (by decide) ?_⟩
    rw [addressed_piece (by decide) (by decide)]
    exact ih hurlRest.of_append

theorem Course.final_addressed (course : Course s) : Addressed course.final :=
  addressed_image course.image (addressed_link course.link course.slanted_marked)

end Reveal.Prose
