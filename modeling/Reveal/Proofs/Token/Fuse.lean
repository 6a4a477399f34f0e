import Mathlib.Data.List.TakeWhile
import Mathlib.Tactic.ByContra
import Reveal.Proofs.Token.Piece
/-!
# Two cuts as one

Cutting a text and then each of its pieces is one cut at a delimiter made of both (`cut_fuse`): the
second delimiter counts only where the first one does not start, and sees the text only up to where
the first one starts again. So the three cuts of a source are one (`pieces_eq_cut`).
-/
namespace Reveal.Token

/-! ## Fused delimiters -/

/-- What `first` takes, or else what `second` takes of the text up to the next character that starts
the first. -/
def fuse (starts : Char → Bool) (first second : List Char → Nat) (s : List Char) : Nat :=
  if first s = 0 then second (s.takeWhile (!starts ·)) else first s

/-- A delimiter starts at these characters, whatever stands behind them. -/
def StartsAt (delimiter : List Char → Nat) (starts : Char → Bool) : Prop :=
  ∀ c rest, delimiter (c :: rest) ≠ 0 ↔ starts c = true

/-- A text that is over, or at whose head a delimiter starts. -/
def Halted (starts : Char → Bool) (r : List Char) : Prop :=
  ∀ c rest, r = c :: rest → starts c = true

variable {starts : Char → Bool} {first second delimiter : List Char → Nat} {form : List Char → Prop}
  {p r : List Char}

theorem StartsAt.eq_zero (h : StartsAt delimiter starts) {c : Char} (hc : starts c = false) (rest : List Char) :
    delimiter (c :: rest) = 0 := by
  by_contra hne
  rw [(h c rest).1 hne] at hc
  cases hc

theorem exists_halted (starts : Char → Bool) (s : List Char) :
    ∃ p r, s = p ++ r ∧ (∀ c ∈ p, starts c = false) ∧ Halted starts r := by
  refine ⟨s.takeWhile (!starts ·), s.dropWhile (!starts ·), List.takeWhile_append_dropWhile.symm, ?_, ?_⟩
  · intro c hc
    simpa using List.mem_takeWhile_imp hc
  · intro c rest hr
    have hhead := List.head?_dropWhile_not (!starts ·) s
    rw [hr] at hhead
    simpa using hhead

theorem Halted.takeWhile_append (hr : Halted starts r) (hp : ∀ c ∈ p, starts c = false) :
    (p ++ r).takeWhile (!starts ·) = p := by
  have hnil : r.takeWhile (!starts ·) = [] := by
    cases r with
    | nil => rfl
    | cons c rest => simp [hr c rest rfl]
  rw [List.takeWhile_append_of_pos (by simpa using hp), hnil, List.append_nil]

@[simp] theorem cut_nil (delimiter : List Char → Nat) : cut delimiter [] = [] := by
  simp [cut, cutFrom, flush]

/-- What the delimiter takes at the head of a text is the first piece. -/
theorem cut_of_start {c : Char} {rest : List Char} {n : Nat} (h : delimiter (c :: rest) = n + 1) :
    cut delimiter (c :: rest) = (c :: rest.take n) :: cut delimiter (rest.drop n) := by
  rw [cut, cutFrom, h]
  rfl

/-- At a delimiter the piece begun so far ends. -/
theorem cutFrom_of_start (taken : List Char) (h : r ≠ [] → delimiter r ≠ 0) :
    cutFrom delimiter taken r = flush taken ++ cut delimiter r := by
  cases r with
  | nil => simp [cutFrom]
  | cons c rest =>
    obtain ⟨n, hn⟩ := Nat.exists_eq_succ_of_ne_zero (h (List.cons_ne_nil c rest))
    rw [cut_of_start hn, cutFrom, hn]
    rfl

theorem StartsAt.ne_zero (h : StartsAt delimiter starts) (hr : Halted starts r) : r ≠ [] → delimiter r ≠ 0 := by
  intro hne
  obtain ⟨c, rest, rfl⟩ := List.exists_cons_of_ne_nil hne
  exact (h c rest).2 (hr c rest rfl)

/-- Characters at which no delimiter starts are added to the piece begun so far. -/
theorem cutFrom_append_of_free (hp : ∀ c ∈ p, ∀ rest, delimiter (c :: rest) = 0) (taken r : List Char) :
    cutFrom delimiter taken (p ++ r) = cutFrom delimiter (p.reverse ++ taken) r := by
  induction p generalizing taken with
  | nil => rfl
  | cons c p ih =>
    rw [List.forall_mem_cons] at hp
    rw [List.cons_append, cutFrom, hp.1]
    simp [ih hp.2]

theorem flatMap_cut_flush (taken : List Char) :
    (flush taken).flatMap (cut delimiter) = cut delimiter taken.reverse := by
  unfold flush
  split <;> simp_all

/-! ## Fusing two cuts -/

section Fuse

variable (hstarts : StartsAt first starts) (hp : ∀ c ∈ p, starts c = false) (hr : Halted starts r)
include hstarts hp hr

/-- Where the first delimiter does not start, the fused one is the second one on what lies before
the next start. -/
theorem fuse_append (hne : p ≠ []) : fuse starts first second (p ++ r) = second p := by
  have htake := hr.takeWhile_append hp
  obtain ⟨c, p, rfl⟩ := List.exists_cons_of_ne_nil hne
  rw [fuse, htake, if_pos]
  exact hstarts.eq_zero (hp c List.mem_cons_self) (p ++ r)

theorem flatMap_cut_append :
    (cut first (p ++ r)).flatMap (cut second) = cut second p ++ (cut first r).flatMap (cut second) := by
  have hfree : ∀ c ∈ p, ∀ rest, first (c :: rest) = 0 := fun c hc => hstarts.eq_zero (hp c hc)
  rw [cut, cutFrom_append_of_free hfree, cutFrom_of_start _ (hstarts.ne_zero hr), List.flatMap_append,
    flatMap_cut_flush]
  simp

theorem cutFrom_fuse_append (hle : ∀ s, second s ≤ s.length) (taken : List Char) :
    cutFrom (fuse starts first second) taken (p ++ r) =
      cutFrom second taken p ++ cut (fuse starts first second) r := by
  fun_induction cutFrom second taken p with
  | case1 taken =>
    refine cutFrom_of_start taken fun hne => ?_
    have hfirst := hstarts.ne_zero hr hne
    rwa [List.nil_append, fuse, if_neg hfirst]
  | case2 taken c p hn ih =>
    have hfuse : fuse starts first second (c :: (p ++ r)) = 0 := by
      rw [← List.cons_append, fuse_append hstarts hp hr (by simp), hn]
    rw [List.cons_append, cutFrom, hfuse]
    exact ih (List.forall_mem_cons.1 hp).2
  | case3 taken c p n hn ih =>
    have hfuse : fuse starts first second (c :: (p ++ r)) = n + 1 := by
      rw [← List.cons_append, fuse_append hstarts hp hr (by simp), hn]
    have hlen : n ≤ p.length := by
      have hle := hle (c :: p)
      rw [hn, List.length_cons] at hle
      omega
    have hrest := ih fun x hx => hp x (List.mem_cons_of_mem c (List.mem_of_mem_drop hx))
    rw [List.cons_append, cutFrom, hfuse]
    simp only [List.take_append_of_le_length hlen, List.drop_append_of_le_length hlen, List.append_assoc,
      List.cons_append, hrest]

end Fuse

/-- Cutting at one delimiter and then each piece at another one is a single cut, if the second cut
leaves the first one's delimiters whole. -/
theorem cut_fuse (hd : Recognises first form) (hstarts : StartsAt first starts)
    (hle : ∀ s, second s ≤ s.length) (hwhole : ∀ piece, form piece → cut second piece = [piece])
    (s : List Char) : (cut first s).flatMap (cut second) = cut (fuse starts first second) s := by
  induction hlen : s.length using Nat.strongRecOn generalizing s with
  | _ n ih =>
    subst hlen
    obtain ⟨p, r, rfl, hp, hr⟩ := exists_halted starts s
    rw [flatMap_cut_append hstarts hp hr, cut, cut, cut, cutFrom_fuse_append hstarts hp hr hle,
      List.append_cancel_left_eq]
    cases r with
    | nil => simp [cutFrom, flush, cut]
    | cons c rest =>
      have hne : first (c :: rest) ≠ 0 := (hstarts c rest).2 (hr c rest rfl)
      obtain ⟨n, hn⟩ := Nat.exists_eq_succ_of_ne_zero hne
      obtain ⟨piece, after, hpiece, hform, hlength⟩ := hd (c :: rest) hne
      have htake : c :: rest.take n = piece := by
        rw [← List.take_succ_cons, ← Nat.succ_eq_add_one, ← hn, hlength, hpiece, List.take_left]
      have hfuse : fuse starts first second (c :: rest) = n + 1 := by rw [fuse, if_neg hne, hn]
      have hshort : (rest.drop n).length < (p ++ c :: rest).length := by
        simp
        omega
      show (cut first (c :: rest)).flatMap (cut second) = _
      rw [cut_of_start hn, cut_of_start hfuse, htake, List.flatMap_cons, hwhole piece hform,
        ih _ hshort _ rfl]
      rfl

/-! ## The three cuts of a source -/

def startsBrace (c : Char) : Bool := c == '\x7b' || c == '\x7d'

def startsMark (c : Char) : Bool := c == '>'

theorem startsAt_braceLength : StartsAt braceLength startsBrace := by
  intro c rest
  simp only [startsBrace, Bool.or_eq_true, beq_iff_eq]
  constructor
  · intro h
    by_contra hc
    rw [not_or] at hc
    refine h ?_
    unfold braceLength
    split <;> simp_all
  · rintro (rfl | rfl) h
    · exact (not_brace_of_braceLength h).1 rfl
    · exact (not_brace_of_braceLength h).2 rfl

theorem startsAt_markLength : StartsAt markLength startsMark := by
  intro c rest
  simp only [startsMark, beq_iff_eq]
  constructor
  · exact eq_of_markLength
  · rintro rfl
    exact markLength_pos rest

theorem targetLength_le (s : List Char) : targetLength s ≤ s.length := by
  unfold targetLength
  split
  · rename_i rest
    have hle : nameLength rest ≤ rest.length := (List.takeWhile_sublist isNameChar).length_le
    split <;> simp [hle]
  · simp

theorem linkLength_le (s : List Char) : linkLength s ≤ s.length := by
  unfold linkLength
  split
  · rename_i rest
    split
    · rename_i c behind hb
      have hlen := congrArg List.length (List.takeWhile_append_dropWhile (p := (· != ']')) (l := rest))
      rw [hb] at hlen
      have := targetLength_le behind
      simp at hlen ⊢
      omega
    · simp
  · simp

/-- Where a token can start in a source, and how many characters it takes. -/
def sourceLength : List Char → Nat :=
  fuse startsBrace braceLength (fuse startsMark markLength linkLength)

theorem markLength_le (s : List Char) : markLength s ≤ s.length := by
  by_cases h : markLength s = 0
  · omega
  · obtain ⟨piece, after, hs, -, hlen⟩ := recognises_markLength s h
    rw [hlen, hs]
    simp

theorem fuse_le (h₁ : ∀ s, first s ≤ s.length) (h₂ : ∀ s, second s ≤ s.length) (s : List Char) :
    fuse starts first second s ≤ s.length := by
  unfold fuse
  split
  · exact (h₂ _).trans (List.takeWhile_sublist _).length_le
  · exact h₁ s

/-- The pieces of a source are made by one cut. -/
theorem pieces_eq_cut (s : List Char) : pieces s = cut sourceLength s := by
  have hmark : ∀ s, (cut markLength s).flatMap (cut linkLength) =
      cut (fuse startsMark markLength linkLength) s :=
    cut_fuse recognises_markLength startsAt_markLength linkLength_le fun _ => cut_of_isMark
  have hwhole : ∀ piece, IsBrace piece → cut (fuse startsMark markLength linkLength) piece = [piece] := by
    intro piece hb
    rw [← hmark, (cut_of_isBrace hb).1, List.flatMap_singleton, (cut_of_isBrace hb).2]
  unfold pieces sourceLength
  rw [List.flatMap_assoc]
  simp only [hmark]
  exact cut_fuse recognises_braceLength startsAt_braceLength (fuse_le markLength_le linkLength_le) hwhole s

end Reveal.Token
