import Mathlib.Data.Bool.AllAny
import Reveal.Prose
/-!
# Marked text

A text on its way through the inline rules: characters of the author, and between them the pieces of
html that the rules have put there. Written out, the two are no longer told apart by anything but the
characters `<`, `>` and `"`, which the author's text has lost by then. Here they are kept apart, and
the lemmas say where a written text can be cut so that no piece is cut through.
-/
namespace Reveal.Prose

/-- What the rules insert. -/
inductive Piece where
  | delStart | delStop | strongStart | strongStop | emStart | emStop
  | linkStart | linkMiddle | linkStop | imageStart | imageStop
  deriving DecidableEq, Repr

namespace Piece

def html : Piece → List Char
  | delStart => Tag.delStart
  | delStop => Tag.delStop
  | strongStart => Tag.strongStart
  | strongStop => Tag.strongStop
  | emStart => Tag.emStart
  | emStop => Tag.emStop
  | linkStart => Tag.linkStart
  | linkMiddle => Tag.linkMiddle
  | linkStop => Tag.linkStop
  | imageStart => Tag.imageStart
  | imageStop => Tag.imageStop

/-- Which rule inserts a piece, counted in the order of the rules. -/
def rank : Piece → Nat
  | delStart | delStop => 0
  | strongStart | strongStop => 1
  | emStart | emStop => 2
  | linkStart | linkMiddle | linkStop => 3
  | imageStart | imageStop => 4

theorem html_eq_cons (p : Piece) : ∃ c s, p.html = c :: s ∧ (c = '<' ∨ c = '"') ∧ '<' ∉ s := by
  cases p <;> exact ⟨_, _, rfl, by decide, by decide⟩

/-- No rule's mark stands in a piece. -/
theorem not_mem_html (p : Piece) : '~' ∉ p.html ∧ '*' ∉ p.html ∧ '(' ∉ p.html ∧ ')' ∉ p.html := by
  cases p <;> decide

/-- No piece begins like another one. -/
theorem eq_of_html_append {p q : Piece} {s t : List Char} (h : p.html ++ s = q.html ++ t) : p = q := by
  have hhead : p.html <+: q.html ∨ q.html <+: p.html :=
    List.prefix_or_prefix_of_prefix ⟨s, rfl⟩ ⟨t, h.symm⟩
  clear h
  cases p <;> cases q <;> first | rfl | (revert hhead; decide)

/-- There are no blanks and no quotes in the pieces around emphasised text. -/
theorem not_isBlank_of_rank_lt {p : Piece} (h : p.rank < 3) : ∀ c ∈ p.html, Text.isBlank c = false := by
  have hall : p.html.all (fun c => Text.isBlank c = false) := by
    cases p <;> revert h <;> decide
  exact List.all_iff_forall_prop.1 hall

theorem quot_notMem_of_rank_lt {p : Piece} (h : p.rank < 3) : '"' ∉ p.html := by
  cases p <;> revert h <;> decide

end Piece

inductive Item where
  | char (c : Char)
  | piece (p : Piece)
  deriving DecidableEq, Repr

def Item.html : Item → List Char
  | .char c => [c]
  | .piece p => p.html

/-- A marked text as it is written. -/
def write (xs : List Item) : List Char :=
  xs.flatMap Item.html

/-- The author's characters, unmarked. -/
def plain (s : List Char) : List Item :=
  s.map .char

/-- No character of the author's can be taken for html. -/
def Safe (xs : List Item) : Prop :=
  ∀ c, .char c ∈ xs → c ≠ '<' ∧ c ≠ '>' ∧ c ≠ '"'

/-- A safe text in which only the first rules have left pieces. -/
structure Marked (rank : Nat) (xs : List Item) : Prop where
  safe : Safe xs
  rank_lt : ∀ p, .piece p ∈ xs → p.rank < rank

variable {xs ys : List Item} {s t u v : List Char} {c : Char} {p : Piece}

@[simp] theorem write_nil : write [] = [] := rfl

@[simp] theorem write_char (c : Char) (xs : List Item) : write (.char c :: xs) = c :: write xs := rfl

@[simp] theorem write_piece (p : Piece) (xs : List Item) : write (.piece p :: xs) = p.html ++ write xs := rfl

@[simp] theorem write_append (xs ys : List Item) : write (xs ++ ys) = write xs ++ write ys := by
  simp [write]

@[simp] theorem plain_nil : plain [] = [] := rfl

@[simp] theorem plain_cons (c : Char) (s : List Char) : plain (c :: s) = .char c :: plain s := rfl

@[simp] theorem plain_append (s t : List Char) : plain (s ++ t) = plain s ++ plain t := by
  simp [plain]

@[simp] theorem write_plain (s : List Char) : write (plain s) = s := by
  induction s with
  | nil => rfl
  | cons c s ih => rw [plain_cons, write_char, ih]

@[simp] theorem piece_notMem_plain (p : Piece) (s : List Char) : .piece p ∉ plain s := by
  simp [plain]

/-- A text without pieces is plain. -/
theorem exists_plain (h : ∀ p, .piece p ∉ xs) : ∃ s, xs = plain s := by
  induction xs with
  | nil => exact ⟨[], rfl⟩
  | cons i xs ih =>
    obtain ⟨s, rfl⟩ := ih fun p hp => h p (List.mem_cons_of_mem _ hp)
    cases i with
    | char c => exact ⟨c :: s, rfl⟩
    | piece p => exact absurd List.mem_cons_self (h p)

theorem Safe.subset (h : Safe ys) (hxs : xs ⊆ ys) : Safe xs :=
  fun c hc => h c (hxs hc)

theorem Marked.subset {rank : Nat} (h : Marked rank ys) (hxs : xs ⊆ ys) : Marked rank xs :=
  ⟨h.safe.subset hxs, fun p hp => h.rank_lt p (hxs hp)⟩

theorem ne_of_mem_entity (d : Char) : ∀ c ∈ entity d, c ≠ '<' ∧ c ≠ '>' ∧ c ≠ '"' := by
  unfold entity
  split
  case h_6 hlt hgt hquot _ => exact List.forall_mem_singleton.2 ⟨hlt, hgt, hquot⟩
  all_goals exact List.all_iff_forall_prop.1 (by decide)

theorem safe_escape (s : List Char) : Safe (plain (escapeChars s)) := by
  intro c hc
  have hmem : c ∈ escapeChars s := by simpa [plain] using hc
  obtain ⟨d, -, hd⟩ := List.mem_flatMap.1 hmem
  exact ne_of_mem_entity d c hd

theorem marked_escape (s : List Char) : Marked 0 (plain (escapeChars s)) :=
  ⟨safe_escape s, fun p hp => absurd hp (piece_notMem_plain p _)⟩

/-! ## Where a written text can be cut -/

/-- What is not in the first part stands behind it. -/
theorem exists_append_of_notMem {α : Type} {s t u v : List α} {c : α} (hc : c ∉ s) (h : s ++ t = u ++ c :: v) :
    ∃ w, u = s ++ w ∧ t = w ++ c :: v := by
  rcases List.append_eq_append_iff.1 h with ⟨w, hu, ht⟩ | ⟨w, hs, hv⟩
  · exact ⟨w, hu, ht⟩
  · cases w with
    | nil => exact ⟨[], by rw [hs, List.append_nil, List.append_nil], hv.symm⟩
    | cons d w =>
      rw [List.cons_append, List.cons.injEq] at hv
      rw [hs, ← hv.1] at hc
      simp at hc

/-- Behind characters with which no piece starts. -/
theorem cut_of_ne (h : write xs = u ++ v) (hu : ∀ c ∈ u, c ≠ '<' ∧ c ≠ '"') :
    ∃ ys, xs = plain u ++ ys ∧ write ys = v := by
  induction u generalizing xs with
  | nil => exact ⟨xs, rfl, h⟩
  | cons c u ih =>
    rw [List.forall_mem_cons] at hu
    match xs with
    | [] => cases h
    | .char d :: xs =>
      rw [write_char, List.cons_append, List.cons.injEq] at h
      obtain ⟨rfl, h⟩ := h
      obtain ⟨ys, rfl, hys⟩ := ih h hu.2
      exact ⟨ys, rfl, hys⟩
    | .piece p :: xs =>
      obtain ⟨d, s, hp, hd, -⟩ := p.html_eq_cons
      rw [write_piece, hp, List.cons_append, List.cons_append, List.cons.injEq] at h
      rcases hd with rfl | rfl
      · exact absurd h.1.symm hu.1.1
      · exact absurd h.1.symm hu.1.2

/-- At a character that stands in no piece. -/
theorem cut_at (h : write xs = u ++ c :: v) (hc : ∀ p, .piece p ∈ xs → c ∉ p.html) :
    ∃ ys zs, xs = ys ++ .char c :: zs ∧ write ys = u ∧ write zs = v := by
  induction xs generalizing u with
  | nil => simp at h
  | cons i xs ih =>
    have hxs : ∀ p, .piece p ∈ xs → c ∉ p.html := fun p hp => hc p (List.mem_cons_of_mem _ hp)
    cases i with
    | char d =>
      cases u with
      | nil =>
        rw [write_char, List.nil_append, List.cons.injEq] at h
        exact ⟨[], xs, by rw [h.1, List.nil_append], rfl, h.2⟩
      | cons e u =>
        rw [write_char, List.cons_append, List.cons.injEq] at h
        obtain ⟨rfl, h⟩ := h
        obtain ⟨ys, zs, rfl, rfl, hzs⟩ := ih h hxs
        exact ⟨.char d :: ys, zs, rfl, rfl, hzs⟩
    | piece p =>
      rw [write_piece] at h
      obtain ⟨w, rfl, h'⟩ := exists_append_of_notMem (hc p List.mem_cons_self) h
      obtain ⟨ys, zs, rfl, rfl, hzs⟩ := ih h' hxs
      exact ⟨.piece p :: ys, zs, rfl, rfl, hzs⟩

end Reveal.Prose
