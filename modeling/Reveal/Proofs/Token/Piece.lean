import Reveal.Proofs.Token.Cut
/-!
# The pieces of a source

After the three cuts a piece is a brace, a paragraph mark, or plain: without braces and without the
sign that starts a paragraph. What a piece stands for then tells which of these signs it holds
(`signs_of_piece`), so in a source every one of them is in a token of its own.
-/
namespace Reveal

/-- The code points of name characters. -/
theorem toNat_of_isNameChar {c : Char} (h : isNameChar c = true) :
    c.toNat = 39 ∨ c.toNat = 45 ∨ c.toNat = 95 ∨ (48 ≤ c.toNat ∧ c.toNat ≤ 57) ∨
      (65 ≤ c.toNat ∧ c.toNat ≤ 90) ∨ (97 ≤ c.toNat ∧ c.toNat ≤ 122) ∨ (192 ≤ c.toNat ∧ c.toNat ≤ 255) := by
  have hc : c.toNat = c.val.toNat := rfl
  delta isNameChar Char.isAlphanum Char.isAlpha Char.isUpper Char.isLower Char.isDigit at h
  simp only [Bool.or_eq_true, Bool.and_eq_true, decide_eq_true_eq, beq_iff_eq, UInt32.le_iff_toNat_le, ge_iff_le,
    ← hc] at h
  rcases h with ((((h | h) | h) | rfl) | rfl) | rfl
  · simp at h; omega
  · simp at h; omega
  · omega
  · simp
  · simp
  · simp

theorem isNameChar_of_isBlank {c : Char} (h : Text.isBlank c = true) : isNameChar c = false := by
  rw [Bool.eq_false_iff]
  intro hn
  have hn := toNat_of_isNameChar hn
  simp only [Text.isBlank, Text.blankRanges, List.any_cons, List.any_nil, Bool.or_eq_true, Bool.and_eq_true,
    decide_eq_true_eq, Bool.or_false] at h
  omega

namespace Token

/-- A closing brace, or an opening brace with the name and colon behind it. -/
def IsBrace (piece : List Char) : Prop :=
  piece = ['\x7d'] ∨ piece = ['\x7b'] ∨
    ∃ name, name ≠ [] ∧ (∀ c ∈ name, isNameChar c = true) ∧ piece = '\x7b' :: (name ++ [':'])

/-- A paragraph mark with its name and at most one blank behind it. -/
def IsMark (piece : List Char) : Prop :=
  ∃ name blank, (∀ c ∈ name, isNameChar c = true) ∧
    (blank = [] ∨ ∃ c, Text.isBlank c = true ∧ blank = [c]) ∧ piece = '>' :: (name ++ blank)

/-- Neither a brace nor the sign of a paragraph mark is in the piece. -/
def IsPlain (piece : List Char) : Prop := '\x7b' ∉ piece ∧ '\x7d' ∉ piece ∧ '>' ∉ piece

variable {s piece : List Char}

theorem isNameChar_of_mem_takeWhile {c : Char} (h : c ∈ s.takeWhile isNameChar) : isNameChar c = true :=
  (List.all_eq_true.1 List.all_takeWhile) c h

/-! ## Braces -/

theorem recognises_braceLength : Recognises braceLength IsBrace := by
  intro s h
  unfold braceLength at h ⊢
  split at h
  · rename_i rest
    exact ⟨['\x7d'], rest, rfl, .inl rfl, rfl⟩
  · rename_i rest
    split
    · rename_i n t hn ht
      have hs : rest = rest.takeWhile isNameChar ++ ':' :: t := by
        rw [← ht, List.takeWhile_append_dropWhile]
      refine ⟨'\x7b' :: (rest.takeWhile isNameChar ++ [':']), t, by simp [← hs],
        .inr (.inr ⟨_, ?_, fun c => isNameChar_of_mem_takeWhile, rfl⟩), by simpa [nameLength] using hn.symm⟩
      intro hnil
      simp [nameLength, hnil] at hn
    · exact ⟨['\x7b'], rest, rfl, .inr (.inl rfl), rfl⟩
  · exact absurd rfl h

theorem not_brace_of_braceLength {c : Char} {rest : List Char} (h : braceLength (c :: rest) = 0) :
    c ≠ '\x7b' ∧ c ≠ '\x7d' := by
  constructor
  · rintro rfl
    unfold braceLength at h
    simp only at h
    split at h <;> simp at h
  · rintro rfl
    simp [braceLength] at h

/-! ## Paragraph marks -/

theorem recognises_markLength : Recognises markLength IsMark := by
  intro s h
  unfold markLength at h ⊢
  split at h
  · rename_i rest
    have hs : rest = rest.takeWhile isNameChar ++ rest.dropWhile isNameChar :=
      List.takeWhile_append_dropWhile.symm
    split
    · rename_i c t ht
      rw [ht] at hs
      split
      · rename_i hc
        exact ⟨'>' :: (rest.takeWhile isNameChar ++ [c]), t, by simp [← hs],
          ⟨_, [c], fun c => isNameChar_of_mem_takeWhile, .inr ⟨c, hc, rfl⟩, rfl⟩, by simp [nameLength]⟩
      · exact ⟨'>' :: (rest.takeWhile isNameChar ++ []), c :: t, by simp [← hs],
          ⟨_, [], fun c => isNameChar_of_mem_takeWhile, .inl rfl, rfl⟩, by simp [nameLength]⟩
    · rename_i ht
      rw [ht] at hs
      exact ⟨'>' :: (rest.takeWhile isNameChar ++ []), [], by simp [← hs],
        ⟨_, [], fun c => isNameChar_of_mem_takeWhile, .inl rfl, rfl⟩, by simp [nameLength]⟩
  · exact absurd rfl h

theorem eq_of_markLength {c : Char} {rest : List Char} (h : markLength (c :: rest) ≠ 0) : c = '>' := by
  obtain ⟨piece, after, hs, ⟨name, blank, -, -, rfl⟩, -⟩ := recognises_markLength _ h
  exact (List.cons_eq_cons.1 hs).1

theorem markLength_pos (rest : List Char) : markLength ('>' :: rest) ≠ 0 := by
  unfold markLength
  simp only
  split
  · split <;> simp
  · simp

/-! ## Links -/

theorem eq_of_linkLength {c : Char} {rest : List Char} (h : linkLength (c :: rest) ≠ 0) : c = '[' := by
  unfold linkLength at h
  split at h
  · rename_i hs
    exact (List.cons_eq_cons.1 hs).1
  · exact absurd rfl h

/-! ## What a piece stands for -/

theorem ofPiece?_named {name : List Char} (hne : name ≠ []) (hname : ∀ c ∈ name, isNameChar c = true) :
    Kind.ofPiece? ('\x7b' :: (name ++ [':'])) = some (.fragmentOpen (some (String.ofList name))) := by
  have hcolon : isNameChar ':' = false := by decide
  obtain ⟨c, rest, rfl⟩ := List.exists_cons_of_ne_nil hne
  show namedFragmentPiece? ((c :: rest) ++ [':']) = _
  unfold namedFragmentPiece?
  rw [List.takeWhile_append_of_pos hname, List.dropWhile_append_of_pos hname]
  simp [hcolon]

theorem ofPiece?_mark {name blank : List Char} (hname : ∀ c ∈ name, isNameChar c = true)
    (hblank : blank = [] ∨ ∃ c, Text.isBlank c = true ∧ blank = [c]) :
    Kind.ofPiece? ('>' :: (name ++ blank)) =
      some (.paragraph (if name.isEmpty then none else some (String.ofList name))) := by
  show paragraphPiece? (name ++ blank) = _
  unfold paragraphPiece?
  rw [List.takeWhile_append_of_pos hname, List.dropWhile_append_of_pos hname]
  rcases hblank with rfl | ⟨c, hc, rfl⟩
  · simp
  · simp [hc, isNameChar_of_isBlank hc]

section Link

variable {caption : List Char} (hcaption : ∀ c ∈ caption, (c != ']') = true)
include hcaption

theorem ofPiece?_link :
    Kind.ofPiece? ('[' :: (caption ++ [']'])) = some (.revealLink (String.ofList caption) none) := by
  show linkPiece? (caption ++ [']']) = _
  unfold linkPiece?
  rw [List.dropWhile_append_of_pos hcaption, List.takeWhile_append_of_pos hcaption]
  simp

theorem ofPiece?_target {name : List Char} (hne : name ≠ []) (hname : ∀ c ∈ name, isNameChar c = true) :
    Kind.ofPiece? ('[' :: (caption ++ ']' :: '#' :: name)) =
      some (.revealLink (String.ofList caption) (some (String.ofList name))) := by
  show linkPiece? (caption ++ ']' :: '#' :: name) = _
  obtain ⟨c, rest, rfl⟩ := List.exists_cons_of_ne_nil hne
  have hall : (c :: rest).all isNameChar = true := List.all_eq_true.2 hname
  unfold linkPiece?
  rw [List.dropWhile_append_of_pos hcaption, List.takeWhile_append_of_pos hcaption]
  simp [hall]

end Link

theorem revealLink_of_linkPiece? {kind : Kind} (h : linkPiece? s = some kind) :
    ∃ caption target, kind = .revealLink caption target := by
  unfold linkPiece? at h
  split at h
  · cases h; exact ⟨_, _, rfl⟩
  · split at h
    · cases h; exact ⟨_, _, rfl⟩
    · cases h
  · cases h

/-- A plain piece is a link or text. -/
theorem ofPiece_plain (h : IsPlain piece) :
    (∃ caption target, Kind.ofPiece piece = .revealLink caption target) ∨ Kind.ofPiece piece = .text := by
  obtain ⟨h1, h2, h3⟩ := h
  unfold Kind.ofPiece Kind.ofPiece?
  split <;> simp_all
  rename_i rest
  cases hl : linkPiece? rest with
  | none => exact .inr rfl
  | some kind =>
    obtain ⟨caption, target, rfl⟩ := revealLink_of_linkPiece? hl
    exact .inl ⟨caption, target, rfl⟩

/-! ## The three cuts -/

theorem not_mem_of_isNameChar {name : List Char} (hname : ∀ c ∈ name, isNameChar c = true) {x : Char}
    (hx : isNameChar x = false) : x ∉ name := by
  intro hm
  rw [hname x hm] at hx
  cases hx

theorem not_mem_of_isBlank {blank : List Char}
    (h : blank = [] ∨ ∃ c, Text.isBlank c = true ∧ blank = [c]) {x : Char} (hx : Text.isBlank x = false) :
    x ∉ blank := by
  rcases h with rfl | ⟨c, hc, rfl⟩
  · simp
  · rintro hm
    rw [List.mem_singleton.1 hm, hc] at hx
    cases hx

/-- A sign that is no brace and cannot stand in a name is in no brace. -/
theorem not_mem_of_isBrace (h : IsBrace piece) {x : Char} (hx : isNameChar x = false)
    (hb : x ≠ '\x7b' ∧ x ≠ '\x7d' ∧ x ≠ ':') : x ∉ piece := by
  rcases h with rfl | rfl | ⟨name, -, hname, rfl⟩
  · simp [hb]
  · simp [hb]
  · simp [hb, not_mem_of_isNameChar hname hx]

theorem not_mem_of_isMark (h : IsMark piece) {x : Char} (hx : isNameChar x = false)
    (hb : Text.isBlank x = false) (hm : x ≠ '>') : x ∉ piece := by
  obtain ⟨name, blank, hname, hblank, rfl⟩ := h
  simp [hm, not_mem_of_isNameChar hname hx, not_mem_of_isBlank hblank hb]

theorem cut_of_isBrace (h : IsBrace piece) : cut markLength piece = [piece] ∧ cut linkLength piece = [piece] := by
  have hne : piece ≠ [] := by rcases h with rfl | rfl | ⟨_, _, _, rfl⟩ <;> simp
  exact ⟨cut_of_not_mem (fun _ _ => eq_of_markLength) hne (not_mem_of_isBrace h (by decide) (by decide)),
    cut_of_not_mem (fun _ _ => eq_of_linkLength) hne (not_mem_of_isBrace h (by decide) (by decide))⟩

theorem cut_of_isMark (h : IsMark piece) : cut linkLength piece = [piece] := by
  have hne : piece ≠ [] := by obtain ⟨_, _, _, _, rfl⟩ := h; simp
  exact cut_of_not_mem (fun _ _ => eq_of_linkLength) hne (not_mem_of_isMark h (by decide) (by decide) (by decide))

/-- No cut goes through a delimiter of an earlier one. -/
theorem pieces_cases {source : List Char} (h : piece ∈ pieces source) :
    IsBrace piece ∨ IsMark piece ∨ IsPlain piece := by
  unfold pieces at h
  simp only [List.mem_flatMap] at h
  obtain ⟨marked, ⟨braced, hbraced, hmarked⟩, hpiece⟩ := h
  rcases mem_cut recognises_braceLength hbraced with hb | hb
  · rw [(cut_of_isBrace hb).1, List.mem_singleton] at hmarked
    subst hmarked
    rw [(cut_of_isBrace hb).2, List.mem_singleton] at hpiece
    exact .inl (hpiece ▸ hb)
  · have hopen : '\x7b' ∉ braced := fun hm => (hb _ hm).elim fun _ h0 => (not_brace_of_braceLength h0).1 rfl
    have hclose : '\x7d' ∉ braced := fun hm => (hb _ hm).elim fun _ h0 => (not_brace_of_braceLength h0).2 rfl
    rcases mem_cut recognises_markLength hmarked with hm | hm
    · rw [cut_of_isMark hm, List.mem_singleton] at hpiece
      exact .inr (.inl (hpiece ▸ hm))
    · have hmark : '>' ∉ marked := fun h' => (hm _ h').elim fun rest h0 => markLength_pos rest h0
      exact .inr (.inr ⟨fun h' => hopen (mem_of_mem_cut hmarked (mem_of_mem_cut hpiece h')),
        fun h' => hclose (mem_of_mem_cut hmarked (mem_of_mem_cut hpiece h')),
        fun h' => hmark (mem_of_mem_cut hpiece h')⟩)

/-! ## Signs -/

/-- How many opening braces, closing braces and paragraph signs there are. -/
structure Signs where
  opens : Nat
  closes : Nat
  marks : Nat

/-- The signs that a text holds. -/
def signs (s : List Char) : Signs := ⟨s.count '\x7b', s.count '\x7d', s.count '>'⟩

/-- The signs of a token's text, by what the token stands for. -/
def Kind.signs : Kind → Signs
  | .fragmentOpen _ => ⟨1, 0, 0⟩
  | .fragmentClose => ⟨0, 1, 0⟩
  | .paragraph _ => ⟨0, 0, 1⟩
  | .revealLink _ _ | .text => ⟨0, 0, 0⟩

/-- What a piece stands for tells its signs. -/
theorem signs_of_piece {source : List Char} (h : piece ∈ pieces source) :
    signs piece = (Kind.ofPiece piece).signs := by
  rcases pieces_cases h with (rfl | rfl | ⟨name, hne, hname, rfl⟩) | ⟨name, blank, hname, hblank, rfl⟩ | h
  · rfl
  · rfl
  · rw [Kind.ofPiece, ofPiece?_named hne hname]
    have hcount := fun x hx => List.count_eq_zero.2 (not_mem_of_isNameChar hname (x := x) hx)
    simp [signs, Kind.signs, hcount '\x7b' (by decide), hcount '\x7d' (by decide), hcount '>' (by decide)]
  · rw [Kind.ofPiece, ofPiece?_mark hname hblank]
    have hcount := fun x hx => List.count_eq_zero.2 (not_mem_of_isNameChar hname (x := x) hx)
    have hcount' := fun x hx => List.count_eq_zero.2 (not_mem_of_isBlank hblank (x := x) hx)
    simp [signs, Kind.signs, hcount '\x7b' (by decide), hcount '\x7d' (by decide), hcount '>' (by decide),
      hcount' '\x7b' (by decide), hcount' '\x7d' (by decide), hcount' '>' (by decide)]
  · have hsigns : signs piece = ⟨0, 0, 0⟩ := by
      simp [signs, List.count_eq_zero.2 h.1, List.count_eq_zero.2 h.2.1, List.count_eq_zero.2 h.2.2]
    rcases ofPiece_plain h with ⟨caption, target, hk⟩ | hk <;> rw [hk, hsigns] <;> rfl

end Token

end Reveal
