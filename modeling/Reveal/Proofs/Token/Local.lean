import Reveal.Proofs.Token.Scan
import Reveal.Proofs.Token.Span
/-!
# Tokens stand by themselves

Tokens that follow each other in a source are read again from their texts alone (`tokenize_local`). A
scan looks ahead: for the colon behind a fragment's name, for the bracket that closes a caption, for
the end of a name. Yet all that it goes by lies in the token that it reads: what is cut off behind a
token does not change it (`lexemeAt?_restrict`), and does not make a token where there was none
(`lexemeAt?_restrict_none`).
-/
namespace Reveal

namespace Token

variable {s t : List Char} {x : Lexeme} {xs ys : List Lexeme}

/-! ## What is cut off behind a token -/

theorem takeWhile_restrict_append {q : Char → Bool} (h : ((s ++ t).takeWhile q).length ≤ s.length) :
    s.takeWhile q = (s ++ t).takeWhile q := by
  rw [List.takeWhile_append] at h ⊢
  split
  · rename_i hall
    rw [if_pos hall, List.length_append] at h
    have hnil : t.takeWhile q = [] := List.length_eq_zero_iff.1 (by omega)
    rw [hnil, List.append_nil]
    exact (List.takeWhile_prefix q).eq_of_length hall
  · rfl

theorem openAt_restrict (h : (openAt (s ++ t)).text.length ≤ s.length + 1) : openAt s = openAt (s ++ t) := by
  have hsame : fragmentName? s = fragmentName? (s ++ t) := by
    cases hs : fragmentName? s with
    | some name =>
      obtain ⟨hne, hname, u, rfl⟩ := exists_of_fragmentName? hs
      rw [List.append_assoc, List.cons_append, fragmentName?_append hne hname]
    | none =>
      cases hst : fragmentName? (s ++ t) with
      | none => rfl
      | some name =>
        obtain ⟨hne, hname, u, heq⟩ := exists_of_fragmentName? hst
        have hlength : (name ++ [':']).length ≤ s.length := by simpa [openAt, hst] using h
        have hprefix : name ++ [':'] <+: s ++ t := ⟨u, by simp [heq]⟩
        obtain ⟨v, rfl⟩ := List.prefix_of_prefix_length_le hprefix (List.prefix_append s t) hlength
        rw [List.append_assoc, List.singleton_append, fragmentName?_append hne hname] at hs
        cases hs
  unfold openAt
  rw [hsame]

theorem paragraphAt_restrict (h : (paragraphAt (s ++ t)).text.length ≤ s.length + 1) :
    paragraphAt s = paragraphAt (s ++ t) := by
  have hlength : ((s ++ t).takeWhile isNameChar).length +
      ((((s ++ t).dropWhile isNameChar).take 1).takeWhile Text.isBlank).length ≤ s.length := by
    simpa [paragraphAt] using h
  have hname : s.takeWhile isNameChar = (s ++ t).takeWhile isNameChar := takeWhile_restrict_append (by omega)
  have hblank : ((s.dropWhile isNameChar).take 1).takeWhile Text.isBlank =
      (((s ++ t).dropWhile isNameChar).take 1).takeWhile Text.isBlank := by
    rw [List.dropWhile_append]
    split
    · rename_i hall
      have hnil : s.dropWhile isNameChar = [] := List.isEmpty_iff.1 hall
      have htake : s.takeWhile isNameChar = s := by
        conv_rhs => rw [← List.takeWhile_append_dropWhile (p := isNameChar) (l := s), hnil, List.append_nil]
      rw [← hname, htake, List.dropWhile_append, if_pos hall] at hlength
      have hnone : ((t.dropWhile isNameChar).take 1).takeWhile Text.isBlank = [] :=
        List.length_eq_zero_iff.1 (by omega)
      rw [hnil, hnone]
      rfl
    · rename_i hne
      rw [List.take_append_of_le_length]
      exact List.length_pos_iff.2 fun hnil => hne (by simp [hnil])
  unfold paragraphAt
  rw [hname, hblank]

theorem targetName?_restrict (h : ∀ name, targetName? (s ++ t) = some name → name.length + 1 ≤ s.length) :
    targetName? s = targetName? (s ++ t) := by
  cases s with
  | nil =>
    cases ht : targetName? ([] ++ t) with
    | none => rfl
    | some name => exact absurd (h name ht) (by simp)
  | cons c s =>
    by_cases hc : c = '#'
    · subst hc
      by_cases hnil : (s ++ t).takeWhile isNameChar = []
      · have hnil' := takeWhile_restrict_append (q := isNameChar) (s := s) (t := t) (by simp [hnil])
        simp [targetName?, hnil, hnil']
      · have hname := h _ (nonEmpty?_of_ne_nil hnil)
        have hsame := takeWhile_restrict_append (q := isNameChar) (s := s) (t := t) (by simpa using hname)
        simp [targetName?, hsame]
    · have hnone : ∀ u, targetName? (c :: u) = none := by
        intro u
        unfold targetName?
        split
        · rename_i heq
          exact absurd (List.cons.inj heq).1 hc
        · rfl
      rw [List.cons_append, hnone, hnone]

theorem revealAt?_restrict (h : revealAt? (s ++ t) = some x) (hle : x.text.length ≤ s.length + 1) :
    revealAt? s = some x := by
  unfold revealAt? at h ⊢
  obtain ⟨⟨caption, behind⟩, hcaption, rfl⟩ := Option.map_eq_some_iff.1 h
  obtain ⟨heq, hfree⟩ := caption?_eq_some hcaption
  simp only at hle ⊢
  have hlength : (caption ++ [']']).length ≤ s.length := by
    cases htarget : targetName? behind <;> simp [htarget, linkLexeme] at hle ⊢ <;> omega
  have hprefix : caption ++ [']'] <+: s ++ t := ⟨behind, by simp [heq]⟩
  obtain ⟨left, rfl⟩ := List.prefix_of_prefix_length_le hprefix (List.prefix_append s t) hlength
  have hbehind : behind = left ++ t := by simpa using heq.symm
  subst hbehind
  rw [List.append_assoc, List.singleton_append, caption?_append hfree]
  have hsame : targetName? left = targetName? (left ++ t) := by
    refine targetName?_restrict fun name hname => ?_
    simp [hname, linkLexeme] at hle
    omega
  simp [hsame]

/-- What is cut off behind a token does not change it. -/
theorem lexemeAt?_restrict (h : lexemeAt? (s ++ t) = some x) (hle : x.text.length ≤ s.length) :
    lexemeAt? s = some x := by
  cases s with
  | nil => exact absurd (List.length_eq_zero_iff.1 (Nat.le_zero.1 hle)) (heads_of_lexemeAt? h).text_ne_nil
  | cons c s =>
    rw [List.cons_append] at h
    unfold lexemeAt? at h
    split at h
    · rename_i heq
      cases heq
      cases h
      exact congrArg some (openAt_restrict hle)
    · rename_i heq
      cases heq
      exact h
    · rename_i heq
      cases heq
      cases h
      exact congrArg some (paragraphAt_restrict hle)
    · rename_i heq
      cases heq
      exact revealAt?_restrict h hle
    · cases h

theorem lexemeAt?_of_plain {c : Char} (hsign : isSign c = false) (hc : c ≠ '[') (s : List Char) :
    lexemeAt? (c :: s) = none := by
  have hsigns : (c ≠ '\x7b' ∧ c ≠ '\x7d') ∧ c ≠ '>' := by
    simpa [isSign, startsBrace, startsMark] using hsign
  unfold lexemeAt?
  split <;> simp_all

/-- Nothing becomes a token because something is cut off behind it. -/
theorem lexemeAt?_restrict_none {c : Char} (h : lexemeAt? (c :: (s ++ t)) = none) : lexemeAt? (c :: s) = none := by
  by_cases hc : c = '['
  · subst hc
    have hnone : caption? (s ++ t) = none := by simpa [lexemeAt?, revealAt?] using h
    show revealAt? s = none
    cases hs : caption? s with
    | none => simp [revealAt?, hs]
    | some found =>
      obtain ⟨caption, behind⟩ := found
      obtain ⟨rfl, hfree⟩ := caption?_eq_some hs
      rw [List.append_assoc, List.cons_append, caption?_append hfree] at hnone
      cases hnone
  · exact lexemeAt?_of_plain (sourceLength_of_lexemeAt?_eq_none h).1 hc s

/-! ## Runs of tokens -/

theorem pieces_eq_map_scan (s : List Char) : pieces s = (scan s).map Lexeme.text := by
  rw [← map_pieces, List.map_map]
  exact (List.map_id _).symm

theorem flatMap_scan (s : List Char) : (scan s).flatMap Lexeme.text = s := by
  rw [List.flatMap_def, ← pieces_eq_map_scan, flatten_pieces]

theorem Heads.append_drop {c : Char} {rest : List Char} (h : Heads (c :: rest) x) :
    c :: rest = x.text ++ rest.drop (x.text.length - 1) := by
  obtain ⟨behind, hbehind⟩ := h.head
  obtain ⟨d, text, htext⟩ := List.exists_cons_of_ne_nil h.text_ne_nil
  rw [htext] at hbehind ⊢
  obtain ⟨rfl, rfl⟩ := List.cons_eq_cons.1 hbehind
  simp

theorem scan_of_lexemeAt? {p : List Char} (h : lexemeAt? (x.text ++ p) = some x) : scan (x.text ++ p) = x :: scan p := by
  cases htext : x.text with
  | nil => exact absurd htext (heads_of_lexemeAt? h).text_ne_nil
  | cons c rest =>
    rw [htext] at h
    rw [List.cons_append, scan, ← List.cons_append, h]
    simp [htext]

theorem flatMap_joinText (c : Char) (xs : List Lexeme) :
    (joinText c xs).flatMap Lexeme.text = c :: xs.flatMap Lexeme.text := by
  unfold joinText
  split <;> simp

/-- Lexemes are cut behind a character that joins them as they are cut without it. -/
theorem joinText_eq_append {c : Char} {zs : List Lexeme} (h : joinText c zs = xs ++ ys) (hne : xs ≠ []) :
    ∃ us, zs = us ++ ys ∧ xs = joinText c us := by
  obtain ⟨x, us, rfl⟩ := List.exists_cons_of_ne_nil hne
  unfold joinText at h
  split at h
  · rename_i s rest
    obtain ⟨rfl, rfl⟩ := List.cons.inj h
    exact ⟨⟨.text, s⟩ :: us, rfl, rfl⟩
  · rename_i hplain
    obtain ⟨rfl, rfl⟩ := List.cons.inj h
    refine ⟨us, rfl, ?_⟩
    unfold joinText
    split
    · rename_i s rest
      exact absurd rfl (hplain s (rest ++ ys))
    · rfl

/-- The first lexemes of a scan are read again from their texts alone. -/
theorem scan_restrict (h : scan s = xs ++ ys) : scan (xs.flatMap Lexeme.text) = xs := by
  fun_induction scan s generalizing xs with
  | case1 => rw [(List.append_eq_nil_iff.1 h.symm).1, List.flatMap_nil, scan]
  | case2 c rest x hx ih =>
    cases xs with
    | nil => rw [List.flatMap_nil, scan]
    | cons y us =>
      rw [List.cons_append, List.cons_eq_cons] at h
      obtain ⟨rfl, hrest⟩ := h
      have hsplit : c :: rest = (x.text ++ us.flatMap Lexeme.text) ++ ys.flatMap Lexeme.text := by
        rw [List.append_assoc, ← List.flatMap_append, ← hrest, flatMap_scan]
        exact (heads_of_lexemeAt? hx).append_drop
      rw [hsplit] at hx
      have hcut := lexemeAt?_restrict hx (by simp)
      rw [List.flatMap_cons, scan_of_lexemeAt? hcut, ih hrest]
  | case3 c rest hx ih =>
    cases xs with
    | nil => rw [List.flatMap_nil, scan]
    | cons y us =>
      obtain ⟨us, hrest, hjoin⟩ := joinText_eq_append h (List.cons_ne_nil y us)
      have hsplit : rest = us.flatMap Lexeme.text ++ ys.flatMap Lexeme.text := by
        rw [← List.flatMap_append, ← hrest, flatMap_scan]
      rw [hsplit] at hx
      rw [hjoin, flatMap_joinText, scan, lexemeAt?_restrict_none hx, ih hrest]

/-- What follows the first lexeme of a scan is read again from its text alone. -/
theorem scan_tail (h : scan s = x :: ys) : scan (ys.flatMap Lexeme.text) = ys := by
  fun_induction scan s generalizing x with
  | case1 => cases h
  | case2 c rest y hy ih =>
    obtain ⟨-, rfl⟩ := List.cons_eq_cons.1 h
    rw [flatMap_scan]
  | case3 c rest hc ih =>
    unfold joinText at h
    split at h
    · rename_i t zs hscan
      obtain ⟨-, rfl⟩ := List.cons_eq_cons.1 h
      exact ih hscan
    · obtain ⟨-, rfl⟩ := List.cons_eq_cons.1 h
      rw [flatMap_scan]

theorem scan_behind (h : scan s = xs ++ ys) : scan (ys.flatMap Lexeme.text) = ys := by
  induction xs generalizing s with
  | nil =>
    rw [List.nil_append] at h
    rw [← h, flatMap_scan]
  | cons x xs ih => exact ih (scan_tail h)

theorem pieces_local {before mid after : List (List Char)} (h : pieces s = before ++ mid ++ after) :
    pieces mid.flatten = mid := by
  rw [pieces_eq_map_scan] at h
  obtain ⟨xs, zs, hscan, hxs, rfl⟩ := List.map_eq_append_iff.1 h
  obtain ⟨ws, ys, rfl, -, rfl⟩ := List.map_eq_append_iff.1 hxs
  rw [List.append_assoc] at hscan
  rw [← List.flatMap_def, pieces_eq_map_scan, scan_restrict (scan_behind hscan)]

/-! ## Spans -/

/-- The token of a text in which `offset` bytes less stand before it. -/
def shiftLeft (offset : Nat) (t : Token) : Token :=
  { t with start := t.start - offset, stop := t.stop - offset }

/-- Where the token of an index starts. -/
def startAt (tokens : List Token) (index : Nat) : Nat :=
  (tokens[index]?.map start).getD 0

theorem ofPieces_take (start : Nat) (ps : List (List Char)) (n : Nat) :
    (ofPieces start ps).take n = ofPieces start (ps.take n) := by
  induction ps generalizing start n with
  | nil => simp [ofPieces]
  | cons piece ps ih =>
    cases n with
    | zero => rfl
    | succ n => simp [ofPieces, ih]

theorem ofPieces_drop (start : Nat) (ps : List (List Char)) (n : Nat) :
    (ofPieces start ps).drop n = ofPieces (start + byteLength (ps.take n).flatten) (ps.drop n) := by
  induction ps generalizing start n with
  | nil => simp [ofPieces]
  | cons piece ps ih =>
    cases n with
    | zero => rfl
    | succ n => simp [ofPieces, ih, Nat.add_assoc]

/-- A run of tokens is that of its pieces, behind the pieces before it. -/
theorem ofPieces_extract (start : Nat) (ps : List (List Char)) (i j : Nat) :
    (ofPieces start ps).extract i j = ofPieces (start + byteLength (ps.take i).flatten) (ps.extract i j) := by
  rw [List.extract_eq_take_drop, List.extract_eq_take_drop, ofPieces_drop, ofPieces_take]

theorem map_shiftLeft_ofPieces (offset start : Nat) (ps : List (List Char)) :
    (ofPieces (offset + start) ps).map (shiftLeft offset) = ofPieces start ps := by
  induction ps generalizing start with
  | nil => rfl
  | cons piece ps ih =>
    simp only [ofPieces, List.map_cons, Nat.add_assoc, ih]
    simp [shiftLeft]

theorem le_start_of_mem_ofPieces {start : Nat} {ps : List (List Char)} {t : Token} (h : t ∈ ofPieces start ps) :
    start ≤ t.start := by
  obtain ⟨before, after, hsplit⟩ := List.append_of_mem h
  rw [(of_ofPieces_eq hsplit).2.2]
  exact Nat.le_add_right _ _

theorem startAt_ofPieces {ps : List (List Char)} {index : Nat} (start : Nat) (h : index < ps.length) :
    startAt (ofPieces start ps) index = start + byteLength (ps.take index).flatten := by
  obtain ⟨piece, rest, hdrop⟩ := List.exists_cons_of_ne_nil (List.drop_eq_nil_iff.not.2 (Nat.not_le.2 h))
  rw [startAt, ← List.head?_drop, ofPieces_drop, hdrop]
  rfl

end Token

/-- A run of tokens is that of a run of pieces, which stay as they are when cut again. -/
theorem exists_pieces_of_extract (source : String) (i j : Nat) :
    ∃ mid, Token.pieces mid.flatten = mid ∧
      (tokenize source).extract i j = Token.ofPieces (Token.startAt (tokenize source) i) mid := by
  refine ⟨(Token.pieces source.toList).extract i j, ?_, ?_⟩
  · have hsplit : Token.pieces source.toList = (Token.pieces source.toList).take i ++
        (Token.pieces source.toList).extract i j ++ ((Token.pieces source.toList).drop i).drop (j - i) := by
      rw [List.extract_eq_take_drop, List.append_assoc, List.take_append_drop, List.take_append_drop]
    exact Token.pieces_local hsplit
  · rw [tokenize, Token.ofPieces_extract]
    by_cases h : i < (Token.pieces source.toList).length
    · rw [Token.startAt_ofPieces 0 h]
    · have hnil : (Token.pieces source.toList).extract i j = [] := by
        rw [List.extract_eq_take_drop, List.drop_of_length_le (Nat.not_lt.1 h), List.take_nil]
      rw [hnil]
      rfl

/-- Any run of the tokens of a source is read again from its texts alone, with the spans moved to where
the texts then stand. So each token is read from its own text. -/
theorem tokenize_local (source : String) :
    (∀ i j, tokenize (Token.join ((tokenize source).extract i j)) =
        ((tokenize source).extract i j).map (Token.shiftLeft (Token.startAt (tokenize source) i)) ∧
      ∀ t ∈ (tokenize source).extract i j, Token.startAt (tokenize source) i ≤ t.start) ∧
    ∀ t ∈ tokenize source, tokenize t.text = [t.shiftLeft t.start] := by
  have hrun : ∀ i j, tokenize (Token.join ((tokenize source).extract i j)) =
      ((tokenize source).extract i j).map (Token.shiftLeft (Token.startAt (tokenize source) i)) := by
    intro i j
    obtain ⟨mid, hmid, hextract⟩ := exists_pieces_of_extract source i j
    have hshift := Token.map_shiftLeft_ofPieces (Token.startAt (tokenize source) i) 0 mid
    rw [hextract, tokenize, Token.toList_join, Token.chars_ofPieces, hmid, ← hshift, Nat.add_zero]
  refine ⟨fun i j => ⟨hrun i j, fun t ht => ?_⟩, fun t ht => ?_⟩
  · obtain ⟨mid, -, hextract⟩ := exists_pieces_of_extract source i j
    rw [hextract] at ht
    exact Token.le_start_of_mem_ofPieces ht
  · obtain ⟨i, hi⟩ := List.mem_iff_getElem?.1 ht
    have hextract : (tokenize source).extract i (i + 1) = [t] := by
      rw [List.extract_eq_take_drop, Nat.add_sub_cancel_left, List.take_one, List.head?_drop, hi]
      rfl
    have hstart : Token.startAt (tokenize source) i = t.start := by simp [Token.startAt, hi]
    have h := hrun i (i + 1)
    rw [hextract, hstart, Token.join_cons] at h
    simpa [Token.join] using h

/-- What is left of a caption that a brace has cut through, a mark and a link. -/
example : tokenize (Token.join ((tokenize "é[a\x7bb]#c>d [e]#f").extract 2 5)) =
    ((tokenize "é[a\x7bb]#c>d [e]#f").extract 2 5).map (Token.shiftLeft 5) := by
  decide +kernel

end Reveal
