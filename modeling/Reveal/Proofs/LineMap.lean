import Mathlib.Data.List.DropRight
import Reveal.Proofs.Token.Source
/-!
# Positions by lookup and by count

A position can be looked up in a line map or counted off the text in front of it. The lookup cuts the
source into lines once, finds a line by bisection and then counts inside of that line only. It comes
to the same: `split_append` says what the lines look like behind any text, `bisect_eq` that bisection
finds the last line that starts at or before an offset, and `position_boundary` puts the two together.
-/
namespace Reveal

variable {s : List Char} {c : Char} {offset : Nat}

theorem byteLength_reverse (s : List Char) : byteLength s.reverse = byteLength s := by
  induction s with
  | nil => rfl
  | cons c s ih => simp [ih, Nat.add_comm]

theorem length_le_byteLength (s : List Char) : s.length ≤ byteLength s := by
  induction s with
  | nil => rfl
  | cons c s ih =>
    have hpos := c.utf8Size_pos
    rw [List.length_cons, byteLength_cons]
    omega

/-! ## Counting -/

/-- What stands behind the last line feed of a text. -/
def lastLine (s : List Char) : List Char :=
  s.rtakeWhile (· != '\n')

/-- The byte offset at which the last line of a text starts. -/
def lineStart (s : List Char) : Nat :=
  byteLength s - byteLength (lastLine s)

@[simp] theorem lastLine_nil : lastLine [] = [] := rfl

theorem lastLine_newline (s : List Char) : lastLine (s ++ ['\n']) = [] :=
  List.rtakeWhile_concat_neg _ _ _ (by decide)

theorem lastLine_concat (s : List Char) (hc : c ≠ '\n') : lastLine (s ++ [c]) = lastLine s ++ [c] :=
  List.rtakeWhile_concat_pos _ _ _ (bne_iff_ne.2 hc)

/-- Reading a text from the start counts its line feeds and the characters of its last line. -/
theorem Position.start_after (s : List Char) :
    Position.start.after s = ⟨1 + s.count '\n', 1 + (lastLine s).length⟩ := by
  induction s using List.reverseRecOn with
  | nil => rfl
  | append_singleton s c ih =>
    rw [after_append, ih]
    by_cases hc : c = '\n'
    · subst hc
      simp [after, next, lastLine_newline, Nat.add_assoc]
    · simp [after, next, lastLine_concat s hc, hc, Nat.add_assoc]

namespace Line

/-! ## Lines -/

variable {start : Nat} {taken : List Char} {l : Line}

theorem start_le_of_mem_split (h : l ∈ split start taken s) : start ≤ l.start := by
  induction s generalizing start taken with
  | nil =>
    rw [split, List.mem_singleton] at h
    rw [h]
  | cons c s ih =>
    rw [split] at h
    split at h
    · rcases List.mem_cons.1 h with rfl | h
      · exact Nat.le_refl _
      · exact Nat.le_trans (Nat.le_add_right ..) (ih h)
    · exact ih h

/-- The line that is begun goes on in what is left, and the lines behind it start further on. -/
theorem split_cases (start : Nat) (taken s : List Char) : ∃ rest later,
    split start taken s = ⟨start, taken.reverse ++ rest⟩ :: later ∧
      ∀ l ∈ later, start + byteLength taken < l.start := by
  induction s generalizing taken with
  | nil => exact ⟨[], [], by simp [split], by simp⟩
  | cons c s ih =>
    have hpos := c.utf8Size_pos
    by_cases hc : c = '\n'
    · refine ⟨[c], split (start + byteLength (c :: taken)) [] s, by simp [split, hc], fun l hl => ?_⟩
      have hle := start_le_of_mem_split hl
      rw [byteLength_cons] at hle
      omega
    · obtain ⟨rest, later, hsplit, hlater⟩ := ih (c :: taken)
      refine ⟨c :: rest, later, by simp [split, hc, hsplit], fun l hl => ?_⟩
      have hlt := hlater l hl
      rw [byteLength_cons] at hlt
      omega

/-- Behind any text, the line that is begun is the text's last line. As many lines as the text has line
feeds lie in front of it. -/
theorem split_append (before after : List Char) : ∃ earlier start,
    split 0 [] (before ++ after) = earlier ++ split start (lastLine before).reverse after ∧
      earlier.length = before.count '\n' ∧ start + byteLength (lastLine before) = byteLength before ∧
      ∀ l ∈ earlier, l.start ≤ start := by
  induction before using List.reverseRecOn generalizing after with
  | nil => exact ⟨[], 0, rfl, rfl, rfl, by simp⟩
  | append_singleton before c ih =>
    obtain ⟨earlier, start, hsplit, hlength, hstart, hearlier⟩ := ih (c :: after)
    rw [List.append_assoc, List.singleton_append, hsplit, split]
    by_cases hc : c = '\n'
    · subst hc
      refine ⟨earlier ++ [⟨start, ('\n' :: (lastLine before).reverse).reverse⟩],
        start + byteLength ('\n' :: (lastLine before).reverse), ?_, ?_, ?_, ?_⟩
      · rw [if_pos rfl, lastLine_newline, List.append_assoc]
        rfl
      · simp [hlength]
      · rw [lastLine_newline, byteLength_cons, byteLength_reverse, byteLength_append, ← hstart]
        simp
        omega
      · intro l hl
        rcases List.mem_append.1 hl with hl | hl
        · exact Nat.le_trans (hearlier l hl) (Nat.le_add_right ..)
        · rw [List.mem_singleton.1 hl]
          exact Nat.le_add_right ..
    · refine ⟨earlier, start, ?_, ?_, ?_, hearlier⟩
      · rw [if_neg hc, lastLine_concat before hc, List.reverse_append]
        rfl
      · rw [hlength]
        simp [hc]
      · rw [lastLine_concat before hc, byteLength_append, byteLength_append, ← hstart, Nat.add_assoc]

/-! ## Columns -/

theorem charsWithin_cons {bytes : Nat} (h : bytes ≠ 0) : charsWithin (c :: s) bytes =
    if c.utf8Size ≤ bytes then (charsWithin s (bytes - c.utf8Size)).map (· + 1) else none := by
  rw [charsWithin]
  exact h

theorem charsWithin_append (s rest : List Char) : charsWithin (s ++ rest) (byteLength s) = some s.length := by
  induction s with
  | nil => cases rest <;> rfl
  | cons c s ih =>
    have hpos := c.utf8Size_pos
    rw [List.cons_append, byteLength_cons, charsWithin_cons (by omega), if_pos (Nat.le_add_right ..),
      Nat.add_sub_cancel_left, ih]
    rfl

theorem charsWithin_inside (s rest : List Char) {part : Nat} (hpos : 0 < part) (hlt : part < c.utf8Size) :
    charsWithin (s ++ c :: rest) (byteLength s + part) = none := by
  induction s with
  | nil =>
    rw [List.nil_append, byteLength_nil, Nat.zero_add, charsWithin_cons (by omega), if_neg (by omega)]
  | cons d s ih =>
    rw [List.cons_append, byteLength_cons, charsWithin_cons (by omega), if_pos (by omega),
      Nat.add_assoc, Nat.add_sub_cancel_left, ih]
    rfl

end Line

namespace LineMap

/-! ## Lookup -/

/-- Bisection finds the last line that starts at or before the offset. -/
theorem bisect_eq {lines : Array Line} {lo hi k : Nat} (hlo : lo ≤ k) (hhi : k < hi) (hsize : hi ≤ lines.size)
    (hle : ∀ i l, i ≤ k → lines[i]? = some l → l.start ≤ offset)
    (hgt : ∀ i l, k < i → lines[i]? = some l → offset < l.start) : bisect lines offset lo hi = k := by
  fun_induction bisect lines offset lo hi with
  | case1 lo hi hlt mid l hmid hstart ih =>
    have hk : mid ≤ k := by
      by_contra hk
      have := hgt mid l (by omega) hmid
      omega
    exact ih hk hhi hsize
  | case2 lo hi hlt mid l hmid hstart ih =>
    have hk : k < mid := by
      by_contra hk
      exact hstart (hle mid l (by omega) hmid)
    exact ih hlo hk (by omega)
  | case3 lo hi hlt mid hmid =>
    rw [Array.getElem?_eq_none_iff] at hmid
    omega
  | case4 lo hi hlt => omega

/-- An offset in a line: the lines in front start no later, those behind start later. -/
theorem bisect_append {earlier later : List Line} {l : Line} (hearlier : ∀ m ∈ earlier, m.start ≤ offset)
    (hl : l.start ≤ offset) (hlater : ∀ m ∈ later, offset < m.start) :
    bisect (earlier ++ l :: later).toArray offset 0 (earlier ++ l :: later).toArray.size = earlier.length := by
  refine bisect_eq (Nat.zero_le _) (by simp) (Nat.le_refl _) (fun i m hi hm => ?_) (fun i m hi hm => ?_)
  · rw [List.getElem?_toArray] at hm
    rcases Nat.lt_or_eq_of_le hi with hi | rfl
    · rw [List.getElem?_append_left hi] at hm
      exact hearlier m (List.mem_of_getElem? hm)
    · simp at hm
      exact hm ▸ hl
  · rw [List.getElem?_toArray, List.getElem?_append_right (Nat.le_of_lt hi)] at hm
    obtain ⟨n, hn⟩ := Nat.exists_eq_add_of_lt hi
    rw [hn, Nat.add_assoc, Nat.add_sub_cancel_left, List.getElem?_cons_succ] at hm
    exact hlater m (List.mem_of_getElem? hm)

/-- `Hit s offset earlier l later`: among the lines of `s`, the offset falls in `l`. -/
structure Hit (s : List Char) (offset : Nat) (earlier : List Line) (l : Line) (later : List Line) : Prop where
  lines : Line.split 0 [] s = earlier ++ l :: later
  size : offset ≤ byteLength s
  earlier : ∀ m ∈ earlier, m.start ≤ offset
  start : l.start ≤ offset
  later : ∀ m ∈ later, offset < m.start

theorem Hit.position {earlier later : List Line} {l : Line} (h : Hit s offset earlier l later) :
    (ofChars s).position offset = ⟨earlier.length + 1, l.column offset⟩ := by
  unfold LineMap.position ofChars
  simp only [Nat.min_eq_left h.size, h.lines, bisect_append h.earlier h.start h.later]
  simp

/-- An offset between two characters. -/
theorem hit_boundary (before after : List Char) : ∃ earlier start rest later,
    Hit (before ++ after) (byteLength before) earlier ⟨start, lastLine before ++ rest⟩ later ∧
      earlier.length = before.count '\n' ∧ start + byteLength (lastLine before) = byteLength before := by
  obtain ⟨earlier, start, hsplit, hlength, hstart, hearlier⟩ := Line.split_append before after
  obtain ⟨rest, later, hline, hlater⟩ := Line.split_cases start (lastLine before).reverse after
  rw [List.reverse_reverse] at hline
  rw [byteLength_reverse, hstart] at hlater
  have hle : start ≤ byteLength before := Nat.le.intro hstart
  refine ⟨earlier, start, rest, later, ⟨by rw [hsplit, hline], by simp, ?_, hle, hlater⟩, hlength, hstart⟩
  intro m hm
  exact Nat.le_trans (hearlier m hm) hle

/-- An offset inside a character, which is no line feed, since that takes one byte. -/
theorem hit_inside (before after : List Char) (hlt : byteLength before < offset)
    (hgt : offset < byteLength before + c.utf8Size) : ∃ earlier start rest later,
    Hit (before ++ c :: after) offset earlier ⟨start, lastLine before ++ c :: rest⟩ later ∧
      earlier.length = before.count '\n' ∧ start + byteLength (lastLine before) = byteLength before := by
  have hc : c ≠ '\n' := by
    rintro rfl
    have : '\n'.utf8Size = 1 := rfl
    omega
  obtain ⟨earlier, start, hsplit, hlength, hstart, hearlier⟩ := Line.split_append before (c :: after)
  obtain ⟨rest, later, hline, hlater⟩ := Line.split_cases start (c :: (lastLine before).reverse) after
  rw [List.reverse_cons, List.reverse_reverse, List.append_assoc, List.singleton_append] at hline
  rw [byteLength_cons, byteLength_reverse] at hlater
  have hle : start ≤ offset := by omega
  refine ⟨earlier, start, rest, later, ⟨?_, ?_, fun m hm => ?_, hle, fun m hm => ?_⟩, hlength, hstart⟩
  · rw [hsplit, Line.split, if_neg hc, hline]
  · rw [byteLength_append, byteLength_cons]
    omega
  · exact Nat.le_trans (hearlier m hm) hle
  · have := hlater m hm
    omega

/-- Every offset within a text stands between two characters or inside one. -/
theorem offset_cases (h : offset ≤ byteLength s) :
    (∃ before after, s = before ++ after ∧ byteLength before = offset) ∨
      ∃ before c after, s = before ++ c :: after ∧ byteLength before < offset ∧
        offset < byteLength before + c.utf8Size := by
  induction s generalizing offset with
  | nil => exact .inl ⟨[], [], rfl, (Nat.le_zero.1 h).symm⟩
  | cons c s ih =>
    rw [byteLength_cons] at h
    rcases Nat.eq_zero_or_pos offset with rfl | hpos
    · exact .inl ⟨[], c :: s, rfl, rfl⟩
    · by_cases hlt : offset < c.utf8Size
      · exact .inr ⟨[], c, s, rfl, by simpa using hpos, by simpa using hlt⟩
      · have hrest : offset - c.utf8Size ≤ byteLength s := by omega
        rcases ih hrest with
          ⟨before, after, rfl, hbefore⟩ | ⟨before, d, after, rfl, hbefore, hafter⟩
        · exact .inl ⟨c :: before, after, rfl, by rw [byteLength_cons]; omega⟩
        · exact .inr ⟨c :: before, d, after, rfl, by rw [byteLength_cons]; omega, by rw [byteLength_cons]; omega⟩

theorem exists_hit (h : offset ≤ byteLength s) : ∃ earlier l later, Hit s offset earlier l later := by
  rcases offset_cases h with ⟨before, after, rfl, rfl⟩ | ⟨before, c, after, rfl, hlt, hgt⟩
  · obtain ⟨earlier, start, rest, later, hhit, -⟩ := hit_boundary before after
    exact ⟨_, _, _, hhit⟩
  · obtain ⟨earlier, start, rest, later, hhit, -⟩ := hit_inside before after hlt hgt
    exact ⟨_, _, _, hhit⟩

/-! ## Positions -/

/-- Between two characters a position counts the line feeds so far and the characters behind the last
of them. -/
theorem position_boundary (before after : List Char) : (ofChars (before ++ after)).position (byteLength before) =
    ⟨1 + before.count '\n', 1 + (lastLine before).length⟩ := by
  obtain ⟨earlier, start, rest, later, hhit, hlength, hstart⟩ := hit_boundary before after
  have hcolumn : byteLength before - start = byteLength (lastLine before) := by omega
  rw [hhit.position, hlength, Nat.add_comm, Line.column]
  simp only [hcolumn, Line.charsWithin_append]
  rfl

/-- Inside a character a position counts bytes instead. -/
theorem position_inside (before after : List Char) (hlt : byteLength before < offset)
    (hgt : offset < byteLength before + c.utf8Size) : (ofChars (before ++ c :: after)).position offset =
    ⟨1 + before.count '\n', 1 + (offset - lineStart before)⟩ := by
  obtain ⟨earlier, start, rest, later, hhit, hlength, hstart⟩ := hit_inside before after hlt hgt
  have hbytes : offset - start = byteLength (lastLine before) + (offset - byteLength before) := by omega
  have hline : lineStart before = start := by
    unfold lineStart
    omega
  rw [hhit.position, hlength, Nat.add_comm, hline, Line.column]
  simp only [hbytes]
  rw [Line.charsWithin_inside _ _ (by omega) (by omega)]
  rfl

theorem position_beyond (m : LineMap) (h : m.size ≤ offset) : m.position offset = m.stop := by
  unfold stop position
  rw [Nat.min_eq_right h, Nat.min_self]

/-- A lookup stays in bounds: nothing that it takes off goes below zero, its line is in the map, and
line and column are not beyond the number of bytes by more than one. -/
structure InBounds (m : LineMap) (offset : Nat) : Prop where
  /-- The line is the number of lines that start at or before the offset. -/
  line_eq : (m.position offset).line = m.lines.toList.countP (·.start ≤ min offset m.size)
  line_pos : 0 < (m.position offset).line
  /-- The column is counted from the start of that line, which is not behind the offset. -/
  column_eq : ∃ l, m.lines[(m.position offset).line - 1]? = some l ∧ l.start ≤ min offset m.size ∧
    (m.position offset).column = l.column (min offset m.size)
  line_le : (m.position offset).line ≤ m.size + 1
  column_le : (m.position offset).column ≤ m.size + 1

theorem position_le (h : offset ≤ byteLength s) : ((ofChars s).position offset).line ≤ byteLength s + 1 ∧
    ((ofChars s).position offset).column ≤ byteLength s + 1 := by
  rcases offset_cases h with ⟨before, after, rfl, rfl⟩ | ⟨before, c, after, rfl, hlt, hgt⟩
  · have hcount : before.count '\n' ≤ before.length := List.count_le_length
    have hlast : (lastLine before).length ≤ before.length := (List.rtakeWhile_suffix _ _).length_le
    have hbytes := length_le_byteLength before
    rw [position_boundary, byteLength_append]
    constructor
    · show 1 + before.count '\n' ≤ _
      omega
    · show 1 + (lastLine before).length ≤ _
      omega
  · have hcount : before.count '\n' ≤ before.length := List.count_le_length
    have hbytes := length_le_byteLength before
    rw [position_inside before after hlt hgt, byteLength_append, byteLength_cons]
    constructor
    · show 1 + before.count '\n' ≤ _
      omega
    · show 1 + (offset - lineStart before) ≤ _
      omega

/-- A text ends where reading it from the start leads to. -/
theorem stop_ofString (source : String) : (ofString source).stop = Position.start.after source.toList := by
  have hboundary := position_boundary source.toList []
  rw [List.append_nil] at hboundary
  rw [Position.start_after]
  exact hboundary

theorem position_min (m : LineMap) (offset : Nat) : m.position (min offset m.size) = m.position offset := by
  unfold position
  rw [Nat.min_assoc, Nat.min_self]

theorem inBounds (s : List Char) (offset : Nat) : InBounds (ofChars s) offset := by
  have hmin : min offset (ofChars s).size ≤ byteLength s := Nat.min_le_right ..
  obtain ⟨earlier, l, later, hhit⟩ := exists_hit hmin
  have hle := position_le hmin
  have hposition := hhit.position
  rw [position_min] at hle hposition
  have hlines : (ofChars s).lines = (earlier ++ l :: later).toArray := by rw [← hhit.lines]; rfl
  have hcount : (earlier ++ l :: later).countP (·.start ≤ min offset (ofChars s).size) = earlier.length + 1 := by
    have hearlier : earlier.countP (·.start ≤ min offset (ofChars s).size) = earlier.length :=
      List.countP_eq_length.2 fun m hm => decide_eq_true (hhit.earlier m hm)
    have hlater : later.countP (·.start ≤ min offset (ofChars s).size) = 0 :=
      List.countP_eq_zero.2 fun m hm hle => absurd (of_decide_eq_true hle) (Nat.not_le_of_lt (hhit.later m hm))
    rw [List.countP_append, List.countP_cons, hearlier, hlater, if_pos (decide_eq_true hhit.start)]
  refine ⟨?_, ?_, ⟨l, ?_, hhit.start, ?_⟩, hle.1, hle.2⟩
  · rw [hposition, hlines, hcount]
  · rw [hposition]
    exact Nat.succ_pos _
  · rw [hposition, hlines]
    simp
  · rw [hposition]

end LineMap

/-! ## Tokens -/

theorem Token.foldl_after (tokens : List Token) (p : Position) :
    tokens.foldl (fun p t => p.after t.text.toList) p = p.after (chars tokens) := by
  induction tokens generalizing p with
  | nil => rfl
  | cons t tokens ih => rw [List.foldl_cons, ih, chars_cons, Position.after_append]

variable {source : String} {t : Token} {i : Nat}

theorem positionOf_eq_position (h : (tokenize source)[i]? = some t) :
    Token.positionOf (tokenize source) i = (LineMap.ofString source).position t.start := by
  have hsplit : tokenize source = (tokenize source).take i ++ t :: (tokenize source).drop (i + 1) := by
    obtain ⟨hlt, rfl⟩ := List.getElem?_eq_some_iff.1 h
    rw [← List.drop_eq_getElem_cons hlt, List.take_append_drop]
  have hstart := (Token.of_ofPieces_eq hsplit).2.2
  have hsource : source.toList =
      Token.chars ((tokenize source).take i) ++ Token.chars (t :: (tokenize source).drop (i + 1)) := by
    rw [← Token.chars_append, ← hsplit, chars_tokenize]
  rw [Token.positionOf, Token.foldl_after, Position.start_after, hstart, Nat.zero_add, LineMap.ofString, hsource,
    LineMap.position_boundary]

theorem positionOf_eq_stop (h : (tokenize source).length ≤ i) :
    Token.positionOf (tokenize source) i = (LineMap.ofString source).stop := by
  rw [Token.positionOf, Token.foldl_after, List.take_of_length_le h, chars_tokenize, LineMap.stop_ofString]

/-- A looked-up position is the one that is counted, for every offset: between two characters, behind
the end and inside a character. So the lookup finds each token where the texts before it end. -/
theorem position_lookup (source : String) :
    (∀ offset, (LineMap.ofString source).InBounds offset) ∧
    (∀ before after, source.toList = before ++ after →
      (LineMap.ofString source).position (byteLength before) =
        ⟨1 + before.count '\n', 1 + (lastLine before).length⟩) ∧
    (∀ offset, byteLength source.toList < offset →
      (LineMap.ofString source).position offset = (LineMap.ofString source).stop) ∧
    (∀ before c after offset, source.toList = before ++ c :: after →
      byteLength before < offset → offset < byteLength before + c.utf8Size →
      (LineMap.ofString source).position offset =
        ⟨1 + before.count '\n', 1 + (offset - lineStart before)⟩) ∧
    (∀ i t, (tokenize source)[i]? = some t →
      Token.positionOf (tokenize source) i = (LineMap.ofString source).position t.start) ∧
    ∀ i, (tokenize source).length ≤ i →
      Token.positionOf (tokenize source) i = (LineMap.ofString source).stop := by
  refine ⟨LineMap.inBounds source.toList, ?_, ?_, ?_, fun i t => positionOf_eq_position,
    fun i => positionOf_eq_stop⟩
  · intro before after hsource
    rw [LineMap.ofString, hsource]
    exact LineMap.position_boundary before after
  · intro offset hlt
    exact LineMap.position_beyond _ (Nat.le_of_lt hlt)
  · intro before c after offset hsource hlt hgt
    rw [LineMap.ofString, hsource]
    exact LineMap.position_inside before after hlt hgt

-- Offset 6 lies inside of the last character, and its column is further on than the end.
example : ([0, 2, 3, 4, 5, 6, 7, 9].map (LineMap.ofString "ab\néü").position) =
    [⟨1, 1⟩, ⟨1, 3⟩, ⟨2, 1⟩, ⟨2, 2⟩, ⟨2, 2⟩, ⟨2, 4⟩, ⟨2, 3⟩, ⟨2, 3⟩] := by
  decide +kernel

end Reveal
