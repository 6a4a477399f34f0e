import Mathlib.Data.List.Chain
import Reveal.Proofs.Token.Fuse
import Reveal.Proofs.Token.Source
/-!
# Scanning a source from left to right

The three cuts and the reading of each piece alone come to the same as one scan (`tokenize_scan`).
The scan looks at what starts where it stands. At a brace or at the sign of a paragraph a token
always starts; at an opening bracket one starts if the bracket is closed before the next such sign;
any other character is text, joined with the text behind it.
-/
namespace Reveal

namespace Token

/-! ## The scan -/

/-- What a token stands for, and its text. -/
structure Lexeme where
  kind : Kind
  text : List Char
  deriving DecidableEq

/-- A brace or the sign of a paragraph. -/
def isSign (c : Char) : Bool := startsBrace c || startsMark c

def nonEmpty? (name : List Char) : Option (List Char) :=
  if name.isEmpty then none else some name

/-- The name in front of a colon, unless it is empty. -/
def fragmentName? (s : List Char) : Option (List Char) :=
  match s.dropWhile isNameChar with
  | ':' :: _ => nonEmpty? (s.takeWhile isNameChar)
  | _ => none

/-- The name behind `#`, unless it is empty. -/
def targetName? : List Char → Option (List Char)
  | '#' :: s => nonEmpty? (s.takeWhile isNameChar)
  | _ => none

/-- The caption in front of the first closing bracket and what stands behind the bracket, if no sign
stands before it. -/
def caption? (s : List Char) : Option (List Char × List Char) :=
  match s.dropWhile fun c => c != ']' && !isSign c with
  | ']' :: behind => some (s.takeWhile fun c => c != ']' && !isSign c, behind)
  | _ => none

def openAt (s : List Char) : Lexeme :=
  match fragmentName? s with
  | some name => ⟨.fragmentOpen (some (String.ofList name)), '\x7b' :: (name ++ [':'])⟩
  | none => ⟨.fragmentOpen none, ['\x7b']⟩

/-- The longest name and at most one blank. -/
def paragraphAt (s : List Char) : Lexeme :=
  let name := s.takeWhile isNameChar
  let blank := ((s.dropWhile isNameChar).take 1).takeWhile Text.isBlank
  ⟨.paragraph ((nonEmpty? name).map String.ofList), '>' :: (name ++ blank)⟩

def linkLexeme (caption : List Char) : Option (List Char) → Lexeme
  | some name =>
    ⟨.revealLink (String.ofList caption) (some (String.ofList name)), '[' :: (caption ++ ']' :: '#' :: name)⟩
  | none => ⟨.revealLink (String.ofList caption) none, '[' :: (caption ++ [']'])⟩

def revealAt? (s : List Char) : Option Lexeme :=
  (caption? s).map fun (caption, behind) => linkLexeme caption (targetName? behind)

/-- The structural token that starts at the head of a text, if one does. -/
def lexemeAt? : List Char → Option Lexeme
  | '\x7b' :: s => some (openAt s)
  | '\x7d' :: _ => some ⟨.fragmentClose, ['\x7d']⟩
  | '>' :: s => some (paragraphAt s)
  | '[' :: s => revealAt? s
  | _ => none

/-- Puts a character in front of the text at the head of some lexemes, or makes it a text of its own. -/
def joinText (c : Char) : List Lexeme → List Lexeme
  | ⟨.text, s⟩ :: rest => ⟨.text, c :: s⟩ :: rest
  | rest => ⟨.text, [c]⟩ :: rest

/-- Scans a text from left to right. -/
def scan : List Char → List Lexeme
  | [] => []
  | c :: rest =>
    match lexemeAt? (c :: rest) with
    | some x => x :: scan (rest.drop (x.text.length - 1))
    | none => joinText c (scan rest)
termination_by s => s.length
decreasing_by all_goals simp; try omega

/-! ## What starts at the head of a text -/

section Restrict

variable {p q : Char → Bool} (h : ∀ c, p c = true → q c = true)
include h

theorem takeWhile_restrict (s : List Char) : (s.takeWhile q).takeWhile p = s.takeWhile p := by
  rw [List.takeWhile_takeWhile]
  congr 1
  funext c
  cases hc : p c with
  | false => rfl
  | true => simp [h c hc]

theorem dropWhile_restrict (s : List Char) : (s.takeWhile q).dropWhile p = (s.dropWhile p).takeWhile q := by
  induction s with
  | nil => rfl
  | cons c s ih =>
    cases hp : p c with
    | true => simp [hp, h c hp, ih]
    | false => cases hq : q c <;> simp [hp, hq]

end Restrict

theorem not_isSign_of_isNameChar (c : Char) (h : isNameChar c = true) : (!isSign c) = true := by
  cases hs : isSign c with
  | false => rfl
  | true =>
    simp only [isSign, startsBrace, startsMark, Bool.or_eq_true, beq_iff_eq] at hs
    rcases hs with (rfl | rfl) | rfl <;> exact absurd h (by decide)

theorem not_startsBrace_of_isNameChar (c : Char) (h : isNameChar c = true) : (!startsBrace c) = true := by
  have hs := not_isSign_of_isNameChar c h
  simp only [isSign, Bool.not_or, Bool.and_eq_true] at hs
  exact hs.1

theorem not_startsBrace_of_isBlank {c : Char} (h : Text.isBlank c = true) : startsBrace c = false := by
  cases hs : startsBrace c with
  | false => rfl
  | true =>
    simp only [startsBrace, Bool.or_eq_true, beq_iff_eq] at hs
    rcases hs with rfl | rfl <;> exact absurd h (by decide)

/-- `x` is what the cuts take at the head of `s`, and what is read from it. -/
structure Heads (s : List Char) (x : Lexeme) : Prop where
  length : sourceLength s = x.text.length
  head : x.text <+: s
  kind : Kind.ofPiece x.text = x.kind
  structural : x.kind ≠ .text

variable {s : List Char} {x : Lexeme}

theorem Heads.text_ne_nil (h : Heads s x) : x.text ≠ [] := by
  intro hnil
  refine h.structural ?_
  rw [← h.kind, hnil]
  rfl

theorem sourceLength_brace {c : Char} (hc : startsBrace c = true) (s : List Char) :
    sourceLength (c :: s) = braceLength (c :: s) := by
  rw [sourceLength, fuse, if_neg ((startsAt_braceLength c s).2 hc)]

theorem sourceLength_mark (s : List Char) :
    sourceLength ('>' :: s) = markLength ('>' :: s.takeWhile (!startsBrace ·)) := by
  have htake : ('>' :: s).takeWhile (!startsBrace ·) = '>' :: s.takeWhile (!startsBrace ·) := rfl
  rw [sourceLength, fuse, if_pos (startsAt_braceLength.eq_zero (by decide) s), htake, fuse, if_neg (markLength_pos _)]

theorem sourceLength_plain {c : Char} (hc : isSign c = false) (s : List Char) :
    sourceLength (c :: s) = linkLength (c :: s.takeWhile (!isSign ·)) := by
  have hboth := hc
  rw [isSign, Bool.or_eq_false_iff] at hboth
  have htake : ((c :: s).takeWhile (!startsBrace ·)).takeWhile (!startsMark ·) = c :: s.takeWhile (!isSign ·) := by
    rw [List.takeWhile_takeWhile]
    simp [isSign, hboth, Bool.and_comm]
  have hmark : markLength ((c :: s).takeWhile (!startsBrace ·)) = 0 := by
    simp only [List.takeWhile_cons, hboth.1, Bool.not_false, if_true]
    exact startsAt_markLength.eq_zero hboth.2 _
  rw [sourceLength, fuse, if_pos (startsAt_braceLength.eq_zero hboth.1 s), fuse, if_pos hmark, htake]

theorem nonEmpty?_eq_some {name name' : List Char} (h : nonEmpty? name = some name') : name = name' ∧ name ≠ [] := by
  unfold nonEmpty? at h
  split at h
  · cases h
  · simp_all

theorem nonEmpty?_of_ne_nil {name : List Char} (h : name ≠ []) : nonEmpty? name = some name := by
  simp [nonEmpty?, h]

theorem fragmentName?_eq_some {name : List Char} (h : fragmentName? s = some name) :
    name ≠ [] ∧ s.takeWhile isNameChar = name ∧ ∃ t, s.dropWhile isNameChar = ':' :: t := by
  unfold fragmentName? at h
  split at h
  · rename_i t ht
    obtain ⟨hname, hne⟩ := nonEmpty?_eq_some h
    exact ⟨hname ▸ hne, hname, t, ht⟩
  · cases h

theorem fragmentName?_append {name : List Char} (hne : name ≠ []) (hname : ∀ c ∈ name, isNameChar c = true) :
    fragmentName? (name ++ ':' :: s) = some name := by
  have hcolon : isNameChar ':' = false := by decide
  unfold fragmentName?
  rw [List.dropWhile_append_of_pos hname, List.takeWhile_append_of_pos hname]
  simp [hcolon, nonEmpty?_of_ne_nil hne]

theorem exists_of_fragmentName? {name : List Char} (h : fragmentName? s = some name) :
    name ≠ [] ∧ (∀ c ∈ name, isNameChar c = true) ∧ ∃ u, s = name ++ ':' :: u := by
  obtain ⟨hne, htake, u, hdrop⟩ := fragmentName?_eq_some h
  refine ⟨hne, htake ▸ fun c => isNameChar_of_mem_takeWhile, u, ?_⟩
  rw [← htake, ← hdrop, List.takeWhile_append_dropWhile]

theorem heads_open (s : List Char) : Heads ('\x7b' :: s) (openAt s) := by
  have hbrace := sourceLength_brace (c := '\x7b') rfl s
  unfold openAt
  cases hname : fragmentName? s with
  | some name =>
    obtain ⟨-, htake, t, hdrop⟩ := fragmentName?_eq_some hname
    obtain ⟨hne, hchars, u, hs⟩ := exists_of_fragmentName? hname
    have hlength : braceLength ('\x7b' :: s) = name.length + 2 := by
      obtain ⟨c, rest, rfl⟩ := List.exists_cons_of_ne_nil hne
      simp [braceLength, nameLength, htake, hdrop]
    refine ⟨by simp [hbrace, hlength], ⟨u, by simp [hs]⟩, ?_, by simp⟩
    rw [Kind.ofPiece, ofPiece?_named hne hchars]
    rfl
  | none =>
    have hlength : braceLength ('\x7b' :: s) = 1 := by
      unfold braceLength
      simp only
      split
      · rename_i n t hn ht
        simp only [fragmentName?, ht, nonEmpty?] at hname
        split at hname
        · rename_i hnil
          rw [nameLength, List.isEmpty_iff.1 hnil] at hn
          cases hn
        · cases hname
      · rfl
    exact ⟨by simp [hbrace, hlength], ⟨s, rfl⟩, rfl, by simp⟩

theorem heads_close (s : List Char) : Heads ('\x7d' :: s) ⟨.fragmentClose, ['\x7d']⟩ :=
  ⟨sourceLength_brace rfl s, ⟨s, rfl⟩, rfl, by simp⟩

theorem blank_cases (s : List Char) : (s.take 1).takeWhile Text.isBlank = [] ∨
    ∃ c, Text.isBlank c = true ∧ (s.take 1).takeWhile Text.isBlank = [c] := by
  cases s with
  | nil => exact .inl rfl
  | cons c s => cases hc : Text.isBlank c <;> simp [hc]

theorem heads_paragraph (s : List Char) : Heads ('>' :: s) (paragraphAt s) := by
  have hs : s.takeWhile isNameChar ++ s.dropWhile isNameChar = s := List.takeWhile_append_dropWhile
  have hchars : ∀ c ∈ s.takeWhile isNameChar, isNameChar c = true := fun c => isNameChar_of_mem_takeWhile
  have htake := takeWhile_restrict not_startsBrace_of_isNameChar s
  have hdrop := dropWhile_restrict not_startsBrace_of_isNameChar s
  have hlength := sourceLength_mark s
  simp only [markLength, nameLength, htake, hdrop] at hlength
  unfold paragraphAt
  refine ⟨?_, ?_, ?_, by simp⟩
  · rw [hlength]
    cases ht : s.dropWhile isNameChar with
    | nil => simp
    | cons c t =>
      cases hc : Text.isBlank c with
      | true => simp [hc, not_startsBrace_of_isBlank hc]
      | false => cases hb : startsBrace c <;> simp [hc, hb]
  · rw [List.cons_prefix_cons]
    refine ⟨rfl, ?_⟩
    conv_rhs => rw [← hs]
    rw [List.prefix_append_right_inj]
    exact (List.takeWhile_prefix _).trans (List.take_prefix 1 _)
  · rw [Kind.ofPiece, ofPiece?_mark hchars (blank_cases _)]
    cases s.takeWhile isNameChar <;> rfl

theorem caption?_append {caption : List Char} (h : ∀ c ∈ caption, c ≠ ']' ∧ isSign c = false) (behind : List Char) :
    caption? (caption ++ ']' :: behind) = some (caption, behind) := by
  have hcaption : ∀ c ∈ caption, (c != ']' && !isSign c) = true := by simpa using h
  unfold caption?
  rw [List.dropWhile_append_of_pos hcaption, List.takeWhile_append_of_pos hcaption]
  simp

theorem caption?_eq_some {caption behind : List Char} (h : caption? s = some (caption, behind)) :
    s = caption ++ ']' :: behind ∧ ∀ c ∈ caption, c ≠ ']' ∧ isSign c = false := by
  unfold caption? at h
  split at h
  · rename_i hdrop
    cases h
    constructor
    · rw [← hdrop, List.takeWhile_append_dropWhile]
    · intro c hc
      simpa using List.mem_takeWhile_imp hc
  · cases h

/-- A bracket that starts no link is not closed before the next sign. -/
theorem not_mem_of_caption?_eq_none (h : caption? s = none) : ']' ∉ s.takeWhile (!isSign ·) := by
  intro hmem
  obtain ⟨caption, rest, htake, hnot⟩ := List.eq_append_cons_of_mem hmem
  have hs : s = caption ++ ']' :: (rest ++ s.dropWhile (!isSign ·)) := by
    conv_lhs => rw [← List.takeWhile_append_dropWhile (p := (!isSign ·)) (l := s), htake]
    simp
  have hcaption : ∀ c ∈ caption, c ≠ ']' ∧ isSign c = false := by
    intro c hc
    refine ⟨fun heq => hnot (heq ▸ hc), ?_⟩
    have hplain : c ∈ s.takeWhile (!isSign ·) := htake ▸ List.mem_append_left _ hc
    simpa using List.mem_takeWhile_imp hplain
  rw [hs, caption?_append hcaption] at h
  cases h

theorem targetLength_restrict (s : List Char) :
    targetLength (s.takeWhile (!isSign ·)) = ((targetName? s).map fun name => name.length + 1).getD 0 := by
  unfold targetName?
  split
  · rename_i rest
    have hcons : ('#' :: rest).takeWhile (!isSign ·) = '#' :: rest.takeWhile (!isSign ·) := rfl
    simp only [hcons, targetLength, nameLength, takeWhile_restrict not_isSign_of_isNameChar, nonEmpty?]
    cases rest.takeWhile isNameChar <;> simp
  · rename_i hne
    unfold targetLength
    split
    · rename_i rest htake
      cases s with
      | nil => cases htake
      | cons c s =>
        by_cases hc : isSign c = true
        · simp [hc] at htake
        · simp [hc] at htake
          exact absurd (by rw [htake.1]) (hne s)
    · rfl

theorem targetName?_eq_some {name : List Char} (h : targetName? s = some name) :
    name ≠ [] ∧ (∀ c ∈ name, isNameChar c = true) ∧ '#' :: name <+: s := by
  unfold targetName? at h
  split at h
  · rename_i rest
    obtain ⟨rfl, hne⟩ := nonEmpty?_eq_some h
    exact ⟨hne, fun c => isNameChar_of_mem_takeWhile, List.cons_prefix_cons.2 ⟨rfl, List.takeWhile_prefix _⟩⟩
  · cases h

theorem heads_reveal (h : revealAt? s = some x) : Heads ('[' :: s) x := by
  unfold revealAt? at h
  obtain ⟨⟨caption, behind⟩, hcaption, rfl⟩ := Option.map_eq_some_iff.1 h
  obtain ⟨rfl, hfree⟩ := caption?_eq_some hcaption
  have hplain : ∀ c ∈ caption, (!isSign c) = true := fun c hc => by simp [hfree c hc]
  have hopen : ∀ c ∈ caption, (c != ']') = true := fun c hc => by simp [hfree c hc]
  have hlength : sourceLength ('[' :: (caption ++ ']' :: behind)) =
      caption.length + 2 + ((targetName? behind).map fun name => name.length + 1).getD 0 := by
    rw [sourceLength_plain (by decide), List.takeWhile_append_of_pos hplain, ← targetLength_restrict]
    have hclose : (']' :: behind).takeWhile (!isSign ·) = ']' :: behind.takeWhile (!isSign ·) := rfl
    simp [hclose, linkLength, List.dropWhile_append_of_pos hopen, List.takeWhile_append_of_pos hopen]
  show Heads _ (linkLexeme caption (targetName? behind))
  cases htarget : targetName? behind with
  | none =>
    rw [htarget] at hlength
    refine ⟨by simp [hlength, linkLexeme], ⟨behind, by simp [linkLexeme]⟩, ?_, by simp [linkLexeme]⟩
    rw [linkLexeme, Kind.ofPiece, ofPiece?_link hopen]
    rfl
  | some name =>
    rw [htarget] at hlength
    obtain ⟨hne, hname, t, rfl⟩ := targetName?_eq_some htarget
    refine ⟨?_, ⟨t, by simp [linkLexeme]⟩, ?_, by simp [linkLexeme]⟩
    · rw [hlength]
      simp [linkLexeme]
      omega
    · rw [linkLexeme, Kind.ofPiece, ofPiece?_target hopen hne hname]
      rfl

/-- What the scan reads at the head of a text is what the cuts make of it. -/
theorem heads_of_lexemeAt? (h : lexemeAt? s = some x) : Heads s x := by
  unfold lexemeAt? at h
  split at h
  · cases h
    exact heads_open _
  · cases h
    exact heads_close _
  · cases h
    exact heads_paragraph _
  · exact heads_reveal h
  · cases h

/-- Where no token starts, none of the cuts takes anything. -/
theorem sourceLength_of_lexemeAt?_eq_none {c : Char} (h : lexemeAt? (c :: s) = none) :
    isSign c = false ∧ sourceLength (c :: s) = 0 := by
  have hsign : isSign c = false := by
    rw [Bool.eq_false_iff]
    intro hc
    simp only [isSign, startsBrace, startsMark, Bool.or_eq_true, beq_iff_eq] at hc
    rcases hc with (rfl | rfl) | rfl <;> cases h
  refine ⟨hsign, ?_⟩
  rw [sourceLength_plain hsign]
  unfold linkLength
  split
  · rename_i rest heq
    cases heq
    have hnone : caption? s = none := by simpa [lexemeAt?, revealAt?] using h
    have hdrop : (s.takeWhile (!isSign ·)).dropWhile (· != ']') = [] := by
      rw [List.dropWhile_eq_nil_iff]
      intro d hd
      have hnot := not_mem_of_caption?_eq_none hnone
      simp only [bne_iff_ne]
      exact fun heq => hnot (heq ▸ hd)
    rw [hdrop]
  · rfl

/-! ## Text -/

/-- What lies between tokens is read as text: if it starts with a bracket, this is not closed. -/
theorem ofPiece_leftover {p r : List Char} (hsigns : ∀ c ∈ p, isSign c = false) (hnone : lexemeAt? (p ++ r) = none) :
    Kind.ofPiece p = .text := by
  have hplain : IsPlain p := by
    refine ⟨fun h => ?_, fun h => ?_, fun h => ?_⟩ <;> exact absurd (hsigns _ h) (by decide)
  cases p with
  | nil => rfl
  | cons c p =>
    by_cases hc : c = '['
    · subst hc
      have hcaption : caption? (p ++ r) = none := by simpa [lexemeAt?, revealAt?] using hnone
      have hnot := not_mem_of_caption?_eq_none hcaption
      have hp : ∀ c ∈ p, (!isSign c) = true := fun c hc => by simp [hsigns c (List.mem_cons_of_mem _ hc)]
      rw [List.takeWhile_append_of_pos hp] at hnot
      have hdrop : p.dropWhile (· != ']') = [] := by
        rw [List.dropWhile_eq_nil_iff]
        intro d hd
        simp only [bne_iff_ne]
        exact fun heq => hnot (List.mem_append_left _ (heq ▸ hd))
      show (linkPiece? p).getD .text = _
      simp [linkPiece?, hdrop]
    · unfold Kind.ofPiece Kind.ofPiece?
      obtain ⟨h1, h2, h3⟩ := hplain
      split <;> simp_all

/-! ## The cuts and the scan agree -/

def Lexeme.ofPiece (piece : List Char) : Lexeme := ⟨Kind.ofPiece piece, piece⟩

/-- Joins characters, latest first, to the lexemes behind them. -/
def joinTexts (taken : List Char) (xs : List Lexeme) : List Lexeme :=
  taken.foldl (fun xs c => joinText c xs) xs

@[simp] theorem joinTexts_nil (xs : List Lexeme) : joinTexts [] xs = xs := rfl

@[simp] theorem joinTexts_cons (c : Char) (taken : List Char) (xs : List Lexeme) :
    joinTexts (c :: taken) xs = joinTexts taken (joinText c xs) := rfl

theorem joinTexts_text (taken s : List Char) (xs : List Lexeme) :
    joinTexts taken (⟨.text, s⟩ :: xs) = ⟨.text, taken.reverse ++ s⟩ :: xs := by
  induction taken generalizing s with
  | nil => rfl
  | cons c taken ih => simp [joinText, ih]

/-- In front of a structural token, the characters begun so far are one text. -/
theorem joinTexts_of_structural (taken : List Char) {xs : List Lexeme} (h : ∀ x ∈ xs.head?, x.kind ≠ .text) :
    joinTexts taken xs = (flush taken).map (Lexeme.mk .text) ++ xs := by
  cases taken with
  | nil => rfl
  | cons c taken =>
    have hjoin : joinText c xs = ⟨.text, [c]⟩ :: xs := by
      unfold joinText
      split
      · exact absurd rfl (h _ rfl)
      · rfl
    rw [joinTexts_cons, hjoin, joinTexts_text]
    simp [flush]

theorem map_flush {taken s : List Char} (hsigns : ∀ c ∈ taken, isSign c = false)
    (hnone : taken ≠ [] → lexemeAt? (taken.reverse ++ s) = none) :
    (flush taken).map Lexeme.ofPiece = (flush taken).map (Lexeme.mk .text) := by
  refine List.map_congr_left fun piece hpiece => ?_
  obtain ⟨rfl, hne⟩ := eq_reverse_of_mem_flush hpiece
  have htext := ofPiece_leftover (p := taken.reverse) (by simpa using hsigns) (hnone (by simpa using hne))
  rw [Lexeme.ofPiece, htext]

/-- The piece begun so far holds no sign, and no token starts where it starts. Cutting on from there
gives what the scan gives, with the piece joined to it. -/
theorem map_cutFrom {taken s : List Char} (hsigns : ∀ c ∈ taken, isSign c = false)
    (hnone : taken ≠ [] → lexemeAt? (taken.reverse ++ s) = none) :
    (cutFrom sourceLength taken s).map Lexeme.ofPiece = joinTexts taken (scan s) := by
  fun_induction cutFrom sourceLength taken s with
  | case1 taken =>
    rw [map_flush hsigns hnone, scan, joinTexts_of_structural taken (by simp), List.append_nil]
  | case2 taken c rest hlength ih =>
    have hc : lexemeAt? (c :: rest) = none := by
      cases hx : lexemeAt? (c :: rest) with
      | none => rfl
      | some x =>
        have hx := heads_of_lexemeAt? hx
        rw [hx.length, List.length_eq_zero_iff] at hlength
        exact absurd hlength hx.text_ne_nil
    have hstart : lexemeAt? ((c :: taken).reverse ++ rest) = none := by
      cases taken with
      | nil => exact hc
      | cons d taken => simpa using hnone (List.cons_ne_nil d taken)
    have hsign := (sourceLength_of_lexemeAt?_eq_none hc).1
    rw [ih (List.forall_mem_cons.2 ⟨hsign, hsigns⟩) fun _ => hstart, scan, hc, joinTexts_cons]
  | case3 taken c rest n hlength ih =>
    cases hx : lexemeAt? (c :: rest) with
    | none =>
      rw [(sourceLength_of_lexemeAt?_eq_none hx).2] at hlength
      cases hlength
    | some x =>
      have hheads := heads_of_lexemeAt? hx
      have hlen : x.text.length = n + 1 := by rw [← hheads.length, hlength]
      have htext : c :: rest.take n = x.text := by
        rw [List.prefix_iff_eq_take.1 hheads.head, hlen, List.take_succ_cons]
      have hpiece : Lexeme.ofPiece x.text = x := by rw [Lexeme.ofPiece, hheads.kind]
      have hscan : scan (c :: rest) = x :: scan (rest.drop n) := by
        rw [scan, hx]
        simp [hlen]
      rw [hscan, joinTexts_of_structural taken (by simpa using hheads.structural), List.map_append,
        map_flush hsigns hnone, List.map_cons, htext, hpiece, ih (by simp) (by simp), joinTexts_nil]

theorem map_pieces (s : List Char) : (pieces s).map Lexeme.ofPiece = scan s := by
  rw [pieces_eq_cut, cut, map_cutFrom (by simp) (by simp), joinTexts_nil]

theorem isChain_joinText (c : Char) {xs : List Lexeme}
    (h : xs.IsChain fun x y => ¬ (x.kind = .text ∧ y.kind = .text)) :
    (joinText c xs).IsChain fun x y => ¬ (x.kind = .text ∧ y.kind = .text) := by
  unfold joinText
  split
  · rename_i s rest
    cases rest with
    | nil => simp
    | cons y rest =>
      rw [List.isChain_cons_cons] at h ⊢
      exact h
  · rename_i hne
    cases xs with
    | nil => simp
    | cons x xs =>
      refine List.isChain_cons_cons.2 ⟨?_, h⟩
      rintro ⟨-, hx⟩
      exact hne x.text xs (by rw [← hx])

/-- In a scan no text follows a text. -/
theorem isChain_scan (s : List Char) : (scan s).IsChain fun x y => ¬ (x.kind = .text ∧ y.kind = .text) := by
  fun_induction scan s with
  | case1 => exact .nil
  | case2 c rest x hx ih =>
    cases hrest : scan (rest.drop (x.text.length - 1)) with
    | nil => simp
    | cons y ys =>
      rw [hrest] at ih
      exact List.isChain_cons_cons.2 ⟨fun h => (heads_of_lexemeAt? hx).structural h.1, ih⟩
  | case3 c rest hx ih => exact isChain_joinText c ih

/-! ## Tokens -/

def lexeme (t : Token) : Lexeme := ⟨t.kind, t.text.toList⟩

theorem map_lexeme_ofPieces (start : Nat) (ps : List (List Char)) :
    (ofPieces start ps).map lexeme = ps.map Lexeme.ofPiece := by
  induction ps generalizing start with
  | nil => rfl
  | cons piece ps ih => simp [ofPieces, lexeme, Lexeme.ofPiece, ih]

end Token

theorem isNameChar_iff (c : Char) : isNameChar c = true ↔
    ('A' ≤ c ∧ c ≤ 'Z' ∨ 'a' ≤ c ∧ c ≤ 'z') ∨ '0' ≤ c ∧ c ≤ '9' ∨ '\u00c0' ≤ c ∧ c ≤ '\u00ff' ∨
      c = '-' ∨ c = '_' ∨ c = '\'' := by
  have hc : c.toNat = c.val.toNat := rfl
  delta isNameChar Char.isAlphanum Char.isAlpha Char.isUpper Char.isLower Char.isDigit
  simp only [Bool.or_eq_true, Bool.and_eq_true, decide_eq_true_eq, beq_iff_eq, Char.le_def,
    UInt32.le_iff_toNat_le, ge_iff_le, hc]
  simp [or_assoc]

/-- The tokens of a source are those of the scan, with the same texts. No two texts stand side by
side, and names are made of the characters listed here. -/
theorem tokenize_scan (source : String) :
    (tokenize source).map Token.lexeme = Token.scan source.toList ∧
    ((tokenize source).IsChain fun t u => ¬ (t.kind = .text ∧ u.kind = .text)) ∧
    ∀ c, isNameChar c = true ↔
      ('A' ≤ c ∧ c ≤ 'Z' ∨ 'a' ≤ c ∧ c ≤ 'z') ∨ '0' ≤ c ∧ c ≤ '9' ∨ '\u00c0' ≤ c ∧ c ≤ '\u00ff' ∨
        c = '-' ∨ c = '_' ∨ c = '\'' := by
  have hscan : (tokenize source).map Token.lexeme = Token.scan source.toList := by
    rw [tokenize, Token.map_lexeme_ofPieces, Token.map_pieces]
  refine ⟨hscan, ?_, isNameChar_iff⟩
  have hchain := Token.isChain_scan source.toList
  rw [← hscan, List.isChain_map] at hchain
  exact hchain

end Reveal
