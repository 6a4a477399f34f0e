import Reveal.Proofs.Token.Spelling
/-!
# Tokens and the source they were read from

The texts of the tokens in a row are the source (`chars_tokenize`), and a token's start is the byte
length of the texts before it, so what stands before a token in the source is what the tokens before
it hold (`charsBefore_start`).
-/
namespace Reveal

/-- The characters of a text that start before the byte `offset`. -/
def charsBefore : List Char → Nat → List Char
  | [], _ => []
  | c :: rest, offset => if offset = 0 then [] else c :: charsBefore rest (offset - c.utf8Size)

theorem charsBefore_append (s t : List Char) : charsBefore (s ++ t) (byteLength s) = s := by
  induction s with
  | nil => cases t <;> rfl
  | cons c s ih =>
    have hc : c.utf8Size ≠ 0 := Nat.ne_of_gt c.utf8Size_pos
    simp [charsBefore, hc, ih]

namespace Token

/-- The characters of tokens in a row. -/
def chars (tokens : List Token) : List Char :=
  tokens.flatMap fun t => t.text.toList

@[simp] theorem chars_nil : chars [] = [] := rfl

@[simp] theorem chars_cons (t : Token) (tokens : List Token) : chars (t :: tokens) = t.text.toList ++ chars tokens :=
  rfl

@[simp] theorem chars_append (tokens more : List Token) : chars (tokens ++ more) = chars tokens ++ chars more :=
  List.flatMap_append

theorem flatten_flatMap_cut (delimiter : List Char → Nat) (pieces : List (List Char)) :
    (pieces.flatMap (cut delimiter)).flatten = pieces.flatten := by
  induction pieces with
  | nil => rfl
  | cons piece pieces ih => simp [flatten_cut, ih]

theorem flatten_pieces (s : List Char) : (pieces s).flatten = s := by
  simp only [pieces, flatten_flatMap_cut, flatten_cut]

theorem chars_ofPieces (start : Nat) (ps : List (List Char)) : chars (ofPieces start ps) = ps.flatten := by
  induction ps generalizing start with
  | nil => rfl
  | cons piece ps ih => simp [ofPieces, ih]

/-- A token among those of some pieces stands for its piece and starts behind the tokens before it. -/
theorem of_ofPieces_eq {start : Nat} {ps : List (List Char)} {before after : List Token} {t : Token}
    (h : ofPieces start ps = before ++ t :: after) :
    t.text.toList ∈ ps ∧ t.kind = Kind.ofPiece t.text.toList ∧ t.start = start + byteLength (chars before) := by
  induction before generalizing start ps with
  | nil =>
    cases ps with
    | nil => cases h
    | cons piece ps =>
      simp only [ofPieces, List.nil_append, List.cons.injEq] at h
      simp [← h.1]
  | cons u before ih =>
    cases ps with
    | nil => cases h
    | cons piece ps =>
      simp only [ofPieces, List.cons_append, List.cons.injEq] at h
      obtain ⟨rfl, h⟩ := h
      obtain ⟨hmem, hkind, hstart⟩ := ih h
      exact ⟨List.mem_cons_of_mem _ hmem, hkind, by simp [hstart, Nat.add_assoc]⟩

/-! ## Names -/

/-- The name that a token spells. -/
def Kind.name? : Kind → Option String
  | .paragraph name | .fragmentOpen name | .revealLink _ name => name
  | .fragmentClose | .text => none

theorem Spells.isName {piece name : String} {kind : Kind} (h : Spells piece kind) (hname : kind.name? = some name) :
    IsName name := by
  cases h with
  | fragmentOpen | fragmentClose | link => cases hname
  | namedFragment _ _ isName | targetedLink _ _ _ _ isName =>
    cases hname
    exact isName
  | paragraph spelled gap isName isGap =>
    have hspelled : (if spelled = "" then none else some spelled) = some name := hname
    cases (Option.ite_none_left_eq_some.1 hspelled).2
    exact isName

/-- Whatever a piece stands for, the name in it is made of name characters. -/
theorem isName_ofPiece {piece : List Char} {name : String} (h : (Kind.ofPiece piece).name? = some name) :
    IsName name := by
  unfold Kind.ofPiece at h
  cases hkind : Kind.ofPiece? piece with
  | none =>
    rw [hkind] at h
    cases h
  | some kind =>
    rw [hkind, Option.getD_some] at h
    rw [← String.toList_ofList (l := piece)] at hkind
    exact (spells_of_ofPiece? hkind).isName h

end Token

variable {source : String} {before after : List Token} {t : Token}

theorem isName_of_mem_tokenize {name : String} (h : t ∈ tokenize source) (hname : t.kind.name? = some name) :
    Token.IsName name := by
  obtain ⟨before, after, hsplit⟩ := List.append_of_mem h
  rw [(Token.of_ofPieces_eq hsplit).2.1] at hname
  exact Token.isName_ofPiece hname

/-- Nothing of a source is lost. -/
theorem chars_tokenize (source : String) : Token.chars (tokenize source) = source.toList := by
  rw [tokenize, Token.chars_ofPieces, Token.flatten_pieces]

/-- What stands before a token in the source is what the tokens before it hold. -/
theorem charsBefore_start (h : tokenize source = before ++ t :: after) :
    charsBefore source.toList t.start = Token.chars before := by
  have hstart := (Token.of_ofPieces_eq h).2.2
  rw [← chars_tokenize, h, hstart, Nat.zero_add, Token.chars_append, charsBefore_append]

/-- What a token stands for tells which signs its text holds. -/
theorem signs_of_tokenize (h : tokenize source = before ++ t :: after) :
    Token.signs t.text.toList = t.kind.signs := by
  obtain ⟨hmem, hkind, -⟩ := Token.of_ofPieces_eq h
  rw [hkind, Token.signs_of_piece hmem]

end Reveal
