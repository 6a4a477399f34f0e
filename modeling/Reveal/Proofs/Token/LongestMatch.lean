import Mathlib.Data.List.DropRight
import Mathlib.Data.List.MinMax
import Reveal.Proofs.Token.Scan
/-!
# The longest lexeme of a piece

A piece can also be read by trying every form of tokens at its head. Each form takes as much as it can,
the longest lexeme wins, and what it stands for is cut out of its text. The piece then stands for the same
if the lexeme is all of it, and for none otherwise (`classify?_eq_ofPiece?`).

What a form takes is spelled (`of_mem_lexemesAt`), and no spelling at the head of a text is longer than what
some form takes there (`exists_lexeme_of_spells`). So the longest lexeme is the longest spelling
(`longest?_eq_some_iff`).
-/
namespace Reveal.Token

/-! ## Forms -/

/-- A form of tokens. -/
structure Form where
  /-- The longest text of the form at the head of a text. -/
  slice? : List Char → Option (List Char)
  /-- What a text of the form stands for. -/
  kind : List Char → Kind

/-- What stands before and behind the first closing bracket. -/
def bracketed? (s : List Char) : Option (List Char × List Char) :=
  match s.dropWhile (· != ']') with
  | _ :: behind => some (s.takeWhile (· != ']'), behind)
  | [] => none

/-- The link that is cut at its first closing bracket. -/
def linkParts (slice : List Char) : Kind :=
  .revealLink (String.ofList ((slice.takeWhile (· != ']')).drop 1))
    (match (slice.dropWhile (· != ']')).drop 1 with
      | '#' :: target => some (String.ofList target)
      | _ => none)

namespace Form

/-- A single character. -/
def sign (c : Char) (kind : Kind) : Form where
  slice? s := if s.head? = some c then some [c] else none
  kind _ := kind

def fragmentOpen : Form := sign '\x7b' (.fragmentOpen none)

def fragmentClose : Form := sign '\x7d' .fragmentClose

/-- Blanks at the end are not part of the name. -/
def paragraph : Form where
  slice?
    | '>' :: s => some (paragraphAt s).text
    | _ => none
  kind slice := paragraphNamed (String.ofList ((slice.drop 1).rdropWhile Text.isBlank))

/-- The name is all but the first and the last character. -/
def namedFragment : Form where
  slice?
    | '\x7b' :: s => (fragmentName? s).map fun name => '\x7b' :: (name ++ [':'])
    | _ => none
  kind slice := .fragmentOpen (some (String.ofList (slice.drop 1).dropLast))

def link : Form where
  slice?
    | '[' :: s => (bracketed? s).map fun (caption, _) => '[' :: (caption ++ [']'])
    | _ => none
  kind := linkParts

def targetedLink : Form where
  slice?
    | '[' :: s => (bracketed? s).bind fun (caption, behind) =>
      (targetName? behind).map fun target => '[' :: (caption ++ ']' :: '#' :: target)
    | _ => none
  kind := linkParts

/-- The lexeme of a form at the head of a text. -/
def lexeme? (f : Form) (s : List Char) : Option Lexeme :=
  (f.slice? s).map fun slice => ⟨f.kind slice, slice⟩

end Form

def forms : List Form :=
  [.paragraph, .fragmentOpen, .namedFragment, .fragmentClose, .link, .targetedLink]

/-- The lexemes at the head of a text, at most one of each form. -/
def lexemesAt (s : List Char) : List Lexeme :=
  forms.filterMap (·.lexeme? s)

/-- The longest lexeme at the head of a text. -/
def longest? (s : List Char) : Option Lexeme :=
  (lexemesAt s).argmax fun x => x.text.length

/-- What the longest lexeme at the head of a piece stands for, if it is all of the piece. -/
def classify? (piece : List Char) : Option Kind :=
  (longest? piece).bind fun x => if x.text.length = piece.length then some x.kind else none

variable {s slice caption behind : List Char} {f : Form} {x : Lexeme} {text piece : String} {kind : Kind}

/-! ## What a form takes is spelled -/

theorem bracketed?_eq_some (h : bracketed? s = some (caption, behind)) :
    s = caption ++ ']' :: behind ∧ ∀ c ∈ caption, (c != ']') = true := by
  have hs := (List.takeWhile_append_dropWhile (p := (· != ']')) (l := s)).symm
  unfold bracketed? at h
  split at h
  · rename_i hrest
    cases h
    rw [hrest, eq_close_of_dropWhile hrest] at hs
    exact ⟨hs, List.all_eq_true.1 List.all_takeWhile⟩
  · cases h

theorem bracketed?_append (h : ∀ c ∈ caption, (c != ']') = true) (behind : List Char) :
    bracketed? (caption ++ ']' :: behind) = some (caption, behind) := by
  unfold bracketed?
  rw [List.dropWhile_append_of_pos h, List.takeWhile_append_of_pos h]
  simp

theorem rdropWhile_isBlank {name blank : List Char} (hname : ∀ c ∈ name, isNameChar c = true)
    (hblank : blank = [] ∨ ∃ c, Text.isBlank c = true ∧ blank = [c]) :
    (name ++ blank).rdropWhile Text.isBlank = name := by
  have hself : name.rdropWhile Text.isBlank = name := by
    rw [List.rdropWhile_eq_self_iff]
    intro hne hlast
    have hchar := hname _ (List.getLast_mem hne)
    rw [isNameChar_of_isBlank hlast] at hchar
    cases hchar
  rcases hblank with rfl | ⟨c, hc, rfl⟩
  · rw [List.append_nil, hself]
  · rw [List.rdropWhile_concat_pos _ _ _ hc, hself]

theorem linkParts_link (h : ∀ c ∈ caption, (c != ']') = true) :
    linkParts ('[' :: (caption ++ [']'])) = .revealLink (String.ofList caption) none := by
  unfold linkParts
  simp [List.dropWhile_append_of_pos h, List.takeWhile_append_of_pos h]

theorem linkParts_target (h : ∀ c ∈ caption, (c != ']') = true) (target : List Char) :
    linkParts ('[' :: (caption ++ ']' :: '#' :: target)) =
      .revealLink (String.ofList caption) (some (String.ofList target)) := by
  unfold linkParts
  simp [List.dropWhile_append_of_pos h, List.takeWhile_append_of_pos h]

/-- What the form takes at the head of a text stands for what the form says. -/
def Form.Sound (f : Form) : Prop :=
  ∀ s slice, f.slice? s = some slice → slice <+: s ∧ Kind.ofPiece? slice = some (f.kind slice)

theorem sound_paragraph : Form.paragraph.Sound := by
  intro s slice h
  simp only [Form.paragraph] at h ⊢
  split at h
  · rename_i s
    cases h
    have hchars : ∀ c ∈ s.takeWhile isNameChar, isNameChar c = true := fun c => isNameChar_of_mem_takeWhile
    refine ⟨(heads_paragraph s).head, ?_⟩
    simp only [paragraphAt, List.drop_succ_cons, List.drop_zero]
    rw [rdropWhile_isBlank hchars (blank_cases _), ofPiece?_mark hchars (blank_cases _), paragraphNamed]
    simp
  · cases h

theorem sound_sign {c : Char} (hpiece : Kind.ofPiece? [c] = some kind) : (Form.sign c kind).Sound := by
  intro s slice h
  simp only [Form.sign] at h ⊢
  split at h
  · rename_i hhead
    cases h
    obtain ⟨rest, rfl⟩ := List.head?_eq_some_iff.1 hhead
    exact ⟨⟨rest, rfl⟩, hpiece⟩
  · cases h

theorem sound_namedFragment : Form.namedFragment.Sound := by
  intro s slice h
  simp only [Form.namedFragment] at h ⊢
  split at h
  · obtain ⟨name, hname, rfl⟩ := Option.map_eq_some_iff.1 h
    obtain ⟨hne, hchars, behind, rfl⟩ := exists_of_fragmentName? hname
    refine ⟨⟨behind, by simp⟩, ?_⟩
    rw [ofPiece?_named hne hchars]
    simp
  · cases h

theorem sound_link : Form.link.Sound := by
  intro s slice h
  simp only [Form.link] at h ⊢
  split at h
  · obtain ⟨⟨caption, behind⟩, hcaption, rfl⟩ := Option.map_eq_some_iff.1 h
    obtain ⟨rfl, hopen⟩ := bracketed?_eq_some hcaption
    refine ⟨⟨behind, by simp⟩, ?_⟩
    rw [ofPiece?_link hopen, linkParts_link hopen]
  · cases h

theorem sound_targetedLink : Form.targetedLink.Sound := by
  intro s slice h
  simp only [Form.targetedLink] at h ⊢
  split at h
  · obtain ⟨⟨caption, behind⟩, hcaption, h⟩ := Option.bind_eq_some_iff.1 h
    obtain ⟨target, htarget, rfl⟩ := Option.map_eq_some_iff.1 h
    obtain ⟨rfl, hopen⟩ := bracketed?_eq_some hcaption
    obtain ⟨hne, hname, rest, rfl⟩ := targetName?_eq_some htarget
    refine ⟨⟨rest, by simp⟩, ?_⟩
    rw [ofPiece?_target hopen hne hname, linkParts_target hopen]
  · cases h

theorem sound_of_mem (hf : f ∈ forms) : f.Sound := by
  simp only [forms, List.mem_cons, List.not_mem_nil, or_false] at hf
  rcases hf with rfl | rfl | rfl | rfl | rfl | rfl
  · exact sound_paragraph
  · exact sound_sign rfl
  · exact sound_namedFragment
  · exact sound_sign rfl
  · exact sound_link
  · exact sound_targetedLink

theorem mem_lexemesAt (hf : f ∈ forms) (h : f.slice? s = some slice) : ⟨f.kind slice, slice⟩ ∈ lexemesAt s :=
  List.mem_filterMap.2 ⟨f, hf, by rw [Form.lexeme?, h, Option.map_some]⟩

theorem of_mem_lexemesAt (h : x ∈ lexemesAt s) : x.text <+: s ∧ Spells (String.ofList x.text) x.kind := by
  obtain ⟨f, hf, hx⟩ := List.mem_filterMap.1 h
  obtain ⟨slice, hslice, rfl⟩ := Option.map_eq_some_iff.1 hx
  obtain ⟨hbegins, hpiece⟩ := sound_of_mem hf s slice hslice
  refine ⟨hbegins, ofPiece?_eq_some_iff.1 ?_⟩
  rw [String.toList_ofList, hpiece]

/-! ## No spelling is longer -/

theorem targetName?_append {target : List Char} (hne : target ≠ []) (hname : ∀ c ∈ target, isNameChar c = true)
    (after : List Char) : targetName? ('#' :: (target ++ after)) = some (target ++ after.takeWhile isNameChar) := by
  rw [targetName?, List.takeWhile_append_of_pos hname, nonEmpty?_of_ne_nil (by simp [hne])]

theorem length_le_paragraphAt {name gap : List Char} (hname : ∀ c ∈ name, isNameChar c = true)
    (hgap : gap = [] ∨ ∃ c, Text.isBlank c = true ∧ gap = [c]) (after : List Char) :
    name.length + gap.length + 1 ≤ (paragraphAt (name ++ (gap ++ after))).text.length := by
  rcases hgap with rfl | ⟨c, hc, rfl⟩
  · simp [paragraphAt, List.takeWhile_append_of_pos hname]
  · simp [paragraphAt, List.takeWhile_append_of_pos hname, List.dropWhile_append_of_pos hname,
      isNameChar_of_isBlank hc, hc]

/-- Whatever stands behind a spelling, some form takes no less than it. -/
theorem exists_slice_of_spells (h : Spells piece kind) (after : List Char) :
    ∃ f ∈ forms, ∃ slice, f.slice? (piece.toList ++ after) = some slice ∧ piece.toList.length ≤ slice.length := by
  cases h with
  | fragmentOpen => exact ⟨.fragmentOpen, by simp [forms], ['\x7b'], rfl, Nat.le_refl 1⟩
  | fragmentClose => exact ⟨.fragmentClose, by simp [forms], ['\x7d'], rfl, Nat.le_refl 1⟩
  | namedFragment name nonempty isName =>
    have hne : name.toList ≠ [] := fun h => nonempty (String.toList_eq_nil_iff.1 h)
    refine ⟨.namedFragment, by simp [forms], '\x7b' :: (name.toList ++ [':']), ?_, by simp⟩
    simp [Form.namedFragment, fragmentName?_append hne isName]
  | paragraph name gap isName isGap =>
    refine ⟨.paragraph, by simp [forms], (paragraphAt (name.toList ++ (gap.toList ++ after))).text, ?_, ?_⟩
    · simp [Form.paragraph]
    · simpa using length_le_paragraphAt isName isGap.toList after
  | link caption isOpen =>
    refine ⟨.link, by simp [forms], '[' :: (caption.toList ++ [']']), ?_, by simp⟩
    simp [Form.link, bracketed?_append (ne_close_of_notMem isOpen)]
  | targetedLink caption target isOpen nonempty isName =>
    have hne : target.toList ≠ [] := fun h => nonempty (String.toList_eq_nil_iff.1 h)
    refine ⟨.targetedLink, by simp [forms],
      '[' :: (caption.toList ++ ']' :: '#' :: (target.toList ++ after.takeWhile isNameChar)), ?_, by simp⟩
    simp [Form.targetedLink, bracketed?_append (ne_close_of_notMem isOpen), targetName?_append hne isName]

theorem exists_lexeme_of_spells (h : Spells piece kind) (hbegins : piece.toList <+: s) :
    ∃ x ∈ lexemesAt s, piece.toList.length ≤ x.text.length := by
  obtain ⟨after, rfl⟩ := hbegins
  obtain ⟨f, hf, slice, hslice, hle⟩ := exists_slice_of_spells h after
  exact ⟨⟨f.kind slice, slice⟩, mem_lexemesAt hf hslice, hle⟩

/-! ## The longest spelling -/

/-- `LongestSpelling text slice kind`: of all spellings at the head of the text, `slice` is the longest. -/
structure LongestSpelling (text slice : String) (kind : Kind) : Prop where
  begins : slice.toList <+: text.toList
  spells : Spells slice kind
  longest : ∀ other kind, other.toList <+: text.toList → Spells other kind → other.length ≤ slice.length

theorem LongestSpelling.unique {slice slice' : String} {kind' : Kind} (h : LongestSpelling text slice kind)
    (h' : LongestSpelling text slice' kind') : slice = slice' ∧ kind = kind' := by
  have hle := h'.longest slice kind h.begins h.spells
  have hge := h.longest slice' kind' h'.begins h'.spells
  simp only [← String.length_toList] at hle hge
  have hslice : slice.toList = slice'.toList :=
    (List.prefix_of_prefix_length_le h.begins h'.begins hle).eq_of_length (Nat.le_antisymm hle hge)
  obtain rfl := String.toList_inj.1 hslice
  exact ⟨rfl, Option.some.inj (h.spells.ofPiece?.symm.trans h'.spells.ofPiece?)⟩

theorem longestSpelling_of_longest? (h : longest? text.toList = some x) :
    LongestSpelling text (String.ofList x.text) x.kind := by
  obtain ⟨hbegins, hspells⟩ := of_mem_lexemesAt (List.argmax_mem h)
  refine ⟨by rwa [String.toList_ofList], hspells, fun other kind hother hkind => ?_⟩
  obtain ⟨y, hy, hle⟩ := exists_lexeme_of_spells hkind hother
  have hlongest := List.le_of_mem_argmax hy h
  rw [← String.length_toList, ← String.length_toList, String.toList_ofList]
  exact Nat.le_trans hle hlongest

theorem longest?_eq_some_iff {slice : String} :
    longest? text.toList = some ⟨kind, slice.toList⟩ ↔ LongestSpelling text slice kind := by
  constructor
  · intro h
    simpa using longestSpelling_of_longest? h
  · intro h
    obtain ⟨y, hy, -⟩ := exists_lexeme_of_spells h.spells h.begins
    cases hx : longest? text.toList with
    | none =>
      rw [longest?, List.argmax_eq_none] at hx
      rw [hx] at hy
      cases hy
    | some x =>
      obtain ⟨hslice, hkind⟩ := (longestSpelling_of_longest? hx).unique h
      rw [← hslice, ← hkind, String.toList_ofList]

theorem longestSpelling_self_iff : LongestSpelling piece piece kind ↔ Spells piece kind := by
  refine ⟨LongestSpelling.spells, fun h => ⟨List.prefix_rfl, h, fun other _ hother _ => ?_⟩⟩
  rw [← String.length_toList, ← String.length_toList]
  exact hother.length_le

theorem classify?_eq_ofPiece? (piece : String) : classify? piece.toList = Kind.ofPiece? piece.toList := by
  refine Option.ext fun kind => ?_
  rw [ofPiece?_eq_some_iff, ← longestSpelling_self_iff, ← longest?_eq_some_iff, classify?, Option.bind_eq_some_iff]
  constructor
  · rintro ⟨x, hx, hkind⟩
    split at hkind
    · rename_i hlength
      have hwhole := (longestSpelling_of_longest? hx).begins.eq_of_length (by simpa using hlength)
      rw [String.toList_ofList] at hwhole
      cases hkind
      rw [hx, ← hwhole]
    · cases hkind
  · intro h
    exact ⟨_, h, by simp⟩

/-- A piece is read as a token exactly if it has that token's form, with the name, the caption and the
target that it spells. This comes to reading the longest lexeme at its head and asking whether it is all of
the piece: the longest lexeme at the head of a text is the longest spelling that stands there. -/
theorem classification_exact (piece : String) :
    (Kind.ofPiece? piece.toList = some (.fragmentOpen none) ↔ piece = "\x7b") ∧
    (Kind.ofPiece? piece.toList = some .fragmentClose ↔ piece = "\x7d") ∧
    (∀ name, Kind.ofPiece? piece.toList = some (.fragmentOpen (some name)) ↔
      piece = "\x7b" ++ name ++ ":" ∧ name ≠ "" ∧ IsName name) ∧
    (∀ name, Kind.ofPiece? piece.toList = some (paragraphNamed name) ↔
      ∃ gap, piece = ">" ++ name ++ gap ∧ IsName name ∧ IsGap gap) ∧
    (∀ caption, Kind.ofPiece? piece.toList = some (.revealLink caption none) ↔
      piece = "[" ++ caption ++ "]" ∧ ']' ∉ caption.toList) ∧
    (∀ caption target, Kind.ofPiece? piece.toList = some (.revealLink caption (some target)) ↔
      piece = "[" ++ caption ++ "]#" ++ target ∧ ']' ∉ caption.toList ∧ target ≠ "" ∧ IsName target) ∧
    (Kind.ofPiece? piece.toList = none ↔ ∀ kind, ¬ Spells piece kind) ∧
    Kind.ofPiece? piece.toList = classify? piece.toList ∧
    ∀ slice kind, longest? piece.toList = some ⟨kind, slice.toList⟩ ↔ LongestSpelling piece slice kind := by
  have hnone : Kind.ofPiece? piece.toList = none ↔ ∀ kind, ¬ Spells piece kind := by
    simp only [Option.eq_none_iff_forall_ne_some, ne_eq, ofPiece?_eq_some_iff]
  simp only [ofPiece?_eq_some_iff]
  exact ⟨spells_fragmentOpen_iff, spells_fragmentClose_iff, fun _ => spells_namedFragment_iff,
    fun _ => spells_paragraph_iff, fun _ => spells_link_iff, fun _ _ => spells_targetedLink_iff, hnone,
    (classify?_eq_ofPiece? piece).symm, fun _ _ => longest?_eq_some_iff⟩

example : Kind.ofPiece? "[a[\n#]#é'".toList = some (.revealLink "a[\n#" (some "é'")) := by decide +kernel

end Reveal.Token
