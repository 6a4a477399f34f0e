import Reveal.Proofs.Token.Piece
/-!
# How structural tokens are spelled

`Spells` is the grammar of the structural tokens, with one form for each of them. A piece stands for a
token exactly if it spells it (`ofPiece?_eq_some_iff`): whatever a form leaves open, a name, a caption
or a blank, is found again in the piece and nowhere else.
-/
namespace Reveal.Token

/-- A text that can be spelled as a name: all of it is name characters. -/
def IsName (name : String) : Prop :=
  ∀ c ∈ name.toList, isNameChar c = true

/-- Nothing, or one blank. -/
def IsGap (s : String) : Prop :=
  s = "" ∨ ∃ c, Text.isBlank c = true ∧ s = String.singleton c

/-- The paragraph of a name as it is spelled. An empty name is none. -/
def paragraphNamed (name : String) : Kind :=
  .paragraph (if name = "" then none else some name)

/-- `Spells piece kind`: the text `piece` is a spelling of the token. -/
inductive Spells : String → Kind → Prop
  | fragmentOpen : Spells "\x7b" (.fragmentOpen none)
  | fragmentClose : Spells "\x7d" .fragmentClose
  | namedFragment (name : String) (nonempty : name ≠ "") (isName : IsName name) :
    Spells ("\x7b" ++ name ++ ":") (.fragmentOpen (some name))
  | paragraph (name gap : String) (isName : IsName name) (isGap : IsGap gap) :
    Spells (">" ++ name ++ gap) (paragraphNamed name)
  | link (caption : String) (isOpen : ']' ∉ caption.toList) :
    Spells ("[" ++ caption ++ "]") (.revealLink caption none)
  | targetedLink (caption target : String) (isOpen : ']' ∉ caption.toList) (nonempty : target ≠ "")
      (isName : IsName target) :
    Spells ("[" ++ caption ++ "]#" ++ target) (.revealLink caption (some target))

variable {piece name caption target : String} {kind : Kind} {s : List Char}

/-! ## What is spelled is read -/

theorem IsGap.toList (h : IsGap piece) :
    piece.toList = [] ∨ ∃ c, Text.isBlank c = true ∧ piece.toList = [c] := by
  rcases h with rfl | ⟨c, hc, rfl⟩
  · exact .inl rfl
  · exact .inr ⟨c, hc, String.toList_singleton c⟩

theorem ne_close_of_notMem (h : ']' ∉ caption.toList) : ∀ c ∈ caption.toList, (c != ']') = true := by
  intro c hc
  rw [bne_iff_ne]
  rintro rfl
  exact h hc

theorem Spells.ofPiece? (h : Spells piece kind) : Kind.ofPiece? piece.toList = some kind := by
  cases h with
  | fragmentOpen => rfl
  | fragmentClose => rfl
  | namedFragment name nonempty isName =>
    have hne : name.toList ≠ [] := fun h => nonempty (String.toList_eq_nil_iff.1 h)
    simpa using ofPiece?_named hne isName
  | paragraph name gap isName isGap =>
    simpa [paragraphNamed] using ofPiece?_mark isName isGap.toList
  | link caption isOpen =>
    simpa using ofPiece?_link (ne_close_of_notMem isOpen)
  | targetedLink caption target isOpen nonempty isName =>
    have hne : target.toList ≠ [] := fun h => nonempty (String.toList_eq_nil_iff.1 h)
    simpa using ofPiece?_target (ne_close_of_notMem isOpen) hne isName

/-! ## What is read is spelled -/

theorem isName_takeWhile (s : List Char) : IsName (String.ofList (s.takeWhile isNameChar)) := by
  intro c hc
  rw [String.toList_ofList] at hc
  exact isNameChar_of_mem_takeWhile hc

theorem spells_of_namedFragmentPiece? (h : namedFragmentPiece? s = some kind) :
    Spells (String.ofList ('\x7b' :: s)) kind := by
  have hs := (List.takeWhile_append_dropWhile (p := isNameChar) (l := s)).symm
  unfold namedFragmentPiece? at h
  dsimp only at h
  split at h
  · rename_i hrest
    split at h
    · cases h
    · rename_i hne
      cases h
      rw [hrest] at hs
      have hpiece : String.ofList ('\x7b' :: s) = "\x7b" ++ String.ofList (s.takeWhile isNameChar) ++ ":" := by
        rw [← String.toList_inj]
        simpa using hs
      rw [hpiece]
      exact .namedFragment _ (by simpa using hne) (isName_takeWhile s)
  · cases h

theorem spells_of_paragraphPiece? (h : paragraphPiece? s = some kind) : Spells (String.ofList ('>' :: s)) kind := by
  have hs := (List.takeWhile_append_dropWhile (p := isNameChar) (l := s)).symm
  have hspells : ∀ gap, IsGap gap → s.dropWhile isNameChar = gap.toList →
      Spells (String.ofList ('>' :: s)) (paragraphNamed (String.ofList (s.takeWhile isNameChar))) := by
    intro gap hgap hrest
    rw [hrest] at hs
    have hpiece : String.ofList ('>' :: s) = ">" ++ String.ofList (s.takeWhile isNameChar) ++ gap := by
      rw [← String.toList_inj]
      simpa using hs
    rw [hpiece]
    exact .paragraph _ gap (isName_takeWhile s) hgap
  have hkind : Kind.paragraph (if (s.takeWhile isNameChar).isEmpty then none
      else some (String.ofList (s.takeWhile isNameChar))) =
        paragraphNamed (String.ofList (s.takeWhile isNameChar)) := by
    simp [paragraphNamed]
  unfold paragraphPiece? at h
  dsimp only at h
  rw [hkind] at h
  split at h
  · rename_i hrest
    cases h
    exact hspells "" (.inl rfl) hrest
  · rename_i c hrest
    split at h
    · rename_i hc
      cases h
      exact hspells _ (.inr ⟨c, hc, rfl⟩) (by rw [hrest, String.toList_singleton])
    · cases h
  · cases h

theorem eq_close_of_dropWhile {c : Char} {rest : List Char} (h : s.dropWhile (· != ']') = c :: rest) : c = ']' := by
  have hhead := List.head_dropWhile_not (· != ']') (l := s) (by simp [h])
  simpa [h] using hhead

theorem spells_of_linkPiece? (h : linkPiece? s = some kind) : Spells (String.ofList ('[' :: s)) kind := by
  have hs := (List.takeWhile_append_dropWhile (p := (· != ']')) (l := s)).symm
  have hopen : ']' ∉ (String.ofList (s.takeWhile (· != ']'))).toList := by
    rw [String.toList_ofList]
    intro hmem
    simpa using List.all_eq_true.1 (List.all_takeWhile (p := (· != ']')) (l := s)) ']' hmem
  unfold linkPiece? at h
  dsimp only at h
  split at h
  · rename_i c hrest
    cases h
    rw [hrest, eq_close_of_dropWhile hrest] at hs
    have hpiece : String.ofList ('[' :: s) = "[" ++ String.ofList (s.takeWhile (· != ']')) ++ "]" := by
      rw [← String.toList_inj]
      simpa using hs
    rw [hpiece]
    exact .link _ hopen
  · rename_i c first more hrest
    split at h
    · rename_i hname
      cases h
      rw [hrest, eq_close_of_dropWhile hrest] at hs
      have hpiece : String.ofList ('[' :: s) =
          "[" ++ String.ofList (s.takeWhile (· != ']')) ++ "]#" ++ String.ofList (first :: more) := by
        rw [← String.toList_inj]
        simpa using hs
      rw [hpiece]
      refine .targetedLink _ _ hopen (by simp) fun c hc => ?_
      rw [String.toList_ofList] at hc
      exact List.all_eq_true.1 hname c hc
    · cases h
  · cases h

theorem spells_of_ofPiece? (h : Kind.ofPiece? piece.toList = some kind) : Spells piece kind := by
  rw [← String.ofList_toList (s := piece)]
  generalize piece.toList = s at h
  unfold Kind.ofPiece? at h
  split at h
  · cases h
    exact .fragmentOpen
  · cases h
    exact .fragmentClose
  · exact spells_of_namedFragmentPiece? h
  · exact spells_of_paragraphPiece? h
  · exact spells_of_linkPiece? h
  · cases h

theorem ofPiece?_eq_some_iff : Kind.ofPiece? piece.toList = some kind ↔ Spells piece kind :=
  ⟨spells_of_ofPiece?, Spells.ofPiece?⟩

/-! ## The forms, one by one -/

theorem paragraphNamed_injective (h : paragraphNamed name = paragraphNamed target) : name = target := by
  unfold paragraphNamed at h
  grind

theorem spells_fragmentOpen_iff : Spells piece (.fragmentOpen none) ↔ piece = "\x7b" := by
  constructor
  · intro h
    cases h
    rfl
  · rintro rfl
    exact .fragmentOpen

theorem spells_fragmentClose_iff : Spells piece .fragmentClose ↔ piece = "\x7d" := by
  constructor
  · intro h
    cases h
    rfl
  · rintro rfl
    exact .fragmentClose

theorem spells_namedFragment_iff : Spells piece (.fragmentOpen (some name)) ↔
    piece = "\x7b" ++ name ++ ":" ∧ name ≠ "" ∧ IsName name := by
  constructor
  · intro h
    cases h with
    | namedFragment _ nonempty isName => exact ⟨rfl, nonempty, isName⟩
  · rintro ⟨rfl, nonempty, isName⟩
    exact .namedFragment name nonempty isName

theorem spells_paragraph_iff : Spells piece (paragraphNamed name) ↔
    ∃ gap, piece = ">" ++ name ++ gap ∧ IsName name ∧ IsGap gap := by
  constructor
  · intro h
    generalize hkind : paragraphNamed name = kind at h
    cases h with
    | paragraph name' gap isName isGap =>
      obtain rfl := paragraphNamed_injective hkind
      exact ⟨gap, rfl, isName, isGap⟩
    | _ => cases hkind
  · rintro ⟨gap, rfl, isName, isGap⟩
    exact .paragraph name gap isName isGap

theorem spells_link_iff : Spells piece (.revealLink caption none) ↔
    piece = "[" ++ caption ++ "]" ∧ ']' ∉ caption.toList := by
  constructor
  · intro h
    cases h with
    | link _ isOpen => exact ⟨rfl, isOpen⟩
  · rintro ⟨rfl, isOpen⟩
    exact .link caption isOpen

theorem spells_targetedLink_iff : Spells piece (.revealLink caption (some target)) ↔
    piece = "[" ++ caption ++ "]#" ++ target ∧ ']' ∉ caption.toList ∧ target ≠ "" ∧ IsName target := by
  constructor
  · intro h
    cases h with
    | targetedLink _ _ isOpen nonempty isName => exact ⟨rfl, isOpen, nonempty, isName⟩
  · rintro ⟨rfl, isOpen, nonempty, isName⟩
    exact .targetedLink caption target isOpen nonempty isName

end Reveal.Token
