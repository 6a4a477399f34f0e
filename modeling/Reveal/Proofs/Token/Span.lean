import Reveal.Proofs.Token.Source
import Reveal.Text.Bytes
/-!
# Spans

Cutting drops nothing but empty pieces, and the spans are counted up piece by piece. So the tokens of
a source lie side by side from its first byte to its last (`contiguous_tokenize`), and what a source
holds in the span of a token is the token's text (`extract_span`).
-/
namespace Reveal

theorem byteLength_eq_utf8ByteSize (s : List Char) : byteLength s = (String.ofList s).utf8ByteSize := by
  induction s with
  | nil => rfl
  | cons c s ih => simp [ih]

theorem byteLength_toList (s : String) : byteLength s.toList = s.utf8ByteSize := by
  rw [byteLength_eq_utf8ByteSize, String.ofList_toList]

namespace Text

theorem bytes_append (s t : String) : bytes (s ++ t) = bytes s ++ bytes t := by
  simp [bytes]

theorem length_bytes (s : String) : (bytes s).length = s.utf8ByteSize := by
  rw [bytes, Array.length_toList]
  exact String.size_toByteArray

/-- A text in the midst of others is found by the bytes in front of it and its own. -/
theorem extract_bytes (s t u : String) :
    (bytes (s ++ t ++ u)).extract s.utf8ByteSize (s.utf8ByteSize + t.utf8ByteSize) = bytes t := by
  rw [bytes_append, bytes_append, List.append_assoc, List.extract_eq_take_drop,
    List.drop_left' (length_bytes s), Nat.add_sub_cancel_left, List.take_left' (length_bytes t)]

end Text

namespace Token

/-- `Contiguous start tokens stop`: the first token starts at byte `start`, each one stops where the
next one starts, and the last one stops at byte `stop`. -/
inductive Contiguous : Nat → List Token → Nat → Prop
  | nil (offset : Nat) : Contiguous offset [] offset
  | cons (t : Token) {tokens : List Token} {stop : Nat} (rest : Contiguous t.stop tokens stop) :
    Contiguous t.start (t :: tokens) stop

variable {start : Nat} {ps : List (List Char)} {s piece : List Char} {t : Token}

theorem toList_join (tokens : List Token) : (join tokens).toList = chars tokens := by
  simp [join, chars, List.flatMap_map]

theorem join_append (tokens more : List Token) : join (tokens ++ more) = join tokens ++ join more := by
  apply String.toList_inj.1
  rw [String.toList_append, toList_join, toList_join, toList_join, chars_append]

theorem join_cons (t : Token) (tokens : List Token) : join (t :: tokens) = t.text ++ join tokens := by
  apply String.toList_inj.1
  rw [String.toList_append, toList_join, toList_join, chars_cons]

theorem ne_nil_of_mem_pieces (h : piece ∈ pieces s) : piece ≠ [] := by
  obtain ⟨whole, -, hpiece⟩ := List.mem_flatMap.1 h
  exact ne_nil_of_mem_cut hpiece

theorem contiguous_ofPieces (start : Nat) (ps : List (List Char)) :
    Contiguous start (ofPieces start ps) (start + byteLength ps.flatten) := by
  induction ps generalizing start with
  | nil => exact .nil start
  | cons piece ps ih =>
    rw [List.flatten_cons, byteLength_append, ← Nat.add_assoc]
    exact .cons ⟨Kind.ofPiece piece, String.ofList piece, start, start + byteLength piece⟩
      (ih (start + byteLength piece))

theorem stop_of_mem_ofPieces (h : t ∈ ofPieces start ps) : t.stop = t.start + byteLength t.text.toList := by
  induction ps generalizing start with
  | nil => cases h
  | cons piece ps ih =>
    rcases List.mem_cons.1 h with rfl | h
    · simp
    · exact ih h

end Token

variable {source : String} {before after : List Token} {t : Token}

theorem join_tokenize (source : String) : Token.join (tokenize source) = source := by
  apply String.toList_inj.1
  rw [Token.toList_join, chars_tokenize]

theorem text_ne_empty_of_mem_tokenize (h : t ∈ tokenize source) : t.text ≠ "" := by
  obtain ⟨before, after, hsplit⟩ := List.append_of_mem h
  have hmem := (Token.of_ofPieces_eq hsplit).1
  intro hempty
  rw [hempty] at hmem
  exact Token.ne_nil_of_mem_pieces hmem rfl

theorem contiguous_tokenize (source : String) : Token.Contiguous 0 (tokenize source) source.utf8ByteSize := by
  have h := Token.contiguous_ofPieces 0 (Token.pieces source.toList)
  rwa [Token.flatten_pieces, byteLength_toList, Nat.zero_add] at h

/-- A token starts behind the texts of the tokens before it. -/
theorem start_eq (h : tokenize source = before ++ t :: after) : t.start = (Token.join before).utf8ByteSize := by
  rw [(Token.of_ofPieces_eq h).2.2, Nat.zero_add, ← Token.toList_join, byteLength_toList]

theorem stop_eq (h : t ∈ tokenize source) : t.stop = t.start + t.text.utf8ByteSize := by
  rw [Token.stop_of_mem_ofPieces h, byteLength_toList]

theorem extract_span (h : tokenize source = before ++ t :: after) :
    (Text.bytes source).extract t.start t.stop = Text.bytes t.text := by
  have hsource : source = Token.join before ++ t.text ++ Token.join after := by
    rw [String.append_assoc, ← Token.join_cons, ← Token.join_append, ← h, join_tokenize]
  have hmem : t ∈ tokenize source := h ▸ List.mem_append_right before List.mem_cons_self
  rw [stop_eq hmem, start_eq h]
  conv => lhs; rw [hsource]
  exact Text.extract_bytes _ _ _

/-- Tokens in a row are the source, and none of them is empty. Their spans follow each other from the
first byte of the source to the last. Each span lies behind the texts before it, and holds the bytes
of the token's own text. -/
theorem tokenize_spans (source : String) :
    Token.join (tokenize source) = source ∧
    (∀ t ∈ tokenize source, t.text ≠ "") ∧
    Token.Contiguous 0 (tokenize source) source.utf8ByteSize ∧
    ∀ before t after, tokenize source = before ++ t :: after →
      t.start = (Token.join before).utf8ByteSize ∧
      t.stop = t.start + t.text.utf8ByteSize ∧
      (Text.bytes source).extract t.start t.stop = Text.bytes t.text := by
  refine ⟨join_tokenize source, fun t => text_ne_empty_of_mem_tokenize, contiguous_tokenize source, ?_⟩
  intro before t after hsplit
  have hmem : t ∈ tokenize source := hsplit ▸ List.mem_append_right before List.mem_cons_self
  exact ⟨start_eq hsplit, stop_eq hmem, extract_span hsplit⟩

example : (tokenize "é[ü]#x\n>y \x7b\x7d").map (fun t => (t.text, t.start, t.stop)) =
    [("é", 0, 2), ("[ü]#x", 2, 8), ("\n", 8, 9), (">y ", 9, 12), ("\x7b", 12, 13), ("\x7d", 13, 14)] := by
  decide +kernel

end Reveal
