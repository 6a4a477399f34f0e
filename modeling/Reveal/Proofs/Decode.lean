import Reveal.Compiler
import Reveal.Proofs.LineMap
import Reveal.Proofs.Token.Span
/-!
# Bytes and the text they encode

The decoder knows characters by a table of first bytes and by ranges of the bytes behind them. An encoder
goes by the value of the character. `Scalar` stands between the two: a value, the bytes that it takes
and its first byte. `exists_lead` and `scalar_of_lead?` hold the table against it, `exists_scalar` the
encoder. So a character is read exactly off its encoding (`char_eq_ok_iff`), and what a run of the
decoder has read when it stops is the longest text at the start of its input.
-/
namespace Reveal

namespace Text

namespace Utf8

variable {index low high count count' taken value v q q' : Nat} {b first : UInt8} {bytes rest : List UInt8}
  {lead : Lead} {c : Char} {f : Fault}

/-! ## Values -/

/-- A value without the six bits of each of its last `count` bytes. -/
def shift : (count value : Nat) → Nat
  | 0, value => value
  | count + 1, value => shift count value / 64

/-- The last `count` bytes of a value. -/
def tailBytes : (count value : Nat) → List UInt8
  | 0, _ => []
  | count + 1, value => .ofNat (shift count value % 64 + 0x80) :: tailBytes count value

/-- `Begins lead value`: a first byte that tells `lead` can begin the value. -/
@[mk_iff]
structure Begins (lead : Lead) (value : Nat) : Prop where
  bits : shift lead.count value = lead.bits
  range : ∀ n, lead.count = n + 1 →
    lead.low ≤ shift n value % 64 + 0x80 ∧ shift n value % 64 + 0x80 ≤ lead.high

/-- `Scalar value count first`: a character has the value. It takes `count` bytes behind its first. -/
@[mk_iff]
inductive Scalar (value : Nat) : (count first : Nat) → Prop
  | one (hi : value < 0x80) : Scalar value 0 value
  | two (lo : 0x80 ≤ value) (hi : value < 0x800) : Scalar value 1 (shift 1 value + 0xC0)
  | three (lo : 0x800 ≤ value) (hi : value < 0x10000) (surrogate : value < 0xD800 ∨ 0xDFFF < value) :
    Scalar value 2 (shift 2 value + 0xE0)
  | four (lo : 0x10000 ≤ value) (hi : value < 0x110000) : Scalar value 3 (shift 3 value + 0xF0)

theorem Scalar.unique (h : Scalar v count q) (h' : Scalar v count' q') : count = count' ∧ q = q' := by
  cases h <;> cases h' <;> simp <;> omega

theorem Scalar.isValidChar (h : Scalar v count q) : v.isValidChar := by
  cases h <;> simp only [Nat.isValidChar] <;> omega

theorem lead?_bounds (h : lead? first = some lead) :
    lead.count ≤ 3 ∧ 0x80 ≤ lead.low ∧ lead.high ≤ 0xBF := by
  revert h
  fun_cases lead? first <;> rintro ⟨⟩ <;> simp

theorem scalar_of_lead? (h : lead? first = some lead) (hv : Begins lead v) :
    Scalar v lead.count first.toNat := by
  revert h
  fun_cases lead? first <;> rintro ⟨⟩
  all_goals
    simp only [begins_iff, shift, Nat.reduceEqDiff, forall_eq, false_implies, implies_true, and_true] at hv
    simp only [scalar_iff, shift, Nat.reduceEqDiff, true_and, false_and, and_false, false_or, or_false]
    omega

theorem exists_lead (h : Scalar v count first.toNat) :
    ∃ lead, lead? first = some lead ∧ lead.count = count ∧ Begins lead v := by
  simp only [scalar_iff, shift] at h
  fun_cases lead? first
  all_goals
    simp only [begins_iff, shift, Option.some.injEq, exists_eq_left', reduceCtorEq, false_and,
      exists_false, Nat.reduceEqDiff, forall_eq, false_implies, implies_true, and_true]
    omega

theorem exists_scalar (c : Char) : ∃ count first, Scalar c.toNat count first.toNat ∧
    String.utf8EncodeChar c = first :: tailBytes count c.toNat := by
  have hc : c.toNat < 0xD800 ∨ (0xDFFF < c.toNat ∧ c.toNat < 0x110000) := c.valid
  have hval : c.val.toNat = c.toNat := rfl
  rw [String.utf8EncodeChar, hval]
  generalize c.toNat = v at hc ⊢
  split_ifs
  · refine ⟨0, _, ?_, rfl⟩
    rw [UInt8.toNat_ofNat_of_lt' (by show _ < 256; omega)]
    exact .one (by omega)
  · refine ⟨1, .ofNat (shift 1 v + 0xC0), ?_, ?_⟩
    · rw [UInt8.toNat_ofNat_of_lt' (by show _ < 256; simp only [shift]; omega)]
      exact .two (by omega) (by omega)
    · rw [Nat.mod_eq_of_lt (by omega)]
      rfl
  · refine ⟨2, .ofNat (shift 2 v + 0xE0), ?_, ?_⟩
    · rw [UInt8.toNat_ofNat_of_lt' (by show _ < 256; simp only [shift]; omega)]
      exact .three (by omega) (by omega) (by omega)
    · rw [Nat.mod_eq_of_lt (a := v / 4096) (by omega), ← Nat.div_div_eq_div_mul v 64 64]
      rfl
  · refine ⟨3, .ofNat (shift 3 v + 0xF0), ?_, ?_⟩
    · rw [UInt8.toNat_ofNat_of_lt' (by show _ < 256; simp only [shift]; omega)]
      exact .four (by omega) (by omega)
    · rw [Nat.mod_eq_of_lt (a := v / 262144) (by omega), ← Nat.div_div_eq_div_mul v 4096 64,
        ← Nat.div_div_eq_div_mul v 64 64]
      rfl

-- The value alone decides how many bytes there are, so the encoder has no other choice.
theorem Scalar.encode (h : Scalar v count first.toNat) :
    String.utf8EncodeChar (Char.ofNat v) = first :: tailBytes count v := by
  have hv : (Char.ofNat v).toNat = v := by
    rw [Char.ofNat, dif_pos h.isValidChar]
    rfl
  obtain ⟨count', first', hscalar, hencode⟩ := exists_scalar (Char.ofNat v)
  rw [hv] at hscalar hencode
  obtain ⟨rfl, hfirst⟩ := h.unique hscalar
  rw [hencode, UInt8.toNat_inj.1 hfirst]

/-! ## One character -/

theorem eq_ofNat_iff (h : q < 256) : b = .ofNat q ↔ b.toNat = q := by
  rw [← UInt8.toNat_inj, UInt8.toNat_ofNat_of_lt' h]

/-- The bytes behind the first are read exactly if they are those of the value, the first of them within
its bounds. -/
theorem tails_eq_ok_iff (hlow : 0x80 ≤ low) (hhigh : high ≤ 0xBF) :
    tails index low high count taken value bytes = .ok (v, rest) ↔
      bytes = tailBytes count v ++ rest ∧ shift count v = value ∧
      ∀ n, count = n + 1 → low ≤ shift n v % 64 + 0x80 ∧ shift n v % 64 + 0x80 ≤ high := by
  induction count generalizing low high taken value bytes with
  | zero => simp [tails, tailBytes, shift, and_comm, eq_comm]
  | succ count ih =>
    cases bytes with
    | nil => simp [tails, tailBytes]
    | cons b bytes =>
      simp only [tails, tailBytes, shift, List.cons_append, List.cons.injEq, Nat.add_right_cancel_iff, forall_eq']
      rw [eq_ofNat_iff (by omega)]
      split_ifs with hb
      · rw [ih (Nat.le_refl _) (Nat.le_refl _)]
        constructor
        · rintro ⟨hbytes, hvalue, -⟩
          refine ⟨⟨?_, hbytes⟩, ?_⟩ <;> omega
        · rintro ⟨⟨hfirst, hbytes⟩, hvalue, hrange⟩
          refine ⟨hbytes, ?_, ?_⟩ <;> omega
      · rw [false_iff]
        rintro ⟨⟨hfirst, -⟩, -, hrange⟩
        omega

/-- A character is read exactly off its encoding, whatever stands behind it. -/
theorem char_eq_ok_iff : char index first bytes = .ok (c, rest) ↔
    first :: bytes = String.utf8EncodeChar c ++ rest := by
  constructor
  · intro h
    unfold char at h
    split at h
    · cases h
    · rename_i lead hlead
      obtain ⟨-, hlow, hhigh⟩ := lead?_bounds hlead
      split at h
      · rename_i value behind htails
        cases h
        obtain ⟨rfl, hbits, hrange⟩ := (tails_eq_ok_iff hlow hhigh).1 htails
        have hscalar := scalar_of_lead? hlead ⟨hbits, hrange⟩
        rw [hscalar.encode, List.cons_append]
      · cases h
  · intro h
    obtain ⟨count, first', hscalar, hencode⟩ := exists_scalar c
    rw [hencode, List.cons_append, List.cons_eq_cons] at h
    obtain ⟨rfl, hbytes⟩ := h
    obtain ⟨lead, hlead, rfl, hbits, hrange⟩ := exists_lead hscalar
    obtain ⟨-, hlow, hhigh⟩ := lead?_bounds hlead
    have htails : tails index lead.low lead.high lead.count 1 lead.bits bytes = .ok (c.toNat, rest) :=
      (tails_eq_ok_iff hlow hhigh).2 ⟨hbytes, hbits, hrange⟩
    simp only [char, hlead, htails, Char.ofNat_toNat]

/-- `f.At index`: the fault of what starts at `index`. -/
def Fault.At (f : Fault) (index : Nat) : Prop :=
  f = .incomplete index ∨ ∃ length, 1 ≤ length ∧ length ≤ 3 ∧ f = .invalid index length

theorem tails_error (h : tails index low high count taken value bytes = .error f) (htaken : 1 ≤ taken)
    (hcount : taken + count ≤ 4) : f.At index := by
  induction count generalizing low high taken value bytes with
  | zero => cases h
  | succ count ih =>
    cases bytes with
    | nil =>
      cases h
      exact .inl rfl
    | cons b bytes =>
      rw [tails] at h
      split at h
      · exact ih h (by omega) (by omega)
      · cases h
        exact .inr ⟨taken, htaken, by omega, rfl⟩

theorem char_error (h : char index first bytes = .error f) : f.At index := by
  unfold char at h
  split at h
  · cases h
    exact .inr ⟨1, by omega, by omega, rfl⟩
  · rename_i lead hlead
    split at h
    · cases h
    · rename_i htails
      cases h
      have hcount := (lead?_bounds hlead).1
      exact tails_error htails (by omega) (by omega)

/-! ## A run of characters -/

def encode (cs : List Char) : List UInt8 :=
  cs.flatMap String.utf8EncodeChar

theorem encode_cons (c : Char) (cs : List Char) : encode (c :: cs) = String.utf8EncodeChar c ++ encode cs := rfl

theorem encode_append (cs ds : List Char) : encode (cs ++ ds) = encode cs ++ encode ds :=
  List.flatMap_append

theorem bytes_eq_encode (s : String) : Text.bytes s = encode s.toList := by
  rw [Text.bytes, ← String.utf8Encode_toList, List.utf8Encode, List.data_toByteArray]
  rfl

theorem decodeFrom_ok (h : char index first bytes = .ok (c, rest)) : decodeFrom index (first :: bytes) =
    (c :: (decodeFrom (index + c.utf8Size) rest).1, (decodeFrom (index + c.utf8Size) rest).2) := by
  rw [decodeFrom]
  split
  · rename_i h'
    cases h.symm.trans h'
  · rename_i h'
    cases h.symm.trans h'
    rfl

/-- Encoded characters are read one by one. Then the run goes on. -/
theorem decodeFrom_encode (cs : List Char) : decodeFrom index (encode cs ++ rest) =
    (cs ++ (decodeFrom (index + byteLength cs) rest).1, (decodeFrom (index + byteLength cs) rest).2) := by
  induction cs generalizing index with
  | nil => rfl
  | cons c cs ih =>
    obtain ⟨count, first, -, hfirst⟩ := exists_scalar c
    have hread : char index first (tailBytes count c.toNat ++ (encode cs ++ rest)) =
        .ok (c, encode cs ++ rest) := by
      rw [char_eq_ok_iff, hfirst, List.cons_append]
    rw [encode_cons, List.append_assoc, hfirst, List.cons_append, decodeFrom_ok hread, ih, byteLength_cons,
      Nat.add_assoc]
    rfl

/-- A run has read the characters that it gives. It stops at the end, or with a fault of what comes next. -/
theorem decodeFrom_cases (index : Nat) (bytes : List UInt8) : ∃ cs,
    (bytes = encode cs ∧ decodeFrom index bytes = (cs, none)) ∨
    ∃ rest f, bytes = encode cs ++ rest ∧ decodeFrom index bytes = (cs, some f) ∧
      f.At (index + byteLength cs) := by
  fun_induction decodeFrom index bytes with
  | case1 => exact ⟨[], .inl ⟨rfl, rfl⟩⟩
  | case2 index first bytes fault h => exact ⟨[], .inr ⟨first :: bytes, fault, rfl, rfl, char_error h⟩⟩
  | case3 index first bytes c rest h hlength cs fault hdecode ih =>
    obtain ⟨cs', ⟨hrest, hcs⟩ | ⟨behind, f, hrest, hcs, hf⟩⟩ := ih <;> rw [hdecode] at hcs <;> cases hcs
    · refine ⟨c :: cs, .inl ⟨?_, rfl⟩⟩
      rw [char_eq_ok_iff.1 h, hrest, encode_cons]
    · refine ⟨c :: cs, .inr ⟨behind, f, ?_, rfl, ?_⟩⟩
      · rw [char_eq_ok_iff.1 h, hrest, encode_cons, List.append_assoc]
      · rwa [byteLength_cons, ← Nat.add_assoc]

end Utf8

/-- `LongestText v b`: no longer text than `v` has an encoding that `b` starts with. -/
structure LongestText (v : String) (b : List UInt8) : Prop where
  begins : bytes v <+: b
  longest : ∀ u, bytes u <+: b → (bytes u).length ≤ (bytes v).length

/-- Whatever text the bytes start with, the run reads it first. -/
theorem longestText_of_decode {b rest : List UInt8} {cs : List Char} (hb : b = Utf8.encode cs ++ rest)
    (hcs : (Utf8.decode b).1 = cs) : LongestText (String.ofList cs) b := by
  have hbytes : bytes (String.ofList cs) = Utf8.encode cs := by
    rw [Utf8.bytes_eq_encode, String.toList_ofList]
  refine ⟨⟨rest, by rw [hbytes, hb]⟩, ?_⟩
  rintro u ⟨behind, rfl⟩
  rw [Utf8.bytes_eq_encode, Utf8.decode, Utf8.decodeFrom_encode] at hcs
  rw [hbytes, ← hcs, Utf8.bytes_eq_encode, Utf8.encode_append, List.length_append]
  exact Nat.le_add_right ..

end Text

/-! ## Sources in bytes -/

/-- The reason tells a byte index. -/
def TellsIndex (reason : String) (index : Nat) : Prop :=
  reason = "incomplete utf-8 byte sequence from index " ++ toString index ∨
  ∃ length, 1 ≤ length ∧ length ≤ 3 ∧
    reason = "invalid utf-8 sequence of " ++ toString length ++ " bytes from index " ++ toString index

theorem Text.Utf8.Fault.At.tellsIndex {f : Fault} {index : Nat} (h : f.At index) :
    TellsIndex f.message index := by
  obtain rfl | ⟨length, hpos, hle, rfl⟩ := h
  · exact .inl rfl
  · exact .inr ⟨length, hpos, hle, rfl⟩

theorem decode_bytes (s : String) : decode (Text.bytes s) = .ok s := by
  have hrun : Text.Utf8.decode (Text.bytes s ++ []) = (s.toList ++ [], none) := by
    rw [Text.Utf8.bytes_eq_encode, Text.Utf8.decode, Text.Utf8.decodeFrom_encode, Text.Utf8.decodeFrom]
  rw [List.append_nil, List.append_nil] at hrun
  rw [decode, hrun]
  exact congrArg Except.ok String.ofList_toList

/-- Bytes that encode no text are refused where the longest text at their start ends. -/
theorem decode_refuses {b : List UInt8} (hb : ∀ s, b ≠ Text.bytes s) : ∃ v reason, Text.LongestText v b ∧
    TellsIndex reason (Text.bytes v).length ∧ decode b = .error (.invalidInput reason
      ⟨1 + v.toList.count '\n', 1 + (lastLine v.toList).length⟩) := by
  obtain ⟨cs, ⟨rfl, -⟩ | ⟨rest, f, hcs, hrun, hf⟩⟩ := Text.Utf8.decodeFrom_cases 0 b
  · refine absurd ?_ (hb (String.ofList cs))
    rw [Text.Utf8.bytes_eq_encode, String.toList_ofList]
  · refine ⟨String.ofList cs, f.message, Text.longestText_of_decode hcs (congrArg Prod.fst hrun), ?_, ?_⟩
    · rw [Text.length_bytes, ← byteLength_eq_utf8ByteSize, ← Nat.zero_add (byteLength cs)]
      exact hf.tellsIndex
    · rw [← Position.start_after, ← LineMap.stop_ofString, decode, Text.Utf8.decode, hrun]

/-- Bytes are read as the text that they encode. If they encode none, no format is looked for. The fault
lies behind the longest text at their start, and its reason tells the number of bytes up to there. -/
theorem bytes_read_as_text (b : List UInt8) :
    (∀ s, b = Text.bytes s → parseBytes b = parse s ∧
      ∀ (c : Compiler) (options : Options), c.compileBytes options b = c.compile options s) ∧
    ((∀ s, b ≠ Text.bytes s) → ∃ v reason position, Text.LongestText v b ∧
      TellsIndex reason (Text.bytes v).length ∧
      position = ⟨1 + v.toList.count '\n', 1 + (lastLine v.toList).length⟩ ∧
      parseBytes b = .error (.invalidInput reason position) ∧
      ∀ (c : Compiler) (options : Options),
        c.compileBytes options b = .error (.source (.invalidInput reason position))) := by
  constructor
  · rintro s rfl
    rw [parseBytes, decode_bytes]
    refine ⟨rfl, fun c options => ?_⟩
    rw [Compiler.compileBytes, decode_bytes]
  · intro hb
    obtain ⟨v, reason, hlongest, hreason, hdecode⟩ := decode_refuses hb
    refine ⟨v, reason, _, hlongest, hreason, rfl, ?_, fun c options => ?_⟩
    · rw [parseBytes, hdecode]
      rfl
    · rw [Compiler.compileBytes, hdecode]

end Reveal
