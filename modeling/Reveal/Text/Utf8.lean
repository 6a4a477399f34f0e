/-!
# Decoding UTF-8

Bytes are decoded one character at a time. Where no character can be decoded the fault tells at
which byte, and how many bytes there could still have begun a character.
-/
namespace Reveal.Text.Utf8

/-- Why decoding stops. -/
inductive Fault where
  /-- The bytes from `index` on begin no character; the first `length` of them could have. -/
  | invalid (index length : Nat)
  /-- The input ends inside a character that starts at `index`. -/
  | incomplete (index : Nat)
  deriving DecidableEq, Repr

namespace Fault

def index : Fault → Nat
  | invalid index _ | incomplete index => index

def message : Fault → String
  | invalid index length =>
    "invalid utf-8 sequence of " ++ toString length ++ " bytes from index " ++ toString index
  | incomplete index => "incomplete utf-8 byte sequence from index " ++ toString index

end Fault

/-- What a character's first byte tells: how many bytes follow, the bits it carries itself, and the
range of the second byte. -/
structure Lead where
  count : Nat
  bits : Nat
  low : Nat := 0x80
  high : Nat := 0xBF
  deriving DecidableEq, Repr

/-- The range of the second byte leaves out what has a shorter form, the surrogates, and values
above U+10FFFF. -/
def lead? (b : UInt8) : Option Lead :=
  let n := b.toNat
  if n < 0x80 then some { count := 0, bits := n }
  else if n < 0xC2 then none
  else if n < 0xE0 then some { count := 1, bits := n - 0xC0 }
  else if n = 0xE0 then some { count := 2, bits := 0, low := 0xA0 }
  else if n = 0xED then some { count := 2, bits := 0xD, high := 0x9F }
  else if n < 0xF0 then some { count := 2, bits := n - 0xE0 }
  else if n = 0xF0 then some { count := 3, bits := 0, low := 0x90 }
  else if n < 0xF4 then some { count := 3, bits := n - 0xF0 }
  else if n = 0xF4 then some { count := 3, bits := 4, high := 0x8F }
  else none

/-- Reads `count` more bytes of the character at `index` into its value, the next of them between
`low` and `high`. `taken` bytes were read before. -/
def tails (index : Nat) (low high : Nat) :
    (count taken value : Nat) → List UInt8 → Except Fault (Nat × List UInt8)
  | 0, _, value, rest => .ok (value, rest)
  | _ + 1, _, _, [] => .error (.incomplete index)
  | count + 1, taken, value, b :: rest =>
    if low ≤ b.toNat ∧ b.toNat ≤ high then
      tails index 0x80 0xBF count (taken + 1) (64 * value + (b.toNat - 0x80)) rest
    else .error (.invalid index taken)

/-- Reads one character from its first byte and what follows. -/
def char (index : Nat) (first : UInt8) (rest : List UInt8) : Except Fault (Char × List UInt8) :=
  match lead? first with
  | none => .error (.invalid index 1)
  | some lead =>
    match tails index lead.low lead.high lead.count 1 lead.bits rest with
    | .ok (value, rest) => .ok (Char.ofNat value, rest)
    | .error fault => .error fault

theorem tails_length {index low high count taken value n : Nat} {bytes rest : List UInt8}
    (h : tails index low high count taken value bytes = .ok (n, rest)) :
    rest.length ≤ bytes.length := by
  induction bytes generalizing low high count taken value with
  | nil => cases count <;> simp_all [tails]
  | cons b bytes ih =>
    cases count with
    | zero => simp_all [tails]
    | succ count =>
      rw [tails] at h
      split at h
      · have := ih h
        simp only [List.length_cons]
        omega
      · cases h

theorem char_length {index : Nat} {first : UInt8} {bytes rest : List UInt8} {c : Char}
    (h : char index first bytes = .ok (c, rest)) : rest.length ≤ bytes.length := by
  unfold char at h
  split at h
  · cases h
  · split at h
    · rename_i ht
      simp only [Except.ok.injEq, Prod.mk.injEq] at h
      exact h.2 ▸ tails_length ht
    · cases h

/-- The characters of bytes whose first has the given index, up to the first fault. -/
def decodeFrom (index : Nat) : List UInt8 → List Char × Option Fault
  | [] => ([], none)
  | first :: bytes =>
    match h : char index first bytes with
    | .error fault => ([], some fault)
    | .ok (c, rest) =>
      have := char_length h
      let (cs, fault) := decodeFrom (index + c.utf8Size) rest
      (c :: cs, fault)
termination_by bytes => bytes.length
decreasing_by simp only [List.length_cons]; omega

/-- The characters that can be decoded, and the fault that stops the decoding, if there is one. -/
def decode (bytes : List UInt8) : List Char × Option Fault :=
  decodeFrom 0 bytes

end Reveal.Text.Utf8
