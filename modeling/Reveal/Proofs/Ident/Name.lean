import Std.Data.String.ToNat
import Reveal.Ident.Basic
/-!
# Names made of digits

A name stands for a number if it writes one below 2^64 in decimal, with any number of zeros in front
(`numberOf?_eq_some_iff`). Two such names are the same identifier if they write the same number at the
same depth. All other names are told apart by their text alone, wherever they are spelled.
-/
namespace Reveal.Ident

/-- Decimal digits, at least one. -/
def IsDigits (name : String) : Prop :=
  name ≠ "" ∧ ∀ c ∈ name.toList, c.isDigit = true

/-- The name is the number in decimal, behind any number of zeros. -/
def Writes (name : String) (number : Nat) : Prop :=
  ∃ zeros, name.toList = List.replicate zeros '0' ++ (toString number).toList

/-- The name writes a number that is small enough to count as one. -/
def IsNumeral (name : String) : Prop :=
  ∃ number < Nat.pow 2 64, Writes name number

variable {name other : String} {number depth : Nat} {digits : List Char} {c : Char}

/-! ## Digits and their value -/

theorem digitChar_sub (h : c.isDigit = true) :
    Nat.digitChar (c.toNat - '0'.toNat) = c ∧ c.toNat - '0'.toNat < 10 := by
  have hc : c.toNat = c.val.toNat := rfl
  delta Char.isDigit at h
  simp only [Bool.and_eq_true, decide_eq_true_eq, UInt32.le_iff_toNat_le, ge_iff_le, ← hc] at h
  have hlow : 48 ≤ c.toNat := h.1
  have hhigh : c.toNat ≤ 57 := h.2
  have hlt : c.toNat - '0'.toNat < 10 := by
    simp only [show '0'.toNat = 48 from rfl]
    omega
  refine ⟨?_, hlt⟩
  rw [← Char.toNat_inj, Nat.toNat_digitChar_of_lt_ten hlt]
  simp only [show '0'.toNat = 48 from rfl]
  omega

/-- Digits behind a number write the number that they make of it. -/
theorem toDigits_append (hnumber : 0 < number) (hdigits : ∀ c ∈ digits, c.isDigit = true) :
    Nat.toDigits 10 number ++ digits = Nat.toDigits 10 (Nat.ofDigitChars 10 digits number) := by
  induction digits generalizing number with
  | nil => simp
  | cons c digits ih =>
    rw [List.forall_mem_cons] at hdigits
    obtain ⟨hchar, hlt⟩ := digitChar_sub hdigits.1
    have hpush : Nat.toDigits 10 number ++ [c] = Nat.toDigits 10 (10 * number + (c.toNat - '0'.toNat)) := by
      rw [← Nat.toDigits_append_toDigits (by decide) hnumber hlt, Nat.toDigits_of_lt_base hlt, hchar]
    rw [List.append_cons, hpush, ih (by omega) hdigits.2, Nat.ofDigitChars_cons]

theorem eq_zeros_append (hne : digits ≠ []) (hdigits : ∀ c ∈ digits, c.isDigit = true) :
    ∃ zeros, digits = List.replicate zeros '0' ++ Nat.toDigits 10 (decimalValue digits) := by
  induction digits with
  | nil => exact absurd rfl hne
  | cons c digits ih =>
    rw [List.forall_mem_cons] at hdigits
    obtain ⟨hchar, hlt⟩ := digitChar_sub hdigits.1
    have hvalue : decimalValue (c :: digits) = Nat.ofDigitChars 10 digits (c.toNat - '0'.toNat) := by
      show Nat.ofDigitChars 10 (c :: digits) 0 = _
      rw [Nat.ofDigitChars_cons, Nat.mul_zero, Nat.zero_add]
    rcases Nat.eq_zero_or_pos (c.toNat - '0'.toNat) with hzero | hpos
    · rw [hzero] at hchar hvalue
      obtain rfl : '0' = c := hchar
      by_cases hnil : digits = []
      · exact ⟨0, by rw [hvalue, hnil]; rfl⟩
      · obtain ⟨zeros, hzeros⟩ := ih hnil hdigits.2
        refine ⟨zeros + 1, ?_⟩
        rw [hvalue, List.replicate_succ, List.cons_append]
        exact congrArg _ hzeros
    · refine ⟨0, ?_⟩
      rw [hvalue, ← toDigits_append hpos hdigits.2, Nat.toDigits_of_lt_base hlt, hchar]
      rfl

theorem decimalValue_zeros_append (zeros number : Nat) :
    decimalValue (List.replicate zeros '0' ++ Nat.toDigits 10 number) = number := by
  show Nat.ofDigitChars 10 _ 0 = number
  rw [Nat.ofDigitChars_append, Nat.ofDigitChars_replicate_zero, Nat.mul_zero, Nat.ofDigitChars_ten_toDigits]

theorem toList_toString (number : Nat) : (toString number).toList = Nat.toDigits 10 number := by
  rw [Nat.toString_eq_ofList_toDigits, String.toList_ofList]

/-- Whatever the zeros in front, digits write their value and nothing else. -/
theorem writes_iff : Writes name number ↔ IsDigits name ∧ decimalValue name.toList = number := by
  unfold Writes IsDigits
  rw [toList_toString]
  constructor
  · rintro ⟨zeros, hname⟩
    refine ⟨⟨?_, fun c hc => ?_⟩, by rw [hname, decimalValue_zeros_append]⟩
    · rintro rfl
      simp at hname
    · rw [hname] at hc
      rcases List.mem_append.1 hc with hc | hc
      · rw [List.eq_of_mem_replicate hc]
        rfl
      · exact Nat.isDigit_of_mem_toDigits (by decide) (by decide) hc
  · rintro ⟨⟨hne, hdigits⟩, rfl⟩
    exact eq_zeros_append (fun h => hne (String.toList_eq_nil_iff.1 h)) hdigits

/-! ## Names -/

theorem numberOf?_eq_some_iff : numberOf? name = some number ↔ Writes name number ∧ number < Nat.pow 2 64 := by
  rw [writes_iff]
  unfold numberOf? IsDigits
  simp only [Bool.and_eq_true, Bool.not_eq_true', decide_eq_true_eq, List.all_eq_true, List.isEmpty_eq_false_iff,
    ne_eq, String.toList_eq_nil_iff, Option.ite_none_right_eq_some, Option.some.injEq]
  constructor
  · rintro ⟨⟨hdigits, hlt⟩, rfl⟩
    exact ⟨⟨hdigits, rfl⟩, hlt⟩
  · rintro ⟨⟨hdigits, rfl⟩, hlt⟩
    exact ⟨⟨hdigits, hlt⟩, rfl⟩

theorem numberOf?_eq_none_iff : numberOf? name = none ↔ ¬ IsNumeral name := by
  rw [Option.eq_none_iff_forall_ne_some]
  simp [numberOf?_eq_some_iff, IsNumeral, and_comm]

theorem isNumeral_iff_not_forall :
    IsNumeral name ↔ ¬ ∀ number, Writes name number → Nat.pow 2 64 ≤ number := by
  simp [IsNumeral, and_comm]

theorem ofName_of_writes (hwrites : Writes name number) (hlt : number < Nat.pow 2 64) (depth : Nat) :
    ofName name depth = numbered depth number := by
  rw [ofName, numberOf?_eq_some_iff.2 ⟨hwrites, hlt⟩]

theorem ofName_of_not_isNumeral (h : ¬ IsNumeral name) (depth : Nat) : ofName name depth = named name := by
  rw [ofName, numberOf?_eq_none_iff.2 h]

theorem ofName_eq_named_iff : ofName name depth = named other ↔ name = other ∧ ¬ IsNumeral name := by
  by_cases h : IsNumeral name
  · obtain ⟨number, hlt, hwrites⟩ := h
    simp [ofName_of_writes hwrites hlt, show IsNumeral name from ⟨number, hlt, hwrites⟩]
  · simp [ofName_of_not_isNumeral h, h]

theorem ofName_eq_numbered_iff {level : Nat} :
    ofName name depth = numbered level number ↔ depth = level ∧ Writes name number ∧ number < Nat.pow 2 64 := by
  unfold ofName
  rw [← numberOf?_eq_some_iff]
  cases numberOf? name <;> simp

/-- Names that count as numbers are the same identifier if they write the same number and are spelled at the
same depth. All others, digits that write a number of 2^64 or more among them, stand for themselves at
every depth. -/
theorem names_resolve (name other : String) (depth otherDepth : Nat) :
    (ofName name depth = ofName other otherDepth ↔
      name = other ∧ ¬ IsNumeral name ∨
        depth = otherDepth ∧ ∃ number < Nat.pow 2 64, Writes name number ∧ Writes other number) ∧
    (ofName name depth = .named name ↔ ∀ number, Writes name number → Nat.pow 2 64 ≤ number) ∧
    ∀ number, Writes name number ↔ IsDigits name ∧ decimalValue name.toList = number := by
  refine ⟨?_, ?_, fun _ => writes_iff⟩
  · by_cases h : IsNumeral other
    · obtain ⟨number, hlt, hwrites⟩ := h
      rw [ofName_of_writes hwrites hlt, ofName_eq_numbered_iff]
      constructor
      · rintro ⟨hdepth, hname, -⟩
        exact .inr ⟨hdepth, number, hlt, hname, hwrites⟩
      · rintro (⟨rfl, hnot⟩ | ⟨hdepth, number', hlt', hname, hother⟩)
        · exact absurd ⟨number, hlt, hwrites⟩ hnot
        · obtain rfl : number' = number := (writes_iff.1 hother).2.symm.trans (writes_iff.1 hwrites).2
          exact ⟨hdepth, hname, hlt⟩
    · rw [ofName_of_not_isNumeral h, ofName_eq_named_iff]
      refine ⟨.inl, ?_⟩
      rintro (hsame | ⟨-, number, hlt, -, hother⟩)
      · exact hsame
      · exact absurd ⟨number, hlt, hother⟩ h
  · rw [ofName_eq_named_iff, isNumeral_iff_not_forall]
    simp

example : ofName "0018446744073709551615" 3 = .numbered 3 18446744073709551615 ∧
    ofName "18446744073709551616" 3 = .named "18446744073709551616" := by decide +kernel

end Reveal.Ident
