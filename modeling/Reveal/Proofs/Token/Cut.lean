import Reveal.Token.Cut
/-!
# Cutting a text

Whatever the delimiter is, a cut loses nothing (`flatten_cut`), and each of its pieces either has
the delimiter's form or has no place where one starts (`mem_cut`). A text without delimiters stays
in one piece (`cut_of_free`), and so does one without the sign at which they start (`cut_of_not_mem`).
-/
namespace Reveal.Token

variable {delimiter : List Char → Nat} {form : List Char → Prop} {taken s piece : List Char}

/-- What the delimiter takes at the head of a text has the given form. -/
def Recognises (delimiter : List Char → Nat) (form : List Char → Prop) : Prop :=
  ∀ s, delimiter s ≠ 0 → ∃ piece after, s = piece ++ after ∧ form piece ∧ delimiter s = piece.length

theorem flatten_flush (taken : List Char) : (flush taken).flatten = taken.reverse := by
  unfold flush
  split
  · simp_all
  · simp

theorem flatten_cutFrom (delimiter : List Char → Nat) (taken s : List Char) :
    (cutFrom delimiter taken s).flatten = taken.reverse ++ s := by
  fun_induction cutFrom delimiter taken s with
  | case1 taken => simp [flatten_flush]
  | case2 taken c rest h ih => simp [ih]
  | case3 taken c rest n h ih => simp [flatten_flush, ih]

theorem flatten_cut (delimiter : List Char → Nat) (s : List Char) : (cut delimiter s).flatten = s := by
  simp [cut, flatten_cutFrom]

theorem mem_of_mem_cut {c : Char} (hp : piece ∈ cut delimiter s) (hc : c ∈ piece) : c ∈ s := by
  rw [← flatten_cut delimiter s]
  exact List.mem_flatten.2 ⟨piece, hp, hc⟩

theorem eq_reverse_of_mem_flush (h : piece ∈ flush taken) : piece = taken.reverse ∧ piece ≠ [] := by
  unfold flush at h
  split at h
  · cases h
  · rw [List.mem_singleton.1 h]
    simp_all

theorem ne_nil_of_mem_cutFrom (h : piece ∈ cutFrom delimiter taken s) : piece ≠ [] := by
  fun_induction cutFrom delimiter taken s with
  | case1 taken => exact (eq_reverse_of_mem_flush h).2
  | case2 taken c rest hd ih => exact ih h
  | case3 taken c rest n hd ih =>
    rcases List.mem_append.1 h with h | h
    · exact (eq_reverse_of_mem_flush h).2
    · rcases List.mem_cons.1 h with rfl | h
      · simp
      · exact ih h

theorem ne_nil_of_mem_cut (h : piece ∈ cut delimiter s) : piece ≠ [] :=
  ne_nil_of_mem_cutFrom h

theorem mem_cutFrom (hd : Recognises delimiter form)
    (htaken : ∀ c ∈ taken, ∃ rest, delimiter (c :: rest) = 0) (h : piece ∈ cutFrom delimiter taken s) :
    form piece ∨ ∀ c ∈ piece, ∃ rest, delimiter (c :: rest) = 0 := by
  fun_induction cutFrom delimiter taken s with
  | case1 taken =>
    right
    rw [(eq_reverse_of_mem_flush h).1]
    simpa using htaken
  | case2 taken c rest hn ih => exact ih (List.forall_mem_cons.2 ⟨⟨rest, hn⟩, htaken⟩) h
  | case3 taken c rest n hn ih =>
    rcases List.mem_append.1 h with h | h
    · right
      rw [(eq_reverse_of_mem_flush h).1]
      simpa using htaken
    · rcases List.mem_cons.1 h with rfl | h
      · left
        obtain ⟨piece, after, hs, hf, hlen⟩ := hd (c :: rest) (by omega)
        have hl : n + 1 = piece.length := by rw [← hlen, hn]
        have hp : c :: rest.take n = piece := by rw [← List.take_succ_cons, hl, hs, List.take_left]
        rwa [hp]
      · exact ih (by simp) h

/-- Each piece of a cut has the delimiter's form, or nowhere in it does a delimiter start. -/
theorem mem_cut (hd : Recognises delimiter form) (h : piece ∈ cut delimiter s) :
    form piece ∨ ∀ c ∈ piece, ∃ rest, delimiter (c :: rest) = 0 :=
  mem_cutFrom hd (by simp) h

theorem cutFrom_of_free (h : ∀ c ∈ s, ∀ rest, delimiter (c :: rest) = 0) :
    cutFrom delimiter taken s = flush (s.reverse ++ taken) := by
  induction s generalizing taken with
  | nil => simp [cutFrom]
  | cons c s ih =>
    rw [List.forall_mem_cons] at h
    rw [cutFrom, h.1 s]
    simp [ih h.2]

/-- A text in which no delimiter can start is not cut. -/
theorem cut_of_free (hs : s ≠ []) (h : ∀ c ∈ s, ∀ rest, delimiter (c :: rest) = 0) :
    cut delimiter s = [s] := by
  rw [cut, cutFrom_of_free h]
  simp [flush, hs]

/-- A text without the sign at which all delimiters start is not cut. -/
theorem cut_of_not_mem {sign : Char} (hsign : ∀ c rest, delimiter (c :: rest) ≠ 0 → c = sign) (hs : s ≠ [])
    (h : sign ∉ s) : cut delimiter s = [s] := by
  refine cut_of_free hs fun c hc rest => Decidable.byContradiction fun hne => ?_
  rw [hsign c rest hne] at hc
  exact h hc

end Reveal.Token
