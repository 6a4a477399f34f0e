import Mathlib.Data.List.Basic
import Std.Data.String.ToNat
import Reveal.Ident.Order
/-!
# Printed identifiers

A print tells the kind of the identifier it stands for (`rankOfPrint_print`), and within a kind what
was printed. Only the unreferenced fragments are printed alike (`print_eq_print_iff`).
-/
namespace Reveal

namespace Prose

variable {s t : List Char} {c d : Char}

/-- The five characters are written with an ampersand in front, all others as they are. -/
theorem entity_cases (c : Char) :
    entity c = [c] ∧ c ≠ '&' ∨ c ∈ ['&', '<', '>', '"', '\''] ∧ ∃ u, entity c = '&' :: u := by
  unfold entity
  split
  case h_6 hamp _ _ _ _ => exact .inl ⟨rfl, hamp⟩
  all_goals exact .inr ⟨by simp, _, rfl⟩

/-- No entity begins like another one. -/
theorem eq_of_entity_append (h : entity c ++ s = entity d ++ t) : c = d := by
  rcases entity_cases c with ⟨hc, hcne⟩ | ⟨hc, u, hu⟩
  · rcases entity_cases d with ⟨hd, -⟩ | ⟨-, v, hv⟩
    · rw [hc, hd] at h
      exact (List.cons.inj h).1
    · rw [hc, hv] at h
      exact absurd (List.cons.inj h).1 hcne
  · rcases entity_cases d with ⟨hd, hdne⟩ | ⟨hd, -⟩
    · rw [hu, hd] at h
      exact absurd (List.cons.inj h).1.symm hdne
    · simp only [List.mem_cons, List.not_mem_nil, or_false] at hc hd
      rcases hc with rfl | rfl | rfl | rfl | rfl <;> rcases hd with rfl | rfl | rfl | rfl | rfl <;>
        simp [entity] at h ⊢

theorem entity_ne_nil (c : Char) : entity c ≠ [] := by
  rcases entity_cases c with ⟨hc, -⟩ | ⟨-, u, hu⟩
  · simp [hc]
  · simp [hu]

theorem escapeChars_injective (h : escapeChars s = escapeChars t) : s = t := by
  induction s generalizing t with
  | nil =>
    cases t with
    | nil => rfl
    | cons d t => simp [entity_ne_nil] at h
  | cons c s ih =>
    cases t with
    | nil => simp [entity_ne_nil] at h
    | cons d t =>
      rw [escapeChars_cons, escapeChars_cons] at h
      obtain rfl := eq_of_entity_append h
      rw [ih (List.append_cancel_left h)]

theorem escape_injective {s t : String} (h : escape s = escape t) : s = t := by
  rw [escape, escape, String.ofList_inj] at h
  exact String.toList_inj.1 (escapeChars_injective h)

end Prose

namespace Ident

theorem isDigit_of_mem_toString {n : Nat} {c : Char} (h : c ∈ (toString n).toList) : c.isDigit = true := by
  refine Nat.isDigit_of_mem_toDigits (b := 10) (n := n) (by decide) (by decide) ?_
  simpa [toString, Nat.repr] using h

theorem exists_toString_eq_cons (n : Nat) : ∃ c s, (toString n).toList = c :: s ∧ c.isDigit = true := by
  cases h : (toString n).toList with
  | nil => simp [toString] at h
  | cons c s => exact ⟨c, s, rfl, isDigit_of_mem_toString (h ▸ List.mem_cons_self)⟩

theorem hyphen_notMem_toString (n : Nat) : '-' ∉ (toString n).toList := by
  intro h
  have := isDigit_of_mem_toString h
  revert this
  decide

/-- The rank of an identifier, read off its print. -/
def rankOfPrint : List Char → Nat
  | [] => 4
  | c :: s => if c = '_' then 0 else if c = 'n' then 3 else if '-' ∈ s then 1 else 2

theorem rankOfPrint_toString (n : Nat) (s : List Char) :
    rankOfPrint ((toString n).toList ++ s) = if '-' ∈ s then 1 else 2 := by
  obtain ⟨c, t, hn, hc⟩ := exists_toString_eq_cons n
  have ht : '-' ∉ t := by
    have := hyphen_notMem_toString n
    rw [hn] at this
    exact fun h => this (List.mem_cons_of_mem _ h)
  have hne : c ≠ '_' ∧ c ≠ 'n' := by
    constructor <;> (rintro rfl; revert hc; decide)
  rw [hn, List.cons_append, rankOfPrint, if_neg hne.1, if_neg hne.2]
  simp [ht]

theorem rankOfPrint_print (a : Ident) : rankOfPrint a.print.toList = a.rank := by
  cases a with
  | named name => simp [print, namedMark, rankOfPrint, rank]
  | numbered depth number =>
    rw [print, String.append_assoc, String.toList_append, rankOfPrint_toString]
    simp [rank]
  | auto ordinal =>
    have h := rankOfPrint_toString ordinal []
    rw [List.append_nil] at h
    simpa [print, rank] using h
  | unreferenced ordinal => simp [print, unreferencedText, rankOfPrint, rank]
  | anonymous => simp [print, rankOfPrint, rank]

/-- The hyphen stands between the depth and the number, and in neither of them. -/
theorem print_numbered_inj {depth number depth' number' : Nat}
    (h : (numbered depth number).print = (numbered depth' number').print) :
    depth = depth' ∧ number = number' := by
  have hlist : (toString depth).toList ++ '-' :: (toString number).toList =
      (toString depth').toList ++ '-' :: (toString number').toList := by
    simpa [print] using congrArg String.toList h
  obtain ⟨hdepth, -, hnumber⟩ := (List.append_cons_inj_of_notMem (hyphen_notMem_toString depth)
    (hyphen_notMem_toString number)).1 hlist
  exact ⟨Nat.repr_injective (String.toList_inj.1 hdepth), Nat.repr_injective (String.toList_inj.1 hnumber)⟩

theorem print_eq_print_iff {a b : Ident} :
    a.print = b.print ↔ a = b ∨ ∃ m n, a = .unreferenced m ∧ b = .unreferenced n := by
  constructor
  · intro h
    have hrank : a.rank = b.rank := by rw [← rankOfPrint_print, ← rankOfPrint_print, h]
    cases a <;> cases b <;> simp [rank] at hrank
    case named.named name name' =>
      exact .inl (congrArg named (Prose.escape_injective ((String.append_right_inj namedMark).1 h)))
    case numbered.numbered depth number depth' number' =>
      obtain ⟨rfl, rfl⟩ := print_numbered_inj h
      exact .inl rfl
    case auto.auto m n => exact .inl (congrArg auto (Nat.repr_injective h))
    case unreferenced.unreferenced m n => exact .inr ⟨m, n, rfl, rfl⟩
    case anonymous.anonymous => exact .inl rfl
  · rintro (rfl | ⟨m, n, rfl, rfl⟩)
    · rfl
    · rfl

end Ident

end Reveal
