/-!
# Laws of a list, place by place

What an element has to do with the elements before it.
-/
namespace Reveal

theorem forall_split_concat {α : Type} {P : List α → α → Prop} {l : List α} {a : α} :
    (∀ before x after, l ++ [a] = before ++ x :: after → P before x) ↔
      (∀ before x after, l = before ++ x :: after → P before x) ∧ P l a := by
  constructor
  · intro h
    exact ⟨fun before x after hl => h before x (after ++ [a]) (by simp [hl]), h l a [] rfl⟩
  · rintro ⟨hl, ha⟩ before x after h
    rcases List.eq_nil_or_concat after with rfl | ⟨after, b, rfl⟩
    · obtain ⟨rfl, heq⟩ := List.append_inj' h rfl
      cases heq
      exact ha
    · have hsplit : l ++ [a] = (before ++ x :: after) ++ [b] := by simpa using h
      exact hl before x after (List.append_inj' hsplit rfl).1

end Reveal
