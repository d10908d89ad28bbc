/-!
# Ranges of code points

A class of characters is written down as the ascending list of the ranges of code points that it
is made of. Membership is a walk along the list that stops at the first range above the character.

* `Ranges.contains`: the walk.
* `Ranges.contains_iff`: on an ascending list it finds exactly the code points of the ranges.
-/

namespace Script.Text

/-- A class of code points, as closed ranges in ascending order. -/
abbrev Ranges := List (Nat × Nat)

namespace Ranges

/-- Membership in a class. The walk ends at the first range that begins above `n`. -/
def contains : Ranges → Nat → Bool
  | [], _ => false
  | (low, high) :: rest, n => if n < low then false else n ≤ high || contains rest n

/-- The ranges ascend: none begins below one that stands before it. -/
def Ascending (ranges : Ranges) : Prop :=
  ranges.Pairwise fun a b => a.1 ≤ b.1

/-- **Membership is membership in one of the ranges**, as long as the ranges ascend. -/
theorem contains_iff {ranges : Ranges} (h : ranges.Ascending) (n : Nat) :
    ranges.contains n = true ↔ ∃ r ∈ ranges, r.1 ≤ n ∧ n ≤ r.2 := by
  induction ranges with
  | nil => simp [contains]
  | cons r rest ih =>
    obtain ⟨low, high⟩ := r
    have hrest := ih (List.pairwise_cons.1 h).2
    by_cases hlow : n < low
    · have hall : ∀ s ∈ rest, low ≤ s.1 := (List.pairwise_cons.1 h).1
      simp only [contains, hlow, if_true, List.mem_cons, exists_eq_or_imp, Bool.false_eq_true,
        false_iff, not_or, not_exists, not_and]
      exact ⟨fun h' => absurd h' (by omega), fun s hs h' => absurd h' (by have := hall s hs; omega)⟩
    · simp only [contains, hlow, if_false, Bool.or_eq_true, decide_eq_true_eq, hrest,
        List.mem_cons, exists_eq_or_imp]
      constructor
      · rintro (h' | h')
        · exact Or.inl ⟨by omega, h'⟩
        · exact Or.inr h'
      · rintro (h' | h')
        · exact Or.inl h'.2
        · exact Or.inr h'

end Ranges

end Script.Text
