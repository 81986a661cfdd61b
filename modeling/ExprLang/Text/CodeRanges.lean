/-!
Sets of code points, written as inclusive ranges in ascending order.
-/

namespace ExprLang.Text

abbrev CodeRanges := List (Nat × Nat)

/-- Membership; the search stops at the first range that starts above the code point. -/
def CodeRanges.has : CodeRanges → Nat → Bool
  | [], _ => false
  | (lo, hi) :: rest, n =>
    if n < lo then false else if n ≤ hi then true else CodeRanges.has rest n

theorem CodeRanges.exists_of_has {rs : CodeRanges} {n : Nat} (h : rs.has n = true) :
    ∃ r ∈ rs, r.1 ≤ n ∧ n ≤ r.2 := by
  induction rs with
  | nil => simp [has] at h
  | cons r rs ih =>
    obtain ⟨lo, hi⟩ := r
    simp only [has] at h
    split at h
    · simp at h
    · rename_i hlo
      split at h
      · rename_i hhi
        exact ⟨(lo, hi), by simp, Nat.le_of_not_lt hlo, hhi⟩
      · obtain ⟨r, hr, hn⟩ := ih h
        exact ⟨r, List.mem_cons_of_mem _ hr, hn⟩

end ExprLang.Text
