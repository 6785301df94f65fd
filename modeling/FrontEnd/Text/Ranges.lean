/-! Sets of characters given as ascending inclusive ranges of code points. The search stops at the
first range that starts above the character, so a low character is settled early. -/

namespace FrontEnd.Text

/-- Whether `n` lies in one of the ranges, which ascend. -/
def inRanges (n : Nat) : List (Nat × Nat) → Bool
  | [] => false
  | (lo, hi) :: rest => if n < lo then false else n ≤ hi || inRanges n rest

/-- A character in a set lies between the two ends of one of its ranges. -/
theorem exists_of_inRanges {n : Nat} {rs : List (Nat × Nat)} (h : inRanges n rs = true) :
    ∃ r ∈ rs, r.1 ≤ n ∧ n ≤ r.2 := by
  induction rs with
  | nil => simp [inRanges] at h
  | cons r rest ih =>
    obtain ⟨lo, hi⟩ := r
    rw [inRanges] at h
    split at h
    · simp at h
    · next hlo =>
      rcases Bool.or_eq_true _ _ ▸ h with hhi | hrest
      · exact ⟨(lo, hi), by simp, by simpa using hlo, by simpa using hhi⟩
      · obtain ⟨r, hr, hb⟩ := ih hrest
        exact ⟨r, by simp [hr], hb⟩

end FrontEnd.Text
