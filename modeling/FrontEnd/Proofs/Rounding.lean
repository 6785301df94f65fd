import FrontEnd.Number.Shortest
import Mathlib.Algebra.Order.Ring.Nat

/-! Rounding to doubles. The double nearest to a ratio depends on the ratio alone, so a decimal may
have zeros added to its digits or taken from them, and settling what is certainly out of range without
a power changes nothing. A double that is some decimal rounded is one that its own exact decimal is
rounded to, and its shortest decimal too. -/

namespace FrontEnd.Number

theorem roundHalfEven_scale {k : Nat} (hk : 0 < k) (num den : Nat) :
    roundHalfEven (num * k) (den * k) = roundHalfEven num den := by
  have hbelow : 2 * (num % den * k) < den * k ↔ 2 * (num % den) < den := by
    rw [← Nat.mul_assoc, Nat.mul_lt_mul_right hk]
  have habove : den * k < 2 * (num % den * k) ↔ den < 2 * (num % den) := by
    rw [← Nat.mul_assoc, Nat.mul_lt_mul_right hk]
  simp only [roundHalfEven, Nat.mul_div_mul_right _ _ hk, Nat.mul_mod_mul_right, hbelow, habove]

/-- Rounding goes to one of the two neighbours. -/
theorem roundHalfEven_bounds (num den : Nat) :
    num / den ≤ roundHalfEven num den ∧ roundHalfEven num den ≤ num / den + 1 := by
  simp only [roundHalfEven]
  split
  · omega
  · split
    · omega
    · split <;> omega

theorem roundHalfEven_of_dvd {num den : Nat} (h : den ∣ num) (hd : 0 < den) :
    roundHalfEven num den = num / den := by
  simp [roundHalfEven, Nat.mod_eq_zero_of_dvd h, hd]

namespace Binary64

theorem unit_eq : unit = 2 ^ 1074 := by
  unfold unit
  generalize 1074 = n
  rfl

theorem limit_eq : limit = 2 ^ 2098 := by
  unfold limit
  generalize 2098 = n
  rfl

theorem unit_pos : 0 < unit := by
  rw [unit_eq]
  apply Nat.two_pow_pos

theorem limit_pos : 0 < limit := by
  rw [limit_eq]
  apply Nat.two_pow_pos

/-- A thousand is not far from two to the power of ten; this is less, and enough. -/
theorem two_pow_le_ten_pow {m n : Nat} (h : m ≤ 3 * n) : 2 ^ m ≤ 10 ^ n := by
  calc
    2 ^ m ≤ 2 ^ (3 * n) := Nat.pow_le_pow_right (by decide) h
    _ = 8 ^ n := by rw [Nat.pow_mul]
    _ ≤ 10 ^ n := Nat.pow_le_pow_left (by decide) n

theorem ofRatio_scale {k : Nat} (hk : 0 < k) (negative : Bool) (num den : Nat) :
    ofRatio negative (num * k) (den * k) = ofRatio negative num den := by
  have hdiv : num * k * unit / (den * k) = num * unit / den := by
    rw [Nat.mul_right_comm, Nat.mul_div_mul_right _ _ hk]
  simp only [ofRatio, hdiv]
  rw [Nat.mul_right_comm num, Nat.mul_right_comm den, roundHalfEven_scale hk]

/-- The rounded double depends on the ratio and not on the two numbers that give it. -/
theorem ofRatio_congr {num den num' den' : Nat} (hd : 0 < den) (hd' : 0 < den')
    (h : num * den' = num' * den) (negative : Bool) :
    ofRatio negative num den = ofRatio negative num' den' := by
  rw [← ofRatio_scale hd' negative num den, ← ofRatio_scale hd negative num' den', h,
    Nat.mul_comm den]

/-- What is below half a unit is rounded to nothing. -/
theorem ofRatio_of_small {num den : Nat} (h : 2 * (num * unit) < den) (negative : Bool) :
    ofRatio negative num den = finite negative 0 := by
  have hquot : num * unit / den = 0 := Nat.div_eq_of_lt (by omega)
  have hround : roundHalfEven (num * unit) den = 0 := by
    simp only [roundHalfEven, hquot]
    rw [if_pos]
    rwa [Nat.mod_eq_of_lt (by omega)]
  simp [ofRatio, hquot, hround, limit_pos]

/-- What reaches the limit is not rounded below it. -/
theorem ofRatio_of_large {num den : Nat} (hd : 0 < den) (h : limit * den ≤ num * unit)
    (negative : Bool) : ofRatio negative num den = infinite negative := by
  have hquot : limit ≤ num * unit / den := (Nat.le_div_iff_mul_le hd).2 h
  simp only [ofRatio, Nat.pow_eq]
  generalize hl : (num * unit / den).log2 = l
  have hne : num * unit / den ≠ 0 := Nat.ne_of_gt (Nat.lt_of_lt_of_le limit_pos hquot)
  have hlog : ∀ n, 2 ^ n ≤ num * unit / den → n ≤ l := by
    intro n hn
    rwa [← hl, Nat.le_log2 hne]
  have hle : 2098 ≤ l := by
    apply hlog
    rwa [limit_eq] at hquot
  have hround : 2 ^ 52 ≤ roundHalfEven (num * unit) (den * 2 ^ (l - 52)) := by
    refine le_trans ?_ (roundHalfEven_bounds _ _).1
    rw [← Nat.div_div_eq_div_mul, Nat.le_div_iff_mul_le (Nat.pow_pos (by decide)), ← Nat.pow_add,
      Nat.add_sub_cancel' (by omega), ← hl]
    exact Nat.log2_self_le hne
  rw [if_neg]
  rw [Nat.not_lt]
  calc
    limit ≤ 2 ^ l := by
      rw [limit_eq]
      apply Nat.pow_le_pow_right (by decide)
      exact hle
    _ = 2 ^ 52 * 2 ^ (l - 52) := by rw [← Nat.pow_add, Nat.add_sub_cancel' (by omega)]
    _ ≤ _ := Nat.mul_le_mul_right _ hround

theorem two_mul_unit_le (k : Nat) : 2 * unit ≤ 10 ^ (401 + k) := by
  have h : ∀ n ≤ 1202, 2 * 2 ^ n ≤ 10 ^ (401 + k) := by
    intro n hn
    rw [← Nat.pow_succ']
    exact two_pow_le_ten_pow (by omega)
  rw [unit_eq]
  apply h
  decide

theorem limit_le (k : Nat) : limit ≤ 10 ^ (401 + k) * unit := by
  have h : ∀ n m, m ≤ n + 1203 → 2 ^ m ≤ 10 ^ (401 + k) * 2 ^ n := by
    intro n m hm
    calc
      2 ^ m ≤ 2 ^ (3 * (401 + k) + n) := Nat.pow_le_pow_right (by decide) (by omega)
      _ = 2 ^ (3 * (401 + k)) * 2 ^ n := Nat.pow_add _ _ _
      _ ≤ 10 ^ (401 + k) * 2 ^ n := Nat.mul_le_mul_right _ (two_pow_le_ten_pow (Nat.le_refl _))
  rw [unit_eq, limit_eq]
  apply h
  decide

/-- Digits so far behind the point are below half a unit. -/
theorem ofRatio_of_tiny (negative : Bool) (digits k : Nat) :
    ofRatio negative digits (10 ^ (digits.log2 + 1 + (401 + k))) = finite negative 0 := by
  refine ofRatio_of_small ?_ negative
  calc
    2 * (digits * unit) = digits * (2 * unit) := Nat.mul_left_comm _ _ _
    _ ≤ digits * 10 ^ (401 + k) := Nat.mul_le_mul_left _ (two_mul_unit_le k)
    _ < 10 ^ (digits.log2 + 1) * 10 ^ (401 + k) := by
      refine Nat.mul_lt_mul_of_pos_right ?_ (Nat.pow_pos (by decide))
      exact Nat.lt_of_lt_of_le Nat.lt_log2_self (two_pow_le_ten_pow (by omega))
    _ = 10 ^ (digits.log2 + 1 + (401 + k)) := (Nat.pow_add _ _ _).symm

theorem ofRatio_of_huge (negative : Bool) {digits : Nat} (h : 0 < digits) (k : Nat) :
    ofRatio negative (digits * 10 ^ (401 + k)) 1 = infinite negative := by
  refine ofRatio_of_large (Nat.succ_pos 0) ?_ negative
  rw [Nat.mul_one]
  exact (limit_le k).trans (Nat.mul_le_mul_right _ (Nat.le_mul_of_pos_left _ h))

/-- The cases that are settled without a power are rounded to the same. -/
theorem ofDecimal_eq_ofRatio {digits : Nat} (h : 0 < digits) (negative : Bool) (exponent : Int) :
    ofDecimal negative digits exponent =
      ofRatio negative (digits * 10 ^ exponent.toNat) (10 ^ (-exponent).toNat) := by
  rw [ofDecimal]
  split
  · next hsmall =>
    have hexp : exponent + digits.log2 + 1 < -400 := hsmall.resolve_left (by omega)
    obtain ⟨k, hk⟩ : ∃ k, (-exponent).toNat = digits.log2 + 1 + (401 + k) :=
      ⟨(-exponent).toNat - (digits.log2 + 402), by omega⟩
    rw [Int.toNat_of_nonpos (by omega), Nat.pow_zero, Nat.mul_one, hk, ofRatio_of_tiny]
  · split
    · next hlarge =>
      obtain ⟨k, hk⟩ : ∃ k, exponent.toNat = 401 + k := ⟨exponent.toNat - 401, by omega⟩
      have hden : (-exponent).toNat = 0 := Int.toNat_of_nonpos (by omega)
      rw [hden, hk, Nat.pow_zero, ofRatio_of_huge negative h]
    · rfl

/-- Zeros behind the digits are made up for by the exponent. -/
theorem ofDecimal_mul_pow {digits : Nat} (h : 0 < digits) (negative : Bool) (exponent : Int)
    (k : Nat) :
    ofDecimal negative (digits * 10 ^ k) (exponent - k) = ofDecimal negative digits exponent := by
  have hpow : 0 < 10 ^ k := Nat.pow_pos (by decide)
  rw [ofDecimal_eq_ofRatio h, ofDecimal_eq_ofRatio (Nat.mul_pos h hpow)]
  refine ofRatio_congr (Nat.pow_pos (by decide)) (Nat.pow_pos (by decide)) ?_ negative
  have hexp : k + (exponent - k).toNat + (-exponent).toNat =
      exponent.toNat + (-(exponent - k)).toNat := by omega
  rw [Nat.mul_assoc, Nat.mul_assoc, Nat.mul_assoc, ← Nat.pow_add, ← Nat.pow_add, ← Nat.pow_add,
    ← Nat.add_assoc, hexp]

/-- A count of units whose significand has no more than 53 bits, as every double has. -/
def Fits (units : Nat) : Prop :=
  2 ^ (units.log2 - 52) ∣ units ∧ units < limit

/-- Rounding gives a significand of 53 bits. If it reaches the next power of two, it has one. -/
theorem fits_of_ofRatio {negative negative' : Bool} {num den units : Nat}
    (h : ofRatio negative num den = finite negative' units) : Fits units := by
  simp only [ofRatio, Nat.pow_eq] at h
  split at h
  · next hlimit =>
    cases h
    refine ⟨?_, hlimit⟩
    generalize hs : (num * unit / den).log2 - 52 = s
    have hround : roundHalfEven (num * unit) (den * 2 ^ s) ≤ 2 ^ 53 := by
      refine le_trans (roundHalfEven_bounds _ _).2 ?_
      rw [Nat.succ_le_iff, ← Nat.div_div_eq_div_mul, Nat.div_lt_iff_lt_mul (Nat.pow_pos (by decide)),
        ← Nat.pow_add]
      exact Nat.lt_of_lt_of_le Nat.lt_log2_self (Nat.pow_le_pow_right (by decide) (by omega))
    generalize roundHalfEven (num * unit) (den * 2 ^ s) = r at hround
    have hle : r * 2 ^ s ≤ 2 ^ (53 + s) := by
      rw [Nat.pow_add]
      exact Nat.mul_le_mul_right _ hround
    by_cases hlog : (r * 2 ^ s).log2 ≤ 52 + s
    · exact Nat.dvd_trans (Nat.pow_dvd_pow 2 (by omega)) (Nat.dvd_mul_left _ _)
    · have hne : r * 2 ^ s ≠ 0 := by
        intro hzero
        simp [hzero] at hlog
      have hge : 2 ^ (53 + s) ≤ r * 2 ^ s := (Nat.le_log2 hne).1 (by omega)
      rw [Nat.le_antisymm hle hge, Nat.log2_two_pow]
      exact Nat.pow_dvd_pow 2 (by omega)
  · cases h

theorem fits_of_ofDecimal {negative negative' : Bool} {digits units : Nat} {exponent : Int}
    (h : ofDecimal negative digits exponent = finite negative' units) (h0 : 0 < units) :
    Fits units := by
  by_cases hd : digits = 0
  · rw [ofDecimal, if_pos (.inl hd)] at h
    cases h
    cases h0
  · rw [ofDecimal_eq_ofRatio (Nat.pos_of_ne_zero hd)] at h
    exact fits_of_ofRatio h

/-- A count of units that fits is not changed by rounding. -/
theorem ofRatio_of_fits {units : Nat} (h : Fits units) (negative : Bool) :
    ofRatio negative units unit = finite negative units := by
  obtain ⟨hdvd, hlimit⟩ := h
  have hstep : 0 < 2 ^ (units.log2 - 52) := Nat.pow_pos (by decide)
  simp only [ofRatio, Nat.pow_eq, Nat.mul_div_cancel _ unit_pos]
  rw [Nat.mul_comm unit, roundHalfEven_scale unit_pos, roundHalfEven_of_dvd hdvd hstep,
    Nat.div_mul_cancel hdvd, if_pos hlimit]

end Binary64

namespace Decimal

open Binary64

theorem digits_pos_of_readsAs {d : Decimal} {units : Nat} (h : d.readsAs units = true)
    (h0 : 0 < units) : 0 < d.digits := by
  refine Nat.pos_of_ne_zero fun hd => ?_
  rw [readsAs, ofDecimal, if_pos (.inl hd)] at h
  cases of_decide_eq_true h
  cases h0

/-- Halves are tenths of fives. -/
theorem ofDecimal_halves {units den n : Nat} {exponent : Int} (h : 0 < units) (hd : den = 2 ^ n)
    (he : exponent = -n) (negative : Bool) :
    ofDecimal negative (units * Nat.pow 5 n) exponent = ofRatio negative units den := by
  have hfive : 0 < 5 ^ n := Nat.pow_pos (by decide)
  have hten : 10 ^ n = 2 ^ n * 5 ^ n := Nat.mul_pow 2 5 n
  rw [Nat.pow_eq, ofDecimal_eq_ofRatio (Nat.mul_pos h hfive), Int.toNat_of_nonpos (by omega), he,
    Int.neg_neg, Int.toNat_natCast, Nat.pow_zero, Nat.mul_one, hten, ofRatio_scale hfive, hd]

theorem readsAs_exact {units : Nat} (h : Fits units) (h0 : 0 < units) :
    (exact units).readsAs units = true := by
  have he : (-1074 : Int) = -(1074 : Nat) := rfl
  have hunit := unit_eq
  rw [readsAs, exact, he, decide_eq_true_eq]
  -- The powers are too large to be compared by computing them.
  generalize 1074 = n at hunit ⊢
  rw [ofDecimal_halves h0 hunit rfl, ofRatio_of_fits h]

theorem readsAs_of_either? {units : Nat} {lower upper d : Decimal} {preferLower : Bool}
    (h : either? units lower upper preferLower = some d) : d.readsAs units = true := by
  unfold either? at h
  cases hlower : lower.readsAs units <;> cases hupper : upper.readsAs units <;>
    rw [hlower, hupper] at h <;> cases h
  · exact hupper
  · exact hlower
  · split
    · exact hlower
    · exact hupper

theorem readsAs_of_neighbour? {units dropped : Nat} {d : Decimal}
    (h : neighbour? units dropped = some d) : d.readsAs units = true :=
  readsAs_of_either? h

theorem readsAs_getD {units : Nat} {o : Option Decimal} {d : Decimal} (h : d.readsAs units = true)
    (ho : ∀ d ∈ o, d.readsAs units = true) : (o.getD d).readsAs units = true := by
  cases o with
  | none => exact h
  | some d => exact ho d rfl

/-- A double that is its exact decimal rounded is its shortest decimal rounded. -/
theorem readsAs_shortest {units : Nat} (h : Fits units) (h0 : 0 < units) :
    (shortest units).readsAs units = true := by
  unfold shortest
  refine readsAs_getD (readsAs_exact h h0) fun d hd => ?_
  obtain ⟨n, -, hn⟩ := List.exists_of_findSome?_eq_some hd
  exact readsAs_of_neighbour? hn

end Decimal

end FrontEnd.Number
