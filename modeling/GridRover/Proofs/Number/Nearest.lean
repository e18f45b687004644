import GridRover.Number.Decimal
import Mathlib.Algebra.Order.Ring.Nat
import Mathlib.Tactic.Ring

/-!
# Decimals that read back

The nearest double depends on the value of a decimal only, not on how the value is split
between coefficient and exponent. A finite double is nearest to its own exact value, so the
search for few digits ends with a decimal that reads back, be it on a grid or at the exact
value.
-/
namespace GridRover.Number

section Rounding

variable {n d : Nat}

theorem roundDiv_mul_right (n d : Nat) {k : Nat} (hk : 0 < k) :
    roundDiv (n * k) (d * k) = roundDiv n d := by
  have hless : d * k < 2 * (n % d * k) ↔ d < 2 * (n % d) := by
    rw [← Nat.mul_assoc, Nat.mul_lt_mul_right hk]
  have htie : 2 * (n % d * k) = d * k ↔ 2 * (n % d) = d := by
    rw [← Nat.mul_assoc, Nat.mul_left_inj (Nat.ne_of_gt hk)]
  simp only [roundDiv, Nat.mul_div_mul_right n d hk, Nat.mul_mod_mul_right, hless, htie]

theorem roundDiv_of_multiple (n : Nat) (hd : 0 < d) : roundDiv (n * d) d = n := by
  simp only [roundDiv, Nat.mul_div_cancel n hd, Nat.mul_mod_left]
  rw [if_neg]
  omega

theorem nearestBits_mul_right (n d : Nat) {k : Nat} (hk : 0 < k) :
    nearestBits (n * k) (d * k) = nearestBits n d := by
  have hunits : n * k * Nat.pow 2 1074 = n * Nat.pow 2 1074 * k := Nat.mul_right_comm ..
  simp only [nearestBits, hunits, Nat.mul_div_mul_right _ d hk, Nat.mul_right_comm d k,
    roundDiv_mul_right _ _ hk]

/-- Equal fractions have the same nearest double. -/
theorem nearestBits_congr {n' d' : Nat} (hd : 0 < d) (hd' : 0 < d') (h : n * d' = n' * d) :
    nearestBits n d = nearestBits n' d' :=
  calc nearestBits n d
    _ = nearestBits (n * d') (d * d') := (nearestBits_mul_right n d hd').symm
    _ = nearestBits (n' * d) (d' * d) := by rw [h, Nat.mul_comm d d']
    _ = nearestBits n' d' := nearestBits_mul_right n' d' hd

theorem Magnitude.significand_ofBits_ne_zero {bits : Nat} (h : bits ≠ 0) :
    (ofBits bits).significand ≠ 0 := by
  unfold ofBits leadingBit
  split <;> simp only <;> omega

/-- The scale of a double is the one that rounding to its value chooses. -/
theorem Magnitude.log2_units_ofBits {bits : Nat} (h : bits ≠ 0) :
    (ofBits bits).units.log2 - 52 = (ofBits bits).scale := by
  by_cases hsub : bits < leadingBit
  · -- below the leading bit there are fewer than 53 significant bits
    have hlog : bits.log2 < 52 := (Nat.log2_lt h).mpr hsub
    simp only [ofBits, if_pos hsub, units, Nat.pow_eq, Nat.pow_zero, Nat.mul_one]
    omega
  · simp only [ofBits, if_neg hsub, units, Nat.pow_eq]
    generalize bits / leadingBit - 1 = scale
    have hpos : 0 < 2 ^ scale := Nat.two_pow_pos scale
    have hmod : bits % leadingBit < leadingBit := Nat.mod_lt _ (by decide)
    have hlow : 2 ^ (52 + scale) ≤ (bits % leadingBit + leadingBit) * 2 ^ scale := by
      rw [Nat.pow_add]
      exact Nat.mul_le_mul_right _ (Nat.le_add_left ..)
    have hhigh : (bits % leadingBit + leadingBit) * 2 ^ scale < 2 ^ (52 + scale + 1) := by
      rw [Nat.add_right_comm, Nat.pow_add]
      exact Nat.mul_lt_mul_of_pos_right (by rw [leadingBit] at hmod ⊢; omega) hpos
    rw [(Nat.log2_eq_iff (by omega)).mpr ⟨hlow, hhigh⟩]
    omega

/-- A fraction that is the value of a finite double is rounded to this double. -/
theorem nearestBits_of_exact {bits : Nat} (hd : 0 < d) (hne : bits ≠ 0)
    (hbits : bits < infinityBits) (h : n * Nat.pow 2 1074 = (Magnitude.ofBits bits).units * d) :
    nearestBits n d = bits := by
  have hscale := Magnitude.log2_units_ofBits hne
  have hround : roundDiv ((Magnitude.ofBits bits).units * d)
      (d * Nat.pow 2 (Magnitude.ofBits bits).scale) = (Magnitude.ofBits bits).significand := by
    rw [Magnitude.units, Nat.mul_assoc, Nat.mul_comm d]
    exact roundDiv_of_multiple _ (Nat.mul_pos (Nat.two_pow_pos _) hd)
  simp only [nearestBits, h, Nat.mul_div_cancel _ hd, hscale, hround]
  rw [Magnitude.toBits_ofBits]
  exact Nat.min_eq_left (Nat.le_of_lt hbits)

theorem nearestBits_le (n d : Nat) : nearestBits n d ≤ infinityBits := Nat.min_le_right ..

end Rounding

namespace Decimal

/-- A decimal as a fraction, its power of ten above or below the line. -/
theorem nearest_mk (c : Nat) (e : Int) :
    nearest ⟨c, e⟩ = if c = 0 then 0 else nearestBits (c * 10 ^ e.toNat) (10 ^ (-e).toNat) := by
  cases e with
  | ofNat e =>
    have hdown : (-(Int.ofNat e)).toNat = 0 := Int.toNat_neg_natCast e
    rw [hdown]
    rfl
  | negSucc e =>
    have hup : (Int.negSucc e).toNat = 0 := rfl
    rw [hup, Nat.pow_zero, Nat.mul_one]
    rfl

theorem nearest_le (d : Decimal) : d.nearest ≤ infinityBits := by
  obtain ⟨c, e⟩ := d
  rw [nearest_mk]
  split
  · exact Nat.zero_le _
  · exact nearestBits_le ..

/-- A zero at the end of the coefficient can be moved into the exponent. -/
theorem nearest_mul_ten (c : Nat) (e : Int) : nearest ⟨c * 10, e⟩ = nearest ⟨c, e + 1⟩ := by
  by_cases hc : c = 0
  · rw [hc, nearest_mk, nearest_mk, if_pos rfl, if_pos rfl]
  rw [nearest_mk, nearest_mk, if_neg hc, if_neg (by omega)]
  apply nearestBits_congr (Nat.pow_pos (by decide)) (Nat.pow_pos (by decide))
  by_cases he : 0 ≤ e
  · have hup : (e + 1).toNat = e.toNat + 1 := by omega
    have hdown : (-e).toNat = 0 := by omega
    have hdown' : (-(e + 1)).toNat = 0 := by omega
    rw [hup, hdown, hdown']
    ring
  · have hup : e.toNat = 0 := by omega
    have hup' : (e + 1).toNat = 0 := by omega
    have hdown : (-e).toNat = (-(e + 1)).toNat + 1 := by omega
    rw [hup, hup', hdown]
    ring

theorem nearest_mul_pow (c k : Nat) (e : Int) : nearest ⟨c * 10 ^ k, e⟩ = nearest ⟨c, e + k⟩ := by
  induction k generalizing e with
  | zero => rw [Nat.pow_zero, Nat.mul_one, Int.natCast_zero, Int.add_zero]
  | succ k ih =>
    rw [Nat.pow_succ, ← Nat.mul_assoc, nearest_mul_ten, ih, Int.natCast_add, Int.add_assoc,
      Int.add_comm (k : Int)]
    rfl

theorem nearest_stripZeros (d : Decimal) : d.stripZeros.nearest = d.nearest := by
  fun_induction stripZeros d with
  | case1 d h ih =>
    have hten : d.coefficient = d.coefficient / 10 * 10 := by omega
    rw [ih, ← nearest_mul_ten, ← hten]
  | case2 d h => rfl

/-- Halvings that are not undone are as many decimal places. -/
private theorem halvings (a s b : Nat) :
    a * Nat.pow 2 (s - b) * Nat.pow 5 (b - s) * Nat.pow 2 b = a * Nat.pow 2 s * 10 ^ (b - s) := by
  simp only [Nat.pow_eq]
  have hadd : 2 ^ (s - b) * 2 ^ b = 2 ^ s * 2 ^ (b - s) := by
    rw [← Nat.pow_add, ← Nat.pow_add]
    congr 1
    omega
  calc a * 2 ^ (s - b) * 5 ^ (b - s) * 2 ^ b
    _ = a * (2 ^ (s - b) * 2 ^ b) * 5 ^ (b - s) := by ring
    _ = a * 2 ^ s * (2 * 5) ^ (b - s) := by rw [hadd, Nat.mul_pow, ← Nat.mul_assoc, ← Nat.mul_assoc]

theorem nearest_exact {bits : Nat} (hne : bits ≠ 0) (h : bits < infinityBits) :
    (exact bits).nearest = bits := by
  have hsignificand := Magnitude.significand_ofBits_ne_zero hne
  rw [exact]
  generalize hm : Magnitude.ofBits bits = m at hsignificand
  have hcoefficient : m.significand * Nat.pow 2 (m.scale - 1074) * Nat.pow 5 (1074 - m.scale) ≠ 0 :=
    Nat.mul_ne_zero (Nat.mul_ne_zero hsignificand (Nat.ne_of_gt (Nat.two_pow_pos _)))
      (Nat.ne_of_gt (Nat.pow_pos (by decide)))
  rw [nearest_mk, if_neg hcoefficient, Int.neg_neg, Int.toNat_natCast, Int.toNat_neg_natCast,
    Nat.pow_zero, Nat.mul_one]
  apply nearestBits_of_exact (Nat.pow_pos (by decide)) hne h
  rw [hm, Magnitude.units]
  generalize 1074 = halves
  exact halvings m.significand m.scale halves

end Decimal

theorem nearest_of_candidate? {bits k : Nat} {value d : Decimal}
    (h : candidate? bits value k = some d) : d.nearest = bits := by
  unfold candidate? at h
  simp only at h
  split at h
  case isTrue habove =>
    cases h
    exact habove.1
  case isFalse =>
    split at h
    case isTrue hbelow =>
      cases h
      exact hbelow
    case isFalse => cases h

/-- The decimal that stands for a finite double reads back to it. -/
theorem nearest_shortest {bits : Nat} (h : bits < infinityBits) : (shortest bits).nearest = bits := by
  by_cases hzero : bits = 0
  · rw [shortest, if_pos hzero, hzero]
    rfl
  · rw [shortest, if_neg hzero, Decimal.nearest_stripZeros]
    cases hfound : (List.range 17).findSome? fun n => candidate? bits (Decimal.exact bits)
      ((Decimal.exact bits).digits.length - (n + 1)) with
    | none => exact Decimal.nearest_exact hzero h
    | some d =>
      obtain ⟨n, -, hcandidate⟩ := List.exists_of_findSome?_eq_some hfound
      exact nearest_of_candidate? hcandidate

end GridRover.Number
