import GridRover.Number.Layout
import GridRover.Proofs.Number.Literal
import GridRover.Proofs.Number.Nearest
import Mathlib

/-!
# Number text that reads back

The plain text of a finite double without a sign is a numeral, and it reads as the same
double. The zeros that positional notation fills in, in front of the digits or behind them,
do not change the value, and the digits are those of a decimal that reads back.
-/
namespace GridRover.Number

section Zeros

theorem foldl_zeros (n k : Nat) :
    (List.replicate k '0').foldl (fun n c => 10 * n + digitValue c) n = n * 10 ^ k := by
  induction k generalizing n with
  | zero => simp
  | succ k ih =>
    have hzero : digitValue '0' = 0 := rfl
    rw [List.replicate_succ, List.foldl_cons, ih, hzero, Nat.pow_succ]
    ring

theorem naturalOf_zeros_append (k : Nat) (ds : List Char) :
    naturalOf (List.replicate k '0' ++ ds) = naturalOf ds := by
  rw [naturalOf, List.foldl_append, foldl_zeros, Nat.zero_mul, naturalOf]

theorem naturalOf_append_zeros (k : Nat) (ds : List Char) :
    naturalOf (ds ++ List.replicate k '0') = naturalOf ds * 10 ^ k := by
  rw [naturalOf, List.foldl_append, foldl_zeros, naturalOf]

theorem isDigit_of_mem_append_zeros {ds : List Char} (h : Digits ds) {k : Nat} {c : Char}
    (hc : c ∈ ds ∨ c ∈ List.replicate k '0') : c.isDigit = true := by
  rcases hc with hc | hc
  · exact h.isDigit c hc
  · rw [List.eq_of_mem_replicate hc]
    rfl

theorem Digits.append_zeros {ds : List Char} (h : Digits ds) (k : Nat) :
    Digits (ds ++ List.replicate k '0') :=
  ⟨List.append_ne_nil_of_left_ne_nil h.ne_nil _,
    fun _ hc => isDigit_of_mem_append_zeros h (List.mem_append.mp hc)⟩

theorem Digits.zeros_append {ds : List Char} (h : Digits ds) (k : Nat) :
    Digits (List.replicate k '0' ++ ds) :=
  ⟨List.append_ne_nil_of_right_ne_nil _ h.ne_nil,
    fun _ hc => isDigit_of_mem_append_zeros h (List.mem_append.mp hc).symm⟩

/-- A cut leaves digits on both sides. -/
theorem Digits.cut {ds : List Char} (h : Digits ds) {k : Nat} (hk : 0 < k) (hlt : k < ds.length) :
    Digits (ds.take k) ∧ Digits (ds.drop k) := by
  have hfront : ds.take k ≠ [] := List.ne_nil_of_length_pos (by rw [List.length_take]; omega)
  have hback : ds.drop k ≠ [] := List.ne_nil_of_length_pos (by rw [List.length_drop]; omega)
  exact ⟨⟨hfront, fun c hc => h.isDigit c (List.mem_of_mem_take hc)⟩,
    ⟨hback, fun c hc => h.isDigit c (List.mem_of_mem_drop hc)⟩⟩

end Zeros

namespace Decimal

theorem digits_digits (d : Decimal) : Digits d.digits :=
  ⟨Nat.toDigits_ne_nil, fun _ hc => Nat.isDigit_of_mem_toDigits (by decide) (by decide) hc⟩

theorem naturalOf_digits (d : Decimal) : naturalOf d.digits = d.coefficient :=
  Nat.ofDigitChars_toDigits (by decide) (by decide)

/-- A point in front of the last digits makes them decimal places. -/
theorem numeral_of_places {ds : List Char} (h : Digits ds) {places : Nat} (hpos : 0 < places)
    (hlt : places < ds.length) :
    Numeral (ds.take (ds.length - places) ++ '.' :: ds.drop (ds.length - places)) ∧
      ofText (String.ofList (ds.take (ds.length - places) ++ '.' :: ds.drop (ds.length - places))) =
        .ok (ofSign false (nearest ⟨naturalOf ds, -(places : Int)⟩)) := by
  obtain ⟨hwhole, hfraction⟩ := @Digits.cut _ h (ds.length - places) (by omega) (by omega)
  have hplaces : (ds.drop (ds.length - places)).length = places := by
    rw [List.length_drop]
    omega
  refine ⟨.fraction hwhole hfraction, ?_⟩
  rw [ofText_fraction hwhole hfraction, ofDigits, List.take_append_drop, hplaces]

/-- Positional notation is a numeral that reads as the double nearest to the decimal. -/
theorem numeral_positional (d : Decimal) :
    Numeral (d.positional false) ∧
      ofText (String.ofList (d.positional false)) = .ok (ofSign false d.nearest) := by
  obtain ⟨c, e | e⟩ := d
  · -- the zeros behind the digits are the exponent
    have hwhole := (digits_digits ⟨c, Int.ofNat e⟩).append_zeros e
    have hvalue : nearest ⟨naturalOf (digits ⟨c, Int.ofNat e⟩ ++ List.replicate e '0'), 0⟩ =
        nearest ⟨c, Int.ofNat e⟩ := by
      rw [naturalOf_append_zeros, naturalOf_digits, nearest_mul_pow, Int.zero_add]
      rfl
    simp only [positional, Bool.false_eq_true, if_false, List.append_nil]
    refine ⟨.whole hwhole, ?_⟩
    rw [ofText_whole hwhole, ofDigits, List.append_nil, ← hvalue]
    rfl
  · -- the zeros in front of the digits leave one before the point
    simp only [positional]
    generalize hpadded : List.replicate _ '0' ++ digits ⟨c, Int.negSucc e⟩ = padded
    have hdigits : Digits padded := hpadded ▸ (digits_digits ⟨c, Int.negSucc e⟩).zeros_append _
    have hvalue : naturalOf padded = c := by
      rw [← hpadded, naturalOf_zeros_append, naturalOf_digits]
    have hlength : e + 1 < padded.length := by
      rw [← hpadded, List.length_append, List.length_replicate]
      omega
    have hplaces := numeral_of_places hdigits (Nat.succ_pos e) hlength
    rw [hvalue] at hplaces
    exact hplaces

end Decimal

section Bits

open Float.Model

/-- Up to infinity, no bits are those of a NaN. -/
theorem isNaNBits_eq_false {bits : UInt64} (h : bits.toNat ≤ infinityBits) :
    @UnpackedFloat.isNaNBits .binary64 bits.toBitVec = false := by
  rw [UnpackedFloat.isNaNBits, UnpackedFloat.unpackExponent_def,
    UnpackedFloat.unpackMantissa_def, decide_eq_false_iff_not]
  rintro ⟨hexponent, hmantissa⟩
  apply hmantissa
  apply BitVec.eq_of_toNat_eq
  have hfield : bits.toNat / 2 ^ 52 % 2 ^ 11 = 2 ^ 11 - 1 := by
    rw [← Nat.shiftRight_eq_div_pow]
    exact congrArg BitVec.toNat hexponent
  -- with all exponent bits set, only infinity is not above infinity
  have hzero : bits.toNat % 2 ^ 52 = 0 := by
    rw [infinityBits] at h
    omega
  rw [BitVec.extractLsb'_toNat, Nat.shiftRight_zero]
  exact hzero

theorem toBits_ofSign {bits : Nat} (h : bits ≤ infinityBits) :
    (ofSign false bits).toBits.toNat = bits := by
  have hlt : bits < 2 ^ 64 := Nat.lt_of_le_of_lt h (by decide)
  have hnat : (UInt64.ofNat bits).toNat = bits := Nat.mod_eq_of_lt hlt
  have hnot := @isNaNBits_eq_false (UInt64.ofNat bits) (hnat.le.trans h)
  have hpack := @UnpackedFloat.pack_unpack .binary64 (UInt64.ofNat bits).toBitVec (by decide)
  rw [hnot, if_neg Bool.false_ne_true] at hpack
  have hbits : (ofSign false bits).toBits = UInt64.ofNat bits := UInt64.toBitVec_inj.mp hpack
  rw [hbits, hnat]

theorem isNaN_ofSign {bits : Nat} (h : bits ≤ infinityBits) : (ofSign false bits).isNaN = false := by
  rw [Float.isNaN_eq_decide_eq_nan, decide_eq_false_iff_not]
  intro hnan
  rw [← toBits_ofSign h, hnan] at h
  exact absurd h (by decide +kernel)

theorem lt_infinityBits_of_isFinite {bits : Nat} (h : bits ≤ infinityBits)
    (hfinite : (ofSign false bits).isFinite = true) : bits < infinityBits := by
  apply Nat.lt_of_le_of_ne h
  rintro rfl
  exact absurd hfinite (by decide +kernel)

end Bits

theorem text_ofSign {bits : Nat} (h : bits < infinityBits) :
    text (ofSign false bits) = String.ofList ((shortest bits).positional false) := by
  have hbits := toBits_ofSign (Nat.le_of_lt h)
  have hsmall : bits < signBit := Nat.lt_trans h (by decide)
  have hmagnitude : magnitudeBits (ofSign false bits) = bits := by
    rw [magnitudeBits, hbits, Nat.mod_eq_of_lt hsmall]
  have hsign : isNegative (ofSign false bits) = false := by
    rw [isNegative, hbits, decide_eq_false_iff_not]
    exact Nat.not_le_of_lt hsmall
  simp only [text, render, isNaN_ofSign (Nat.le_of_lt h), hmagnitude, hsign, Nat.ne_of_lt h,
    Bool.false_eq_true, if_false]
  rfl

/-- The text of a finite double is a numeral and reads as the double. -/
theorem numeral_text {bits : Nat} (h : bits < infinityBits) :
    Numeral (text (ofSign false bits)).toList ∧
      ofText (text (ofSign false bits)) = .ok (ofSign false bits) := by
  have hpositional := (shortest bits).numeral_positional
  rw [nearest_shortest h] at hpositional
  rw [text_ofSign h, String.toList_ofList]
  exact hpositional

/-- Numerals read as doubles without a sign. -/
theorem Numeral.exists_bits {cs : List Char} (h : Numeral cs) {x : Float}
    (hx : ofText (String.ofList cs) = .ok x) : ∃ bits ≤ infinityBits, x = ofSign false bits := by
  cases h with
  | whole h =>
    rw [ofText_whole h] at hx
    cases hx
    exact ⟨_, Decimal.nearest_le _, rfl⟩
  | fraction hw hf =>
    rw [ofText_fraction hw hf] at hx
    cases hx
    exact ⟨_, Decimal.nearest_le _, rfl⟩

/-- A number that was read from a numeral, unless the numeral is too large, is written as a
numeral that reads as the same number. -/
theorem Numeral.numeral_text {cs : List Char} (h : Numeral cs) {x : Float}
    (hx : ofText (String.ofList cs) = .ok x) (hfinite : x.isFinite = true) :
    Numeral (text x).toList ∧ ofText (text x) = .ok x := by
  obtain ⟨bits, hbits, rfl⟩ := h.exists_bits hx
  exact Number.numeral_text (lt_infinityBits_of_isFinite hbits hfinite)

end GridRover.Number
