import GridRover.Number.Literal
import GridRover.Proofs.Text

/-!
# Numerals

A numeral is a run of digits, with a point and a second run behind it or without. The
reader of the wider notation accepts every numeral and gives it the same value as the
reader that is handed the two runs apart.
-/
namespace GridRover.Number

open Text

/-- Nothing but decimal digits, and at least one of them. -/
structure Digits (cs : List Char) : Prop where
  ne_nil : cs ≠ []
  isDigit : ∀ c ∈ cs, c.isDigit = true

/-- Digits, with a point and more digits or without. -/
inductive Numeral : List Char → Prop
  | whole {digits : List Char} (h : Digits digits) : Numeral digits
  | fraction {whole fraction : List Char} (hw : Digits whole) (hf : Digits fraction) :
    Numeral (whole ++ '.' :: fraction)

theorem Digits.exists_cons {cs : List Char} (h : Digits cs) :
    ∃ c rest, cs = c :: rest ∧ c.isDigit = true := by
  cases cs with
  | nil => exact absurd rfl h.ne_nil
  | cons c rest => exact ⟨c, rest, rfl, h.isDigit c List.mem_cons_self⟩

theorem Digits.concat {digits : List Char} (h : Digits digits) {c : Char}
    (hc : c.isDigit = true) : Digits (digits ++ [c]) := by
  refine ⟨by simp, ?_⟩
  intro d hd
  rcases List.mem_append.mp hd with hd | hd
  · exact h.isDigit d hd
  · rwa [List.mem_singleton.mp hd]

theorem digits_singleton {c : Char} (h : c.isDigit = true) : Digits [c] :=
  ⟨List.cons_ne_nil c [], by simpa using h⟩

theorem Numeral.exists_cons {cs : List Char} (h : Numeral cs) :
    ∃ c rest, cs = c :: rest ∧ c.isDigit = true := by
  cases h with
  | whole h => exact h.exists_cons
  | fraction hw hf =>
    obtain ⟨c, rest, rfl, hc⟩ := hw.exists_cons
    exact ⟨c, _, List.cons_append, hc⟩

theorem Numeral.isDigit_or_point {cs : List Char} (h : Numeral cs) {c : Char} (hc : c ∈ cs) :
    c.isDigit = true ∨ c = '.' := by
  cases h with
  | whole h => exact .inl (h.isDigit c hc)
  | fraction hw hf =>
    rcases List.mem_append.mp hc with hc | hc
    · exact .inl (hw.isDigit c hc)
    · rcases List.mem_cons.mp hc with rfl | hc
      · exact .inr rfl
      · exact .inl (hf.isDigit c hc)

/-- The digits after the point never move the exponent out of its bounds. -/
theorem boundedExponent_fraction {digits places : Nat} (h : places ≤ digits) :
    boundedExponent digits (0 - places) = -(places : Int) := by
  simp only [boundedExponent]
  omega

theorem toLower_of_isDigit {c : Char} (h : c.isDigit = true) : c.toLower = c := by
  delta Char.isDigit at h
  rw [Bool.and_eq_true, decide_eq_true_iff, decide_eq_true_iff] at h
  apply dif_neg
  intro hupper
  exact absurd (UInt32.le_trans hupper.1 h.2) (by decide)

theorem namedMagnitude?_of_isDigit {c : Char} (h : c.isDigit = true) (cs : List Char) :
    namedMagnitude? (c :: cs) = none := by
  have hword (word : String) (hw : word.toList.head?.all (fun d => !d.isDigit) = true) :
      String.ofList ((c :: cs).map Char.toLower) ≠ word := by
    intro heq
    rw [← heq, String.toList_ofList, List.map_cons, toLower_of_isDigit h] at hw
    simp [h] at hw
  simp only [namedMagnitude?, hword "inf" (by decide), hword "infinity" (by decide),
    hword "nan" (by decide), or_self, if_false]

theorem magnitudeOf?_whole {whole : List Char} (h : Digits whole) :
    magnitudeOf? whole = some (Decimal.nearest ⟨naturalOf whole, 0⟩) := by
  have htake := takeWhile_of_stops h.isDigit (stops_nil _)
  have hdrop := dropWhile_of_stops h.isDigit (stops_nil _)
  rw [List.append_nil] at htake hdrop
  have hbound := boundedExponent_fraction (Nat.zero_le whole.length)
  simp only [magnitudeOf?, htake, hdrop, exponentOf?, List.append_nil, h.ne_nil, if_false,
    Option.bind_eq_bind, Option.bind_some, List.length_nil, hbound]
  rfl

theorem magnitudeOf?_fraction {whole fraction : List Char} (hw : Digits whole)
    (hf : Digits fraction) :
    magnitudeOf? (whole ++ '.' :: fraction) =
      some (Decimal.nearest ⟨naturalOf (whole ++ fraction), -(fraction.length : Int)⟩) := by
  have hpoint : Stops Char.isDigit ('.' :: fraction) := stops_cons.mpr (by decide)
  have htake := takeWhile_of_stops hw.isDigit hpoint
  have hdrop := dropWhile_of_stops hw.isDigit hpoint
  have htake' := takeWhile_of_stops hf.isDigit (stops_nil _)
  have hdrop' := dropWhile_of_stops hf.isDigit (stops_nil _)
  rw [List.append_nil] at htake' hdrop'
  have hne : whole ++ fraction ≠ [] := List.append_ne_nil_of_left_ne_nil hw.ne_nil fraction
  have hlen : fraction.length ≤ (whole ++ fraction).length := by simp
  simp only [magnitudeOf?, htake, hdrop, htake', hdrop', exponentOf?, hne, if_false,
    Option.bind_eq_bind, Option.bind_some, boundedExponent_fraction hlen]

/-- Before a digit there is neither a sign nor a word to read. -/
theorem ofText_of_isDigit {c : Char} {cs : List Char} (h : c.isDigit = true) {bits : Nat}
    (hbits : magnitudeOf? (c :: cs) = some bits) :
    ofText (String.ofList (c :: cs)) = .ok (ofSign false bits) := by
  have hminus : c ≠ '-' := by
    rintro rfl
    exact absurd h (by decide)
  have hplus : c ≠ '+' := by
    rintro rfl
    exact absurd h (by decide)
  simp [ofText, String.toList_ofList, hminus, hplus, namedMagnitude?_of_isDigit h, hbits]

theorem ofText_whole {whole : List Char} (h : Digits whole) :
    ofText (String.ofList whole) = .ok (ofDigits whole []) := by
  have hbits := magnitudeOf?_whole h
  obtain ⟨c, rest, rfl, hc⟩ := h.exists_cons
  rw [ofText_of_isDigit hc hbits, ofDigits, List.append_nil]
  rfl

theorem ofText_fraction {whole fraction : List Char} (hw : Digits whole) (hf : Digits fraction) :
    ofText (String.ofList (whole ++ '.' :: fraction)) = .ok (ofDigits whole fraction) := by
  have hbits := magnitudeOf?_fraction hw hf
  obtain ⟨c, rest, rfl, hc⟩ := hw.exists_cons
  rw [List.cons_append] at hbits ⊢
  rw [ofText_of_isDigit hc hbits, ofDigits]

/-- Every numeral reads as a number. -/
theorem Numeral.exists_ofText {cs : List Char} (h : Numeral cs) :
    ∃ x, ofText (String.ofList cs) = .ok x := by
  cases h with
  | whole h => exact ⟨_, ofText_whole h⟩
  | fraction hw hf => exact ⟨_, ofText_fraction hw hf⟩

end GridRover.Number
