import GridRover.Text.Basic
import Mathlib.Data.List.TakeWhile

/-!
# Blanks around a text and names at its start

A text without the blanks at one of its ends is what is left when a run of blanks is
split off there and none follows. The longest name at the start is split off likewise.
-/
namespace GridRover.Text

/-- The text does not go on with a character of the given kind. -/
def Stops (kind : Char → Bool) (rest : List Char) : Prop :=
  ∀ c, rest.head? = some c → kind c = false

theorem stops_nil (kind : Char → Bool) : Stops kind [] := by simp [Stops]

theorem stops_cons {kind : Char → Bool} {c : Char} {cs : List Char} :
    Stops kind (c :: cs) ↔ kind c = false := by simp [Stops]

theorem stops_dropWhile (kind : Char → Bool) (cs : List Char) :
    Stops kind (cs.dropWhile kind) := by
  intro c hc
  have hhead := List.head?_dropWhile_not kind cs
  simpa [hc] using hhead

theorem dropWhile_of_stops {kind : Char → Bool} {front rest : List Char}
    (hfront : ∀ c ∈ front, kind c = true) (hrest : Stops kind rest) :
    (front ++ rest).dropWhile kind = rest := by
  rw [List.dropWhile_append_of_pos hfront]
  cases rest with
  | nil => rfl
  | cons c rest => simp [stops_cons.mp hrest]

theorem takeWhile_of_stops {kind : Char → Bool} {front rest : List Char}
    (hfront : ∀ c ∈ front, kind c = true) (hrest : Stops kind rest) :
    (front ++ rest).takeWhile kind = front := by
  rw [List.takeWhile_append_of_pos hfront]
  cases rest with
  | nil => simp
  | cons c rest => simp [stops_cons.mp hrest]

/-- A run of one kind and what stops it are told apart by the text they make. -/
theorem append_inj_of_stops {kind : Char → Bool} {front rest run more : List Char}
    (hfront : ∀ c ∈ front, kind c = true) (hrest : Stops kind rest)
    (hrun : ∀ c ∈ run, kind c = true) (hmore : Stops kind more)
    (h : front ++ rest = run ++ more) : front = run ∧ rest = more := by
  constructor
  · rw [← takeWhile_of_stops hfront hrest, h, takeWhile_of_stops hrun hmore]
  · rw [← dropWhile_of_stops hfront hrest, h, dropWhile_of_stops hrun hmore]

/-- A run of one kind does not reach beyond the place where the text stops being of the kind. -/
theorem length_le_of_stops {kind : Char → Bool} {front rest run : List Char}
    (hrest : Stops kind rest) (hrun : ∀ c ∈ run, kind c = true) (h : run <+: front ++ rest) :
    run.length ≤ front.length := by
  obtain ⟨tail, ht⟩ := h
  rcases List.append_eq_append_iff.mp ht with ⟨more, hfront, -⟩ | ⟨more, rfl, hmore⟩
  · rw [hfront, List.length_append]
    exact Nat.le_add_right ..
  · cases more with
    | nil => rw [List.append_nil]
    | cons c more =>
      have hkind := hrun c (by simp)
      rw [hrest c (by rw [hmore]; rfl)] at hkind
      cases hkind

/-- Nothing but blanks. -/
def Blanks (cs : List Char) : Prop := ∀ c ∈ cs, isBlank c = true

/-- No blank comes first. -/
def StartsSolid (cs : List Char) : Prop := Stops isBlank cs

/-- No blank comes last. -/
def EndsSolid (cs : List Char) : Prop := ∀ c, cs.getLast? = some c → isBlank c = false

theorem blanks_nil : Blanks [] := by simp [Blanks]

theorem blanks_append {w v : List Char} : Blanks (w ++ v) ↔ Blanks w ∧ Blanks v := by
  simp only [Blanks, List.mem_append, or_imp, forall_and]

theorem startsSolid_nil : StartsSolid [] := stops_nil isBlank

theorem endsSolid_nil : EndsSolid [] := by simp [EndsSolid]

theorem startsSolid_cons {c : Char} {cs : List Char} :
    StartsSolid (c :: cs) ↔ isBlank c = false := stops_cons

theorem endsSolid_concat {c : Char} {cs : List Char} :
    EndsSolid (cs ++ [c]) ↔ isBlank c = false := by simp [EndsSolid]

theorem startsSolid_append {cs : List Char} (h : cs ≠ []) (more : List Char) :
    StartsSolid (cs ++ more) ↔ StartsSolid cs := by
  cases cs with
  | nil => exact absurd rfl h
  | cons c cs => simp only [List.cons_append, startsSolid_cons]

theorem endsSolid_append {cs : List Char} (h : cs ≠ []) (more : List Char) :
    EndsSolid (more ++ cs) ↔ EndsSolid cs := by
  have hlast : (more ++ cs).getLast? = cs.getLast? := by
    simp [List.getLast?_append, List.getLast?_eq_some_getLast h]
  simp only [EndsSolid, hlast]

theorem eq_nil_of_endsSolid {front w : List Char} (hw : Blanks w)
    (h : EndsSolid (front ++ w)) : w = [] := by
  by_contra hne
  rw [endsSolid_append hne] at h
  have hsolid := h (w.getLast hne) (List.getLast?_eq_some_getLast hne)
  rw [hw _ (List.getLast_mem hne)] at hsolid
  cases hsolid

theorem startsSolid_reverse {cs : List Char} : StartsSolid cs.reverse ↔ EndsSolid cs := by
  simp only [StartsSolid, Stops, EndsSolid, List.head?_reverse]

theorem trimStart_eq_iff {cs rest : List Char} :
    trimStart cs = rest ↔ StartsSolid rest ∧ ∃ w, Blanks w ∧ cs = w ++ rest := by
  constructor
  · rintro rfl
    exact ⟨stops_dropWhile isBlank cs, cs.takeWhile isBlank,
      fun c hc => List.mem_takeWhile_imp hc, List.takeWhile_append_dropWhile.symm⟩
  · rintro ⟨hrest, w, hw, rfl⟩
    exact dropWhile_of_stops hw hrest

theorem trimEnd_eq_iff {cs rest : List Char} :
    trimEnd cs = rest ↔ EndsSolid rest ∧ ∃ w, Blanks w ∧ cs = rest ++ w := by
  have hreverse : trimEnd cs = rest ↔ trimStart cs.reverse = rest.reverse := by
    rw [trimEnd, trimStart, ← List.reverse_inj, List.reverse_reverse]
  rw [hreverse, trimStart_eq_iff, startsSolid_reverse]
  refine and_congr_right fun _ => ⟨?_, ?_⟩
  · rintro ⟨w, hw, hcs⟩
    refine ⟨w.reverse, by simpa [Blanks] using hw, ?_⟩
    rw [← List.reverse_inj, hcs]
    simp
  · rintro ⟨w, hw, rfl⟩
    exact ⟨w.reverse, by simpa [Blanks] using hw, by simp⟩

/-- The second text is the first one without the blanks around it. -/
structure Strips (cs inner : List Char) : Prop where
  starts : StartsSolid inner
  ends : EndsSolid inner
  around : ∃ w v, Blanks w ∧ Blanks v ∧ cs = w ++ inner ++ v

/-- The blanks before the inner text may stay with it. -/
theorem Strips.exists_front {cs inner : List Char} (h : Strips cs inner) (hne : inner ≠ []) :
    ∃ front v, Strips front inner ∧ front ≠ [] ∧ EndsSolid front ∧ Blanks v ∧
      cs = front ++ v := by
  obtain ⟨w, v, hw, hv, rfl⟩ := h.around
  refine ⟨w ++ inner, v, ⟨h.starts, h.ends, w, [], hw, blanks_nil, by simp⟩, by simp [hne],
    (endsSolid_append hne w).mpr h.ends, hv, rfl⟩

theorem trim_eq_iff {cs inner : List Char} : trim cs = inner ↔ Strips cs inner := by
  constructor
  · intro h
    obtain ⟨hend, v, hv, hstart⟩ := trimEnd_eq_iff.mp h
    obtain ⟨hsolid, w, hw, hcs⟩ := trimStart_eq_iff.mp hstart
    refine ⟨?_, hend, w, v, hw, hv, by rw [hcs, List.append_assoc]⟩
    by_cases hnil : inner = []
    · rw [hnil]
      exact startsSolid_nil
    · exact (startsSolid_append hnil v).mp hsolid
  · rintro ⟨hstart, hend, w, v, hw, hv, rfl⟩
    by_cases hnil : inner = []
    · subst hnil
      have hblank : trimStart (w ++ [] ++ v) = [] :=
        trimStart_eq_iff.mpr ⟨startsSolid_nil, w ++ v, blanks_append.mpr ⟨hw, hv⟩, by simp⟩
      rw [trim, hblank]
      rfl
    · have hfront : trimStart (w ++ inner ++ v) = inner ++ v :=
        trimStart_eq_iff.mpr
          ⟨(startsSolid_append hnil v).mpr hstart, w, hw, List.append_assoc ..⟩
      rw [trim, hfront]
      exact trimEnd_eq_iff.mpr ⟨hend, v, hv, rfl⟩

theorem trim_eq_nil_iff {cs : List Char} : trim cs = [] ↔ Blanks cs := by
  rw [trim_eq_iff]
  constructor
  · rintro ⟨-, -, w, v, hw, hv, rfl⟩
    simpa using blanks_append.mpr ⟨hw, hv⟩
  · intro h
    exact ⟨startsSolid_nil, endsSolid_nil, cs, [], h, blanks_nil, by simp⟩

/-- A name is split off where it is as long as it can be. -/
theorem splitName?_eq_some_iff {cs name rest : List Char} :
    splitName? cs = some (name, rest) ↔
      isName name = true ∧ Stops isNameChar rest ∧ cs = name ++ rest := by
  constructor
  · intro h
    cases cs with
    | nil => cases h
    | cons c cs =>
      simp only [splitName?] at h
      split at h
      · rename_i hc
        cases h
        refine ⟨?_, stops_dropWhile isNameChar cs, by simp⟩
        simp only [isName, hc, Bool.true_and, List.all_eq_true]
        exact fun d hd => List.mem_takeWhile_imp hd
      · cases h
  · rintro ⟨hname, hrest, rfl⟩
    cases name with
    | nil => cases hname
    | cons c cs =>
      simp only [isName, Bool.and_eq_true, List.all_eq_true] at hname
      simp only [List.cons_append, splitName?, hname.1, if_true, takeWhile_of_stops hname.2 hrest,
        dropWhile_of_stops hname.2 hrest]

theorem isNameChar_of_isNameStart {c : Char} (h : isNameStart c = true) :
    isNameChar c = true := by
  simp only [isNameStart, isNameChar, Char.isAlphanum, Bool.or_eq_true] at h ⊢
  rcases h with h | h
  · exact .inl (.inl h)
  · exact .inr h

theorem isNameChar_of_isDigit {c : Char} (h : c.isDigit = true) : isNameChar c = true := by
  simp [isNameChar, Char.isAlphanum, h]

theorem isDigit_eq_false_of_isNameStart {c : Char} (h : isNameStart c = true) :
    c.isDigit = false := by
  have hcode : 0x41 ≤ c.toNat := by
    delta isNameStart Char.isAlpha Char.isUpper Char.isLower at h
    simp only [Bool.or_eq_true, Bool.and_eq_true, decide_eq_true_eq, ge_iff_le,
      UInt32.le_iff_toNat_le, beq_iff_eq] at h
    rcases h with (h | h) | rfl
    · exact h.1
    · exact le_trans (by decide) h.1
    · decide
  by_contra hdigit
  rw [Bool.not_eq_false] at hdigit
  delta Char.isDigit at hdigit
  rw [Bool.and_eq_true, decide_eq_true_iff, decide_eq_true_iff] at hdigit
  exact absurd (le_trans hcode hdigit.2) (by decide)

/-- Names by their letters, digits and underscores. -/
theorem isName_iff {cs : List Char} :
    isName cs = true ↔ ∃ c rest, cs = c :: rest ∧ (c.isAlpha = true ∨ c = '_') ∧
      ∀ d ∈ rest, d.isAlphanum = true ∨ d = '_' := by
  cases cs with
  | nil => simp [isName]
  | cons c rest =>
    simp only [isName, isNameStart, isNameChar, Bool.and_eq_true, Bool.or_eq_true, beq_iff_eq,
      List.all_eq_true]
    constructor
    · rintro ⟨hc, hrest⟩
      exact ⟨c, rest, rfl, hc, hrest⟩
    · rintro ⟨_, _, ⟨⟩, hc, hrest⟩
      exact ⟨hc, hrest⟩

theorem isNameChar_of_mem {name : List Char} (h : isName name = true) {c : Char}
    (hc : c ∈ name) : isNameChar c = true := by
  cases name with
  | nil => cases hc
  | cons d name =>
    simp only [isName, Bool.and_eq_true, List.all_eq_true] at h
    rcases List.mem_cons.mp hc with rfl | hc
    · exact isNameChar_of_isNameStart h.1
    · exact h.2 c hc

theorem isName_append {name more : List Char} (h : isName name = true)
    (hmore : ∀ c ∈ more, isNameChar c = true) : isName (name ++ more) = true := by
  cases name with
  | nil => cases h
  | cons c name =>
    simp only [isName, Bool.and_eq_true, List.all_eq_true] at h
    simp only [List.cons_append, isName, h.1, Bool.true_and, List.all_eq_true, List.mem_append]
    rintro d (hd | hd)
    · exact h.2 d hd
    · exact hmore d hd

theorem isBlank_of_isNameChar {c : Char} (h : isNameChar c = true) : isBlank c = false := by
  have hcode : 0x30 ≤ c.toNat ∧ c.toNat ≤ 0x7A := by
    delta isNameChar Char.isAlphanum Char.isAlpha Char.isUpper Char.isLower Char.isDigit at h
    simp only [Bool.or_eq_true, Bool.and_eq_true, decide_eq_true_eq, ge_iff_le,
      UInt32.le_iff_toNat_le, beq_iff_eq] at h
    rcases h with ((h | h) | h) | rfl
    · exact ⟨le_trans (by decide) h.1, le_trans h.2 (by decide)⟩
    · exact ⟨le_trans (by decide) h.1, le_trans h.2 (by decide)⟩
    · exact ⟨le_trans (by decide) h.1, le_trans h.2 (by decide)⟩
    · decide
  simp only [isBlank, Bool.or_eq_false_iff, Bool.and_eq_false_iff, decide_eq_false_iff_not,
    beq_eq_false_iff_ne]
  omega

theorem ne_nil_of_isName {name : List Char} (h : isName name = true) : name ≠ [] := by
  rintro rfl
  cases h

theorem startsSolid_name {name : List Char} (h : isName name = true) (rest : List Char) :
    StartsSolid (name ++ rest) := by
  rw [startsSolid_append (ne_nil_of_isName h)]
  exact fun _ hc => isBlank_of_isNameChar (isNameChar_of_mem h (List.mem_of_head? hc))

theorem endsSolid_name {name : List Char} (h : isName name = true) (front : List Char) :
    EndsSolid (front ++ name) := by
  rw [endsSolid_append (ne_nil_of_isName h)]
  exact fun _ hc => isBlank_of_isNameChar (isNameChar_of_mem h (List.mem_of_getLast? hc))

theorem isNameChar_of_mem_blanks {w : List Char} (hw : Blanks w) {c : Char} (hc : c ∈ w) :
    isNameChar c = false := by
  by_contra hname
  have hsolid := isBlank_of_isNameChar (Bool.of_not_eq_false hname)
  rw [hw c hc] at hsolid
  cases hsolid

theorem stops_gap {w : List Char} (hw : Blanks w) (hgap : w ≠ []) (rest : List Char) :
    Stops isNameChar (w ++ rest) := by
  cases w with
  | nil => exact absurd rfl hgap
  | cons c w => exact stops_cons.mpr (isNameChar_of_mem_blanks hw (List.mem_cons_self ..))

theorem stops_blanks {w rest : List Char} (hw : Blanks w) (hrest : Stops isNameChar rest) :
    Stops isNameChar (w ++ rest) := by
  by_cases hgap : w = []
  · rwa [hgap]
  · exact stops_gap hw hgap rest

theorem any_isBlank_head?_append {w rest : List Char} (hw : Blanks w)
    (hrest : StartsSolid rest) : (w ++ rest).head?.any isBlank = true ↔ w ≠ [] := by
  cases w with
  | nil =>
    cases rest with
    | nil => simp
    | cons c rest => simp [startsSolid_cons.mp hrest]
  | cons c w => simp [hw c (List.mem_cons_self ..)]

end GridRover.Text
