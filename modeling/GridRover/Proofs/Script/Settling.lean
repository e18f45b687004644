import GridRover.Proofs.Script.Atomicity
import GridRover.Proofs.Script.Itinerary
import Mathlib.Algebra.Order.BigOperators.Group.Finset

/-!
# How soon a run is settled

A run comes to its end by the step after as many steps as the program has lines, since no
line runs twice before it: a course that comes back to a line never leaves the loop. It
fails within twice as many steps, since a line that has run twice is no declaration and
cannot fail any more. A run that does neither goes on forever.
-/
namespace GridRover.Script.Machine

variable {m : Machine}

theorem exists_line_of_running (h : m.advance.2 = .ok .running) :
    ∃ text change, m.program[m.counter]? = some text ∧ m.plan text = .ok change ∧
      m.advance.1 = m.perform change := by
  cases hadvance : m.advance with
  | mk next result =>
    rw [hadvance] at h
    cases advances_of_eq hadvance with
    | idle hs => cases h
    | finish hs hl => cases h
    | fail hs hl hp => cases h
    | perform hs hl hp => exact ⟨_, _, hl, hp, rfl⟩

namespace RunsFor

variable {n : Nat}

/-- As long as it runs, a machine keeps its program and follows its course. -/
theorem after_eq (h : m.RunsFor n) :
    (m.after n).program = m.program ∧ (m.after n).counter = m.course n ∧
      (m.after n).status = m.status := by
  induction n with
  | zero => exact ⟨rfl, rfl, rfl⟩
  | succ n ih =>
    obtain ⟨hprogram, hcounter, hstatus⟩ := ih (h.mono n.le_succ)
    obtain ⟨text, change, hl, hp, hnext⟩ := exists_line_of_running (h n n.lt_succ_self)
    rw [after_succ, hnext, perform_program, perform_status, perform_counter hl hp, course_succ,
      hprogram, hcounter]
    exact ⟨rfl, rfl, hstatus⟩

theorem line (h : m.RunsFor n) {i : Nat} (hi : i < n) :
    ∃ text change, m.program[m.course i]? = some text ∧ (m.after i).plan text = .ok change ∧
      m.after (i + 1) = (m.after i).perform change := by
  obtain ⟨hprogram, hcounter, -⟩ := (h.mono (Nat.le_of_lt hi)).after_eq
  obtain ⟨text, change, hl, hp, hnext⟩ := exists_line_of_running (h i hi)
  rw [hprogram, hcounter] at hl
  exact ⟨text, change, hl, hp, after_succ m i ▸ hnext⟩

theorem course_lt (h : m.RunsFor n) {i : Nat} (hi : i < n) : m.course i < m.program.length := by
  obtain ⟨text, -, hl, -, -⟩ := h.line hi
  exact (List.getElem?_eq_some_iff.mp hl).1

/-- No line runs twice before the course leaves the program: a second visit would lead back
to the end that the first one missed. -/
theorem course_ne (h : m.RunsFor n) (hend : m.program[m.course n]? = none) {i j : Nat}
    (hij : i < j) (hj : j < n) : m.course i ≠ m.course j := by
  intro heq
  have hshift := course_shift heq (n - j)
  rw [Nat.add_sub_cancel' (Nat.le_of_lt hj)] at hshift
  have hearlier : i + (n - j) < n := by omega
  obtain ⟨text, -, hl, -, -⟩ := h.line hearlier
  rw [hshift, hend] at hl
  cases hl

theorem le_length (h : m.RunsFor n) (hend : m.program[m.course n]? = none) :
    n ≤ m.program.length := by
  have hcard := Finset.card_le_card_of_injOn (s := Finset.range n)
    (t := Finset.range m.program.length) m.course
    (fun i hi => by simpa using h.course_lt (by simpa using hi))
    (fun i hi j hj heq => by
      have hi' : i < n := by simpa using hi
      have hj' : j < n := by simpa using hj
      rcases Nat.lt_trichotomy i j with hlt | rfl | hlt
      · exact absurd heq (h.course_ne hend hlt hj')
      · rfl
      · exact absurd heq.symm (h.course_ne hend hlt hi'))
  simpa using hcard

section Revisit

variable {text : String} {cause : Cause}

theorem plan_of_declaration (h : m.RunsFor n) {i : Nat} (hi : i < n)
    (hl : m.program[m.course i]? = some text) {name : String}
    (hd : declaredName? text = some name) : (m.after n).plan text = .error (.duplicate name) := by
  obtain ⟨other, change, hl', hp, hnext⟩ := h.line hi
  obtain rfl : text = other := Option.some.inj (hl ▸ hl')
  refine plan_again_of_declaration hd hp fun other hother => ?_
  rw [← hnext] at hother
  exact contains_after hi hother

theorem plan_of_other (h : m.RunsFor n) {i : Nat} (hi : i < n)
    (hl : m.program[m.course i]? = some text) (hd : declaredName? text = none) :
    ∃ again, (m.after n).plan text = .ok again := by
  obtain ⟨other, change, hl', hp, -⟩ := h.line hi
  obtain rfl : text = other := Option.some.inj (hl ▸ hl')
  have hi' := (h.mono (Nat.le_of_lt hi)).after_eq.1
  exact plan_again_of_other hd hp (h.after_eq.1.trans hi'.symm)
    fun other hother => contains_after (Nat.le_of_lt hi) hother

/-- A line that ran and fails later is a declaration. -/
theorem declares_of_failure (h : m.RunsFor n) (hl : m.program[m.course n]? = some text)
    (hf : (m.after n).plan text = .error cause) {i : Nat} (hi : i < n)
    (hc : m.course i = m.course n) :
    ∃ name, declaredName? text = some name ∧ cause = .duplicate name := by
  cases hd : declaredName? text with
  | none =>
    obtain ⟨again, hagain⟩ := h.plan_of_other hi (hc ▸ hl) hd
    rw [hf] at hagain
    cases hagain
  | some name =>
    have hduplicate := h.plan_of_declaration hi (hc ▸ hl) hd
    rw [hf] at hduplicate
    exact ⟨name, rfl, Except.error.inj hduplicate⟩

/-- The course does not come to a line three times before a failure: the failing line would
be a declaration that ran twice. -/
theorem not_thrice (h : m.RunsFor n) (hl : m.program[m.course n]? = some text)
    (hf : (m.after n).plan text = .error cause) {i j k : Nat} (hij : i < j) (hjk : j < k)
    (hk : k ≤ n) (hfirst : m.course i = m.course j) (hsecond : m.course j = m.course k) :
    False := by
  have hc := course_shift hsecond (n - k)
  rw [Nat.add_sub_cancel' hk] at hc
  have hc' : m.course (i + (n - k)) = m.course n := (course_shift hfirst (n - k)).trans hc
  obtain ⟨name, hd, -⟩ := h.declares_of_failure hl hf (by omega) hc
  have hran := h.mono (show j + (n - k) ≤ n by omega)
  have hduplicate := hran.plan_of_declaration (show i + (n - k) < j + (n - k) by omega)
    (hc' ▸ hl) hd
  obtain ⟨other, change, hl', hp, -⟩ := h.line (show j + (n - k) < n by omega)
  obtain rfl : text = other := Option.some.inj ((hc ▸ hl').symm ▸ hl).symm
  rw [hduplicate] at hp
  cases hp

theorem lt_of_failure (h : m.RunsFor n) (hl : m.program[m.course n]? = some text)
    (hf : (m.after n).plan text = .error cause) : n < 2 * m.program.length := by
  have hmaps : ∀ i ∈ Finset.range (n + 1), m.course i ∈ Finset.range m.program.length := by
    intro i hi
    rcases Nat.lt_succ_iff_lt_or_eq.mp (Finset.mem_range.mp hi) with hlt | rfl
    · exact Finset.mem_range.mpr (h.course_lt hlt)
    · exact Finset.mem_range.mpr (List.getElem?_eq_some_iff.mp hl).1
  have hvisits : ∀ line ∈ Finset.range m.program.length,
      ((Finset.range (n + 1)).filter fun i => m.course i = line).card ≤ 2 := by
    intro line _
    by_contra hmore
    obtain ⟨i, hi, j, hj, k, hk, hij, hik, hjk⟩ := Finset.two_lt_card.mp (Nat.lt_of_not_le hmore)
    simp only [Finset.mem_filter, Finset.mem_range] at hi hj hk
    have hsorted : (i < j ∧ j < k) ∨ (i < k ∧ k < j) ∨ (j < i ∧ i < k) ∨ (j < k ∧ k < i) ∨
        (k < i ∧ i < j) ∨ (k < j ∧ j < i) := by omega
    rcases hsorted with ⟨h₁, h₂⟩ | ⟨h₁, h₂⟩ | ⟨h₁, h₂⟩ | ⟨h₁, h₂⟩ | ⟨h₁, h₂⟩ | ⟨h₁, h₂⟩ <;>
      exact h.not_thrice hl hf h₁ h₂ (by omega) (by simp only [hi.2, hj.2, hk.2])
        (by simp only [hi.2, hj.2, hk.2])
  have hcard := Finset.card_le_mul_card_image_of_maps_to hmaps 2 hvisits
  exact Nat.lt_of_succ_le (by simpa using hcard)

end Revisit

end RunsFor

/-- A run that does not go on forever has a first step that does not leave it running. -/
theorem exists_first {k : Nat} (h : m.result k ≠ .ok .running) :
    ∃ n ≤ k, m.StopsAfter n := by
  classical
  have hex : ∃ n, m.result n ≠ .ok .running := ⟨k, h⟩
  refine ⟨Nat.find hex, Nat.find_min' hex h, fun i hi => ?_, Nat.find_spec hex⟩
  exact not_not.mp (Nat.find_min hex hi)

theorem runsFor_of_not_stopsAfter {k : Nat} (h : ∀ n < k, ¬ m.StopsAfter n) : m.RunsFor k := by
  intro i hi
  by_contra hresult
  obtain ⟨n, hle, hstops⟩ := exists_first hresult
  exact h n (by omega) hstops

/-- What the first step that does not leave the machine running comes to. -/
theorem first_cases {n : Nat} (hs : m.status = .running) (h : m.StopsAfter n) :
    (m.result n = .ok .completed ∧ m.program[m.course n]? = none) ∨
      ∃ text cause, m.result n = .error ⟨m.course n + 1, text, cause⟩ ∧
        m.program[m.course n]? = some text ∧ (m.after n).plan text = .error cause := by
  obtain ⟨hruns, hn⟩ := h
  obtain ⟨hprogram, hcounter, hstatus⟩ := hruns.after_eq
  have hstep := advances_of_eq (advance_after m n)
  generalize m.result n = result at hstep hn ⊢
  generalize m.after (n + 1) = next at hstep
  rw [← hprogram, ← hcounter]
  cases hstep with
  | idle hc =>
    rw [hstatus, hs] at hc
    cases hc
  | finish hr hl => exact .inl ⟨rfl, hl⟩
  | fail hr hl hp => exact .inr ⟨_, _, rfl, hl, hp⟩
  | perform hr hl hp => exact absurd rfl hn

/-- Once a step has not left the machine running, every further step repeats it. -/
theorem advance_settled (h : m.advance.2 ≠ .ok .running) : m.advance.1.advance = m.advance := by
  cases hadvance : m.advance with
  | mk next result =>
    rw [hadvance] at h
    cases advances_of_eq hadvance with
    | idle hs => exact hadvance
    | finish hs hl => rfl
    | fail hs hl hp => exact hadvance
    | perform hs hl hp => exact absurd rfl h

theorem advance_after_settled {n k : Nat} (h : m.result n ≠ .ok .running) (hk : n ≤ k) :
    (m.after k).advance = (m.after (n + 1), m.result n) := by
  induction hk with
  | refl => exact advance_after m n
  | @step k hk ih =>
    have hsettled := advance_settled (show (m.after k).advance.2 ≠ .ok .running by rwa [ih])
    rw [after_succ, hsettled, ih]

theorem result_settled {n k : Nat} (h : m.result n ≠ .ok .running) (hk : n ≤ k) :
    m.result k = m.result n := by
  rw [result, advance_after_settled h hk]

/-- A run that ends or fails does so within the bounds that its length sets. -/
theorem exists_first_within {k : Nat} (hs : m.status = .running)
    (h : m.result k ≠ .ok .running) :
    ∃ n, m.RunsFor n ∧ m.result n = m.result k ∧
      ((m.result n = .ok .completed ∧ m.program[m.course n]? = none ∧ n ≤ m.program.length) ∨
        ∃ text cause, m.result n = .error ⟨m.course n + 1, text, cause⟩ ∧
          m.program[m.course n]? = some text ∧ (m.after n).plan text = .error cause ∧
          n < 2 * m.program.length) := by
  obtain ⟨n, hk, hruns, hn⟩ := exists_first h
  refine ⟨n, hruns, (result_settled hn hk).symm, ?_⟩
  rcases first_cases hs ⟨hruns, hn⟩ with ⟨hc, hend⟩ | ⟨text, cause, hf, hl, hp⟩
  · exact .inl ⟨hc, hend, hruns.le_length hend⟩
  · exact .inr ⟨text, cause, hf, hl, hp, hruns.lt_of_failure hl hp⟩

/-- The end comes after at most as many lines as there are, and none of them runs twice. -/
theorem completed_within_length (hs : m.status = .running) {k : Nat}
    (hk : m.result k = .ok .completed) :
    ∃ n ≤ m.program.length, m.result n = .ok .completed ∧ m.RunsFor n ∧
      ∀ i j, i < j → j < n → (m.after i).counter ≠ (m.after j).counter := by
  obtain ⟨n, hruns, hresult, ⟨hc, hend, hle⟩ | ⟨text, cause, hf, -⟩⟩ :=
    exists_first_within hs (show m.result k ≠ .ok .running by simp [hk])
  · refine ⟨n, hle, hc, hruns, fun i j hij hj => ?_⟩
    rw [(hruns.mono (Nat.le_of_lt (hij.trans hj))).after_eq.2.1,
      (hruns.mono (Nat.le_of_lt hj)).after_eq.2.1]
    exact hruns.course_ne hend hij hj
  · rw [hresult, hk] at hf
    cases hf

/-- A failure comes before twice as many steps as there are lines, and a line that ran before
can only fail because its variable is declared. -/
theorem failed_within_length (hs : m.status = .running) {k : Nat} {failure : Failure}
    (hk : m.result k = .error failure) :
    ∃ n < 2 * m.program.length, m.result n = .error failure ∧ m.RunsFor n ∧
      ((∃ i < n, (m.after i).counter = (m.after n).counter) →
        ∃ name, failure.cause = .duplicate name) := by
  obtain ⟨n, hruns, hresult, ⟨hc, -⟩ | ⟨text, cause, hf, hl, hp, hlt⟩⟩ :=
    exists_first_within hs (show m.result k ≠ .ok .running by simp [hk])
  · rw [hresult, hk] at hc
    cases hc
  · refine ⟨n, hlt, hresult.trans hk, hruns, ?_⟩
    rintro ⟨i, hi, hcounter⟩
    rw [(hruns.mono (Nat.le_of_lt hi)).after_eq.2.1, hruns.after_eq.2.1] at hcounter
    obtain ⟨name, -, hname⟩ := hruns.declares_of_failure hl hp hi hcounter
    rw [hresult, hk] at hf
    cases hf
    exact ⟨name, hname⟩

theorem runs_forever (hs : m.status = .running) (hpos : 0 < m.program.length)
    (hruns : m.RunsFor (2 * m.program.length)) (k : Nat) : m.result k = .ok .running := by
  by_contra hk
  obtain ⟨n, -, hresult, ⟨-, -, hle⟩ | ⟨-, -, -, -, -, hlt⟩⟩ := exists_first_within hs hk
  · exact hk (hresult ▸ hruns n (by omega))
  · exact hk (hresult ▸ hruns n hlt)

/-- The outcome of a program is settled within a bound given by its length. Steps are
counted from zero: the end comes with step `program.length` at the latest and no line runs
twice before it, a failure comes before step `2 * program.length`, and a program that is
still running then runs forever. -/
theorem settled_within_length (program : List String) :
    (∀ k, (ofLines program).result k = .ok .completed →
      ∃ n ≤ program.length, (ofLines program).result n = .ok .completed ∧
        (ofLines program).RunsFor n ∧
        ∀ i j, i < j → j < n →
          ((ofLines program).after i).counter ≠ ((ofLines program).after j).counter) ∧
    (∀ k failure, (ofLines program).result k = .error failure →
      ∃ n < 2 * program.length, (ofLines program).result n = .error failure ∧
        (ofLines program).RunsFor n ∧
        ((∃ i < n, ((ofLines program).after i).counter = ((ofLines program).after n).counter) →
          ∃ name, failure.cause = .duplicate name)) ∧
    (0 < program.length → (ofLines program).RunsFor (2 * program.length) →
      ∀ k, (ofLines program).result k = .ok .running) :=
  ⟨fun _ hk => completed_within_length rfl hk, fun _ _ hk => failed_within_length rfl hk,
    fun hpos hruns => runs_forever rfl hpos hruns⟩

section Run

theorem after_advance (m : Machine) (n : Nat) : m.advance.1.after n = m.after (n + 1) := rfl

theorem result_advance (m : Machine) (n : Nat) : m.advance.1.result n = m.result (n + 1) := rfl

theorem RunsFor.tail {n : Nat} (h : m.RunsFor (n + 1)) : m.advance.1.RunsFor n := by
  intro i hi
  rw [result_advance]
  exact h (i + 1) (Nat.succ_lt_succ hi)

theorem proceed_of_runsFor {n : Nat} (h : m.RunsFor n) :
    proceed n m = (n, m.after n, .ok .running) := by
  induction n generalizing m with
  | zero => rfl
  | succ n ih =>
    have hadvance : m.advance = (m.advance.1, .ok .running) := Prod.ext rfl (h 0 n.succ_pos)
    rw [proceed, hadvance]
    simp only [ih h.tail, after_advance]

theorem StopsAfter.tail {n : Nat} (h : m.StopsAfter (n + 1)) : m.advance.1.StopsAfter n :=
  ⟨h.1.tail, h.2⟩

theorem proceed_of_stopsAfter {n k : Nat} (h : m.StopsAfter n) (hk : n < k) :
    proceed k m = (n + 1, m.after (n + 1), m.result n) := by
  induction n generalizing m k with
  | zero =>
    obtain ⟨k, rfl⟩ := Nat.exists_eq_succ_of_ne_zero (Nat.ne_zero_of_lt hk)
    have hadvance := advance_after m 0
    rw [after_zero] at hadvance
    rw [proceed, hadvance]
    split
    · rename_i heq
      exact absurd (congrArg Prod.snd heq) h.2
    · rename_i heq
      cases heq
      rfl
  | succ n ih =>
    obtain ⟨k, rfl⟩ := Nat.exists_eq_succ_of_ne_zero (Nat.ne_zero_of_lt hk)
    have hadvance : m.advance = (m.advance.1, .ok .running) := Prod.ext rfl (h.1 0 n.succ_pos)
    have hrest := ih h.tail (Nat.lt_of_succ_lt_succ hk)
    rw [proceed, hadvance]
    simp only [hrest, after_advance, result_advance]

theorem visited_of_stopsAfter {n k : Nat} (h : m.StopsAfter n) (hk : n < k) :
    visited k m = (List.range (n + 1)).map m.after := by
  induction n generalizing m k with
  | zero =>
    obtain ⟨k, rfl⟩ := Nat.exists_eq_succ_of_ne_zero (Nat.ne_zero_of_lt hk)
    have hadvance := advance_after m 0
    rw [after_zero] at hadvance
    rw [visited, hadvance]
    split
    · rename_i heq
      exact absurd (congrArg Prod.snd heq) h.2
    · rfl
  | succ n ih =>
    obtain ⟨k, rfl⟩ := Nat.exists_eq_succ_of_ne_zero (Nat.ne_zero_of_lt hk)
    have hadvance : m.advance = (m.advance.1, .ok .running) := Prod.ext rfl (h.1 0 n.succ_pos)
    have hrest := ih h.tail (Nat.lt_of_succ_lt_succ hk)
    rw [visited, hadvance]
    simp only [hrest, List.range_succ_eq_map (n := n + 1), List.map_cons, List.map_map]
    rfl

/-- The horizon is far enough to see the step that ends a run. -/
theorem StopsAfter.lt_horizon {n : Nat} (h : m.StopsAfter n) : n < m.horizon := by
  cases hs : m.status with
  | completed =>
    have hzero : m.result 0 = .ok .completed := by simp only [result, after_zero, advance, hs]
    cases n with
    | zero => exact Nat.succ_pos _
    | succ n =>
      have hrunning := h.1 0 n.succ_pos
      rw [hzero] at hrunning
      cases hrunning
  | running =>
    rcases first_cases hs h with ⟨-, hend⟩ | ⟨text, cause, -, hl, hp⟩
    · have hle := h.1.le_length hend
      simp only [horizon]
      omega
    · exact Nat.lt_succ_of_lt (h.1.lt_of_failure hl hp)

theorem StopsAfter.exists_outcome {n : Nat} (h : m.StopsAfter n) :
    ∃ outcome : Except Failure Unit, m.result n = outcome.map fun _ => Status.completed := by
  cases hresult : m.result n with
  | error failure => exact ⟨.error failure, rfl⟩
  | ok status =>
    cases status with
    | running => exact absurd hresult h.2
    | completed => exact ⟨.ok (), rfl⟩

theorem run_of_first {n : Nat} (h : m.RunsFor n) {outcome : Except Failure Unit}
    (hn : m.result n = outcome.map fun _ => Status.completed) :
    m.run = some (m.after (n + 1), outcome) := by
  have hstops : m.StopsAfter n := by
    refine ⟨h, ?_⟩
    rw [hn]
    cases outcome <;> simp [Except.map]
  have hproceed := proceed_of_stopsAfter hstops hstops.lt_horizon
  rw [hn] at hproceed
  cases outcome <;> simp only [run, hproceed, Except.map]

/-- A run returns what the first step that does not leave the machine running comes to,
however late that step is. -/
theorem run_eq_some_iff {last : Machine} {outcome : Except Failure Unit} :
    m.run = some (last, outcome) ↔
      ∃ n, m.RunsFor n ∧ m.after (n + 1) = last ∧
        m.result n = outcome.map fun _ => Status.completed := by
  constructor
  · intro hrun
    by_cases hforever : ∀ k, m.result k = .ok .running
    · have hproceed := @proceed_of_runsFor m m.horizon fun i _ => hforever i
      simp [run, hproceed] at hrun
    · obtain ⟨k, hk⟩ := not_forall.mp hforever
      obtain ⟨n, -, hstops⟩ := exists_first hk
      obtain ⟨result, hresult⟩ := hstops.exists_outcome
      rw [run_of_first hstops.1 hresult] at hrun
      cases hrun
      exact ⟨n, hstops.1, rfl, hresult⟩
  · rintro ⟨n, hruns, rfl, hn⟩
    exact run_of_first hruns hn

end Run

end GridRover.Script.Machine
