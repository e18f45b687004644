import GridRover.Proofs.Script.Delivery
import GridRover.Proofs.Script.Parallel

/-!
# Where a machine can get to

A machine never leaves its program: the counter goes on by one from a line that is there, or
jumps to a line that is there, and so it stands at most right behind the last line. That is
where a completed machine rests, and every failure names a line of the program.
-/
namespace GridRover.Script.Machine

/-- The machine runs the program, and its counter has stayed inside. -/
structure Confined (program : List String) (m : Machine) : Prop where
  program_eq : m.program = program
  counter_le : m.counter ≤ program.length
  counter_eq : m.status = .completed → m.counter = program.length

variable {program : List String} {m last : Machine} {history : List Occurrence}

theorem lineIndex_lt {target : Int} {index : Nat} (h : m.lineIndex target = .ok index) :
    index < m.program.length := by
  simp only [lineIndex_eq] at h
  split at h
  · rename_i hrange
    cases h
    omega
  · cases h

/-- After a line that ran the counter is on a line, or right behind the last one. -/
theorem perform_counter_le {text : String} {change : Action}
    (hl : m.program[m.counter]? = some text) (hp : m.plan text = .ok change) :
    (m.perform change).counter ≤ m.program.length := by
  have hinside : m.counter < m.program.length := (List.getElem?_eq_some_iff.mp hl).1
  obtain ⟨statement, -, hacts⟩ := plan_eq_ok_iff.mp hp
  cases hacts with
  | jump hindex => exact Nat.le_of_lt (lineIndex_lt hindex)
  | move direction => exact hinside
  | declare hname hx => exact hinside
  | assign hv hx => exact hinside
  | pass => exact hinside

theorem confined_ofLines (program : List String) : Confined program (ofLines program) :=
  ⟨rfl, Nat.zero_le _, nofun⟩

namespace Confined

theorem subscribe (h : Confined program m) (name : String) : Confined program (m.subscribe name) :=
  ⟨h.program_eq, h.counter_le, h.counter_eq⟩

theorem advance (h : Confined program m) : Confined program m.advance.1 := by
  cases hadvance : m.advance with
  | mk next result =>
    cases advances_of_eq hadvance with
    | idle hs => exact h
    | fail hs hl hp => exact h
    | finish hs hl =>
      -- There is no line under the counter, and it cannot be further out than the end.
      have hend : program.length ≤ m.counter := by
        rw [← h.program_eq]
        exact List.getElem?_eq_none_iff.mp hl
      exact ⟨h.program_eq, h.counter_le, fun _ => Nat.le_antisymm h.counter_le hend⟩
    | @perform text change hs hl hp =>
      refine ⟨(perform_program m change).trans h.program_eq, ?_, fun hc => ?_⟩
      · rw [← h.program_eq]
        exact perform_counter_le hl hp
      · rw [perform_status, hs] at hc
        cases hc

theorem after (h : Confined program m) (n : Nat) : Confined program (m.after n) := by
  induction n with
  | zero => exact h
  | succ n ih =>
    rw [after_succ]
    exact ih.advance

theorem of_leads (h : Confined program m) (hleads : Leads m history last) :
    Confined program last := by
  induction hleads with
  | rest m => exact h
  | registration name hleads ih => exact ih (h.subscribe name)
  | step hleads ih => exact ih h.advance

/-- A failure names a line of the program and quotes it. -/
theorem failure_line (h : Confined program m) {failure : Failure}
    (hf : m.advance.2 = .error failure) :
    1 ≤ failure.line ∧ failure.line ≤ program.length ∧
      program[failure.line - 1]? = some failure.text := by
  obtain ⟨hline, hl, -⟩ := line_of_failure hf
  have hinside := (List.getElem?_eq_some_iff.mp hl).1
  rw [h.program_eq] at hl hinside
  rw [hline]
  exact ⟨Nat.succ_pos _, hinside, hl⟩

/-- A running machine is completed by its next step exactly when it stands behind its last
line. -/
theorem completed_iff (h : Confined program m) (hs : m.status = .running) :
    m.advance.2 = .ok .completed ↔ m.counter = program.length := by
  have hle := h.counter_le
  cases hadvance : m.advance with
  | mk next result =>
    cases advances_of_eq hadvance with
    | idle hc =>
      rw [hs] at hc
      cases hc
    | finish hr hl =>
      have hend := List.getElem?_eq_none_iff.mp hl
      rw [h.program_eq] at hend
      simp only [true_iff]
      omega
    | fail hr hl hp =>
      have hinside := (List.getElem?_eq_some_iff.mp hl).1
      rw [h.program_eq] at hinside
      simp only [reduceCtorEq, false_iff]
      omega
    | perform hr hl hp =>
      have hinside := (List.getElem?_eq_some_iff.mp hl).1
      rw [h.program_eq] at hinside
      simp only [Except.ok.injEq, reduceCtorEq, false_iff]
      omega

end Confined

/-- A completed machine stays as it is and sends nothing. -/
theorem after_of_completed (hs : m.status = .completed) (k : Nat) :
    m.after k = m ∧ m.result k = .ok .completed ∧ m.commands k = [] := by
  have hidle : m.advance = (m, .ok .completed) := (Advances.idle hs).advance_eq
  have hrest : ∀ n, m.after n = m := by
    intro n
    induction n with
    | zero => rfl
    | succ n ih => rw [after_succ, ih, hidle]
  have hsilent : m.command? = none := by simp only [command?, hs]
  refine ⟨hrest k, by rw [result, hrest, hidle], ?_⟩
  simp [commands, hrest, hsilent]

/-- The machine before any step of a history is itself reached by a history. -/
theorem Leads.exists_front {before : Machine} (h : Leads m history last)
    (hstep : Occurrence.step before ∈ history) : ∃ front, Leads m front before := by
  obtain ⟨front, back, rfl⟩ := List.append_of_mem hstep
  obtain ⟨middle, hfront, hback⟩ := h.split
  cases hback with
  | step hback => exact ⟨front, hfront⟩

/-- Whatever a machine goes through from its start on, it keeps its program, its counter stays
between the first line and the place behind the last one, and it is completed only there.
From then on no step changes it in any part or sends anything. Every failure on the way
names a line of the program and quotes that line. -/
theorem reachable_confined (program : List String) (history : List Occurrence) (m : Machine)
    (h : Leads (ofLines program) history m) :
    m.program = program ∧ m.counter ≤ program.length ∧
      (m.status = .completed → m.counter = program.length ∧
        ∀ k, m.after k = m ∧ m.result k = .ok .completed ∧ m.commands k = []) ∧
      ∀ before failure, Occurrence.step before ∈ history → before.advance.2 = .error failure →
        1 ≤ failure.line ∧ failure.line ≤ program.length ∧
          program[failure.line - 1]? = some failure.text := by
  have hconfined := (confined_ofLines program).of_leads h
  refine ⟨hconfined.program_eq, hconfined.counter_le,
    fun hs => ⟨hconfined.counter_eq hs, after_of_completed hs⟩, ?_⟩
  intro before failure hstep hfailure
  obtain ⟨front, hfront⟩ := h.exists_front hstep
  exact ((confined_ofLines program).of_leads hfront).failure_line hfailure

/-- A program that jumps over a line to its end, with a subscriber and steps behind the end,
and a program that fails with a jump beyond all line numbers. -/
theorem reachable_confined_jumps :
    (∃ m history, Leads (ofLines ["goto 3;", "goto -9;", "left;"]) history m ∧
      m.channel.delivered.length = 2 ∧ m.counter = 3 ∧ m.after 7 = m ∧ m.commands 7 = []) ∧
    ∃ m history before failure,
      Leads (ofLines ["right;", "goto 99999999999999999999;"]) history m ∧
      Occurrence.step before ∈ history ∧ before.advance.2 = .error failure ∧
      ["right;", "goto 99999999999999999999;"][failure.line - 1]? = some failure.text := by
  constructor
  · let m := ((ofLines ["goto 3;", "goto -9;", "left;"]).subscribe "rover").after 4
    have hleads : Leads (ofLines ["goto 3;", "goto -9;", "left;"]) _ m :=
      .registration "rover" (.step (.step (.step (.step (.rest _)))))
    obtain ⟨hcounter, hrest⟩ := (reachable_confined _ _ _ hleads).2.2.1 rfl
    exact ⟨m, _, hleads, rfl, hcounter, (hrest 7).1, (hrest 7).2.2⟩
  · let before := (ofLines ["right;", "goto 99999999999999999999;"]).after 1
    have hleads : Leads (ofLines ["right;", "goto 99999999999999999999;"]) _ before.advance.1 :=
      .step (.step (.rest _))
    have hstep : Occurrence.step before ∈
        [Occurrence.step (ofLines ["right;", "goto 99999999999999999999;"]), .step before] := by simp
    exact ⟨_, _, before, _, hleads, hstep, rfl,
      ((reachable_confined _ _ _ hleads).2.2.2 before _ hstep rfl).2.2⟩

end GridRover.Script.Machine
