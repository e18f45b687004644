import GridRover.Proofs.Script.Action

/-!
# Failure changes nothing

A step that fails leaves the machine as it was, so whatever is asked of the machine next
runs into the same failure.
-/
namespace GridRover.Script

/-- What can be asked of a machine once its program is fixed. -/
inductive Call
  | advance
  | run
  deriving DecidableEq

namespace Machine

/-- The machine after a call, and the answer; `none` is a run that never returns. A run
that returns without failure has completed the program. -/
def reply (m : Machine) : Call → Option (Machine × Except Failure Status)
  | .advance => some m.advance
  | .run =>
    match m.run with
    | none => none
    | some (last, .ok ()) => some (last, .ok .completed)
    | some (last, .error failure) => some (last, .error failure)

/-- The machine after calls made one after the other, and their answers in order. -/
def replies (m : Machine) : List Call → Option (Machine × List (Except Failure Status))
  | [] => some (m, [])
  | call :: calls =>
    match m.reply call with
    | none => none
    | some (next, answer) =>
      match next.replies calls with
      | none => none
      | some (last, answers) => some (last, answer :: answers)

theorem run_of_advance_error {m next : Machine} {failure : Failure}
    (h : m.advance = (next, .error failure)) : m.run = some (next, .error failure) := by
  have hp : proceed m.horizon m = (1, next, .error failure) := by
    simp only [horizon, proceed, h]
  simp only [run, hp]

theorem replies_of_stuck {m : Machine} {failure : Failure}
    (h : m.advance = (m, .error failure)) (calls : List Call) :
    m.replies calls = some (m, List.replicate calls.length (.error failure)) := by
  have hcall : ∀ call, m.reply call = some (m, .error failure) := by
    intro call
    cases call with
    | advance => simp only [reply, h]
    | run => simp only [reply, run_of_advance_error h]
  induction calls with
  | nil => rfl
  | cons call calls ih => simp only [replies, hcall, ih, List.length_cons, List.replicate_succ]

/-- A step that fails leaves every part of the machine as it was, names the line under the
counter, and fails again, in the same way, however the machine is called from then on. -/
theorem advance_error_atomic (m next : Machine) (failure : Failure)
    (h : m.advance = (next, .error failure)) :
    next = m ∧ m.status = .running ∧ failure.line = m.counter + 1 ∧
      m.program[m.counter]? = some failure.text ∧
      ∀ calls, m.replies calls = some (m, List.replicate calls.length (.error failure)) := by
  cases advances_of_eq h with
  | fail hs hl hp => exact ⟨rfl, hs, rfl, hl, replies_of_stuck h⟩

/-- A jump out of the program, after a move that a subscriber has received. -/
theorem advance_error_atomic_jump :
    let m := ((ofLines ["left;", "goto 7;"]).subscribe "rover").advance.1
    m.advance = (m, .error ⟨2, "goto 7;", .jump 7 2⟩) ∧
      m.replies [.advance, .run, .advance] =
        some (m, List.replicate 3 (.error ⟨2, "goto 7;", .jump 7 2⟩)) := by
  intro m
  have h : m.advance = (m, .error ⟨2, "goto 7;", .jump 7 2⟩) := rfl
  exact ⟨h, (advance_error_atomic m m _ h).2.2.2.2 [.advance, .run, .advance]⟩

end Machine

end GridRover.Script
