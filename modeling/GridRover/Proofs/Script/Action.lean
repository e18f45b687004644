import GridRover.Proofs.Number.Word
import GridRover.Proofs.Store
import GridRover.Script.Machine

/-!
# What a line asks for

Running a statement comes down to one decision, made on the machine as it is before, and
one change. The decision either names the change, an action, or a cause of failure; the
work of the statement is the change in the first case and nothing in the second. Every
property of steps is read off this form and never off the work itself.
-/
namespace GridRover.Script

/-- The one change that a statement makes. -/
inductive Action
  | move (direction : Direction)
  | jump (index : Nat)
  | write (name : String) (v : Variable)
  | pass
  deriving DecidableEq

namespace Machine

/-- A line number has an index exactly when it is that of a line. -/
theorem lineIndex_eq (m : Machine) (target : Int) :
    m.lineIndex target = if 1 ≤ target ∧ target ≤ m.program.length then .ok (target - 1).toNat
      else .error (.jump target m.program.length) := by
  have hindex (index : Nat) :
      ((Number.previousWord? target).bind Int.toNat?).filter (· < m.program.length) = some index ↔
        target - 1 = index ∧ index < m.program.length := by
    rw [Option.filter_eq_some_iff, Option.bind_eq_some_iff, decide_eq_true_iff]
    simp only [Number.previousWord?_eq_some_iff, Int.mem_toNat?]
    constructor
    · rintro ⟨⟨n, ⟨rfl, -⟩, hn⟩, hlt⟩
      exact ⟨hn, hlt⟩
    · rintro ⟨hn, hlt⟩
      exact ⟨⟨_, ⟨rfl, by omega⟩, hn⟩, hlt⟩
  by_cases h : 1 ≤ target ∧ target ≤ m.program.length
  · have hsome := (hindex (target - 1).toNat).mpr (by omega)
    simp only [lineIndex, hsome, if_pos h]
  · have hnone : ((Number.previousWord? target).bind Int.toNat?).filter
        (· < m.program.length) = none := by
      apply Option.eq_none_iff_forall_ne_some.mpr
      intro index hsome
      have hrange := (hindex index).mp hsome
      omega
    simp only [lineIndex, hnone, if_neg h]

/-- The action of a statement on a machine, or why there is none. -/
def action (m : Machine) : Statement → Except Cause Action
  | .move direction => .ok (.move direction)
  | .goto target =>
    match m.lineIndex target with
    | .ok index => .ok (.jump index)
    | .error cause => .error cause
  | .declaration type name initializer =>
    if m.store.contains name then .error (.duplicate name)
    else
      match m.initialValue type initializer with
      | .ok x => .ok (.write name ⟨type, x⟩)
      | .error cause => .error cause
  | .update name assignment expression =>
    match m.store.find? name with
    | none => .error (.undeclared name)
    | some v =>
      match m.evaluate expression with
      | .ok x => .ok (.write name { v with value := assignment.apply v.value x })
      | .error cause => .error cause
  | .blank => .ok .pass

def perform (m : Machine) : Action → Machine
  | .move direction =>
    { m with channel := m.channel.emit (.move direction), counter := m.counter + 1 }
  | .jump index => { m with counter := index }
  | .write name v => { m with store := m.store.insert name v, counter := m.counter + 1 }
  | .pass => { m with counter := m.counter + 1 }

/-- All that a statement can ask for, and what has to hold for it on the machine. -/
inductive Acts (m : Machine) : Statement → Action → Prop
  | move (direction : Direction) : Acts m (.move direction) (.move direction)
  | jump {target : Int} {index : Nat} (hindex : m.lineIndex target = .ok index) :
    Acts m (.goto target) (.jump index)
  | declare {type : VariableType} {name : String} {initializer : Option String} {x : Float}
    (hname : m.store.contains name = false) (hx : m.initialValue type initializer = .ok x) :
    Acts m (.declaration type name initializer) (.write name ⟨type, x⟩)
  | assign {name expression : String} {assignment : Assignment} {v : Variable} {x : Float}
    (hv : m.store.find? name = some v) (hx : m.evaluate expression = .ok x) :
    Acts m (.update name assignment expression)
      (.write name { v with value := assignment.apply v.value x })
  | pass : Acts m .blank .pass

theorem action_eq_ok_iff {m : Machine} {statement : Statement} {change : Action} :
    m.action statement = .ok change ↔ Acts m statement change := by
  constructor
  · intro h
    cases statement with
    | move direction =>
      cases h
      exact .move direction
    | goto target =>
      cases hindex : m.lineIndex target <;> simp only [action, hindex] at h <;> cases h
      exact .jump hindex
    | declaration type name initializer =>
      cases hname : m.store.contains name <;> cases hx : m.initialValue type initializer <;>
        simp [action, hname, hx] at h
      exact h ▸ .declare hname hx
    | update name assignment expression =>
      cases hv : m.store.find? name <;> cases hx : m.evaluate expression <;>
        simp [action, hv, hx] at h
      exact h ▸ .assign hv hx
    | blank =>
      cases h
      exact .pass
  · intro h
    cases h with
    | move direction => rfl
    | jump hindex => simp only [action, hindex]
    | declare hname hx => simp [action, hname, hx]
    | assign hv hx => simp only [action, hv, hx]
    | pass => rfl

/-- All the causes for which a statement does nothing, and when they arise. -/
inductive Refuses (m : Machine) : Statement → Cause → Prop
  | jump {target : Int} (htarget : ¬ (1 ≤ target ∧ target ≤ m.program.length)) :
    Refuses m (.goto target) (.jump target m.program.length)
  | duplicate {type : VariableType} {name : String} {initializer : Option String}
    (hname : m.store.contains name = true) :
    Refuses m (.declaration type name initializer) (.duplicate name)
  | initializer {type : VariableType} {name expression : String} {e : Expression.Error}
    (hname : m.store.contains name = false) (he : Expression.value m.store expression = .error e) :
    Refuses m (.declaration type name (some expression)) (.expression e)
  | undeclared {name expression : String} {assignment : Assignment}
    (hname : m.store.find? name = none) :
    Refuses m (.update name assignment expression) (.undeclared name)
  | operand {name expression : String} {assignment : Assignment} {v : Variable}
    {e : Expression.Error} (hv : m.store.find? name = some v)
    (he : Expression.value m.store expression = .error e) :
    Refuses m (.update name assignment expression) (.expression e)

theorem action_eq_error_iff {m : Machine} {statement : Statement} {cause : Cause} :
    m.action statement = .error cause ↔ Refuses m statement cause := by
  constructor
  · intro h
    cases statement with
    | move direction => cases h
    | goto target =>
      by_cases htarget : 1 ≤ target ∧ target ≤ m.program.length
      · simp [action, lineIndex_eq, htarget] at h
      · simp only [action, lineIndex_eq, htarget, if_false] at h
        cases h
        exact .jump htarget
    | declaration type name initializer =>
      cases hname : m.store.contains name with
      | true =>
        simp only [action, hname, if_true] at h
        cases h
        exact .duplicate hname
      | false =>
        cases initializer with
        | none => simp [action, hname, initialValue] at h
        | some expression =>
          cases he : Expression.value m.store expression with
          | ok x => simp [action, hname, initialValue, evaluate, he] at h
          | error e =>
            simp only [action, hname, initialValue, evaluate, he] at h
            cases h
            exact .initializer hname he
    | update name assignment expression =>
      cases hv : m.store.find? name with
      | none =>
        simp only [action, hv] at h
        cases h
        exact .undeclared hv
      | some v =>
        cases he : Expression.value m.store expression with
        | ok x => simp [action, hv, evaluate, he] at h
        | error e =>
          simp only [action, hv, evaluate, he] at h
          cases h
          exact .operand hv he
    | blank => cases h
  · intro h
    cases h with
    | jump htarget => simp only [action, lineIndex_eq, htarget, if_false]
    | duplicate hname => simp only [action, hname, if_true]
    | initializer hname he => simp [action, hname, initialValue, evaluate, he]
    | undeclared hname => simp only [action, hname]
    | operand hv he => simp only [action, hv, evaluate, he]

/-- A statement that fails was recognised, and its failure says so. -/
theorem action_ne_unrecognised (m : Machine) (statement : Statement) :
    m.action statement ≠ .error .unrecognised := by
  intro h
  cases action_eq_error_iff.mp h

/-- The action of a line. -/
def plan (m : Machine) (text : String) : Except Cause Action :=
  match Statement.ofLine? text with
  | none => .error .unrecognised
  | some statement => m.action statement

theorem plan_eq_ok_iff {m : Machine} {text : String} {change : Action} :
    m.plan text = .ok change ↔
      ∃ statement, Statement.ofLine? text = some statement ∧ Acts m statement change := by
  cases h : Statement.ofLine? text <;> simp [plan, h, action_eq_ok_iff]

/-- Only a line that is no statement is reported as one that is none. -/
theorem plan_eq_unrecognised_iff {m : Machine} {text : String} :
    m.plan text = .error .unrecognised ↔ Statement.ofLine? text = none := by
  cases h : Statement.ofLine? text <;> simp [plan, h, action_ne_unrecognised]

end Machine

namespace Work

@[simp] theorem run_consult (question : Machine → Except Cause α) (m : Machine) :
    (consult question).run m =
      match question m with
      | .ok answer => .ok answer m
      | .error cause => .error cause m := rfl

@[simp] theorem run_emit (command : Command) (m : Machine) :
    (emit command).run m = .ok () { m with channel := m.channel.emit command } := rfl

@[simp] theorem run_jumpTo (index : Nat) (m : Machine) :
    (jumpTo index).run m = .ok () { m with counter := index } := rfl

@[simp] theorem run_moveOn (m : Machine) :
    moveOn.run m = .ok () { m with counter := m.counter + 1 } := rfl

@[simp] theorem run_declare (name : String) (type : VariableType) (x : Float) (m : Machine) :
    (declare name type x).run m =
      .ok () { m with store := (m.store.declare? name type x).getD m.store } := rfl

@[simp] theorem run_assign (name : String) (x : Float) (m : Machine) :
    (assign name x).run m =
      .ok () { m with store := (m.store.set? name x).getD m.store } := rfl

/-- What work comes to when all of it follows from a decision made before it. -/
def decided (m : Machine) : Except Cause Action → EStateM.Result Cause Machine Unit
  | .ok action => .ok () (m.perform action)
  | .error cause => .error cause m

/-- A statement changes the machine only once nothing can fail any more. -/
theorem run_execute (statement : Statement) (m : Machine) :
    (execute statement).run m = decided m (m.action statement) := by
  cases statement with
  | move direction => rfl
  | goto target =>
    cases h : m.lineIndex target <;> simp [execute, Machine.action, Machine.perform, decided, h]
  | declaration type name initializer =>
    cases hname : m.store.contains name with
    | true => simp [execute, Machine.action, decided, hname]
    | false =>
      cases h : m.initialValue type initializer <;>
        simp [execute, Machine.action, Machine.perform, decided, Store.declare?, hname, h]
  | update name assignment expression =>
    cases hname : m.store.find? name with
    | none => simp [execute, Machine.action, decided, Store.get?, hname]
    | some v =>
      cases h : m.evaluate expression <;>
        simp [execute, Machine.action, Machine.perform, decided, Store.get?, Store.set?, hname, h]
  | blank => rfl

end Work

namespace Machine

/-- All that a step can be: `Advances m next result` relates a machine to the machine after
a step and the result of the step. -/
inductive Advances (m : Machine) : Machine → Except Failure Status → Prop
  | idle : m.status = .completed → Advances m m (.ok .completed)
  | finish : m.status = .running → m.program[m.counter]? = none →
      Advances m m.finish (.ok .completed)
  | fail {text : String} {cause : Cause} : m.status = .running →
      m.program[m.counter]? = some text → m.plan text = .error cause →
      Advances m m (.error ⟨m.counter + 1, text, cause⟩)
  | perform {text : String} {action : Action} : m.status = .running →
      m.program[m.counter]? = some text → m.plan text = .ok action →
      Advances m (m.perform action) (.ok .running)

theorem perform_status (m : Machine) (action : Action) :
    (m.perform action).status = m.status := by
  cases action <;> rfl

theorem perform_program (m : Machine) (action : Action) :
    (m.perform action).program = m.program := by
  cases action <;> rfl

theorem failureAt_of_line {m : Machine} {index : Nat} {text : String}
    (h : m.program[index]? = some text) (cause : Cause) :
    m.failureAt index cause = ⟨index + 1, text, cause⟩ := by
  simp only [failureAt, h, Option.getD_some]

theorem advances (m : Machine) : Advances m m.advance.1 m.advance.2 := by
  cases hs : m.status with
  | completed =>
    simp only [advance, hs]
    exact .idle hs
  | running =>
    cases hl : m.program[m.counter]? with
    | none =>
      simp only [advance, hs, hl]
      exact .finish hs hl
    | some text =>
      cases hc : Statement.ofLine? text with
      | none =>
        simp only [advance, hs, hl, hc, failureAt_of_line hl]
        exact .fail hs hl (by simp only [plan, hc])
      | some statement =>
        cases ha : m.action statement with
        | error cause =>
          simp only [advance, hs, hl, hc, Work.run_execute, ha, Work.decided,
            failureAt_of_line hl]
          exact .fail hs hl (by simp only [plan, hc, ha])
        | ok action =>
          simp only [advance, hs, hl, hc, Work.run_execute, ha, Work.decided, perform_status]
          exact .perform hs hl (by simp only [plan, hc, ha])

/-- A machine has only one step. -/
theorem Advances.advance_eq {m next : Machine} {result : Except Failure Status}
    (h : Advances m next result) : m.advance = (next, result) := by
  cases h with
  | idle hs => simp only [advance, hs]
  | finish hs hl => simp only [advance, hs, hl]
  | fail hs hl hp =>
    simp only [plan] at hp
    split at hp
    · rename_i hc
      cases hp
      simp only [advance, hs, hl, hc, failureAt_of_line hl]
    · rename_i statement hc
      simp only [advance, hs, hl, hc, Work.run_execute, hp, Work.decided, failureAt_of_line hl]
  | perform hs hl hp =>
    obtain ⟨statement, hc, hacts⟩ := plan_eq_ok_iff.mp hp
    simp only [advance, hs, hl, hc, Work.run_execute, action_eq_ok_iff.mpr hacts, Work.decided,
      perform_status]

theorem advances_of_eq {m next : Machine} {result : Except Failure Status}
    (h : m.advance = (next, result)) : Advances m next result := by
  have hstep := m.advances
  rwa [h] at hstep

/-- A failure is that of the line under the counter. -/
theorem line_of_failure {m : Machine} {failure : Failure} (h : m.advance.2 = .error failure) :
    failure.line = m.counter + 1 ∧ m.program[m.counter]? = some failure.text ∧
      m.plan failure.text = .error failure.cause := by
  cases hadvance : m.advance with
  | mk next result =>
    rw [hadvance] at h
    cases advances_of_eq hadvance with
    | idle hs => cases h
    | finish hs hl => cases h
    | perform hs hl hp => cases h
    | fail hs hl hp =>
      cases h
      exact ⟨rfl, hl, hp⟩

end Machine

end GridRover.Script
