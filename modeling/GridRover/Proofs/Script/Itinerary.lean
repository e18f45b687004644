import GridRover.Proofs.Expression.Names
import GridRover.Proofs.Script.Action
import Mathlib.Logic.Function.Iterate

/-!
# Where a run goes

The line that follows a line is fixed by the program alone. Names are never lost, so a
line that has run can run again, unless it declares a variable, which it then finds
declared already.
-/
namespace GridRover.Script.Machine

/-- The machine after `n` steps, whatever their results. -/
def after (m : Machine) (n : Nat) : Machine := (fun m => m.advance.1)^[n] m

/-- The result of the step that comes after the first `n`. -/
def result (m : Machine) (n : Nat) : Except Failure Status := (m.after n).advance.2

/-- The first `n` steps leave the machine running. -/
def RunsFor (m : Machine) (n : Nat) : Prop := ∀ i < n, m.result i = .ok .running

/-- The first `n` steps leave the machine running, and the next one does not. -/
def StopsAfter (m : Machine) (n : Nat) : Prop := m.RunsFor n ∧ m.result n ≠ .ok .running

/-- The index of the line that comes after a line that ran. -/
def successor (program : List String) (counter : Nat) : Nat :=
  match program[counter]?.bind Statement.ofLine? with
  | some (.goto target) => (target - 1).toNat
  | _ => counter + 1

/-- The index of the line that runs after `n` lines. -/
def course (m : Machine) (n : Nat) : Nat := (successor m.program)^[n] m.counter

@[simp] theorem after_zero (m : Machine) : m.after 0 = m := rfl

theorem after_succ (m : Machine) (n : Nat) : m.after (n + 1) = (m.after n).advance.1 :=
  Function.iterate_succ_apply' _ n m

theorem advance_after (m : Machine) (n : Nat) :
    (m.after n).advance = (m.after (n + 1), m.result n) := by
  rw [after_succ]
  rfl

theorem course_succ (m : Machine) (n : Nat) :
    m.course (n + 1) = successor m.program (m.course n) :=
  Function.iterate_succ_apply' _ n m.counter

/-- A course that comes to one index twice goes on the same way both times. -/
theorem course_shift {m : Machine} {i j : Nat} (h : m.course i = m.course j) (k : Nat) :
    m.course (i + k) = m.course (j + k) := by
  induction k with
  | zero => exact h
  | succ k ih => rw [← Nat.add_assoc, ← Nat.add_assoc, course_succ, course_succ, ih]

theorem RunsFor.mono {m : Machine} {k n : Nat} (h : m.RunsFor n) (hk : k ≤ n) : m.RunsFor k :=
  fun i hi => h i (Nat.lt_of_lt_of_le hi hk)

theorem advance_program (m : Machine) : m.advance.1.program = m.program := by
  cases hadvance : m.advance with
  | mk next result =>
    cases advances_of_eq hadvance with
    | idle hs => rfl
    | finish hs hl => rfl
    | fail hs hl hp => rfl
    | perform hs hl hp => exact perform_program m _

theorem after_program (m : Machine) (n : Nat) : (m.after n).program = m.program := by
  induction n with
  | zero => rfl
  | succ n ih => rw [after_succ, advance_program, ih]

theorem lineIndex_eq_ok {m : Machine} {target : Int} {index : Nat}
    (h : m.lineIndex target = .ok index) : index = (target - 1).toNat := by
  simp only [lineIndex_eq] at h
  split at h
  · exact (Except.ok.inj h).symm
  · cases h

theorem perform_counter {m : Machine} {text : String} {change : Action}
    (hl : m.program[m.counter]? = some text) (hp : m.plan text = .ok change) :
    (m.perform change).counter = successor m.program m.counter := by
  obtain ⟨statement, hs, hacts⟩ := plan_eq_ok_iff.mp hp
  simp only [successor, hl, Option.bind_some, hs]
  cases hacts with
  | jump hindex => exact lineIndex_eq_ok hindex
  | move direction => rfl
  | declare hname hx => rfl
  | assign hv hx => rfl
  | pass => rfl

theorem contains_perform {m : Machine} {name : String} (h : m.store.contains name = true)
    (action : Action) : (m.perform action).store.contains name = true := by
  cases action with
  | move direction => exact h
  | jump index => exact h
  | write other v => exact (Store.contains_insert _ _ _ _).mpr (.inr h)
  | pass => exact h

/-- No step loses a name. -/
theorem contains_advance {m : Machine} {name : String} (h : m.store.contains name = true) :
    m.advance.1.store.contains name = true := by
  cases hadvance : m.advance with
  | mk next result =>
    cases advances_of_eq hadvance with
    | idle hs => exact h
    | finish hs hl => exact h
    | fail hs hl hp => exact h
    | perform hs hl hp => exact contains_perform h _

theorem contains_after {m : Machine} {name : String} {i j : Nat} (hij : i ≤ j)
    (h : (m.after i).store.contains name = true) : (m.after j).store.contains name = true := by
  induction hij with
  | refl => exact h
  | step hij ih =>
    rw [after_succ]
    exact contains_advance ih

/-- The name that a line declares. -/
def declaredName? (text : String) : Option String :=
  match Statement.ofLine? text with
  | some (.declaration _ name _) => some name
  | _ => none

theorem lineIndex_congr {m later : Machine} (h : later.program = m.program) (target : Int) :
    later.lineIndex target = m.lineIndex target := by
  simp only [lineIndex_eq, h]

theorem evaluate_eq_ok_iff {m : Machine} {expression : String} {x : Float} :
    m.evaluate expression = .ok x ↔ Expression.value m.store expression = .ok x := by
  cases h : Expression.value m.store expression <;> simp [evaluate, h]

section Again

variable {m later : Machine} {text : String} {change : Action}

/-- A declaration that has run finds its name declared. -/
theorem plan_again_of_declaration {name : String} (hd : declaredName? text = some name)
    (hp : m.plan text = .ok change)
    (hnames : ∀ other, (m.perform change).store.contains other = true →
      later.store.contains other = true) :
    later.plan text = .error (.duplicate name) := by
  obtain ⟨statement, hs, hacts⟩ := plan_eq_ok_iff.mp hp
  simp only [declaredName?, hs] at hd
  split at hd
  · rename_i type other initializer hstatement
    cases hd
    cases hstatement
    cases hacts
    have hname := hnames name ((Store.contains_insert _ _ _ _).mpr (.inl rfl))
    simp [plan, hs, action, hname]
  · cases hd

/-- Any other line that has run can run again. -/
theorem plan_again_of_other (hd : declaredName? text = none) (hp : m.plan text = .ok change)
    (hprogram : later.program = m.program)
    (hnames : ∀ other, m.store.contains other = true → later.store.contains other = true) :
    ∃ again, later.plan text = .ok again := by
  obtain ⟨statement, hs, hacts⟩ := plan_eq_ok_iff.mp hp
  suffices h : ∃ again, Acts later statement again by
    obtain ⟨again, hagain⟩ := h
    exact ⟨again, plan_eq_ok_iff.mpr ⟨statement, hs, hagain⟩⟩
  cases hacts with
  | move direction => exact ⟨_, .move direction⟩
  | @jump target index hindex => exact ⟨_, .jump (lineIndex_congr hprogram target ▸ hindex)⟩
  | declare hname hx => simp [declaredName?, hs] at hd
  | @assign name expression assignment v x hv hx =>
    obtain ⟨w, hw⟩ := Store.contains_iff_find?.mp
      (hnames name (Store.contains_iff_find?.mpr ⟨v, hv⟩))
    obtain ⟨y, hy⟩ := Expression.exists_value_of_subset (evaluate_eq_ok_iff.mp hx) hnames
    exact ⟨_, .assign hw (evaluate_eq_ok_iff.mpr hy)⟩
  | pass => exact ⟨_, .pass⟩

end Again

end GridRover.Script.Machine
