import GridRover.Proofs.Expression.Names

/-!
# Which tokens have a postfix order

Reading tokens from the left and counting open parentheses settles whether the tokens have
a postfix order and why not; the operators that wait have no say in it. An undeclared name
and a closing parenthesis that has nothing to close stop the reading, whichever comes first,
and a parenthesis that is still open at the end is a failure as well.
-/
namespace GridRover.Expression

/-- The tokens hold no undeclared name and no closing parenthesis that has nothing to close,
and leave `n` parentheses open. -/
def Passes (store : Store) (kinds : List Token.Kind) (n : Nat) : Prop :=
  Declared store kinds ∧ nesting 0 kinds = some n

/-- The reading comes to an undeclared name. -/
def StopsAtName (store : Store) (kinds : List Token.Kind) (name : String) : Prop :=
  ∃ front back n, kinds = front ++ .name name :: back ∧ Passes store front n ∧
    store.contains name = false

/-- The reading comes to a closing parenthesis while none is open. -/
def StopsAtClosing (store : Store) (kinds : List Token.Kind) : Prop :=
  ∃ front back, kinds = front ++ .closing :: back ∧ Passes store front 0

/-- The reading comes to the end and finds parentheses open. -/
def EndsOpen (store : Store) (kinds : List Token.Kind) : Prop := ∃ n, Passes store kinds (n + 1)

theorem nesting_append (n : Nat) (front back : List Token.Kind) :
    nesting n (front ++ back) = (nesting n front).bind (nesting · back) := by
  fun_induction nesting n front with
  | case1 n => rfl
  | case2 n value front ih => rw [← ih, List.cons_append, nesting]
  | case3 n text front ih => rw [← ih, List.cons_append, nesting]
  | case4 n op front ih => rw [← ih, List.cons_append, nesting]
  | case5 n front ih => rw [← ih, List.cons_append, nesting]
  | case6 front => rfl
  | case7 n front ih => rw [← ih, List.cons_append, nesting]

namespace Postfix

variable {store : Store} {stack : List Pending} {kinds : List Token.Kind} {e : Error}

theorem close_eq_none_iff : close stack = none ↔ stack.count .opening = 0 := by
  induction stack with
  | nil => simp [close]
  | cons entry stack ih =>
    cases entry with
    | opening => simp [close]
    | operator op =>
      rw [List.count_cons_of_ne (by simp), ← ih, close]
      cases close stack <;> simp

theorem drain_eq_none_iff : drain stack = none ↔ stack.count .opening ≠ 0 := by
  induction stack with
  | nil => simp [drain]
  | cons entry stack ih =>
    cases entry with
    | opening => simp [drain]
    | operator op =>
      rw [List.count_cons_of_ne (by simp), ← ih, drain]
      cases drain stack <;> simp

/-- An operator lets go operators only: what it takes off the stack comes out, and the open
parentheses stay where they are. -/
theorem step_operator (store : Store) (stack : List Pending) (op : Operator) :
    ∃ ops rest, stack = waits ops ++ rest ∧
      step store stack (.operator op) = .ok (leaves ops, .operator op :: rest) := by
  obtain ⟨ops, rest, rfl, hops, hrest⟩ := exists_waits op.precedence stack
  refine ⟨ops, rest, rfl, ?_⟩
  rw [step, release_waits hops hrest]

/-- Only an undeclared name and a closing parenthesis without an open one are not taken. -/
theorem step_eq_error_iff {kind : Token.Kind} :
    step store stack kind = .error e ↔
      (∃ name, kind = .name name ∧ store.contains name = false ∧ e = .unknown name) ∨
        (kind = .closing ∧ stack.count .opening = 0 ∧ e = .parentheses) := by
  cases kind with
  | number value => simp [step]
  | name name => cases hname : store.contains name <;> simp [step, hname, @eq_comm Error e]
  | opening => simp [step]
  | closing =>
    rw [← close_eq_none_iff]
    cases hclose : close stack <;> simp [step, hclose, @eq_comm Error e]
  | operator op => simp [step]

/-- Tokens fail with the first of them that is not taken. -/
theorem steps_eq_error_iff :
    steps store stack kinds = .error e ↔
      ∃ front kind back out middle, kinds = front ++ kind :: back ∧
        steps store stack front = .ok (out, middle) ∧ step store middle kind = .error e := by
  constructor
  · intro h
    induction kinds generalizing stack with
    | nil => cases h
    | cons kind kinds ih =>
      cases hstep : step store stack kind with
      | error cause =>
        simp only [steps, hstep] at h
        exact ⟨[], kind, kinds, [], stack, rfl, rfl, hstep.trans h⟩
      | ok result =>
        obtain ⟨out, rest⟩ := result
        have hrest : steps store rest kinds = .error e := by
          simp only [steps, hstep] at h
          split at h
          · rename_i hsteps
            exact hsteps.trans h
          · cases h
        obtain ⟨front, next, back, more, middle, rfl, hfront, hnext⟩ := ih hrest
        exact ⟨kind :: front, next, back, _, middle, rfl, steps_cons_ok hstep hfront, hnext⟩
  · rintro ⟨front, kind, back, out, middle, rfl, hfront, hkind⟩
    rw [steps_append, hfront]
    simp only [steps, hkind]

/-- The stack has exactly the parentheses that the tokens leave open, and the tokens are taken
as soon as they pass. -/
theorem passes_iff {n : Nat} :
    Passes store kinds n ↔
      ∃ terms last, steps store [] kinds = .ok (terms, last) ∧ last.count .opening = n := by
  constructor
  · rintro ⟨hdeclared, hnesting⟩
    cases hsteps : steps store [] kinds with
    | ok result =>
      obtain ⟨terms, last⟩ := result
      have hcount := nesting_of_steps hsteps
      rw [List.count_nil, hnesting] at hcount
      exact ⟨terms, last, rfl, (Option.some.inj hcount).symm⟩
    | error e =>
      -- The token that is not taken would be an undeclared name or leave no nesting at all.
      obtain ⟨front, kind, back, out, middle, rfl, hfront, hkind⟩ := steps_eq_error_iff.mp hsteps
      rcases step_eq_error_iff.mp hkind with ⟨name, rfl, hname, -⟩ | ⟨rfl, hcount, -⟩
      · rw [hdeclared name (by simp)] at hname
        cases hname
      · have hempty := nesting_of_steps hfront
        rw [List.count_nil, hcount] at hempty
        rw [nesting_append, hempty] at hnesting
        cases hnesting
  · rintro ⟨terms, last, hsteps, rfl⟩
    exact ⟨declared_of_steps hsteps, nesting_of_steps hsteps⟩

theorem steps_eq_unknown_iff {name : String} :
    steps store [] kinds = .error (.unknown name) ↔ StopsAtName store kinds name := by
  rw [steps_eq_error_iff]
  constructor
  · rintro ⟨front, kind, back, out, middle, rfl, hfront, hkind⟩
    rcases step_eq_error_iff.mp hkind with ⟨other, rfl, hother, he⟩ | ⟨-, -, he⟩
    · cases he
      exact ⟨front, back, _, rfl, passes_iff.mpr ⟨out, middle, hfront, rfl⟩, hother⟩
    · cases he
  · rintro ⟨front, back, n, rfl, hpasses, hname⟩
    obtain ⟨out, middle, hfront, -⟩ := passes_iff.mp hpasses
    exact ⟨front, _, back, out, middle, rfl, hfront,
      step_eq_error_iff.mpr (.inl ⟨name, rfl, hname, rfl⟩)⟩

theorem steps_eq_parentheses_iff :
    steps store [] kinds = .error .parentheses ↔ StopsAtClosing store kinds := by
  rw [steps_eq_error_iff]
  constructor
  · rintro ⟨front, kind, back, out, middle, rfl, hfront, hkind⟩
    rcases step_eq_error_iff.mp hkind with ⟨other, -, -, he⟩ | ⟨rfl, hcount, -⟩
    · cases he
    · exact ⟨front, back, rfl, passes_iff.mpr ⟨out, middle, hfront, hcount⟩⟩
  · rintro ⟨front, back, rfl, hpasses⟩
    obtain ⟨out, middle, hfront, hcount⟩ := passes_iff.mp hpasses
    exact ⟨front, _, back, out, middle, rfl, hfront,
      step_eq_error_iff.mpr (.inr ⟨rfl, hcount, rfl⟩)⟩

theorem ofKinds_eq_error_iff :
    ofKinds store kinds = .error e ↔
      steps store [] kinds = .error e ∨ (EndsOpen store kinds ∧ e = .parentheses) := by
  cases hsteps : steps store [] kinds with
  | error cause =>
    have hopen : ¬ EndsOpen store kinds := by
      rintro ⟨n, hpasses⟩
      obtain ⟨terms, last, hok, -⟩ := passes_iff.mp hpasses
      rw [hsteps] at hok
      cases hok
    simp [ofKinds, hsteps, hopen]
  | ok result =>
    obtain ⟨terms, last⟩ := result
    have hopen : EndsOpen store kinds ↔ drain last = none := by
      rw [drain_eq_none_iff]
      constructor
      · rintro ⟨n, hpasses⟩
        obtain ⟨_, _, hok, hcount⟩ := passes_iff.mp hpasses
        rw [hsteps] at hok
        cases hok
        omega
      · intro hcount
        obtain ⟨n, hn⟩ := Nat.exists_eq_succ_of_ne_zero hcount
        exact ⟨n, passes_iff.mpr ⟨terms, last, hsteps, hn⟩⟩
    rw [hopen]
    cases hdrain : drain last <;> simp [ofKinds, hsteps, hdrain, @eq_comm Error e]

theorem ofKinds_eq_unknown_iff {name : String} :
    ofKinds store kinds = .error (.unknown name) ↔ StopsAtName store kinds name := by
  rw [ofKinds_eq_error_iff, steps_eq_unknown_iff]
  simp

theorem ofKinds_eq_parentheses_iff :
    ofKinds store kinds = .error .parentheses ↔
      StopsAtClosing store kinds ∨ EndsOpen store kinds := by
  rw [ofKinds_eq_error_iff, steps_eq_parentheses_iff]
  simp

/-- Tokens that have no postfix order have an undeclared name or parentheses that do not match. -/
theorem unknown_or_parentheses (h : ofKinds store kinds = .error e) :
    (∃ name, e = .unknown name) ∨ e = .parentheses := by
  rcases ofKinds_eq_error_iff.mp h with hsteps | ⟨-, he⟩
  · obtain ⟨front, kind, back, out, middle, -, -, hkind⟩ := steps_eq_error_iff.mp hsteps
    rcases step_eq_error_iff.mp hkind with ⟨name, -, -, he⟩ | ⟨-, -, he⟩
    · exact .inl ⟨name, he⟩
    · exact .inr he
  · exact .inr he

/-- What becomes of tokens is settled by their names and the depth of their parentheses. An
undeclared name is reported if the reading stops at it, the parentheses if it stops at one
that closes nothing or ends with some open, and in all other cases there is a postfix order.
An operator takes only operators off the stack, so it never resolves a parenthesis. -/
theorem ofKinds_verdict (store : Store) (kinds : List Token.Kind) :
    (∀ name, ofKinds store kinds = .error (.unknown name) ↔ StopsAtName store kinds name) ∧
      (ofKinds store kinds = .error .parentheses ↔
        StopsAtClosing store kinds ∨ EndsOpen store kinds) ∧
      ((∃ p, ofKinds store kinds = .ok p) ↔
        ¬ (∃ name, StopsAtName store kinds name) ∧ ¬ StopsAtClosing store kinds ∧
          ¬ EndsOpen store kinds) ∧
      ∀ stack op, ∃ ops rest, stack = waits ops ++ rest ∧
        step store stack (.operator op) = .ok (leaves ops, .operator op :: rest) := by
  refine ⟨fun name => ofKinds_eq_unknown_iff, ofKinds_eq_parentheses_iff, ?_, step_operator store⟩
  rw [← not_or, ← ofKinds_eq_parentheses_iff]
  simp only [← ofKinds_eq_unknown_iff]
  cases h : ofKinds store kinds with
  | ok p => simp
  | error e => rcases unknown_or_parentheses h with ⟨name, rfl⟩ | rfl <;> simp

end Postfix

end GridRover.Expression
