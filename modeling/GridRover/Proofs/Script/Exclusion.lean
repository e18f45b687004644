import GridRover.Proofs.Expedition
import GridRover.Proofs.Expression.Munch
import GridRover.Proofs.Expression.Outcome
import GridRover.Proofs.Expression.Verdict

/-!
# Failures that never occur

Terms can lack a variable when they run, and tokens can end with a parenthesis open. Neither
befalls a text. Ordering lets declared names through and no others, and the terms run on the
same store. A text has tokens only if it opens as many parentheses as it closes, so for one
that stays open there is another that closes nothing, and that one is reported first. No
program fails for a missing variable of this kind, then, however it is run.
-/
namespace GridRover

namespace Expression

open Postfix

variable {store : Store} {text : String} {tokens : List Token}

theorem count_of_tokenize (h : tokenize text = .ok tokens) :
    (tokens.map Token.kind).count .opening = (tokens.map Token.kind).count .closing := by
  have hdepth := (tokenize_eq_ok_iff.mp h).2
  rw [← countP_kind, ← countP_kind]
  exact depth_eq_zero_iff.mp hdepth

/-- The tokens of a text leave no parenthesis open, unless one closes nothing. -/
theorem eq_zero_of_nesting {n : Nat} (ht : tokenize text = .ok tokens)
    (h : nesting 0 (tokens.map Token.kind) = some n) : n = 0 := by
  have hnesting := count_of_nesting h
  have htokens := count_of_tokenize ht
  omega

theorem not_endsOpen (ht : tokenize text = .ok tokens) :
    ¬ EndsOpen store (tokens.map Token.kind) := by
  rintro ⟨n, -, hnesting⟩
  cases eq_zero_of_nesting ht hnesting

theorem drain_ne_none {terms : Postfix} {stack : List Pending} (ht : tokenize text = .ok tokens)
    (h : steps store [] (tokens.map Token.kind) = .ok (terms, stack)) : drain stack ≠ none := by
  have hnesting := nesting_of_steps h
  rw [List.count_nil] at hnesting
  intro hdrain
  exact drain_eq_none_iff.mp hdrain (eq_zero_of_nesting ht hnesting)

/-- Ordering has seen every name that the evaluation looks up. -/
theorem value_ne_undefined (store : Store) (text name : String) :
    value store text ≠ .error (.undefined name) := by
  intro h
  rcases value_error_iff.mp h with ⟨cause, -, he⟩ | ⟨tokens, -, hp | ⟨p, hp, hvalue⟩⟩
  · cases he
  · rcases unknown_or_parentheses hp with ⟨other, he⟩ | he <;> cases he
  · obtain ⟨front, back, rfl, -, hname⟩ := value_eq_undefined_iff.mp hvalue
    rw [declared_of_ofKinds hp name (name_of_variable_mem_ofKinds hp (by simp))] at hname
    cases hname

theorem value_eq_parentheses_iff :
    value store text = .error .parentheses ↔
      ∃ tokens, tokenize text = .ok tokens ∧ StopsAtClosing store (tokens.map Token.kind) := by
  constructor
  · intro h
    rcases value_error_iff.mp h with ⟨cause, -, he⟩ | ⟨tokens, ht, hp | ⟨p, -, hvalue⟩⟩
    · cases he
    · rcases ofKinds_eq_parentheses_iff.mp hp with hclosing | hopen
      · exact ⟨tokens, ht, hclosing⟩
      · exact absurd hopen (not_endsOpen ht)
    · -- The evaluation knows nothing of parentheses.
      rcases undefined_or_imbalance hvalue with ⟨name, he⟩ | ⟨n, he⟩ <;> cases he
  · rintro ⟨tokens, ht, hclosing⟩
    exact value_error_iff.mpr
      (.inr ⟨tokens, ht, .inl (ofKinds_eq_parentheses_iff.mpr (.inl hclosing))⟩)

end Expression

namespace Script.Machine

/-- A line that fails for an expression has one in it that fails in this way. -/
theorem exists_value_of_failure {m : Machine} {failure : Failure} {e : Expression.Error}
    (h : m.advance.2 = .error failure) (hcause : failure.cause = .expression e) :
    ∃ expression, Expression.value m.store expression = .error e := by
  obtain ⟨-, -, hplan⟩ := line_of_failure h
  rw [hcause] at hplan
  cases hstatement : Statement.ofLine? failure.text with
  | none => simp [plan, hstatement] at hplan
  | some statement =>
    simp only [plan, hstatement] at hplan
    cases action_eq_error_iff.mp hplan with
    | initializer hname he => exact ⟨_, he⟩
    | operand hv he => exact ⟨_, he⟩

theorem advance_ne_undefined (m : Machine) (line : Nat) (text name : String) :
    m.advance.2 ≠ .error ⟨line, text, .expression (.undefined name)⟩ := by
  intro h
  obtain ⟨expression, hvalue⟩ := exists_value_of_failure h rfl
  exact Expression.value_ne_undefined m.store expression name hvalue

end Script.Machine

open Expression Script

/-- No text fails for a variable that the evaluation misses, and none for a parenthesis that
the ordering finds open at the end: parentheses are reported exactly where one closes nothing.
So no step of a machine, no run of one and no journey fails for a variable of this kind. -/
theorem excluded_failures :
    (∀ (store : Store) (text name : String),
      value store text ≠ .error (.undefined name)) ∧
    (∀ (store : Store) (text : String), ¬ ∃ tokens terms stack, tokenize text = .ok tokens ∧
      Postfix.steps store [] (tokens.map Token.kind) = .ok (terms, stack) ∧
      Postfix.drain stack = none) ∧
    (∀ (store : Store) (text : String), value store text = .error .parentheses ↔
      ∃ tokens, tokenize text = .ok tokens ∧ StopsAtClosing store (tokens.map Token.kind)) ∧
    (∀ (m : Machine) (line : Nat) (text name : String),
      m.advance.2 ≠ .error ⟨line, text, .expression (.undefined name)⟩) ∧
    (∀ (m last : Machine) (line : Nat) (text name : String),
      m.run ≠ some (last, .error ⟨line, text, .expression (.undefined name)⟩)) ∧
    ∀ (e : Expedition) (limit : Option Nat) (line : Nat) (text name : String),
      (e.travel limit).ending ≠ some (.failed ⟨line, text, .expression (.undefined name)⟩) := by
  refine ⟨value_ne_undefined, ?_, fun _ _ => value_eq_parentheses_iff,
    Machine.advance_ne_undefined, ?_, ?_⟩
  · rintro store text ⟨tokens, terms, stack, ht, hsteps, hdrain⟩
    exact drain_ne_none ht hsteps hdrain
  · intro m last line text name h
    obtain ⟨n, -, -, hresult⟩ := Machine.run_eq_some_iff.mp h
    exact Machine.advance_ne_undefined (m.after n) line text name hresult
  · intro e limit line text name h
    obtain ⟨n, -, -, hresult, -⟩ := Expedition.exists_of_failed h
    exact Machine.advance_ne_undefined (e.machine.after n) line text name hresult

-- Other tokens and other terms do fail in these two ways.
example : Postfix.ofKinds .empty [.opening] = .error .parentheses := rfl

example : Postfix.value .empty [.variable "x"] = .error (.undefined "x") := rfl

end GridRover
