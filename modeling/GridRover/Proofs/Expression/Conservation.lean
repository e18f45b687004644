import GridRover.Proofs.Expression.Ordering
import Mathlib.Data.List.Perm.Basic

/-!
# What ordering keeps

Bringing tokens into postfix order moves operators and drops parentheses, and that is all
it does to them. The terms that are let out and the operators that wait are at all times
the terms of the tokens read so far, and as many parentheses wait as are open.
-/
namespace GridRover.Expression

/-- The term that a token becomes; parentheses become none. -/
def Token.Kind.term? : Token.Kind → Option Term
  | .number value => some (.number value)
  | .name text => some (.variable text)
  | .operator op => some (.operator op)
  | .opening | .closing => none

/-- The term of a number or a name. -/
def Token.Kind.operand? : Token.Kind → Option Term
  | .number value => some (.number value)
  | .name text => some (.variable text)
  | .operator _ | .opening | .closing => none

def Token.Kind.operator? : Token.Kind → Option Operator
  | .operator op => some op
  | .number _ | .name _ | .opening | .closing => none

def Token.Kind.isParenthesis : Token.Kind → Bool
  | .opening | .closing => true
  | .number _ | .name _ | .operator _ => false

def Term.isOperand : Term → Bool
  | .number _ | .variable _ => true
  | .operator _ => false

def Term.operator? : Term → Option Operator
  | .operator op => some op
  | .number _ | .variable _ => none

/-- How many parentheses are open after tokens when `n` are open before them; none if a
closing parenthesis has nothing to close. -/
def nesting : Nat → List Token.Kind → Option Nat
  | n, [] => some n
  | n, .number _ :: kinds | n, .name _ :: kinds | n, .operator _ :: kinds => nesting n kinds
  | n, .opening :: kinds => nesting (n + 1) kinds
  | 0, .closing :: _ => none
  | n + 1, .closing :: kinds => nesting n kinds

/-- What nesting adds up to: every parenthesis that is opened is closed or left open. -/
theorem count_of_nesting {n k : Nat} {kinds : List Token.Kind} (h : nesting n kinds = some k) :
    n + kinds.count .opening = k + kinds.count .closing := by
  fun_induction nesting n kinds with
  | case1 n =>
    cases h
    rfl
  | case2 n value kinds ih => simpa using ih h
  | case3 n text kinds ih => simpa using ih h
  | case4 n op kinds ih => simpa using ih h
  | case5 n kinds ih =>
    have hrest := ih h
    rw [List.count_cons_self, List.count_cons_of_ne (by simp)]
    omega
  | case6 kinds => cases h
  | case7 n kinds ih =>
    have hrest := ih h
    rw [List.count_cons_self, List.count_cons_of_ne (by simp)]
    omega

namespace Postfix

open scoped List

variable {store : Store}

/-- All that a token can do: what it lets out and what it leaves on the stack. -/
inductive Takes (store : Store) (stack : List Pending) :
    Token.Kind → Postfix → List Pending → Prop
  | number (value : Float) : Takes store stack (.number value) [.number value] stack
  | name {name : String} (h : store.contains name = true) :
    Takes store stack (.name name) [.variable name] stack
  | opening : Takes store stack .opening [] (.opening :: stack)
  | closing {ops : List Operator} {rest : List Pending}
    (h : stack = waits ops ++ .opening :: rest) : Takes store stack .closing (leaves ops) rest
  | operator {op : Operator} {ops : List Operator} {rest : List Pending}
    (h : stack = waits ops ++ rest) (hops : ∀ top ∈ ops, op.precedence ≤ top.precedence)
    (hrest : Below op.precedence rest) :
    Takes store stack (.operator op) (leaves ops) (.operator op :: rest)

theorem takes_of_step {stack rest : List Pending} {kind : Token.Kind} {out : Postfix}
    (h : step store stack kind = .ok (out, rest)) : Takes store stack kind out rest := by
  cases kind with
  | number value =>
    cases h
    exact .number value
  | name name =>
    by_cases hname : store.contains name = true
    · rw [step, if_pos hname] at h
      cases h
      exact .name hname
    · rw [step, if_neg hname] at h
      cases h
  | operator op =>
    obtain ⟨ops, below, rfl, hops, hbelow⟩ := exists_waits op.precedence stack
    rw [step, release_waits hops hbelow] at h
    cases h
    exact .operator rfl hops hbelow
  | opening =>
    cases h
    exact .opening
  | closing =>
    cases hclose : close stack with
    | none => simp [step, hclose] at h
    | some result =>
      obtain ⟨terms, below⟩ := result
      simp only [step, hclose] at h
      cases h
      obtain ⟨ops, hstack, rfl⟩ := exists_of_close hclose
      exact .closing hstack

/-- The operators that wait, as the terms they become. -/
def waiting : List Pending → Postfix
  | [] => []
  | .opening :: stack => waiting stack
  | .operator op :: stack => .operator op :: waiting stack

theorem waiting_waits (ops : List Operator) (stack : List Pending) :
    waiting (waits ops ++ stack) = leaves ops ++ waiting stack := by
  induction ops with
  | nil => rfl
  | cons op ops ih => rw [waits_cons, List.cons_append, waiting, ih, leaves_cons, List.cons_append]

theorem count_opening_waits (ops : List Operator) (stack : List Pending) :
    (waits ops ++ stack).count .opening = stack.count .opening := by
  induction ops with
  | nil => rfl
  | cons op ops ih => simpa using ih

/-- A token adds its own term to the terms let out and waiting, and no other. -/
theorem perm_of_step {stack rest : List Pending} {kind : Token.Kind} {out : Postfix}
    (h : step store stack kind = .ok (out, rest)) :
    (out ++ waiting rest).Perm (kind.term?.toList ++ waiting stack) := by
  cases takes_of_step h with
  | number value => exact .refl _
  | name hname => exact .refl _
  | opening => exact .refl _
  | closing hstack =>
    rw [hstack, waiting_waits]
    exact .refl _
  | operator hstack hops hrest =>
    rw [hstack, waiting_waits]
    exact List.perm_middle

theorem perm_of_steps {stack last : List Pending} {kinds : List Token.Kind} {terms : Postfix}
    (h : steps store stack kinds = .ok (terms, last)) :
    (terms ++ waiting last).Perm (kinds.filterMap Token.Kind.term? ++ waiting stack) := by
  induction kinds generalizing stack terms with
  | nil =>
    cases h
    exact .refl _
  | cons kind kinds ih =>
    obtain ⟨out, middle, more, hstep, hsteps, rfl⟩ := steps_cons_iff.mp h
    have hcons : (kind :: kinds).filterMap Token.Kind.term? =
        kind.term?.toList ++ kinds.filterMap Token.Kind.term? := by
      simp only [List.filterMap_eq_flatMap_toList, List.flatMap_cons]
    rw [hcons, List.append_assoc, List.append_assoc]
    calc out ++ (more ++ waiting last)
      _ ~ out ++ (kinds.filterMap Token.Kind.term? ++ waiting middle) := (ih hsteps).append_left out
      _ ~ kinds.filterMap Token.Kind.term? ++ (out ++ waiting middle) :=
        List.perm_append_comm_assoc ..
      _ ~ kinds.filterMap Token.Kind.term? ++ (kind.term?.toList ++ waiting stack) :=
        (perm_of_step hstep).append_left _
      _ ~ kind.term?.toList ++ (kinds.filterMap Token.Kind.term? ++ waiting stack) :=
        List.perm_append_comm_assoc ..

theorem nesting_of_step {stack rest : List Pending} {kind : Token.Kind} {out : Postfix}
    (h : step store stack kind = .ok (out, rest)) (kinds : List Token.Kind) :
    nesting (stack.count .opening) (kind :: kinds) = nesting (rest.count .opening) kinds := by
  cases takes_of_step h with
  | number value => rw [nesting]
  | name hname => rw [nesting]
  | opening => rw [nesting, List.count_cons_self]
  | closing hstack => rw [hstack, count_opening_waits, List.count_cons_self, nesting]
  | operator hstack hops hrest =>
    rw [hstack, count_opening_waits, nesting, List.count_cons_of_ne (by simp)]

theorem nesting_of_steps {stack last : List Pending} {kinds : List Token.Kind} {terms : Postfix}
    (h : steps store stack kinds = .ok (terms, last)) :
    nesting (stack.count .opening) kinds = some (last.count .opening) := by
  induction kinds generalizing stack terms with
  | nil =>
    cases h
    rfl
  | cons kind kinds ih =>
    obtain ⟨out, middle, more, hstep, hsteps, rfl⟩ := steps_cons_iff.mp h
    rw [nesting_of_step hstep, ih hsteps]

/-- The postfix order of tokens has their terms, each as often as the tokens have it. -/
theorem perm_of_ofKinds {kinds : List Token.Kind} {p : Postfix} (h : ofKinds store kinds = .ok p) :
    p.Perm (kinds.filterMap Token.Kind.term?) := by
  obtain ⟨terms, stack, out, hsteps, hdrain, rfl⟩ := ofKinds_iff.mp h
  obtain ⟨ops, rfl, rfl⟩ := exists_of_drain hdrain
  have hperm := perm_of_steps hsteps
  have hwaiting := waiting_waits ops []
  rw [List.append_nil] at hwaiting
  rw [hwaiting] at hperm
  simpa [waiting] using hperm

/-- Tokens have a postfix order only if their parentheses match. -/
theorem nesting_of_ofKinds {kinds : List Token.Kind} {p : Postfix}
    (h : ofKinds store kinds = .ok p) : nesting 0 kinds = some 0 := by
  obtain ⟨terms, stack, out, hsteps, hdrain, rfl⟩ := ofKinds_iff.mp h
  obtain ⟨ops, rfl, rfl⟩ := exists_of_drain hdrain
  have hnesting := nesting_of_steps hsteps
  have hcount := count_opening_waits ops []
  rw [List.append_nil] at hcount
  rwa [hcount] at hnesting

theorem filter_leaves (ops : List Operator) : (leaves ops).filter Term.isOperand = [] := by
  apply List.filter_eq_nil_iff.mpr
  intro term hterm
  obtain ⟨op, -, rfl⟩ := List.mem_map.mp hterm
  simp [Term.isOperand]

/-- Only a number or a name lets out an operand, and at once. -/
theorem operands_of_step {stack rest : List Pending} {kind : Token.Kind} {out : Postfix}
    (h : step store stack kind = .ok (out, rest)) :
    out.filter Term.isOperand = kind.operand?.toList := by
  cases takes_of_step h with
  | number value => rfl
  | name hname => rfl
  | opening => rfl
  | closing hstack => exact filter_leaves _
  | operator hstack hops hrest => exact filter_leaves _

theorem operands_of_steps {stack last : List Pending} {kinds : List Token.Kind} {terms : Postfix}
    (h : steps store stack kinds = .ok (terms, last)) :
    terms.filter Term.isOperand = kinds.filterMap Token.Kind.operand? := by
  induction kinds generalizing stack terms with
  | nil =>
    cases h
    rfl
  | cons kind kinds ih =>
    obtain ⟨out, middle, more, hstep, hsteps, rfl⟩ := steps_cons_iff.mp h
    rw [List.filter_append, operands_of_step hstep, ih hsteps]
    simp only [List.filterMap_eq_flatMap_toList, List.flatMap_cons]

/-- Operands come out in the order of the tokens, whatever waits on the stack meanwhile. -/
theorem operands_of_ofKinds {kinds : List Token.Kind} {p : Postfix}
    (h : ofKinds store kinds = .ok p) :
    p.filter Term.isOperand = kinds.filterMap Token.Kind.operand? := by
  obtain ⟨terms, stack, out, hsteps, hdrain, rfl⟩ := ofKinds_iff.mp h
  obtain ⟨ops, rfl, rfl⟩ := exists_of_drain hdrain
  rw [List.filter_append, operands_of_steps hsteps, filter_leaves, List.append_nil]

theorem operators_of_ofKinds {kinds : List Token.Kind} {p : Postfix}
    (h : ofKinds store kinds = .ok p) :
    (p.filterMap Term.operator?).Perm (kinds.filterMap Token.Kind.operator?) := by
  have hperm := (perm_of_ofKinds h).filterMap Term.operator?
  rw [List.filterMap_filterMap] at hperm
  have hterm : (fun kind : Token.Kind => kind.term?.bind Term.operator?) =
      Token.Kind.operator? := by
    funext kind
    cases kind <;> rfl
  rwa [hterm] at hperm

theorem length_of_ofKinds {kinds : List Token.Kind} {p : Postfix}
    (h : ofKinds store kinds = .ok p) :
    p.length = (kinds.filter fun kind => !kind.isParenthesis).length := by
  rw [(perm_of_ofKinds h).length_eq, List.length_filterMap_eq_countP, List.countP_eq_length_filter]
  congr 2
  funext kind
  cases kind <;> rfl

/-- The postfix order of tokens, be they an expression or not, has their numbers and names in
the order of the tokens and their operators as often as the tokens have them. Nothing else
is in it, and so it is as long as the tokens without their parentheses. -/
theorem ofKinds_conserves (store : Store) (kinds : List Token.Kind) (p : Postfix)
    (h : ofKinds store kinds = .ok p) :
    p.filter Term.isOperand = kinds.filterMap Token.Kind.operand? ∧
      (p.filterMap Term.operator?).Perm (kinds.filterMap Token.Kind.operator?) ∧
      p.length = (kinds.filter fun kind => !kind.isParenthesis).length :=
  ⟨operands_of_ofKinds h, operators_of_ofKinds h, length_of_ofKinds h⟩

/-- Tokens that are no expression and have a postfix order all the same: an operator in front,
one right behind a parenthesis and one at the end. -/
theorem ofKinds_conserves_stray_operators :
    ∃ p, ofKinds (Store.empty.insert "x" ⟨.float, 0⟩)
        [.operator .multiply, .number 2, .opening, .operator .subtract, .name "x",
          .operator .divide, .closing, .name "x", .operator .add] = .ok p ∧
      p.filter Term.isOperand = [.number 2, .variable "x", .variable "x"] ∧
      (p.filterMap Term.operator?).Perm [.multiply, .subtract, .divide, .add] ∧ p.length = 7 := by
  have h : ofKinds (Store.empty.insert "x" ⟨.float, 0⟩)
      [.operator .multiply, .number 2, .opening, .operator .subtract, .name "x",
        .operator .divide, .closing, .name "x", .operator .add] =
      .ok [.number 2, .variable "x", .operator .divide, .operator .subtract, .variable "x",
        .operator .multiply, .operator .add] := rfl
  exact ⟨_, h, ofKinds_conserves _ _ _ h⟩

end Postfix

end GridRover.Expression
