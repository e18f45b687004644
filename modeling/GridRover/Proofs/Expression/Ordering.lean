import GridRover.Expression.Postfix

/-!
# Operators that wait

How the stack of the postfix order treats a block of operators on top of it. A looser
operator lets go the whole block, a closing parenthesis and the end of the tokens do so
whatever the operators are, and a stack whose top binds less tightly than an operator
is left alone by it.
-/
namespace GridRover.Expression

variable {store : Store}

/-- Every name among the tokens is in the store. -/
def Declared (store : Store) (kinds : List Token.Kind) : Prop :=
  ∀ name, Token.Kind.name name ∈ kinds → store.contains name = true

theorem Declared.of_subset {kinds more : List Token.Kind} (h : Declared store more)
    (hsub : kinds ⊆ more) : Declared store kinds := fun name hname => h name (hsub hname)

namespace Postfix

/-- Operators on the stack, the one that leaves first in front. -/
def waits (ops : List Operator) : List Pending := ops.map .operator

/-- The same operators once they are let go. -/
def leaves (ops : List Operator) : Postfix := ops.map .operator

@[simp] theorem waits_nil : waits [] = [] := rfl

@[simp] theorem waits_cons (op : Operator) (ops : List Operator) :
    waits (op :: ops) = .operator op :: waits ops := rfl

@[simp] theorem leaves_nil : leaves [] = [] := rfl

@[simp] theorem leaves_cons (op : Operator) (ops : List Operator) :
    leaves (op :: ops) = .operator op :: leaves ops := rfl

theorem waits_append (ops more : List Operator) :
    waits (ops ++ more) = waits ops ++ waits more := List.map_append

theorem leaves_append (ops more : List Operator) :
    leaves (ops ++ more) = leaves ops ++ leaves more := List.map_append

theorem variable_notMem_leaves (name : String) (ops : List Operator) :
    Term.variable name ∉ leaves ops := by
  simp [leaves]

/-- No operator of precedence `level` or more is on top. -/
def Below (level : Nat) : List Pending → Prop
  | .operator top :: _ => top.precedence < level
  | _ => True

theorem Below.mono {level higher : Nat} (hl : level ≤ higher) {stack : List Pending}
    (h : Below level stack) : Below higher stack := by
  cases stack with
  | nil => trivial
  | cons top rest =>
    cases top with
    | opening => trivial
    | operator op => exact Nat.lt_of_lt_of_le h hl

/-- An open parenthesis ranks below an operator, so no operator lets go one. -/
theorem precedence_opening_lt (op : Operator) : Pending.precedence .opening < op.precedence := by
  simp only [Pending.precedence]
  omega

theorem precedence_operator_lt {top op : Operator} :
    Pending.precedence (.operator top) < op.precedence ↔ top.precedence < op.precedence := by
  simp only [Pending.precedence]
  omega

theorem release_of_below {op : Operator} {stack : List Pending} (h : Below op.precedence stack) :
    release op stack = ([], stack) := by
  cases stack with
  | nil => rfl
  | cons top rest =>
    cases top with
    | opening => rw [release, if_pos (precedence_opening_lt op)]
    | operator top => rw [release, if_pos (precedence_operator_lt.mpr h)]

theorem release_waits {op : Operator} {ops : List Operator} {stack : List Pending}
    (hops : ∀ top ∈ ops, op.precedence ≤ top.precedence) (hs : Below op.precedence stack) :
    release op (waits ops ++ stack) = (leaves ops, stack) := by
  induction ops with
  | nil => exact release_of_below hs
  | cons top ops ih =>
    have htop : ¬ Pending.precedence (.operator top) < op.precedence := by
      rw [precedence_operator_lt]
      exact Nat.not_lt.mpr (hops top List.mem_cons_self)
    have hrest := ih fun other h => hops other (List.mem_cons_of_mem top h)
    rw [waits_cons, List.cons_append, release, if_neg htop, hrest]
    rfl

theorem close_waits (ops : List Operator) (stack : List Pending) :
    close (waits ops ++ .opening :: stack) = some (leaves ops, stack) := by
  induction ops with
  | nil => rfl
  | cons top ops ih => simp [close, ih]

theorem drain_waits (ops : List Operator) : drain (waits ops) = some (leaves ops) := by
  induction ops with
  | nil => rfl
  | cons top ops ih => simp [drain, ih]

/-- Every stack begins with a block of operators that bind at least as tightly as `level`, and
what is under the block binds less tightly. -/
theorem exists_waits (level : Nat) (stack : List Pending) :
    ∃ ops rest, stack = waits ops ++ rest ∧ (∀ top ∈ ops, level ≤ top.precedence) ∧
      Below level rest := by
  induction stack with
  | nil => exact ⟨[], [], rfl, by simp, trivial⟩
  | cons entry stack ih =>
    cases entry with
    | opening => exact ⟨[], .opening :: stack, rfl, by simp, trivial⟩
    | operator top =>
      by_cases htop : level ≤ top.precedence
      · obtain ⟨ops, rest, rfl, hops, hrest⟩ := ih
        exact ⟨top :: ops, rest, rfl, by simpa [htop] using hops, hrest⟩
      · exact ⟨[], .operator top :: stack, rfl, by simp, Nat.not_le.mp htop⟩

theorem exists_of_close {stack rest : List Pending} {out : Postfix}
    (h : close stack = some (out, rest)) :
    ∃ ops, stack = waits ops ++ .opening :: rest ∧ out = leaves ops := by
  induction stack generalizing out with
  | nil => cases h
  | cons entry stack ih =>
    cases entry with
    | opening =>
      cases h
      exact ⟨[], rfl, rfl⟩
    | operator top =>
      simp only [close] at h
      split at h
      · rename_i inner last hinner
        cases h
        obtain ⟨ops, rfl, rfl⟩ := ih hinner
        exact ⟨top :: ops, rfl, rfl⟩
      · cases h

theorem exists_of_drain {stack : List Pending} {out : Postfix} (h : drain stack = some out) :
    ∃ ops, stack = waits ops ∧ out = leaves ops := by
  induction stack generalizing out with
  | nil =>
    cases h
    exact ⟨[], rfl, rfl⟩
  | cons entry stack ih =>
    cases entry with
    | opening => cases h
    | operator top =>
      simp only [drain] at h
      split at h
      · rename_i inner hinner
        cases h
        obtain ⟨ops, rfl, rfl⟩ := ih hinner
        exact ⟨top :: ops, rfl, rfl⟩
      · cases h

/-- Tokens are taken one after the other, so a list of them splits anywhere. -/
theorem steps_append (stack : List Pending) (front back : List Token.Kind) :
    steps store stack (front ++ back) =
      match steps store stack front with
      | .error e => .error e
      | .ok (out, middle) =>
        match steps store middle back with
        | .error e => .error e
        | .ok (terms, last) => .ok (out ++ terms, last) := by
  induction front generalizing stack with
  | nil =>
    simp only [List.nil_append, steps]
    cases steps store stack back <;> rfl
  | cons kind front ih =>
    simp only [List.cons_append, steps]
    cases step store stack kind with
    | error e => rfl
    | ok result =>
      obtain ⟨out, rest⟩ := result
      simp only [ih]
      cases steps store rest front with
      | error e => rfl
      | ok result =>
        obtain ⟨more, middle⟩ := result
        simp only
        cases steps store middle back with
        | error e => rfl
        | ok last => simp

theorem steps_append_ok {stack middle last : List Pending} {front back : List Token.Kind}
    {out terms : Postfix} (hf : steps store stack front = .ok (out, middle))
    (hb : steps store middle back = .ok (terms, last)) :
    steps store stack (front ++ back) = .ok (out ++ terms, last) := by
  rw [steps_append, hf]
  simp only [hb]

theorem steps_cons_iff {stack last : List Pending} {kind : Token.Kind}
    {kinds : List Token.Kind} {terms : Postfix} :
    steps store stack (kind :: kinds) = .ok (terms, last) ↔
      ∃ out middle more, step store stack kind = .ok (out, middle) ∧
        steps store middle kinds = .ok (more, last) ∧ terms = out ++ more := by
  constructor
  · intro h
    simp only [steps] at h
    split at h
    · cases h
    · rename_i out middle hstep
      split at h
      · cases h
      · rename_i more last hsteps
        cases h
        exact ⟨out, middle, more, hstep, hsteps, rfl⟩
  · rintro ⟨out, middle, more, hstep, hsteps, rfl⟩
    simp only [steps, hstep, hsteps]

theorem steps_cons_ok {stack middle last : List Pending} {kind : Token.Kind}
    {kinds : List Token.Kind} {out terms : Postfix}
    (hk : step store stack kind = .ok (out, middle))
    (hs : steps store middle kinds = .ok (terms, last)) :
    steps store stack (kind :: kinds) = .ok (out ++ terms, last) :=
  steps_cons_iff.mpr ⟨out, middle, terms, hk, hs, rfl⟩

theorem ofKinds_iff {kinds : List Token.Kind} {p : Postfix} :
    ofKinds store kinds = .ok p ↔
      ∃ terms stack out, steps store [] kinds = .ok (terms, stack) ∧ drain stack = some out ∧
        p = terms ++ out := by
  constructor
  · intro h
    simp only [ofKinds] at h
    split at h
    · cases h
    · rename_i terms stack hsteps
      split at h
      · rename_i out hdrain
        cases h
        exact ⟨terms, stack, out, hsteps, hdrain, rfl⟩
      · cases h
  · rintro ⟨terms, stack, out, hsteps, hdrain, rfl⟩
    simp only [ofKinds, hsteps, hdrain]

end Postfix

end GridRover.Expression
