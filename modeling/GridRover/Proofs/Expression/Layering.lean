import GridRover.Proofs.Expression.Conservation

/-!
# Layers of the stack

Open parentheses cut the stack of the postfix order into layers. An operator goes on top only
after all that bind at least as tightly have left its layer, so within a layer the operators
bind more and more tightly towards the top. As there are two strengths of binding, no layer
has more than two operators, and the stack is no higher than the parentheses make it.
-/
namespace GridRover.Expression.Postfix

variable {store : Store} {stack : List Pending}

/-- Every operator binds more tightly than the one right under it. Right under an operator
there may also be an open parenthesis or nothing. -/
def Layered : List Pending → Prop
  | [] => True
  | .opening :: stack => Layered stack
  | .operator op :: stack => Below op.precedence stack ∧ Layered stack

theorem Layered.of_append {above : List Pending} (h : Layered (above ++ stack)) :
    Layered stack := by
  induction above with
  | nil => exact h
  | cons entry above ih =>
    cases entry with
    | opening => exact ih h
    | operator op => exact ih h.2

/-- A token keeps the layers. A closing parenthesis uncovers an older layer as it was left, and
an operator goes onto what binds less tightly than it does. -/
theorem Layered.of_step {rest : List Pending} {kind : Token.Kind} {out : Postfix}
    (h : Layered stack) (hstep : step store stack kind = .ok (out, rest)) : Layered rest := by
  cases takes_of_step hstep with
  | number value => exact h
  | name hname => exact h
  | opening => exact h
  | closing hstack =>
    subst hstack
    have hrest : Layered (.opening :: rest) := h.of_append
    exact hrest
  | operator hstack hops hbelow =>
    subst hstack
    exact ⟨hbelow, h.of_append⟩

theorem Layered.of_steps {last : List Pending} {kinds : List Token.Kind} {terms : Postfix}
    (h : Layered stack) (hsteps : steps store stack kinds = .ok (terms, last)) :
    Layered last := by
  induction kinds generalizing stack terms with
  | nil =>
    cases hsteps
    exact h
  | cons kind kinds ih =>
    obtain ⟨out, middle, more, hstep, hrest, rfl⟩ := steps_cons_iff.mp hsteps
    exact ih (h.of_step hstep) hrest

/-- Operators with no parenthesis between them bind the more tightly the higher they are, be
they neighbours or not. -/
theorem Layered.pairwise {ops : List Operator} (h : Layered (waits ops ++ stack)) :
    ops.Pairwise fun upper lower => lower.precedence < upper.precedence := by
  induction ops with
  | nil => exact .nil
  | cons upper ops ih =>
    have hops := ih h.2
    refine .cons ?_ hops
    cases ops with
    | nil => simp
    | cons next ops =>
      have hnext : next.precedence < upper.precedence := h.1
      intro lower hlower
      rcases List.mem_cons.mp hlower with rfl | hlower
      · exact hnext
      · exact Nat.lt_trans ((List.pairwise_cons.mp hops).1 lower hlower) hnext

theorem two_le_precedence (op : Operator) : 2 ≤ op.precedence := by
  cases op <;> decide

/-- Four is above both strengths of binding. -/
theorem below_four (stack : List Pending) : Below 4 stack := by
  cases stack with
  | nil => trivial
  | cons entry stack =>
    cases entry with
    | opening => trivial
    | operator op => cases op <;> simp [Below, Operator.precedence]

/-- A layer whose top binds less tightly than `level` has room for as many operators as there
are strengths below that level. Every parenthesis comes with a full layer under it. -/
theorem Layered.length_le {level : Nat} (h : Layered stack) (htop : Below level stack)
    (hlevel : 2 ≤ level) : stack.length ≤ 3 * stack.count .opening + (level - 2) := by
  induction stack generalizing level with
  | nil => exact Nat.zero_le _
  | cons entry stack ih =>
    cases entry with
    | opening =>
      have hle := ih h (below_four stack) (by decide)
      rw [List.length_cons, List.count_cons_self]
      omega
    | operator op =>
      have hop : op.precedence < level := htop
      have hle := ih h.2 h.1 (two_le_precedence op)
      have htwo := two_le_precedence op
      rw [List.length_cons, List.count_cons_of_ne (by simp)]
      omega

/-- The stack after any tokens that are taken, the first `i` of a list. It holds the parentheses
that these tokens leave open. Operators that no parenthesis parts bind ever more tightly from
the bottom to the top, so there are at most two of them on the ground and on each
parenthesis. -/
theorem stack_layered (store : Store) (kinds : List Token.Kind) (i : Nat) (terms : Postfix)
    (stack : List Pending) (h : steps store [] (kinds.take i) = .ok (terms, stack)) :
    nesting 0 (kinds.take i) = some (stack.count .opening) ∧
      (kinds.take i).count .opening = stack.count .opening + (kinds.take i).count .closing ∧
      (∀ above ops below, stack = above ++ waits ops ++ below →
        ops.Pairwise fun upper lower => lower.precedence < upper.precedence) ∧
      stack.length ≤ 2 * (stack.count .opening + 1) + stack.count .opening := by
  have hnesting : nesting 0 (kinds.take i) = some (stack.count .opening) := nesting_of_steps h
  have hground : Layered [] := trivial
  have hlayered : Layered stack := hground.of_steps h
  refine ⟨hnesting, ?_, ?_, ?_⟩
  · have hcount := count_of_nesting hnesting
    omega
  · rintro above ops below rfl
    rw [List.append_assoc] at hlayered
    exact hlayered.of_append.pairwise
  · have hle := hlayered.length_le (below_four stack) (by decide)
    omega

/-- Operators in a row fill three layers to the last place. The parenthesis that closes the upper
one and the sum behind it clear the layer under it, where the new operator stands alone. -/
theorem stack_layered_full :
    let kinds : List Token.Kind := [.operator .add, .operator .divide, .opening,
      .operator .subtract, .operator .multiply, .opening, .operator .add, .operator .divide,
      .closing, .operator .add]
    (∃ terms stack, steps .empty [] (kinds.take 8) = .ok (terms, stack) ∧
      nesting 0 (kinds.take 8) = some 2 ∧ stack.length = 2 * (2 + 1) + 2) ∧
    ∃ terms, steps .empty [] (kinds.take 10) =
        .ok (terms, [.operator .add, .opening, .operator .divide, .operator .add]) ∧
      [Operator.divide, .add].Pairwise fun upper lower => lower.precedence < upper.precedence := by
  intro kinds
  constructor
  · have h : steps .empty [] (kinds.take 8) = .ok ([], waits [.divide, .add] ++ .opening ::
        (waits [.multiply, .subtract] ++ .opening :: waits [.divide, .add])) := rfl
    exact ⟨_, _, h, (stack_layered _ kinds 8 _ _ h).1, rfl⟩
  · have h : steps .empty [] (kinds.take 10) =
        .ok (leaves [.divide, .add, .multiply, .subtract],
          [.operator .add, .opening, .operator .divide, .operator .add]) := rfl
    refine ⟨_, h, ?_⟩
    exact (stack_layered _ kinds 10 _ _ h).2.2.1 [.operator .add, .opening] _ [] rfl

end GridRover.Expression.Postfix
