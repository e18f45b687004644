import GridRover.Proofs.Expression.Infix

/-!
# The trees behind a stack of values

As long as it does not fail, a run builds trees: each value on the stack is the value of
a tree, and the terms run so far are the post-orders of these trees one after the other.
A postfix expression has a value only if this leaves one tree, of which it is the
post-order.
-/
namespace GridRover.Expression

open Postfix

variable {store : Store}

/-- The terms of the trees behind a stack, the tree on top written last. -/
def laid : List Tree → Postfix
  | [] => []
  | tree :: trees => laid trees ++ tree.postorder

/-- Each value of a stack is the value of the tree behind it. -/
def Holds (store : Store) (trees : List Tree) (stack : List Float) : Prop :=
  List.Forall₂ (fun tree x => tree.value? store = some x) trees stack

theorem exists_trees_of_push {term : Term} {stack rest : List Float} {trees : List Tree}
    (hold : Holds store trees stack) (h : push store term stack = .ok rest) :
    ∃ grown, Holds store grown rest ∧ laid grown = laid trees ++ [term] := by
  cases term with
  | number value =>
    cases h
    exact ⟨.number value :: trees, .cons rfl hold, rfl⟩
  | «variable» name =>
    cases hname : store.get? name with
    | none => simp [push, hname] at h
    | some x =>
      simp only [push, hname] at h
      cases h
      exact ⟨.variable name :: trees, .cons hname hold, rfl⟩
  | operator op =>
    cases hold with
    | nil => cases h
    | @cons right y trees stack hy hold =>
      cases hold with
      | nil => cases h
      | @cons left x trees stack hx hold =>
        cases h
        refine ⟨.node op left right :: trees, .cons (Tree.value?_node hx hy) hold, ?_⟩
        simp only [laid, Tree.postorder, List.append_assoc]

theorem exists_trees_of_run {p : Postfix} {stack last : List Float} {trees : List Tree}
    (hold : Holds store trees stack) (h : run store p stack = .ok last) :
    ∃ grown, Holds store grown last ∧ laid grown = laid trees ++ p := by
  induction p generalizing stack trees with
  | nil =>
    cases h
    exact ⟨trees, hold, (List.append_nil _).symm⟩
  | cons term p ih =>
    cases hpush : push store term stack with
    | error e => simp [run, hpush] at h
    | ok rest =>
      simp only [run, hpush] at h
      obtain ⟨middle, hmiddle, hterm⟩ := exists_trees_of_push hold hpush
      obtain ⟨grown, hgrown, hterms⟩ := ih hmiddle h
      refine ⟨grown, hgrown, ?_⟩
      rw [hterms, hterm, List.append_assoc, List.singleton_append]

theorem run_of_value {p : Postfix} {x : Float} (h : p.value store = .ok x) :
    run store p [] = .ok [x] := by
  cases hrun : run store p [] with
  | error e => simp [Postfix.value, hrun] at h
  | ok stack =>
    simp only [Postfix.value, hrun] at h
    rcases stack with _ | ⟨y, _ | ⟨z, stack⟩⟩
    · cases h
    · cases h
      rfl
    · cases h

/-- Exactly the post-orders of trees have values, and they have those of the trees. -/
theorem Postfix.value_eq_ok_iff {p : Postfix} {x : Float} :
    p.value store = .ok x ↔ ∃ tree : Tree, p = tree.postorder ∧ tree.value? store = some x := by
  constructor
  · intro h
    obtain ⟨trees, hold, hlaid⟩ := exists_trees_of_run .nil (run_of_value h)
    cases hold with
    | cons hx hold =>
      cases hold
      exact ⟨_, by simpa [laid] using hlaid.symm, hx⟩
  · rintro ⟨tree, rfl, hx⟩
    exact value_postorder hx

end GridRover.Expression
