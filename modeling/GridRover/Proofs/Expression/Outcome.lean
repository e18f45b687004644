import GridRover.Proofs.Expression.Conservation
import GridRover.Proofs.Expression.Forest

/-!
# How a postfix expression comes out

Reading terms from the left and counting them settles how a run comes out, all but the
value. A variable that the store does not have and an operator that finds fewer than two
values stop the run, whichever comes first. A run that nothing stops leaves as many values
as operands outnumber operators. One value is the value of the expression, and the terms
are then the post-order of one tree and no other.
-/
namespace GridRover.Expression

/-- Every variable of the tree is in the store. -/
def Tree.Grounded (store : Store) : Tree → Prop
  | .number _ => True
  | .variable name => store.contains name = true
  | .node _ left right => left.Grounded store ∧ right.Grounded store

/-- How far operands outnumber operators. -/
def balance (p : Postfix) : Int :=
  (p.countP Term.isOperand : Int) - p.countP fun term => !term.isOperand

/-- No variable is missing in the store, and every operator has two values to its left. -/
structure Supplied (store : Store) (p : Postfix) : Prop where
  present : ∀ name, Term.variable name ∈ p → store.contains name = true
  enough : ∀ front op back, p = front ++ .operator op :: back → 2 ≤ balance front

/-- Before anything else is wrong, a variable is missing. -/
def LacksVariable (store : Store) (p : Postfix) (name : String) : Prop :=
  ∃ front back, p = front ++ .variable name :: back ∧ Supplied store front ∧
    store.contains name = false

/-- Before anything else is wrong, an operator has only `n` values to its left. -/
def LacksValues (store : Store) (p : Postfix) (n : Nat) : Prop :=
  ∃ front op back, p = front ++ .operator op :: back ∧ Supplied store front ∧
    balance front = n ∧ n < 2

section Trees

/-- A post-order at the end of some terms tells where it begins and which tree it is of. -/
theorem Tree.append_postorder_inj {tree other : Tree} {front back : Postfix}
    (h : front ++ tree.postorder = back ++ other.postorder) : front = back ∧ tree = other := by
  -- The last term is the root, so both trees are of one kind.
  induction tree generalizing other front back with
  | number value =>
    have hroot := congrArg List.getLast? h
    cases other with
    | number value' =>
      obtain rfl : value = value' := by simpa [postorder] using hroot
      exact ⟨List.append_cancel_right h, rfl⟩
    | «variable» name => simp [postorder] at hroot
    | node op left right => simp [postorder] at hroot
  | «variable» name =>
    have hroot := congrArg List.getLast? h
    cases other with
    | number value => simp [postorder] at hroot
    | «variable» name' =>
      obtain rfl : name = name' := by simpa [postorder] using hroot
      exact ⟨List.append_cancel_right h, rfl⟩
    | node op left right => simp [postorder] at hroot
  | node op left right ihl ihr =>
    have hroot := congrArg List.getLast? h
    cases other with
    | number value => simp [postorder] at hroot
    | «variable» name => simp [postorder] at hroot
    | node op' left' right' =>
      obtain rfl : op = op' := by simpa [postorder] using hroot
      simp only [postorder, ← List.append_assoc] at h
      obtain ⟨hleft, rfl⟩ := ihr (List.append_cancel_right h)
      obtain ⟨rfl, rfl⟩ := ihl hleft
      exact ⟨rfl, rfl⟩

theorem Tree.postorder_injective : Function.Injective Tree.postorder := by
  intro tree other h
  have hends : [] ++ tree.postorder = [] ++ other.postorder := h
  exact (append_postorder_inj hends).2

theorem Tree.grounded_iff {store : Store} {tree : Tree} :
    tree.Grounded store ↔ ∃ x, tree.value? store = some x := by
  induction tree with
  | number value => simp [Grounded, value?]
  | «variable» name => exact Store.contains_iff_get?
  | node op left right ihl ihr =>
    rw [Grounded, ihl, ihr]
    constructor
    · rintro ⟨⟨x, hx⟩, y, hy⟩
      exact ⟨_, value?_node hx hy⟩
    · rintro ⟨z, hz⟩
      obtain ⟨x, y, hx, hy, -⟩ := exists_of_value?_node hz
      exact ⟨⟨x, hx⟩, y, hy⟩

end Trees

section Balance

theorem balance_nil : balance [] = 0 := rfl

theorem balance_append (front back : Postfix) :
    balance (front ++ back) = balance front + balance back := by
  simp only [balance, List.countP_append]
  omega

end Balance

namespace Postfix

variable {store : Store} {p : Postfix} {term : Term} {stack : List Float} {e : Error}

/-- Only a missing variable and an operator short of values are not taken. -/
theorem push_eq_error_iff :
    push store term stack = .error e ↔
      (∃ name, term = .variable name ∧ store.contains name = false ∧ e = .undefined name) ∨
        ∃ op, term = .operator op ∧ stack.length < 2 ∧ e = .imbalance stack.length := by
  cases term with
  | number value => simp [push]
  | «variable» name =>
    have hcontains := store.isSome_get? name
    cases hname : store.get? name <;> simp_all [push, @eq_comm Error e]
  | operator op =>
    rcases stack with _ | ⟨x, _ | ⟨y, stack⟩⟩ <;> simp [push, @eq_comm Error e]

theorem exists_push_iff :
    (∃ rest, push store term stack = .ok rest) ↔
      (∀ name, term = .variable name → store.contains name = true) ∧
        ∀ op, term = .operator op → 2 ≤ stack.length := by
  cases term with
  | number value => simp [push]
  | «variable» name =>
    have hcontains := store.isSome_get? name
    cases hname : store.get? name <;> simp_all [push]
  | operator op =>
    rcases stack with _ | ⟨x, _ | ⟨y, stack⟩⟩ <;> simp [push]

theorem length_of_push {rest : List Float} (h : push store term stack = .ok rest) :
    (rest.length : Int) = stack.length + balance [term] := by
  cases term with
  | number value =>
    cases h
    rfl
  | «variable» name =>
    cases hname : store.get? name with
    | none => simp [push, hname] at h
    | some x =>
      simp only [push, hname] at h
      cases h
      rfl
  | operator op =>
    have hweight : balance [.operator op] = -1 := rfl
    rcases stack with _ | ⟨x, _ | ⟨y, stack⟩⟩
    · cases h
    · cases h
    · cases h
      simp only [List.length_cons, hweight]
      omega

theorem run_append (store : Store) (front back : Postfix) (stack : List Float) :
    run store (front ++ back) stack = (run store front stack).bind (run store back) := by
  induction front generalizing stack with
  | nil => rfl
  | cons term front ih =>
    simp only [List.cons_append, run]
    cases push store term stack with
    | error e => rfl
    | ok rest => exact ih rest

theorem run_concat (store : Store) (p : Postfix) (term : Term) (stack : List Float) :
    run store (p ++ [term]) stack = (run store p stack).bind (push store term) := by
  rw [run_append]
  congr 1
  funext middle
  rw [run]
  cases push store term middle <;> rfl

theorem length_of_run {last : List Float} (h : run store p stack = .ok last) :
    (last.length : Int) = stack.length + balance p := by
  induction p generalizing stack with
  | nil =>
    cases h
    simp [balance_nil]
  | cons term p ih =>
    simp only [run] at h
    split at h
    · cases h
    · rename_i rest hpush
      have hsplit : balance (term :: p) = balance [term] + balance p := balance_append [term] p
      rw [ih h, length_of_push hpush, hsplit]
      omega

theorem balance_of_run {last : List Float} (h : run store p [] = .ok last) :
    balance p = last.length := by
  have hlength := length_of_run h
  rw [List.length_nil] at hlength
  omega

/-- Terms fail with the first of them that is not taken. -/
theorem run_eq_error_iff :
    run store p stack = .error e ↔
      ∃ front term back middle, p = front ++ term :: back ∧
        run store front stack = .ok middle ∧ push store term middle = .error e := by
  constructor
  · intro h
    induction p generalizing stack with
    | nil => cases h
    | cons term p ih =>
      cases hpush : push store term stack with
      | error cause =>
        simp only [run, hpush] at h
        exact ⟨[], term, p, stack, rfl, rfl, hpush.trans h⟩
      | ok rest =>
        simp only [run, hpush] at h
        obtain ⟨front, next, back, middle, rfl, hfront, hnext⟩ := ih h
        refine ⟨term :: front, next, back, middle, rfl, ?_, hnext⟩
        simp only [run, hpush, hfront]
  · rintro ⟨front, term, back, middle, rfl, hfront, hterm⟩
    rw [run_append, hfront]
    simp only [Except.bind, run, hterm]

/-- One term more is supplied by what stands before it. -/
theorem supplied_concat :
    Supplied store (p ++ [term]) ↔ Supplied store p ∧
      (∀ name, term = .variable name → store.contains name = true) ∧
      ∀ op, term = .operator op → 2 ≤ balance p := by
  constructor
  · rintro ⟨hpresent, henough⟩
    refine ⟨⟨fun name hname => hpresent name (List.mem_append_left _ hname), ?_⟩, ?_, ?_⟩
    · rintro front op back rfl
      exact henough front op (back ++ [term]) (by simp)
    · rintro name rfl
      exact hpresent name (by simp)
    · rintro op rfl
      exact henough p op [] rfl
  · rintro ⟨⟨hpresent, henough⟩, hname, hop⟩
    constructor
    · intro name hmem
      rcases List.mem_append.mp hmem with hmem | hmem
      · exact hpresent name hmem
      · exact hname name (List.mem_singleton.mp hmem).symm
    · intro front op back heq
      -- The operator is the last term, or it stands before it and nothing changes for it.
      rcases List.eq_nil_or_concat back with rfl | ⟨back, last, rfl⟩
      · obtain ⟨rfl, hlast⟩ := List.append_inj' heq rfl
        cases hlast
        exact hop op rfl
      · have hsplit : p ++ [term] = (front ++ .operator op :: back) ++ [last] := by simp [heq]
        obtain ⟨rfl, -⟩ := List.append_inj' hsplit rfl
        exact henough front op back rfl

/-- A run goes through exactly when it is supplied with all it asks for. -/
theorem supplied_iff : Supplied store p ↔ ∃ last, run store p [] = .ok last := by
  induction p using List.reverseRecOn with
  | nil => exact ⟨fun _ => ⟨[], rfl⟩, fun _ => ⟨by simp, by simp⟩⟩
  | append_singleton p term ih =>
    rw [supplied_concat, ih, run_concat]
    constructor
    · rintro ⟨⟨middle, hp⟩, hname, hop⟩
      have hbalance := balance_of_run hp
      rw [hp]
      refine exists_push_iff.mpr ⟨hname, fun op hterm => ?_⟩
      have hlow := hop op hterm
      omega
    · rintro ⟨last, h⟩
      cases hp : run store p [] with
      | error e =>
        rw [hp] at h
        cases h
      | ok middle =>
        have hbalance := balance_of_run hp
        rw [hp] at h
        obtain ⟨hname, hop⟩ := exists_push_iff.mp ⟨last, h⟩
        refine ⟨⟨middle, rfl⟩, hname, fun op hterm => ?_⟩
        have hlow := hop op hterm
        omega

theorem run_eq_error_iff_lacks :
    run store p [] = .error e ↔
      (∃ name, LacksVariable store p name ∧ e = .undefined name) ∨
        ∃ n, LacksValues store p n ∧ e = .imbalance n := by
  rw [run_eq_error_iff]
  constructor
  · rintro ⟨front, term, back, middle, rfl, hfront, hterm⟩
    have hsupplied := supplied_iff.mpr ⟨middle, hfront⟩
    rcases push_eq_error_iff.mp hterm with ⟨name, rfl, hname, he⟩ | ⟨op, rfl, hshort, he⟩
    · exact .inl ⟨name, ⟨front, back, rfl, hsupplied, hname⟩, he⟩
    · exact .inr ⟨_, ⟨front, op, back, rfl, hsupplied, balance_of_run hfront, hshort⟩, he⟩
  · rintro (⟨name, ⟨front, back, rfl, hsupplied, hname⟩, rfl⟩ |
      ⟨n, ⟨front, op, back, rfl, hsupplied, hbalance, hshort⟩, rfl⟩)
    · obtain ⟨middle, hfront⟩ := supplied_iff.mp hsupplied
      exact ⟨front, _, back, middle, rfl, hfront,
        push_eq_error_iff.mpr (.inl ⟨name, rfl, hname, rfl⟩)⟩
    · obtain ⟨middle, hfront⟩ := supplied_iff.mp hsupplied
      obtain rfl : n = middle.length := by
        have hlength := balance_of_run hfront
        omega
      exact ⟨front, _, back, middle, rfl, hfront,
        push_eq_error_iff.mpr (.inr ⟨op, rfl, hshort, rfl⟩)⟩

theorem value_eq_error_iff :
    p.value store = .error e ↔ run store p [] = .error e ∨
      ∃ last, run store p [] = .ok last ∧ last.length ≠ 1 ∧ e = .imbalance last.length := by
  cases hrun : run store p [] with
  | error cause => simp [Postfix.value, hrun]
  | ok last =>
    rcases last with _ | ⟨x, _ | ⟨y, last⟩⟩ <;>
      simp [Postfix.value, hrun, @eq_comm Error e]

theorem value_eq_undefined_iff {name : String} :
    p.value store = .error (.undefined name) ↔ LacksVariable store p name := by
  rw [value_eq_error_iff, run_eq_error_iff_lacks]
  simp

theorem undefined_or_imbalance (h : p.value store = .error e) :
    (∃ name, e = .undefined name) ∨ ∃ n, e = .imbalance n := by
  rcases value_eq_error_iff.mp h with hrun | ⟨last, -, -, he⟩
  · rcases run_eq_error_iff_lacks.mp hrun with ⟨name, -, he⟩ | ⟨n, -, he⟩
    · exact .inl ⟨name, he⟩
    · exact .inr ⟨n, he⟩
  · exact .inr ⟨_, he⟩

/-- Terms that are supplied and yet have no value leave none or more than one. -/
theorem leaves_many_iff :
    (∃ last, run store p [] = .ok last ∧ last.length ≠ 1 ∧ e = .imbalance last.length) ↔
      ∃ n : Nat, Supplied store p ∧ balance p = n ∧ n ≠ 1 ∧ e = .imbalance n := by
  rw [supplied_iff]
  constructor
  · rintro ⟨last, hrun, hone, he⟩
    exact ⟨_, ⟨last, hrun⟩, balance_of_run hrun, hone, he⟩
  · rintro ⟨n, ⟨last, hrun⟩, hbalance, hone, he⟩
    obtain rfl : n = last.length := by
      have hlength := balance_of_run hrun
      omega
    exact ⟨last, hrun, hone, he⟩

theorem exists_value_iff :
    (∃ x, p.value store = .ok x) ↔ ∃ tree : Tree, p = tree.postorder ∧ tree.Grounded store := by
  simp only [Postfix.value_eq_ok_iff, Tree.grounded_iff]
  constructor
  · rintro ⟨x, tree, hp, hx⟩
    exact ⟨tree, hp, x, hx⟩
  · rintro ⟨tree, hp, x, hx⟩
    exact ⟨x, tree, hp, hx⟩

/-- A postfix expression has a value exactly when it is the post-order of a tree with all its
variables in the store. It is the post-order of no other tree then, and its value is that of
the tree. Otherwise it fails at the first term that the store or the values to its left do not
supply, or, where there is none, because the operands do not outnumber the operators by one. -/
theorem value_outcome (store : Store) (p : Postfix) :
    ((∃ x, p.value store = .ok x) ↔
      ∃ tree : Tree, p = tree.postorder ∧ tree.Grounded store) ∧
    (∀ x, p.value store = .ok x ↔
      ∃ tree : Tree, (∀ other : Tree, p = other.postorder ↔ other = tree) ∧
        tree.value? store = some x) ∧
    ∀ e, p.value store = .error e ↔
      (∃ name, LacksVariable store p name ∧ e = .undefined name) ∨
      (∃ n, LacksValues store p n ∧ e = .imbalance n) ∨
      ∃ n : Nat, Supplied store p ∧ balance p = n ∧ n ≠ 1 ∧ e = .imbalance n := by
  refine ⟨exists_value_iff, ?_, ?_⟩
  · intro x
    rw [Postfix.value_eq_ok_iff]
    constructor
    · rintro ⟨tree, rfl, hx⟩
      refine ⟨tree, fun other => ?_, hx⟩
      exact ⟨fun h => (Tree.postorder_injective h).symm, fun h => h ▸ rfl⟩
    · rintro ⟨tree, honly, hx⟩
      exact ⟨tree, (honly tree).mpr rfl, hx⟩
  · intro e
    rw [value_eq_error_iff, run_eq_error_iff_lacks, leaves_many_iff, or_assoc]

/-- All four operations, none of them with its operands the other way round, and the three
ways in which the same terms fail when one is added or left out. -/
theorem value_outcome_four_operations :
    let store := (Store.empty.insert "a" ⟨.float, 8⟩).insert "b" ⟨.int, 2⟩
    let difference : Postfix := [.variable "a", .variable "b", .operator .subtract]
    let sum : Postfix := [.variable "a", .variable "b", .operator .add]
    let product : Postfix := difference ++ sum ++ [.operator .multiply]
    let quotient : Postfix := product ++ [.variable "b"] ++ [.operator .divide]
    value store quotient = .ok 30 ∧
      value store (quotient ++ [.operator .add]) = .error (.imbalance 1) ∧
      value store (quotient ++ [.variable "c"]) = .error (.undefined "c") ∧
      value store (difference ++ sum) = .error (.imbalance 2) := by
  intro store difference sum product quotient
  let tree : Tree := .node .divide
    (.node .multiply (.node .subtract (.variable "a") (.variable "b"))
      (.node .add (.variable "a") (.variable "b")))
    (.variable "b")
  have hvalue : tree.value? store = some 30 := by decide +kernel
  have hterms : quotient = tree.postorder := rfl
  have honly (other : Tree) : quotient = other.postorder ↔ other = tree := by
    rw [hterms, Tree.postorder_injective.eq_iff, eq_comm]
  have hquotient : Supplied store quotient := supplied_iff.mpr ⟨_, rfl⟩
  have hpair : Supplied store (difference ++ sum) := supplied_iff.mpr ⟨_, rfl⟩
  refine ⟨((value_outcome store _).2.1 30).mpr ⟨tree, honly, hvalue⟩, ?_, ?_, ?_⟩
  · exact ((value_outcome store _).2.2 _).mpr
      (.inr (.inl ⟨1, ⟨quotient, .add, [], rfl, hquotient, by decide, by decide⟩, rfl⟩))
  · exact ((value_outcome store _).2.2 _).mpr
      (.inl ⟨"c", ⟨quotient, [], rfl, hquotient, by decide⟩, rfl⟩)
  · exact ((value_outcome store _).2.2 _).mpr
      (.inr (.inr ⟨2, hpair, by decide, by decide, rfl⟩))

-- The operator is short of a value before the variable is looked at.
example : value .empty [.number 1, .operator .add, .variable "x"] = .error (.imbalance 1) := rfl

end Postfix

end GridRover.Expression
