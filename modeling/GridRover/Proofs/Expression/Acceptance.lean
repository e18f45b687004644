import GridRover.Proofs.Expression.Outcome
import GridRover.Proofs.Expression.Verdict

/-!
# Which texts have a value

Nothing looks at the order of operands and operators. A text has a value when its postfix
order happens to be the post-order of a tree, and a text whose operands stand side by side
may do so without being infix. Where no operand follows another one directly, counting is
enough: the operands then outnumber the operators by one only if both take turns, and such
a text with matching parentheses is an infix phrase.
-/
namespace GridRover.Expression

open Postfix

variable {store : Store}

/-- An operand ends with this token. -/
def Token.Kind.endsOperand : Token.Kind → Bool
  | .number _ | .name _ | .closing => true
  | .operator _ | .opening => false

/-- An operand begins with this token. -/
def Token.Kind.startsOperand : Token.Kind → Bool
  | .number _ | .name _ | .opening => true
  | .operator _ | .closing => false

/-- No operand begins right where another one ends. -/
def Separated (kinds : List Token.Kind) : Prop :=
  kinds.IsChain fun kind next => kind.endsOperand = true → next.startsOperand = false

/-- How far numbers and names outnumber operators. -/
def surplus : List Token.Kind → Int
  | [] => 0
  | .number _ :: kinds | .name _ :: kinds => surplus kinds + 1
  | .operator _ :: kinds => surplus kinds - 1
  | .opening :: kinds | .closing :: kinds => surplus kinds

section Counting

/-- What a term adds to the height of a stack of values. -/
def Term.weight : Term → Int
  | .number _ | .variable _ => 1
  | .operator _ => -1

theorem surplus_eq_sum (kinds : List Token.Kind) :
    surplus kinds = ((kinds.filterMap Token.Kind.term?).map Term.weight).sum := by
  induction kinds with
  | nil => rfl
  | cons kind kinds ih =>
    cases kind <;> simp [surplus, List.filterMap_cons, Token.Kind.term?, Term.weight, ih] <;> omega

theorem sum_weight_postorder (tree : Tree) : (tree.postorder.map Term.weight).sum = 1 := by
  induction tree with
  | number value => rfl
  | «variable» name => rfl
  | node op left right ihl ihr => simp [Tree.postorder, Term.weight, ihl, ihr]

theorem surplus_of_postorder {kinds : List Token.Kind} {tree : Tree}
    (h : ofKinds store kinds = .ok tree.postorder) : surplus kinds = 1 := by
  rw [surplus_eq_sum, ← sum_weight_postorder tree]
  exact ((perm_of_ofKinds h).map Term.weight).sum_eq.symm

theorem separated_cons {kind : Token.Kind} {kinds : List Token.Kind} :
    Separated (kind :: kinds) ↔
      (kind.endsOperand = true → ∀ next ∈ kinds.head?, next.startsOperand = false) ∧
        Separated kinds := by
  rw [Separated, List.isChain_cons]
  constructor
  · rintro ⟨hnext, hkinds⟩
    exact ⟨fun hends next hmem => hnext next hmem hends, hkinds⟩
  · rintro ⟨hnext, hkinds⟩
    exact ⟨fun next hmem hends => hnext hends next hmem, hkinds⟩

/-- Operands that are kept apart outnumber the operators by one at most, and not at all
behind another operand. -/
theorem Separated.surplus_le {kinds : List Token.Kind} (h : Separated kinds) :
    surplus kinds ≤ 1 ∧
      ((∀ kind ∈ kinds.head?, kind.startsOperand = false) → surplus kinds ≤ 0) := by
  induction kinds with
  | nil => simp [surplus]
  | cons kind kinds ih =>
    obtain ⟨hnext, hkinds⟩ := separated_cons.mp h
    obtain ⟨hone, hzero⟩ := ih hkinds
    cases kind with
    | number value =>
      have hle := hzero (hnext rfl)
      exact ⟨by rw [surplus]; omega, fun hhead => absurd (hhead _ rfl) Bool.noConfusion⟩
    | name name =>
      have hle := hzero (hnext rfl)
      exact ⟨by rw [surplus]; omega, fun hhead => absurd (hhead _ rfl) Bool.noConfusion⟩
    | operator op => exact ⟨by rw [surplus]; omega, fun _ => by rw [surplus]; omega⟩
    | opening => exact ⟨by rwa [surplus], fun hhead => absurd (hhead _ rfl) Bool.noConfusion⟩
    | closing =>
      have hle := hzero (hnext rfl)
      exact ⟨by rw [surplus]; omega, fun _ => by rwa [surplus]⟩

end Counting

section Reading

/-- With `front` read and `n` parentheses open, a phrase of the given kind may come next. -/
inductive Context : Nat → Phrase → List Token.Kind → Prop
  | start : Context 0 .sum []
  | group {n : Nat} {front : List Token.Kind} :
    Context n .factor front → Context (n + 1) .sum (front ++ [.opening])
  | product {n : Nat} {front : List Token.Kind} :
    Context n .sum front → Context n .product front
  | factor {n : Nat} {front : List Token.Kind} :
    Context n .product front → Context n .factor front
  | plus {n : Nat} {op : Operator} {front kinds : List Token.Kind} {left : Tree} :
    op = .add ∨ op = .subtract → Context n .sum front → Derives .sum kinds left →
    Context n .product (front ++ (kinds ++ [.operator op]))
  | times {n : Nat} {op : Operator} {front kinds : List Token.Kind} {left : Tree} :
    op = .multiply ∨ op = .divide → Context n .product front → Derives .product kinds left →
    Context n .factor (front ++ (kinds ++ [.operator op]))

/-- The tokens end with a phrase of the given kind, in its place. -/
def Completes (n : Nat) (phrase : Phrase) (kinds : List Token.Kind) : Prop :=
  ∃ front back tree, kinds = front ++ back ∧ Context n phrase front ∧ Derives phrase back tree

variable {n : Nat} {kinds : List Token.Kind}

/-- A factor is the end of a product: alone, or behind the product and the operator before it. -/
theorem Completes.product (h : Completes n .factor kinds) : Completes n .product kinds := by
  obtain ⟨front, back, tree, rfl, hcontext, hback⟩ := h
  cases hcontext with
  | factor hcontext => exact ⟨front, back, tree, rfl, hcontext, .factor hback⟩
  | times hop hcontext hleft =>
    exact ⟨_, _, _, by simp, hcontext, .times hop hleft hback⟩

theorem Completes.sum (h : Completes n .product kinds) : Completes n .sum kinds := by
  obtain ⟨front, back, tree, rfl, hcontext, hback⟩ := h
  cases hcontext with
  | product hcontext => exact ⟨front, back, tree, rfl, hcontext, .product hback⟩
  | plus hop hcontext hleft =>
    exact ⟨_, _, _, by simp, hcontext, .plus hop hleft hback⟩

theorem Completes.close (h : Completes (n + 1) .sum kinds) :
    Completes n .factor (kinds ++ [.closing]) := by
  obtain ⟨front, back, tree, rfl, hcontext, hback⟩ := h
  cases hcontext with
  | group hcontext => exact ⟨_, _, _, by simp, hcontext, .group hback⟩

theorem Completes.exists_derives (h : Completes 0 .sum kinds) : ∃ tree, Derives .sum kinds tree := by
  obtain ⟨front, back, tree, rfl, hcontext, hback⟩ := h
  cases hcontext with
  | start => exact ⟨tree, hback⟩

theorem Completes.operator (h : Completes n .factor kinds) (op : Operator) :
    Context n .factor (kinds ++ [.operator op]) := by
  by_cases hop : op = .add ∨ op = .subtract
  · obtain ⟨front, back, tree, rfl, hcontext, hback⟩ := h.product.sum
    rw [List.append_assoc]
    exact .factor (.plus hop hcontext hback)
  · have hop : op = .multiply ∨ op = .divide := by cases op <;> simp at hop ⊢
    obtain ⟨front, back, tree, rfl, hcontext, hback⟩ := h.product
    rw [List.append_assoc]
    exact .times hop hcontext hback

theorem Context.opening (h : Context n .factor kinds) :
    Context (n + 1) .factor (kinds ++ [.opening]) :=
  .factor (.product (.group h))

theorem Context.number (h : Context n .factor kinds) (value : Float) :
    Completes n .factor (kinds ++ [.number value]) :=
  ⟨kinds, _, _, rfl, h, .number value⟩

theorem Context.name (h : Context n .factor kinds) (name : String) :
    Completes n .factor (kinds ++ [.name name]) :=
  ⟨kinds, _, _, rfl, h, .variable name⟩

/-- Separated tokens with matching parentheses and one operand too many are a sum: reading
them from the left, whatever the count allows next is allowed by the grammar too. -/
theorem exists_derives_of_nesting {front : List Token.Kind} (hsep : Separated kinds)
    (hnesting : nesting n kinds = some 0) :
    (Context n .factor front → surplus kinds = 1 → ∃ tree, Derives .sum (front ++ kinds) tree) ∧
      (Completes n .factor front → (∀ kind ∈ kinds.head?, kind.startsOperand = false) →
        surplus kinds = 0 → ∃ tree, Derives .sum (front ++ kinds) tree) := by
  -- An operand takes a reading from the first half to the second, an operator takes it back.
  induction kinds generalizing n front with
  | nil =>
    cases hnesting
    refine ⟨fun _ h => absurd h (by decide), fun hfront _ _ => ?_⟩
    rw [List.append_nil]
    exact hfront.product.sum.exists_derives
  | cons kind kinds ih =>
    obtain ⟨hnext, hkinds⟩ := separated_cons.mp hsep
    obtain ⟨hone, hzero⟩ := hkinds.surplus_le
    rw [List.append_cons]
    cases kind with
    | number value =>
      rw [nesting] at hnesting
      rw [surplus]
      refine ⟨fun hfront hsum => ?_, fun _ hhead => by cases hhead _ rfl⟩
      exact (ih hkinds hnesting).2 (hfront.number value) (hnext rfl) (by omega)
    | name name =>
      rw [nesting] at hnesting
      rw [surplus]
      refine ⟨fun hfront hsum => ?_, fun _ hhead => by cases hhead _ rfl⟩
      exact (ih hkinds hnesting).2 (hfront.name name) (hnext rfl) (by omega)
    | operator op =>
      rw [nesting] at hnesting
      rw [surplus]
      -- Where an operand is due, two of them would have to be left over behind the operator.
      refine ⟨fun _ hsum => by omega, fun hfront _ hsum => ?_⟩
      exact (ih hkinds hnesting).1 (hfront.operator op) (by omega)
    | opening =>
      rw [nesting] at hnesting
      rw [surplus]
      refine ⟨fun hfront hsum => ?_, fun _ hhead => by cases hhead _ rfl⟩
      exact (ih hkinds hnesting).1 hfront.opening hsum
    | closing =>
      -- Behind the parenthesis no operand is left over, so none can be due before it.
      have hle := hzero (hnext rfl)
      rw [surplus]
      refine ⟨fun _ hsum => by omega, fun hfront _ hsum => ?_⟩
      cases n with
      | zero => cases hnesting
      | succ n =>
        rw [nesting] at hnesting
        exact (ih hkinds hnesting).2 hfront.product.sum.close (hnext rfl) hsum

end Reading

section Phrases

theorem Separated.append_cons {kind : Token.Kind} {front back : List Token.Kind}
    (hfront : Separated front) (hkind : kind.startsOperand = false)
    (hback : Separated (kind :: back)) : Separated (front ++ kind :: back) := by
  apply List.isChain_append.mpr
  refine ⟨hfront, hback, ?_⟩
  intro last hlast next hnext hends
  cases hnext
  exact hkind

theorem Separated.cons {kind : Token.Kind} {kinds : List Token.Kind}
    (hkind : kind.endsOperand = false) (hkinds : Separated kinds) : Separated (kind :: kinds) := by
  apply separated_cons.mpr
  refine ⟨fun hends => ?_, hkinds⟩
  rw [hkind] at hends
  cases hends

theorem Derives.separated {phrase : Phrase} {kinds : List Token.Kind} {tree : Tree}
    (h : Derives phrase kinds tree) : Separated kinds := by
  induction h with
  | number value => exact .singleton _
  | «variable» name => exact .singleton _
  | group h ih => exact Separated.append_cons (.cons rfl ih) rfl (.singleton _)
  | factor h ih => exact ih
  | times hop hl hr ihl ihr => exact ihl.append_cons rfl (.cons rfl ihr)
  | product h ih => exact ih
  | plus hop hl hr ihl ihr => exact ihl.append_cons rfl (.cons rfl ihr)

/-- Among separated tokens, only phrases are brought into the post-order of a tree. -/
theorem Separated.exists_derives {kinds : List Token.Kind} (hsep : Separated kinds) {tree : Tree}
    (h : ofKinds store kinds = .ok tree.postorder) : ∃ tree, Derives .sum kinds tree := by
  have hstart : Context 0 .factor [] := .factor (.product .start)
  have hderives := (exists_derives_of_nesting hsep (nesting_of_ofKinds h)).1 hstart
    (surplus_of_postorder h)
  rwa [List.nil_append] at hderives

end Phrases

section Failing

theorem parentheses_of_ofKinds {kinds : List Token.Kind} {e : Error}
    (hn : Declared store kinds) (h : ofKinds store kinds = .error e) : e = .parentheses := by
  rcases unknown_or_parentheses h with ⟨name, rfl⟩ | he
  · obtain ⟨front, back, n, rfl, -, hname⟩ := ofKinds_eq_unknown_iff.mp h
    rw [hn name (by simp)] at hname
    cases hname
  · exact he

theorem imbalance_of_value {p : Postfix} {e : Error}
    (hn : ∀ name, Term.variable name ∈ p → store.contains name = true)
    (h : p.value store = .error e) : ∃ depth, e = .imbalance depth := by
  rcases undefined_or_imbalance h with ⟨name, rfl⟩ | he
  · obtain ⟨front, back, rfl, -, hname⟩ := value_eq_undefined_iff.mp h
    rw [hn name (by simp)] at hname
    cases hname
  · exact he

/-- With all names declared, tokens fail by their parentheses or by the number of values. -/
theorem parentheses_or_imbalance {text : String} {tokens : List Token} {e : Error}
    (ht : tokenize text = .ok tokens) (hn : Declared store (tokens.map Token.kind))
    (h : value store text = .error e) : e = .parentheses ∨ ∃ depth, e = .imbalance depth := by
  rcases value_error_iff.mp h with ⟨cause, hcause, -⟩ | ⟨others, hothers, hp | ⟨p, hp, hvalue⟩⟩
  · cases ht.symm.trans hcause
  · cases ht.symm.trans hothers
    exact .inl (parentheses_of_ofKinds hn hp)
  · cases ht.symm.trans hothers
    exact .inr (imbalance_of_value
      (fun name hname => hn name (name_of_variable_mem_ofKinds hp hname)) hvalue)

end Failing

/-- A text that has a value is an infix phrase, or an operand begins in it right where
another one ends, as never in a phrase. Either way its postfix order is the post-order of a
tree, whose value it has. Any other text is reported, and with its names declared by its
parentheses or by the number of its values. -/
theorem value_acceptance (store : Store) (text : String) :
    (∀ x, value store text = .ok x → ∃ tokens, tokenize text = .ok tokens ∧
      ((∃ tree, Derives .sum (tokens.map Token.kind) tree) ∨
        ¬ Separated (tokens.map Token.kind)) ∧
      ∃ tree : Tree, ofKinds store (tokens.map Token.kind) = .ok tree.postorder ∧
        tree.value? store = some x) ∧
    (∀ tokens, tokenize text = .ok tokens → Separated (tokens.map Token.kind) →
      (¬ ∃ tree, Derives .sum (tokens.map Token.kind) tree) →
      ∃ e, value store text = .error e ∧
        (Declared store (tokens.map Token.kind) → e = .parentheses ∨ ∃ depth, e = .imbalance depth)) ∧
    ∀ kinds tree, Derives .sum kinds tree → Separated kinds := by
  have haccepted : ∀ x, value store text = .ok x → ∃ tokens, tokenize text = .ok tokens ∧
      ∃ tree : Tree, ofKinds store (tokens.map Token.kind) = .ok tree.postorder ∧
        tree.value? store = some x := by
    intro x h
    obtain ⟨tokens, p, ht, hp, hx⟩ := value_iff.mp h
    obtain ⟨tree, rfl, htree⟩ := Postfix.value_eq_ok_iff.mp hx
    exact ⟨tokens, ht, tree, hp, htree⟩
  refine ⟨?_, ?_, fun kinds tree h => h.separated⟩
  · intro x h
    obtain ⟨tokens, ht, tree, hp, htree⟩ := haccepted x h
    refine ⟨tokens, ht, ?_, tree, hp, htree⟩
    by_cases hsep : Separated (tokens.map Token.kind)
    · exact .inl (hsep.exists_derives hp)
    · exact .inr hsep
  · intro tokens ht hsep hphrase
    cases h : value store text with
    | error e => exact ⟨e, rfl, fun hn => parentheses_or_imbalance ht hn h⟩
    | ok x =>
      obtain ⟨others, hothers, tree, hp, -⟩ := haccepted x h
      cases ht.symm.trans hothers
      exact absurd (hsep.exists_derives hp) hphrase

/-- A product has a value; an operator with nothing but empty parentheses behind it has none. -/
theorem value_acceptance_product_and_empty_group :
    (∃ tokens, tokenize "a*a" = .ok tokens ∧
      ((∃ tree, Derives .sum (tokens.map Token.kind) tree) ∨
        ¬ Separated (tokens.map Token.kind)) ∧
      ∃ tree : Tree, ofKinds (Store.empty.insert "a" ⟨.float, 3⟩) (tokens.map Token.kind) =
          .ok tree.postorder ∧
        tree.value? (Store.empty.insert "a" ⟨.float, 3⟩) = some (3 * 3)) ∧
    (∃ e, value (Store.empty.insert "a" ⟨.float, 3⟩) "a+()" = .error e ∧
      (e = .parentheses ∨ ∃ depth, e = .imbalance depth)) ∧
    Separated [.name "a", .operator .multiply, .name "a"] := by
  have hproduct : tokenize "a*a" =
      .ok [⟨.name "a", 0, 1⟩, ⟨.operator .multiply, 1, 2⟩, ⟨.name "a", 2, 3⟩] := by cbv
  have hgroup : tokenize "a+()" =
      .ok [⟨.name "a", 0, 1⟩, ⟨.operator .add, 1, 2⟩, ⟨.opening, 2, 3⟩, ⟨.closing, 3, 4⟩] := by cbv
  have hphrase := Derives.product
    (@Derives.times .multiply _ _ _ _ (.inl rfl) (.factor (.variable "a")) (.variable "a"))
  have hdeclared : ∀ kinds : List Token.Kind, (∀ name, .name name ∈ kinds → name = "a") →
      Declared (Store.empty.insert "a" ⟨.float, 3⟩) kinds := by
    intro kinds h name hname
    rw [h name hname, Store.contains_insert]
    simp
  have hvalue : value (Store.empty.insert "a" ⟨.float, 3⟩) "a*a" = .ok (3 * 3) := by
    obtain ⟨z, hz, hv⟩ := hphrase.value_eq hproduct (hdeclared _ (by simp))
    have hz' : z = 3 * 3 := by
      simpa [Tree.value?, Store.get?, Store.find?_insert, eq_comm] using hz
    rw [hv, hz']
  have hnone : ¬ ∃ tree, Derives .sum [.name "a", .operator .add, .opening, .closing] tree := by
    rintro ⟨tree, h⟩
    have hcount := surplus_of_postorder (h.ofKinds_eq (hdeclared _ (by simp)))
    exact absurd hcount (by decide)
  have hseparated : Separated [.name "a", .operator .add, .opening, .closing] := by
    unfold Separated
    decide
  obtain ⟨e, he, hkind⟩ := (value_acceptance _ _).2.1 _ hgroup hseparated hnone
  exact ⟨(value_acceptance _ _).1 _ hvalue, ⟨e, he, hkind (hdeclared _ (by simp))⟩,
    (value_acceptance .empty "").2.2 _ _ hphrase⟩

/-- A text with its operator behind its operands is no phrase and has a value all the same. -/
theorem value_of_trailing_operator :
    ∃ tokens, tokenize "a b +" = .ok tokens ∧
      value ((Store.empty.insert "a" ⟨.float, 1⟩).insert "b" ⟨.float, 2⟩) "a b +" = .ok (1 + 2) ∧
      ¬ ∃ tree, Derives .sum (tokens.map Token.kind) tree := by
  have ht : tokenize "a b +" =
      .ok [⟨.name "a", 0, 1⟩, ⟨.name "b", 2, 3⟩, ⟨.operator .add, 4, 5⟩] := by cbv
  refine ⟨_, ht, ?_, ?_⟩
  · have hp : ofKinds ((Store.empty.insert "a" ⟨.float, 1⟩).insert "b" ⟨.float, 2⟩)
        [.name "a", .name "b", .operator .add] =
          .ok (Tree.node .add (.variable "a") (.variable "b")).postorder := by
      simp [ofKinds, steps, step, release, drain, Store.contains_insert, Tree.postorder]
    refine value_iff.mpr ⟨_, _, ht, hp, value_postorder ?_⟩
    simp [Tree.value?, Store.get?, Store.find?_insert]
  · rintro ⟨tree, h⟩
    have hnext := (separated_cons.mp h.separated).1 rfl (.name "b") rfl
    cases hnext

end GridRover.Expression
