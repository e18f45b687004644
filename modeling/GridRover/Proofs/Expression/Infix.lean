import GridRover.Expression.Tree
import GridRover.Proofs.Expression.Ordering
import GridRover.Proofs.Store
import Mathlib

/-!
# Infix phrases and their trees

Bringing a phrase into postfix order gives the post-order of the tree it spells, and
running that order gives the value of the tree. The first half is an invariant of
partly ordered phrases: what has been let out so far, followed by the operators that
still wait, is the whole post-order, and the waiting operators bind at least as
tightly as the phrase does.
-/
namespace GridRover.Expression

open Postfix

variable {store : Store}

/-- The least precedence that an operator of the phrase has outside its parentheses. -/
def Phrase.level : Phrase → Nat
  | .sum => 2
  | .product => 3
  | .factor => 4

/-- Read on `stack`, the tokens let out a first part of `p`. The rest of it are operators
of precedence `level` or more, which wait on top of the stack. -/
def Suspends (store : Store) (level : Nat) (stack : List Pending) (kinds : List Token.Kind)
    (p : Postfix) : Prop :=
  ∃ out ops, steps store stack kinds = .ok (out, waits ops ++ stack) ∧ p = out ++ leaves ops ∧
    ∀ op ∈ ops, level ≤ op.precedence

theorem Suspends.mono {level lower : Nat} (hl : lower ≤ level) {stack : List Pending}
    {kinds : List Token.Kind} {p : Postfix} (h : Suspends store level stack kinds p) :
    Suspends store lower stack kinds p := by
  obtain ⟨out, ops, hs, hp, hops⟩ := h
  exact ⟨out, ops, hs, hp, fun op hop => Nat.le_trans hl (hops op hop)⟩

theorem suspends_operand {level : Nat} {stack : List Pending} {kind : Token.Kind} {term : Term}
    (h : step store stack kind = .ok ([term], stack)) :
    Suspends store level stack [kind] [term] := by
  refine ⟨[term], [], ?_, by simp, by simp⟩
  rw [steps_cons_ok h rfl]
  simp

/-- Parentheses let go all that waits between them. -/
theorem Suspends.group {inner level : Nat} {stack : List Pending} {kinds : List Token.Kind}
    {p : Postfix} (h : Suspends store inner (.opening :: stack) kinds p) :
    Suspends store level stack (.opening :: kinds ++ [.closing]) p := by
  obtain ⟨out, ops, hs, rfl, -⟩ := h
  have hclose : steps store (waits ops ++ .opening :: stack) [.closing] =
      .ok (leaves ops, stack) := by
    simp [steps, step, close_waits]
  refine ⟨out ++ leaves ops, [], ?_, by simp, by simp⟩
  rw [List.cons_append, steps_cons_ok rfl (steps_append_ok hs hclose)]
  simp

/-- An operator lets go what its left side left waiting and then waits itself, below what
its right side leaves waiting. -/
theorem Suspends.node {op : Operator} {level : Nat} (hop : op.precedence = level)
    {stack : List Pending} {front back : List Token.Kind} {p q : Postfix}
    (hs : Below level stack) (hl : Suspends store level stack front p)
    (hr : Suspends store (level + 1) (.operator op :: stack) back q) :
    Suspends store level stack (front ++ .operator op :: back) (p ++ q ++ [.operator op]) := by
  subst hop
  obtain ⟨out, ops, hfront, rfl, hops⟩ := hl
  obtain ⟨terms, more, hback, rfl, hmore⟩ := hr
  have hstep : step store (waits ops ++ stack) (.operator op) =
      .ok (leaves ops, .operator op :: stack) := by
    simp [step, release_waits hops hs]
  refine ⟨out ++ (leaves ops ++ terms), more ++ [op], ?_, ?_, ?_⟩
  · rw [steps_append_ok hfront (steps_cons_ok hstep hback), waits_append]
    simp
  · simp [leaves_append]
  · intro top htop
    rcases List.mem_append.mp htop with h | h
    · exact Nat.le_of_succ_le (hmore top h)
    · exact Nat.le_of_eq (congrArg Operator.precedence (List.mem_singleton.mp h).symm)

theorem precedence_of_product {op : Operator} (h : op = .multiply ∨ op = .divide) :
    op.precedence = Phrase.product.level := by
  rcases h with rfl | rfl <;> rfl

theorem precedence_of_sum {op : Operator} (h : op = .add ∨ op = .subtract) :
    op.precedence = Phrase.sum.level := by
  rcases h with rfl | rfl <;> rfl

/-- The invariant holds of every phrase, on every stack whose top binds less tightly. -/
theorem Derives.suspends {phrase : Phrase} {kinds : List Token.Kind} {tree : Tree}
    (h : Derives phrase kinds tree) (hn : Declared store kinds) {stack : List Pending}
    (hs : Below phrase.level stack) :
    Suspends store phrase.level stack kinds tree.postorder := by
  induction h generalizing stack with
  | number value => exact suspends_operand rfl
  | «variable» name =>
    apply suspends_operand
    simp [step, hn name (by simp)]
  | @group kinds tree h ih =>
    have hinner : Declared store kinds := hn.of_subset (by simp)
    have hwaiting := @ih hinner (.opening :: stack) trivial
    exact hwaiting.group
  | factor h ih => exact (ih hn (hs.mono (by decide))).mono (by decide)
  | product h ih => exact (ih hn (hs.mono (by decide))).mono (by decide)
  | times hop hl hr ihl ihr =>
    have hlevel := precedence_of_product hop
    exact .node hlevel hs (ihl (hn.of_subset (by simp)) hs)
      (ihr (hn.of_subset (by simp)) (Nat.lt_succ_of_le (Nat.le_of_eq hlevel)))
  | plus hop hl hr ihl ihr =>
    have hlevel := precedence_of_sum hop
    exact .node hlevel hs (ihl (hn.of_subset (by simp)) hs)
      (ihr (hn.of_subset (by simp)) (Nat.lt_succ_of_le (Nat.le_of_eq hlevel)))

/-- The end of the tokens lets go what waits. -/
theorem Suspends.ofKinds_eq {level : Nat} {kinds : List Token.Kind} {p : Postfix}
    (h : Suspends store level [] kinds p) : Postfix.ofKinds store kinds = .ok p := by
  obtain ⟨out, ops, hs, hp, -⟩ := h
  rw [List.append_nil] at hs
  exact ofKinds_iff.mpr ⟨out, _, leaves ops, hs, drain_waits ops, hp⟩

theorem Derives.ofKinds_eq {kinds : List Token.Kind} {tree : Tree}
    (h : Derives .sum kinds tree) (hn : Declared store kinds) :
    Postfix.ofKinds store kinds = .ok tree.postorder :=
  (@suspends store _ _ _ h hn [] trivial).ofKinds_eq

theorem Tree.value?_node {op : Operator} {left right : Tree} {x y : Float}
    (hx : left.value? store = some x) (hy : right.value? store = some y) :
    (Tree.node op left right).value? store = some (op.apply x y) := by
  cases op <;> simp only [Tree.value?, hx, hy, Operator.apply]

theorem Tree.exists_of_value?_node {op : Operator} {left right : Tree} {z : Float}
    (h : (Tree.node op left right).value? store = some z) :
    ∃ x y, left.value? store = some x ∧ right.value? store = some y ∧ z = op.apply x y := by
  cases hx : left.value? store with
  | none => simp only [Tree.value?, hx, reduceCtorEq] at h
  | some x =>
    cases hy : right.value? store with
    | none => simp only [Tree.value?, hx, hy, reduceCtorEq] at h
    | some y =>
      rw [Tree.value?_node hx hy] at h
      exact ⟨x, y, rfl, rfl, (Option.some.inj h).symm⟩

/-- A tree leaves its value on top of the stack, whatever is on it and whatever follows. -/
theorem run_postorder {tree : Tree} {z : Float} (h : tree.value? store = some z)
    (rest : Postfix) (stack : List Float) :
    run store (tree.postorder ++ rest) stack = run store rest (z :: stack) := by
  induction tree generalizing z rest stack with
  | number value =>
    cases h
    rfl
  | «variable» name =>
    change store.get? name = some z at h
    simp only [Tree.postorder, List.singleton_append, run, push, h]
  | node op left right ihl ihr =>
    obtain ⟨x, y, hx, hy, rfl⟩ := Tree.exists_of_value?_node h
    simp only [Tree.postorder, List.append_assoc, ihl hx, ihr hy]
    rfl

theorem value_postorder {tree : Tree} {z : Float} (h : tree.value? store = some z) :
    tree.postorder.value store = .ok z := by
  have hrun := run_postorder h [] []
  rw [List.append_nil] at hrun
  simp only [Postfix.value, hrun, run]

/-- Where all names are declared, the tree has a value. -/
theorem Derives.exists_value {phrase : Phrase} {kinds : List Token.Kind} {tree : Tree}
    (h : Derives phrase kinds tree) (hn : Declared store kinds) :
    ∃ z, tree.value? store = some z := by
  induction h with
  | number value => exact ⟨value, rfl⟩
  | «variable» name => exact Store.contains_iff_get?.mp (hn name (by simp))
  | group h ih => exact ih (hn.of_subset (by simp))
  | factor h ih => exact ih hn
  | product h ih => exact ih hn
  | times hop hl hr ihl ihr =>
    obtain ⟨x, hx⟩ := ihl (hn.of_subset (by simp))
    obtain ⟨y, hy⟩ := ihr (hn.of_subset (by simp))
    exact ⟨_, Tree.value?_node hx hy⟩
  | plus hop hl hr ihl ihr =>
    obtain ⟨x, hx⟩ := ihl (hn.of_subset (by simp))
    obtain ⟨y, hy⟩ := ihr (hn.of_subset (by simp))
    exact ⟨_, Tree.value?_node hx hy⟩

/-- The phrase that an operator makes. -/
def Operator.phrase : Operator → Phrase
  | .add | .subtract => .sum
  | .multiply | .divide => .product

/-- The phrase that stands on the right of an operator. -/
def Operator.operand : Operator → Phrase
  | .add | .subtract => .product
  | .multiply | .divide => .factor

theorem Derives.of_operand {op : Operator} {kinds : List Token.Kind} {tree : Tree}
    (h : Derives op.operand kinds tree) : Derives op.phrase kinds tree := by
  cases op with
  | add => exact .product h
  | subtract => exact .product h
  | multiply => exact .factor h
  | divide => exact .factor h

theorem Derives.node {op : Operator} {front back : List Token.Kind} {left right : Tree}
    (hl : Derives op.phrase front left) (hr : Derives op.operand back right) :
    Derives op.phrase (front ++ .operator op :: back) (.node op left right) := by
  cases op with
  | add => exact .plus (.inl rfl) hl hr
  | subtract => exact .plus (.inr rfl) hl hr
  | multiply => exact .times (.inl rfl) hl hr
  | divide => exact .times (.inr rfl) hl hr

theorem Derives.to_sum {op : Operator} {kinds : List Token.Kind} {tree : Tree}
    (h : Derives op.phrase kinds tree) : Derives .sum kinds tree := by
  cases op with
  | add => exact h
  | subtract => exact h
  | multiply => exact .product h
  | divide => exact .product h

theorem Operator.phrase_eq {op other : Operator} (h : op.precedence = other.precedence) :
    op.phrase = other.phrase ∧ op.operand = other.operand := by
  cases op <;> cases other <;> simp [Operator.precedence] at h <;> exact ⟨rfl, rfl⟩

/-- An operator and its right side: the tokens of a phrase and the tree they spell. -/
structure Link where
  op : Operator
  kinds : List Token.Kind
  tree : Tree

/-- The tokens of a chain: a first phrase, then operators each with its right side. -/
def chainKinds (first : List Token.Kind) (links : List Link) : List Token.Kind :=
  first ++ links.flatMap fun link => .operator link.op :: link.kinds

/-- The tree of a chain that associates to the left. -/
def chainTree (first : Tree) (links : List Link) : Tree :=
  links.foldl (fun left link => .node link.op left link.tree) first

theorem Derives.chain {op : Operator} {first : List Token.Kind} {start : Tree}
    {links : List Link} (hf : Derives op.phrase first start)
    (hl : ∀ link ∈ links, link.op.precedence = op.precedence ∧
      Derives op.operand link.kinds link.tree) :
    Derives op.phrase (chainKinds first links) (chainTree start links) := by
  induction links generalizing first start with
  | nil => simpa [chainKinds, chainTree] using hf
  | cons link links ih =>
    obtain ⟨hop, hlink⟩ := hl link List.mem_cons_self
    obtain ⟨hphrase, hoperand⟩ := Operator.phrase_eq hop
    have hfirst : Derives op.phrase (first ++ .operator link.op :: link.kinds)
        (.node link.op start link.tree) := by
      rw [← hphrase] at hf ⊢
      rw [← hoperand] at hlink
      exact .node hf hlink
    have hrest := ih hfirst fun other h => hl other (List.mem_cons_of_mem link h)
    simpa [chainKinds, chainTree] using hrest

theorem Derives.value_eq {text : String} {tokens : List Token} {tree : Tree}
    (ht : tokenize text = .ok tokens) (hn : Declared store (tokens.map Token.kind))
    (h : Derives .sum (tokens.map Token.kind) tree) :
    ∃ z, tree.value? store = some z ∧ value store text = .ok z := by
  obtain ⟨z, hz⟩ := h.exists_value hn
  refine ⟨z, hz, ?_⟩
  simp only [value, postfixOf, ht, h.ofKinds_eq hn, value_postorder hz]

/-- A text whose tokens spell a tree is ordered as the tree's post-order and has the tree's
value. The second part is the case of a chain of operators of one precedence, whose tree
associates to the left. -/
theorem ofKinds_and_value_of_derives (store : Store) (text : String) (tokens : List Token)
    (ht : tokenize text = .ok tokens) (hn : Declared store (tokens.map Token.kind)) :
    (∀ tree, Derives .sum (tokens.map Token.kind) tree →
      Postfix.ofKinds store (tokens.map Token.kind) = .ok tree.postorder ∧
        ∃ z, tree.value? store = some z ∧ value store text = .ok z) ∧
    ∀ (op : Operator) (first : List Token.Kind) (start : Tree) (links : List Link),
      tokens.map Token.kind = chainKinds first links → Derives op.operand first start →
      (∀ link ∈ links, link.op.precedence = op.precedence ∧
        Derives op.operand link.kinds link.tree) →
      Postfix.ofKinds store (tokens.map Token.kind) = .ok (chainTree start links).postorder ∧
        ∃ z, (chainTree start links).value? store = some z ∧ value store text = .ok z := by
  refine ⟨fun tree h => ⟨h.ofKinds_eq hn, h.value_eq ht hn⟩, ?_⟩
  intro op first start links hkinds hfirst hlinks
  have hchain := (Derives.chain hfirst.of_operand hlinks).to_sum
  rw [← hkinds] at hchain
  exact ⟨hchain.ofKinds_eq hn, hchain.value_eq ht hn⟩

/-- A chain of differences with parentheses around an operand and a product at its end. -/
theorem ofKinds_and_value_of_differences :
    ∃ tokens, tokenize "a-((b))-a*b" = .ok tokens ∧
      Postfix.ofKinds ((Store.empty.insert "a" ⟨.float, 8⟩).insert "b" ⟨.float, 2⟩)
        (tokens.map Token.kind) =
          .ok [.variable "a", .variable "b", .operator .subtract, .variable "a", .variable "b",
            .operator .multiply, .operator .subtract] ∧
      value ((Store.empty.insert "a" ⟨.float, 8⟩).insert "b" ⟨.float, 2⟩) "a-((b))-a*b" =
        .ok (8 - 2 - 8 * 2) := by
  have ht : tokenize "a-((b))-a*b" =
      .ok [⟨.name "a", 0, 1⟩, ⟨.operator .subtract, 1, 2⟩, ⟨.opening, 2, 3⟩, ⟨.opening, 3, 4⟩,
        ⟨.name "b", 4, 5⟩, ⟨.closing, 5, 6⟩, ⟨.closing, 6, 7⟩, ⟨.operator .subtract, 7, 8⟩,
        ⟨.name "a", 8, 9⟩, ⟨.operator .multiply, 9, 10⟩, ⟨.name "b", 10, 11⟩] := by cbv
  have hn : Declared ((Store.empty.insert "a" ⟨.float, 8⟩).insert "b" ⟨.float, 2⟩)
      [.name "a", .operator .subtract, .opening, .opening, .name "b", .closing, .closing,
        .operator .subtract, .name "a", .operator .multiply, .name "b"] := by
    intro name hname
    have hcases : name = "a" ∨ name = "b" ∨ name = "a" ∨ name = "b" := by simpa using hname
    rcases hcases with rfl | rfl | rfl | rfl <;> simp [Store.contains_insert]
  have ha : Derives .product [.name "a"] (.variable "a") := .factor (.variable "a")
  have hb : Derives .sum [.name "b"] (.variable "b") := .product (.factor (.variable "b"))
  have hgroup := Derives.group (.product (.factor (.group hb)))
  have hfront := @Derives.plus .subtract _ _ _ _ (.inr rfl) (.product ha) (.factor hgroup)
  have hback := @Derives.times .multiply _ _ _ _ (.inl rfl) ha (.variable "b")
  have htree := @Derives.plus .subtract _ _ _ _ (.inr rfl) hfront hback
  obtain ⟨hp, z, hz, hv⟩ := (ofKinds_and_value_of_derives _ _ _ ht hn).1 _ htree
  refine ⟨_, ht, hp, ?_⟩
  have hz' : z = 8 - 2 - 8 * 2 := by
    simpa [Tree.value?, Store.get?, Store.find?_insert, eq_comm] using hz
  rw [hv, hz']

end GridRover.Expression
