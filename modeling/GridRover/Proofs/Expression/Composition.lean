import GridRover.Proofs.Expression.Forest
import GridRover.Proofs.Expression.Munch
import GridRover.Proofs.Expression.Names

/-!
# Expressions put together with parentheses

Parentheses make one operand of any text that has a value, be it infix or not. A closing
parenthesis ends the lexeme in front of it, so a text between parentheses is cut into the
lexemes that it has on its own. An open parenthesis on the stack keeps all below it out of
reach, so the tokens behind it are ordered as on an empty stack. What comes out is the
post-order of the tree that the text has on its own.
-/
namespace GridRover.Expression

open Postfix Text

variable {store : Store}

section Reading

/-- The characters are cut into longest lexemes, and the lexemes stand for these kinds. -/
def Reads (cs : List Char) (kinds : List Token.Kind) : Prop :=
  ∃ last pieces, cs = spelled last pieces ∧ Munched last pieces ∧
    List.Forall₂ (fun piece kind => Denotes piece.lexeme kind) pieces kinds

theorem Marks.forall₂_denotes {offset : Nat} {pieces : List Piece} {tokens : List Token}
    (h : Marks offset pieces tokens) :
    List.Forall₂ (fun piece kind => Denotes piece.lexeme kind) pieces (tokens.map Token.kind) := by
  induction h with
  | nil offset => exact .nil
  | cons hd h ih => exact .cons hd ih

theorem exists_marks_of_denotes {pieces : List Piece} {kinds : List Token.Kind}
    (h : List.Forall₂ (fun piece kind => Denotes piece.lexeme kind) pieces kinds) (offset : Nat) :
    ∃ tokens, Marks offset pieces tokens ∧ tokens.map Token.kind = kinds := by
  induction h generalizing offset with
  | nil => exact ⟨[], .nil offset, rfl⟩
  | @cons piece kind pieces kinds hd h ih =>
    obtain ⟨tokens, hmarks, rfl⟩ := ih (offset + byteLength piece.gap + byteLength piece.lexeme)
    exact ⟨_, .cons hd hmarks, rfl⟩

/-- The kinds of the tokens of a text, without their places. -/
theorem tokenize_kinds_iff {text : String} {kinds : List Token.Kind} :
    (∃ tokens, tokenize text = .ok tokens ∧ tokens.map Token.kind = kinds) ↔
      text.toList.count '(' = text.toList.count ')' ∧ Reads text.toList kinds := by
  constructor
  · rintro ⟨tokens, ht, rfl⟩
    obtain ⟨last, pieces, heq, hm, hmarks⟩ := exists_marks_of_tokenize ht
    exact ⟨(hmarks.tokenize_iff heq hm).mp ht, last, pieces, heq, hm, hmarks.forall₂_denotes⟩
  · rintro ⟨hcount, last, pieces, heq, hm, hkinds⟩
    obtain ⟨tokens, hmarks, rfl⟩ := exists_marks_of_denotes hkinds 0
    exact ⟨tokens, (hmarks.tokenize_iff heq hm).mpr hcount, rfl⟩

theorem value_iff_reads {text : String} {x : Float} :
    value store text = .ok x ↔
      text.toList.count '(' = text.toList.count ')' ∧ ∃ kinds p, Reads text.toList kinds ∧
        ofKinds store kinds = .ok p ∧ p.value store = .ok x := by
  rw [value_iff]
  constructor
  · rintro ⟨tokens, p, ht, hp, hx⟩
    obtain ⟨hcount, hreads⟩ := tokenize_kinds_iff.mp ⟨tokens, ht, rfl⟩
    exact ⟨hcount, _, p, hreads, hp, hx⟩
  · rintro ⟨hcount, kinds, p, hreads, hp, hx⟩
    obtain ⟨tokens, ht, rfl⟩ := tokenize_kinds_iff.mpr ⟨hcount, hreads⟩
    exact ⟨tokens, p, ht, hp, hx⟩

end Reading

section Boundary

theorem Lexeme.eq_of_symbol_mem {cs : List Char} {c : Char} (h : Lexeme cs)
    (hc : c ∈ ['+', '-', '*', '/', '(', ')']) (hmem : c ∈ cs) : cs = [c] := by
  have hapart : ¬ (c.isDigit = true ∨ c = '.') ∧ ¬ isNameChar c = true := by
    rcases symbol_cases hc with rfl | rfl | rfl | rfl | rfl | rfl <;> decide
  cases h with
  | numeral h => exact absurd (h.isDigit_or_point hmem) hapart.1
  | name h => exact absurd (isNameChar_of_mem h hmem) hapart.2
  | symbol h => rw [List.mem_singleton.mp hmem]

/-- A symbol is no part of a lexeme that begins before it. -/
theorem Longest.append_symbol {lexeme rest : List Char} {c : Char} (h : Longest lexeme rest)
    (hc : c ∈ ['+', '-', '*', '/', '(', ')']) (more : List Char) :
    Longest lexeme (rest ++ c :: more) := by
  refine ⟨h.isLexeme, ?_⟩
  intro other hother hp
  by_cases hmem : c ∈ other
  · obtain ⟨d, cs, rfl⟩ := h.isLexeme.exists_cons
    rw [hother.eq_of_symbol_mem hc hmem]
    simp
  · have hshort : other.length ≤ (lexeme ++ rest).length := by
      by_contra hlong
      have hwhole : lexeme ++ rest ++ [c] <+: lexeme ++ (rest ++ c :: more) :=
        ⟨more, by simp⟩
      have hreach : lexeme ++ rest ++ [c] <+: other := by
        apply List.prefix_of_prefix_length_le hwhole hp
        simp only [List.length_append, List.length_singleton] at hlong ⊢
        omega
      exact hmem (hreach.subset (by simp))
    rw [← List.append_assoc] at hp
    exact h.length_le other hother ((List.isPrefix_append_of_length hshort).mp hp)

/-- The blanks at the end of a text come to stand in front of the parenthesis. -/
theorem spelled_closing (last tail : List Char) (pieces more : List Piece) :
    spelled tail (pieces ++ ⟨last, [')']⟩ :: more) =
      spelled last pieces ++ ')' :: spelled tail more := by
  induction pieces with
  | nil => rfl
  | cons piece pieces ih => simp only [List.cons_append, spelled, ih, List.append_assoc]

theorem Munched.closing {last tail : List Char} {pieces more : List Piece}
    (h : Munched last pieces) (hmore : Munched tail more) :
    Munched tail (pieces ++ ⟨last, [')']⟩ :: more) := by
  induction pieces with
  | nil => exact ⟨h, longest_symbol (by decide) _, hmore⟩
  | cons piece pieces ih =>
    have hlexeme : Longest piece.lexeme (spelled tail (pieces ++ ⟨last, [')']⟩ :: more)) := by
      rw [spelled_closing]
      exact h.2.1.append_symbol (by decide) _
    exact ⟨h.1, hlexeme, ih h.2.2⟩

theorem reads_nil : Reads [] [] := ⟨[], [], rfl, blanks_nil, .nil⟩

/-- The longest lexeme in front of a text adds one token. -/
theorem Reads.lexeme {lexeme rest : List Char} {kind : Token.Kind} {kinds : List Token.Kind}
    (hl : Longest lexeme rest) (hd : Denotes lexeme kind) (h : Reads rest kinds) :
    Reads (lexeme ++ rest) (kind :: kinds) := by
  obtain ⟨last, pieces, rfl, hm, hkinds⟩ := h
  exact ⟨last, ⟨[], lexeme⟩ :: pieces, rfl, ⟨blanks_nil, hl, hm⟩, .cons hd hkinds⟩

theorem Reads.symbol {c : Char} {kind : Token.Kind} {cs : List Char} {kinds : List Token.Kind}
    (hc : c ∈ ['+', '-', '*', '/', '(', ')']) (hd : Denotes [c] kind) (h : Reads cs kinds) :
    Reads (c :: cs) (kind :: kinds) :=
  h.lexeme (longest_symbol hc cs) hd

theorem Reads.name {name : String} {rest : List Char} {kinds : List Token.Kind}
    (hname : isName name.toList = true) (hrest : Stops isNameChar rest) (h : Reads rest kinds) :
    Reads (name.toList ++ rest) (.name name :: kinds) := by
  have hd : Denotes name.toList (.name name) := by simpa using Denotes.name hname
  exact h.lexeme (longest_name hname hrest) hd

theorem count_name {name : List Char} {c : Char} (hname : isName name = true)
    (hc : c = '(' ∨ c = ')') : name.count c = 0 :=
  (Denotes.name hname).count_parenthesis hc

theorem Reads.closing {cs rest : List Char} {kinds more : List Token.Kind} (h : Reads cs kinds)
    (hrest : Reads rest more) : Reads (cs ++ ')' :: rest) (kinds ++ .closing :: more) := by
  obtain ⟨last, pieces, rfl, hm, hkinds⟩ := h
  obtain ⟨tail, others, rfl, hothers, hmore⟩ := hrest
  refine ⟨tail, pieces ++ ⟨last, [')']⟩ :: others, ?_, hm.closing hothers, ?_⟩
  · exact (spelled_closing ..).symm
  · exact List.rel_append hkinds (.cons .closing hmore)

/-- Between parentheses a text has the tokens that it has on its own. -/
theorem Reads.group {cs rest : List Char} {kinds more : List Token.Kind} (h : Reads cs kinds)
    (hrest : Reads rest more) :
    Reads ('(' :: (cs ++ ')' :: rest)) (.opening :: (kinds ++ .closing :: more)) :=
  .symbol (by decide) .opening (h.closing hrest)

end Boundary

section Ordering

theorem Postfix.Below.append_opening {level : Nat} {stack : List Pending} (h : Below level stack)
    (below : List Pending) : Below level (stack ++ .opening :: below) := by
  cases stack with
  | nil => trivial
  | cons top stack =>
    cases top with
    | opening => trivial
    | operator op => exact h

/-- No token reaches below an open parenthesis, unless it closes it. -/
theorem step_above {stack rest : List Pending} {kind : Token.Kind} {out : Postfix}
    (h : step store stack kind = .ok (out, rest)) (below : List Pending) :
    step store (stack ++ .opening :: below) kind = .ok (out, rest ++ .opening :: below) := by
  cases takes_of_step h with
  | number value => rfl
  | name hname => rw [step, if_pos hname]
  | opening => rfl
  | closing hstack => rw [hstack, List.append_assoc, List.cons_append, step, close_waits]
  | operator hstack hops hrest =>
    rw [hstack, List.append_assoc, step, release_waits hops (hrest.append_opening below)]
    rfl

theorem steps_above {stack last : List Pending} {kinds : List Token.Kind} {terms : Postfix}
    (h : steps store stack kinds = .ok (terms, last)) (below : List Pending) :
    steps store (stack ++ .opening :: below) kinds = .ok (terms, last ++ .opening :: below) := by
  induction kinds generalizing stack terms with
  | nil =>
    cases h
    rfl
  | cons kind kinds ih =>
    obtain ⟨out, middle, more, hstep, hsteps, rfl⟩ := steps_cons_iff.mp h
    exact steps_cons_ok (step_above hstep below) (ih hsteps)

theorem suspends_name {name : String} (hname : store.contains name = true) (level : Nat)
    (stack : List Pending) : Suspends store level stack [.name name] [.variable name] := by
  have hstep : step store stack (.name name) = .ok ([.variable name], stack) := by
    rw [step, if_pos hname]
  exact suspends_operand hstep

/-- Tokens in parentheses come out as on their own, whatever waits meanwhile. -/
theorem suspends_group {kinds : List Token.Kind} {p : Postfix} (h : ofKinds store kinds = .ok p)
    (level : Nat) (stack : List Pending) :
    Suspends store level stack (.opening :: kinds ++ [.closing]) p := by
  obtain ⟨terms, last, out, hsteps, hdrain, rfl⟩ := ofKinds_iff.mp h
  obtain ⟨ops, rfl, rfl⟩ := exists_of_drain hdrain
  have hinner : Suspends store 0 (.opening :: stack) kinds (terms ++ leaves ops) :=
    ⟨terms, ops, steps_above hsteps stack, rfl, by simp⟩
  exact hinner.group

/-- An operator between parentheses comes out behind what is in them, left before right. -/
theorem ofKinds_node {front back : List Token.Kind} {p q : Postfix}
    (hp : ofKinds store front = .ok p) (hq : ofKinds store back = .ok q) (op : Operator) :
    ofKinds store (.opening :: (front ++ .closing :: .operator op :: .opening ::
      (back ++ [.closing]))) = .ok (p ++ q ++ [.operator op]) := by
  have hnode := @Suspends.node store op _ rfl [] _ _ _ _ trivial (suspends_group hp _ [])
    (suspends_group hq _ [.operator op])
  simpa using hnode.ofKinds_eq

theorem Postfix.value_variable {name : String} {x : Float} (h : store.get? name = some x) :
    Postfix.value store [.variable name] = .ok x := by
  simp only [Postfix.value, run, push, h]

theorem Postfix.value_node {p q : Postfix} {x y : Float} (hp : p.value store = .ok x)
    (hq : q.value store = .ok y) (op : Operator) :
    Postfix.value store (p ++ q ++ [.operator op]) = .ok (op.apply x y) := by
  obtain ⟨left, rfl, hx⟩ := Postfix.value_eq_ok_iff.mp hp
  obtain ⟨right, rfl, hy⟩ := Postfix.value_eq_ok_iff.mp hq
  exact value_postorder (@Tree.value?_node store op left right x y hx hy)

end Ordering

theorem Operator.toList_text (op : Operator) : op.text.toList = [op.symbol] := by
  cases op <;> rfl

theorem Operator.symbol_ne (op : Operator) : op.symbol ≠ '(' ∧ op.symbol ≠ ')' := by
  cases op <;> decide

/-- A text that has a value keeps it in parentheses, and an operator between two such texts in
parentheses applies to their values. -/
theorem value_parenthesised (store : Store) (op : Operator) (a b : String) (x y : Float)
    (ha : value store a = .ok x) (hb : value store b = .ok y) :
    value store ("(" ++ a ++ ")") = .ok x ∧
      value store ("(" ++ a ++ ")" ++ op.text ++ "(" ++ b ++ ")") = .ok (op.apply x y) := by
  obtain ⟨hcounta, kinds, p, hreadsa, hp, hx⟩ := value_iff_reads.mp ha
  obtain ⟨hcountb, more, q, hreadsb, hq, hy⟩ := value_iff_reads.mp hb
  constructor
  · have htext : ("(" ++ a ++ ")").toList = '(' :: (a.toList ++ [')']) := by simp
    rw [value_iff_reads, htext]
    refine ⟨by simp [hcounta], _, p, hreadsa.group reads_nil, ?_, hx⟩
    exact (suspends_group hp 0 []).ofKinds_eq
  · have htext : ("(" ++ a ++ ")" ++ op.text ++ "(" ++ b ++ ")").toList =
        '(' :: (a.toList ++ ')' :: op.symbol :: '(' :: (b.toList ++ [')'])) := by
      simp [Operator.toList_text]
    obtain ⟨hopening, hclosing⟩ := op.symbol_ne
    have hreads := hreadsa.group
      (.symbol op.symbol_mem (.operator op) (hreadsb.group reads_nil))
    rw [value_iff_reads, htext]
    refine ⟨?_, _, _, hreads, ofKinds_node hp hq op, value_node hx hy op⟩
    simp [hcounta, hcountb, hopening, hclosing, Nat.add_assoc]

/-- A text with its operator behind its operands, in parentheses before a product. -/
theorem value_parenthesised_trailing_operator :
    let store := (Store.empty.insert "a" ⟨.float, 1⟩).insert "b" ⟨.float, 2⟩
    value store "(a b +)" = .ok (1 + 2) ∧
      value store "(a b +)*(b-a)" = .ok ((1 + 2) * (2 - 1)) := by
  intro store
  have hsum : tokenize "a b +" =
      .ok [⟨.name "a", 0, 1⟩, ⟨.name "b", 2, 3⟩, ⟨.operator .add, 4, 5⟩] := by cbv
  have hdifference : tokenize "b-a" =
      .ok [⟨.name "b", 0, 1⟩, ⟨.operator .subtract, 1, 2⟩, ⟨.name "a", 2, 3⟩] := by cbv
  have hfirst : value store "a b +" = .ok (1 + 2) := value_iff.mpr ⟨_, _, hsum, rfl, rfl⟩
  have hsecond : value store "b-a" = .ok (2 - 1) := value_iff.mpr ⟨_, _, hdifference, rfl, rfl⟩
  exact value_parenthesised store .multiply "a b +" "b-a" _ _ hfirst hsecond

end GridRover.Expression
