import GridRover.Proofs.Expression.Composition
import GridRover.Proofs.Script.Recognition
import GridRover.Proofs.Script.Reformatting

/-!
# Compound assignments written out

A compound assignment `x += e;` is short for `x = x + (e);`. The two lines reach the new
value on different ways: the first applies the operator to the stored value outside of any
expression, the second has it read, ordered and run as part of one. The parentheses keep the
operators of `e` among themselves.
-/
namespace GridRover

namespace Expression

open Postfix Text

variable {store : Store}

/-- Blanks in front of a text add no token. -/
theorem Reads.blanks {w cs : List Char} {kinds : List Token.Kind} (hw : Blanks w)
    (h : Reads cs kinds) : Reads (w ++ cs) kinds := by
  obtain ⟨last, pieces, rfl, hm, hkinds⟩ := h
  cases pieces with
  | nil => exact ⟨w ++ last, [], rfl, blanks_append.mpr ⟨hw, hm⟩, hkinds⟩
  | cons piece pieces =>
    cases hkinds with
    | cons hd hkinds =>
      refine ⟨last, ⟨w ++ piece.gap, piece.lexeme⟩ :: pieces, ?_, ?_, .cons hd hkinds⟩
      · rw [spelled, spelled, List.append_assoc]
      · exact ⟨blanks_append.mpr ⟨hw, hm.1⟩, hm.2⟩

/-- An operator between a name and parentheses comes out behind the name and what is in them. -/
theorem ofKinds_name_node {name : String} {kinds : List Token.Kind} {p : Postfix}
    (hname : store.contains name = true) (hp : ofKinds store kinds = .ok p) (op : Operator) :
    ofKinds store (.name name :: .operator op :: .opening :: (kinds ++ [.closing])) =
      .ok ([.variable name] ++ p ++ [.operator op]) := by
  have hnode := @Suspends.node store op _ rfl [] _ _ _ _ trivial (suspends_name hname _ [])
    (suspends_group hp _ [.operator op])
  exact hnode.ofKinds_eq

/-- The right side of a compound assignment that is written out. -/
def operandText (name : String) (op : Operator) (text : String) : String :=
  name ++ " " ++ op.text ++ " (" ++ text ++ ")"

theorem toList_operandText (name : String) (op : Operator) (text : String) :
    (operandText name op text).toList =
      name.toList ++ (' ' :: op.symbol :: ' ' :: '(' :: (text.toList ++ [')'])) := by
  simp [operandText, Operator.toList_text]

theorem value_operandText {name text : String} {x y : Float}
    (hname : isName name.toList = true) (hx : store.get? name = some x)
    (hy : value store text = .ok y) (op : Operator) :
    value store (operandText name op text) = .ok (op.apply x y) := by
  obtain ⟨hcount, kinds, p, hreads, hp, hvalue⟩ := value_iff_reads.mp hy
  have hspace : Blanks [' '] := List.forall_mem_singleton.mpr (by decide)
  have hgroup := (hreads.group reads_nil).blanks hspace
  have hright := (Reads.symbol op.symbol_mem (.operator op) hgroup).blanks hspace
  have hall := Reads.name hname (stops_gap hspace (List.cons_ne_nil _ _) _) hright
  obtain ⟨hopening, hclosing⟩ := op.symbol_ne
  rw [value_iff_reads, toList_operandText]
  refine ⟨?_, _, _, hall, ofKinds_name_node (Store.contains_iff_get?.mpr ⟨x, hx⟩) hp op,
    value_node (value_variable hx) hvalue op⟩
  simp [count_name hname (.inl rfl), count_name hname (.inr rfl), hcount, hopening, hclosing]

end Expression

namespace Script

open Expression (Operator operandText)
open Text

variable {name expression : String} {op : Operator}

namespace Statement

/-- The line that writes out a compound assignment. -/
def expanded (name : String) (op : Operator) (expression : String) : String :=
  name ++ " = " ++ operandText name op expression ++ ";"

theorem isVariable_of_update {line : String} {assignment : Assignment}
    (h : ofLine? line = some (.update name assignment expression)) : IsVariable name := by
  have hspells := spells_of_ofLine? h
  generalize line.toList = cs at hspells
  cases hspells with
  | closed hphrase =>
    cases hphrase with
    | update _ hname => exact hname

theorem spells_expanded (hname : IsVariable name) (op : Operator) (expression : String) :
    Spells (expanded name op expression).toList
      (.update name .plain (operandText name op expression)) := by
  have hspace : Blanks [' '] := List.forall_mem_singleton.mpr (by decide)
  have hstrips : Strips (' ' :: (operandText name op expression).toList)
      (operandText name op expression).toList := by
    refine ⟨?_, ?_, [' '], [], hspace, blanks_nil, by simp⟩
    · rw [Expression.toList_operandText]
      exact startsSolid_name hname.isName _
    · rw [operandText, String.toList_append]
      exact endsSolid_concat.mpr (by decide)
  have hne : operandText name op expression ≠ "" := by simp [operandText]
  have hphrase := Phrase.update .plain hname hspace hstrips hne
  have hspells := Spells.closed hphrase blanks_nil blanks_nil blanks_nil
  simpa [expanded, Assignment.text] using hspells

theorem ofLine?_expanded (hname : IsVariable name) (op : Operator) (expression : String) :
    ofLine? (expanded name op expression) =
      some (.update name .plain (operandText name op expression)) :=
  ofLine?_of_spells (spells_expanded hname op expression)

end Statement

/-- A compound assignment has its own table of operations, and it is the one of the operators. -/
theorem Assignment.apply_compound (op : Operator) (x y : Float) :
    (Assignment.compound op).apply x y = op.apply x y := by
  cases op <;> rfl

namespace Machine

/-- Both lines write the same value into the variable. -/
theorem plan_expanded {m : Machine} {line : String} {change : Action} {other : List String}
    (hs : Statement.ofLine? line = some (.update name (.compound op) expression))
    (hp : m.plan line = .ok change) :
    (m.withProgram other).plan (Statement.expanded name op expression) = .ok change := by
  have hname := Statement.isVariable_of_update hs
  obtain ⟨statement, hstatement, hacts⟩ := plan_eq_ok_iff.mp hp
  rw [hs] at hstatement
  cases hstatement
  cases hacts with
  | @assign _ _ _ v x hv hx =>
    have hcurrent : m.store.get? name = some v.value := by simp [Store.get?, hv]
    have hvalue := Expression.value_operandText hname.isName hcurrent (evaluate_eq_ok_iff.mp hx) op
    rw [← Assignment.apply_compound] at hvalue
    apply plan_eq_ok_iff.mpr
    exact ⟨_, Statement.ofLine?_expanded hname op expression,
      @Acts.assign (m.withProgram other) _ _ .plain v _ hv (evaluate_eq_ok_iff.mpr hvalue)⟩

/-- A compound assignment that runs can be written out. With the line `x = x op (e);` in place
of `x op= e;` the step succeeds with the same result, and the machine after it differs in
nothing but that line. -/
theorem advance_expanded (m next : Machine) (status : Status) (line name expression : String)
    (op : Operator) (hl : m.program[m.counter]? = some line)
    (hs : Statement.ofLine? line = some (.update name (.compound op) expression))
    (h : m.advance = (next, .ok status)) :
    let other := m.program.set m.counter (Statement.expanded name op expression)
    { m with program := other }.advance = ({ next with program := other }, .ok status) := by
  intro other
  have hline : other[m.counter]? = some (Statement.expanded name op expression) :=
    List.getElem?_set_self (List.getElem?_eq_some_iff.mp hl).1
  cases advances_of_eq h with
  | idle hc => exact (@Advances.idle (m.withProgram other) hc).advance_eq
  | finish hr hnone =>
    rw [hl] at hnone
    cases hnone
  | @perform text change hr htext hp =>
    obtain rfl : line = text := Option.some.inj (hl.symm.trans htext)
    have hstep := @Advances.perform (m.withProgram other) _ _ hr hline (plan_expanded hs hp)
    rw [perform_withProgram] at hstep
    exact hstep.advance_eq

/-- An integer divided by a difference, which becomes a fraction on both ways. -/
theorem advance_expanded_quotient :
    let store := ((Store.empty.insert "x" ⟨.int, 7⟩).insert "y" ⟨.float, 4⟩).insert "z" ⟨.float, 2⟩
    let m : Machine := ⟨["left;", " x/=y - z ;"], 1, store, .empty, .running⟩
    ∃ next, m.advance = (next, .ok .running) ∧
      { m with program := ["left;", "x = x / (y - z);"] }.advance =
        ({ next with program := ["left;", "x = x / (y - z);"] }, .ok .running) ∧
      next.counter = 2 ∧ next.store.find? "x" = some ⟨.int, 7 / (4 - 2)⟩ := by
  intro store m
  have htokens : Expression.tokenize "y - z" =
      .ok [⟨.name "y", 0, 1⟩, ⟨.operator .subtract, 2, 3⟩, ⟨.name "z", 4, 5⟩] := by cbv
  have hvalue : Expression.value m.store "y - z" = .ok (4 - 2) :=
    Expression.value_iff.mpr ⟨_, _, htokens, rfl, rfl⟩
  have hs : Statement.ofLine? " x/=y - z ;" = some (.update "x" (.compound .divide) "y - z") := rfl
  have hp : m.plan " x/=y - z ;" = .ok (.write "x" ⟨.int, 7 / (4 - 2)⟩) :=
    plan_eq_ok_iff.mpr ⟨_, hs,
      @Acts.assign m "x" "y - z" (.compound .divide) ⟨.int, 7⟩ _ rfl (evaluate_eq_ok_iff.mpr hvalue)⟩
  have hstep := (Advances.perform rfl rfl hp).advance_eq
  exact ⟨_, hstep, advance_expanded m _ _ _ _ _ _ rfl hs hstep, rfl,
    (Store.find?_insert ..).trans (if_pos rfl)⟩

end Machine

end Script

end GridRover
