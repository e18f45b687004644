import GridRover.Proofs.Expression.Munch
import GridRover.Proofs.Script.Parallel
import Mathlib.Data.List.Forall2

/-!
# Programs in another layout

A line matters by the statement that it spells, and an expression by the kinds of its
tokens. Two programs whose lines agree in this are run in the same way: a machine goes
through the same states whichever of them it holds, and only the text that a failure
quotes tells them apart.
-/
namespace GridRover

namespace Expression

/-- Two texts that are the same, or that have tokens of the same kinds. -/
def SameKinds (a b : String) : Prop :=
  a = b ∨ ∃ ts us, tokenize a = .ok ts ∧ tokenize b = .ok us ∧
    ts.map Token.kind = us.map Token.kind

/-- Where the tokens of a text stand does not matter to its value, nor to why it has none. -/
theorem SameKinds.value_eq {a b : String} (h : SameKinds a b) (s : Store) :
    value s a = value s b := by
  rcases h with rfl | ⟨ts, us, ha, hb, hkinds⟩
  · rfl
  · simp only [value, postfixOf, ha, hb, hkinds]

end Expression

namespace Script

open Expression (SameKinds)

/-- The same statement, except that its expression may be another text of the same kinds. -/
inductive Statement.Rewords : Statement → Statement → Prop
  | same (s : Statement) : Rewords s s
  | initializer {a b : String} (type : VariableType) (name : String) (h : SameKinds a b) :
    Rewords (.declaration type name (some a)) (.declaration type name (some b))
  | update {a b : String} (name : String) (assignment : Assignment) (h : SameKinds a b) :
    Rewords (.update name assignment a) (.update name assignment b)

/-- Two lines that are both no statement, or that spell the same one in this sense. -/
def Reformats (line other : String) : Prop :=
  Option.Rel Statement.Rewords (Statement.ofLine? line) (Statement.ofLine? other)

theorem Reformats.statement_cases {line other : String} (h : Reformats line other) :
    (Statement.ofLine? line = none ∧ Statement.ofLine? other = none) ∨
      ∃ s t : Statement, Statement.ofLine? line = some s ∧ Statement.ofLine? other = some t ∧
        s.Rewords t := by
  unfold Reformats at h
  generalize Statement.ofLine? line = s, Statement.ofLine? other = t at h
  cases h with
  | none => exact .inl ⟨rfl, rfl⟩
  | some h => exact .inr ⟨_, _, rfl, rfl, h⟩

/-- What a result says apart from the text of a failing line. -/
def report : Except Failure Status → Except (Nat × Cause) Status :=
  Except.mapError fun failure => (failure.line, failure.cause)

namespace Machine

variable {m : Machine} {other : List String}

/-- The machine as it is, with another program in it. -/
def withProgram (m : Machine) (other : List String) : Machine := { m with program := other }

theorem evaluate_withProgram {a b : String} (h : SameKinds a b) :
    (m.withProgram other).evaluate b = m.evaluate a := by
  simp only [evaluate, h.value_eq, withProgram]

theorem action_withProgram {s t : Statement} (h : s.Rewords t)
    (hlength : m.program.length = other.length) :
    (m.withProgram other).action t = m.action s := by
  cases h with
  | same s =>
    cases s with
    | goto target =>
      -- Of the program, a statement sees at most how long it is.
      have hsame : (m.withProgram other).program.length = m.program.length := hlength.symm
      have hindex : (m.withProgram other).lineIndex target = m.lineIndex target := by
        rw [lineIndex_eq, lineIndex_eq, hsame]
      simp only [action, hindex]
    | _ => rfl
  | @initializer a b type name h =>
    have hvalue : (m.withProgram other).initialValue type (some b) =
        m.initialValue type (some a) := by
      simp only [initialValue, evaluate_withProgram h]
    simp only [action, hvalue]
    rfl
  | update name assignment h =>
    simp only [action, evaluate_withProgram h]
    rfl

theorem plan_withProgram {line twin : String} (h : Reformats line twin)
    (hlength : m.program.length = other.length) :
    (m.withProgram other).plan twin = m.plan line := by
  rcases h.statement_cases with ⟨hs, ht⟩ | ⟨s, t, hs, ht, hrewords⟩
  · simp only [plan, hs, ht]
  · simp only [plan, hs, ht]
    exact action_withProgram hrewords hlength

theorem perform_withProgram (m : Machine) (other : List String) (change : Action) :
    (m.withProgram other).perform change = (m.perform change).withProgram other := by
  cases change <;> rfl

theorem line_cases {program : List String} (h : List.Forall₂ Reformats program other) (i : Nat) :
    (program[i]? = none ∧ other[i]? = none) ∨
      ∃ line twin, program[i]? = some line ∧ other[i]? = some twin ∧ Reformats line twin := by
  induction h generalizing i with
  | nil => exact .inl ⟨rfl, rfl⟩
  | cons hline h ih =>
    cases i with
    | zero => exact .inr ⟨_, _, rfl, rfl, hline⟩
    | succ i => exact ih i

/-- A step does the same whichever of two such programs is in the machine. -/
theorem advance_withProgram (h : List.Forall₂ Reformats m.program other) :
    (m.withProgram other).advance.1 = m.advance.1.withProgram other ∧
      report (m.withProgram other).advance.2 = report m.advance.2 := by
  cases hs : m.status with
  | completed =>
    have htwin := @Advances.idle (m.withProgram other) hs
    rw [htwin.advance_eq, (Advances.idle hs).advance_eq]
    exact ⟨rfl, rfl⟩
  | running =>
    rcases line_cases h m.counter with ⟨hl, hl'⟩ | ⟨line, twin, hl, hl', hreformats⟩
    · have htwin := @Advances.finish (m.withProgram other) hs hl'
      rw [htwin.advance_eq, (Advances.finish hs hl).advance_eq]
      exact ⟨rfl, rfl⟩
    · have hplan := plan_withProgram hreformats h.length_eq
      cases hp : m.plan line with
      | error cause =>
        have htwin := @Advances.fail (m.withProgram other) twin cause hs hl' (hplan.trans hp)
        rw [htwin.advance_eq, (Advances.fail hs hl hp).advance_eq]
        exact ⟨rfl, rfl⟩
      | ok change =>
        have htwin := @Advances.perform (m.withProgram other) twin change hs hl' (hplan.trans hp)
        rw [htwin.advance_eq, (Advances.perform hs hl hp).advance_eq]
        exact ⟨perform_withProgram m other change, rfl⟩

theorem after_withProgram (h : List.Forall₂ Reformats m.program other) (n : Nat) :
    (m.withProgram other).after n = (m.after n).withProgram other := by
  induction n with
  | zero => rfl
  | succ n ih =>
    have hstep := @advance_withProgram (m.after n) other (after_program m n ▸ h)
    rw [after_succ, after_succ, ih, hstep.1]

theorem result_withProgram (h : List.Forall₂ Reformats m.program other) (n : Nat) :
    report ((m.withProgram other).result n) = report (m.result n) := by
  rw [result, after_withProgram h]
  exact (@advance_withProgram (m.after n) other (after_program m n ▸ h)).2

/-- A line sends the same command in either layout. -/
theorem command?_withProgram (h : List.Forall₂ Reformats m.program other) :
    (m.withProgram other).command? = m.command? := by
  simp only [command?, withProgram]
  rcases line_cases h m.counter with ⟨hl, hl'⟩ | ⟨line, twin, hl, hl', hreformats⟩
  · rw [hl, hl']
  · rw [hl, hl']
    rcases hreformats.statement_cases with ⟨hs, ht⟩ | ⟨s, t, hs, ht, hrewords⟩
    · simp only [hs, ht]
    · simp only [hs, ht]
      cases hrewords <;> rfl

theorem commands_withProgram (h : List.Forall₂ Reformats m.program other) (n : Nat) :
    (m.withProgram other).commands n = m.commands n := by
  have hcommand (i : Nat) : ((m.withProgram other).after i).command? = (m.after i).command? := by
    rw [after_withProgram h]
    exact command?_withProgram (after_program m i ▸ h)
  simp only [commands, hcommand]

theorem fresh_withProgram (program other subscribers : List String) :
    (fresh program subscribers).withProgram other = fresh other subscribers := by
  rw [fresh_eq, fresh_eq]
  rfl

/-- The layout of a program does not matter to its run. Where two programs are of the same
length and each line of one is a line of the other in another layout, new machines on them
have after any number of steps the same counter, status and variables and have sent the same
commands, and the next step has the same result on both, up to the text of a failing line. -/
theorem reformatted_run (program other subscribers : List String)
    (h : List.Forall₂ Reformats program other) (k : Nat) :
    let m := fresh program subscribers
    let twin := fresh other subscribers
    (m.after k).counter = (twin.after k).counter ∧ (m.after k).status = (twin.after k).status ∧
      (m.after k).store = (twin.after k).store ∧ m.commands k = twin.commands k ∧
      (m.after k).channel = (twin.after k).channel ∧
      report (m.result k) = report (twin.result k) := by
  intro m twin
  have hm : List.Forall₂ Reformats m.program other := by simpa only [m, fresh_eq] using h
  have htwin : twin = m.withProgram other := (fresh_withProgram program other subscribers).symm
  rw [htwin, after_withProgram hm, commands_withProgram hm, result_withProgram hm]
  exact ⟨rfl, rfl, rfl, rfl, rfl, rfl⟩

/-- Blanks moved about in a declaration, an update and a movement, a wide one among them, and
a line that is no statement for another. -/
theorem reformatted_run_blanks :
    let program := ["int x = 1;", "x=x+x;", "left;", "jump;"]
    let other := ["\tint  x =1 ;", "x =x +\u2003x;", " left ; ", "???"]
    List.Forall₂ Reformats program other ∧
      ((fresh program ["rover"]).after 3).store = ((fresh other ["rover"]).after 3).store ∧
      ((fresh program ["rover"]).after 3).channel = ((fresh other ["rover"]).after 3).channel ∧
      report ((fresh program ["rover"]).result 3) = report ((fresh other ["rover"]).result 3) := by
  intro program other
  have hx (rest : List Char) (hrest : Text.Stops Text.isNameChar rest) :
      Expression.Longest ['x'] rest := Expression.longest_name (by decide) hrest
  have hplus (rest : List Char) : Expression.Longest ['+'] rest :=
    Expression.longest_symbol (by decide) rest
  have hclose : Expression.tokenize "x+x" =
      .ok [⟨.name "x", 0, 1⟩, ⟨.operator .add, 1, 2⟩, ⟨.name "x", 2, 3⟩] :=
    (@Expression.Marks.tokenize_iff "x+x" [] [⟨[], ['x']⟩, ⟨[], ['+']⟩, ⟨[], ['x']⟩] _ (by decide)
      ⟨Text.blanks_nil, hx _ (Text.stops_cons.mpr (by decide)), Text.blanks_nil, hplus _,
        Text.blanks_nil, hx _ (Text.stops_nil _), Text.blanks_nil⟩
      (.cons (.name (by decide)) (.cons (.operator .add) (.cons (.name (by decide)) (.nil _))))).mpr
        (by decide)
  have hwide : Expression.tokenize "x +\u2003x" =
      .ok [⟨.name "x", 0, 1⟩, ⟨.operator .add, 2, 3⟩, ⟨.name "x", 6, 7⟩] :=
    (@Expression.Marks.tokenize_iff "x +\u2003x" []
      [⟨[], ['x']⟩, ⟨[' '], ['+']⟩, ⟨['\u2003'], ['x']⟩] _ (by decide)
      ⟨Text.blanks_nil, hx _ (Text.stops_cons.mpr (by decide)),
        List.forall_mem_singleton.mpr (by decide), hplus _,
        List.forall_mem_singleton.mpr (by decide), hx _ (Text.stops_nil _), Text.blanks_nil⟩
      (.cons (.name (by decide)) (.cons (.operator .add) (.cons (.name (by decide)) (.nil _))))).mpr
        (by decide)
  have hlines : List.Forall₂ Reformats program other :=
    .cons (.some (.same (.declaration .int "x" (some "1"))))
      (.cons (.some (.update "x" .plain (.inr ⟨_, _, hclose, hwide, rfl⟩)))
        (.cons (.some (.same (.move .left))) (.cons .none .nil)))
  obtain ⟨-, -, hstore, -, hchannel, hresult⟩ := reformatted_run _ _ ["rover"] hlines 3
  exact ⟨hlines, hstore, hchannel, hresult⟩

end Machine

end Script

end GridRover
