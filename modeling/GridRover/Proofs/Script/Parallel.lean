import GridRover.Proofs.Script.Emission
import GridRover.Proofs.Script.Itinerary
import Mathlib.Data.List.Induction

/-!
# Runs that differ in their values

Two machines that run the same program from the same place and declare the same names stay
together, whatever their variables hold. A statement asks a store for values only to write
values back: which line comes next, what is sent, and why a line fails are settled by the
names that are declared.
-/
namespace GridRover.Script.Machine

open Expression (Alike value_alike)

/-- Two machines that differ at most in their subscribers and in what their variables hold. -/
structure Parallel (m twin : Machine) : Prop where
  program : m.program = twin.program
  counter : m.counter = twin.counter
  status : m.status = twin.status
  names : ∀ name, m.store.contains name = twin.store.contains name

/-- Two decisions that are the same except for the variable that is written. -/
inductive Agree : Except Cause Action → Except Cause Action → Prop
  | error (cause : Cause) : Agree (.error cause) (.error cause)
  | move (direction : Direction) : Agree (.ok (.move direction)) (.ok (.move direction))
  | jump (index : Nat) : Agree (.ok (.jump index)) (.ok (.jump index))
  | write (name : String) (v w : Variable) : Agree (.ok (.write name v)) (.ok (.write name w))
  | pass : Agree (.ok .pass) (.ok .pass)

/-- The commands that the first `n` steps send. -/
def commands (m : Machine) (n : Nat) : List Command :=
  (List.range n).flatMap fun i => (m.after i).command?.toList

theorem commands_succ (m : Machine) (n : Nat) :
    m.commands (n + 1) = m.commands n ++ (m.after n).command?.toList := by
  simp [commands, List.range_succ]

theorem channel_after (m : Machine) (n : Nat) :
    (m.after n).channel = m.channel.transmit (m.commands n) := by
  induction n with
  | zero => rfl
  | succ n ih => rw [after_succ, advance_channel, ih, commands_succ, Channel.transmit_append]

namespace Parallel

variable {m twin : Machine}

theorem evaluate (h : Parallel m twin) (expression : String) :
    Alike (m.evaluate expression) (twin.evaluate expression) := by
  simp only [Machine.evaluate]
  rcases value_alike h.names expression with ⟨x, y, hx, hy⟩ | ⟨e, hm, ht⟩
  · rw [hx, hy]
    exact .inl ⟨x, y, rfl, rfl⟩
  · rw [hm, ht]
    exact .inr ⟨_, rfl, rfl⟩

theorem initialValue (h : Parallel m twin) (type : VariableType) (initializer : Option String) :
    Alike (m.initialValue type initializer) (twin.initialValue type initializer) := by
  cases initializer with
  | none => exact .inl ⟨0, 0, rfl, rfl⟩
  | some expression =>
    simp only [Machine.initialValue]
    rcases h.evaluate expression with ⟨x, y, hx, hy⟩ | ⟨cause, hm, ht⟩
    · rw [hx, hy]
      exact .inl ⟨_, _, rfl, rfl⟩
    · rw [hm, ht]
      exact .inr ⟨cause, rfl, rfl⟩

theorem action (h : Parallel m twin) (statement : Statement) :
    Agree (m.action statement) (twin.action statement) := by
  cases statement with
  | move direction => exact .move direction
  | goto target =>
    simp only [Machine.action, lineIndex_congr h.program]
    cases twin.lineIndex target with
    | ok index => exact .jump index
    | error cause => exact .error cause
  | declaration type name initializer =>
    simp only [Machine.action, h.names name]
    split
    · exact .error _
    · rcases h.initialValue type initializer with ⟨x, y, hx, hy⟩ | ⟨cause, hm, ht⟩
      · rw [hx, hy]
        exact .write name _ _
      · rw [hm, ht]
        exact .error cause
  | update name assignment expression =>
    -- The variable is found in both stores or in neither, and its old value only goes into
    -- the new one.
    have hname := h.names name
    simp only [Store.contains] at hname
    simp only [Machine.action]
    cases hm : m.store.find? name <;> cases ht : twin.store.find? name <;>
      simp only [hm, ht, Option.isSome_none, Option.isSome_some, reduceCtorEq] at hname ⊢
    · exact .error _
    · rcases h.evaluate expression with ⟨x, y, hx, hy⟩ | ⟨cause, hm, ht⟩
      · rw [hx, hy]
        exact .write name _ _
      · rw [hm, ht]
        exact .error cause
  | blank => exact .pass

theorem plan (h : Parallel m twin) (text : String) : Agree (m.plan text) (twin.plan text) := by
  simp only [Machine.plan]
  cases Statement.ofLine? text with
  | none => exact .error _
  | some statement => exact h.action statement

theorem perform (h : Parallel m twin) {change other : Action} (hagree : Agree (.ok change) (.ok other)) :
    Parallel (m.perform change) (twin.perform other) := by
  obtain ⟨hprogram, hcounter, hstatus, hnames⟩ := h
  cases hagree with
  | move direction => exact ⟨hprogram, congrArg (· + 1) hcounter, hstatus, hnames⟩
  | jump index => exact ⟨hprogram, rfl, hstatus, hnames⟩
  | write name v w =>
    refine ⟨hprogram, congrArg (· + 1) hcounter, hstatus, fun other => ?_⟩
    rw [Bool.eq_iff_iff]
    simp only [Machine.perform, Store.contains_insert, hnames other]
  | pass => exact ⟨hprogram, congrArg (· + 1) hcounter, hstatus, hnames⟩

/-- A step keeps two machines together and has the same result on both. -/
theorem advance (h : Parallel m twin) :
    Parallel m.advance.1 twin.advance.1 ∧ m.advance.2 = twin.advance.2 := by
  have hline : twin.program[twin.counter]? = m.program[m.counter]? := by
    rw [h.program, h.counter]
  cases hadvance : m.advance with
  | mk next result =>
    cases advances_of_eq hadvance with
    | idle hs =>
      rw [(Advances.idle (h.status ▸ hs)).advance_eq]
      exact ⟨h, rfl⟩
    | finish hs hl =>
      rw [(Advances.finish (h.status ▸ hs) (hline ▸ hl)).advance_eq]
      exact ⟨⟨h.program, h.counter, rfl, h.names⟩, rfl⟩
    | @fail text cause hs hl hp =>
      have hagree := h.plan text
      rw [hp] at hagree
      cases hother : twin.plan text with
      | ok change =>
        rw [hother] at hagree
        cases hagree
      | error other =>
        rw [hother] at hagree
        cases hagree
        rw [(Advances.fail (h.status ▸ hs) (hline ▸ hl) hother).advance_eq, h.counter]
        exact ⟨h, rfl⟩
    | @perform text change hs hl hp =>
      have hagree := h.plan text
      rw [hp] at hagree
      cases hother : twin.plan text with
      | error cause =>
        rw [hother] at hagree
        cases hagree
      | ok other =>
        rw [hother] at hagree
        rw [(Advances.perform (h.status ▸ hs) (hline ▸ hl) hother).advance_eq]
        exact ⟨h.perform hagree, rfl⟩

theorem after (h : Parallel m twin) (n : Nat) : Parallel (m.after n) (twin.after n) := by
  induction n with
  | zero => exact h
  | succ n ih =>
    rw [after_succ, after_succ]
    exact ih.advance.1

theorem result (h : Parallel m twin) (n : Nat) : m.result n = twin.result n :=
  (h.after n).advance.2

theorem command? (h : Parallel m twin) : m.command? = twin.command? := by
  simp only [Machine.command?, h.status, h.program, h.counter]

theorem commands (h : Parallel m twin) (n : Nat) : m.commands n = twin.commands n := by
  simp only [Machine.commands, (h.after _).command?]

end Parallel

/-- A machine does the same whoever listens to it. -/
theorem result_subscribe (m : Machine) (name : String) (n : Nat) :
    (m.subscribe name).result n = m.result n := by
  have hparallel : Parallel (m.subscribe name) m := ⟨rfl, rfl, rfl, fun _ => rfl⟩
  exact hparallel.result n

theorem runsFor_subscribe {m : Machine} {name : String} {n : Nat} :
    (m.subscribe name).RunsFor n ↔ m.RunsFor n := by
  simp only [RunsFor, result_subscribe]

/-- A machine that has made no step yet, and those who listen to it. -/
def fresh (program subscribers : List String) : Machine :=
  subscribers.foldl subscribe (ofLines program)

theorem fresh_eq (program subscribers : List String) :
    fresh program subscribers = ⟨program, 0, .empty, ⟨subscribers, []⟩, .running⟩ := by
  induction subscribers using List.reverseRecOn with
  | nil => rfl
  | append_singleton subscribers name ih =>
    rw [fresh, List.foldl_concat, ← fresh, ih]
    rfl

theorem fresh_status (program subscribers : List String) :
    (fresh program subscribers).status = .running := by rw [fresh_eq]

theorem fresh_program (program subscribers : List String) :
    (fresh program subscribers).program = program := by rw [fresh_eq]

/-- Values steer nothing. Machines with the same program, counter and status whose stores
declare the same names have the same result with every step, and after every step the same
counter and status, the same commands sent and the same names declared. What was sent is all
that has happened to the channel of either. -/
theorem parallel_steps (m twin : Machine) (hprogram : m.program = twin.program)
    (hcounter : m.counter = twin.counter) (hstatus : m.status = twin.status)
    (hnames : ∀ name, m.store.contains name = twin.store.contains name) (k : Nat) :
    m.result k = twin.result k ∧
      (m.after (k + 1)).counter = (twin.after (k + 1)).counter ∧
      (m.after (k + 1)).status = (twin.after (k + 1)).status ∧
      m.commands (k + 1) = twin.commands (k + 1) ∧
      (m.after (k + 1)).channel = m.channel.transmit (m.commands (k + 1)) ∧
      (twin.after (k + 1)).channel = twin.channel.transmit (twin.commands (k + 1)) ∧
      ∀ name, (m.after (k + 1)).store.contains name = (twin.after (k + 1)).store.contains name := by
  have hparallel : Parallel m twin := ⟨hprogram, hcounter, hstatus, hnames⟩
  have hafter := hparallel.after (k + 1)
  exact ⟨(hparallel.after k).advance.2, hafter.counter, hafter.status, hparallel.commands (k + 1),
    channel_after m (k + 1), channel_after twin (k + 1), hafter.names⟩

/-- A quotient by zero on one side and a whole quotient on the other, with a subscriber. -/
theorem parallel_steps_quotient :
    let m : Machine := ⟨["x = 1 / x;", "left;"], 0, Store.empty.insert "x" ⟨.float, 0⟩, .empty,
      .running⟩
    let twin := { m with store := Store.empty.insert "x" ⟨.int, 5⟩ }.subscribe "rover"
    m.result 1 = twin.result 1 ∧ m.commands 2 = twin.commands 2 ∧
      (twin.after 2).channel = twin.channel.transmit (m.commands 2) ∧
      (m.after 2).counter = (twin.after 2).counter := by
  intro m twin
  have hnames : ∀ name, m.store.contains name = twin.store.contains name := by
    intro name
    rw [Bool.eq_iff_iff]
    simp [m, twin, subscribe, Store.contains_insert]
  obtain ⟨hresult, hcounter, -, hcommands, -, hchannel, -⟩ :=
    parallel_steps m twin rfl rfl rfl hnames 1
  exact ⟨hresult, hcommands, hcommands ▸ hchannel, hcounter⟩

end GridRover.Script.Machine
