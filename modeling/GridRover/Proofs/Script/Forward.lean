import GridRover.Proofs.Script.Delivery
import GridRover.Proofs.Script.Parallel
import GridRover.Proofs.Script.Settling

/-!
# Programs that only jump forward

Where every jump leads to a line below its own, the counter only goes down the program. So no
line runs twice, a run is over by the step after as many steps as there are lines, and what
it sends comes in the order of the lines.
-/
namespace GridRover.Script

/-- Every jump names a line below its own. Lines are numbered from one. -/
def JumpsForward (program : List String) : Prop :=
  ∀ (index : Nat) (text : String) (target : Int), program[index]? = some text →
    Statement.ofLine? text = some (.goto target) → (index : Int) + 1 < target

/-- No line is a jump. -/
def JumpFree (program : List String) : Prop :=
  ∀ line ∈ program, ∀ target, Statement.ofLine? line ≠ some (.goto target)

theorem JumpFree.jumpsForward {program : List String} (h : JumpFree program) :
    JumpsForward program := by
  intro index text target hl hs
  exact absurd hs (h text (List.mem_of_getElem? hl) target)

/-- The command of a movement. -/
def Statement.move? : Statement → Option Command
  | .move direction => some (.move direction)
  | _ => none

/-- The command of the line with the given index, if it is a movement. -/
def moveOf? (program : List String) (index : Nat) : Option Command :=
  (program[index]?.bind Statement.ofLine?).bind Statement.move?

namespace Machine

variable {program : List String} {m : Machine} {n : Nat}

theorem lt_successor (h : JumpsForward program) (counter : Nat) :
    counter < successor program counter := by
  unfold successor
  split
  · rename_i target hline
    obtain ⟨text, hl, hs⟩ := Option.bind_eq_some_iff.mp hline
    have htarget := h counter text target hl hs
    omega
  · exact counter.lt_succ_self

theorem course_strictMono (h : JumpsForward m.program) : StrictMono m.course := by
  apply strictMono_nat_of_lt_succ
  intro n
  rw [course_succ]
  exact lt_successor h (m.course n)

/-- Each step takes the counter further down, and there are only so many lines. -/
theorem exists_first_of_jumpsForward (h : JumpsForward m.program) :
    ∃ n ≤ m.program.length, m.StopsAfter n := by
  have hstops : ¬ m.RunsFor (m.program.length + 1) := by
    intro hruns
    have hinside := hruns.course_lt m.program.length.lt_succ_self
    have hfar := (course_strictMono h).le_apply (x := m.program.length)
    omega
  obtain ⟨k, hk⟩ := not_forall.mp hstops
  obtain ⟨hle, hresult⟩ := Classical.not_imp.mp hk
  obtain ⟨n, hn, hfirst⟩ := exists_first hresult
  exact ⟨n, by omega, hfirst⟩

section Sent

/-- A line sends its move, whether it runs or fails: one that fails is no movement. -/
theorem command?_of_line {text : String} (hs : m.status = .running)
    (hl : m.program[m.counter]? = some text) : m.command? = moveOf? m.program m.counter := by
  simp only [command?, moveOf?, hs, hl, Option.bind_some]
  rcases Statement.ofLine? text with _ | statement
  · rfl
  · cases statement <;> rfl

/-- As long as it runs, a machine sends the moves of the lines it comes to. -/
theorem RunsFor.commands_eq (h : m.RunsFor n) (hs : m.status = .running) :
    m.commands n =
      ((List.range n).map fun i => (m.after i).counter).filterMap (moveOf? m.program) := by
  rw [commands, ← List.filterMap_eq_flatMap_toList, List.filterMap_map]
  apply List.filterMap_congr
  intro i hi
  have hruns := h.mono (Nat.le_of_lt (List.mem_range.mp hi))
  obtain ⟨text, -, hl, -, -⟩ := exists_line_of_running (h i (List.mem_range.mp hi))
  rw [command?_of_line (hruns.after_eq.2.2.trans hs) hl, after_program]
  rfl

/-- The step that ends a run sends the end of the program if it completes the machine, and
nothing if it fails. -/
theorem StopsAfter.commands_eq (h : m.StopsAfter n) (hs : m.status = .running) :
    m.commands (n + 1) = m.commands n ++ (m.after (n + 1)).status.farewell := by
  have hsend := farewell_command? (m.after n)
  have hmove : (m.after n).movement? = none := by
    unfold movement?
    split
    · rename_i hresult _
      exact absurd hresult h.2
    · rfl
  rw [h.1.after_eq.2.2, hs, hmove, ← after_succ] at hsend
  rw [commands_succ]
  exact congrArg _ hsend

/-- A step that returns a status leaves the machine in it, and a failure leaves it running. -/
theorem after_succ_status (m : Machine) (n : Nat) :
    (m.after (n + 1)).status = match m.result n with
      | .ok status => status
      | .error _ => .running := by
  have hstep := advances_of_eq (advance_after m n)
  generalize m.result n = result, m.after (n + 1) = next at hstep
  cases hstep with
  | idle hs => exact hs
  | finish hs hl => rfl
  | fail hs hl hp => exact hs
  | perform hs hl hp => exact (perform_status _ _).trans hs

/-- All that a run has sent by the step that ends it. -/
theorem StopsAfter.channel_eq (h : m.StopsAfter n) (hs : m.status = .running) :
    (m.after (n + 1)).channel = m.channel.transmit
      (((List.range n).map fun i => (m.after i).counter).filterMap (moveOf? m.program) ++
        (m.after (n + 1)).status.farewell) := by
  rw [channel_after, h.commands_eq hs, h.1.commands_eq hs]

end Sent

/-- Where all jumps lead forward, the counter grows with every step of a run. -/
theorem StopsAfter.counters_ascend (h : m.StopsAfter n) (hforward : JumpsForward m.program) :
    ((List.range (n + 1)).map fun i => (m.after i).counter).Pairwise (· < ·) := by
  rw [List.pairwise_map]
  apply List.pairwise_lt_range.imp_of_mem
  intro i j hi hj hij
  have hcounter (k : Nat) (hk : k ∈ List.range (n + 1)) : (m.after k).counter = m.course k :=
    (h.1.mono (Nat.lt_succ_iff.mp (List.mem_range.mp hk))).after_eq.2.1
  rw [hcounter i hi, hcounter j hj]
  exact course_strictMono hforward hij

/-- Without jumps a machine goes through its lines one after the other. -/
theorem course_eq_add (h : JumpFree m.program) (n : Nat) : m.course n = m.counter + n := by
  induction n with
  | zero => rfl
  | succ n ih =>
    rw [course_succ, ih, successor]
    split
    · rename_i target hline
      obtain ⟨text, hl, hs⟩ := Option.bind_eq_some_iff.mp hline
      exact absurd hs (h text (List.mem_of_getElem? hl) target)
    · rfl

/-- A program without jumps and failures runs each of its lines once. -/
theorem completed_of_jumpFree (h : JumpFree m.program) (hs : m.status = .running)
    (hcounter : m.counter = 0) (hsound : ∀ k failure, m.result k ≠ .error failure) :
    m.RunsFor m.program.length ∧ m.result m.program.length = .ok .completed := by
  obtain ⟨n, hn, hstops⟩ := exists_first_of_jumpsForward h.jumpsForward
  rcases first_cases hs hstops with ⟨hcompleted, hend⟩ | ⟨text, cause, hfails, -⟩
  · rw [course_eq_add h, hcounter, Nat.zero_add] at hend
    obtain rfl : n = m.program.length :=
      Nat.le_antisymm hn (List.getElem?_eq_none_iff.mp hend)
    exact ⟨hstops.1, hcompleted⟩
  · exact absurd hfails (hsound n _)

/-- A new machine on a program whose jumps all lead forward. Its run is over after at most one
step more than there are lines, and every step is on a line below the one before. Either it
completes the program, having sent the moves of the lines that ran, in order, and then the
end of the program; or it returns the failure of the first line that fails, having sent the
moves before that line. Where there are no jumps and nothing fails, exactly as many steps
leave the machine running as there are lines, and the next one completes it. -/
theorem run_of_jumpsForward (program subscribers : List String) :
    (JumpsForward program →
      let m := fresh program subscribers
      ∃ n ≤ program.length,
        let ran := (List.range n).map fun i => (m.after i).counter
        m.steps .run = (List.range (n + 1)).map m.after ∧ m.RunsFor n ∧
        ((m.steps .run).map counter).Pairwise (· < ·) ∧
        ((m.run = some (m.after (n + 1), .ok ()) ∧ m.result n = .ok .completed ∧
            (m.after (n + 1)).channel =
              m.channel.transmit (ran.filterMap (moveOf? program) ++ [.endOfProgram])) ∨
          ∃ failure, m.run = some (m.after (n + 1), .error failure) ∧
            m.result n = .error failure ∧ failure.line = (m.after n).counter + 1 ∧
            program[(m.after n).counter]? = some failure.text ∧
            (m.after (n + 1)).channel = m.channel.transmit (ran.filterMap (moveOf? program)))) ∧
    (JumpFree program →
      let m := fresh program subscribers
      (∀ k failure, m.result k ≠ .error failure) →
        m.RunsFor program.length ∧ m.result program.length = .ok .completed) := by
  constructor
  · intro hforward m
    have hstatus : m.status = .running := fresh_status program subscribers
    have hprogram : m.program = program := fresh_program program subscribers
    rw [← hprogram] at hforward
    obtain ⟨n, hn, hstops⟩ := exists_first_of_jumpsForward hforward
    have hsteps : m.steps .run = (List.range (n + 1)).map m.after :=
      visited_of_stopsAfter hstops hstops.lt_horizon
    have hascend := hstops.counters_ascend hforward
    have hchannel := hstops.channel_eq hstatus
    rw [hprogram] at hn hchannel
    refine ⟨n, hn, hsteps, hstops.1, by rwa [hsteps, List.map_map], ?_⟩
    rw [after_succ_status] at hchannel
    cases hresult : m.result n with
    | ok status =>
      cases status with
      | running => exact absurd hresult hstops.2
      | completed =>
        rw [hresult] at hchannel
        exact .inl ⟨run_of_first hstops.1 hresult, rfl, hchannel⟩
    | error failure =>
      obtain ⟨hline, htext, -⟩ := line_of_failure hresult
      rw [after_program, hprogram] at htext
      rw [hresult, Status.farewell, List.append_nil] at hchannel
      exact .inr ⟨failure, run_of_first hstops.1 hresult, rfl, hline, htext, hchannel⟩
  · intro hfree m hsound
    have hprogram : m.program = program := fresh_program program subscribers
    rw [← hprogram] at hfree ⊢
    exact completed_of_jumpFree hfree (fresh_status program subscribers)
      (by simp only [m, fresh_eq]) hsound

/-- A run that jumps over a line that is no statement, and one that fails with a jump to a
number beyond all words. -/
theorem run_of_jumpsForward_skips :
    (∃ last, (fresh ["left;", "goto 4;", "fly;", "forward;"] ["rover"]).run = some (last, .ok ()) ∧
      last.channel.delivered.reverse =
        [("rover", .move .left), ("rover", .move .forward), ("rover", .endOfProgram)]) ∧
    (∃ last failure, (fresh ["right;", "goto 99999999999999999999;"] ["rover"]).run =
        some (last, .error failure) ∧ failure.line = 2 ∧
      last.channel.delivered.reverse = [("rover", .move .right)]) ∧
    (fresh ["", "right;", "left;"] []).RunsFor 3 ∧
    (fresh ["", "right;", "left;"] []).result 3 = .ok .completed := by
  have hskips : JumpsForward ["left;", "goto 4;", "fly;", "forward;"] := by
    intro index text target hl hs
    rcases index with _ | _ | _ | _ | index <;> cases hl
    · cases (show Statement.ofLine? "left;" = some (.move .left) from rfl).symm.trans hs
    · cases (show Statement.ofLine? "goto 4;" = some (.goto 4) from rfl).symm.trans hs
      decide
    · cases (show Statement.ofLine? "fly;" = none from rfl).symm.trans hs
    · cases (show Statement.ofLine? "forward;" = some (.move .forward) from rfl).symm.trans hs
  have hfails : JumpsForward ["right;", "goto 99999999999999999999;"] := by
    intro index text target hl hs
    rcases index with _ | _ | index <;> cases hl
    · cases (show Statement.ofLine? "right;" = some (.move .right) from rfl).symm.trans hs
    · cases (show Statement.ofLine? "goto 99999999999999999999;" =
        some (.goto 9223372036854775807) from rfl).symm.trans hs
      decide
  have hfree : JumpFree ["", "right;", "left;"] := by
    intro line hline target hs
    rcases List.mem_cons.mp hline with rfl | hline
    · cases (show Statement.ofLine? "" = some .blank from rfl).symm.trans hs
    rcases List.mem_pair.mp hline with rfl | rfl
    · cases (show Statement.ofLine? "right;" = some (.move .right) from rfl).symm.trans hs
    · cases (show Statement.ofLine? "left;" = some (.move .left) from rfl).symm.trans hs
  have hsound : ∀ k failure, (fresh ["", "right;", "left;"] []).result k ≠ .error failure := by
    intro k failure hresult
    rcases k with _ | _ | _ | k
    · cases hresult
    · cases hresult
    · cases hresult
    · rw [result_settled (n := 3) (fun hruns => by cases hruns) (by omega)] at hresult
      cases hresult
  refine ⟨?_, ?_, (run_of_jumpsForward _ []).2 hfree hsound⟩
  · obtain ⟨n, -, hsteps, -, -, hend⟩ := (run_of_jumpsForward _ ["rover"]).1 hskips
    have hcalls := congrArg List.length hsteps
    rw [List.length_map, List.length_range] at hcalls
    obtain rfl : 3 = n := Nat.succ.inj hcalls
    rcases hend with ⟨hrun, -, hchannel⟩ | ⟨failure, -, hresult, -⟩
    · exact ⟨_, hrun, by rw [hchannel]; rfl⟩
    · cases hresult
  · obtain ⟨n, -, hsteps, -, -, hend⟩ := (run_of_jumpsForward _ ["rover"]).1 hfails
    have hcalls := congrArg List.length hsteps
    rw [List.length_map, List.length_range] at hcalls
    obtain rfl : 1 = n := Nat.succ.inj hcalls
    rcases hend with ⟨-, hresult, -⟩ | ⟨failure, hrun, -, hline, -, hchannel⟩
    · cases hresult
    · exact ⟨_, failure, hrun, hline, by rw [hchannel]; rfl⟩

end Machine

end GridRover.Script
