import GridRover.Proofs.Script.Atomicity
import GridRover.Proofs.Script.Emission
import Mathlib.Data.List.Basic

/-!
# Who receives which command

The life of a machine is a history of registrations and steps. A machine sends the moves of
the movement lines that ran, and the end of the program once it is completed; it announces
the end with the step that completes it, and steps after that one send nothing. A subscriber
receives what is sent from its registration on.
-/
namespace GridRover.Script

/-- What can be asked of a machine by those who listen to it and those who drive it. -/
inductive Request
  | subscribe (name : String)
  | call (call : Call)
  deriving DecidableEq

/-- A registration, or a step of the machine as it is before the step. -/
inductive Occurrence
  | registration (name : String)
  | step (before : Machine)
  deriving DecidableEq

namespace Machine

/-- The direction of the movement line that the next step runs, unless it fails. -/
def movement? (m : Machine) : Option Direction :=
  match m.advance.2, m.program[m.counter]?.bind Statement.ofLine? with
  | .ok .running, some (.move direction) => some direction
  | _, _ => none

/-- The machines on which a call makes its steps. -/
def steps (m : Machine) : Call → List Machine
  | .advance => [m]
  | .run => visited m.horizon m

/-- The machine after requests made one after the other, and their history; `none` if one of
them is a run that never returns. -/
def live (m : Machine) : List Request → Option (Machine × List Occurrence)
  | [] => some (m, [])
  | .subscribe name :: requests =>
    match (m.subscribe name).live requests with
    | none => none
    | some (last, history) => some (last, .registration name :: history)
  | .call call :: requests =>
    match m.reply call with
    | none => none
    | some (next, _) =>
      match next.live requests with
      | none => none
      | some (last, history) => some (last, (m.steps call).map .step ++ history)

end Machine

namespace Occurrence

def name? : Occurrence → Option String
  | .registration name => some name
  | .step _ => none

def movement? : Occurrence → Option Direction
  | .registration _ => none
  | .step m => m.movement?

def command? : Occurrence → Option Command
  | .registration _ => none
  | .step m => m.command?

/-- What reaches the subscribers, in order. -/
def deliveries : Occurrence → List (String × Command)
  | .registration _ => []
  | .step m => m.advance.1.channel.since m.channel

end Occurrence

/-- The names registered in a history. -/
def registered (history : List Occurrence) : List String := history.filterMap Occurrence.name?

/-- The directions of the movement lines that ran. -/
def movements (history : List Occurrence) : List Direction :=
  history.filterMap Occurrence.movement?

/-- The commands that were sent. -/
def sent (history : List Occurrence) : List Command := history.filterMap Occurrence.command?

/-- What the subscriber with the given number in the order of registration receives. -/
def received (number : Nat) (history : List Occurrence) : List (String × Command) :=
  history.filterMap fun occurrence => occurrence.deliveries[number]?

section Views

variable (m : Machine) (history : List Occurrence)

theorem movements_step :
    movements (.step m :: history) = m.movement?.toList ++ movements history := by
  simp only [movements, List.filterMap_eq_flatMap_toList, List.flatMap_cons, Occurrence.movement?]

theorem sent_step : sent (.step m :: history) = m.command?.toList ++ sent history := by
  simp only [sent, List.filterMap_eq_flatMap_toList, List.flatMap_cons, Occurrence.command?]

theorem received_step (number : Nat) :
    received number (.step m :: history) =
      (Occurrence.step m).deliveries[number]?.toList ++ received number history := by
  simp only [received, List.filterMap_eq_flatMap_toList, List.flatMap_cons]

end Views

/-- What is sent when a machine comes to a status. -/
def Status.farewell : Status → List Command
  | .running => []
  | .completed => [.endOfProgram]

namespace Machine

/-- A step sends the move of the line it runs, or the end of the program when it completes
the machine. -/
theorem farewell_command? (m : Machine) :
    m.status.farewell ++ m.command?.toList =
      m.movement?.toList.map .move ++ m.advance.1.status.farewell := by
  cases hadvance : m.advance with
  | mk next result =>
    cases advances_of_eq hadvance with
    | idle hs => simp [movement?, command?, hadvance, hs]
    | finish hs hl => simp [movement?, command?, hadvance, hs, hl, finish, Status.farewell]
    | fail hs hl hp =>
      rw [command?_of_failure hs hl hp]
      simp [movement?, hadvance, hs, Status.farewell]
    | @perform text change hs hl hp =>
      -- The machine goes on running, and what it sends is read off the line alone.
      simp only [movement?, command?, hadvance, hs, hl, perform_status, Option.bind_some]
      cases Statement.ofLine? text with
      | none => rfl
      | some statement => cases statement <;> rfl

/-- The occurrences of a history lead from one machine to another. -/
inductive Leads : Machine → List Occurrence → Machine → Prop
  | rest (m : Machine) : Leads m [] m
  | registration {m last : Machine} {history : List Occurrence} (name : String) :
    Leads (m.subscribe name) history last → Leads m (.registration name :: history) last
  | step {m last : Machine} {history : List Occurrence} :
    Leads m.advance.1 history last → Leads m (.step m :: history) last

theorem Leads.append {m middle last : Machine} {front back : List Occurrence}
    (hfront : Leads m front middle) (hback : Leads middle back last) :
    Leads m (front ++ back) last := by
  induction hfront with
  | rest m => exact hback
  | registration name h ih => exact .registration name (ih hback)
  | step h ih => exact .step (ih hback)

/-- A single step, whatever comes of it. -/
theorem leads_step (m : Machine) : Leads m [.step m] m.advance.1 := .step (.rest _)

theorem leads_visited (n : Nat) (m : Machine) :
    Leads m ((visited n m).map .step) (proceed n m).2.1 := by
  induction n generalizing m with
  | zero => exact .rest m
  | succ n ih =>
    have hstep := leads_step m
    cases hadvance : m.advance with
    | mk next result =>
      rw [hadvance] at hstep
      -- Only a step that leaves the machine running is followed by another one.
      match result with
      | .ok .running =>
        simp only [visited, proceed, hadvance]
        exact hstep.append (ih next)
      | .ok .completed =>
        simp only [visited, proceed, hadvance]
        exact hstep
      | .error failure =>
        simp only [visited, proceed, hadvance]
        exact hstep

theorem proceed_of_run {m last : Machine} {result : Except Failure Unit}
    (h : m.run = some (last, result)) : (proceed m.horizon m).2.1 = last := by
  simp only [run] at h
  split at h
  · rename_i hproceed
    cases h
    rw [hproceed]
  · rename_i hproceed
    cases h
    rw [hproceed]
  · cases h

theorem leads_of_reply {m next : Machine} {call : Call} {answer : Except Failure Status}
    (h : m.reply call = some (next, answer)) : Leads m ((m.steps call).map .step) next := by
  cases call with
  | advance =>
    have hnext : m.advance.1 = next := congrArg Prod.fst (Option.some.inj h)
    exact hnext ▸ leads_step m
  | run =>
    have hleads := leads_visited m.horizon m
    simp only [reply] at h
    split at h
    · cases h
    · rename_i hrun
      cases h
      exact proceed_of_run hrun ▸ hleads
    · rename_i hrun
      cases h
      exact proceed_of_run hrun ▸ hleads

theorem leads_of_live {m last : Machine} {requests : List Request} {history : List Occurrence}
    (h : m.live requests = some (last, history)) : Leads m history last := by
  induction requests generalizing m history with
  | nil =>
    cases h
    exact .rest _
  | cons request requests ih =>
    cases request with
    | subscribe name =>
      simp only [live] at h
      split at h
      · cases h
      · rename_i hlive
        cases h
        exact .registration name (ih hlive)
    | call call =>
      simp only [live] at h
      split at h
      · cases h
      · rename_i hreply
        split at h
        · cases h
        · rename_i hlive
          cases h
          exact (leads_of_reply hreply).append (ih hlive)

/-- What a step brings to the subscriber with the given number. -/
theorem getElem?_deliveries (m : Machine) (number : Nat) :
    (Occurrence.step m).deliveries[number]? =
      m.channel.subscribers[number]?.bind fun name => m.command?.map (name, ·) := by
  rw [Occurrence.deliveries, advance_channel, Channel.since_transmit]
  cases m.command? with
  | none => cases m.channel.subscribers[number]? <;> rfl
  | some command =>
    rw [Channel.mailing, Option.toList_some, List.flatMap_singleton, List.getElem?_map]
    cases m.channel.subscribers[number]? <;> rfl

namespace Leads

variable {m last : Machine} {history : List Occurrence}

theorem sent_eq (h : Leads m history last) :
    m.status.farewell ++ sent history =
      (movements history).map .move ++ last.status.farewell := by
  induction h with
  | rest m => simp [sent, movements]
  | registration name h ih => exact ih
  | @step m last history h ih =>
    rw [sent_step, movements_step, List.map_append, ← List.append_assoc, farewell_command?,
      List.append_assoc, ih, List.append_assoc]

theorem subscribers_eq (h : Leads m history last) :
    last.channel.subscribers = m.channel.subscribers ++ registered history := by
  induction h with
  | rest m => simp [registered]
  | registration name h ih => simpa [registered, Occurrence.name?, subscribe, Channel.subscribe] using ih
  | step h ih =>
    rw [ih, advance_channel, Channel.subscribers_transmit]
    rfl

theorem delivered_eq (h : Leads m history last) :
    last.channel.delivered.reverse =
      m.channel.delivered.reverse ++ history.flatMap Occurrence.deliveries := by
  induction h with
  | rest m => simp
  | registration name h ih => exact ih
  | @step m last history h ih =>
    rw [ih, List.flatMap_cons, Occurrence.deliveries, advance_channel, Channel.since_transmit,
      Channel.delivered_transmit]
    simp

theorem split {front back : List Occurrence} (h : Leads m (front ++ back) last) :
    ∃ middle, Leads m front middle ∧ Leads middle back last := by
  induction front generalizing m with
  | nil => exact ⟨m, .rest m, h⟩
  | cons occurrence front ih =>
    cases h with
    | registration name h =>
      obtain ⟨middle, hfront, hback⟩ := ih h
      exact ⟨middle, .registration name hfront, hback⟩
    | step h =>
      obtain ⟨middle, hfront, hback⟩ := ih h
      exact ⟨middle, .step hfront, hback⟩

/-- A step reaches all who have registered before it, in the order of registration. -/
theorem deliveries_eq {front back : List Occurrence} {before : Machine}
    (h : Leads m (front ++ .step before :: back) last) :
    (Occurrence.step before).deliveries =
      Channel.mailing (m.channel.subscribers ++ registered front) before.command?.toList := by
  obtain ⟨middle, hfront, hback⟩ := h.split
  cases hback with
  | step hback =>
    rw [Occurrence.deliveries, advance_channel, Channel.since_transmit, hfront.subscribers_eq]

/-- A subscriber receives nothing before its registration. -/
theorem received_eq_nil {number : Nat} (h : Leads m history last)
    (hnumber : last.channel.subscribers.length ≤ number) : received number history = [] := by
  induction h with
  | rest m => rfl
  | registration name h ih => exact ih hnumber
  | @step m last history h ih =>
    have hsubscribers := (Leads.step h).subscribers_eq
    have hnone : m.channel.subscribers[number]? = none := by
      apply List.getElem?_eq_none
      rw [hsubscribers, List.length_append] at hnumber
      omega
    have hstep : (Occurrence.step m).deliveries[number]? = none := by
      rw [getElem?_deliveries, hnone, Option.bind_none]
    rw [received_step, hstep]
    exact ih hnumber

/-- A subscriber receives all that is sent once it is registered. -/
theorem received_eq_sent {number : Nat} {name : String} (h : Leads m history last)
    (hname : m.channel.subscribers[number]? = some name) :
    received number history = (sent history).map (name, ·) := by
  induction h with
  | rest m => rfl
  | registration other h ih =>
    apply ih
    simp only [subscribe, Channel.subscribe]
    rw [List.getElem?_append_left (List.getElem?_eq_some_iff.mp hname).1, hname]
  | @step m last history h ih =>
    have hstep : (Occurrence.step m).deliveries[number]? = m.command?.map (name, ·) := by
      rw [getElem?_deliveries, hname, Option.bind_some]
    have hrest : received number history = (sent history).map (name, ·) := by
      apply ih
      rwa [advance_channel, Channel.subscribers_transmit]
    rw [received_step, sent_step, hstep, hrest, List.map_append]
    cases m.command? <;> rfl

/-- A subscriber receives exactly what is sent after its registration. -/
theorem received_eq_sent_after {front back : List Occurrence} {name : String}
    (h : Leads m (front ++ .registration name :: back) last) :
    received (m.channel.subscribers ++ registered front).length
        (front ++ .registration name :: back) = (sent back).map (name, ·) := by
  obtain ⟨middle, hfront, hback⟩ := h.split
  cases hback with
  | registration name hback =>
    rw [← hfront.subscribers_eq]
    have hbefore := hfront.received_eq_nil (Nat.le_refl middle.channel.subscribers.length)
    have hafter : received middle.channel.subscribers.length back = (sent back).map (name, ·) :=
      hback.received_eq_sent List.getElem?_concat_length
    rw [received, List.filterMap_append, ← received, ← received, hbefore, List.nil_append]
    exact hafter

end Leads

/-- Nothing comes behind the end of the program. -/
theorem eq_nil_of_endOfProgram {directions : List Direction} {status : Status}
    {front back : List Command}
    (h : directions.map .move ++ status.farewell = front ++ .endOfProgram :: back) : back = [] := by
  induction directions generalizing front with
  | nil =>
    cases status with
    | running => simp [Status.farewell] at h
    | completed =>
      cases front with
      | nil => exact (List.cons.inj h).2.symm
      | cons command front => simp [Status.farewell] at h
  | cons direction directions ih =>
    cases front with
    | nil => cases (List.cons.inj h).1
    | cons command front => exact ih (List.cons.inj h).2

/-- All that is sent in the life of a machine are the moves of the movement lines that ran,
in order, and the end of the program, last and once, if the machine is completed. What is
sent reaches all who have registered before, command after command and in the order of
registration, and so a subscriber receives exactly what is sent after its registration. -/
theorem delivery_of_live (program : List String) (requests : List Request) (m : Machine)
    (history : List Occurrence) (h : (ofLines program).live requests = some (m, history)) :
    sent history = (movements history).map .move ++ m.status.farewell ∧
      (∀ front back, sent history = front ++ .endOfProgram :: back → back = []) ∧
      m.channel.subscribers = registered history ∧
      m.channel.delivered.reverse = history.flatMap Occurrence.deliveries ∧
      (∀ front before back, history = front ++ .step before :: back →
        (Occurrence.step before).deliveries =
          Channel.mailing (registered front) before.command?.toList) ∧
      ∀ front name back, history = front ++ .registration name :: back →
        received (registered front).length history = (sent back).map (name, ·) := by
  have hleads := leads_of_live h
  have hsent : sent history = (movements history).map .move ++ m.status.farewell := hleads.sent_eq
  refine ⟨hsent, ?_, hleads.subscribers_eq, hleads.delivered_eq, ?_, ?_⟩
  · intro front back hend
    rw [hsent] at hend
    exact eq_nil_of_endOfProgram hend
  · rintro front before back rfl
    exact hleads.deliveries_eq
  · rintro front name back rfl
    exact hleads.received_eq_sent_after

/-- A second subscriber that comes after the first move, a jump, and a call after the end. -/
theorem delivery_late_subscriber :
    ∃ m history,
      (ofLines ["left;", "goto 4;", "forward;", "right;"]).live
        [.subscribe "a", .call .advance, .subscribe "b", .call .run, .call .advance] =
          some (m, history) ∧
      sent history = [.move .left, .move .right, .endOfProgram] ∧
      m.channel.delivered.reverse =
        [("a", .move .left), ("a", .move .right), ("b", .move .right), ("a", .endOfProgram),
          ("b", .endOfProgram)] ∧
      received 1 history = [("b", .move .right), ("b", .endOfProgram)] := by
  let first := (ofLines ["left;", "goto 4;", "forward;", "right;"]).subscribe "a"
  let second := first.advance.1.subscribe "b"
  let front := [Occurrence.registration "a", .step first]
  let back := [Occurrence.step second, .step second.advance.1, .step second.advance.1.advance.1,
    .step second.advance.1.advance.1.advance.1]
  have hlive : (ofLines ["left;", "goto 4;", "forward;", "right;"]).live
      [.subscribe "a", .call .advance, .subscribe "b", .call .run, .call .advance] =
        some (second.advance.1.advance.1.advance.1, front ++ .registration "b" :: back) := rfl
  obtain ⟨hsent, -, -, hdelivered, -, hreceived⟩ := delivery_of_live _ _ _ _ hlive
  refine ⟨_, _, hlive, hsent.trans ?_, hdelivered.trans ?_, (hreceived front "b" back rfl).trans ?_⟩
  · decide +kernel +zetaReduce
  · decide +kernel +zetaReduce
  · decide +kernel +zetaReduce

end Machine

end GridRover.Script
