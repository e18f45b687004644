import GridRover.Expedition
import GridRover.Proofs.Script.Action

/-!
# What a step sends

A step sends at most one command, and sending it is all that a step does to the channel:
each subscriber receives the command once, in the order of registration.
-/
namespace GridRover.Script

namespace Channel

/-- The channel after commands sent one after the other. -/
def transmit (c : Channel) (commands : List Command) : Channel := commands.foldl emit c

theorem transmit_append (c : Channel) (front back : List Command) :
    c.transmit (front ++ back) = (c.transmit front).transmit back :=
  List.foldl_append

/-- What goes out when commands are sent to subscribers: command after command, and each of
them to one subscriber after the other. -/
def mailing (subscribers : List String) (commands : List Command) : List (String × Command) :=
  commands.flatMap fun command => subscribers.map (·, command)

theorem subscribers_transmit (c : Channel) (commands : List Command) :
    (c.transmit commands).subscribers = c.subscribers := by
  induction commands generalizing c with
  | nil => rfl
  | cons command commands ih => exact ih (c.emit command)

theorem delivered_transmit (c : Channel) (commands : List Command) :
    (c.transmit commands).delivered = (mailing c.subscribers commands).reverse ++ c.delivered := by
  induction commands generalizing c with
  | nil => rfl
  | cons command commands ih =>
    change ((c.emit command).transmit commands).delivered = _
    rw [ih]
    simp [mailing, emit]

theorem since_transmit (c : Channel) (commands : List Command) :
    (c.transmit commands).since c = mailing c.subscribers commands := by
  have hlength : ((mailing c.subscribers commands).reverse ++ c.delivered).length -
      c.delivered.length = (mailing c.subscribers commands).reverse.length := by
    rw [List.length_append]
    omega
  rw [since, delivered_transmit, hlength, List.take_left, List.reverse_reverse]

end Channel

/-- The command that an action sends. -/
def Action.command? : Action → Option Command
  | .move direction => some (.move direction)
  | .jump _ | .write _ _ | .pass => none

namespace Machine

variable {m : Machine} {text : String}

theorem perform_channel (m : Machine) (change : Action) :
    (m.perform change).channel = m.channel.transmit change.command?.toList := by
  cases change <;> rfl

theorem command?_of_plan (hs : m.status = .running) (hl : m.program[m.counter]? = some text)
    {change : Action} (hp : m.plan text = .ok change) : m.command? = change.command? := by
  obtain ⟨statement, hstatement, hacts⟩ := plan_eq_ok_iff.mp hp
  simp only [command?, hs, hl, hstatement]
  cases hacts <;> rfl

/-- A line that fails is no movement. -/
theorem command?_of_failure (hs : m.status = .running) (hl : m.program[m.counter]? = some text)
    {cause : Cause} (hp : m.plan text = .error cause) : m.command? = none := by
  simp only [command?, hs, hl]
  split
  · rename_i direction hstatement
    simp only [plan, hstatement, action] at hp
    cases hp
  · rfl

theorem advance_channel (m : Machine) :
    m.advance.1.channel = m.channel.transmit m.command?.toList := by
  cases hadvance : m.advance with
  | mk next result =>
    cases advances_of_eq hadvance with
    | idle hs =>
      have hnone : m.command? = none := by simp only [command?, hs]
      rw [hnone]
      rfl
    | finish hs hl =>
      have hend : m.command? = some .endOfProgram := by simp only [command?, hs, hl]
      rw [hend]
      rfl
    | fail hs hl hp =>
      rw [command?_of_failure hs hl hp]
      rfl
    | perform hs hl hp =>
      rw [command?_of_plan hs hl hp]
      exact perform_channel m _

theorem deliveries_eq_since (m : Machine) :
    m.deliveries = m.advance.1.channel.since m.channel := by
  rw [advance_channel, Channel.since_transmit, deliveries]
  cases m.command? <;> simp [Channel.mailing]

end Machine

end GridRover.Script
