import GridRover.Expedition
import GridRover.Proofs.Script.Parallel
import GridRover.Proofs.Script.Settling

/-!
# How a journey ends

A journey is the run of its machine, cut where the steps run out. The grid only follows: it
has no influence on how far the machine comes or on how its steps end. The limit is looked at
after a step, so one step is always made, and a step that ends the run is never cut off.
-/
namespace GridRover

open Script

/-- The ending that a step brings about, unless it leaves the machine running. -/
def Ending.ofResult? : Except Failure Status → Option Ending
  | .ok .running => none
  | .ok .completed => some .completed
  | .error failure => some (.failed failure)

theorem Ending.ofResult?_eq_failed_iff {result : Except Failure Status} {failure : Failure} :
    ofResult? result = some (.failed failure) ↔ result = .error failure := by
  rcases result with cause | _ | _ <;> simp [ofResult?]

theorem Ending.ofResult?_eq_completed_iff {result : Except Failure Status} :
    ofResult? result = some .completed ↔ result = .ok .completed := by
  rcases result with cause | _ | _ <;> simp [ofResult?]

theorem Ending.ofResult?_ne_outOfSteps (result : Except Failure Status) (m : Nat) :
    ofResult? result ≠ some (.outOfSteps m) := by
  rcases result with cause | _ | _ <;> simp [ofResult?]

/-- What a run without a limit returns where a journey ends in this way. -/
def Ending.outcome? : Ending → Option (Except Failure Unit)
  | .completed => some (.ok ())
  | .failed failure => some (.error failure)
  | .outOfSteps _ => none

namespace Expedition

variable {e : Expedition} {limit : Option Nat} {n m steps : Nat}

/-- The expedition after `n` steps, whatever their results. -/
def after (e : Expedition) (n : Nat) : Expedition := (fun e => e.advance.1)^[n] e

/-- The expeditions on which a journey makes its steps. -/
def calls (limit : Option Nat) (e : Expedition) : List Expedition :=
  e.chronicle (fun before _ => [before]) limit

theorem advance_eq (e : Expedition) : e.advance = (e.advance.1, e.machine.advance.2) := rfl

theorem after_advance (e : Expedition) (n : Nat) : e.advance.1.after n = e.after (n + 1) := rfl

theorem machine_after (e : Expedition) (n : Nat) : (e.after n).machine = e.machine.after n := by
  induction n generalizing e with
  | zero => rfl
  | succ n ih => exact ih e.advance.1

theorem after_succ (e : Expedition) (n : Nat) : e.after (n + 1) = (e.after n).advance.1 :=
  Function.iterate_succ_apply' _ n e

section Loop

variable {α : Type} (note : Expedition → Option Expedition → List α)

/-- The next `n` steps do not reach the limit, `steps` having been made. -/
def Allows (limit : Option Nat) (steps n : Nat) : Prop :=
  ∀ i < n, reached? limit (steps + i + 1) = none

theorem Allows.tail (h : Allows limit steps (n + 1)) : Allows limit (steps + 1) n := by
  intro i hi
  rw [Nat.add_right_comm steps 1 i]
  exact h (i + 1) (Nat.succ_lt_succ hi)

/-- As long as the machine runs and the limit is not reached, a journey just goes on. -/
theorem goOn_add (h : e.machine.RunsFor n) (hlimit : Allows limit steps n) (k : Nat) :
    goOn limit (n + k) steps e = goOn limit k (steps + n) (e.after n) := by
  induction n generalizing e steps with
  | zero =>
    rw [Nat.zero_add]
    rfl
  | succ n ih =>
    have hstep : e.machine.advance.2 = .ok .running := h 0 n.succ_pos
    have hopen : reached? limit (steps + 1) = none := hlimit 0 n.succ_pos
    have hrest := ih (show e.advance.1.machine.RunsFor n from h.tail) hlimit.tail
    rw [Nat.add_right_comm n 1 k, goOn, advance_eq, hstep]
    simp only [hopen, hrest, after_advance]
    rw [Nat.add_assoc, Nat.add_comm 1 n]

theorem goOn_of_stop (h : e.machine.advance.2 ≠ .ok .running) (k : Nat) :
    goOn limit (k + 1) steps e =
      ⟨e.advance.1, steps, Ending.ofResult? e.machine.advance.2⟩ := by
  rw [goOn, advance_eq]
  rcases hresult : e.machine.advance.2 with failure | _ | _
  · rfl
  · exact absurd hresult h
  · rfl

theorem goOn_of_reached (h : e.machine.advance.2 = .ok .running)
    (hlimit : reached? limit (steps + 1) = some m) (k : Nat) :
    goOn limit (k + 1) steps e = ⟨e.advance.1, steps + 1, some (.outOfSteps m)⟩ := by
  rw [goOn, advance_eq, h]
  simp only [hlimit]

/-- The notes of the first `n` steps, where all of them leave the machine running. -/
def told (e : Expedition) (n : Nat) : List α :=
  (List.range n).flatMap fun i => note (e.after i) (some (e.after (i + 1)))

theorem told_succ (e : Expedition) (n : Nat) :
    told note e (n + 1) = note e (some e.advance.1) ++ told note e.advance.1 n := by
  simp only [told, List.range_succ_eq_map, List.flatMap_cons, List.flatMap_map]
  rfl

theorem notes_add (h : e.machine.RunsFor n) (hlimit : Allows limit steps n) (k : Nat)
    (taken : List α) :
    notes note limit (n + k) steps taken e =
      notes note limit k (steps + n) ((told note e n).reverse ++ taken) (e.after n) := by
  induction n generalizing e steps taken with
  | zero =>
    rw [Nat.zero_add]
    rfl
  | succ n ih =>
    have hstep : e.machine.advance.2 = .ok .running := h 0 n.succ_pos
    have hopen : reached? limit (steps + 1) = none := hlimit 0 n.succ_pos
    have hrest := ih (show e.advance.1.machine.RunsFor n from h.tail) hlimit.tail
    rw [Nat.add_right_comm n 1 k, notes, advance_eq, hstep]
    simp only [hopen, hrest, after_advance, told_succ, List.reverse_append, List.append_assoc]
    rw [Nat.add_assoc, Nat.add_comm 1 n]

theorem notes_of_stop (h : e.machine.advance.2 ≠ .ok .running) (k : Nat) (taken : List α) :
    notes note limit (k + 1) steps taken e = (note e none).reverse ++ taken := by
  rw [notes, advance_eq]
  rcases hresult : e.machine.advance.2 with failure | _ | _
  · rfl
  · exact absurd hresult h
  · rfl

theorem notes_of_reached (h : e.machine.advance.2 = .ok .running)
    (hlimit : reached? limit (steps + 1) = some m) (k : Nat) (taken : List α) :
    notes note limit (k + 1) steps taken e = (note e (some e.advance.1)).reverse ++ taken := by
  rw [notes, advance_eq, h]
  simp only [hlimit]

end Loop

section Travel

variable {α : Type} (note : Expedition → Option Expedition → List α)

/-- The limit leaves room for one more step after the first `n`. -/
def Admits (limit : Option Nat) (n : Nat) : Prop := ∀ m, limit = some m → n < max m 1

theorem admits_none (n : Nat) : Admits none n := nofun

theorem admits_some : Admits (some m) n ↔ n < max m 1 := by simp [Admits]

theorem Admits.allows (h : Admits limit n) : Allows limit 0 n := by
  intro i hi
  cases limit with
  | none => rfl
  | some m =>
    have hm := h m rfl
    have hopen : ¬ m ≤ 0 + i + 1 := by omega
    simp only [reached?, if_neg hopen]

/-- The loop is watched long enough to see the step that ends the run. -/
theorem Admits.exists_span (h : Admits limit n) (hstops : e.machine.StopsAfter n) :
    ∃ k, e.span limit = n + (k + 1) := by
  have hlt : n < e.span limit := by
    cases limit with
    | none => exact hstops.lt_horizon
    | some m =>
      have hm := h m rfl
      simp only [span]
      omega
  exact ⟨e.span limit - n - 1, by omega⟩

theorem result_after (e : Expedition) (n : Nat) :
    (e.after n).machine.advance.2 = e.machine.result n := by
  rw [machine_after]
  rfl

theorem stop_after (hstops : e.machine.StopsAfter n) :
    (e.after n).machine.advance.2 ≠ .ok .running := by
  rw [result_after]
  exact hstops.2

/-- A journey ends with the step that ends the run of its machine, where the limit admits it. -/
theorem travel_of_stopsAfter (hstops : e.machine.StopsAfter n) (h : Admits limit n) :
    e.travel limit = ⟨e.after (n + 1), n, Ending.ofResult? (e.machine.result n)⟩ := by
  obtain ⟨k, hspan⟩ := h.exists_span hstops
  rw [travel, hspan, goOn_add hstops.1 h.allows, goOn_of_stop (stop_after hstops),
    ← after_succ, result_after, Nat.zero_add]

theorem chronicle_of_stopsAfter (hstops : e.machine.StopsAfter n) (h : Admits limit n) :
    e.chronicle note limit = told note e n ++ note (e.after n) none := by
  obtain ⟨k, hspan⟩ := h.exists_span hstops
  rw [chronicle, hspan, notes_add note hstops.1 h.allows, notes_of_stop note (stop_after hstops)]
  simp

/-- Under a limit the last step that is made may leave the machine running. -/
theorem exists_span_of_cut (h : e.machine.RunsFor (max m 1)) :
    ∃ n k, max m 1 = n + 1 ∧ e.span (some m) = n + (k + 1) ∧ e.machine.RunsFor n ∧
      Allows (some m) 0 n ∧ (e.after n).machine.advance.2 = .ok .running ∧
      reached? (some m) (0 + n + 1) = some m := by
  obtain ⟨n, hn⟩ : ∃ n, max m 1 = n + 1 := ⟨max m 1 - 1, by omega⟩
  have hadmits : Admits (some m) n := admits_some.mpr (by omega)
  have hreached : m ≤ 0 + n + 1 := by omega
  refine ⟨n, m - n, hn, by simp only [span]; omega, h.mono (by omega), hadmits.allows, ?_,
    by simp only [reached?, if_pos hreached]⟩
  rw [result_after]
  exact h n (by omega)

theorem travel_of_cut (h : e.machine.RunsFor (max m 1)) :
    e.travel (some m) = ⟨e.after (max m 1), max m 1, some (.outOfSteps m)⟩ := by
  obtain ⟨n, k, hn, hspan, hruns, hallows, hstep, hreached⟩ := exists_span_of_cut h
  rw [travel, hspan, goOn_add hruns hallows, goOn_of_reached hstep hreached, ← after_succ, hn,
    Nat.zero_add]

theorem chronicle_of_cut (h : e.machine.RunsFor (max m 1)) :
    e.chronicle note (some m) = told note e (max m 1) := by
  obtain ⟨n, k, hn, hspan, hruns, hallows, hstep, hreached⟩ := exists_span_of_cut h
  rw [chronicle, hspan, notes_add note hruns hallows, notes_of_reached note hstep hreached, hn]
  simp [told, List.range_succ, ← after_succ]

theorem travel_of_endless (h : ∀ k, e.machine.result k = .ok .running) :
    (e.travel none).ending = none := by
  have hgo := @goOn_add e none e.machine.horizon 0 (fun i _ => h i) (fun _ _ => rfl) 0
  exact congrArg Journey.ending hgo

/-- A journey is cut, goes on forever, or ends with the step that ends the run. -/
theorem travel_cases (limit : Option Nat) (e : Expedition) :
    (∃ m, limit = some m ∧ e.machine.RunsFor (max m 1) ∧
      e.travel limit = ⟨e.after (max m 1), max m 1, some (.outOfSteps m)⟩) ∨
    (limit = none ∧ (∀ k, e.machine.result k = .ok .running) ∧ (e.travel limit).ending = none) ∨
    ∃ n, Admits limit n ∧ e.machine.StopsAfter n ∧
      e.travel limit = ⟨e.after (n + 1), n, Ending.ofResult? (e.machine.result n)⟩ := by
  by_cases hstops : ∃ n, Admits limit n ∧ e.machine.StopsAfter n
  · obtain ⟨n, hadmits, hstops⟩ := hstops
    exact .inr (.inr ⟨n, hadmits, hstops, travel_of_stopsAfter hstops hadmits⟩)
  · cases limit with
    | none =>
      have hforever : ∀ k, e.machine.result k = .ok .running := by
        intro k
        have hruns := Machine.runsFor_of_not_stopsAfter
          fun n (_ : n < k + 1) h => hstops ⟨n, admits_none n, h⟩
        exact hruns k k.lt_succ_self
      exact .inr (.inl ⟨rfl, hforever, travel_of_endless hforever⟩)
    | some m =>
      have hruns : e.machine.RunsFor (max m 1) := Machine.runsFor_of_not_stopsAfter
        fun n hn h => hstops ⟨n, admits_some.mpr hn, h⟩
      exact .inl ⟨m, rfl, hruns, travel_of_cut hruns⟩

/-- Every ending but one for lack of steps comes from the step that ends the run. -/
theorem exists_of_ending {ending : Ending} (h : (e.travel limit).ending = some ending)
    (hsteps : ∀ m, ending ≠ .outOfSteps m) :
    ∃ n, Admits limit n ∧ e.machine.StopsAfter n ∧
      Ending.ofResult? (e.machine.result n) = some ending ∧
      (e.travel limit).last = e.after (n + 1) := by
  rcases e.travel_cases limit with ⟨m, -, -, htravel⟩ | ⟨-, -, hending⟩ |
    ⟨n, hadmits, hstops, htravel⟩
  · rw [htravel] at h
    exact absurd (Option.some.inj h).symm (hsteps m)
  · rw [hending] at h
    cases h
  · rw [htravel] at h ⊢
    exact ⟨n, hadmits, hstops, h, rfl⟩

theorem exists_of_failed {failure : Failure}
    (h : (e.travel limit).ending = some (.failed failure)) :
    ∃ n, Admits limit n ∧ e.machine.RunsFor n ∧ e.machine.result n = .error failure ∧
      (e.travel limit).last = e.after (n + 1) := by
  obtain ⟨n, hadmits, hstops, hresult, hlast⟩ := exists_of_ending h nofun
  exact ⟨n, hadmits, hstops.1, Ending.ofResult?_eq_failed_iff.mp hresult, hlast⟩

theorem exists_of_completed (h : (e.travel limit).ending = some .completed) :
    ∃ n, Admits limit n ∧ e.machine.StopsAfter n ∧ e.machine.result n = .ok .completed := by
  obtain ⟨n, hadmits, hstops, hresult, -⟩ := exists_of_ending h nofun
  exact ⟨n, hadmits, hstops, Ending.ofResult?_eq_completed_iff.mp hresult⟩

theorem runsFor_of_outOfSteps (h : (e.travel limit).ending = some (.outOfSteps m)) :
    limit = some m ∧ e.machine.RunsFor (max m 1) ∧
      (e.travel limit).last = e.after (max m 1) := by
  rcases e.travel_cases limit with ⟨k, rfl, hruns, htravel⟩ | ⟨-, -, hending⟩ | ⟨n, -, -, htravel⟩
  · rw [htravel] at h ⊢
    cases h
    exact ⟨rfl, hruns, rfl⟩
  · rw [hending] at h
    cases h
  · rw [htravel] at h
    exact absurd h (Ending.ofResult?_ne_outOfSteps _ m)

end Travel

section Cut

theorem told_calls (e : Expedition) (n : Nat) :
    told (fun before _ => [before]) e n = (List.range n).map e.after :=
  List.map_eq_flatMap.symm

theorem calls_of_stopsAfter (hstops : e.machine.StopsAfter n) (h : Admits limit n) :
    e.calls limit = (List.range (n + 1)).map e.after := by
  rw [calls, chronicle_of_stopsAfter _ hstops h, told_calls, List.range_succ, List.map_append]
  rfl

theorem calls_of_cut (h : e.machine.RunsFor (max m 1)) :
    e.calls (some m) = (List.range (max m 1)).map e.after := by
  rw [calls, chronicle_of_cut _ h, told_calls]

/-- Without a limit a journey is the run of its machine. -/
theorem run_eq_travel (e : Expedition) :
    e.machine.run = (e.travel none).ending.bind fun ending =>
      ending.outcome?.map ((e.travel none).last.machine, ·) := by
  rcases e.travel_cases none with ⟨m, hm, -⟩ | ⟨-, hforever, hending⟩ | ⟨n, -, hstops, htravel⟩
  · cases hm
  · have hproceed := @Machine.proceed_of_runsFor e.machine e.machine.horizon fun i _ => hforever i
    simp only [Machine.run, hproceed, hending, Option.bind_none]
  · obtain ⟨outcome, hresult⟩ := hstops.exists_outcome
    rw [Machine.run_of_first hstops.1 hresult, htravel, ← machine_after, hresult]
    cases outcome <;> rfl

/-- A journey that completes the program under a limit does so under every limit that admits as
many steps. -/
theorem travel_eq_of_completed {other : Option Nat}
    (h : (e.travel limit).ending = some .completed)
    (hother : ∀ n, Admits limit n → Admits other n) : e.travel other = e.travel limit := by
  obtain ⟨n, hadmits, hstops, -⟩ := exists_of_completed h
  rw [travel_of_stopsAfter hstops hadmits, travel_of_stopsAfter hstops (hother n hadmits)]

/-- A program that completes does so within as many steps as it has lines. -/
theorem le_length_of_completed (hstops : e.machine.StopsAfter n) (hs : e.machine.status = .running)
    (h : e.machine.result n = .ok .completed) : n ≤ e.machine.program.length := by
  rcases Machine.first_cases hs hstops with ⟨-, hend⟩ | ⟨text, cause, hfails, -⟩
  · exact hstops.1.le_length hend
  · rw [h] at hfails
    cases hfails

/-- The limit cuts the run of the machine exactly. A step is one of the machine, after which
the grid receives what has been delivered. Under a limit of `m` a journey makes steps until one
does not leave the machine running, and ends as this step says, or until it has made `m` steps,
one at least, and then it is out of steps; its machine and its grid are as these steps leave
them. Without a limit it is the run of the machine. So a journey that completes the program
does the same under every higher limit and without one, and a new machine that completes its
program at all does so under every limit above the number of lines. -/
theorem travel_cut :
    (∀ e : Expedition,
      e.advance.1.machine = e.machine.advance.1 ∧ e.advance.2 = e.machine.advance.2 ∧
        e.advance.1.grid =
          e.grid.receive (e.machine.advance.1.channel.since e.machine.channel)) ∧
    (∀ (e : Expedition) (m : Nat),
      (∀ n < max m 1, e.machine.StopsAfter n →
        e.travel (some m) = ⟨e.after (n + 1), n, Ending.ofResult? (e.machine.result n)⟩ ∧
          e.calls (some m) = (List.range (n + 1)).map e.after) ∧
      ((∀ n < max m 1, ¬ e.machine.StopsAfter n) →
        e.travel (some m) = ⟨e.after (max m 1), max m 1, some (.outOfSteps m)⟩ ∧
          e.calls (some m) = (List.range (max m 1)).map e.after)) ∧
    (∀ e : Expedition,
      (∀ n, e.machine.StopsAfter n →
        e.travel none = ⟨e.after (n + 1), n, Ending.ofResult? (e.machine.result n)⟩ ∧
          e.calls none = (List.range (n + 1)).map e.after) ∧
      ((∀ n, ¬ e.machine.StopsAfter n) → (e.travel none).ending = none) ∧
      e.machine.run = (e.travel none).ending.bind fun ending =>
        ending.outcome?.map ((e.travel none).last.machine, ·)) ∧
    (∀ (e : Expedition) (m : Nat), (e.travel (some m)).ending = some .completed →
      e.travel none = e.travel (some m) ∧ ∀ k ≥ m, e.travel (some k) = e.travel (some m)) ∧
    ∀ (program subscribers : List String) (grid : Grid) (m : Nat), program.length + 1 ≤ m →
      let e : Expedition := ⟨Machine.fresh program subscribers, grid⟩
      ((e.travel (some m)).ending = some .completed ↔
        (e.travel none).ending = some .completed) := by
  refine ⟨fun e => ⟨rfl, rfl, ?_⟩, fun e m => ⟨?_, ?_⟩, fun e => ⟨?_, ?_, run_eq_travel e⟩, ?_, ?_⟩
  · rw [← Machine.deliveries_eq_since]
    rfl
  · intro n hn hstops
    have hadmits := admits_some.mpr hn
    exact ⟨travel_of_stopsAfter hstops hadmits, calls_of_stopsAfter hstops hadmits⟩
  · intro hnone
    have hruns := Machine.runsFor_of_not_stopsAfter hnone
    exact ⟨travel_of_cut hruns, calls_of_cut hruns⟩
  · intro n hstops
    exact ⟨travel_of_stopsAfter hstops (admits_none n), calls_of_stopsAfter hstops (admits_none n)⟩
  · intro hnone
    apply travel_of_endless
    intro k
    exact Machine.runsFor_of_not_stopsAfter (fun n _ => hnone n) k k.lt_succ_self
  · intro e m h
    refine ⟨travel_eq_of_completed h fun n _ => admits_none n, fun k hk => ?_⟩
    apply travel_eq_of_completed h
    intro n hn
    rw [admits_some] at hn ⊢
    omega
  · intro program subscribers grid m hm e
    constructor
    · intro h
      rw [travel_eq_of_completed h fun n _ => admits_none n]
      exact h
    · intro h
      obtain ⟨n, hadmits, hstops, hcompleted⟩ := exists_of_completed h
      have hlength := le_length_of_completed hstops (Machine.fresh_status program subscribers)
        hcompleted
      rw [Machine.fresh_program] at hlength
      rw [travel_of_stopsAfter hstops (admits_some.mpr (by omega)), hcompleted]
      rfl

/-- One move, and the step that finds the end of the program: a limit of one cuts before that
step although nothing is left to do, and a limit of zero does not cut any earlier. -/
theorem travel_cut_single_move :
    let e := ofProgram ["right;"] ⟨3, 3, ⟨1, 1⟩⟩
    e.travel (some 0) = ⟨e.after 1, 1, some (.outOfSteps 0)⟩ ∧
      e.travel (some 1) = ⟨e.after 1, 1, some (.outOfSteps 1)⟩ ∧
      e.travel (some 2) = ⟨e.after 2, 1, some .completed⟩ ∧
      e.calls (some 2) = [e, e.after 1] ∧ e.travel none = e.travel (some 2) ∧
      (e.after 2).grid.rover = ⟨2, 1⟩ := by
  intro e
  have hopen : ∀ n < 1, ¬ e.machine.StopsAfter n := by
    intro n hn hstops
    obtain rfl : n = 0 := by omega
    exact hstops.2 (by decide)
  have hstops : e.machine.StopsAfter 1 := by
    refine ⟨fun i hi => ?_, by decide⟩
    obtain rfl : i = 0 := by omega
    decide
  obtain ⟨-, hlimited, -, hraised, -⟩ := travel_cut
  have htwo := (hlimited e 2).1 1 (by decide) hstops
  have hresult : Ending.ofResult? (e.machine.result 1) = some .completed := by decide
  rw [hresult] at htwo
  have hnone := (hraised e 2 (by rw [htwo.1])).1
  exact ⟨((hlimited e 0).2 hopen).1, ((hlimited e 1).2 hopen).1, htwo.1, htwo.2, hnone, by decide⟩

end Cut

end Expedition

end GridRover
