import GridRover.Proofs.Script.Action
import GridRover.Proofs.Script.Recognition

/-!
# Where a jump goes

The number behind `goto` may have any number of digits. It is read as a word, and the lines
of a program are numbered from one by words, so a number beyond the words is beyond the
lines as well: rounding it to the nearest word never makes it the number of a line.
-/
namespace GridRover.Script

open Text

namespace Statement

/-- A line that says `goto` and an integer, with blanks at most around the two. -/
def JumpsTo (line : String) (v : Int) : Prop :=
  ∃ w u t z literal, Blanks w ∧ Blanks u ∧ Blanks t ∧ Blanks z ∧ Literal literal v ∧
    line.toList = w ++ ("goto".toList ++ u ++ literal) ++ t ++ ';' :: z

theorem JumpsTo.ofLine?_eq {line : String} {v : Int} (h : JumpsTo line v) :
    ofLine? line = some (.goto (max (-2 ^ 63) (min v (2 ^ 63 - 1)))) := by
  obtain ⟨w, u, t, z, literal, hw, hu, ht, hz, hliteral, hline⟩ := h
  have hspells := Spells.closed (.goto hu hliteral) hw ht hz
  rw [← hline] at hspells
  exact ofLine?_of_spells hspells

end Statement

namespace Machine

variable {m : Machine} {line : String} {v : Int}

/-- Rounding to the nearest word brings no number in among those of the lines. -/
theorem nearest_mem_iff {n : Nat} (h : n < 2 ^ 63 - 1) (v : Int) :
    (1 ≤ max (-2 ^ 63) (min v (2 ^ 63 - 1)) ∧ max (-2 ^ 63) (min v (2 ^ 63 - 1)) ≤ n) ↔
      1 ≤ v ∧ v ≤ n := by
  omega

theorem advance_jump_inside (hlength : m.program.length < 2 ^ 63 - 1) (hs : m.status = .running)
    (hl : m.program[m.counter]? = some line) (hline : Statement.JumpsTo line v)
    (hv : 1 ≤ v ∧ v ≤ m.program.length) :
    m.advance = ({ m with counter := (v - 1).toNat }, .ok .running) := by
  have hnearest : max (-2 ^ 63) (min v (2 ^ 63 - 1)) = v := by omega
  have hindex : m.lineIndex v = .ok (v - 1).toNat := by rw [lineIndex_eq, if_pos hv]
  have hstatement := hline.ofLine?_eq
  rw [hnearest] at hstatement
  have hp : m.plan line = .ok (.jump (v - 1).toNat) :=
    plan_eq_ok_iff.mpr ⟨_, hstatement, .jump hindex⟩
  exact (Advances.perform hs hl hp).advance_eq

theorem advance_jump_outside (hlength : m.program.length < 2 ^ 63 - 1) (hs : m.status = .running)
    (hl : m.program[m.counter]? = some line) (hline : Statement.JumpsTo line v)
    (hv : ¬ (1 ≤ v ∧ v ≤ m.program.length)) :
    m.advance = (m, .error ⟨m.counter + 1, line,
      .jump (max (-2 ^ 63) (min v (2 ^ 63 - 1))) m.program.length⟩) := by
  rw [← nearest_mem_iff hlength] at hv
  have hp : m.plan line =
      .error (.jump (max (-2 ^ 63) (min v (2 ^ 63 - 1))) m.program.length) := by
    simp only [plan, hline.ofLine?_eq]
    exact action_eq_error_iff.mpr (.jump hv)
  exact (Advances.fail hs hl hp).advance_eq

/-- What a jump to the number `v` does, in a program of fewer lines than there are positive
words. It succeeds exactly when there is a line with that number. Then the counter goes to the
index of the line, one less than its number, and nothing else changes. Otherwise nothing
changes at all, and the failure tells the word nearest to `v` and the number of lines. -/
theorem advance_jump (m : Machine) (line : String) (v : Int)
    (hlength : m.program.length < 2 ^ 63 - 1) (hs : m.status = .running)
    (hl : m.program[m.counter]? = some line) (hline : Statement.JumpsTo line v) :
    ((∃ next status, m.advance = (next, .ok status)) ↔ 1 ≤ v ∧ v ≤ m.program.length) ∧
      (1 ≤ v ∧ v ≤ m.program.length →
        ∃ index : Nat, (index : Int) = v - 1 ∧
          m.advance = ({ m with counter := index }, .ok .running)) ∧
      (¬ (1 ≤ v ∧ v ≤ m.program.length) →
        m.advance = (m, .error ⟨m.counter + 1, line,
          .jump (max (-2 ^ 63) (min v (2 ^ 63 - 1))) m.program.length⟩)) := by
  refine ⟨⟨?_, ?_⟩, ?_, advance_jump_outside hlength hs hl hline⟩
  · rintro ⟨next, status, h⟩
    by_contra hv
    rw [advance_jump_outside hlength hs hl hline hv] at h
    cases h
  · intro hv
    exact ⟨_, _, advance_jump_inside hlength hs hl hline hv⟩
  · intro hv
    exact ⟨(v - 1).toNat, by omega, advance_jump_inside hlength hs hl hline hv⟩

/-- Zeros in front of the number of the last line, a negative zero, and the numbers right
behind the words on both sides. -/
theorem advance_jump_extremes :
    let program := ["goto 0000000000000000000005;", "goto -0;", " goto9223372036854775808;",
      "goto -9223372036854775809 ;", "left;"]
    let m (counter : Nat) : Machine := ⟨program, counter, .empty, .empty, .running⟩
    (m 0).advance = (m 4, .ok .running) ∧
      (m 1).advance = (m 1, .error ⟨2, "goto -0;", .jump 0 5⟩) ∧
      (m 2).advance = (m 2, .error ⟨3, " goto9223372036854775808;", .jump (2 ^ 63 - 1) 5⟩) ∧
      (m 3).advance = (m 3, .error ⟨4, "goto -9223372036854775809 ;", .jump (-2 ^ 63) 5⟩) := by
  intro program m
  have hspace : Blanks [' '] := List.forall_mem_singleton.mpr (by decide)
  have hzeros : Statement.JumpsTo "goto 0000000000000000000005;" 5 :=
    ⟨[], [' '], [], [], "0000000000000000000005".toList, blanks_nil, hspace, blanks_nil, blanks_nil,
      .plain (by decide) (List.all_eq_true.mp rfl), by decide⟩
  have hzero : Statement.JumpsTo "goto -0;" 0 :=
    ⟨[], [' '], [], [], "-0".toList, blanks_nil, hspace, blanks_nil, blanks_nil,
      .negative (by decide) (List.all_eq_true.mp rfl), by decide⟩
  have habove : Statement.JumpsTo " goto9223372036854775808;" (2 ^ 63) :=
    ⟨[' '], [], [], [], "9223372036854775808".toList, hspace, blanks_nil, blanks_nil, blanks_nil,
      .plain (by decide) (List.all_eq_true.mp rfl), by decide⟩
  have hbelow : Statement.JumpsTo "goto -9223372036854775809 ;" (-2 ^ 63 - 1) :=
    ⟨[], [' '], [' '], [], "-9223372036854775809".toList, blanks_nil, hspace, hspace, blanks_nil,
      .negative (by decide) (List.all_eq_true.mp rfl), by decide⟩
  obtain ⟨index, hindex, hfirst⟩ := (advance_jump (m 0) _ 5 (by decide) rfl rfl hzeros).2.1 (by decide)
  obtain rfl : index = 4 := by omega
  exact ⟨hfirst, (advance_jump (m 1) _ 0 (by decide) rfl rfl hzero).2.2 (by decide),
    (advance_jump (m 2) _ _ (by decide) rfl rfl habove).2.2 (by decide),
    (advance_jump (m 3) _ _ (by decide) rfl rfl hbelow).2.2 (by decide)⟩

end Machine

end GridRover.Script
