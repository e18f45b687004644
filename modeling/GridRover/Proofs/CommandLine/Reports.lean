import GridRover.CommandLine.Session
import GridRover.Proofs.Expedition
import GridRover.Proofs.Script.Confinement

/-!
# Which lines are reported

A check goes through the lines of a script in order and reports those that are no
statements. A run comes to its lines by jumps and reports the one it stops at, so what it
finds to be no statement is among the reports of the check. A run that has used up its steps
is reported on the line that comes next, and there is none when the last line has just run.
-/
namespace GridRover.CommandLine

open Console Script

section Check

variable {program : List String} {failure : Failure}

/-- A check finds every line that is no statement, under its number, and nothing else. -/
theorem mem_problems_iff :
    failure ∈ problems program ↔
      failure.cause = .unrecognised ∧ 1 ≤ failure.line ∧
        program[failure.line - 1]? = some failure.text ∧ Statement.ofLine? failure.text = none := by
  obtain ⟨line, text, cause⟩ := failure
  simp only [problems, List.mem_filterMap, Prod.exists, List.mk_mem_zipIdx_iff_le_and_getElem?_sub]
  constructor
  · rintro ⟨found, number, ⟨hnumber, hfound⟩, hfailure⟩
    cases hstatement : Statement.ofLine? found with
    | none =>
      simp only [hstatement, Option.isSome_none, Bool.false_eq_true, if_false, Option.some.injEq,
        Failure.mk.injEq] at hfailure
      obtain ⟨rfl, rfl, rfl⟩ := hfailure
      exact ⟨rfl, hnumber, hfound, hstatement⟩
    | some statement => simp [hstatement] at hfailure
  · rintro ⟨rfl, hnumber, hfound, hstatement⟩
    exact ⟨text, line, ⟨hnumber, hfound⟩, by simp [hstatement]⟩

/-- The numbers of the problems ascend, as those of all lines do. -/
theorem problems_ascending (program : List String) :
    ((problems program).map Failure.line).Pairwise (· < ·) := by
  have hnumbers : ((program.zipIdx 1).map Prod.snd).Pairwise (· < ·) := by
    rw [List.zipIdx_map_snd]
    exact List.pairwise_lt_range'
  rw [List.pairwise_map] at hnumbers ⊢
  apply List.Pairwise.filterMap _ _ hnumbers
  rintro ⟨text, line⟩ ⟨other, later⟩ hlt first hfirst second hsecond
  simp only [Option.ite_none_left_eq_some, Option.some.injEq] at hfirst hsecond
  obtain ⟨-, rfl⟩ := hfirst
  obtain ⟨-, rfl⟩ := hsecond
  exact hlt

/-- A step that finds no statement finds a problem of the check. -/
theorem mem_problems_of_result {n : Nat} (h : (Machine.ofLines program).result n = .error failure)
    (hcause : failure.cause = .unrecognised) : failure ∈ problems program := by
  obtain ⟨hline, hl, hp⟩ := Machine.line_of_failure h
  rw [hcause] at hp
  rw [Machine.after_program] at hl
  apply mem_problems_iff.mpr
  rw [hline]
  exact ⟨hcause, Nat.succ_pos _, hl, Machine.plan_eq_unrecognised_iff.mp hp⟩

/-- Lines as they are printed. -/
def listing (lines : List String) : String := String.join (lines.map (· ++ "\n"))

/-- What stands left of a line that is shown beside the one with the given number: a space for
each digit of the number, and a bar. -/
def margin (color : Bool) (number : Nat) : String :=
  String.ofList (List.replicate (toString number).length ' ') ++ " " ++ paint color .blueBold " | "

/-- The report on a line that is no statement. It shows the line under its number and names the
number again at the end, behind the path. No other line in it has a number. -/
def ReportsOn (color : Bool) (path : String) (failure : Failure) (report : String) : Prop :=
  ∃ above below : List String,
    report = paint color .redBold "error" ++ ": " ++ paint color .bold "Line is not a statement" ++
      "\n\n" ++ listing above ++
      (paint color .blueBold (toString failure.line) ++ " " ++ paint color .blueBold " | " ++
        failure.text ++ "\n") ++
      listing below ++ "\nIn " ++ path ++ ":" ++ toString failure.line ++ "\n\n" ∧
    ∀ line ∈ above ++ below, ∃ shown, line = margin color failure.line ++ shown

theorem render_eq (color : Bool) (d : Diagnostic) :
    d.render color = paint color .redBold "error" ++ ": " ++ paint color .bold d.message ++
      "\n\n" ++ listing (d.neighbour color d.previous?) ++
      (paint color .blueBold (toString d.line) ++ " " ++ paint color .blueBold " | " ++
        d.text ++ "\n") ++
      listing ((margin color d.line ++ d.indicator color) :: d.neighbour color d.next?) ++
      "\nIn " ++ d.path ++ ":" ++ toString d.line ++ "\n\n" := by
  simp only [Diagnostic.render, Diagnostic.lines, Diagnostic.gutter, margin, listing,
    List.map_append, List.map_cons, List.map_nil, String.join_append, String.join_cons,
    String.join_nil, String.append_assoc, String.empty_append, if_true, Bool.false_eq_true,
    if_false]
  rfl

theorem margin_of_neighbour {color : Bool} {d : Diagnostic} {neighbour : Option String}
    {line : String} (h : line ∈ d.neighbour color neighbour) :
    ∃ shown, line = margin color d.line ++ shown := by
  cases neighbour with
  | none => cases h
  | some shown =>
    rw [Diagnostic.neighbour] at h
    split at h
    · cases h
    · exact ⟨shown, List.mem_singleton.mp h⟩

/-- A diagnostic with the number and the text of a failure is the report on it. -/
theorem reportsOn_render {color : Bool} {d : Diagnostic} (hline : d.line = failure.line)
    (htext : d.text = failure.text) (hmessage : d.message = "Line is not a statement") :
    ReportsOn color d.path failure (d.render color) := by
  refine ⟨d.neighbour color d.previous?,
    (margin color d.line ++ d.indicator color) :: d.neighbour color d.next?, ?_, ?_⟩
  · rw [render_eq, htext, hmessage, hline]
  · rw [← hline]
    intro line h
    rcases List.mem_append.mp h with habove | hbelow
    · exact margin_of_neighbour habove
    · rcases List.mem_cons.mp hbelow with rfl | hbelow
      · exact ⟨d.indicator color, rfl⟩
      · exact margin_of_neighbour hbelow

/-- The line that is shown is the one that failed. -/
theorem text_ofFailure {path : String} (h : program[failure.line - 1]? = some failure.text) :
    (Diagnostic.ofFailure path program failure).text = failure.text := by
  simp only [Diagnostic.text, Diagnostic.ofFailure, h, Option.getD_some]

theorem reportsOn_of_mem_problems (color : Bool) (path : String) (h : failure ∈ problems program) :
    ReportsOn color path failure ((Diagnostic.ofFailure path program failure).render color) := by
  obtain ⟨hcause, -, htext, -⟩ := mem_problems_iff.mp h
  have hmessage : (Diagnostic.ofFailure path program failure).message =
      "Line is not a statement" := by
    simp only [Diagnostic.ofFailure, hcause, Cause.message]
  exact reportsOn_render rfl (text_ofFailure htext) hmessage

theorem tally_eq (found : List Failure) : tally found = Int32.ofNat found.length := by
  induction found using List.reverseRecOn with
  | nil => rfl
  | append_singleton found failure ih =>
    rw [tally, List.foldl_concat, ← tally, ih, List.length_append, Int32.ofNat_add]
    rfl

/-- A count that has not gone round is zero only if nothing has been counted. -/
theorem tally_eq_zero_iff {found : List Failure} (h : found.length ≤ Int32.maxValue.toInt) :
    tally found = 0 ↔ found = [] := by
  have hlt : found.length < 2147483648 := by
    have hmax : Int32.maxValue.toInt = 2147483647 := rfl
    omega
  rw [tally_eq, ← Int32.toInt_inj, Int32.toInt_ofNat_of_lt hlt, ← List.length_eq_zero_iff]
  exact Int.natCast_eq_zero

theorem verdict_exit_iff {color : Bool} {lineCount : Nat} {problemCount : Int32} :
    (verdict color lineCount problemCount).exit = some 0 ↔ problemCount = 0 := by
  unfold verdict
  split
  · simp_all
  · split <;> simp_all [giveUp]

/-- A check prints one report for each problem, and at the end what it found. -/
theorem checkScript_of_readProgram {color : Bool} {disk : Disk} {path : String}
    (h : readProgram disk path = .ok program) :
    ∃ reports summary, (checkScript color disk path).output = reports.map Chunk.err ++ [summary] ∧
      List.Forall₂ (ReportsOn color path) (problems program) reports ∧
      ((problems program).length ≤ Int32.maxValue.toInt →
        ((checkScript color disk path).exit = some 0 ↔ problems program = [])) := by
  obtain ⟨summary, hsummary⟩ :
      ∃ summary, (verdict color program.length (tally (problems program))).output = [summary] := by
    unfold verdict
    split
    · exact ⟨_, rfl⟩
    · split <;> exact ⟨_, rfl⟩
  refine ⟨(problems program).map fun f => (Diagnostic.ofFailure path program f).render color,
    summary, ?_, ?_, ?_⟩
  · simp only [checkScript, h, Outcome.after, hsummary, List.map_map]
    rfl
  · rw [List.forall₂_map_right_iff, List.forall₂_same]
    intro failure hfailure
    exact reportsOn_of_mem_problems color path hfailure
  · intro hcount
    simp only [checkScript, h, Outcome.after, verdict_exit_iff, tally_eq_zero_iff hcount]

/-- A check and a run of the same script agree. The check reports the lines that are no
statements, each of them once, in ascending order and under its number; its exit code tells
whether there are any, as long as their count is one that fits its word. Whenever a step of a
run, however late, fails because its line is no statement, the check reports that failure; so
after a check without reports no step of any run fails for this reason. -/
theorem check_agrees_with_run (program : List String) :
    ((problems program).map Failure.line).Pairwise (· < ·) ∧
      (∀ failure, failure ∈ problems program ↔
        failure.cause = .unrecognised ∧ 1 ≤ failure.line ∧
          program[failure.line - 1]? = some failure.text ∧
          Statement.ofLine? failure.text = none) ∧
      (∀ color disk path, readProgram disk path = .ok program →
        ∃ reports summary,
          (checkScript color disk path).output = reports.map Chunk.err ++ [summary] ∧
          List.Forall₂ (ReportsOn color path) (problems program) reports ∧
          ((problems program).length ≤ Int32.maxValue.toInt →
            ((checkScript color disk path).exit = some 0 ↔ problems program = []))) ∧
      (∀ n failure, (Machine.ofLines program).result n = .error failure →
        failure.cause = .unrecognised → failure ∈ problems program) ∧
      (problems program = [] → ∀ n failure,
        (Machine.ofLines program).result n = .error failure → failure.cause ≠ .unrecognised) := by
  refine ⟨problems_ascending program, fun failure => mem_problems_iff,
    fun color disk path h => checkScript_of_readProgram h,
    fun n failure h hcause => mem_problems_of_result h hcause, ?_⟩
  intro hnone n failure h hcause
  have hmem := mem_problems_of_result h hcause
  rw [hnone] at hmem
  cases hmem

/-- The run jumps over the first problem of a script and fails at the second; the check reports
both, the first between its neighbours. A jump that leaves its script is no problem of the
check. -/
theorem check_agrees_with_run_skipped_line :
    (∃ reports summary,
      (checkScript false ⟨fun _ => .ok "goto 3;\nfly;\nleft;\nright".toUTF8⟩ "a").output =
        reports.map Chunk.err ++ [summary] ∧
      List.Forall₂ (ReportsOn false "a")
        [⟨2, "fly;", .unrecognised⟩, ⟨4, "right", .unrecognised⟩] reports) ∧
      (checkScript false ⟨fun _ => .ok "goto 3;\nfly;\nleft;\nright".toUTF8⟩ "a").exit = some 1 ∧
      (checkScript false ⟨fun _ => .ok "goto 3;\nfly;\nleft;\nright".toUTF8⟩ "a").stderr =
        "error: Line is not a statement\n\n   | goto 3;\n2  | fly;\n   | ^~~~ hint: expected a " ++
        "movement, `goto`, declaration or assignment ending in `;`\n   | left;\n\nIn a:2\n\n" ++
        "error: Line is not a statement\n\n   | left;\n4  | right\n   | ^~~~~ hint: expected a " ++
        "movement, `goto`, declaration or assignment ending in `;`\n\nIn a:4\n\n" ++
        "error: 2 problems found\n" ∧
      (checkScript true ⟨fun _ => .ok "fly;".toUTF8⟩ "a").stderr =
        "\x1b[1;31merror\x1b[0m: \x1b[1mLine is not a statement\x1b[0m\n\n" ++
        "\x1b[1;34m1\x1b[0m \x1b[1;34m | \x1b[0mfly;\n" ++
        "  \x1b[1;34m | \x1b[0m\x1b[1;31m^\x1b[0m\x1b[31m~~~\x1b[0m \x1b[1;31mhint: expected a " ++
        "movement, `goto`, declaration or assignment ending in `;`\x1b[0m\n\nIn a:1\n\n" ++
        "\x1b[1;31merror\x1b[0m: 1 problem found\n" ∧
      (Machine.ofLines ["goto 3;", "fly;", "left;", "right"]).result 2 =
        .error ⟨4, "right", .unrecognised⟩ ∧
      (⟨4, "right", .unrecognised⟩ : Failure) ∈ problems ["goto 3;", "fly;", "left;", "right"] ∧
      ∀ n failure, (Machine.ofLines ["left;", "goto 7;"]).result n = .error failure →
        failure.cause ≠ .unrecognised := by
  obtain ⟨-, -, hprinted, hfound, -⟩ := check_agrees_with_run ["goto 3;", "fly;", "left;", "right"]
  obtain ⟨reports, summary, houtput, hreports, -⟩ :=
    hprinted false ⟨fun _ => .ok "goto 3;\nfly;\nleft;\nright".toUTF8⟩ "a" rfl
  have hfails : (Machine.ofLines ["goto 3;", "fly;", "left;", "right"]).result 2 =
      .error ⟨4, "right", .unrecognised⟩ := rfl
  exact ⟨⟨reports, summary, houtput, hreports⟩, by decide +kernel, by decide +kernel,
    by decide +kernel, hfails, hfound 2 _ hfails rfl,
    (check_agrees_with_run ["left;", "goto 7;"]).2.2.2.2 rfl⟩

end Check

section Limit

variable {program : List String} {grid : Grid} {limit : Option Nat}

/-- The steps run out when the last line has run and only the end is left to announce. -/
def CutBehindLastLine (program : List String) (limit : Option Nat) : Prop :=
  ∃ m, limit = some m ∧ (Machine.ofLines program).RunsFor (max m 1) ∧
    (Machine.ofLines program).result (max m 1) = .ok .completed

theorem result_ofProgram (n : Nat) :
    (Expedition.ofProgram program grid).machine.result n = (Machine.ofLines program).result n :=
  Machine.result_subscribe _ _ n

theorem confined_ofProgram (program : List String) (grid : Grid) (n : Nat) :
    Machine.Confined program ((Expedition.ofProgram program grid).after n).machine := by
  rw [Expedition.machine_after]
  exact ((Machine.confined_ofLines program).subscribe Grid.listener).after n

/-- A failure is on a line of the program, and the steps have not run out by then. -/
theorem line_of_failed {failure : Failure}
    (h : ((Expedition.ofProgram program grid).travel limit).ending = some (.failed failure)) :
    ((Expedition.ofProgram program grid).travel limit).last.machine.program = program ∧
      1 ≤ failure.line ∧ failure.line ≤ program.length ∧
      program[failure.line - 1]? = some failure.text ∧ ¬ CutBehindLastLine program limit := by
  obtain ⟨n, hadmits, -, hresult, hlast⟩ := Expedition.exists_of_failed h
  have hbefore := confined_ofProgram program grid n
  rw [Expedition.machine_after] at hbefore
  obtain ⟨hpos, hle, htext⟩ := hbefore.failure_line hresult
  rw [hlast]
  refine ⟨(confined_ofProgram program grid (n + 1)).program_eq, hpos, hle, htext, ?_⟩
  rintro ⟨m, rfl, hcut, -⟩
  have hrunning := hcut n (hadmits m rfl)
  rw [result_ofProgram, hrunning] at hresult
  cases hresult

/-- When the steps run out, the machine stands on a line of the program or right behind the last
one, and behind the last one exactly when one more step would complete it. -/
theorem counter_of_outOfSteps {m : Nat}
    (h : ((Expedition.ofProgram program grid).travel limit).ending = some (.outOfSteps m)) :
    Machine.Confined program ((Expedition.ofProgram program grid).travel limit).last.machine ∧
      (((Expedition.ofProgram program grid).travel limit).last.machine.counter = program.length ↔
        CutBehindLastLine program limit) := by
  obtain ⟨rfl, hruns, hlast⟩ := Expedition.runsFor_of_outOfSteps h
  have hconfined := confined_ofProgram program grid (max m 1)
  rw [hlast]
  refine ⟨hconfined, ?_⟩
  rw [Expedition.machine_after] at hconfined ⊢
  have hnext : (Expedition.ofProgram program grid).machine.result (max m 1) = .ok .completed ↔
      ((Expedition.ofProgram program grid).machine.after (max m 1)).counter = program.length :=
    hconfined.completed_iff hruns.after_eq.2.2
  rw [← hnext, result_ofProgram]
  constructor
  · intro hcompleted
    exact ⟨m, rfl, Machine.runsFor_subscribe.mp hruns, hcompleted⟩
  · rintro ⟨_, hm, -, hcompleted⟩
    cases hm
    exact hcompleted

/-- The line of a diagnostic is one of the program, unless the steps run out right behind the
last line. -/
theorem line_of_diagnostic {path : String} {d : Diagnostic}
    (h : diagnostic? path ((Expedition.ofProgram program grid).travel limit) = some d) :
    d.program = program ∧
      (¬ CutBehindLastLine program limit →
        1 ≤ d.line ∧ d.line ≤ program.length ∧ program[d.line - 1]? = some d.text) ∧
      (CutBehindLastLine program limit → d.line = program.length + 1 ∧ d.text = "") := by
  unfold diagnostic? at h
  split at h
  · rename_i failure hending
    obtain ⟨hprogram, hpos, hle, htext, hcut⟩ := line_of_failed hending
    cases h
    refine ⟨hprogram, fun _ => ⟨hpos, hle, ?_⟩, fun hc => absurd hc hcut⟩
    rw [hprogram, text_ofFailure htext]
    exact htext
  · rename_i m hending
    obtain ⟨hconfined, hcut⟩ := counter_of_outOfSteps hending
    have hprogram := hconfined.program_eq
    have hle := hconfined.counter_le
    cases h
    refine ⟨hprogram, fun hc => ?_, fun hc => ?_⟩
    · rw [← hcut] at hc
      have hlt := Nat.lt_of_le_of_ne hle hc
      refine ⟨Nat.succ_pos _, hlt, ?_⟩
      simp [Diagnostic.text, hprogram, hlt]
    · have hend := hcut.mpr hc
      exact ⟨congrArg (· + 1) hend, by simp [Diagnostic.text, hprogram, hend]⟩
  · cases h

/-- A journey that did not complete is told by its diagnostic alone. -/
theorem farewell_of_failure {color : Bool} {level : Journal.Level} {path : String}
    {journey : Journey} (h : (farewell color level path journey).exit = some 2) :
    ∃ d, diagnostic? path journey = some d ∧
      (farewell color level path journey).output = [.err (d.render color)] := by
  unfold farewell at h ⊢
  cases hending : journey.ending with
  | none => simp [hending] at h
  | some ending =>
    cases ending with
    | completed => simp [hending] at h
    | failed failure => exact ⟨_, by rw [diagnostic?, hending], by simp [diagnostic?, hending]⟩
    | outOfSteps m => exact ⟨_, by rw [diagnostic?, hending], by simp [diagnostic?, hending]⟩

/-- The report of a run that does not complete. It is on a line of the program, shown as it
stands there, exactly if the steps do not run out right behind the last line; if they do, the
number is one too high and an empty line is shown. -/
theorem runScript_failure_line (color : Bool) (disk : Disk) (level : Journal.Level)
    (settings : Settings) (path : String) (showGrid : Bool) (limit : Option Nat)
    (program : List String) (grid : Grid) (hprogram : readProgram disk path = .ok program)
    (hgrid : gridOf settings.grid = .ok grid)
    (hexit : (runScript color disk level settings path showGrid limit).exit = some 2) :
    ∃ d earlier,
      (runScript color disk level settings path showGrid limit).output =
        earlier ++ [.err (d.render color)] ∧
      diagnostic? path ((Expedition.ofProgram program grid).travel limit) = some d ∧
      d.program = program ∧
      (1 ≤ d.line ∧ d.line ≤ program.length ∧ program[d.line - 1]? = some d.text ↔
        ¬ CutBehindLastLine program limit) ∧
      (CutBehindLastLine program limit → d.line = program.length + 1 ∧ d.text = "") := by
  simp only [runScript, hprogram, hgrid, Outcome.after] at hexit ⊢
  obtain ⟨d, hd, houtput⟩ := farewell_of_failure hexit
  obtain ⟨hshown, hinside, hbehind⟩ := line_of_diagnostic hd
  refine ⟨d, _, by rw [houtput], hd, hshown, ⟨?_, hinside⟩, hbehind⟩
  rintro ⟨-, hle, -⟩ hcut
  have hline := (hbehind hcut).1
  omega

/-- One step takes a script of one line behind its end. Three steps leave a loop on its second
line. -/
theorem runScript_failure_line_cut :
    (∃ (d : Diagnostic) (earlier : List Chunk),
      (runScript false ⟨fun _ => .ok "right;".toUTF8⟩ .info .default "a" false (some 1)).output =
        earlier ++ [.err (d.render false)] ∧
      d.program = ["right;"] ∧ d.line = 2 ∧ d.text = "") ∧
    ∃ (d : Diagnostic) (earlier : List Chunk),
      (runScript false ⟨fun _ => .ok "right;\ngoto 1;".toUTF8⟩ .info .default "a" false
        (some 3)).output = earlier ++ [.err (d.render false)] ∧
      d.line ≤ 2 ∧ ["right;", "goto 1;"][d.line - 1]? = some d.text := by
  constructor
  · have hcut : CutBehindLastLine ["right;"] (some 1) := by
      refine ⟨1, rfl, fun i hi => ?_, rfl⟩
      obtain rfl : i = 0 := by omega
      rfl
    obtain ⟨d, earlier, houtput, -, hshown, -, hbehind⟩ := runScript_failure_line false
      ⟨fun _ => .ok "right;".toUTF8⟩ .info .default "a" false (some 1) ["right;"] _ rfl rfl rfl
    exact ⟨d, earlier, houtput, hshown, hbehind hcut⟩
  · have hinside : ¬ CutBehindLastLine ["right;", "goto 1;"] (some 3) := by
      rintro ⟨m, hm, -, hcompleted⟩
      cases hm
      cases hcompleted
    obtain ⟨d, earlier, houtput, -, -, hline, -⟩ := runScript_failure_line false
      ⟨fun _ => .ok "right;\ngoto 1;".toUTF8⟩ .info .default "a" false (some 3)
      ["right;", "goto 1;"] _ rfl rfl rfl
    exact ⟨d, earlier, houtput, (hline.mpr hinside).2⟩

end Limit

end GridRover.CommandLine
