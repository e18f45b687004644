import GridRover.Console.Diagnostic
import GridRover.Console.Terminal
import GridRover.Proofs.Text

/-!
# Where the caret stands

The line under a statement starts with a gutter as wide as the one beside the statement, and
goes on with a space for each byte of the blanks in front of the statement. So the caret
stands under the first character of the statement if these blanks take one byte each, and to
the right of it if one of them takes more. From the caret on, the marks are as many as the
characters of the statement. Colour adds escape sequences, and these take no room.
-/
namespace GridRover.Console

open Text

namespace Phase

theorem plain_append {cs : List Char} (h : ∀ c ∈ cs, isShown c = true) (rest : List Char) :
    (shown none).plain (cs ++ rest) = cs ++ (shown none).plain rest := by
  induction cs with
  | nil => rfl
  | cons c cs ih =>
    have hc : isShown c = true := h c List.mem_cons_self
    have hcs := ih fun d hd => h d (List.mem_cons_of_mem c hd)
    simp only [List.cons_append, plain, step, hc, if_true, ite_self, hcs]

/-- The sequences around a painted text are left out. -/
theorem plain_paint {text : String} (h : ∀ c ∈ text.toList, isShown c = true) (color : Bool)
    (style : Style) (rest : List Char) :
    (shown none).plain ((paint color style text).toList ++ rest) =
      text.toList ++ (shown none).plain rest := by
  cases color with
  | false => exact plain_append h rest
  | true =>
    have hstart (cs : List Char) : (shown none).plain
        (("\x1b[" ++ style.codes ++ "m").toList ++ cs) = (shown none).plain cs := by
      cases style <;> rfl
    have hstop (cs : List Char) : (shown none).plain ("\x1b[0m".toList ++ cs) =
        (shown none).plain cs := rfl
    simp only [paint, if_true, String.toList_append, List.append_assoc] at hstart ⊢
    rw [hstart, plain_append h, hstop]

end Phase

theorem isShown_of_isDigit {c : Char} (h : c.isDigit = true) : isShown c = true := by
  delta Char.isDigit at h
  rw [Bool.and_eq_true, decide_eq_true_iff, decide_eq_true_iff] at h
  have hlow : ' ' ≤ c := Char.le_def.mpr (UInt32.le_trans (by decide) h.1)
  have hhigh : c ≠ '\x7f' := by
    rintro rfl
    exact absurd h.2 (by decide)
  simp [isShown, hlow, hhigh]

theorem isShown_of_mem_number {n : Nat} {c : Char} (h : c ∈ (toString n).toList) :
    isShown c = true := by
  rw [Nat.toString_eq_repr, Nat.toList_repr] at h
  exact isShown_of_isDigit (Nat.isDigit_of_mem_toDigits (by decide) (by decide) h)

theorem isShown_of_mem_replicate {n : Nat} {c d : Char} (hd : isShown d = true)
    (h : c ∈ List.replicate n d) : isShown c = true := by
  rw [List.eq_of_mem_replicate h]
  exact hd

namespace Diagnostic

/-- What is shown of a gutter is a field as wide as the number of the line, and a bar. -/
theorem plain_gutter (color : Bool) (d : Diagnostic) (numbered : Bool) :
    ∃ field : List Char, field.length = (toString d.line).length ∧ ∀ rest : List Char,
      (Phase.shown none).plain ((d.gutter color numbered).toList ++ rest) =
        field ++ "  | ".toList ++ (Phase.shown none).plain rest := by
  have hbar (rest : List Char) : (Phase.shown none).plain
      (' ' :: ((paint color .blueBold " | ").toList ++ rest)) =
        "  | ".toList ++ (Phase.shown none).plain rest := by
    rw [← List.singleton_append, Phase.plain_append (List.all_eq_true.mp rfl),
      Phase.plain_paint (List.all_eq_true.mp rfl)]
    rfl
  cases numbered with
  | true =>
    refine ⟨(toString d.line).toList, String.length_toList, fun rest => ?_⟩
    simp only [gutter, if_true, String.toList_append, List.append_assoc]
    rw [Phase.plain_paint (fun c hc => isShown_of_mem_number hc)]
    exact congrArg (_ ++ ·) (hbar rest)
  | false =>
    refine ⟨List.replicate (toString d.line).length ' ', List.length_replicate, fun rest => ?_⟩
    simp only [gutter, Bool.false_eq_true, if_false, String.toList_append, String.toList_ofList,
      List.append_assoc]
    rw [Phase.plain_append (fun c hc => isShown_of_mem_replicate (by decide) hc)]
    exact congrArg (_ ++ ·) (hbar rest)

/-- What is shown under a statement are spaces, a caret and tildes, and after them advice. -/
theorem plain_indicator (color : Bool) (d : Diagnostic) :
    ∃ advice : List Char, (Phase.shown none).plain (d.indicator color).toList =
      List.replicate (indent d.text.toList) ' ' ++
        ('^' :: List.replicate ((trim d.text.toList).length - 1) '~') ++ ' ' :: advice := by
  have hspaces : ∀ c ∈ List.replicate (indent d.text.toList) ' ', isShown c = true :=
    fun c hc => isShown_of_mem_replicate (by decide) hc
  have htildes : ∀ c ∈ (tildes d.text.toList).toList, isShown c = true := by
    rw [tildes, String.toList_ofList]
    exact fun c hc => isShown_of_mem_replicate (by decide) hc
  have hcaret : ∀ c ∈ "^".toList, isShown c = true := List.all_eq_true.mp rfl
  have hgap : ∀ c ∈ " ".toList, isShown c = true := List.all_eq_true.mp rfl
  obtain ⟨hint, hline⟩ : ∃ hint : String, d.indicator color =
      String.ofList (List.replicate (indent d.text.toList) ' ') ++ paint color .redBold "^" ++
        paint color .red (tildes d.text.toList) ++ " " ++ hint := ⟨_, rfl⟩
  refine ⟨(Phase.shown none).plain hint.toList, ?_⟩
  simp only [hline, String.toList_append, String.toList_ofList, List.append_assoc]
  rw [Phase.plain_append hspaces, Phase.plain_paint hcaret, Phase.plain_paint htildes,
    Phase.plain_append hgap]
  have htexts : "^".toList = ['^'] ∧ " ".toList = [' '] := ⟨rfl, rfl⟩
  simp only [htexts, tildes, String.toList_ofList, List.cons_append, List.nil_append]

end Diagnostic

section Width

open Expression

variable {cs : List Char}

theorem length_le_byteLength (cs : List Char) : cs.length ≤ byteLength cs := by
  induction cs with
  | nil => exact Nat.le_refl 0
  | cons c cs ih =>
    have hpos := c.utf8Size_pos
    rw [List.length_cons, byteLength]
    omega

/-- Characters are as many as their bytes if each of them takes one. -/
theorem byteLength_eq_length_iff : byteLength cs = cs.length ↔ ∀ c ∈ cs, c.toNat < 128 := by
  induction cs with
  | nil => simp [byteLength]
  | cons c cs ih =>
    have hpos := c.utf8Size_pos
    have hle := length_le_byteLength cs
    have hone : c.utf8Size = 1 ↔ c.toNat < 128 := by
      rw [Char.utf8Size_eq_one_iff, UInt32.le_iff_toNat_le]
      exact Nat.lt_succ_iff.symm
    rw [List.forall_mem_cons, ← ih, ← hone, byteLength, List.length_cons]
    omega

/-- The first character that is no blank has as many characters before it as there are blanks. -/
theorem findIdx_eq_length (line : List Char) :
    line.findIdx (fun c => !isBlank c) = (line.takeWhile isBlank).length := by
  rw [List.takeWhile_eq_take_findIdx_not, List.length_take,
    Nat.min_eq_left List.findIdx_le_length]

end Width

namespace Diagnostic

/-- The line shown and the marks under it. The gutters of both are equally wide, and the marks are
a caret and tildes, together as many as the statement has characters, but at least one. The
caret is never to the left of the statement, and it is in the column of its first character
exactly if the blanks before the statement are all ASCII. -/
theorem caret_position (color : Bool) (d : Diagnostic) :
    [d.gutter color true ++ d.text, d.gutter color false ++ d.indicator color] <:+:
        d.lines color ∧
      (plain (d.gutter color true)).length = (plain (d.gutter color false)).length ∧
      (∃ marks advice : List Char,
        (plain (d.gutter color false ++ d.indicator color)).toList =
          (plain (d.gutter color false)).toList ++ List.replicate (indent d.text.toList) ' ' ++
            marks ++ ' ' :: advice ∧
        marks.head? = some '^' ∧ (∀ c ∈ marks.tail, c = '~') ∧
        marks.length = max 1 (trim d.text.toList).length) ∧
      d.text.toList.findIdx (fun c => !isBlank c) ≤ indent d.text.toList ∧
      (indent d.text.toList = d.text.toList.findIdx (fun c => !isBlank c) ↔
        ∀ c ∈ d.text.toList.takeWhile isBlank, c.toNat < 128) := by
  have hplain (text : String) : (plain text).toList = (Phase.shown none).plain text.toList :=
    String.toList_ofList
  have hgutter (numbered : Bool) := plain_gutter color d numbered
  refine ⟨?_, ?_, ?_, ?_, ?_⟩
  · rw [lines, List.append_assoc _ (d.neighbour color d.next?)]
    exact List.infix_append ..
  · have hwidth (numbered : Bool) :
        (plain (d.gutter color numbered)).length = (toString d.line).length + 4 := by
      obtain ⟨field, hfield, happend⟩ := hgutter numbered
      have hwhole := happend []
      rw [List.append_nil, ← hplain] at hwhole
      rw [← String.length_toList, hwhole]
      simp [hfield, Phase.plain]
    rw [hwidth, hwidth]
  · obtain ⟨field, -, happend⟩ := hgutter false
    obtain ⟨advice, hindicator⟩ := plain_indicator color d
    refine ⟨'^' :: List.replicate ((trim d.text.toList).length - 1) '~', advice, ?_, rfl,
      fun c hc => List.eq_of_mem_replicate hc, ?_⟩
    · have hwhole := happend []
      rw [List.append_nil] at hwhole
      rw [hplain, hplain, String.toList_append, happend, hindicator, hwhole]
      simp [Phase.plain]
    · rw [List.length_cons, List.length_replicate]
      omega
  · rw [findIdx_eq_length]
    exact length_le_byteLength _
  · rw [findIdx_eq_length]
    exact byteLength_eq_length_iff

/-- Under a no-break space the caret goes astray, under a tab and a space it does not. -/
theorem caret_position_wide_blank :
    let wide : Diagnostic := ⟨"a", ["\u00a0fly;"], 1, "Line is not a statement", none⟩
    let narrow : Diagnostic := ⟨"a", ["\t fly;"], 1, "Line is not a statement", none⟩
    indent wide.text.toList ≠ wide.text.toList.findIdx (fun c => !isBlank c) ∧
      indent narrow.text.toList = narrow.text.toList.findIdx (fun c => !isBlank c) := by
  intro wide narrow
  constructor
  · intro hequal
    have hascii := (caret_position false wide).2.2.2.2.mp hequal
    exact absurd (hascii '\u00a0' (by decide)) (by decide)
  · apply (caret_position false narrow).2.2.2.2.mpr
    intro c hc
    have hcases : c = '\t' ∨ c = ' ' := by
      have hblanks : narrow.text.toList.takeWhile isBlank = ['\t', ' '] := by decide
      rw [hblanks] at hc
      simpa using hc
    rcases hcases with rfl | rfl <;> decide

end Diagnostic

end GridRover.Console
