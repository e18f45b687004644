import GridRover.Proofs.Number.Word
import GridRover.Proofs.Text
import GridRover.Script.Recognition
import Mathlib.Data.List.Basic
import Mathlib.Data.List.Induction
import Mathlib.Data.Nat.Digits.Defs

/-!
# The grammar of lines

`Spells line s` says how a line may be written for the statement `s`, without saying how
it is read. Each pattern recognises one rule of the grammar and nothing else.
-/
namespace GridRover.Script

open Text

theorem Keyword.ofText?_eq_some_iff {text : String} {keyword : Keyword} :
    Keyword.ofText? text = some keyword ↔ keyword.text = text := by
  constructor
  · intro h
    simpa using List.find?_some h
  · rintro rfl
    exact Keyword.ofText?_text keyword

theorem Keyword.ofText?_ofList_iff {cs : List Char} {keyword : Keyword} :
    Keyword.ofText? (String.ofList cs) = some keyword ↔ cs = keyword.text.toList := by
  rw [Keyword.ofText?_eq_some_iff, ← String.toList_inj, String.toList_ofList, eq_comm]

theorem Keyword.isName_text (keyword : Keyword) : isName keyword.text.toList = true := by
  cases keyword with
  | direction d => cases d <;> decide
  | goto => decide
  | type t => cases t <;> decide

theorem Keyword.any_isDigit_text (keyword : Keyword) :
    keyword.text.toList.any Char.isDigit = false := by
  cases keyword with
  | direction d => cases d <;> decide
  | goto => decide
  | type t => cases t <;> decide

theorem Keyword.direction?_eq_some_iff {keyword : Keyword} {direction : Direction} :
    keyword.direction? = some direction ↔ keyword = .direction direction := by
  cases keyword <;> simp [Keyword.direction?]

theorem Keyword.type?_eq_some_iff {keyword : Keyword} {type : VariableType} :
    keyword.type? = some type ↔ keyword = .type type := by
  cases keyword <;> simp [Keyword.type?]

/-- An assignment cannot be taken for the end of the name before it. -/
theorem Assignment.exists_text (assignment : Assignment) :
    ∃ c cs, assignment.text.toList = c :: cs ∧ isBlank c = false ∧ isNameChar c = false := by
  cases assignment with
  | plain => exact ⟨'=', [], rfl, by decide, by decide⟩
  | compound op => cases op <;> exact ⟨_, ['='], rfl, by decide, by decide⟩

namespace Statement

/-- A name that is no keyword. -/
structure IsVariable (name : String) : Prop where
  isName : isName name.toList = true
  ne_keyword : ∀ keyword : Keyword, name ≠ keyword.text

/-- What a digit stands for. -/
def digitWorth : Char → Nat
  | '0' => 0
  | '1' => 1
  | '2' => 2
  | '3' => 3
  | '4' => 4
  | '5' => 5
  | '6' => 6
  | '7' => 7
  | '8' => 8
  | '9' => 9
  | _ => 0

/-- The integers as they are written after a jump. -/
inductive Literal : List Char → Int → Prop
  | plain {digits : List Char} (hne : digits ≠ []) (hdigits : ∀ c ∈ digits, c.isDigit = true) :
    Literal digits (Nat.ofDigits 10 (digits.reverse.map digitWorth) : Nat)
  | negative {digits : List Char} (hne : digits ≠ [])
    (hdigits : ∀ c ∈ digits, c.isDigit = true) :
    Literal ('-' :: digits) (-(Nat.ofDigits 10 (digits.reverse.map digitWorth) : Nat))

/-- What stands before the semicolon. An expression may have blanks around it; they are no
part of the statement. -/
inductive Phrase : List Char → Statement → Prop
  | move (direction : Direction) : Phrase direction.name.toList (.move direction)
  | goto {w literal : List Char} {n : Int} (hw : Blanks w) (hliteral : Literal literal n) :
    Phrase ("goto".toList ++ w ++ literal) (.goto (max (-2 ^ 63) (min n (2 ^ 63 - 1))))
  | initialized {w v text : List Char} {name expression : String} (type : VariableType)
    (hw : Blanks w) (hgap : w ≠ []) (hname : IsVariable name) (hv : Blanks v)
    (htext : Strips text expression.toList) (hne : expression ≠ "") :
    Phrase (type.name.toList ++ w ++ name.toList ++ v ++ '=' :: text)
      (.declaration type name (some expression))
  | uninitialized {w : List Char} {name : String} (type : VariableType)
    (hw : Blanks w) (hgap : w ≠ []) (hname : IsVariable name) :
    Phrase (type.name.toList ++ w ++ name.toList) (.declaration type name none)
  | update {w text : List Char} {name expression : String} (assignment : Assignment)
    (hname : IsVariable name) (hw : Blanks w)
    (htext : Strips text expression.toList) (hne : expression ≠ "") :
    Phrase (name.toList ++ w ++ assignment.text.toList ++ text)
      (.update name assignment expression)

/-- How the lines of a statement are written. -/
inductive Spells : List Char → Statement → Prop
  | closed {w v u phrase : List Char} {s : Statement} (hphrase : Phrase phrase s)
    (hw : Blanks w) (hv : Blanks v) (hu : Blanks u) : Spells (w ++ phrase ++ v ++ ';' :: u) s
  | blank {line : List Char} (h : Blanks line) : Spells line .blank

/-- The body stands before the last semicolon, with blanks at most around both. -/
theorem body?_eq_some_iff {line body : List Char} :
    body? line = some body ↔ StartsSolid body ∧ EndsSolid body ∧
      ∃ w v u, Blanks w ∧ Blanks v ∧ Blanks u ∧ line = w ++ body ++ v ++ ';' :: u := by
  constructor
  · intro h
    simp only [body?, Option.ite_none_right_eq_some, Option.some.injEq] at h
    obtain ⟨hlast, hbody⟩ := h
    obtain ⟨hend, v, hv, hfront⟩ := trimEnd_eq_iff.mp hbody
    obtain ⟨front, hclosed⟩ := List.getLast?_eq_some_iff.mp hlast
    rw [hclosed, List.dropLast_concat] at hfront
    subst hfront
    obtain ⟨hstart, -, w, u, hw, hu, rfl⟩ := trim_eq_iff.mp hclosed
    refine ⟨?_, hend, w, v, u, hw, hv, hu, by simp⟩
    by_cases hnil : body = []
    · rw [hnil]
      exact startsSolid_nil
    · rwa [List.append_assoc, startsSolid_append hnil] at hstart
  · rintro ⟨hstart, hend, w, v, u, hw, hv, hu, rfl⟩
    have hsemicolon : EndsSolid (body ++ v ++ [';']) := endsSolid_concat.mpr (by decide)
    -- A line without a body loses the blanks before the semicolon as well.
    by_cases hnil : body = []
    · subst hnil
      have htrim : trim (w ++ [] ++ v ++ ';' :: u) = [';'] :=
        trim_eq_iff.mpr ⟨startsSolid_cons.mpr (by decide), (@endsSolid_concat ';' []).mpr (by decide),
          w ++ v, u, blanks_append.mpr ⟨hw, hv⟩, hu, by simp⟩
      simp only [body?, htrim]
      rfl
    · have htrim : trim (w ++ body ++ v ++ ';' :: u) = body ++ v ++ [';'] := by
        refine trim_eq_iff.mpr ⟨?_, hsemicolon, w, u, hw, hu, by simp⟩
        rwa [List.append_assoc, startsSolid_append hnil]
      simp only [body?, htrim, List.getLast?_concat, if_true, List.dropLast_concat]
      exact congrArg some (trimEnd_eq_iff.mpr ⟨hend, v, hv, rfl⟩)

theorem isReserved_eq_false_iff {text : String} :
    isReserved text = false ↔ ∀ keyword : Keyword, text ≠ keyword.text := by
  rw [isReserved, Option.isSome_eq_false_iff, Option.isNone_iff_eq_none,
    Option.eq_none_iff_forall_ne_some]
  exact forall_congr' fun keyword => not_congr (Keyword.ofText?_eq_some_iff.trans eq_comm)

theorem splitVariable?_eq_some_iff {cs name rest : List Char} :
    splitVariable? cs = some (name, rest) ↔
      IsVariable (String.ofList name) ∧ Stops isNameChar rest ∧ cs = name ++ rest := by
  constructor
  · intro h
    obtain ⟨⟨word, after⟩, hsplit, hword⟩ := Option.bind_eq_some_iff.mp h
    obtain ⟨hname, hstop, rfl⟩ := splitName?_eq_some_iff.mp hsplit
    by_cases hreserved : isReserved (String.ofList word) = true
    · simp [hreserved] at hword
    · simp only [hreserved] at hword
      cases hword
      refine ⟨⟨by rwa [String.toList_ofList], ?_⟩, hstop, rfl⟩
      exact isReserved_eq_false_iff.mp (Bool.of_not_eq_true hreserved)
  · rintro ⟨⟨hname, hfree⟩, hstop, rfl⟩
    rw [String.toList_ofList] at hname
    refine Option.bind_eq_some_iff.mpr
      ⟨(name, rest), splitName?_eq_some_iff.mpr ⟨hname, hstop, rfl⟩, ?_⟩
    simp [isReserved_eq_false_iff.mpr hfree]

theorem splitDeclaration?_eq_some_iff {body name rest : List Char} {type : VariableType} :
    splitDeclaration? body = some (type, name, rest) ↔
      IsVariable (String.ofList name) ∧ StartsSolid rest ∧ ∃ w v, Blanks w ∧ w ≠ [] ∧ Blanks v ∧
        Stops isNameChar (v ++ rest) ∧ body = type.name.toList ++ (w ++ (name ++ (v ++ rest))) := by
  constructor
  · intro h
    obtain ⟨⟨word, after⟩, hword, h⟩ := Option.bind_eq_some_iff.mp h
    obtain ⟨keyword, hkeyword, h⟩ := Option.bind_eq_some_iff.mp h
    obtain ⟨found, hfound, h⟩ := Option.bind_eq_some_iff.mp h
    rw [Option.ite_none_right_eq_some] at h
    obtain ⟨hblank, h⟩ := h
    obtain ⟨⟨name, tail⟩, hvariable, h⟩ := Option.bind_eq_some_iff.mp h
    cases h
    obtain ⟨-, -, rfl⟩ := splitName?_eq_some_iff.mp hword
    obtain ⟨hname, hstop, hafter⟩ := splitVariable?_eq_some_iff.mp hvariable
    obtain ⟨hsolid, w, hw, rfl⟩ := trimStart_eq_iff.mp hafter
    obtain ⟨hrest, v, hv, htail⟩ := trimStart_eq_iff.mp (rfl : trimStart tail = trimStart tail)
    have hgap : w ≠ [] := (any_isBlank_head?_append hw hsolid).mp hblank
    rw [Keyword.type?_eq_some_iff] at hfound
    subst hfound
    have htext : word = type.name.toList := Keyword.ofText?_ofList_iff.mp hkeyword
    refine ⟨hname, hrest, w, v, hw, hgap, hv, by rwa [← htail], ?_⟩
    rw [htext, ← htail]
  · rintro ⟨hname, hrest, w, v, hw, hgap, hv, hstop, rfl⟩
    have hsolid : StartsSolid (name ++ (v ++ rest)) :=
      startsSolid_name (by simpa using hname.isName) _
    have hword : splitName? (type.name.toList ++ (w ++ (name ++ (v ++ rest)))) =
        some (type.name.toList, w ++ (name ++ (v ++ rest))) :=
      splitName?_eq_some_iff.mpr
        ⟨Keyword.isName_text (.type type), stops_gap hw hgap _, rfl⟩
    have hkeyword : Keyword.ofText? type.name = some (.type type) :=
      Keyword.ofText?_text (.type type)
    have hafter : trimStart (w ++ (name ++ (v ++ rest))) = name ++ (v ++ rest) :=
      trimStart_eq_iff.mpr ⟨hsolid, w, hw, rfl⟩
    have hvariable : splitVariable? (name ++ (v ++ rest)) = some (name, v ++ rest) :=
      splitVariable?_eq_some_iff.mpr ⟨hname, hstop, rfl⟩
    have htail : trimStart (v ++ rest) = rest := trimStart_eq_iff.mpr ⟨hrest, v, hv, rfl⟩
    have hblank := (any_isBlank_head?_append hw hsolid).mpr hgap
    simp only [splitDeclaration?, hword, String.ofList_toList, hkeyword, Keyword.type?, hblank,
      hafter, hvariable, htail, Option.bind_eq_bind, Option.bind_some, if_true]

theorem expression?_eq_some_iff {cs : List Char} {expression : String} :
    expression? cs = some expression ↔ Strips cs expression.toList ∧ expression ≠ "" := by
  constructor
  · intro h
    simp only [expression?, Option.ite_none_left_eq_some, Option.some.injEq] at h
    obtain ⟨hne, rfl⟩ := h
    refine ⟨by simpa using trim_eq_iff.mp rfl, ?_⟩
    simpa [← String.toList_eq_nil_iff] using hne
  · rintro ⟨hstrips, hne⟩
    have htrim := trim_eq_iff.mpr hstrips
    simp [expression?, htrim, hne]

theorem digitValue_eq_digitWorth {c : Char} (h : c.isDigit = true) :
    Number.digitValue c = digitWorth c := by
  have hcode : 48 ≤ c.toNat ∧ c.toNat ≤ 57 := Char.isDigit_iff_toNat.mp h
  have hcases : c.toNat = 48 ∨ c.toNat = 49 ∨ c.toNat = 50 ∨ c.toNat = 51 ∨ c.toNat = 52 ∨
      c.toNat = 53 ∨ c.toNat = 54 ∨ c.toNat = 55 ∨ c.toNat = 56 ∨ c.toNat = 57 := by omega
  rcases hcases with hc | hc | hc | hc | hc | hc | hc | hc | hc | hc <;>
    rw [← c.ofNat_toNat, hc] <;> rfl

theorem naturalOf_eq_ofDigits {digits : List Char} (h : ∀ c ∈ digits, c.isDigit = true) :
    Number.naturalOf digits = Nat.ofDigits 10 (digits.reverse.map digitWorth) := by
  induction digits using List.reverseRecOn with
  | nil => rfl
  | append_singleton digits c ih =>
    have hfront := ih fun d hd => h d (List.mem_append_left [c] hd)
    have hlast := digitValue_eq_digitWorth (h c (by simp))
    rw [Number.naturalOf, List.foldl_concat, ← Number.naturalOf, hfront, hlast]
    simp [Nat.ofDigits_cons, add_comm]

theorem target?_negative (digits : List Char) :
    target? ('-' :: digits) = if digits ≠ [] ∧ digits.all Char.isDigit then
      some (max (-2 ^ 63) (min (-(Number.naturalOf digits : Int)) (2 ^ 63 - 1))) else none := by
  have hnearest := Number.wordOf?_getD true digits
  simp only [target?, hnearest, Number.onSide]

theorem target?_plain {literal : List Char} (h : literal.head? ≠ some '-') :
    target? literal = if literal ≠ [] ∧ literal.all Char.isDigit then
      some (max (-2 ^ 63) (min (Number.naturalOf literal : Int) (2 ^ 63 - 1))) else none := by
  cases literal with
  | nil => rfl
  | cons c digits =>
    have hminus : c ≠ '-' := by simpa using h
    have hnearest := Number.wordOf?_getD false (c :: digits)
    simp [target?, hminus, hnearest, Number.onSide]

theorem target?_eq_some_iff {literal : List Char} {target : Int} :
    target? literal = some target ↔
      ∃ n, Literal literal n ∧ target = max (-2 ^ 63) (min n (2 ^ 63 - 1)) := by
  constructor
  · intro h
    by_cases hminus : literal.head? = some '-'
    · obtain ⟨digits, rfl⟩ := List.head?_eq_some_iff.mp hminus
      rw [target?_negative, Option.ite_none_right_eq_some, List.all_eq_true] at h
      obtain ⟨⟨hne, hdigits⟩, hvalue⟩ := h
      rw [naturalOf_eq_ofDigits hdigits] at hvalue
      exact ⟨_, .negative hne hdigits, (Option.some.inj hvalue).symm⟩
    · rw [target?_plain hminus, Option.ite_none_right_eq_some, List.all_eq_true] at h
      obtain ⟨⟨hne, hdigits⟩, hvalue⟩ := h
      rw [naturalOf_eq_ofDigits hdigits] at hvalue
      exact ⟨_, .plain hne hdigits, (Option.some.inj hvalue).symm⟩
  · rintro ⟨n, hliteral, rfl⟩
    cases hliteral with
    | plain hne hdigits =>
      have hminus : literal.head? ≠ some '-' := by
        intro hhead
        have hdigit := hdigits '-' (List.mem_of_head? hhead)
        exact absurd hdigit (by decide)
      rw [target?_plain hminus, if_pos ⟨hne, List.all_eq_true.mpr hdigits⟩,
        naturalOf_eq_ofDigits hdigits]
    | negative hne hdigits =>
      rw [target?_negative, if_pos ⟨hne, List.all_eq_true.mpr hdigits⟩,
        naturalOf_eq_ofDigits hdigits]

theorem splitAssignment?_eq_some_iff {cs rest : List Char} {assignment : Assignment} :
    splitAssignment? cs = some (assignment, rest) ↔ cs = assignment.text.toList ++ rest := by
  constructor
  · intro h
    obtain ⟨tried, -, hprefix⟩ := List.exists_of_findSome?_eq_some h
    obtain ⟨after, hafter, heq⟩ := Option.map_eq_some_iff.mp hprefix
    cases heq
    exact (List.isPrefixOf?_eq_some_iff_append_eq.mp hafter).symm
  · rintro rfl
    cases assignment with
    | plain => rfl
    | compound op => cases op <;> rfl

end Statement

end GridRover.Script
