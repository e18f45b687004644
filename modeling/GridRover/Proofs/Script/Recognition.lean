import GridRover.Proofs.Script.Grammar

/-!
# Lines are recognised by the grammar

Every pattern reads the lines of one form of statement. The form of a line can be told
from the word its body starts with, so no line fits two patterns and the order in which
they are tried does not matter.
-/
namespace GridRover.Script.Statement

open Text

/-- The forms of statements, one for each pattern. -/
inductive Form
  | movement
  | goto
  | initialized
  | uninitialized
  | update
  | blank
  deriving DecidableEq

/-- The form a statement is written in. -/
def form : Statement → Form
  | .move _ => .movement
  | .goto _ => .goto
  | .declaration _ _ (some _) => .initialized
  | .declaration _ _ none => .uninitialized
  | .update _ _ _ => .update
  | .blank => .blank

theorem Literal.solid {literal : List Char} {n : Int} (h : Literal literal n) :
    literal ≠ [] ∧ StartsSolid literal ∧ EndsSolid literal := by
  have hdigit {c : Char} (hc : c.isDigit = true) : isBlank c = false :=
    isBlank_of_isNameChar (isNameChar_of_isDigit hc)
  cases h with
  | plain hne hdigits =>
    exact ⟨hne, fun c hc => hdigit (hdigits c (List.mem_of_head? hc)),
      fun c hc => hdigit (hdigits c (List.mem_of_getLast? hc))⟩
  | @negative digits hne hdigits =>
    refine ⟨by simp, startsSolid_cons.mpr (by decide), ?_⟩
    refine (endsSolid_append hne ['-']).mpr ?_
    exact fun c hc => hdigit (hdigits c (List.mem_of_getLast? hc))

/-- What stands in a phrase after its last solid character can be left out. -/
theorem Phrase.exists_body {phrase : List Char} {s : Statement} (h : Phrase phrase s) :
    ∃ body v, Phrase body s ∧ StartsSolid body ∧ EndsSolid body ∧ Blanks v ∧
      phrase = body ++ v := by
  cases h with
  | move direction =>
    have hname : isName direction.name.toList = true :=
      Keyword.isName_text (.direction direction)
    refine ⟨_, [], .move direction, ?_, endsSolid_name hname [], blanks_nil, by simp⟩
    simpa using startsSolid_name hname []
  | goto hw hliteral =>
    obtain ⟨hne, -, hend⟩ := hliteral.solid
    refine ⟨_, [], .goto hw hliteral, ?_, (endsSolid_append hne _).mpr hend, blanks_nil, by simp⟩
    rw [List.append_assoc]
    exact startsSolid_name (Keyword.isName_text .goto) _
  | initialized type hw hgap hname hv htext hne =>
    obtain ⟨front, u, hfront, hnil, hend, hu, rfl⟩ := htext.exists_front (by simpa using hne)
    refine ⟨_, u, .initialized type hw hgap hname hv hfront hne, ?_, ?_, hu, by simp⟩
    · simp only [List.append_assoc]
      exact startsSolid_name (Keyword.isName_text (.type type)) _
    · rw [← List.singleton_append, ← List.append_assoc]
      exact (endsSolid_append hnil _).mpr hend
  | uninitialized type hw hgap hname =>
    refine ⟨_, [], .uninitialized type hw hgap hname, ?_, endsSolid_name hname.isName _,
      blanks_nil, by simp⟩
    rw [List.append_assoc]
    exact startsSolid_name (Keyword.isName_text (.type type)) _
  | update assignment hname hw htext hne =>
    obtain ⟨front, u, hfront, hnil, hend, hu, rfl⟩ := htext.exists_front (by simpa using hne)
    refine ⟨_, u, .update assignment hname hw hfront hne, ?_, (endsSolid_append hnil _).mpr hend,
      hu, by simp⟩
    simp only [List.append_assoc]
    exact startsSolid_name hname.isName _

/-- A line with a semicolon is spelled right when its body is a phrase. -/
theorem spells_iff_body {line : List Char} {s : Statement} (hs : s ≠ .blank) :
    Spells line s ↔ ∃ body, body? line = some body ∧ Phrase body s := by
  constructor
  · intro h
    cases h with
    | closed hphrase hw hv hu =>
      obtain ⟨body, t, hbody, hstart, hend, ht, rfl⟩ := hphrase.exists_body
      refine ⟨body, body?_eq_some_iff.mpr ⟨hstart, hend, _, _, _, hw,
        blanks_append.mpr ⟨ht, hv⟩, hu, ?_⟩, hbody⟩
      simp
    | blank => exact absurd rfl hs
  · rintro ⟨body, hbody, hphrase⟩
    obtain ⟨-, -, w, v, u, hw, hv, hu, rfl⟩ := body?_eq_some_iff.mp hbody
    exact .closed hphrase hw hv hu

theorem movement?_eq_some_iff {line : List Char} {s : Statement} :
    movement? line = some s ↔
      ∃ body, body? line = some body ∧ Phrase body s ∧ s.form = .movement := by
  constructor
  · intro h
    obtain ⟨body, hbody, h⟩ := Option.bind_eq_some_iff.mp h
    obtain ⟨keyword, hkeyword, h⟩ := Option.bind_eq_some_iff.mp h
    obtain ⟨direction, hdirection, h⟩ := Option.bind_eq_some_iff.mp h
    cases h
    rw [Keyword.direction?_eq_some_iff] at hdirection
    subst hdirection
    have htext : body = direction.name.toList := Keyword.ofText?_ofList_iff.mp hkeyword
    exact ⟨body, hbody, htext ▸ .move direction, rfl⟩
  · rintro ⟨body, hbody, hphrase, hform⟩
    cases hphrase with
    | move direction =>
      have hkeyword : Keyword.ofText? direction.name = some (.direction direction) :=
        Keyword.ofText?_text (.direction direction)
      simp [movement?, hbody, hkeyword, Keyword.direction?]
    | _ => cases hform

theorem goto?_eq_some_iff {line : List Char} {s : Statement} :
    goto? line = some s ↔
      ∃ body, body? line = some body ∧ Phrase body s ∧ s.form = .goto := by
  constructor
  · intro h
    obtain ⟨body, hbody, h⟩ := Option.bind_eq_some_iff.mp h
    obtain ⟨rest, hrest, h⟩ := Option.bind_eq_some_iff.mp h
    obtain ⟨target, htarget, h⟩ := Option.bind_eq_some_iff.mp h
    cases h
    rw [List.isPrefixOf?_eq_some_iff_append_eq] at hrest
    subst hrest
    obtain ⟨n, hliteral, rfl⟩ := target?_eq_some_iff.mp htarget
    obtain ⟨-, w, hw, hsplit⟩ := trimStart_eq_iff.mp (rfl : trimStart rest = trimStart rest)
    refine ⟨_, hbody, ?_, rfl⟩
    rw [hsplit, ← List.append_assoc]
    exact .goto hw hliteral
  · rintro ⟨body, hbody, hphrase, hform⟩
    cases hphrase with
    | @goto w literal n hw hliteral =>
      have hrest : Keyword.goto.text.toList.isPrefixOf? ("goto".toList ++ w ++ literal) =
          some (w ++ literal) := by
        rw [List.isPrefixOf?_eq_some_iff_append_eq, List.append_assoc]
        rfl
      have htrim : trimStart (w ++ literal) = literal :=
        trimStart_eq_iff.mpr ⟨hliteral.solid.2.1, w, hw, rfl⟩
      have htarget := target?_eq_some_iff.mpr ⟨n, hliteral, rfl⟩
      simp only [goto?, hbody, hrest, htrim, htarget, Option.bind_eq_bind, Option.bind_some]
    | _ => cases hform

theorem initialized?_eq_some_iff {line : List Char} {s : Statement} :
    initialized? line = some s ↔
      ∃ body, body? line = some body ∧ Phrase body s ∧ s.form = .initialized := by
  constructor
  · intro h
    obtain ⟨body, hbody, h⟩ := Option.bind_eq_some_iff.mp h
    obtain ⟨⟨type, name, after⟩, hsplit, h⟩ := Option.bind_eq_some_iff.mp h
    obtain ⟨text, htext, h⟩ := Option.bind_eq_some_iff.mp h
    obtain ⟨expression, hexpression, h⟩ := Option.bind_eq_some_iff.mp h
    cases h
    rw [List.isPrefixOf?_eq_some_iff_append_eq] at htext
    subst htext
    obtain ⟨hname, -, w, v, hw, hgap, hv, -, rfl⟩ := splitDeclaration?_eq_some_iff.mp hsplit
    obtain ⟨hstrips, hne⟩ := expression?_eq_some_iff.mp hexpression
    refine ⟨_, hbody, ?_, rfl⟩
    simpa using Phrase.initialized type hw hgap hname hv hstrips hne
  · rintro ⟨body, hbody, hphrase, hform⟩
    cases hphrase with
    | @initialized w v text name expression type hw hgap hname hv htext hne =>
      have hsplit : splitDeclaration? (type.name.toList ++ w ++ name.toList ++ v ++ '=' :: text) =
          some (type, name.toList, '=' :: text) := by
        refine splitDeclaration?_eq_some_iff.mpr ⟨by simpa using hname,
          startsSolid_cons.mpr (by decide), w, v, hw, hgap, hv, ?_, by simp⟩
        exact stops_blanks hv (stops_cons.mpr (by decide))
      have hrest : ['='].isPrefixOf? ('=' :: text) = some text :=
        List.isPrefixOf?_eq_some_iff_append_eq.mpr rfl
      have hexpression := expression?_eq_some_iff.mpr ⟨htext, hne⟩
      simp only [initialized?, hbody, hsplit, hrest, hexpression, Option.bind_eq_bind,
        Option.bind_some, String.ofList_toList]
    | _ => cases hform

theorem uninitialized?_eq_some_iff {line : List Char} {s : Statement} :
    uninitialized? line = some s ↔
      ∃ body, body? line = some body ∧ Phrase body s ∧ s.form = .uninitialized := by
  constructor
  · intro h
    obtain ⟨body, hbody, h⟩ := Option.bind_eq_some_iff.mp h
    obtain ⟨⟨type, name, after⟩, hsplit, h⟩ := Option.bind_eq_some_iff.mp h
    rw [Option.ite_none_right_eq_some] at h
    obtain ⟨rfl, h⟩ := h
    cases h
    obtain ⟨hname, -, w, v, hw, hgap, hv, -, rfl⟩ := splitDeclaration?_eq_some_iff.mp hsplit
    -- No blank ends the body, so nothing follows the name.
    obtain ⟨-, hend, -⟩ := body?_eq_some_iff.mp hbody
    simp only [List.append_nil, ← List.append_assoc] at hbody hend ⊢
    obtain rfl := eq_nil_of_endsSolid hv hend
    refine ⟨_, hbody, ?_, rfl⟩
    simpa using Phrase.uninitialized type hw hgap hname
  · rintro ⟨body, hbody, hphrase, hform⟩
    cases hphrase with
    | @uninitialized w name type hw hgap hname =>
      have hsplit : splitDeclaration? (type.name.toList ++ w ++ name.toList) =
          some (type, name.toList, []) :=
        splitDeclaration?_eq_some_iff.mpr ⟨by simpa using hname, startsSolid_nil, w, [], hw, hgap,
          blanks_nil, stops_nil _, by simp⟩
      simp only [uninitialized?, hbody, hsplit, Option.bind_eq_bind, Option.bind_some, if_true,
        String.ofList_toList]
    | _ => cases hform

theorem update?_eq_some_iff {line : List Char} {s : Statement} :
    update? line = some s ↔
      ∃ body, body? line = some body ∧ Phrase body s ∧ s.form = .update := by
  constructor
  · intro h
    obtain ⟨body, hbody, h⟩ := Option.bind_eq_some_iff.mp h
    obtain ⟨⟨name, after⟩, hsplit, h⟩ := Option.bind_eq_some_iff.mp h
    obtain ⟨⟨assignment, text⟩, hassignment, h⟩ := Option.bind_eq_some_iff.mp h
    obtain ⟨expression, hexpression, h⟩ := Option.bind_eq_some_iff.mp h
    cases h
    obtain ⟨hname, -, rfl⟩ := splitVariable?_eq_some_iff.mp hsplit
    rw [splitAssignment?_eq_some_iff, trimStart_eq_iff] at hassignment
    obtain ⟨-, w, hw, rfl⟩ := hassignment
    obtain ⟨hstrips, hne⟩ := expression?_eq_some_iff.mp hexpression
    refine ⟨_, hbody, ?_, rfl⟩
    simpa using Phrase.update assignment hname hw hstrips hne
  · rintro ⟨body, hbody, hphrase, hform⟩
    cases hphrase with
    | @update w text name expression assignment hname hw htext hne =>
      obtain ⟨c, cs, hc, hsolid, hstop⟩ := assignment.exists_text
      have hsplit : splitVariable? (name.toList ++ w ++ assignment.text.toList ++ text) =
          some (name.toList, w ++ (assignment.text.toList ++ text)) := by
        refine splitVariable?_eq_some_iff.mpr ⟨by simpa using hname, stops_blanks hw ?_, by simp⟩
        rw [hc]
        exact stops_cons.mpr hstop
      have htrim : trimStart (w ++ (assignment.text.toList ++ text)) =
          assignment.text.toList ++ text := by
        refine trimStart_eq_iff.mpr ⟨?_, w, hw, rfl⟩
        rw [hc]
        exact startsSolid_cons.mpr hsolid
      have hassignment : splitAssignment? (assignment.text.toList ++ text) =
          some (assignment, text) := splitAssignment?_eq_some_iff.mpr rfl
      have hexpression := expression?_eq_some_iff.mpr ⟨htext, hne⟩
      simp only [update?, hbody, hsplit, htrim, hassignment, hexpression, Option.bind_eq_bind,
        Option.bind_some, String.ofList_toList]
    | _ => cases hform

theorem blank?_eq_some_iff {line : List Char} {s : Statement} :
    blank? line = some s ↔ Blanks line ∧ s = .blank := by
  rw [blank?, Option.ite_none_right_eq_some, trim_eq_nil_iff, Option.some.injEq, eq_comm]

/-- The pattern that reads the statements of a form. -/
def Form.pattern : Form → List Char → Option Statement
  | .movement => movement?
  | .goto => goto?
  | .initialized => initialized?
  | .uninitialized => uninitialized?
  | .update => update?
  | .blank => blank?

/-- A pattern reads all lines of its form, each to the statement it spells, and no others. -/
theorem Form.pattern_eq_some_iff (f : Form) {line : List Char} {s : Statement} :
    f.pattern line = some s ↔ Spells line s ∧ s.form = f := by
  have hclosed (hf : f ≠ .blank) : (∃ body, body? line = some body ∧ Phrase body s ∧ s.form = f) ↔
      Spells line s ∧ s.form = f := by
    simp only [← and_assoc, exists_and_right]
    refine and_congr_left fun hform => (spells_iff_body ?_).symm
    rintro rfl
    exact hf hform.symm
  cases f with
  | movement => exact movement?_eq_some_iff.trans (hclosed (by decide))
  | goto => exact goto?_eq_some_iff.trans (hclosed (by decide))
  | initialized => exact initialized?_eq_some_iff.trans (hclosed (by decide))
  | uninitialized => exact uninitialized?_eq_some_iff.trans (hclosed (by decide))
  | update => exact update?_eq_some_iff.trans (hclosed (by decide))
  | blank =>
    rw [Form.pattern, blank?_eq_some_iff]
    constructor
    · rintro ⟨hline, rfl⟩
      exact ⟨.blank hline, rfl⟩
    · rintro ⟨hspells, hform⟩
      cases hspells with
      | blank hline => exact ⟨hline, rfl⟩
      | closed hphrase => cases hphrase <;> cases hform

/-- The form of a line whose body starts with a word, told by the keyword the word is and by
what follows it. A word that is no keyword and stands alone is a jump without a gap. -/
def Form.ofLead : Option Keyword → List Char → Form
  | some (.direction _), _ => .movement
  | some .goto, _ => .goto
  | some (.type _), rest => if '=' ∈ rest then .initialized else .uninitialized
  | none, rest => if rest = [] then .goto else .update

/-- The only form a line can have. -/
def Form.ofLine (line : List Char) : Form :=
  match (body? line).bind splitName? with
  | some (word, rest) => Form.ofLead (Keyword.ofText? (String.ofList word)) rest
  | none => .blank

theorem Form.ofLine_of_lead {line word rest : List Char} (hbody : body? line = some (word ++ rest))
    (hword : isName word = true) (hrest : Stops isNameChar rest) :
    Form.ofLine line = Form.ofLead (Keyword.ofText? (String.ofList word)) rest := by
  have hsplit : splitName? (word ++ rest) = some (word, rest) :=
    splitName?_eq_some_iff.mpr ⟨hword, hrest, rfl⟩
  simp only [Form.ofLine, hbody, Option.bind_some, hsplit]

theorem Form.ofLine_of_keyword {line rest : List Char} {keyword : Keyword}
    (hbody : body? line = some (keyword.text.toList ++ rest)) (hrest : Stops isNameChar rest) :
    Form.ofLine line = Form.ofLead (some keyword) rest := by
  rw [Form.ofLine_of_lead hbody keyword.isName_text hrest, String.ofList_toList,
    Keyword.ofText?_text]

theorem ofText?_goto_digits {digits : List Char} (hne : digits ≠ [])
    (hdigits : ∀ c ∈ digits, c.isDigit = true) :
    Keyword.ofText? (String.ofList ("goto".toList ++ digits)) = none := by
  rw [Option.eq_none_iff_forall_ne_some]
  intro keyword hkeyword
  rw [Keyword.ofText?_ofList_iff] at hkeyword
  obtain ⟨c, hc⟩ := List.exists_mem_of_ne_nil digits hne
  have hnone := keyword.any_isDigit_text
  rw [← hkeyword, List.any_append, Bool.or_eq_false_iff] at hnone
  exact List.any_eq_false.mp hnone.2 c hc (hdigits c hc)

theorem Form.ofLine_goto {line w literal : List Char} {n : Int} (hw : Blanks w)
    (hliteral : Literal literal n)
    (hbody : body? line = some ("goto".toList ++ (w ++ literal))) :
    Form.ofLine line = .goto := by
  by_cases hstop : Stops isNameChar (w ++ literal)
  · have hlead : Form.ofLine line = Form.ofLead (some .goto) (w ++ literal) :=
      Form.ofLine_of_keyword hbody hstop
    exact hlead
  -- The number goes on where the word ends, so the two are one name.
  · cases hliteral with
    | negative => exact absurd (stops_blanks hw (stops_cons.mpr (by decide))) hstop
    | plain hne hdigits =>
      have hnil : w = [] := by
        by_contra hgap
        exact hstop (stops_gap hw hgap literal)
      subst hnil
      have hword : isName ("goto".toList ++ literal) = true :=
        isName_append (Keyword.isName_text .goto) fun c hc => isNameChar_of_isDigit (hdigits c hc)
      have halone : body? line = some ("goto".toList ++ literal ++ []) := by simpa using hbody
      rw [Form.ofLine_of_lead halone hword (stops_nil _), ofText?_goto_digits hne hdigits]
      rfl

theorem Form.ofLine_of_phrase {line body : List Char} {s : Statement}
    (hbody : body? line = some body) (hphrase : Phrase body s) : Form.ofLine line = s.form := by
  cases hphrase with
  | move direction =>
    have halone : body? line = some ((Keyword.direction direction).text.toList ++ []) := by
      rw [hbody, List.append_nil]
      rfl
    rw [Form.ofLine_of_keyword halone (stops_nil _)]
    rfl
  | goto hw hliteral =>
    rw [List.append_assoc] at hbody
    exact Form.ofLine_goto hw hliteral hbody
  | @initialized w v text name expression type hw hgap hname hv htext hne =>
    simp only [List.append_assoc] at hbody
    have hlead : Form.ofLine line =
        Form.ofLead (some (.type type)) (w ++ (name.toList ++ (v ++ '=' :: text))) :=
      Form.ofLine_of_keyword hbody (stops_gap hw hgap _)
    rw [hlead]
    exact if_pos (by simp)
  | @uninitialized w name type hw hgap hname =>
    rw [List.append_assoc] at hbody
    have hlead : Form.ofLine line = Form.ofLead (some (.type type)) (w ++ name.toList) :=
      Form.ofLine_of_keyword hbody (stops_gap hw hgap _)
    have hequals : '=' ∉ w ++ name.toList := by
      rw [List.mem_append]
      rintro (hmem | hmem)
      · exact absurd (hw '=' hmem) (by decide)
      · exact absurd (isNameChar_of_mem hname.isName hmem) (by decide)
    rw [hlead]
    exact if_neg hequals
  | @update w text name expression assignment hname hw htext hne =>
    simp only [List.append_assoc] at hbody
    obtain ⟨c, cs, hc, -, hstop⟩ := assignment.exists_text
    have hrest : Stops isNameChar (w ++ (assignment.text.toList ++ text)) := by
      rw [hc]
      exact stops_blanks hw (stops_cons.mpr hstop)
    have hfree : Keyword.ofText? name = none := by
      rw [Option.eq_none_iff_forall_ne_some]
      intro keyword hkeyword
      exact hname.ne_keyword keyword (Keyword.ofText?_eq_some_iff.mp hkeyword).symm
    rw [Form.ofLine_of_lead hbody hname.isName hrest, String.ofList_toList, hfree]
    exact if_neg (by simp [hc])

theorem Form.ofLine_of_spells {line : List Char} {s : Statement} (h : Spells line s) :
    Form.ofLine line = s.form := by
  by_cases hs : s = .blank
  · subst hs
    cases h with
    | closed hphrase => cases hphrase
    | blank hline => simp [Form.ofLine, body?, trim_eq_nil_iff.mpr hline, Statement.form]
  · obtain ⟨body, hbody, hphrase⟩ := (spells_iff_body hs).mp h
    exact Form.ofLine_of_phrase hbody hphrase

/-- No line fits the patterns of two forms. -/
theorem Form.pattern_unique {f g : Form} {line : List Char} {s t : Statement}
    (hf : f.pattern line = some s) (hg : g.pattern line = some t) : f = g := by
  obtain ⟨hs, rfl⟩ := f.pattern_eq_some_iff.mp hf
  obtain ⟨ht, rfl⟩ := g.pattern_eq_some_iff.mp hg
  rw [← Form.ofLine_of_spells hs, ← Form.ofLine_of_spells ht]

/-- The forms in the order in which their patterns are tried. -/
def Form.all : List Form := [.movement, .goto, .initialized, .uninitialized, .update, .blank]

theorem patterns_eq : patterns = Form.all.map Form.pattern := rfl

theorem Form.mem_all (f : Form) : f ∈ Form.all := by cases f <;> decide

theorem eq_of_mem_patterns {p q : List Char → Option Statement} (hp : p ∈ patterns)
    (hq : q ∈ patterns) {line : List Char} {s t : Statement} (hs : p line = some s)
    (ht : q line = some t) : s = t := by
  rw [patterns_eq, List.mem_map] at hp hq
  obtain ⟨f, -, rfl⟩ := hp
  obtain ⟨g, -, rfl⟩ := hq
  obtain rfl := Form.pattern_unique hs ht
  exact Option.some.inj (hs.symm.trans ht)

/-- The first pattern that reads a line reads it as any other one that does. -/
theorem findSome?_eq_some_iff_of_subset {order : List (List Char → Option Statement)}
    (horder : order ⊆ patterns) {line : List Char} {s : Statement} :
    (order.findSome? fun pattern => pattern line) = some s ↔ ∃ p ∈ order, p line = some s := by
  constructor
  · exact List.exists_of_findSome?_eq_some
  · rintro ⟨p, hp, hs⟩
    have hsome : (order.findSome? fun pattern => pattern line).isSome = true :=
      List.findSome?_isSome_iff.mpr ⟨p, hp, by simp [hs]⟩
    obtain ⟨t, ht⟩ := Option.isSome_iff_exists.mp hsome
    obtain ⟨q, hq, hread⟩ := List.exists_of_findSome?_eq_some ht
    rw [ht, eq_of_mem_patterns (horder hp) (horder hq) hs hread]

theorem ofLine?_eq_some_iff {line : String} {s : Statement} :
    ofLine? line = some s ↔ ∃ f : Form, f.pattern line.toList = some s := by
  rw [ofLine?, findSome?_eq_some_iff_of_subset (List.Subset.refl patterns), patterns_eq]
  simp only [List.mem_map, Form.mem_all, true_and, exists_exists_eq_and]

theorem spells_of_ofLine? {line : String} {s : Statement} (h : ofLine? line = some s) :
    Spells line.toList s := by
  obtain ⟨f, hf⟩ := ofLine?_eq_some_iff.mp h
  exact (f.pattern_eq_some_iff.mp hf).1

theorem ofLine?_of_spells {line : String} {s : Statement} (h : Spells line.toList s) :
    ofLine? line = some s :=
  ofLine?_eq_some_iff.mpr ⟨s.form, s.form.pattern_eq_some_iff.mpr ⟨h, rfl⟩⟩

/-- A line is read as a statement exactly when it spells this statement, and as nothing when
it spells none. -/
theorem ofLine?_eq_some_iff_spells (line : String) :
    (∀ s, ofLine? line = some s ↔ Spells line.toList s) ∧
      (ofLine? line = none ↔ ∀ s, ¬ Spells line.toList s) := by
  have hread (s : Statement) : ofLine? line = some s ↔ Spells line.toList s :=
    ⟨spells_of_ofLine?, ofLine?_of_spells⟩
  refine ⟨hread, ?_⟩
  rw [Option.eq_none_iff_forall_ne_some]
  exact forall_congr' fun s => not_congr (hread s)

/-- A jump with a sign and every digit, a move, a declaration and an update, with blanks where
they may stand, and a line that takes a keyword for a variable. -/
theorem ofLine?_eq_some_iff_spells_signed :
    ofLine? "\u2003goto -9876543210 ; " = some (.goto (-9876543210)) ∧
      ofLine? " backward\t;" = some (.move .backward) ∧
      ofLine? "float _x;" = some (.declaration .float "_x" none) ∧
      ofLine? "_x /= 2 ;" = some (.update "_x" (.compound .divide) "2") ∧
      ∀ s, ¬ Spells "goto = 1;".toList s := by
  have hspace : Blanks [' '] := List.forall_mem_singleton.mpr (by decide)
  have htab : Blanks ['\t'] := List.forall_mem_singleton.mpr (by decide)
  have hwide : Blanks ['\u2003'] := List.forall_mem_singleton.mpr (by decide)
  have hliteral : Literal "-9876543210".toList (-9876543210) :=
    .negative (by decide) (List.all_eq_true.mp rfl)
  have hname : IsVariable "_x" := by
    refine ⟨by decide, ?_⟩
    rintro (direction | _ | type)
    · cases direction <;> decide
    · decide
    · cases type <;> decide
  have htwo : Strips " 2 ".toList "2".toList :=
    ⟨startsSolid_cons.mpr (by decide), (@endsSolid_concat '2' []).mpr (by decide), [' '], [' '],
      hspace, hspace, rfl⟩
  have hgoto := Spells.closed (.goto hspace hliteral) hwide hspace hspace
  have hmove := Spells.closed (.move .backward) hspace htab blanks_nil
  have hfloat := Spells.closed (.uninitialized .float hspace (List.cons_ne_nil _ _) hname)
    blanks_nil blanks_nil blanks_nil
  have hupdate := Spells.closed (.update (.compound .divide) hname hspace htwo (by decide))
    blanks_nil blanks_nil blanks_nil
  exact ⟨((ofLine?_eq_some_iff_spells _).1 _).mpr hgoto,
    ((ofLine?_eq_some_iff_spells _).1 _).mpr hmove,
    ((ofLine?_eq_some_iff_spells _).1 _).mpr hfloat,
    ((ofLine?_eq_some_iff_spells _).1 _).mpr hupdate,
    (ofLine?_eq_some_iff_spells _).2.mp rfl⟩

/-- The patterns do not overlap: of any two of them, one does not read a given line. So a line
is read as the same statement in whatever order they are tried. -/
theorem patterns_exclusive (line : String) :
    (patterns.Pairwise fun p q => p line.toList = none ∨ q line.toList = none) ∧
      ∀ order : List (List Char → Option Statement), order.Perm patterns →
        (order.findSome? fun pattern => pattern line.toList) = ofLine? line := by
  constructor
  · have hdistinct : Form.all.Pairwise (· ≠ ·) := by decide
    rw [patterns_eq, List.pairwise_map]
    refine hdistinct.imp fun {f g} hne => ?_
    by_contra hboth
    obtain ⟨hf, hg⟩ := not_or.mp hboth
    obtain ⟨s, hs⟩ := Option.ne_none_iff_exists'.mp hf
    obtain ⟨t, ht⟩ := Option.ne_none_iff_exists'.mp hg
    exact hne (Form.pattern_unique hs ht)
  · intro order horder
    ext s
    rw [ofLine?, findSome?_eq_some_iff_of_subset horder.subset,
      findSome?_eq_some_iff_of_subset (List.Subset.refl patterns)]
    simp only [horder.mem_iff]

/-- A name that starts with a keyword, with the patterns tried from the last to the first. -/
theorem patterns_exclusive_reversed :
    patterns.reverse.Perm patterns ∧
      (patterns.reverse.findSome? fun pattern => pattern "goto3 = 7;".toList) =
        some (.update "goto3" .plain "7") :=
  have horder : patterns.reverse.Perm patterns := List.reverse_perm patterns
  ⟨horder, ((patterns_exclusive "goto3 = 7;").2 _ horder).trans rfl⟩

end GridRover.Script.Statement
