import GridRover.CommandLine.Request
import GridRover.Proofs.Expression.Composition
import GridRover.Proofs.Script.Variables
import Mathlib.Data.List.TFAE

/-!
# What can name a variable

A name is recognised in three places, each in its own way: an expression is cut into longest
lexemes, a declaration is split after its type, and an argument of the command line before its
equals sign. All three take the same texts for names of variables. So a variable that is
introduced in one place can be read in an expression.
-/
namespace GridRover

namespace Expression

open Postfix Text

variable {name : String}

/-- The lexeme of a name spells it, so one name alone is read only in that very name. -/
theorem reads_name_iff : Reads name.toList [.name name] ↔ isName name.toList = true := by
  constructor
  · rintro ⟨last, pieces, -, -, hkinds⟩
    cases hkinds with
    | @cons piece _ _ _ hd =>
      -- The lexeme is a field of the piece, and only a variable can be told by cases.
      generalize piece.lexeme = lexeme at hd
      cases hd with
      | name h => rwa [String.toList_ofList]
  · intro h
    simpa using Reads.name h (stops_nil _) reads_nil

theorem tokenize_name_iff :
    (∃ token, tokenize name = .ok [token] ∧ token.kind = .name name) ↔
      isName name.toList = true := by
  have hkinds : (∃ token, tokenize name = .ok [token] ∧ token.kind = .name name) ↔
      ∃ tokens, tokenize name = .ok tokens ∧ tokens.map Token.kind = [.name name] := by
    simp only [List.map_eq_singleton_iff]
    grind
  rw [hkinds, tokenize_kinds_iff, reads_name_iff, and_iff_right_iff_imp]
  intro h
  rw [count_name h (.inl rfl), count_name h (.inr rfl)]

/-- The value of a name that the store has is the one stored there. -/
theorem value_name {store : Store} {x : Float} (h : isName name.toList = true)
    (hx : store.get? name = some x) : value store name = .ok x := by
  obtain ⟨token, htokens, hkind⟩ := tokenize_name_iff.mpr h
  have hstored : store.contains name = true := Store.contains_iff_get?.mpr ⟨x, hx⟩
  refine value_iff.mpr ⟨_, [.variable name], htokens, ?_, value_variable hx⟩
  rw [List.map_singleton, hkind]
  exact (suspends_name hstored 0 []).ofKinds_eq

end Expression

namespace Script.Statement

open Text

variable {name : String}

theorem isVariable_iff :
    IsVariable name ↔ isName name.toList = true ∧ isReserved name = false := by
  rw [isReserved_eq_false_iff]
  exact ⟨fun h => ⟨h.isName, h.ne_keyword⟩, fun h => ⟨h.1, h.2⟩⟩

theorem ofLine?_float_iff :
    ofLine? ("float " ++ name ++ ";") = some (.declaration .float name none) ↔
      IsVariable name := by
  constructor
  · exact isVariable_of_declaration
  · intro h
    have hspace : Blanks [' '] := List.forall_mem_singleton.mpr (by decide)
    have hphrase := Phrase.uninitialized .float hspace (List.cons_ne_nil _ _) h
    have hspells := Spells.closed hphrase blanks_nil blanks_nil blanks_nil
    apply ofLine?_of_spells
    simpa [VariableType.name] using hspells

/-- The names that lines declare. -/
theorem exists_declaration_iff :
    (∃ line type initializer, ofLine? line = some (.declaration type name initializer)) ↔
      IsVariable name := by
  constructor
  · rintro ⟨line, type, initializer, h⟩
    exact isVariable_of_declaration h
  · intro h
    exact ⟨_, .float, none, ofLine?_float_iff.mpr h⟩

end Script.Statement

namespace CommandLine

open Script.Statement Text

variable {name : String}

/-- What an argument gives once it is parted at its first equals sign. -/
theorem Binding.ofText_iff_of_split {argument : String} {front rest : List Char} {x : Float}
    (heq : argument.toList = front ++ '=' :: rest) (hfront : '=' ∉ front) :
    Binding.ofText argument = .ok (name, x) ↔ IsVariable name ∧ Strips front name.toList ∧
      Number.ofText (String.ofList (trim rest)) = .ok x := by
  have hkind : ∀ c ∈ front, (c != '=') = true := by
    intro c hc
    exact bne_iff_ne.mpr (ne_of_mem_of_not_mem hc hfront)
  have hstop : Stops (· != '=') ('=' :: rest) := stops_cons.mpr (by decide)
  have hname : String.ofList (trim front) = name ↔ Strips front name.toList := by
    rw [← String.toList_inj, String.toList_ofList, trim_eq_iff]
  simp only [Binding.ofText, heq, dropWhile_of_stops hkind hstop, takeWhile_of_stops hkind hstop]
  rw [isVariable_iff, ← hname]
  constructor
  · intro h
    split at h
    · rename_i hchars
      cases hx : Number.ofText (String.ofList (trim rest)) with
      | error cause => simp [hx] at h
      | ok y =>
        simp only [hx, Except.ok.injEq, Prod.mk.injEq] at h
        obtain ⟨rfl, rfl⟩ := h
        exact ⟨by simpa using hchars, rfl, rfl⟩
    · cases h
  · rintro ⟨⟨hchars, hfree⟩, rfl, hx⟩
    rw [String.toList_ofList] at hchars
    simp [hchars, hfree, hx]

/-- The arguments that are read, and what they give. The first equals sign parts them; before
it stands the name of a variable and behind it a number, with blanks at most around both. -/
theorem Binding.ofText_eq_ok_iff {argument : String} {x : Float} :
    Binding.ofText argument = .ok (name, x) ↔ ∃ front rest,
      argument.toList = front ++ '=' :: rest ∧ '=' ∉ front ∧ IsVariable name ∧
        Strips front name.toList ∧ Number.ofText (String.ofList (trim rest)) = .ok x := by
  constructor
  · intro h
    by_cases hmem : '=' ∈ argument.toList
    · obtain ⟨front, rest, heq, hfront⟩ := List.eq_append_cons_of_mem hmem
      exact ⟨front, rest, heq, hfront, (ofText_iff_of_split heq hfront).mp h⟩
    · have hnone : argument.toList.dropWhile (· != '=') = [] := by
        rw [List.dropWhile_eq_nil_iff]
        intro c hc
        exact bne_iff_ne.mpr (ne_of_mem_of_not_mem hc hmem)
      simp [Binding.ofText, hnone] at h
  · rintro ⟨front, rest, heq, hfront, h⟩
    exact (ofText_iff_of_split heq hfront).mpr h

/-- Only names that are no keywords get values. -/
theorem Binding.isVariable_of_ofText {argument : String} {x : Float}
    (h : Binding.ofText argument = .ok (name, x)) : IsVariable name := by
  obtain ⟨front, rest, -, -, hname, -⟩ := ofText_eq_ok_iff.mp h
  exact hname

theorem Binding.ofText_zero_iff :
    Binding.ofText (name ++ "=0") = .ok (name, 0) ↔ IsVariable name := by
  constructor
  · exact isVariable_of_ofText
  · intro h
    have hequals : '=' ∉ name.toList := by
      intro hmem
      exact absurd (isNameChar_of_mem h.isName hmem) (by decide)
    have hstrips : Strips name.toList name.toList := by
      refine ⟨?_, ?_, [], [], blanks_nil, blanks_nil, by simp⟩
      · simpa using startsSolid_name h.isName []
      · simpa using endsSolid_name h.isName []
    have hzero : Number.ofText (String.ofList (trim ['0'])) = .ok 0 := by
      refine (Number.ofText_whole (Number.digits_singleton rfl)).trans ?_
      exact congrArg _ (by decide +kernel)
    have heq : (name ++ "=0").toList = name.toList ++ '=' :: ['0'] := by simp
    exact (ofText_iff_of_split heq hequals).mpr ⟨h, hstrips, hzero⟩

/-- The names that arguments give values to. -/
theorem Binding.exists_ofText_iff :
    (∃ argument x, Binding.ofText argument = .ok (name, x)) ↔ IsVariable name := by
  constructor
  · rintro ⟨argument, x, h⟩
    exact isVariable_of_ofText h
  · intro h
    exact ⟨_, 0, ofText_zero_iff.mpr h⟩

open Expression (tokenize value) in
/-- The recognisers of names agree on every text. A text is spelled as a name and is no keyword
exactly if it is one name token and no keyword, exactly if it can be declared, and exactly if it
can be given a value on the command line. What any line or any argument introduces has its
stored value as an expression. -/
theorem recognisers_agree (name : String) :
    List.TFAE [
      (∃ c cs, name.toList = c :: cs ∧ (c.isAlpha = true ∨ c = '_') ∧
        ∀ d ∈ cs, d.isAlphanum = true ∨ d = '_') ∧ ∀ keyword : Script.Keyword, name ≠ keyword.text,
      (∃ token, tokenize name = .ok [token] ∧ token.kind = .name name) ∧
        Script.isReserved name = false,
      ofLine? ("float " ++ name ++ ";") = some (.declaration .float name none),
      Binding.ofText (name ++ "=0") = .ok (name, 0),
      ∃ line type initializer, ofLine? line = some (.declaration type name initializer),
      ∃ argument x, Binding.ofText argument = .ok (name, x)] ∧
    ((∃ line type initializer, ofLine? line = some (.declaration type name initializer)) ∨
      (∃ argument x, Binding.ofText argument = .ok (name, x)) →
      ∀ (store : Store) (x : Float), store.get? name = some x → value store name = .ok x) := by
  constructor
  · -- No two of them are compared with each other: all are settled by what a variable is.
    apply List.tfae_of_forall (IsVariable name)
    simp only [List.forall_mem_cons, List.not_mem_nil, false_imp_iff, implies_true, and_true]
    refine ⟨?_, ?_, ofLine?_float_iff, Binding.ofText_zero_iff,
      exists_declaration_iff, Binding.exists_ofText_iff⟩
    · rw [← isName_iff, ← isReserved_eq_false_iff, isVariable_iff]
    · rw [Expression.tokenize_name_iff, isVariable_iff]
  · intro hintroduced store x hx
    have hname : IsVariable name := by
      rcases hintroduced with hline | hargument
      · exact exists_declaration_iff.mp hline
      · exact Binding.exists_ofText_iff.mp hargument
    exact Expression.value_name hname.isName hx

/-- A name that begins with a keyword, declared as an integer and read as an expression. -/
theorem recognisers_agree_goto_1 :
    ofLine? "int goto_1=7;" = some (.declaration .int "goto_1" (some "7")) ∧
      Binding.ofText "goto_1=0" = .ok ("goto_1", 0) ∧
      Expression.value (Store.empty.insert "goto_1" ⟨.int, 7⟩) "goto_1" = .ok 7 := by
  have hline : ofLine? "int goto_1=7;" = some (.declaration .int "goto_1" (some "7")) := rfl
  obtain ⟨hagree, hread⟩ := recognisers_agree "goto_1"
  refine ⟨hline, (hagree.out 4 3 rfl rfl).mp ⟨_, _, _, hline⟩, ?_⟩
  exact hread (.inl ⟨_, _, _, hline⟩) _ 7 rfl

end CommandLine

end GridRover
