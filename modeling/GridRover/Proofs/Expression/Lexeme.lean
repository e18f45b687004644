import GridRover.Expression.Scanner
import GridRover.Proofs.Number.Literal

/-!
# The longest lexeme

Lexemes and what they denote are described without the scanner. What a lexeme can be is
told by its first character, and so the lexeme that the scanner takes is the longest one
that the text begins with.
-/
namespace GridRover.Expression

open Number Text

/-- A numeral, a name or a symbol of one character. -/
inductive Lexeme : List Char → Prop
  | numeral {cs : List Char} (h : Numeral cs) : Lexeme cs
  | name {cs : List Char} (h : isName cs = true) : Lexeme cs
  | symbol {c : Char} (h : c ∈ ['+', '-', '*', '/', '(', ')']) : Lexeme [c]

/-- What a lexeme stands for. A numeral stands for the number that its text reads as. -/
inductive Denotes : List Char → Token.Kind → Prop
  | number {cs : List Char} {x : Float} (h : Numeral cs)
    (hx : Number.ofText (String.ofList cs) = .ok x) : Denotes cs (.number x)
  | name {cs : List Char} (h : isName cs = true) : Denotes cs (.name (String.ofList cs))
  | operator (op : Operator) : Denotes [op.symbol] (.operator op)
  | opening : Denotes ['('] .opening
  | closing : Denotes [')'] .closing

/-- The lexeme is as long as one can be at the start of the text that goes on with `rest`. -/
structure Longest (lexeme rest : List Char) : Prop where
  isLexeme : Lexeme lexeme
  length_le : ∀ other, Lexeme other → other <+: lexeme ++ rest → other.length ≤ lexeme.length

section FirstCharacter

variable {c : Char} {cs : List Char}

theorem symbol_cases (h : c ∈ ['+', '-', '*', '/', '(', ')']) :
    c = '+' ∨ c = '-' ∨ c = '*' ∨ c = '/' ∨ c = '(' ∨ c = ')' := by
  simpa only [List.mem_cons, List.not_mem_nil, or_false] using h

theorem symbol_apart (h : c ∈ ['+', '-', '*', '/', '(', ')']) :
    c.isDigit = false ∧ isNameStart c = false := by
  rcases symbol_cases h with rfl | rfl | rfl | rfl | rfl | rfl <;> decide

theorem isNameStart_of_isName (h : isName (c :: cs) = true) : isNameStart c = true := by
  rw [isName, Bool.and_eq_true] at h
  exact h.1

/-- The first character tells what the lexeme is. -/
theorem Lexeme.numeral_of_isDigit (h : Lexeme (c :: cs)) (hc : c.isDigit = true) :
    Numeral (c :: cs) := by
  cases h with
  | numeral h => exact h
  | name h =>
    rw [isDigit_eq_false_of_isNameStart (isNameStart_of_isName h)] at hc
    cases hc
  | symbol h =>
    rw [(symbol_apart h).1] at hc
    cases hc

theorem Lexeme.isName_of_isNameStart (h : Lexeme (c :: cs)) (hc : isNameStart c = true) :
    isName (c :: cs) = true := by
  cases h with
  | numeral h =>
    obtain ⟨d, rest, heq, hd⟩ := h.exists_cons
    cases heq
    rw [isDigit_eq_false_of_isNameStart hc] at hd
    cases hd
  | name h => exact h
  | symbol h =>
    rw [(symbol_apart h).2] at hc
    cases hc

theorem Lexeme.eq_nil_of_symbol (h : Lexeme (c :: cs))
    (hc : c ∈ ['+', '-', '*', '/', '(', ')']) : cs = [] := by
  obtain ⟨hdigit, hstart⟩ := symbol_apart hc
  cases h with
  | numeral h =>
    obtain ⟨d, rest, heq, hd⟩ := h.exists_cons
    cases heq
    rw [hdigit] at hd
    cases hd
  | name h =>
    rw [isNameStart_of_isName h] at hstart
    cases hstart
  | symbol h => rfl

theorem Lexeme.exists_cons (h : Lexeme cs) : ∃ c rest, cs = c :: rest := by
  cases h with
  | numeral h =>
    obtain ⟨c, rest, heq, -⟩ := h.exists_cons
    exact ⟨c, rest, heq⟩
  | name h => exact List.exists_cons_of_ne_nil (ne_nil_of_isName h)
  | symbol h => exact ⟨_, [], rfl⟩

theorem Lexeme.exists_of_prefix {other : List Char} (h : Lexeme other) (hp : other <+: c :: cs) :
    ∃ rest, other = c :: rest := by
  obtain ⟨d, rest, rfl⟩ := h.exists_cons
  rw [(List.cons_prefix_cons.mp hp).1]
  exact ⟨rest, rfl⟩

end FirstCharacter

section Taking

variable {whole fraction name rest : List Char}

theorem lexeme?_of_isDigit {c : Char} {cs : List Char} (h : c.isDigit = true) :
    lexeme? (c :: cs) =
      some ((c :: cs).takeWhile Char.isDigit ++
          (if fractionDigits ((c :: cs).dropWhile Char.isDigit) = [] then []
            else '.' :: fractionDigits ((c :: cs).dropWhile Char.isDigit)),
        .number (ofDigits ((c :: cs).takeWhile Char.isDigit)
          (fractionDigits ((c :: cs).dropWhile Char.isDigit)))) := by
  simp only [lexeme?, h, if_true, List.takeWhile_cons_of_pos h, List.dropWhile_cons_of_pos h]

theorem exists_of_fractionDigits {cs : List Char} (h : fractionDigits cs ≠ []) :
    Digits (fractionDigits cs) ∧
      ∃ rest, cs = '.' :: fractionDigits cs ++ rest ∧ Stops Char.isDigit rest := by
  revert h
  unfold fractionDigits
  split
  · rename_i after
    intro h
    refine ⟨⟨h, fun c hc => List.mem_takeWhile_imp hc⟩, after.dropWhile Char.isDigit, ?_,
      stops_dropWhile Char.isDigit after⟩
    rw [List.cons_append, List.takeWhile_append_dropWhile]
  · exact absurd rfl

theorem lexeme?_whole (h : Digits whole) (hrest : Stops Char.isDigit rest)
    (hpoint : fractionDigits rest = []) :
    lexeme? (whole ++ rest) = some (whole, .number (ofDigits whole [])) := by
  have htake := takeWhile_of_stops h.isDigit hrest
  have hdrop := dropWhile_of_stops h.isDigit hrest
  obtain ⟨c, cs, rfl, hc⟩ := h.exists_cons
  rw [List.cons_append] at htake hdrop ⊢
  rw [lexeme?_of_isDigit hc, htake, hdrop, hpoint, if_pos rfl, List.append_nil]

theorem lexeme?_fraction (hw : Digits whole) (hf : Digits fraction)
    (hrest : Stops Char.isDigit rest) :
    lexeme? (whole ++ '.' :: fraction ++ rest) =
      some (whole ++ '.' :: fraction, .number (ofDigits whole fraction)) := by
  have hstop : Stops Char.isDigit ('.' :: fraction ++ rest) := stops_cons.mpr (by decide)
  have htake := takeWhile_of_stops hw.isDigit hstop
  have hdrop := dropWhile_of_stops hw.isDigit hstop
  have hpoint : fractionDigits ('.' :: fraction ++ rest) = fraction :=
    takeWhile_of_stops hf.isDigit hrest
  rw [List.append_assoc]
  obtain ⟨c, cs, rfl, hc⟩ := hw.exists_cons
  rw [List.cons_append] at htake hdrop ⊢
  rw [lexeme?_of_isDigit hc, htake, hdrop, hpoint, if_neg hf.ne_nil]

theorem lexeme?_name (h : isName name = true) (hrest : Stops isNameChar rest) :
    lexeme? (name ++ rest) = some (name, .name (String.ofList name)) := by
  cases name with
  | nil => cases h
  | cons c cs =>
    have hstart := isNameStart_of_isName h
    rw [isName, Bool.and_eq_true, List.all_eq_true] at h
    simp only [List.cons_append, lexeme?, isDigit_eq_false_of_isNameStart hstart, hstart,
      Bool.false_eq_true, if_false, if_true, takeWhile_of_stops h.2 hrest]

/-- Every lexeme at the start of a text that begins with digits is a numeral. -/
theorem Lexeme.numeral_of_prefix {other : List Char} (h : Lexeme other) (hw : Digits whole)
    (hp : other <+: whole ++ rest) : Numeral other := by
  obtain ⟨c, cs, rfl, hc⟩ := hw.exists_cons
  obtain ⟨more, rfl⟩ := h.exists_of_prefix hp
  exact h.numeral_of_isDigit hc

theorem longest_whole (h : Digits whole) (hrest : Stops Char.isDigit rest)
    (hpoint : fractionDigits rest = []) : Longest whole rest := by
  refine ⟨.numeral (.whole h), ?_⟩
  intro other hother hp
  cases hother.numeral_of_prefix h hp with
  | whole hdigits => exact length_le_of_stops hrest hdigits.isDigit hp
  | @fraction front back hfront hback =>
    obtain ⟨tail, htail⟩ := hp
    rw [List.append_assoc] at htail
    have hstop : Stops Char.isDigit ('.' :: back ++ tail) := stops_cons.mpr (by decide)
    obtain ⟨-, hafter⟩ := append_inj_of_stops hfront.isDigit hstop h.isDigit hrest htail
    obtain ⟨c, cs, rfl, hc⟩ := hback.exists_cons
    rw [← hafter] at hpoint
    simp [fractionDigits, hc] at hpoint

theorem longest_fraction (hw : Digits whole) (hf : Digits fraction)
    (hrest : Stops Char.isDigit rest) : Longest (whole ++ '.' :: fraction) rest := by
  refine ⟨.numeral (.fraction hw hf), ?_⟩
  intro other hother hp
  have hstop : Stops Char.isDigit ('.' :: fraction ++ rest) := stops_cons.mpr (by decide)
  rw [List.append_assoc] at hp
  cases hother.numeral_of_prefix hw hp with
  | whole hdigits =>
    have hle := length_le_of_stops hstop hdigits.isDigit hp
    rw [List.length_append]
    omega
  | @fraction front back hfront hback =>
    obtain ⟨tail, htail⟩ := hp
    rw [List.append_assoc] at htail
    have hstop' : Stops Char.isDigit ('.' :: back ++ tail) := stops_cons.mpr (by decide)
    obtain ⟨rfl, hafter⟩ := append_inj_of_stops hfront.isDigit hstop' hw.isDigit hstop htail
    have hle : back.length ≤ fraction.length :=
      length_le_of_stops hrest hback.isDigit ⟨tail, List.cons.inj hafter |>.2⟩
    simp only [List.length_append, List.length_cons]
    omega

theorem longest_name (h : isName name = true) (hrest : Stops isNameChar rest) :
    Longest name rest := by
  refine ⟨.name h, ?_⟩
  intro other hother hp
  have hname : isName other = true := by
    obtain ⟨c, cs, rfl⟩ := List.exists_cons_of_ne_nil (ne_nil_of_isName h)
    obtain ⟨more, rfl⟩ := hother.exists_of_prefix hp
    exact hother.isName_of_isNameStart (isNameStart_of_isName h)
  exact length_le_of_stops hrest (fun _ hc => isNameChar_of_mem hname hc) hp

theorem longest_symbol {c : Char} (h : c ∈ ['+', '-', '*', '/', '(', ')']) (rest : List Char) :
    Longest [c] rest := by
  refine ⟨.symbol h, ?_⟩
  intro other hother hp
  obtain ⟨more, rfl⟩ := hother.exists_of_prefix hp
  rw [hother.eq_nil_of_symbol h]

end Taking

namespace Longest

variable {lexeme rest : List Char}

/-- A lexeme that could go on is not the longest. -/
theorem not_lexeme (h : Longest lexeme rest) {more : List Char} (hne : more ≠ [])
    (hp : more <+: rest) : ¬ Lexeme (lexeme ++ more) := by
  intro hmore
  have hle := h.length_le _ hmore ((List.prefix_append_right_inj lexeme).mpr hp)
  rw [List.length_append] at hle
  have hpos := List.length_pos_iff.mpr hne
  omega

theorem stops {kind : Char → Bool} (h : Longest lexeme rest)
    (hmore : ∀ c, kind c = true → Lexeme (lexeme ++ [c])) : Stops kind rest := by
  intro c hc
  by_contra hkind
  obtain ⟨tail, rfl⟩ := List.head?_eq_some_iff.mp hc
  exact h.not_lexeme (List.cons_ne_nil c []) (by simp) (hmore c (Bool.of_not_eq_false hkind))

end Longest

/-- Every lexeme stands for something. -/
theorem Lexeme.exists_denotes {cs : List Char} (h : Lexeme cs) : ∃ kind, Denotes cs kind := by
  cases h with
  | numeral h =>
    obtain ⟨x, hx⟩ := h.exists_ofText
    exact ⟨_, .number h hx⟩
  | name h => exact ⟨_, .name h⟩
  | symbol h =>
    rcases symbol_cases h with rfl | rfl | rfl | rfl | rfl | rfl
    · exact ⟨_, .operator .add⟩
    · exact ⟨_, .operator .subtract⟩
    · exact ⟨_, .operator .multiply⟩
    · exact ⟨_, .operator .divide⟩
    · exact ⟨_, .opening⟩
    · exact ⟨_, .closing⟩

theorem Operator.symbol_mem (op : Operator) : op.symbol ∈ ['+', '-', '*', '/', '(', ')'] := by
  cases op <;> decide

theorem Operator.symbol_of_ofSymbol? {c : Char} {op : Operator} (h : ofSymbol? c = some op) :
    op.symbol = c := by
  unfold ofSymbol? at h
  split at h <;> cases h <;> rfl

theorem lexeme?_of_longest {lexeme rest : List Char} {kind : Token.Kind}
    (h : Longest lexeme rest) (hd : Denotes lexeme kind) :
    lexeme? (lexeme ++ rest) = some (lexeme, kind) := by
  cases hd with
  | number hnumeral hx =>
    cases hnumeral with
    | whole hdigits =>
      have hstop : Stops Char.isDigit rest := h.stops fun c hc => .numeral (.whole (hdigits.concat hc))
      have hpoint : fractionDigits rest = [] := by
        by_contra hne
        obtain ⟨hfraction, after, hrest, -⟩ := exists_of_fractionDigits hne
        have hp : '.' :: fractionDigits rest <+: rest := ⟨after, hrest.symm⟩
        exact h.not_lexeme (List.cons_ne_nil _ _) hp (.numeral (.fraction hdigits hfraction))
      rw [lexeme?_whole hdigits hstop hpoint]
      rw [ofText_whole hdigits] at hx
      cases hx
      rfl
    | fraction hw hf =>
      have hstop : Stops Char.isDigit rest := by
        apply h.stops
        intro c hc
        rw [List.append_assoc, List.cons_append]
        exact .numeral (.fraction hw (hf.concat hc))
      rw [lexeme?_fraction hw hf hstop]
      rw [ofText_fraction hw hf] at hx
      cases hx
      rfl
  | name hname =>
    apply lexeme?_name hname
    apply h.stops
    intro c hc
    apply Lexeme.name
    exact isName_append hname (by simpa using hc)
  | operator op => cases op <;> rfl
  | opening => rfl
  | closing => rfl

/-- The scanner takes something wherever a lexeme starts. -/
theorem lexeme?_ne_none {lexeme : List Char} (h : Lexeme lexeme) (rest : List Char) :
    lexeme? (lexeme ++ rest) ≠ none := by
  cases h with
  | numeral h =>
    obtain ⟨c, cs, rfl, hc⟩ := h.exists_cons
    rw [List.cons_append, lexeme?_of_isDigit hc]
    exact Option.some_ne_none _
  | name h =>
    obtain ⟨c, cs, rfl⟩ := List.exists_cons_of_ne_nil (ne_nil_of_isName h)
    have hc := isNameStart_of_isName h
    simp [lexeme?, isDigit_eq_false_of_isNameStart hc, hc]
  | symbol h =>
    rcases symbol_cases h with rfl | rfl | rfl | rfl | rfl | rfl <;> exact Option.some_ne_none _

section Taken

variable {c : Char} {cs lexeme : List Char} {kind : Token.Kind}

/-- What the scanner takes where a digit comes first. -/
theorem longest_of_isDigit (hc : c.isDigit = true)
    (h : lexeme? (c :: cs) = some (lexeme, kind)) :
    ∃ rest, c :: cs = lexeme ++ rest ∧ Longest lexeme rest ∧ Denotes lexeme kind := by
  have hwhole : Digits ((c :: cs).takeWhile Char.isDigit) :=
    ⟨by simp [hc], fun d hd => List.mem_takeWhile_imp hd⟩
  have hstop := stops_dropWhile Char.isDigit (c :: cs)
  have hsplit : c :: cs = _ := (@List.takeWhile_append_dropWhile _ Char.isDigit (c :: cs)).symm
  rw [lexeme?_of_isDigit hc] at h
  generalize (c :: cs).takeWhile Char.isDigit = whole at *
  generalize (c :: cs).dropWhile Char.isDigit = after at *
  rw [hsplit]
  by_cases hpoint : fractionDigits after = []
  · rw [hpoint, if_pos rfl, List.append_nil] at h
    cases h
    exact ⟨after, rfl, longest_whole hwhole hstop hpoint,
      .number (.whole hwhole) (ofText_whole hwhole)⟩
  · rw [if_neg hpoint] at h
    cases h
    obtain ⟨hfraction, rest, hafter, hrest⟩ := exists_of_fractionDigits hpoint
    refine ⟨rest, ?_, longest_fraction hwhole hfraction hrest,
      .number (.fraction hwhole hfraction) (ofText_fraction hwhole hfraction)⟩
    rw [List.append_assoc, ← hafter]

/-- What the scanner takes where a letter or an underscore comes first. -/
theorem longest_of_isNameStart (hc : isNameStart c = true)
    (h : lexeme? (c :: cs) = some (lexeme, kind)) :
    ∃ rest, c :: cs = lexeme ++ rest ∧ Longest lexeme rest ∧ Denotes lexeme kind := by
  have hsplit : splitName? (c :: cs) = some (c :: cs.takeWhile isNameChar, cs.dropWhile isNameChar) :=
    if_pos hc
  obtain ⟨hname, hrest, heq⟩ := splitName?_eq_some_iff.mp hsplit
  rw [heq, lexeme?_name hname hrest] at h
  cases h
  exact ⟨_, heq, longest_name hname hrest, .name hname⟩

/-- What the scanner takes anywhere else. -/
theorem longest_of_other (hdigit : c.isDigit = false) (hstart : isNameStart c = false)
    (h : lexeme? (c :: cs) = some (lexeme, kind)) :
    ∃ rest, c :: cs = lexeme ++ rest ∧ Longest lexeme rest ∧ Denotes lexeme kind := by
  simp only [lexeme?, hdigit, hstart, Bool.false_eq_true, if_false] at h
  split at h
  · rename_i hc
    cases h
    subst hc
    exact ⟨cs, rfl, longest_symbol (by decide) cs, .opening⟩
  · split at h
    · rename_i hc
      cases h
      subst hc
      exact ⟨cs, rfl, longest_symbol (by decide) cs, .closing⟩
    · split at h
      · rename_i op hop
        cases h
        rw [← Operator.symbol_of_ofSymbol? hop]
        exact ⟨cs, rfl, longest_symbol op.symbol_mem cs, .operator op⟩
      · cases h

theorem longest_of_lexeme? (h : lexeme? cs = some (lexeme, kind)) :
    ∃ rest, cs = lexeme ++ rest ∧ Longest lexeme rest ∧ Denotes lexeme kind := by
  cases cs with
  | nil => cases h
  | cons c cs =>
    by_cases hdigit : c.isDigit = true
    · exact longest_of_isDigit hdigit h
    · by_cases hstart : isNameStart c = true
      · exact longest_of_isNameStart hstart h
      · exact longest_of_other (Bool.of_not_eq_true hdigit) (Bool.of_not_eq_true hstart) h

end Taken

/-- The scanner takes the longest lexeme that a text begins with, for what it stands for. -/
theorem lexeme?_eq_some_iff {cs lexeme : List Char} {kind : Token.Kind} :
    lexeme? cs = some (lexeme, kind) ↔
      ∃ rest, cs = lexeme ++ rest ∧ Longest lexeme rest ∧ Denotes lexeme kind := by
  constructor
  · exact longest_of_lexeme?
  · rintro ⟨rest, rfl, h, hd⟩
    exact lexeme?_of_longest h hd

end GridRover.Expression
