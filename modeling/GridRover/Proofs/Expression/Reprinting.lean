import GridRover.Proofs.Expression.Composition
import GridRover.Proofs.Number.Printing

/-!
# Tokens printed without blanks

The texts of tokens can be set end to end and are cut at the same places again, as long as
no two operands are neighbours: between an operand and its neighbour there is then always a
symbol, which is no part of a longer lexeme. The numbers may be written in other digits than
before, and stand for the same doubles.
-/
namespace GridRover.Expression

open Number

theorem Lexeme.longest {cs : List Char} (h : Lexeme cs) : Longest cs [] := by
  refine ⟨h, ?_⟩
  intro other _ hp
  rw [List.append_nil] at hp
  exact hp.length_le

theorem Denotes.isLexeme {cs : List Char} {kind : Token.Kind} (h : Denotes cs kind) :
    Lexeme cs := by
  cases h with
  | number h _ => exact .numeral h
  | name h => exact .name h
  | operator op => exact .symbol op.symbol_mem
  | opening => exact .symbol (by decide)
  | closing => exact .symbol (by decide)

theorem Denotes.exists_symbol {cs : List Char} {kind : Token.Kind} (h : Denotes cs kind)
    (hkind : kind.operand? = none) : ∃ c ∈ ['+', '-', '*', '/', '(', ')'], cs = [c] := by
  cases h with
  | number h _ => cases hkind
  | name h => cases hkind
  | operator op => exact ⟨_, op.symbol_mem, rfl⟩
  | opening => exact ⟨'(', by decide, rfl⟩
  | closing => exact ⟨')', by decide, rfl⟩

/-- What a lexeme stands for is written as a lexeme that stands for it. -/
theorem Denotes.text {lexeme : List Char} {kind : Token.Kind} (h : Denotes lexeme kind)
    (hfinite : ∀ x, kind = .number x → x.isFinite = true) : Denotes kind.text.toList kind := by
  cases h with
  | number h hx =>
    obtain ⟨hnumeral, hback⟩ := h.numeral_text hx (hfinite _ rfl)
    exact .number hnumeral (by rwa [String.ofList_toList])
  | name h =>
    rw [Token.Kind.text, String.toList_ofList]
    exact .name h
  | operator op =>
    rw [Token.Kind.text, op.toList_text]
    exact .operator op
  | opening => exact .opening
  | closing => exact .closing

/-- No two operands are neighbours. -/
def Apart (kinds : List Token.Kind) : Prop :=
  kinds.IsChain fun kind next => kind.operand? = none ∨ next.operand? = none

/-- Set end to end, the texts of the tokens are the lexemes that are taken. -/
theorem reads_texts {kinds : List Token.Kind}
    (h : ∀ kind ∈ kinds, Denotes kind.text.toList kind) (hapart : Apart kinds) :
    Reads (kinds.flatMap fun kind => kind.text.toList) kinds := by
  induction kinds with
  | nil => exact reads_nil
  | cons kind kinds ih =>
    have hd := h kind List.mem_cons_self
    have hrest := ih (fun other hother => h other (List.mem_cons_of_mem _ hother)) hapart.tail
    rw [List.flatMap_cons]
    apply hrest.lexeme _ hd
    cases kinds with
    | nil => exact hd.isLexeme.longest
    | cons next kinds =>
      rcases (List.isChain_cons_cons.mp hapart).1 with hkind | hnext
      · obtain ⟨c, hc, heq⟩ := hd.exists_symbol hkind
        rw [heq]
        exact longest_symbol hc _
      · have hnextd := h next (List.mem_cons_of_mem _ List.mem_cons_self)
        obtain ⟨c, hc, heq⟩ := hnextd.exists_symbol hnext
        rw [List.flatMap_cons, heq]
        exact hd.isLexeme.longest.append_symbol hc _

/-- Where lexemes stand for kinds, there are tokens of these kinds. -/
theorem Reads.exists_tokens {text : String} {kinds : List Token.Kind} (h : Reads text.toList kinds) :
    ∃ ts, (Scanner.ofText text).tokens = .ok ts ∧ ts.map Token.kind = kinds := by
  obtain ⟨last, pieces, heq, hm, hkinds⟩ := h
  obtain ⟨ts, hmarks, hmap⟩ := exists_marks_of_denotes hkinds 0
  exact ⟨ts, Scanner.tokens_of_pieces heq hm hmarks, hmap⟩

theorem toList_joinedText (ts : List Token) :
    (joinedText ts).toList = (ts.map Token.kind).flatMap fun kind => kind.text.toList := by
  rw [joinedText, String.toList_join, List.flatMap_map, List.flatMap_map]
  rfl

theorem joinedText_eq_of_kinds {ts us : List Token} (h : us.map Token.kind = ts.map Token.kind) :
    joinedText us = joinedText ts := by
  rw [← String.toList_inj, toList_joinedText, toList_joinedText, h]

theorem depth_eq_of_kinds {ts us : List Token} (h : us.map Token.kind = ts.map Token.kind) :
    depth us = depth ts := by
  simp only [depth, countP_kind, h]

/-- The tokens of a text without operands side by side, printed end to end, are tokenized to
tokens of the same kinds, so that printing these gives the same text again. -/
theorem tokenize_joinedText (text : String) (ts : List Token) (h : tokenize text = .ok ts)
    (hapart : Apart (ts.map Token.kind))
    (hfinite : ∀ x, .number x ∈ ts.map Token.kind → x.isFinite = true) :
    ∃ us, tokenize (joinedText ts) = .ok us ∧ us.map Token.kind = ts.map Token.kind ∧
      joinedText us = joinedText ts := by
  obtain ⟨last, pieces, -, hm, hmarks⟩ := exists_marks_of_tokenize h
  have htexts : ∀ kind ∈ ts.map Token.kind, Denotes kind.text.toList kind := by
    intro kind hkind
    obtain ⟨t, ht, rfl⟩ := List.mem_map.mp hkind
    obtain ⟨front, lexeme, back, -, -, -, -, hd⟩ := hmarks.exists_lexeme hm ht
    exact hd.text fun x hx => hfinite x (hx ▸ hkind)
  have hreads : Reads (joinedText ts).toList (ts.map Token.kind) := by
    rw [toList_joinedText]
    exact reads_texts htexts hapart
  obtain ⟨us, hus, hkinds⟩ := hreads.exists_tokens
  have hdepth : depth us = 0 := (depth_eq_of_kinds hkinds).trans (tokenize_eq_ok_iff.mp h).2
  exact ⟨us, tokenize_eq_ok_iff.mpr ⟨hus, hdepth⟩, hkinds, joinedText_eq_of_kinds hkinds⟩

/-- Zeros that are not needed are gone after printing. -/
theorem tokenize_joinedText_zeros :
    ∃ ts us, tokenize "007.50*(x-1)" = .ok ts ∧ Apart (ts.map Token.kind) ∧
      (∀ x, .number x ∈ ts.map Token.kind → x.isFinite = true) ∧
      joinedText ts = "7.5*(x-1)" ∧ tokenize "7.5*(x-1)" = .ok us ∧
      us.map Token.kind = ts.map Token.kind := by
  have hzeros : Digits ['0', '0', '7'] := ⟨List.cons_ne_nil _ _, List.all_eq_true.mp rfl⟩
  have hhalf : Digits ['5', '0'] := ⟨List.cons_ne_nil _ _, List.all_eq_true.mp rfl⟩
  have hone : Digits ['1'] := digits_singleton rfl
  have hseven : Denotes ['0', '0', '7', '.', '5', '0'] (.number 7.5) := by
    refine .number (.fraction hzeros hhalf) ((ofText_fraction hzeros hhalf).trans ?_)
    exact congrArg _ (by decide +kernel)
  have hunit : Denotes ['1'] (.number 1) := by
    refine .number (.whole hone) ((ofText_whole hone).trans ?_)
    exact congrArg _ (by decide +kernel)
  have hx : Denotes ['x'] (.name "x") := .name rfl
  have hlast : Reads ['1', ')'] [.number 1, .closing] :=
    (reads_nil.symbol (by decide) .closing).lexeme
      (hunit.isLexeme.longest.append_symbol (by decide) _) hunit
  have hinner : Reads ['x', '-', '1', ')'] [.name "x", .operator .subtract, .number 1, .closing] :=
    (hlast.symbol (by decide) (.operator .subtract)).lexeme
      (hx.isLexeme.longest.append_symbol (by decide) _) hx
  have hreads : Reads "007.50*(x-1)".toList [.number 7.5, .operator .multiply, .opening, .name "x",
      .operator .subtract, .number 1, .closing] :=
    ((hinner.symbol (by decide) .opening).symbol (by decide) (.operator .multiply)).lexeme
      (hseven.isLexeme.longest.append_symbol (by decide) _) hseven
  obtain ⟨ts, ht, hkinds⟩ := tokenize_kinds_iff.mpr ⟨by decide, hreads⟩
  have hapart : Apart (ts.map Token.kind) := by
    rw [hkinds]
    simp [Apart, Token.Kind.operand?]
  have hfinite : ∀ x, .number x ∈ ts.map Token.kind → x.isFinite = true := by
    intro x hmem
    rw [hkinds] at hmem
    have hvalue : x = 7.5 ∨ x = 1 := by simpa using hmem
    rcases hvalue with rfl | rfl <;> decide +kernel
  have htext : joinedText ts = "7.5*(x-1)" := by
    rw [← String.toList_inj, toList_joinedText, hkinds]
    decide +kernel
  obtain ⟨us, hus, hback, -⟩ := tokenize_joinedText _ ts ht hapart hfinite
  exact ⟨ts, us, ht, hapart, hfinite, htext, htext ▸ hus, hback⟩

end GridRover.Expression
