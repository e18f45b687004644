import GridRover.Proofs.Expression.Rejection

/-!
# A text scanned step by step

Looking at a text time and again is answered with its tokens, one at each look and each behind
the one before. From then on all looks are answered alike: nothing is left, or the same
character is refused at the same column. A look that finds no token takes the scanner past
blanks at most, and what stands behind the blanks is found from either side of them.
-/
namespace GridRover.Expression

open Text

/-- The tokens lie one behind the other, from byte `first` of a text on and up to byte `last`,
and each covers something. -/
structure Ascends (first : Nat) (ts : List Token) (last : Nat) : Prop where
  first_le_last : first ≤ last
  inside : ∀ t ∈ ts, first ≤ t.start ∧ t.stop ≤ last
  start_lt_stop : ∀ t ∈ ts, t.start < t.stop
  ordered : ts.Pairwise fun t later => t.stop ≤ later.start

section Ascends

variable {first last : Nat} {t : Token} {ts : List Token}

theorem ascends_nil (offset : Nat) : Ascends offset [] offset :=
  ⟨Nat.le_refl offset, by simp, by simp, .nil⟩

theorem Ascends.cons (hfirst : first ≤ t.start) (hlt : t.start < t.stop)
    (h : Ascends t.stop ts last) : Ascends first (t :: ts) last := by
  have hlast := h.first_le_last
  refine ⟨by omega, List.forall_mem_cons.mpr ⟨⟨hfirst, hlast⟩, ?_⟩, ?_, ?_⟩
  · intro u hu
    obtain ⟨hstart, hstop⟩ := h.inside u hu
    exact ⟨by omega, hstop⟩
  · exact List.forall_mem_cons.mpr ⟨hlt, h.start_lt_stop⟩
  · exact .cons (fun later hlater => (h.inside later hlater).1) h.ordered

theorem Ascends.mono {bound : Nat} (h : Ascends first ts last) (hbound : last ≤ bound) :
    Ascends first ts bound where
  first_le_last := h.first_le_last.trans hbound
  inside t ht := ⟨(h.inside t ht).1, (h.inside t ht).2.trans hbound⟩
  start_lt_stop := h.start_lt_stop
  ordered := h.ordered

end Ascends

/-- What one look is answered with: a token, nothing at the end of the text, or an error. -/
abbrev Answer := Except TokenError (Option Token)

namespace Scanner

def Next.answer : Next → Answer
  | .token t _ => .ok (some t)
  | .finished => .ok none
  | .unexpected char column => .error (.unexpected char column)

/-- The answers to `n` looks in a row. -/
def answers : Nat → Scanner → List Answer
  | 0, _ => []
  | n + 1, s => s.next.answer :: answers n s.advance

/-- The scanner stands where it finds no token. -/
def Halted (s : Scanner) : Prop := ∀ t after, s.next ≠ .token t after

variable {s after last : Scanner} {t : Token} {ts : List Token}

theorem halted_iff :
    s.Halted ↔ s.next = .finished ∨ ∃ c column, s.next = .unexpected c column := by
  unfold Halted
  cases s.next <;> simp

theorem advance_of_token (h : s.next = .token t after) : s.advance = after := by
  simp only [advance, h]

theorem Halted.advance_eq (h : s.Halted) : s.advance = s.skipBlanks := by
  rw [advance]
  split
  · rename_i t after hnext
    exact absurd hnext (h t after)
  · rfl

theorem skipBlanks_skipBlanks (s : Scanner) : s.skipBlanks.skipBlanks = s.skipBlanks := by
  obtain ⟨w, cs, -, hcs, -, hskip⟩ := s.exists_skipBlanks
  rw [hskip, skipBlanks_eq (List.nil_append cs).symm blanks_nil hcs]
  rfl

theorem next_skipBlanks (s : Scanner) : s.skipBlanks.next = s.next := by
  simp only [next, skipBlanks_skipBlanks]

theorem Halted.skipBlanks (h : s.Halted) : s.skipBlanks.Halted := by
  intro t after
  rw [next_skipBlanks]
  exact h t after

/-- Where there is no token, looking again makes no difference. -/
theorem Halted.answers_eq (h : s.Halted) (n : Nat) :
    s.answers n = List.replicate n s.next.answer := by
  -- The first look may move the scanner past blanks, so its place changes in the induction.
  induction n generalizing s with
  | zero => rfl
  | succ n ih =>
    rw [answers, h.advance_eq, ih h.skipBlanks, next_skipBlanks, List.replicate_succ]

/-- Each look on the way is answered with one token. -/
theorem Reaches.answers_eq (h : Reaches s ts last) (n : Nat) :
    s.answers n = (ts.take n).map (.ok ∘ some) ++ last.answers (n - ts.length) := by
  induction h generalizing n with
  | rest s => simp
  | step hnext h ih =>
    cases n with
    | zero => simp [answers]
    | succ n => simp [answers, hnext, Next.answer, advance_of_token hnext, ih]

/-- A token begins where the scanner stands or further on, and the scanner stops at its end. -/
theorem span_of_next (h : s.next = .token t after) :
    s.offset ≤ t.start ∧ t.start < t.stop ∧ after.offset = t.stop := by
  cases next_eq_iff_sees.mp h with
  | token hs hw hl hd =>
    exact ⟨Nat.le_add_right .., Nat.lt_add_of_pos_right hl.isLexeme.byteLength_pos, rfl⟩

theorem Reaches.ascends (h : Reaches s ts last) : Ascends s.offset ts last.offset := by
  induction h with
  | rest s => exact ascends_nil s.offset
  | step hnext h ih =>
    obtain ⟨hstart, hlt, hafter⟩ := span_of_next hnext
    rw [hafter] at ih
    exact .cons hstart hlt ih

end Scanner

variable {text : String} {ts : List Token}

theorem StandsIn.offset_le {s : Scanner} (h : StandsIn text s) : s.offset ≤ text.utf8ByteSize := by
  obtain ⟨front, back, rfl, hoffset, -, -⟩ := h.cut
  rw [hoffset, String.utf8ByteSize_append]
  exact Nat.le_add_right ..

theorem tokenize_of_tokens (h : (Scanner.ofText text).tokens = .ok ts) :
    tokenize text =
      if ts.countP (·.kind = .opening) = ts.countP (·.kind = .closing) then .ok ts
      else .error (.unbalanced (depth ts) text.length) := by
  simp only [tokenize, h, depth_eq_zero_iff, String.length_toList]

theorem tiles_of_tokens (h : (Scanner.ofText text).tokens = .ok ts) : Tiles text ts := by
  obtain ⟨last, pieces, hrest, hm, hmarks⟩ := Scanner.exists_pieces h
  exact hmarks.tiles hrest hm

/-- Looking at a text `n` times in a row is answered with its first `n` tokens and, if it has
fewer, always with the same answer after them. Either nothing is left, and then the tokens
cover the text but for blanks, or one character is refused at one column, where no lexeme
starts; parentheses are never at fault in these answers. The tokens lie one behind the other
in the text. Taken all at once they are refused for the same character, and where there is
none, only if there are not as many opening as closing parentheses among them. -/
theorem answers_settle (text : String) :
    ∃ (ts : List Token) (final : Answer),
      Ascends 0 ts text.utf8ByteSize ∧
      (∀ n, (Scanner.ofText text).answers n =
        (ts.take n).map (.ok ∘ some) ++ List.replicate (n - ts.length) final) ∧
      ((final = .ok none ∧ Tiles text ts ∧
        tokenize text =
          if ts.countP (·.kind = .opening) = ts.countP (·.kind = .closing) then .ok ts
          else .error (.unbalanced (depth ts) text.length)) ∨
      ∃ c column, final = .error (.unexpected c column) ∧ HaltsAt text c column ∧
        tokenize text = .error (.unexpected c column)) := by
  obtain ⟨ts, last, hreaches, hlast⟩ := (Scanner.ofText text).exists_reaches
  have hstands : StandsIn text last := (standsIn_ofText text).reaches hreaches
  refine ⟨ts, last.next.answer, hreaches.ascends.mono hstands.offset_le, ?_, ?_⟩
  · intro n
    rw [hreaches.answers_eq, (Scanner.halted_iff.mpr hlast).answers_eq]
  · rcases hlast with hfinished | ⟨c, column, hrefused⟩
    · have htokens := hreaches.tokens_of_finished hfinished
      exact .inl ⟨by rw [hfinished]; rfl, tiles_of_tokens htokens, tokenize_of_tokens htokens⟩
    · have hhalts := haltsAt_iff.mpr ⟨ts, last, hreaches, hrefused⟩
      exact .inr ⟨c, column, by rw [hrefused]; rfl, hhalts, tokenize_of_haltsAt hhalts⟩

/-- The first refusal takes the scanner past the blanks, the second finds it there. -/
example : (Scanner.ofText "x)  .").answers 4 =
    [.ok (some ⟨.name "x", 0, 1⟩), .ok (some ⟨.closing, 1, 2⟩), .error (.unexpected '.' 4),
      .error (.unexpected '.' 4)] := by
  rfl

end GridRover.Expression
