import GridRover.Proofs.Expression.Munch

/-!
# Texts without tokens

Scanning takes one longest lexeme after the other, until the text is over or a character
comes that starts no lexeme. This character is reported wherever it stands and whatever
parentheses come before it; how many parentheses are open matters only in a text that is
scanned to its end. Wherever the scanner stands or looks, it is between two characters of
the text, and its column is the number of those behind it.
-/
namespace GridRover.Expression

open Text

/-- The lexemes are each the longest where they stand, in a text that goes on with `rest`
behind them, and there are only blanks in front of them. -/
def Taken (rest : List Char) : List Piece → Prop
  | [] => True
  | piece :: pieces =>
    Blanks piece.gap ∧ Longest piece.lexeme (spelled rest pieces) ∧ Taken rest pieces

/-- Taking longest lexemes uses up the first `column` characters of the text and some blanks
among them, and then `c` comes, which is no blank and starts no lexeme. -/
def HaltsAt (text : String) (c : Char) (column : Nat) : Prop :=
  ∃ pieces gap rest, text.toList = spelled gap pieces ++ c :: rest ∧
    Taken (gap ++ c :: rest) pieces ∧ Blanks gap ∧ isBlank c = false ∧
    (∀ cs, ¬ Lexeme (c :: cs)) ∧ column = (spelled gap pieces).length

theorem spelled_append (last more : List Char) (pieces : List Piece) :
    spelled (last ++ more) pieces = spelled last pieces ++ more := by
  induction pieces with
  | nil => rfl
  | cons piece pieces ih => simp only [spelled, ih, List.append_assoc]

theorem length_spelled (last : List Char) (pieces : List Piece) :
    (spelled last pieces).length = (spelled [] pieces).length + last.length := by
  rw [← List.length_append, ← spelled_append, List.nil_append]

/-- What starts a lexeme is one on its own. -/
theorem Lexeme.singleton {c : Char} {cs : List Char} (h : Lexeme (c :: cs)) : Lexeme [c] := by
  cases h with
  | numeral h =>
    obtain ⟨d, rest, heq, hd⟩ := h.exists_cons
    cases heq
    exact .numeral (.whole (Number.digits_singleton hd))
  | name h => exact .name (by simp [isName, isNameStart_of_isName h])
  | symbol h => exact .symbol h

theorem no_lexeme_iff {c : Char} {cs : List Char} :
    (∀ lexeme, Lexeme lexeme → ¬ lexeme <+: c :: cs) ↔ ∀ more, ¬ Lexeme (c :: more) := by
  constructor
  · intro h more hmore
    exact h [c] hmore.singleton (by simp)
  · intro h lexeme hlexeme hp
    obtain ⟨more, rfl⟩ := hlexeme.exists_of_prefix hp
    exact h more hlexeme

namespace Scanner

/-- Looking time and again, the scanner `s` takes the tokens and comes to stand at `last`. -/
inductive Reaches : Scanner → List Token → Scanner → Prop
  | rest (s : Scanner) : Reaches s [] s
  | step {s after last : Scanner} {t : Token} {ts : List Token} (hnext : s.next = .token t after)
    (h : Reaches after ts last) : Reaches s (t :: ts) last

variable {s last : Scanner} {ts : List Token}

/-- Every scan comes to an end, since each token leaves less of the text. -/
theorem exists_reaches (s : Scanner) :
    ∃ ts last, Reaches s ts last ∧
      (last.next = .finished ∨ ∃ c column, last.next = .unexpected c column) := by
  induction hn : s.rest.length using Nat.strong_induction_on generalizing s with
  | h n ih =>
    cases hnext : s.next with
    | finished => exact ⟨[], s, .rest s, .inl hnext⟩
    | unexpected c column => exact ⟨[], s, .rest s, .inr ⟨c, column, hnext⟩⟩
    | token t after =>
      obtain ⟨ts, last, hreaches, hlast⟩ := ih _ (hn ▸ next_rest_lt hnext) after rfl
      exact ⟨t :: ts, last, .step hnext hreaches, hlast⟩

theorem Reaches.tokens_of_finished (h : Reaches s ts last) (hlast : last.next = .finished) :
    s.tokens = .ok ts := by
  induction h with
  | rest s => exact Scanner.tokens_of_finished hlast
  | step hnext h ih =>
    rw [tokens_of_token hnext, ih hlast]
    rfl

theorem Reaches.tokens_of_unexpected {c : Char} {column : Nat} (h : Reaches s ts last)
    (hlast : last.next = .unexpected c column) : s.tokens = .error (.unexpected c column) := by
  induction h with
  | rest s => exact Scanner.tokens_of_unexpected hlast
  | step hnext h ih =>
    rw [tokens_of_token hnext, ih hlast]
    rfl

/-- Where a scan gets to, it has taken longest lexemes. -/
theorem Reaches.exists_pieces (h : Reaches s ts last) :
    ∃ pieces, s.rest = spelled last.rest pieces ∧ Taken last.rest pieces ∧
      last.column = s.column + (spelled [] pieces).length := by
  induction h with
  | rest s => exact ⟨[], rfl, trivial, rfl⟩
  | @step s after last t ts hnext h ih =>
    obtain ⟨pieces, hrest, htaken, hcolumn⟩ := ih
    cases next_eq_iff_sees.mp hnext with
    | @token w lexeme rest kind hs hw hl hd =>
      obtain rfl : rest = spelled last.rest pieces := hrest
      refine ⟨⟨w, lexeme⟩ :: pieces, hs, ⟨hw, hl, htaken⟩, ?_⟩
      simp only [hcolumn, spelled, List.length_append]
      omega

/-- What can be taken is taken. -/
theorem exists_reaches_of_taken {rest : List Char} {pieces : List Piece}
    (hs : s.rest = spelled rest pieces) (h : Taken rest pieces) :
    ∃ ts last, Reaches s ts last ∧ last.rest = rest ∧
      last.column = s.column + (spelled [] pieces).length := by
  induction pieces generalizing s with
  | nil => exact ⟨[], s, .rest s, hs, rfl⟩
  | cons piece pieces ih =>
    obtain ⟨hgap, hlongest, htaken⟩ := h
    obtain ⟨kind, hd⟩ := hlongest.isLexeme.exists_denotes
    have hnext := next_eq_iff_sees.mpr (.token hs hgap hlongest hd)
    obtain ⟨ts, last, hreaches, hrest, hcolumn⟩ := @ih ⟨spelled rest pieces, _, _⟩ rfl htaken
    refine ⟨_, last, .step hnext hreaches, hrest, ?_⟩
    simp only [hcolumn, spelled, List.length_append]
    omega

end Scanner

variable {text : String}

/-- A place that a scan gets to and that halts it. -/
theorem haltsAt_iff {c : Char} {column : Nat} :
    HaltsAt text c column ↔
      ∃ ts last, (Scanner.ofText text).Reaches ts last ∧ last.next = .unexpected c column := by
  constructor
  · rintro ⟨pieces, gap, rest, htext, htaken, hgap, hc, hnone, rfl⟩
    rw [← spelled_append] at htext
    obtain ⟨ts, last, hreaches, hrest, hcolumn⟩ :=
      @Scanner.exists_reaches_of_taken (.ofText text) _ _ htext htaken
    have hnext := Scanner.next_eq_iff_sees.mpr (.unexpected hrest hgap hc (no_lexeme_iff.mpr hnone))
    refine ⟨ts, last, hreaches, ?_⟩
    rw [hnext, hcolumn, length_spelled gap, Scanner.ofText, Nat.zero_add]
  · rintro ⟨ts, last, hreaches, hnext⟩
    obtain ⟨pieces, hrest, htaken, hcolumn⟩ := hreaches.exists_pieces
    cases Scanner.next_eq_iff_sees.mp hnext with
    | @unexpected gap rest _ hlast hgap hc hnone =>
      rw [hlast] at hrest htaken
      rw [spelled_append] at hrest
      refine ⟨pieces, gap, rest, hrest, htaken, hgap, hc, no_lexeme_iff.mp hnone, ?_⟩
      rw [hcolumn, length_spelled gap, Scanner.ofText, Nat.zero_add]

theorem tokens_cases (text : String) :
    (∃ ts, (Scanner.ofText text).tokens = .ok ts) ∨
      ∃ c column, HaltsAt text c column ∧
        (Scanner.ofText text).tokens = .error (.unexpected c column) := by
  obtain ⟨ts, last, hreaches, hlast | ⟨c, column, hlast⟩⟩ := (Scanner.ofText text).exists_reaches
  · exact .inl ⟨ts, hreaches.tokens_of_finished hlast⟩
  · exact .inr ⟨c, column, haltsAt_iff.mpr ⟨ts, last, hreaches, hlast⟩,
      hreaches.tokens_of_unexpected hlast⟩

theorem tokenize_of_haltsAt {c : Char} {column : Nat} (h : HaltsAt text c column) :
    tokenize text = .error (.unexpected c column) := by
  obtain ⟨ts, last, hreaches, hlast⟩ := haltsAt_iff.mp h
  simp only [tokenize, hreaches.tokens_of_unexpected hlast]

theorem haltsAt_of_tokenize {c : Char} {column : Nat}
    (h : tokenize text = .error (.unexpected c column)) : HaltsAt text c column := by
  rcases tokens_cases text with ⟨ts, htokens⟩ | ⟨d, k, hhalts, htokens⟩
  · simp only [tokenize, htokens] at h
    split at h <;> cases h
  · simp only [tokenize, htokens] at h
    cases h
    exact hhalts

theorem not_haltsAt_of_munched {last : List Char} {pieces : List Piece}
    (heq : text.toList = spelled last pieces) (hm : Munched last pieces) (c : Char)
    (column : Nat) : ¬ HaltsAt text c column := by
  intro hhalts
  obtain ⟨ts, hmarks⟩ := hm.exists_marks 0
  have htokens : (Scanner.ofText text).tokens = .ok ts := Scanner.tokens_of_pieces heq hm hmarks
  obtain ⟨ts', last', hreaches, hlast⟩ := haltsAt_iff.mp hhalts
  rw [hreaches.tokens_of_unexpected hlast] at htokens
  cases htokens

/-- In a text that is scanned to its end, only the parentheses can still be at fault. -/
theorem tokenize_of_not_haltsAt (h : ∀ c column, ¬ HaltsAt text c column) {excess : Int}
    (hexcess : excess = text.toList.count '(' - text.toList.count ')') :
    (excess ≠ 0 → tokenize text = .error (.unbalanced excess text.length)) ∧
      (excess = 0 → ∃ ts, tokenize text = .ok ts) := by
  rcases tokens_cases text with ⟨ts, htokens⟩ | ⟨c, column, hhalts, -⟩
  · obtain ⟨last, pieces, hrest, hm, hmarks⟩ := Scanner.exists_pieces htokens
    have hdepth : depth ts = excess := by
      rw [hexcess, depth_eq hm hmarks, ← hrest, Scanner.ofText]
    constructor
    · intro hne
      simp only [tokenize, htokens, hdepth, if_neg hne, String.length_toList]
    · intro hzero
      exact ⟨ts, tokenize_eq_ok_iff.mpr ⟨htokens, hdepth.trans hzero⟩⟩
  · exact absurd hhalts (h c column)

/-- The scanner stands between two characters of the text. Its byte is where a character
begins or the text ends, so that the text can be cut there, and its column is the number of
characters in front of the cut. -/
structure StandsIn (text : String) (s : Scanner) : Prop where
  boundary : (⟨s.offset⟩ : String.Pos.Raw).IsValid text
  cut : ∃ front back : String, text = front ++ back ∧ s.offset = front.utf8ByteSize ∧
    s.column = front.length ∧ s.rest = back.toList

/-- All that the scanner touches when it looks for the next token: the place behind the
blanks, both ends of a token, and the column of a character that it refuses. -/
structure LooksInside (text : String) (s : Scanner) : Prop where
  behind_blanks : StandsIn text s.skipBlanks
  around_token : ∀ t after, s.next = .token t after →
    t.start = s.skipBlanks.offset ∧ t.stop = after.offset ∧ t.start < t.stop ∧
      StandsIn text after
  at_refused : ∀ c column, s.next = .unexpected c column →
    column = s.skipBlanks.column ∧ s.skipBlanks.rest.head? = some c

theorem standsIn_of_split {s : Scanner} {front : List Char}
    (h : text.toList = front ++ s.rest) (hoffset : s.offset = byteLength front)
    (hcolumn : s.column = front.length) : StandsIn text s := by
  have htext : text = String.ofList front ++ String.ofList s.rest := by
    rw [← String.ofList_append, ← h, String.ofList_toList]
  have hsize : s.offset = (String.ofList front).utf8ByteSize := by
    rw [utf8ByteSize_eq, String.toList_ofList, hoffset]
  refine ⟨?_, String.ofList front, String.ofList s.rest, htext, hsize, ?_, ?_⟩
  · rw [String.Pos.Raw.isValid_iff_exists_append]
    exact ⟨_, _, htext, String.Pos.Raw.ext hsize⟩
  · rw [String.length_ofList, hcolumn]
  · rw [String.toList_ofList]

theorem standsIn_ofText (text : String) : StandsIn text (.ofText text) :=
  standsIn_of_split (List.nil_append _).symm rfl rfl

namespace StandsIn

variable {s : Scanner}

/-- Whole characters are taken, so that the scanner stands between two of them again. -/
theorem past {taken rest : List Char} (h : StandsIn text s) (hs : s.rest = taken ++ rest) :
    StandsIn text ⟨rest, s.column + taken.length, s.offset + byteLength taken⟩ := by
  obtain ⟨front, back, htext, hoffset, hcolumn, hrest⟩ := h.cut
  apply @standsIn_of_split text ⟨rest, _, _⟩ (front.toList ++ taken)
  · rw [htext, String.toList_append, ← hrest, hs, List.append_assoc]
  · rw [hoffset, utf8ByteSize_eq, byteLength_append]
  · rw [hcolumn, List.length_append, String.length_toList]

theorem skipBlanks (h : StandsIn text s) : StandsIn text s.skipBlanks := by
  obtain ⟨w, cs, -, -, hs, hskip⟩ := s.exists_skipBlanks
  rw [hskip]
  exact h.past hs

theorem looksInside (h : StandsIn text s) : LooksInside text s := by
  refine ⟨h.skipBlanks, ?_, ?_⟩
  · intro t after hnext
    cases Scanner.next_eq_iff_sees.mp hnext with
    | @token w lexeme rest kind hs hw hl hd =>
      have hskip := Scanner.skipBlanks_eq hs hw (hl.isLexeme.startsSolid _)
      have hstands := h.skipBlanks
      rw [hskip] at hstands ⊢
      exact ⟨rfl, rfl, Nat.lt_add_of_pos_right hl.isLexeme.byteLength_pos, hstands.past rfl⟩
  · intro c column hnext
    cases Scanner.next_eq_iff_sees.mp hnext with
    | @unexpected w cs _ hs hw hc hnone =>
      rw [Scanner.skipBlanks_eq hs hw (startsSolid_cons.mpr hc)]
      exact ⟨rfl, rfl⟩

theorem next {t : Token} {after : Scanner} (h : StandsIn text s)
    (hnext : s.next = .token t after) : StandsIn text after :=
  (h.looksInside.around_token t after hnext).2.2.2

/-- No token takes the scanner off the boundaries between characters. -/
theorem reaches {ts : List Token} {last : Scanner} (h : StandsIn text s)
    (hreaches : s.Reaches ts last) : StandsIn text last := by
  induction hreaches with
  | rest s => exact h
  | step hnext hreaches ih => exact ih (h.next hnext)

end StandsIn

/-- A text has no tokens for one of two reasons. Taking one longest lexeme after the other
comes to a character that starts none, which is reported with the number of characters in
front of it, whatever parentheses these are. Or there is no such character and the
parentheses are not equal in number, which is reported at the end of the text. All other
texts have tokens. However far the scan gets, it stands and looks only at the boundaries
between characters of the text. -/
theorem tokenize_refusals (text : String) :
    (∀ c column, tokenize text = .error (.unexpected c column) ↔ HaltsAt text c column) ∧
    ((∀ c column, ¬ HaltsAt text c column) →
      ∀ excess : Int, excess = text.toList.count '(' - text.toList.count ')' →
        (excess ≠ 0 → tokenize text = .error (.unbalanced excess text.length)) ∧
        (excess = 0 → ∃ ts, tokenize text = .ok ts)) ∧
    ∀ ts last, (Scanner.ofText text).Reaches ts last →
      StandsIn text last ∧ LooksInside text last := by
  refine ⟨?_, ?_, ?_⟩
  · intro c column
    exact ⟨haltsAt_of_tokenize, tokenize_of_haltsAt⟩
  · intro h excess hexcess
    exact tokenize_of_not_haltsAt h hexcess
  · intro ts last hreaches
    have hstands := (standsIn_ofText text).reaches hreaches
    exact ⟨hstands, hstands.looksInside⟩

/-- A point that no digit follows is refused, and the parenthesis before it does not matter.
A blank of three bytes is one character in both columns. -/
theorem tokenize_refusals_wide_blank :
    tokenize "(\u20031.y" = .error (.unexpected '.' 3) ∧
      (∀ c column, ¬ HaltsAt "(\u2003(x" c column) ∧
      tokenize "(\u2003(x" = .error (.unbalanced 2 4) := by
  have hwide : Blanks ['\u2003'] := List.forall_mem_singleton.mpr (by decide)
  have hone : Longest ['1'] ['.', 'y'] :=
    longest_whole (Number.digits_singleton (by decide)) (stops_cons.mpr (by decide)) rfl
  have hx : Longest ['x'] [] := longest_name (by decide) (stops_nil _)
  have hhalts : HaltsAt "(\u20031.y" '.' 3 := by
    refine ⟨[⟨[], ['(']⟩, ⟨['\u2003'], ['1']⟩], [], ['y'], by decide, ?_, blanks_nil, by decide,
      ?_, by decide⟩
    · exact ⟨blanks_nil, longest_symbol (by decide) _, hwide, hone, trivial⟩
    · intro cs hpoint
      exact lexeme?_ne_none hpoint [] rfl
  have hmunched : Munched [] [⟨[], ['(']⟩, ⟨['\u2003'], ['(']⟩, ⟨[], ['x']⟩] :=
    ⟨blanks_nil, longest_symbol (by decide) _, hwide, longest_symbol (by decide) _,
      blanks_nil, hx, blanks_nil⟩
  have hnot : ∀ c column, ¬ HaltsAt "(\u2003(x" c column :=
    not_haltsAt_of_munched (by decide) hmunched
  exact ⟨((tokenize_refusals _).1 _ _).mpr hhalts, hnot,
    ((tokenize_refusals _).2.1 hnot 2 (by decide)).1 (by decide)⟩

end GridRover.Expression
