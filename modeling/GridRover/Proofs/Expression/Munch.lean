import GridRover.Proofs.Expression.Lexeme

/-!
# A text cut into lexemes

A text is scanned by cutting it into pieces, each a run of blanks and the longest lexeme
behind it, until only blanks are left. The tokens mark the lexemes in the text: nothing is
lost between them but blanks.
-/
namespace GridRover.Expression

open Text

/-- A lexeme with the blanks in front of it. -/
structure Piece where
  gap : List Char
  lexeme : List Char

/-- The text that pieces make, with `last` behind them. -/
def spelled (last : List Char) : List Piece → List Char
  | [] => last
  | piece :: pieces => piece.gap ++ (piece.lexeme ++ spelled last pieces)

/-- There are only blanks around the lexemes, and each lexeme is the longest where it stands. -/
def Munched (last : List Char) : List Piece → Prop
  | [] => Blanks last
  | piece :: pieces =>
    Blanks piece.gap ∧ Longest piece.lexeme (spelled last pieces) ∧ Munched last pieces

/-- The tokens stand for the lexemes of the pieces, in a text that begins at byte `offset`. -/
inductive Marks : Nat → List Piece → List Token → Prop
  | nil (offset : Nat) : Marks offset [] []
  | cons {offset : Nat} {piece : Piece} {kind : Token.Kind} {pieces : List Piece}
    {tokens : List Token} (hd : Denotes piece.lexeme kind)
    (h : Marks (offset + byteLength piece.gap + byteLength piece.lexeme) pieces tokens) :
    Marks offset (piece :: pieces)
      (⟨kind, offset + byteLength piece.gap,
        offset + byteLength piece.gap + byteLength piece.lexeme⟩ :: tokens)

theorem byteLength_append (cs ds : List Char) :
    byteLength (cs ++ ds) = byteLength cs + byteLength ds := by
  induction cs with
  | nil => simp [byteLength]
  | cons c cs ih => rw [List.cons_append, byteLength, byteLength, ih, Nat.add_assoc]

theorem byteLength_pos {cs : List Char} (h : cs ≠ []) : 0 < byteLength cs := by
  cases cs with
  | nil => exact absurd rfl h
  | cons c cs => exact Nat.add_pos_left c.utf8Size_pos _

theorem Lexeme.byteLength_pos {lexeme : List Char} (h : Lexeme lexeme) : 0 < byteLength lexeme := by
  obtain ⟨c, cs, rfl⟩ := h.exists_cons
  exact Expression.byteLength_pos (List.cons_ne_nil c cs)

theorem Lexeme.startsSolid {lexeme : List Char} (h : Lexeme lexeme) (rest : List Char) :
    StartsSolid (lexeme ++ rest) := by
  cases h with
  | numeral h =>
    obtain ⟨c, cs, rfl, hc⟩ := h.exists_cons
    exact startsSolid_cons.mpr (isBlank_of_isNameChar (isNameChar_of_isDigit hc))
  | name h => exact startsSolid_name h rest
  | symbol h =>
    apply startsSolid_cons.mpr
    rcases symbol_cases h with rfl | rfl | rfl | rfl | rfl | rfl <;> decide

namespace Scanner

theorem skipBlanks_eq {s : Scanner} {w cs : List Char} (hs : s.rest = w ++ cs) (hw : Blanks w)
    (hcs : StartsSolid cs) :
    s.skipBlanks = ⟨cs, s.column + w.length, s.offset + byteLength w⟩ := by
  rw [skipBlanks, hs, takeWhile_of_stops hw hcs, skip, hs, List.drop_left, List.take_left]

theorem exists_skipBlanks (s : Scanner) :
    ∃ w cs, Blanks w ∧ StartsSolid cs ∧ s.rest = w ++ cs ∧
      s.skipBlanks = ⟨cs, s.column + w.length, s.offset + byteLength w⟩ := by
  obtain ⟨hcs, w, hw, hs⟩ := trimStart_eq_iff.mp (Eq.refl (trimStart s.rest))
  exact ⟨w, _, hw, hcs, hs, skipBlanks_eq hs hw hcs⟩

/-- All that can stand next in a text. -/
inductive Sees (s : Scanner) : Next → Prop
  | finished : Blanks s.rest → Sees s .finished
  | unexpected {w cs : List Char} {c : Char} : s.rest = w ++ c :: cs → Blanks w →
      isBlank c = false → (∀ lexeme, Lexeme lexeme → ¬ lexeme <+: c :: cs) →
      Sees s (.unexpected c (s.column + w.length))
  | token {w lexeme rest : List Char} {kind : Token.Kind} : s.rest = w ++ (lexeme ++ rest) →
      Blanks w → Longest lexeme rest → Denotes lexeme kind →
      Sees s (.token
        ⟨kind, s.offset + byteLength w, s.offset + byteLength w + byteLength lexeme⟩
        ⟨rest, s.column + w.length + lexeme.length,
          s.offset + byteLength w + byteLength lexeme⟩)

theorem sees (s : Scanner) : Sees s s.next := by
  obtain ⟨w, cs, hw, hcs, hs, hskip⟩ := s.exists_skipBlanks
  cases cs with
  | nil =>
    simp only [next, hskip]
    rw [List.append_nil] at hs
    exact .finished (hs ▸ hw)
  | cons c cs =>
    cases htaken : lexeme? (c :: cs) with
    | none =>
      simp only [next, hskip, htaken]
      refine .unexpected hs hw (startsSolid_cons.mp hcs) ?_
      rintro lexeme hlexeme ⟨rest, hrest⟩
      rw [← hrest] at htaken
      exact lexeme?_ne_none hlexeme rest htaken
    | some taken =>
      obtain ⟨lexeme, kind⟩ := taken
      obtain ⟨rest, hrest, hl, hd⟩ := lexeme?_eq_some_iff.mp htaken
      simp only [next, hskip, htaken, skip]
      rw [hrest, List.drop_left, List.take_left]
      exact .token (hrest ▸ hs) hw hl hd

/-- Blanks and what stands behind them can be told apart in one way only. -/
theorem next_eq_iff_sees {s : Scanner} {n : Next} : s.next = n ↔ Sees s n := by
  constructor
  · rintro rfl
    exact s.sees
  intro h
  cases h with
  | finished h =>
    have hskip := skipBlanks_eq (List.append_nil s.rest).symm h startsSolid_nil
    simp only [next, hskip]
  | @unexpected w cs c hs hw hc hnone =>
    have hskip := skipBlanks_eq hs hw (startsSolid_cons.mpr hc)
    have htaken : lexeme? (c :: cs) = none := by
      rw [Option.eq_none_iff_forall_ne_some]
      rintro ⟨lexeme, kind⟩ htaken
      obtain ⟨rest, hrest, hl, -⟩ := lexeme?_eq_some_iff.mp htaken
      exact hnone lexeme hl.isLexeme ⟨rest, hrest.symm⟩
    simp only [next, hskip, htaken]
  | token hs hw hl hd =>
    have hskip := skipBlanks_eq hs hw (hl.isLexeme.startsSolid _)
    have htaken := lexeme?_eq_some_iff.mpr ⟨_, rfl, hl, hd⟩
    obtain ⟨c, cs, hc⟩ := hl.isLexeme.exists_cons
    simp only [next, hskip, htaken, skip, List.drop_left, List.take_left]
    rw [hc, List.cons_append]

theorem tokens_of_finished {s : Scanner} (h : s.next = .finished) : s.tokens = .ok [] := by
  rw [tokens]
  split <;> simp_all

theorem tokens_of_unexpected {s : Scanner} {char : Char} {column : Nat}
    (h : s.next = .unexpected char column) : s.tokens = .error (.unexpected char column) := by
  rw [tokens]
  split <;> simp_all

theorem tokens_of_token {s after : Scanner} {t : Token} (h : s.next = .token t after) :
    s.tokens = after.tokens.map (t :: ·) := by
  rw [tokens]
  split <;> simp_all
  cases after.tokens <;> rfl

/-- A text that is scanned to its end is cut into pieces, and its tokens mark the lexemes. -/
theorem exists_pieces {s : Scanner} {ts : List Token} (h : s.tokens = .ok ts) :
    ∃ last pieces, s.rest = spelled last pieces ∧ Munched last pieces ∧
      Marks s.offset pieces ts := by
  induction hn : s.rest.length using Nat.strong_induction_on generalizing s ts with
  | h n ih =>
    cases hnext : s.next with
    | finished =>
      rw [tokens_of_finished hnext] at h
      cases h
      cases next_eq_iff_sees.mp hnext with
      | finished hblanks => exact ⟨s.rest, [], rfl, hblanks, .nil _⟩
    | unexpected char column =>
      rw [tokens_of_unexpected hnext] at h
      cases h
    | token t after =>
      rw [tokens_of_token hnext] at h
      cases hafter : after.tokens with
      | error e =>
        rw [hafter] at h
        cases h
      | ok more =>
        rw [hafter] at h
        cases h
        have hlt := next_rest_lt hnext
        obtain ⟨last, pieces, hrest, hmunched, hmarks⟩ := ih _ (hn ▸ hlt) hafter rfl
        cases next_eq_iff_sees.mp hnext with
        | @token w lexeme rest kind hs hw hl hd =>
          obtain rfl : rest = spelled last pieces := hrest
          exact ⟨last, ⟨w, lexeme⟩ :: pieces, hs, ⟨hw, hl, hmunched⟩, .cons hd hmarks⟩

theorem tokens_of_pieces {s : Scanner} {last : List Char} {pieces : List Piece}
    {ts : List Token} (hs : s.rest = spelled last pieces) (hm : Munched last pieces)
    (h : Marks s.offset pieces ts) : s.tokens = .ok ts := by
  induction pieces generalizing s ts with
  | nil =>
    cases h
    exact tokens_of_finished (next_eq_iff_sees.mpr (.finished (hs ▸ hm)))
  | cons piece pieces ih =>
    cases h with
    | cons hd hmarks =>
      have hnext := next_eq_iff_sees.mpr (.token hs hm.1 hm.2.1 hd)
      rw [tokens_of_token hnext, ih rfl hm.2.2 hmarks]
      rfl

end Scanner

/-- Every cut of a text has tokens. -/
theorem Munched.exists_marks {last : List Char} {pieces : List Piece} (h : Munched last pieces)
    (offset : Nat) : ∃ ts, Marks offset pieces ts := by
  induction pieces generalizing offset with
  | nil => exact ⟨[], .nil offset⟩
  | cons piece pieces ih =>
    obtain ⟨kind, hd⟩ := h.2.1.isLexeme.exists_denotes
    obtain ⟨ts, hts⟩ := ih h.2.2 (offset + byteLength piece.gap + byteLength piece.lexeme)
    exact ⟨_, .cons hd hts⟩

/-- The parenthesis that a token is. -/
def Token.Kind.parenthesis? : Token.Kind → Option Char
  | .opening => some '('
  | .closing => some ')'
  | _ => none

section Balance

variable {c : Char}

/-- A parenthesis stands in a text only where it is a token. -/
theorem Denotes.count_parenthesis (hc : c = '(' ∨ c = ')') {lexeme : List Char}
    {kind : Token.Kind} (h : Denotes lexeme kind) :
    lexeme.count c = if kind.parenthesis? = some c then 1 else 0 := by
  have hnone {cs : List Char} (hcs : ∀ d ∈ cs, d ≠ '(' ∧ d ≠ ')') : cs.count c = 0 := by
    rw [List.count_eq_zero]
    intro hmem
    obtain ⟨hopening, hclosing⟩ := hcs c hmem
    exact hc.elim hopening hclosing
  cases h with
  | number hnumeral hx =>
    apply hnone
    intro d hd
    constructor <;> rintro rfl <;> exact absurd (hnumeral.isDigit_or_point hd) (by decide)
  | name hname =>
    apply hnone
    intro d hd
    constructor <;> rintro rfl <;> exact absurd (isNameChar_of_mem hname hd) (by decide)
  | operator op =>
    apply hnone
    intro d hd
    rw [List.mem_singleton.mp hd]
    cases op <;> decide
  | opening => rcases hc with rfl | rfl <;> rfl
  | closing => rcases hc with rfl | rfl <;> rfl

theorem count_blanks (hc : c = '(' ∨ c = ')') {w : List Char} (h : Blanks w) : w.count c = 0 := by
  rw [List.count_eq_zero]
  intro hmem
  have hblank := h c hmem
  rcases hc with rfl | rfl <;> exact absurd hblank (by decide)

theorem count_spelled (hc : c = '(' ∨ c = ')') {last : List Char} {pieces : List Piece}
    {offset : Nat} {ts : List Token} (hm : Munched last pieces) (h : Marks offset pieces ts) :
    (spelled last pieces).count c = ts.countP (·.kind.parenthesis? = some c) := by
  induction h with
  | nil offset => exact count_blanks hc hm
  | cons hd h ih =>
    rw [spelled, List.count_append, List.count_append, count_blanks hc hm.1,
      hd.count_parenthesis hc, ih hm.2.2, List.countP_cons]
    simp only [decide_eq_true_eq]
    omega

theorem depth_eq {last : List Char} {pieces : List Piece} {offset : Nat} {ts : List Token}
    (hm : Munched last pieces) (h : Marks offset pieces ts) :
    depth ts = ((spelled last pieces).count '(' : Int) - (spelled last pieces).count ')' := by
  have hopening (kind : Token.Kind) : kind = .opening ↔ kind.parenthesis? = some '(' := by
    cases kind <;> simp [Token.Kind.parenthesis?]
  have hclosing (kind : Token.Kind) : kind = .closing ↔ kind.parenthesis? = some ')' := by
    cases kind <;> simp [Token.Kind.parenthesis?]
  rw [depth, count_spelled (.inl rfl) hm h, count_spelled (.inr rfl) hm h]
  simp only [hopening, hclosing]

end Balance

theorem utf8ByteSize_eq (text : String) : text.utf8ByteSize = byteLength text.toList := by
  have hlist (cs : List Char) : (String.ofList cs).utf8ByteSize = byteLength cs := by
    induction cs with
    | nil => rfl
    | cons c cs ih =>
      rw [String.ofList_cons, String.utf8ByteSize_append, String.utf8ByteSize_singleton, ih,
        byteLength]
  rw [← hlist, String.ofList_toList]

/-- How tokens lie in a text. Each covers one lexeme, from a character boundary to another,
they follow one another without overlapping, and all they leave uncovered are blanks. -/
structure Tiles (text : String) (ts : List Token) : Prop where
  cut : ∀ t ∈ ts, ∃ front lexeme back : String, text = front ++ lexeme ++ back ∧
    t.start = front.utf8ByteSize ∧ t.stop = (front ++ lexeme).utf8ByteSize ∧
    Longest lexeme.toList back.toList ∧ Denotes lexeme.toList t.kind
  start_lt_stop : ∀ t ∈ ts, t.start < t.stop
  ordered : ts.Pairwise fun t later => t.stop ≤ later.start
  outside : ∀ (front back : String) (c : Char), text = front ++ String.singleton c ++ back →
    (∀ t ∈ ts, ¬ (t.start ≤ front.utf8ByteSize ∧ front.utf8ByteSize < t.stop)) →
    isBlank c = true

section Spans

variable {last : List Char} {pieces : List Piece} {offset : Nat} {ts : List Token}

theorem Marks.exists_lexeme (hm : Munched last pieces) (h : Marks offset pieces ts) {t : Token}
    (ht : t ∈ ts) :
    ∃ front lexeme back, spelled last pieces = front ++ (lexeme ++ back) ∧
      t.start = offset + byteLength front ∧ t.stop = t.start + byteLength lexeme ∧
      Longest lexeme back ∧ Denotes lexeme t.kind := by
  induction h with
  | nil offset => cases ht
  | @cons offset piece kind pieces ts hd h ih =>
    rcases List.mem_cons.mp ht with rfl | ht
    · exact ⟨piece.gap, piece.lexeme, spelled last pieces, rfl, rfl, rfl, hm.2.1, hd⟩
    · obtain ⟨front, lexeme, back, heq, hstart, hstop, hl, hd'⟩ := ih hm.2.2 ht
      refine ⟨piece.gap ++ (piece.lexeme ++ front), lexeme, back, ?_, ?_, hstop, hl, hd'⟩
      · rw [spelled, heq]
        simp only [List.append_assoc]
      · rw [hstart, byteLength_append, byteLength_append]
        omega

theorem Marks.le_start (h : Marks offset pieces ts) {t : Token} (ht : t ∈ ts) :
    offset ≤ t.start := by
  induction h with
  | nil offset => cases ht
  | cons hd h ih =>
    rcases List.mem_cons.mp ht with rfl | ht
    · exact Nat.le_add_right ..
    · have hle := ih ht
      omega

theorem Marks.ordered (h : Marks offset pieces ts) :
    ts.Pairwise fun t later => t.stop ≤ later.start := by
  induction h with
  | nil offset => exact .nil
  | cons hd h ih => exact .cons (fun later hlater => h.le_start hlater) ih

/-- A character of two texts set end to end belongs to one of them. -/
private theorem append_eq_append_cons {xs ys front back : List Char} {c : Char}
    (h : xs ++ ys = front ++ c :: back) :
    (∃ more, xs = front ++ c :: more) ∨ ∃ more, front = xs ++ more ∧ ys = more ++ c :: back := by
  rcases List.append_eq_append_iff.mp h with ⟨more, hfront, hys⟩ | ⟨more, hxs, hback⟩
  · exact .inr ⟨more, hfront, hys⟩
  · cases more with
    | nil => exact .inr ⟨[], by simpa using hxs.symm, by simpa using hback.symm⟩
    | cons d more =>
      cases hback
      exact .inl ⟨more, hxs⟩

theorem Marks.outside (hm : Munched last pieces) (h : Marks offset pieces ts)
    {front back : List Char} {c : Char} (heq : spelled last pieces = front ++ c :: back)
    (hout : ∀ t ∈ ts, ¬ (t.start ≤ offset + byteLength front ∧
      offset + byteLength front < t.stop)) : isBlank c = true := by
  induction h generalizing front with
  | nil offset =>
    have hlast : last = front ++ c :: back := heq
    exact hm c (by rw [hlast]; simp)
  | @cons offset piece kind pieces ts hd h ih =>
    rcases append_eq_append_cons heq with ⟨more, hgap⟩ | ⟨front, rfl, hafter⟩
    · exact hm.1 c (by rw [hgap]; simp)
    rcases append_eq_append_cons hafter with ⟨more, hlexeme⟩ | ⟨front, rfl, hrest⟩
    · have hpos := byteLength_pos (List.cons_ne_nil c more)
      have hin := hout _ List.mem_cons_self
      simp only [hlexeme, byteLength_append] at hin
      omega
    · apply ih hm.2.2 hrest
      intro t ht
      have hnot := hout t (List.mem_cons_of_mem _ ht)
      simp only [byteLength_append, ← Nat.add_assoc] at hnot
      exact hnot

end Spans

/-- Tokens that mark the lexemes of a text cover them. -/
theorem Marks.tiles {text : String} {last : List Char} {pieces : List Piece} {ts : List Token}
    (heq : text.toList = spelled last pieces) (hm : Munched last pieces)
    (h : Marks 0 pieces ts) : Tiles text ts := by
  have hcut {t : Token} (ht : t ∈ ts) := h.exists_lexeme hm ht
  refine ⟨?_, ?_, h.ordered, ?_⟩
  · intro t ht
    obtain ⟨front, lexeme, back, hsplit, hstart, hstop, hl, hd⟩ := hcut ht
    refine ⟨String.ofList front, String.ofList lexeme, String.ofList back, ?_, ?_, ?_, ?_, ?_⟩
    · rw [← String.ofList_append, ← String.ofList_append, List.append_assoc, ← hsplit, ← heq,
        String.ofList_toList]
    · rw [utf8ByteSize_eq, String.toList_ofList, hstart, Nat.zero_add]
    · rw [String.utf8ByteSize_append, utf8ByteSize_eq, utf8ByteSize_eq, String.toList_ofList,
        String.toList_ofList, hstop, hstart, Nat.zero_add]
    · rwa [String.toList_ofList, String.toList_ofList]
    · rwa [String.toList_ofList]
  · intro t ht
    obtain ⟨front, lexeme, back, -, -, hstop, hl, -⟩ := hcut ht
    have hpos := hl.isLexeme.byteLength_pos
    omega
  · intro front back c htext hout
    have hsplit : spelled last pieces = front.toList ++ c :: back.toList := by
      rw [← heq, htext]
      simp
    apply h.outside hm hsplit
    simpa only [Nat.zero_add, ← utf8ByteSize_eq] using hout

theorem countP_kind (kind : Token.Kind) (ts : List Token) :
    ts.countP (·.kind = kind) = (ts.map Token.kind).count kind := by
  rw [List.count, List.countP_map]
  rfl

theorem depth_eq_zero_iff {ts : List Token} :
    depth ts = 0 ↔ ts.countP (·.kind = .opening) = ts.countP (·.kind = .closing) := by
  rw [depth]
  omega

theorem tokenize_eq_ok_iff {text : String} {ts : List Token} :
    tokenize text = .ok ts ↔ (Scanner.ofText text).tokens = .ok ts ∧ depth ts = 0 := by
  rw [tokenize]
  cases (Scanner.ofText text).tokens with
  | error e => simp
  | ok tokens =>
    by_cases hdepth : depth tokens = 0
    · simp only [hdepth, if_true, Except.ok.injEq]
      exact ⟨fun h => ⟨h, h ▸ hdepth⟩, And.left⟩
    · simp only [hdepth, if_false, reduceCtorEq, Except.ok.injEq, false_iff, not_and]
      rintro rfl
      exact hdepth

/-- Where the lexemes of a text are marked, only the parentheses can still be at fault. -/
theorem Marks.tokenize_iff {text : String} {last : List Char} {pieces : List Piece}
    {ts : List Token} (heq : text.toList = spelled last pieces) (hm : Munched last pieces)
    (h : Marks 0 pieces ts) :
    tokenize text = .ok ts ↔ text.toList.count '(' = text.toList.count ')' := by
  have hscan : (Scanner.ofText text).tokens = .ok ts := Scanner.tokens_of_pieces heq hm h
  rw [tokenize_eq_ok_iff, depth_eq hm h, heq]
  constructor
  · rintro ⟨-, hdepth⟩
    omega
  · intro hcount
    exact ⟨hscan, by omega⟩

theorem exists_marks_of_tokenize {text : String} {ts : List Token} (h : tokenize text = .ok ts) :
    ∃ last pieces, text.toList = spelled last pieces ∧ Munched last pieces ∧
      Marks 0 pieces ts :=
  Scanner.exists_pieces (tokenize_eq_ok_iff.mp h).1

/-- A text has tokens exactly when it has as many opening as closing parentheses and is cut
into blanks and lexemes, each the longest where it stands. Its tokens are then the marks of
the lexemes: one token for each, of the kind that the lexeme stands for, which covers the
bytes of the lexeme and no others. -/
theorem tokenize_eq_ok_iff_munched (text : String) :
    (∀ ts, tokenize text = .ok ts ↔
      text.toList.count '(' = text.toList.count ')' ∧
        ∃ last pieces, text.toList = spelled last pieces ∧ Munched last pieces ∧
          Marks 0 pieces ts) ∧
    ((∃ ts, tokenize text = .ok ts) ↔
      text.toList.count '(' = text.toList.count ')' ∧
        ∃ last pieces, text.toList = spelled last pieces ∧ Munched last pieces) ∧
    ∀ ts, tokenize text = .ok ts → Tiles text ts := by
  refine ⟨?_, ⟨?_, ?_⟩, ?_⟩
  · intro ts
    constructor
    · intro h
      obtain ⟨last, pieces, heq, hm, hmarks⟩ := exists_marks_of_tokenize h
      exact ⟨(hmarks.tokenize_iff heq hm).mp h, last, pieces, heq, hm, hmarks⟩
    · rintro ⟨hcount, last, pieces, heq, hm, hmarks⟩
      exact (hmarks.tokenize_iff heq hm).mpr hcount
  · rintro ⟨ts, h⟩
    obtain ⟨last, pieces, heq, hm, hmarks⟩ := exists_marks_of_tokenize h
    exact ⟨(hmarks.tokenize_iff heq hm).mp h, last, pieces, heq, hm⟩
  · rintro ⟨hcount, last, pieces, heq, hm⟩
    obtain ⟨ts, hmarks⟩ := hm.exists_marks 0
    exact ⟨ts, (hmarks.tokenize_iff heq hm).mpr hcount⟩
  · intro ts h
    obtain ⟨last, pieces, heq, hm, hmarks⟩ := exists_marks_of_tokenize h
    exact hmarks.tiles heq hm

/-- A name, a blank of three bytes, a sum, and a number with a name right behind it. -/
theorem tokenize_munched_wide_blank :
    let ts : List Token :=
      [⟨.name "x1", 0, 2⟩, ⟨.operator .add, 5, 6⟩, ⟨.number 1.5, 6, 9⟩, ⟨.name "y", 9, 10⟩]
    tokenize "x1\u2003+1.5y" = .ok ts ∧ Tiles "x1\u2003+1.5y" ts := by
  intro ts
  have hname : Longest ['x', '1'] ['\u2003', '+', '1', '.', '5', 'y'] :=
    longest_name (by decide) (stops_cons.mpr (by decide))
  have hone : Number.Digits ['1'] := Number.digits_singleton (by decide)
  have hfive : Number.Digits ['5'] := Number.digits_singleton (by decide)
  have hnumber : Longest ['1', '.', '5'] ['y'] :=
    longest_fraction hone hfive (stops_cons.mpr (by decide))
  have hlast : Longest ['y'] [] := longest_name (by decide) (stops_nil _)
  have hwide : Blanks ['\u2003'] := List.forall_mem_singleton.mpr (by decide)
  have hm : Munched []
      [⟨[], ['x', '1']⟩, ⟨['\u2003'], ['+']⟩, ⟨[], ['1', '.', '5']⟩, ⟨[], ['y']⟩] :=
    ⟨blanks_nil, hname, hwide, longest_symbol (by decide) _, blanks_nil, hnumber, blanks_nil,
      hlast, blanks_nil⟩
  have hd : Denotes ['1', '.', '5'] (.number 1.5) :=
    .number (.fraction hone hfive) (by decide +kernel)
  have hmarks : Marks 0
      [⟨[], ['x', '1']⟩, ⟨['\u2003'], ['+']⟩, ⟨[], ['1', '.', '5']⟩, ⟨[], ['y']⟩] ts :=
    .cons (.name (by decide)) (.cons (.operator .add) (.cons hd (.cons (.name (by decide)) (.nil _))))
  have hmunched := tokenize_eq_ok_iff_munched "x1\u2003+1.5y"
  have ht := (hmunched.1 ts).mpr ⟨by decide, [], _, by decide, hm, hmarks⟩
  exact ⟨ht, hmunched.2.2 ts ht⟩

end GridRover.Expression
