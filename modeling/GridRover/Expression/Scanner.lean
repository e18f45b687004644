import GridRover.Expression.Token
import GridRover.Number.Literal
import GridRover.Text.Basic

/-!
# Scanning a text into tokens

Blanks are skipped, then the longest lexeme at the current place is taken. A
character that starts no lexeme stops the scan for good. Whether parentheses are
equal in number is looked at only when the whole text has been scanned.
-/
namespace GridRover.Expression

/-- Why a text is no token sequence. Columns count characters from zero. -/
inductive TokenError
  | unexpected (char : Char) (column : Nat)
  | unbalanced (depth : Int) (column : Nat)
  deriving DecidableEq

def TokenError.column : TokenError → Nat
  | .unexpected _ column => column
  | .unbalanced _ column => column

def TokenError.message (e : TokenError) : String :=
  let cause := match e with
    | .unexpected char _ => "Unexpected character `" ++ char.toString ++ "` in expression"
    | .unbalanced depth _ => "Parentheses do not balance, " ++ toString depth ++ " left open"
  cause ++ " (column " ++ toString (e.column + 1) ++ ")"

/-- The fraction digits that a number goes on with. A point belongs to the number only if
a digit follows it. -/
def fractionDigits : List Char → List Char
  | '.' :: rest => rest.takeWhile Char.isDigit
  | _ => []

/-- The longest lexeme at the start of a text, and what it means. -/
def lexeme? : List Char → Option (List Char × Token.Kind)
  | [] => none
  | c :: cs =>
    if c.isDigit then
      let whole := c :: cs.takeWhile Char.isDigit
      let fraction := fractionDigits (cs.dropWhile Char.isDigit)
      some (whole ++ (if fraction = [] then [] else '.' :: fraction),
        .number (Number.ofDigits whole fraction))
    else if Text.isNameStart c then
      let name := c :: cs.takeWhile Text.isNameChar
      some (name, .name (String.ofList name))
    else if c = '(' then some ([c], .opening)
    else if c = ')' then some ([c], .closing)
    else match Operator.ofSymbol? c with
      | some op => some ([c], .operator op)
      | none => none

theorem lexeme?_ne_nil {cs lexeme : List Char} {kind : Token.Kind}
    (h : lexeme? cs = some (lexeme, kind)) : lexeme ≠ [] := by
  cases cs with
  | nil => simp [lexeme?] at h
  | cons c cs => grind [lexeme?]

/-- The number of bytes that characters take. -/
def byteLength : List Char → Nat
  | [] => 0
  | c :: cs => c.utf8Size + byteLength cs

/-- A place in a text: what is left of it, and how many characters and bytes come before. -/
structure Scanner where
  rest : List Char
  column : Nat
  offset : Nat
  deriving DecidableEq

namespace Scanner

def ofText (text : String) : Scanner := ⟨text.toList, 0, 0⟩

/-- Moves past the first `n` characters. -/
def skip (s : Scanner) (n : Nat) : Scanner :=
  ⟨s.rest.drop n, s.column + n, s.offset + byteLength (s.rest.take n)⟩

def skipBlanks (s : Scanner) : Scanner := s.skip (s.rest.takeWhile Text.isBlank).length

/-- What stands next in a text. -/
inductive Next
  | token (t : Token) (after : Scanner)
  | finished
  | unexpected (char : Char) (column : Nat)

def next (s : Scanner) : Next :=
  let here := s.skipBlanks
  match here.rest with
  | [] => .finished
  | c :: _ =>
    match lexeme? here.rest with
    | none => .unexpected c here.column
    | some (lexeme, kind) =>
      let after := here.skip lexeme.length
      .token ⟨kind, here.offset, after.offset⟩ after

/-- Where a scanner stands after looking at what comes next. It moves past blanks and past a
token, but neither past the end nor past a character that starts no lexeme. -/
def advance (s : Scanner) : Scanner :=
  match s.next with
  | .token _ after => after
  | _ => s.skipBlanks

@[simp] theorem skip_rest (s : Scanner) (n : Nat) : (s.skip n).rest = s.rest.drop n := rfl

/-- A token leaves less text behind it. -/
theorem next_rest_lt {s after : Scanner} {t : Token} (h : s.next = .token t after) :
    after.rest.length < s.rest.length := by
  unfold next at h
  simp only at h
  split at h
  · simp at h
  · rename_i c cs hr
    split at h
    · simp at h
    · rename_i lexeme kind hl
      injection h with _ ha
      have hne := List.length_pos_iff.mpr (lexeme?_ne_nil hl)
      have hlen : s.skipBlanks.rest.length ≤ s.rest.length := by
        simp [skipBlanks]
      have hc : s.skipBlanks.rest.length = cs.length + 1 := by simp [hr]
      rw [← ha]
      simp only [skip_rest, List.length_drop]
      omega

/-- All tokens from a place on. -/
def tokens (s : Scanner) : Except TokenError (List Token) :=
  match _h : s.next with
  | .finished => .ok []
  | .unexpected char column => .error (.unexpected char column)
  | .token t after =>
    match after.tokens with
    | .ok ts => .ok (t :: ts)
    | .error e => .error e
termination_by s.rest.length
decreasing_by exact next_rest_lt ‹_›

end Scanner

/-- The tokens of a text with equally many opening and closing parentheses. -/
def tokenize (text : String) : Except TokenError (List Token) :=
  match (Scanner.ofText text).tokens with
  | .error e => .error e
  | .ok ts => if depth ts = 0 then .ok ts else .error (.unbalanced (depth ts) text.toList.length)

end GridRover.Expression
