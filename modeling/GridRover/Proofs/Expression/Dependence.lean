import GridRover.Proofs.Expression.Names
import Mathlib

/-!
# Which variables an expression depends on

An expression looks up the names among its tokens and no others. Ordering asks whether they
are declared, and the evaluation asks for their values. Two stores that give these names the
same values, or none, therefore give the expression the same result, be it a value or a
failure. Types do not matter, nor does anything else that the stores hold.
-/
namespace GridRover

namespace Store

/-- Declares variables one after the other; a name that is declared already stays as it is. -/
def declareAll (s : Store) : List (String × Variable) → Store
  | [] => s
  | (name, v) :: rest => declareAll ((s.declare? name v.type v.value).getD s) rest

theorem get?_insert_of_ne (s : Store) {name other : String} (v : Variable) (h : other ≠ name) :
    (s.insert name v).get? other = s.get? other := by
  rw [get?, get?, find?_insert, if_neg h]

theorem get?_declare?_of_ne (s : Store) {name other : String} (type : VariableType) (x : Float)
    (h : other ≠ name) : ((s.declare? name type x).getD s).get? other = s.get? other := by
  by_cases hname : s.contains name = true
  · simp [declare?, hname]
  · simp only [declare?, hname, Bool.false_eq_true, if_false, Option.getD_some]
    exact get?_insert_of_ne s _ h

theorem get?_declareAll (s : Store) {declarations : List (String × Variable)} {other : String}
    (h : ∀ declaration ∈ declarations, other ≠ declaration.1) :
    (s.declareAll declarations).get? other = s.get? other := by
  induction declarations generalizing s with
  | nil => rfl
  | cons declaration rest ih =>
    obtain ⟨hne, hrest⟩ := List.forall_mem_cons.mp h
    rw [declareAll, ih _ hrest, get?_declare?_of_ne s _ _ hne]

end Store

namespace Expression

variable {s t : Store}

/-- The name is one of the tokens of the text. -/
def Mentions (text name : String) : Prop :=
  ∃ tokens, tokenize text = .ok tokens ∧ Token.Kind.name name ∈ tokens.map Token.kind

namespace Postfix

theorem push_eq_of_get? {term : Term} {stack : List Float}
    (h : ∀ name, term = .variable name → s.get? name = t.get? name) :
    push s term stack = push t term stack := by
  cases term with
  | number value => rfl
  | «variable» name => rw [push, push, h name rfl]
  | operator op => rcases stack with _ | ⟨x, _ | ⟨y, stack⟩⟩ <;> rfl

theorem run_eq_of_get? {p : Postfix} {stack : List Float}
    (h : ∀ name, Term.variable name ∈ p → s.get? name = t.get? name) :
    run s p stack = run t p stack := by
  induction p generalizing stack with
  | nil => rfl
  | cons term p ih =>
    have hterm : push s term stack = push t term stack :=
      push_eq_of_get? fun name hname => h name (hname ▸ List.mem_cons_self)
    have hrest (stack : List Float) : run s p stack = run t p stack :=
      ih fun name hname => h name (List.mem_cons_of_mem term hname)
    simp only [run, hterm, hrest]

theorem value_eq_of_get? {p : Postfix}
    (h : ∀ name, Term.variable name ∈ p → s.get? name = t.get? name) :
    p.value s = p.value t := by
  simp only [Postfix.value, run_eq_of_get? h]

end Postfix

theorem value_eq_of_mentions {text : String}
    (h : ∀ name, Mentions text name → s.get? name = t.get? name) :
    value s text = value t text := by
  simp only [value, postfixOf]
  cases ht : tokenize text with
  | error e => rfl
  | ok tokens =>
    have hvalues : ∀ name, Token.Kind.name name ∈ tokens.map Token.kind →
        s.get? name = t.get? name := fun name hname => h name ⟨tokens, ht, hname⟩
    have hp : Postfix.ofKinds s (tokens.map Token.kind) =
        Postfix.ofKinds t (tokens.map Token.kind) := by
      apply Postfix.ofKinds_congr
      intro name hname
      rw [← Store.isSome_get?, ← Store.isSome_get?, hvalues name hname]
    simp only [hp]
    cases hterms : Postfix.ofKinds t (tokens.map Token.kind) with
    | error e => rfl
    | ok p =>
      -- The evaluation meets only names that the tokens have.
      apply Postfix.value_eq_of_get?
      intro name hname
      exact hvalues name (Postfix.name_of_variable_mem_ofKinds hterms hname)

/-- Stores that agree on the values of the names in a text, or on their absence, give the text
the same result, a value or a failure. Declaring names that are not in the text is a case of
this. -/
theorem value_depends_on_mentioned (s t : Store) (text : String) :
    ((∀ name, Mentions text name → s.get? name = t.get? name) → value s text = value t text) ∧
    ∀ declarations : List (String × Variable),
      (∀ declaration ∈ declarations, ¬ Mentions text declaration.1) →
      value (s.declareAll declarations) text = value s text := by
  refine ⟨value_eq_of_mentions, ?_⟩
  intro declarations hnew
  apply value_eq_of_mentions
  intro name hname
  apply Store.get?_declareAll
  rintro declaration hmem rfl
  exact hnew declaration hmem hname

/-- A name of another type, a name that both stores lack, and others that one of them lacks. -/
theorem value_depends_on_mentioned_other_type :
    let s := Store.empty.insert "x" ⟨.int, 3⟩
    let t := (Store.empty.insert "x" ⟨.float, 3⟩).insert "y" ⟨.float, 7⟩
    value s "(x-z)*x" = value t "(x-z)*x" ∧
      value (s.declareAll [("w", ⟨.float, 2⟩), ("y", ⟨.int, 1⟩)]) "(x-z)*x" =
        value s "(x-z)*x" := by
  intro s t
  have ht : tokenize "(x-z)*x" =
      .ok [⟨.opening, 0, 1⟩, ⟨.name "x", 1, 2⟩, ⟨.operator .subtract, 2, 3⟩, ⟨.name "z", 3, 4⟩,
        ⟨.closing, 4, 5⟩, ⟨.operator .multiply, 5, 6⟩, ⟨.name "x", 6, 7⟩] := by cbv
  have hnames : ∀ name, Mentions "(x-z)*x" name → name = "x" ∨ name = "z" := by
    rintro name ⟨tokens, htokens, hname⟩
    cases ht.symm.trans htokens
    have hcases : name = "x" ∨ name = "z" ∨ name = "x" := by simpa using hname
    tauto
  obtain ⟨hagree, hdeclare⟩ := value_depends_on_mentioned s t "(x-z)*x"
  constructor
  · apply hagree
    intro name hname
    rcases hnames name hname with rfl | rfl <;> simp [s, t, Store.get?, Store.find?_insert]
  · apply hdeclare
    intro declaration hmem hname
    have hcases : declaration = ("w", ⟨.float, 2⟩) ∨ declaration = ("y", ⟨.int, 1⟩) := by
      simpa using hmem
    rcases hcases with rfl | rfl <;> rcases hnames _ hname with h | h <;> simp at h

end Expression

end GridRover
