import GridRover.Expression.Postfix
import GridRover.Proofs.Expression.Conservation
import GridRover.Proofs.Store

/-!
# Which names an expression needs

Whether a text has a value, and otherwise why not, depends on which of the names in it
are declared and on nothing else about the store. An expression that has a value keeps
having one when more names are declared.
-/
namespace GridRover.Expression

variable {s t : Store}

namespace Postfix

/-- A token that is no name is taken the same way whatever the store, and a name needs to
be declared. -/
theorem step_congr {stack : List Pending} {kind : Token.Kind}
    (h : ∀ name, kind = .name name → s.contains name = t.contains name) :
    step s stack kind = step t stack kind := by
  cases kind with
  | name name => simp only [step, h name rfl]
  | number value => rfl
  | operator op => rfl
  | opening => rfl
  | closing => rfl

theorem contains_of_step {stack : List Pending} {name : String} {result : Postfix × List Pending}
    (h : step s stack (.name name) = .ok result) : s.contains name = true := by
  obtain ⟨out, rest⟩ := result
  cases takes_of_step h with
  | name hname => exact hname

theorem name_of_variable_mem_step {stack rest : List Pending} {kind : Token.Kind} {out : Postfix}
    {name : String} (h : step s stack kind = .ok (out, rest)) (hm : Term.variable name ∈ out) :
    kind = .name name := by
  cases takes_of_step h with
  | number value => simp at hm
  | name hname =>
    cases List.mem_singleton.mp hm
    rfl
  | opening => cases hm
  | closing hstack => exact absurd hm (variable_notMem_leaves name _)
  | operator hstack hops hrest => exact absurd hm (variable_notMem_leaves name _)

theorem steps_congr {stack : List Pending} {kinds : List Token.Kind}
    (h : ∀ name, Token.Kind.name name ∈ kinds → s.contains name = t.contains name) :
    steps s stack kinds = steps t stack kinds := by
  induction kinds generalizing stack with
  | nil => rfl
  | cons kind kinds ih =>
    have hkind : step s stack kind = step t stack kind :=
      step_congr fun name hname => h name (hname ▸ List.mem_cons_self)
    have hkinds : ∀ stack, steps s stack kinds = steps t stack kinds :=
      fun stack => ih fun name hname => h name (List.mem_cons_of_mem kind hname)
    simp only [steps, hkind, hkinds]

theorem ofKinds_congr {kinds : List Token.Kind}
    (h : ∀ name, Token.Kind.name name ∈ kinds → s.contains name = t.contains name) :
    ofKinds s kinds = ofKinds t kinds := by
  simp only [ofKinds, steps_congr h]

theorem declared_of_steps {stack last : List Pending} {kinds : List Token.Kind} {terms : Postfix}
    (h : steps s stack kinds = .ok (terms, last)) : Declared s kinds := by
  induction kinds generalizing stack terms with
  | nil =>
    intro name hname
    cases hname
  | cons kind kinds ih =>
    obtain ⟨out, middle, more, hstep, hsteps, -⟩ := steps_cons_iff.mp h
    intro name hname
    rcases List.mem_cons.mp hname with rfl | hname
    · exact contains_of_step hstep
    · exact ih hsteps name hname

theorem name_of_variable_mem_steps {stack last : List Pending} {kinds : List Token.Kind}
    {terms : Postfix} (h : steps s stack kinds = .ok (terms, last)) {name : String}
    (hm : Term.variable name ∈ terms) : Token.Kind.name name ∈ kinds := by
  induction kinds generalizing stack terms with
  | nil =>
    cases h
    cases hm
  | cons kind kinds ih =>
    obtain ⟨out, middle, more, hstep, hsteps, rfl⟩ := steps_cons_iff.mp h
    rcases List.mem_append.mp hm with hm | hm
    · rw [name_of_variable_mem_step hstep hm]
      exact List.mem_cons_self
    · exact List.mem_cons_of_mem kind (ih hsteps hm)

/-- Tokens have a postfix order only if their names are declared. -/
theorem declared_of_ofKinds {kinds : List Token.Kind} {p : Postfix}
    (h : ofKinds s kinds = .ok p) : Declared s kinds := by
  obtain ⟨terms, stack, out, hsteps, -, -⟩ := ofKinds_iff.mp h
  exact declared_of_steps hsteps

theorem name_of_variable_mem_ofKinds {kinds : List Token.Kind} {p : Postfix}
    (h : ofKinds s kinds = .ok p) {name : String} (hm : Term.variable name ∈ p) :
    Token.Kind.name name ∈ kinds := by
  obtain ⟨terms, stack, out, hsteps, hdrain, rfl⟩ := ofKinds_iff.mp h
  rcases List.mem_append.mp hm with hm | hm
  · exact name_of_variable_mem_steps hsteps hm
  · obtain ⟨ops, -, rfl⟩ := exists_of_drain hdrain
    exact absurd hm (variable_notMem_leaves name ops)

/-- What a term does to the height of the stack, or how it fails, depends on the height and
on whether its name is declared. -/
theorem push_congr {term : Term} {xs ys : List Float} (hlen : xs.length = ys.length)
    (h : ∀ name, term = .variable name → s.contains name = t.contains name) :
    (push s term xs).map List.length = (push t term ys).map List.length := by
  cases term with
  | number value => simp [push, Except.map, hlen]
  | «variable» name =>
    have hname := h name rfl
    rw [← Store.isSome_get?, ← Store.isSome_get?] at hname
    simp only [push]
    cases hs : s.get? name <;> cases ht : t.get? name <;> simp_all [Except.map]
  | operator op =>
    match xs, ys, hlen with
    | [], [], _ => rfl
    | [_], [_], _ => rfl
    | _ :: _ :: xs, _ :: _ :: ys, hlen => simp_all [push, Except.map]

theorem run_congr {p : Postfix} {xs ys : List Float} (hlen : xs.length = ys.length)
    (h : ∀ name, Term.variable name ∈ p → s.contains name = t.contains name) :
    (run s p xs).map List.length = (run t p ys).map List.length := by
  induction p generalizing xs ys with
  | nil => simp [run, Except.map, hlen]
  | cons term p ih =>
    have hpush := push_congr hlen fun name hname => h name (hname ▸ List.mem_cons_self)
    have hrest : ∀ name, Term.variable name ∈ p → s.contains name = t.contains name :=
      fun name hname => h name (List.mem_cons_of_mem term hname)
    simp only [run]
    cases hs : push s term xs <;> cases ht : push t term ys <;>
      simp only [hs, ht, Except.map, Except.ok.injEq, Except.error.injEq, reduceCtorEq] at hpush ⊢
    · exact hpush
    · exact ih hpush hrest

theorem value_congr {p : Postfix}
    (h : ∀ name, Term.variable name ∈ p → s.contains name = t.contains name) :
    (p.value s).map (fun _ => ()) = (p.value t).map (fun _ => ()) := by
  have hrun : (run s p []).map List.length = (run t p []).map List.length := run_congr rfl h
  simp only [Postfix.value]
  cases hs : run s p [] <;> cases ht : run t p [] <;>
    simp only [hs, ht, Except.map, Except.ok.injEq, Except.error.injEq, reduceCtorEq] at hrun ⊢
  · rw [hrun]
  · rename_i xs ys
    match xs, ys, hrun with
    | [], [], _ => rfl
    | [_], [_], _ => rfl
    | _ :: _ :: _, _ :: _ :: _, hlen => simp_all

end Postfix

theorem value_iff {text : String} {x : Float} :
    value s text = .ok x ↔ ∃ tokens p, tokenize text = .ok tokens ∧
      Postfix.ofKinds s (tokens.map Token.kind) = .ok p ∧ p.value s = .ok x := by
  constructor
  · intro h
    simp only [value, postfixOf] at h
    cases ht : tokenize text with
    | error e => simp [ht] at h
    | ok tokens =>
      simp only [ht] at h
      cases hp : Postfix.ofKinds s (tokens.map Token.kind) with
      | error e => simp [hp] at h
      | ok p =>
        simp only [hp] at h
        exact ⟨tokens, p, rfl, hp, h⟩
  · rintro ⟨tokens, p, ht, hp, hx⟩
    simp only [value, postfixOf, ht, hp, hx]

/-- A text fails in the first of the three passes that fails. -/
theorem value_error_iff {text : String} {e : Error} :
    value s text = .error e ↔
      (∃ cause, tokenize text = .error cause ∧ e = .scan cause) ∨
        ∃ tokens, tokenize text = .ok tokens ∧
          (Postfix.ofKinds s (tokens.map Token.kind) = .error e ∨
            ∃ p, Postfix.ofKinds s (tokens.map Token.kind) = .ok p ∧ p.value s = .error e) := by
  cases ht : tokenize text with
  | error cause => simp [value, postfixOf, ht, @eq_comm Error e]
  | ok tokens =>
    cases hp : Postfix.ofKinds s (tokens.map Token.kind) <;> simp [value, postfixOf, ht, hp]

/-- Two results that are both a value, or both the same failure. -/
def Alike {ε α : Type} (a b : Except ε α) : Prop :=
  (∃ x y, a = .ok x ∧ b = .ok y) ∨ ∃ e, a = .error e ∧ b = .error e

theorem value_alike (h : ∀ name, s.contains name = t.contains name) (text : String) :
    Alike (value s text) (value t text) := by
  simp only [value, postfixOf]
  cases tokenize text with
  | error e => exact .inr ⟨_, rfl, rfl⟩
  | ok tokens =>
    have hp : Postfix.ofKinds s (tokens.map Token.kind) =
        Postfix.ofKinds t (tokens.map Token.kind) := Postfix.ofKinds_congr fun name _ => h name
    simp only [hp]
    cases Postfix.ofKinds t (tokens.map Token.kind) with
    | error e => exact .inr ⟨_, rfl, rfl⟩
    | ok p =>
      have hvalue := @Postfix.value_congr s t p fun name _ => h name
      cases hs : p.value s <;> cases ht : p.value t <;>
        simp only [hs, ht, Except.map, Except.error.injEq, reduceCtorEq] at hvalue
      · exact .inr ⟨_, hs, hvalue ▸ ht⟩
      · exact .inl ⟨_, _, hs, ht⟩

/-- A text that has a value has one in every store that declares at least the same names. -/
theorem exists_value_of_subset {text : String} {x : Float} (h : value s text = .ok x)
    (hsub : ∀ name, s.contains name = true → t.contains name = true) :
    ∃ y, value t text = .ok y := by
  obtain ⟨tokens, p, ht, hp, hx⟩ := value_iff.mp h
  have hdeclared := Postfix.declared_of_ofKinds hp
  have hagree : ∀ name, Token.Kind.name name ∈ tokens.map Token.kind →
      s.contains name = t.contains name := by
    intro name hname
    rw [hdeclared name hname, hsub name (hdeclared name hname)]
  have hp' : Postfix.ofKinds t (tokens.map Token.kind) = .ok p := Postfix.ofKinds_congr hagree ▸ hp
  have hvalue := Postfix.value_congr fun name hname =>
    hagree name (Postfix.name_of_variable_mem_ofKinds hp hname)
  cases hy : p.value t with
  | error e => simp [hx, hy, Except.map] at hvalue
  | ok y => exact ⟨y, value_iff.mpr ⟨tokens, p, ht, hp', hy⟩⟩

end GridRover.Expression
