import GridRover.Proofs.Expression.Munch
import GridRover.Proofs.Script.Delivery
import GridRover.Proofs.Script.Itinerary
import GridRover.Proofs.Script.Recognition

/-!
# What becomes of the variables

A step writes at most one variable, the one that its line names. A declaration adds a name
that the store does not have, an update changes the value under a name that it has, and no
other step touches the store. So a store declares exactly the names whose declarations have
run, for good and with the types given there.
-/
namespace GridRover

namespace Store

/-- `s.Writes name v t`: under the name, the store `t` has the variable `v`, and under all
other names it has what `s` has. -/
def Writes (s : Store) (name : String) (v : Variable) (t : Store) : Prop :=
  ∀ other, t.find? other = if other = name then some v else s.find? other

theorem Writes.typeOf? {s t : Store} {name : String} {v : Variable} (h : s.Writes name v t)
    (other : String) :
    t.typeOf? other = if other = name then some v.type else s.typeOf? other := by
  rw [Store.typeOf?, h other]
  split <;> rfl

end Store

namespace Script

namespace Statement

/-- Only names that are no keywords are declared. -/
theorem isVariable_of_declaration {line name : String} {type : VariableType}
    {initializer : Option String} (h : ofLine? line = some (.declaration type name initializer)) :
    IsVariable name := by
  have hspells := spells_of_ofLine? h
  generalize line.toList = cs at hspells
  cases hspells with
  | closed hphrase =>
    cases hphrase with
    | initialized type hw hgap hname => exact hname
    | uninitialized type hw hgap hname => exact hname

end Statement

namespace Machine

variable {m last : Machine} {history : List Occurrence} {name : String} {type : VariableType}

/-- The statement that the next step runs, unless it fails. -/
def executed? (m : Machine) : Option Statement :=
  match m.advance.2 with
  | .ok .running => m.program[m.counter]?.bind Statement.ofLine?
  | _ => none

theorem exists_line_of_executed {statement : Statement} (h : m.executed? = some statement) :
    ∃ line, Statement.ofLine? line = some statement := by
  simp only [executed?] at h
  split at h
  · obtain ⟨line, -, hline⟩ := Option.bind_eq_some_iff.mp h
    exact ⟨line, hline⟩
  · cases h

/-- What the next step makes of the store, told by the statement that it runs. The value of an
expression is the one it has before the step, and the store itself does not refuse what is
asked of it. -/
def Evolves (m : Machine) (after : Store) : Prop :=
  match m.executed? with
  | some (.declaration type name initializer) =>
    m.store.find? name = none ∧ ∃ x, m.initialValue type initializer = .ok x ∧
      m.store.declare? name type x = some after ∧ m.store.Writes name ⟨type, x⟩ after
  | some (.update name assignment expression) =>
    ∃ v x, m.store.find? name = some v ∧ Expression.value m.store expression = .ok x ∧
      m.store.set? name (assignment.apply v.value x) = some after ∧
      m.store.Writes name { v with value := assignment.apply v.value x } after
  | _ => after = m.store

/-- A step makes of the store what its statement says, and leaves it alone where none runs. -/
theorem evolves (m : Machine) : m.Evolves m.advance.1.store := by
  cases hadvance : m.advance with
  | mk next result =>
    cases advances_of_eq hadvance with
    | idle hs => simp only [Evolves, executed?, hadvance]
    | finish hs hl => simp only [Evolves, executed?, hadvance, finish]
    | fail hs hl hp => simp only [Evolves, executed?, hadvance]
    | @perform text change hs hl hp =>
      obtain ⟨statement, hstatement, hacts⟩ := plan_eq_ok_iff.mp hp
      have hran : m.executed? = some statement := by
        simp only [executed?, hadvance, hl, Option.bind_some, hstatement]
      simp only [Evolves, hran]
      cases hacts with
      | move direction => rfl
      | jump hindex => rfl
      | @declare type name initializer x hfree hx =>
        have hnone : m.store.find? name = none := by simpa [Store.contains] using hfree
        refine ⟨hnone, x, hx, ?_, fun other => Store.find?_insert _ _ other _⟩
        simp only [Store.declare?, hfree]
        rfl
      | @assign name expression assignment v x hv hx =>
        refine ⟨v, x, hv, evaluate_eq_ok_iff.mp hx, ?_, fun other => Store.find?_insert _ _ other _⟩
        simp only [Store.set?, hv, Option.map_some]
        rfl
      | pass => rfl

/-- After a step a name has the type it had before, or the one that the step declares. -/
theorem typeOf?_advance (m : Machine) (name : String) (type : VariableType) :
    m.advance.1.store.typeOf? name = some type ↔ m.store.typeOf? name = some type ∨
      ∃ initializer, m.executed? = some (.declaration type name initializer) := by
  -- A declaration finds no type under its name, and an update puts back the type it finds.
  have hevolves := m.evolves
  unfold Evolves at hevolves
  split at hevolves
  · rename_i declared other initializer hran
    obtain ⟨hfree, x, -, -, hwrites⟩ := hevolves
    have hnone : m.store.typeOf? other = none := by simp [Store.typeOf?, hfree]
    rw [hwrites.typeOf?, hran]
    by_cases hname : name = other
    · subst hname
      simp [hnone]
    · simp [hname, Ne.symm hname]
  · rename_i other assignment expression hran
    obtain ⟨v, x, hv, -, -, hwrites⟩ := hevolves
    rw [hwrites.typeOf?, hran]
    by_cases hname : name = other
    · subst hname
      simp [Store.typeOf?, hv]
    · simp [hname]
  · rename_i hdeclaration hupdate
    rw [hevolves, or_iff_left]
    rintro ⟨initializer, hran⟩
    exact hdeclaration type name initializer hran

/-- The types of a store are those it had before and those that were declared on the way. -/
theorem Leads.typeOf?_iff (h : Leads m history last) :
    last.store.typeOf? name = some type ↔ m.store.typeOf? name = some type ∨
      ∃ before initializer, Occurrence.step before ∈ history ∧
        before.executed? = some (.declaration type name initializer) := by
  induction h with
  | rest m => simp
  | registration other h ih => simpa [subscribe] using ih
  | step h ih =>
    rw [ih, typeOf?_advance]
    simp [or_assoc, or_and_right, exists_or]

/-- The variables in the life of a machine. The names of the store can be names of variables,
and are those whose declarations have run, each with the type declared. A name stays with
its type whatever comes after, and the next step changes the store as its line says. -/
theorem store_of_leads (program : List String) (history : List Occurrence) (m : Machine)
    (h : Leads (ofLines program) history m) :
    (∀ name, m.store.contains name = true → Statement.IsVariable name) ∧
      (∀ name type, m.store.typeOf? name = some type ↔
        ∃ before initializer, Occurrence.step before ∈ history ∧
          before.executed? = some (.declaration type name initializer)) ∧
      (∀ name type later last, m.store.typeOf? name = some type → Leads m later last →
        last.store.typeOf? name = some type) ∧
      m.Evolves m.advance.1.store := by
  have htypes (name : String) (type : VariableType) : m.store.typeOf? name = some type ↔
      ∃ before initializer, Occurrence.step before ∈ history ∧
        before.executed? = some (.declaration type name initializer) := by
    simpa [ofLines, Store.typeOf?, Store.find?, Store.empty] using h.typeOf?_iff
  refine ⟨fun name hname => ?_, htypes, fun name type later last hm hlater => ?_, m.evolves⟩
  · rw [← Store.isSome_typeOf?, Option.isSome_iff_exists] at hname
    obtain ⟨type, htype⟩ := hname
    obtain ⟨before, initializer, -, hran⟩ := (htypes name type).mp htype
    obtain ⟨line, hline⟩ := exists_line_of_executed hran
    exact Statement.isVariable_of_declaration hline
  · exact hlater.typeOf?_iff.mpr (.inl hm)

/-- A variable that is declared as an integer stays one when a quotient of zeros is put into
it. -/
theorem store_of_leads_quotient :
    ∃ m history, Leads (ofLines ["int a;", "left;", "a /= a;"]) history m ∧
      Statement.IsVariable "a" ∧ m.advance.1.store.typeOf? "a" = some .int ∧
      m.store.set? "a" (0 / 0) = some m.advance.1.store ∧
      ∀ other, other ≠ "a" → m.advance.1.store.find? other = m.store.find? other := by
  let start := ofLines ["int a;", "left;", "a /= a;"]
  let m := start.after 2
  have hleads : Leads start [.step start, .step start.advance.1] m := .step (.step (.rest m))
  have htokens : Expression.tokenize "a" = .ok [⟨.name "a", 0, 1⟩] :=
    (@Expression.Marks.tokenize_iff "a" [] [⟨[], ['a']⟩] _ (by decide)
      ⟨Text.blanks_nil, Expression.longest_name (by decide) (Text.stops_nil _), Text.blanks_nil⟩
      (.cons (.name (by decide)) (.nil _))).mpr (by decide)
  have hvalue : Expression.value m.store "a" = .ok 0 :=
    Expression.value_iff.mpr ⟨_, [.variable "a"], htokens, rfl, rfl⟩
  have hplan : m.plan "a /= a;" = .ok (.write "a" ⟨.int, 0 / 0⟩) :=
    plan_eq_ok_iff.mpr ⟨.update "a" (.compound .divide) "a", rfl,
      @Acts.assign m "a" "a" (.compound .divide) ⟨.int, 0⟩ 0 rfl (evaluate_eq_ok_iff.mpr hvalue)⟩
  have hran : m.executed? = some (.update "a" (.compound .divide) "a") := by
    simp only [executed?, (Advances.perform rfl rfl hplan).advance_eq]
    rfl
  obtain ⟨hnames, htypes, hkept, hevolves⟩ := store_of_leads _ _ _ hleads
  have htype : m.store.typeOf? "a" = some .int := (htypes "a" .int).mpr ⟨start, none, by simp, rfl⟩
  simp only [Evolves, hran] at hevolves
  obtain ⟨v, x, hv, hx, hset, hwrites⟩ := hevolves
  obtain rfl : ⟨.int, 0⟩ = v := Option.some.inj hv
  obtain rfl : 0 = x := Except.ok.inj (hvalue.symm.trans hx)
  exact ⟨m, _, hleads, hnames "a" rfl, hkept "a" .int _ _ htype (leads_step m), hset,
    fun other hother => (hwrites other).trans (if_neg hother)⟩

end Machine

end Script

end GridRover
