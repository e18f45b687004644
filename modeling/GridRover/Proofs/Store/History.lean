import GridRover.CommandLine.Session
import GridRover.Proofs.Store
import Mathlib.Data.List.Forall2
import Mathlib.Data.List.Induction
import Mathlib.Data.List.Lex

/-!
# The history of a store

A store answers each call on it with yes or no. What it holds can be told from the calls and
these answers alone: a name is there once its declaration has been accepted, with the type
of that declaration and the value of the last accepted call on it. The listings of a store
follow the order of the names, so calls on different names may come in any order.
-/
namespace GridRover

namespace Store

/-- A request to change a store. -/
inductive Call
  | declare (name : String) (type : VariableType) (value : Float)
  | set (name : String) (value : Float)

namespace Call

def name : Call → String
  | .declare name _ _ => name
  | .set name _ => name

def value : Call → Float
  | .declare _ _ value => value
  | .set _ value => value

/-- What becomes of a store, unless it refuses. -/
def change? (s : Store) : Call → Option Store
  | .declare name type value => s.declare? name type value
  | .set name value => s.set? name value

end Call

/-- The store after a call, and whether the call was accepted. -/
def respond (s : Store) (call : Call) : Store × Bool :=
  match call.change? s with
  | some next => (next, true)
  | none => (s, false)

/-- The store after calls. -/
def after (s : Store) : List Call → Store
  | [] => s
  | call :: calls => (s.respond call).1.after calls

/-- Calls together with the answers to them. -/
def answers (s : Store) : List Call → List (Call × Bool)
  | [] => []
  | call :: calls => (call, (s.respond call).2) :: (s.respond call).1.answers calls

/-- The type that an accepted declaration gives to the name. -/
def declared? (name : String) : Call × Bool → Option VariableType
  | (.declare other type _, true) => if other = name then some type else none
  | _ => none

/-- The value that an accepted call gives to the name. -/
def written? (name : String) : Call × Bool → Option Float
  | (call, true) => if call.name = name then some call.value else none
  | (_, false) => none

/-- A declaration of the name is among the accepted calls. -/
def IsDeclared (name : String) (log : List (Call × Bool)) : Prop :=
  ∃ type value, (Call.declare name type value, true) ∈ log

variable {s t : Store} {call : Call} {calls : List Call} {name : String}

theorem after_concat (s : Store) (calls : List Call) (call : Call) :
    s.after (calls ++ [call]) = ((s.after calls).respond call).1 := by
  induction calls generalizing s with
  | nil => rfl
  | cons first calls ih => exact ih _

theorem answers_concat (s : Store) (calls : List Call) (call : Call) :
    s.answers (calls ++ [call]) =
      s.answers calls ++ [(call, ((s.after calls).respond call).2)] := by
  induction calls generalizing s with
  | nil => rfl
  | cons first calls ih => exact congrArg (_ :: ·) (ih _)

/-- All that a call can do to a store. -/
inductive Responds (s : Store) : Call → Store × Bool → Prop
  | declared {name : String} (type : VariableType) (value : Float)
    (h : s.find? name = none) :
    Responds s (.declare name type value) (s.insert name ⟨type, value⟩, true)
  | redeclared {name : String} {v : Variable} (type : VariableType) (value : Float)
    (h : s.find? name = some v) : Responds s (.declare name type value) (s, false)
  | changed {name : String} {v : Variable} (value : Float) (h : s.find? name = some v) :
    Responds s (.set name value) (s.insert name { v with value := value }, true)
  | missing {name : String} (value : Float) (h : s.find? name = none) :
    Responds s (.set name value) (s, false)

theorem responds (s : Store) (call : Call) : Responds s call (s.respond call) := by
  cases call with
  | declare name type value =>
    cases hname : s.find? name with
    | none =>
      simp only [respond, Call.change?, declare?, contains, hname]
      exact .declared type value hname
    | some v =>
      simp only [respond, Call.change?, declare?, contains, hname]
      exact .redeclared type value hname
  | set name value =>
    cases hname : s.find? name with
    | none =>
      simp only [respond, Call.change?, set?, hname]
      exact .missing value hname
    | some v =>
      simp only [respond, Call.change?, set?, hname]
      exact .changed value hname

/-- A refused call changes nothing. -/
theorem respond_of_refused (h : (s.respond call).2 = false) : (s.respond call).1 = s := by
  have hresponds := s.responds call
  generalize s.respond call = result at h hresponds
  cases hresponds with
  | declared type value hname => cases h
  | redeclared type value hname => rfl
  | changed value hname => cases h
  | missing value hname => rfl

theorem respond_declare_iff {type : VariableType} {value : Float} :
    (s.respond (.declare name type value)).2 = true ↔ s.contains name = false := by
  have hresponds := s.responds (.declare name type value)
  generalize s.respond (.declare name type value) = result at hresponds
  cases hresponds with
  | declared type value hname => simp [contains, hname]
  | redeclared type value hname => simp [contains, hname]

theorem respond_set_iff {value : Float} :
    (s.respond (.set name value)).2 = true ↔ s.contains name = true := by
  have hresponds := s.responds (.set name value)
  generalize s.respond (.set name value) = result at hresponds
  cases hresponds with
  | changed value hname => simp [contains, hname]
  | missing value hname => simp [contains, hname]

/-- An accepted call gives its value to its name. -/
theorem get?_respond (s : Store) (call : Call) (name : String) :
    (s.respond call).1.get? name = (written? name (call, (s.respond call).2)).or (s.get? name) := by
  have hresponds := s.responds call
  generalize s.respond call = result at hresponds
  cases hresponds with
  | @declared other type value hother =>
    by_cases h : other = name <;>
      simp [get?, find?_insert, written?, Call.name, Call.value, h, @eq_comm _ name other]
  | redeclared type value hother => rfl
  | @changed other v value hother =>
    by_cases h : other = name <;>
      simp [get?, find?_insert, written?, Call.name, Call.value, h, @eq_comm _ name other]
  | missing value hother => rfl

/-- An accepted declaration gives its type to a name that had none, and no other call changes a
type. -/
theorem typeOf?_respond (s : Store) (call : Call) (name : String) :
    ((s.respond call).1.typeOf? name).toList =
      (s.typeOf? name).toList ++ (declared? name (call, (s.respond call).2)).toList := by
  have hresponds := s.responds call
  generalize s.respond call = result at hresponds
  cases hresponds with
  | @declared other type value hother =>
    by_cases h : name = other
    · subst h
      simp [typeOf?, find?_insert, declared?, hother]
    · simp [typeOf?, find?_insert, declared?, h, Ne.symm h]
  | redeclared type value hother => simp [declared?]
  | @changed other v value hother =>
    by_cases h : name = other
    · subst h
      simp [typeOf?, find?_insert, declared?, hother]
    · simp [typeOf?, find?_insert, declared?, h]
  | missing value hother => simp [declared?]

/-- The value of a name is that of the last accepted call on it. -/
theorem get?_after (calls : List Call) (name : String) :
    (empty.after calls).get? name =
      ((empty.answers calls).filterMap (written? name)).getLast? := by
  induction calls using List.reverseRecOn with
  | nil => rfl
  | append_singleton calls call ih =>
    rw [after_concat, get?_respond, ih, answers_concat, List.filterMap_append,
      List.getLast?_append]
    cases hwritten : written? name (call, ((empty.after calls).respond call).2) <;>
      simp [hwritten]

/-- The accepted declarations of a name are one or none, and the type of the name is theirs. -/
theorem typeOf?_after (calls : List Call) (name : String) :
    ((empty.after calls).typeOf? name).toList =
      (empty.answers calls).filterMap (declared? name) := by
  induction calls using List.reverseRecOn with
  | nil => rfl
  | append_singleton calls call ih =>
    rw [after_concat, typeOf?_respond, ih, answers_concat, List.filterMap_append]
    cases hdeclared : declared? name (call, ((empty.after calls).respond call).2) <;>
      simp [hdeclared]

theorem isDeclared_iff {log : List (Call × Bool)} :
    IsDeclared name log ↔ log.filterMap (declared? name) ≠ [] := by
  constructor
  · rintro ⟨type, value, hmem⟩ hnil
    have hnone := List.filterMap_eq_nil_iff.mp hnil _ hmem
    simp [declared?] at hnone
  · intro hne
    obtain ⟨type, htype⟩ := List.exists_mem_of_ne_nil _ hne
    obtain ⟨⟨call, accepted⟩, hmem, hdeclared⟩ := List.mem_filterMap.mp htype
    cases call with
    | set other value => simp [declared?] at hdeclared
    | declare other found value =>
      cases accepted with
      | false => simp [declared?] at hdeclared
      | true =>
        simp only [declared?, Option.ite_none_right_eq_some] at hdeclared
        obtain ⟨rfl, -⟩ := hdeclared
        exact ⟨found, value, hmem⟩

theorem contains_after_iff :
    (empty.after calls).contains name = true ↔ IsDeclared name (empty.answers calls) := by
  rw [isDeclared_iff, ← typeOf?_after, ← isSome_typeOf?]
  cases (empty.after calls).typeOf? name <;> simp

/-- A call is of no concern to other names. -/
theorem find?_respond_of_ne (h : call.name ≠ name) :
    (s.respond call).1.find? name = s.find? name := by
  have hresponds := s.responds call
  generalize s.respond call = result at hresponds
  cases hresponds with
  | declared type value hother => exact (find?_insert ..).trans (if_neg (Ne.symm h))
  | redeclared type value hother => rfl
  | changed value hother => exact (find?_insert ..).trans (if_neg (Ne.symm h))
  | missing value hother => rfl

/-- What a call does to its own name is settled by what the store has under that name. -/
theorem find?_respond_congr (h : s.find? call.name = t.find? call.name) :
    (s.respond call).1.find? call.name = (t.respond call).1.find? call.name := by
  -- `Responds` has the cases of one store; here two stores take the same case.
  cases call with
  | declare name type value =>
    simp only [Call.name] at h ⊢
    cases hname : t.find? name <;>
      simp [respond, Call.change?, declare?, contains, h, hname, find?_insert]
  | set name value =>
    simp only [Call.name] at h ⊢
    cases hname : t.find? name <;>
      simp [respond, Call.change?, set?, h, hname, find?_insert]

/-- The calls on other names can be left out. -/
theorem find?_after_filter (h : s.find? name = t.find? name) (calls : List Call) :
    (s.after calls).find? name = (t.after (calls.filter (·.name = name))).find? name := by
  induction calls generalizing s t with
  | nil => exact h
  | cons call calls ih =>
    by_cases hname : call.name = name
    · subst hname
      rw [List.filter_cons_of_pos (by simp)]
      exact ih (find?_respond_congr h)
    · rw [List.filter_cons_of_neg (by simpa using hname)]
      exact ih ((find?_respond_of_ne hname).trans h)

/-- Calls on different names may be told in any order. -/
theorem after_eq_of_filter {other : List Call}
    (h : ∀ name, other.filter (·.name = name) = calls.filter (·.name = name)) :
    s.after other = s.after calls := by
  apply eq_of_find?
  intro name
  rw [find?_after_filter rfl other, find?_after_filter rfl calls, h]

/-- The first text comes before the second by the code points of their characters. -/
def Precedes (a b : String) : Prop :=
  List.Lex (fun c d : Char => c.toNat < d.toNat) a.toList b.toList

theorem precedes_of_lt {a b : String} (h : a < b) : Precedes a b := by
  refine List.Lex.imp (fun c d hlt => ?_) _ _ (String.lt_iff.mp h)
  exact UInt32.lt_iff_toNat_lt.mp (Char.lt_def.mp hlt)

theorem names_ascending (s : Store) : s.names.Pairwise Precedes := by
  rw [names, List.pairwise_map]
  exact s.ascending.imp precedes_of_lt

end Store

namespace CommandLine

/-- There is a line for each name, in the order of the names. -/
theorem describeVariables_names (s : Store) :
    List.Forall₂ (fun name line => ∃ v, s.find? name = some v ∧ line = describe (name, v))
      s.names (describeVariables s) := by
  rw [describeVariables, Store.names, List.forall₂_map_left_iff, List.forall₂_map_right_iff,
    List.forall₂_same]
  rintro ⟨name, v⟩ hentry
  exact ⟨v, Store.find?_eq_some_iff.mpr hentry, rfl⟩

end CommandLine

namespace Store

open CommandLine

/-- What a store has to do with the calls that were made on it, told by the answers to them. -/
structure Reflects (s : Store) (log : List (Call × Bool)) : Prop where
  /-- The next declaration is accepted if its name has not been declared. -/
  declare_iff : ∀ name type value,
    (s.respond (.declare name type value)).2 = true ↔ ¬ IsDeclared name log
  /-- The next assignment is accepted if its name has been declared. -/
  set_iff : ∀ name value, (s.respond (.set name value)).2 = true ↔ IsDeclared name log
  refused : ∀ call, (s.respond call).2 = false → (s.respond call).1 = s
  value : ∀ name, s.get? name = (log.filterMap (written? name)).getLast?
  /-- There is no second declaration of a name among the accepted calls. -/
  type : ∀ name, (s.typeOf? name).toList = log.filterMap (declared? name)
  mem_names : ∀ name, name ∈ s.names ↔ IsDeclared name log
  ascending : s.names.Pairwise Precedes
  listing : List.Forall₂ (fun name line => ∃ v, s.find? name = some v ∧ line = describe (name, v))
    s.names (describeVariables s)
  /-- In whatever order the variables are gone through, sorting by name gives the listings. -/
  sorted : ∀ arrangement : List (String × Variable), arrangement.Perm s.entries →
    arrangement.Pairwise (fun a b => ¬ b.1 < a.1) →
      arrangement.map (·.1) = s.names ∧ arrangement.map describe = describeVariables s

/-- After any calls a store reflects them. Other calls that are the same for each name, however
those on different names are mixed, lead to the same listings. -/
theorem reflects_history (calls : List Call) :
    Reflects (empty.after calls) (empty.answers calls) ∧
      ∀ other : List Call,
        (∀ name, other.filter (·.name = name) = calls.filter (·.name = name)) →
          (empty.after other).names = (empty.after calls).names ∧
            describeVariables (empty.after other) = describeVariables (empty.after calls) := by
  constructor
  · constructor
    case declare_iff =>
      intro name type value
      rw [respond_declare_iff, ← contains_after_iff, Bool.not_eq_true]
    case set_iff =>
      intro name value
      rw [respond_set_iff, contains_after_iff]
    case refused => exact fun call h => respond_of_refused h
    case value => exact get?_after calls
    case type => exact typeOf?_after calls
    case mem_names =>
      intro name
      rw [mem_names_iff, contains_after_iff]
    case ascending => exact names_ascending _
    case listing => exact describeVariables_names _
    case sorted =>
      intro arrangement hperm hsorted
      rw [entries_unique hperm hsorted]
      exact ⟨rfl, rfl⟩
  · intro other h
    rw [after_eq_of_filter h]
    exact ⟨rfl, rfl⟩

/-- Two names, each with a refused call, in two orders. -/
theorem reflects_history_reordered :
    let calls := [Call.declare "z" .float 1, .set "Z" 2, .declare "Z" .int 3, .declare "z" .int 4,
      .set "z" 5]
    let other := [Call.set "Z" 2, .declare "z" .float 1, .declare "z" .int 4, .declare "Z" .int 3,
      .set "z" 5]
    (empty.after other).names = ["Z", "z"] ∧ (empty.after calls).names = ["Z", "z"] ∧
      (empty.after calls).get? "z" = some 5 ∧ (empty.after calls).typeOf? "z" = some .float ∧
      describeVariables (empty.after other) = describeVariables (empty.after calls) := by
  intro calls other
  have hsame (name : String) :
      other.filter (·.name = name) = calls.filter (·.name = name) := by
    by_cases hlower : "z" = name
    · subst hlower
      rfl
    · by_cases hupper : "Z" = name
      · subst hupper
        rfl
      · simp [calls, other, Call.name, hlower, hupper]
  obtain ⟨hreflects, hreordered⟩ := reflects_history calls
  obtain ⟨hnames, hlines⟩ := hreordered other hsame
  have hshown : (empty.after calls).names = ["Z", "z"] := rfl
  have htype : ((empty.after calls).typeOf? "z").toList = [.float] := hreflects.type "z"
  exact ⟨hnames.trans hshown, hshown, hreflects.value "z",
    Option.toList_eq_singleton_iff.mp htype, hlines⟩

end Store

end GridRover
