import GridRover.Store

/-!
# Reading a store after writing to it

Writing a name changes what is found under that name and nothing else. What is found under
all names makes up the store: its entries can be put in ascending order in one way only.
-/
namespace GridRover.Store

/-- The type of a name. -/
def typeOf? (s : Store) (name : String) : Option VariableType := (s.find? name).map (·.type)

theorem contains_iff_find? {s : Store} {name : String} :
    s.contains name = true ↔ ∃ v, s.find? name = some v := by
  simp [contains, Option.isSome_iff_exists]

theorem isSome_get? (s : Store) (name : String) : (s.get? name).isSome = s.contains name := by
  simp [contains, get?]

theorem isSome_typeOf? (s : Store) (name : String) : (s.typeOf? name).isSome = s.contains name := by
  simp [contains, typeOf?]

theorem contains_iff_get? {s : Store} {name : String} :
    s.contains name = true ↔ ∃ x, s.get? name = some x := by
  rw [← isSome_get?, Option.isSome_iff_exists]

private theorem lookup_cons_ite (name key : String) (v : Variable)
    (rest : List (String × Variable)) :
    ((key, v) :: rest).lookup name = if name = key then some v else rest.lookup name := by
  by_cases h : name = key
  · simp [h]
  · have hb : (name == key) = false := beq_false_of_ne h
    simp [List.lookup_cons, h, hb]

theorem lookup_place (name other : String) (v : Variable) (entries : List (String × Variable)) :
    (place name v entries).lookup other =
      if other = name then some v else entries.lookup other := by
  induction entries with
  | nil => simp [place, lookup_cons_ite]
  | cons entry rest ih =>
    obtain ⟨key, w⟩ := entry
    unfold place
    split
    · simp only [lookup_cons_ite]
    · split
      · rename_i hlt
        have hne : name ≠ key := fun h => String.lt_irrefl key (h ▸ hlt)
        simp only [lookup_cons_ite, ih]
        by_cases h : other = name <;> simp [h, hne]
      · rename_i hnl hng
        have hkey : key = name := String.le_antisymm hnl hng
        simp only [lookup_cons_ite, hkey]
        by_cases h : other = name <;> simp [h]

theorem find?_insert (s : Store) (name other : String) (v : Variable) :
    (s.insert name v).find? other = if other = name then some v else s.find? other :=
  lookup_place name other v s.entries

theorem contains_insert (s : Store) (name other : String) (v : Variable) :
    (s.insert name v).contains other = true ↔ other = name ∨ s.contains other = true := by
  by_cases h : other = name <;> simp [contains, find?_insert, h]

/-- What is found under a name is the entry of that name. -/
theorem lookup_eq_some_iff {name : String} {v : Variable} {entries : List (String × Variable)}
    (h : entries.Pairwise fun a b => a.1 < b.1) :
    entries.lookup name = some v ↔ (name, v) ∈ entries := by
  induction entries with
  | nil => simp
  | cons entry rest ih =>
    obtain ⟨key, w⟩ := entry
    obtain ⟨hkey, hrest⟩ := List.pairwise_cons.mp h
    rw [lookup_cons_ite, List.mem_cons]
    by_cases hname : name = key
    · subst hname
      -- No later entry has this name, as all of them are above it.
      have hlater : (name, v) ∉ rest := fun hmem => String.lt_irrefl name (hkey _ hmem)
      simp [hlater, eq_comm]
    · simp [hname, ih hrest]

theorem find?_eq_some_iff {s : Store} {name : String} {v : Variable} :
    s.find? name = some v ↔ (name, v) ∈ s.entries := lookup_eq_some_iff s.ascending

theorem mem_names_iff {s : Store} {name : String} : name ∈ s.names ↔ s.contains name = true := by
  rw [contains_iff_find?]
  simp [names, find?_eq_some_iff]

/-- An arrangement of the entries of a store in which no name comes before a lesser one is the
one that the store has. -/
theorem entries_unique {s : Store} {arrangement : List (String × Variable)}
    (hperm : arrangement.Perm s.entries)
    (hsorted : arrangement.Pairwise fun a b => ¬ b.1 < a.1) : arrangement = s.entries := by
  refine hperm.eq_of_pairwise ?_ hsorted (s.ascending.imp fun h => String.lt_asymm h)
  rintro ⟨name, v⟩ ⟨other, w⟩ hv hw hle hge
  obtain rfl : name = other := String.le_antisymm hle hge
  have hfound := find?_eq_some_iff.mpr (hperm.mem_iff.mp hv)
  rw [find?_eq_some_iff.mpr hw, Option.some.injEq] at hfound
  rw [hfound]

/-- A store is known by what is found under each name. -/
theorem eq_of_find? {s t : Store} (h : ∀ name, s.find? name = t.find? name) : s = t := by
  have hnodup (s : Store) : s.entries.Nodup := by
    refine s.ascending.imp ?_
    rintro entry _ hlt rfl
    exact String.lt_irrefl entry.1 hlt
  have hperm : s.entries.Perm t.entries := by
    rw [List.perm_ext_iff_of_nodup (hnodup s) (hnodup t)]
    rintro ⟨name, v⟩
    rw [← find?_eq_some_iff, ← find?_eq_some_iff, h]
  have hentries : s.entries = t.entries :=
    entries_unique hperm (s.ascending.imp fun hlt => String.lt_asymm hlt)
  cases s
  cases t
  cases hentries
  rfl

end GridRover.Store
