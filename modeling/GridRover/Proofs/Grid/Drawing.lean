import GridRover.Proofs.Grid.Motion
import GridRover.Proofs.Text

/-!
# What a drawing tells about its grid

The drawing of a grid has a row for each place of its height and in it a character for each
place of its width, and the one mark stands where the rover is. All of this can be read off
the text again, so grids that look alike are alike, as long as the rover is on the grid.
-/
namespace GridRover.Grid

open Script

variable {g : Grid}

/-- The grid comes from a new one by commands. -/
def Reachable (g : Grid) : Prop :=
  ∃ width height start first commands,
    create width height start = .ok first ∧ first.drive commands = g

/-- The rows show a rectangle with a single mark, at row `y` and column `x`. -/
structure Depicts (rows : List (List Char)) (width height x y : Nat) : Prop where
  length_rows : rows.length = height
  length_row : ∀ row ∈ rows, row.length = width
  zero_or_one : ∀ row ∈ rows, ∀ c ∈ row, c = '0' ∨ c = '1'
  mark_iff : ∀ i j, (rows[i]?.bind (·[j]?)) = some '1' ↔ i = y ∧ j = x

theorem Reachable.onGrid (h : g.Reachable) : g.OnGrid := by
  obtain ⟨width, height, start, first, commands, hcreate, rfl⟩ := h
  exact onGrid_drive (create_eq_ok_iff.mp hcreate).2 commands

section Reading

/-- Rows that depict two rectangles depict the same one. -/
theorem Depicts.unique {rows : List (List Char)} {width height x y width' height' x' y' : Nat}
    (h : Depicts rows width height x y) (h' : Depicts rows width' height' x' y') :
    width = width' ∧ height = height' ∧ x = x' ∧ y = y' := by
  have hmark := (h.mark_iff y x).mpr ⟨rfl, rfl⟩
  obtain ⟨hy, hx⟩ := (h'.mark_iff y x).mp hmark
  obtain ⟨row, hrow, -⟩ := Option.bind_eq_some_iff.mp hmark
  have hmem := List.mem_of_getElem? hrow
  refine ⟨?_, ?_, hx, hy⟩
  · rw [← h.length_row row hmem, h'.length_row row hmem]
  · rw [← h.length_rows, h'.length_rows]

/-- Lines are told apart by the line feeds that end them. -/
theorem flatMap_newline_inj {rows rows' : List (List Char)} (hrows : ∀ row ∈ rows, '\n' ∉ row)
    (hrows' : ∀ row ∈ rows', '\n' ∉ row)
    (h : rows.flatMap (· ++ ['\n']) = rows'.flatMap (· ++ ['\n'])) : rows = rows' := by
  induction rows generalizing rows' with
  | nil =>
    cases rows' with
    | nil => rfl
    | cons row' rest' => simp at h
  | cons row rest ih =>
    cases rows' with
    | nil => simp at h
    | cons row' rest' =>
      simp only [List.flatMap_cons, List.append_assoc, List.singleton_append] at h
      have hkind : ∀ row : List Char, '\n' ∉ row → ∀ c ∈ row, (c != '\n') = true := by
        intro row hrow c hc
        rw [bne_iff_ne]
        rintro rfl
        exact hrow hc
      obtain ⟨rfl, hrest⟩ := Text.append_inj_of_stops
        (hkind row (hrows row List.mem_cons_self)) (Text.stops_cons.mpr (by rfl))
        (hkind row' (hrows' row' List.mem_cons_self)) (Text.stops_cons.mpr (by rfl)) h
      rw [List.cons.injEq] at hrest
      rw [ih (fun row hrow => hrows row (List.mem_cons_of_mem _ hrow))
        (fun row hrow => hrows' row (List.mem_cons_of_mem _ hrow)) hrest.2]

theorem Depicts.newline_not_mem {rows : List (List Char)} {width height x y : Nat}
    (h : Depicts rows width height x y) {row : List Char} (hrow : row ∈ rows) : '\n' ∉ row := by
  intro hmem
  rcases h.zero_or_one row hrow _ hmem with hc | hc <;> cases hc

end Reading

section Drawing

def rows (g : Grid) : List (List Char) := (places g.height).map g.row

theorem toList_text (g : Grid) : g.text.toList = g.rows.flatMap (· ++ ['\n']) := by
  simp [text, rows, List.flatMap_map]

theorem length_places (size : UInt64) : (places size).length = size.toNat := by simp [places]

/-- The place with a number is on the axis, if there are more places than that. -/
theorem getElem?_places_eq_some_iff {size place : UInt64} {i : Nat} :
    (places size)[i]? = some place ↔ place < size ∧ i = place.toNat := by
  rw [places, List.getElem?_map, Option.map_eq_some_iff]
  constructor
  · rintro ⟨k, hk, rfl⟩
    obtain ⟨hi, rfl⟩ := List.getElem?_eq_some_iff.mp hk
    rw [List.length_range] at hi
    have hword : i < UInt64.size := Nat.lt_trans hi size.toNat_lt_size
    rw [List.getElem_range, UInt64.lt_iff_toNat_lt, UInt64.toNat_ofNat_of_lt' hword]
    exact ⟨hi, rfl⟩
  · rintro ⟨hlt, rfl⟩
    exact ⟨place.toNat, List.getElem?_range (UInt64.lt_iff_toNat_lt.mp hlt), UInt64.ofNat_toNat⟩

theorem getElem?_row_eq_some_iff {y : UInt64} {j : Nat} {c : Char} :
    (g.row y)[j]? = some c ↔
      ∃ x, (x < g.width ∧ j = x.toNat) ∧ (if g.rover = ⟨x, y⟩ then '1' else '0') = c := by
  simp only [row, List.getElem?_map, Option.map_eq_some_iff, getElem?_places_eq_some_iff]

/-- The mark stands where the rover is and nowhere else. -/
theorem mark_iff_of_onGrid (h : g.OnGrid) (i j : Nat) :
    (g.rows[i]?.bind (·[j]?)) = some '1' ↔ i = g.rover.y.toNat ∧ j = g.rover.x.toNat := by
  rw [rows, List.getElem?_map]
  simp only [Option.bind_eq_some_iff, Option.map_eq_some_iff, getElem?_places_eq_some_iff]
  constructor
  · rintro ⟨_, ⟨y, ⟨-, rfl⟩, rfl⟩, hcell⟩
    obtain ⟨x, ⟨-, rfl⟩, hmark⟩ := getElem?_row_eq_some_iff.mp hcell
    split at hmark
    case isTrue hrover =>
      rw [hrover]
      exact ⟨rfl, rfl⟩
    case isFalse => cases hmark
  · rintro ⟨rfl, rfl⟩
    have hcell : (g.row g.rover.y)[g.rover.x.toNat]? = some '1' :=
      getElem?_row_eq_some_iff.mpr ⟨g.rover.x, ⟨h .x, rfl⟩, if_pos rfl⟩
    exact ⟨g.row g.rover.y, ⟨g.rover.y, ⟨h .y, rfl⟩, rfl⟩, hcell⟩

theorem depicts_rows (h : g.OnGrid) :
    Depicts g.rows g.width.toNat g.height.toNat g.rover.x.toNat g.rover.y.toNat where
  length_rows := by rw [rows, List.length_map, length_places]
  length_row := by
    intro row hrow
    obtain ⟨y, -, rfl⟩ := List.mem_map.mp hrow
    rw [Grid.row, List.length_map, length_places]
  zero_or_one := by
    intro row hrow c hc
    obtain ⟨y, -, rfl⟩ := List.mem_map.mp hrow
    obtain ⟨x, -, rfl⟩ := List.mem_map.mp hc
    split
    · exact .inr rfl
    · exact .inl rfl
  mark_iff := mark_iff_of_onGrid h

/-- The text of a grid that can come up has as many lines as the grid is high, each of them as
many characters long as the grid is wide, and among zeros a single one, at the row and the
column of the rover. So grids that can come up and have the same text are as wide and as high
as each other and have their rovers on the same cell. -/
theorem text_determines :
    (∀ g : Grid, g.Reachable → ∃ rows,
      g.text.toList = rows.flatMap (· ++ ['\n']) ∧
        Depicts rows g.width.toNat g.height.toNat g.rover.x.toNat g.rover.y.toNat) ∧
    ∀ g h : Grid, g.Reachable → h.Reachable → g.text = h.text →
      g.width = h.width ∧ g.height = h.height ∧ g.rover = h.rover := by
  constructor
  · intro g hg
    exact ⟨g.rows, toList_text g, depicts_rows hg.onGrid⟩
  · intro g h hg hh htext
    have hdraws := depicts_rows hg.onGrid
    have hdraws' := depicts_rows hh.onGrid
    have hrows : g.rows = h.rows := by
      apply flatMap_newline_inj (fun row => hdraws.newline_not_mem)
        (fun row => hdraws'.newline_not_mem)
      rw [← toList_text, ← toList_text, htext]
    rw [← hrows] at hdraws'
    obtain ⟨hwidth, hheight, hx, hy⟩ := hdraws.unique hdraws'
    refine ⟨UInt64.toNat_inj.mp hwidth, UInt64.toNat_inj.mp hheight, ?_⟩
    apply Position.ext_on
    rintro (_ | _)
    · exact UInt64.toNat_inj.mp hx
    · exact UInt64.toNat_inj.mp hy

/-- A grid and a turned one, both of six cells and driven to the last of them. -/
theorem text_determines_turned :
    let g : Grid := ⟨3, 2, ⟨2, 1⟩⟩
    let turned : Grid := ⟨2, 3, ⟨1, 2⟩⟩
    g.Reachable ∧ turned.Reachable ∧
      (∃ rows, g.text.toList = rows.flatMap (· ++ ['\n']) ∧ Depicts rows 3 2 2 1) ∧
      g.text = "000\n001\n" ∧ g.text ≠ turned.text := by
  intro g turned
  have hg : g.Reachable :=
    ⟨3, 2, ⟨0, 0⟩, ⟨3, 2, ⟨0, 0⟩⟩, [.move .right, .move .forward, .move .right, .move .right],
      rfl, by decide⟩
  have hturned : turned.Reachable :=
    ⟨2, 3, ⟨0, 0⟩, ⟨2, 3, ⟨0, 0⟩⟩, [.move .forward, .move .right, .move .forward], rfl, by decide⟩
  refine ⟨hg, hturned, text_determines.1 g hg, by decide, ?_⟩
  intro htext
  have hwidth : (3 : UInt64) = 2 := (text_determines.2 g turned hg hturned htext).1
  exact absurd hwidth (by decide)

end Drawing

end GridRover.Grid
