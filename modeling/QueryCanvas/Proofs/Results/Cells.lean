/-
  QueryCanvas.Proofs.Results.Cells

  What the cells of a table show.

  A row takes the values out of its solution, cell by cell. The first cell of a
  variable therefore shows what is bound to it, and the later cells of the same
  variable are empty (`Binding.getElem?_row`).

  `Results.shows_every_value_iff` says when no value is missing from a table: a
  variable that is listed more than once must not be bound to a text.
-/

import QueryCanvas.Service

namespace QueryCanvas

/-! ## One row -/

namespace Binding

theorem text_erase (b : Binding) (name other : String) :
    Binding.text (b.erase name) other = if name = other then "" else b.text other := by
  rw [text, Dict.get?_erase]
  split <;> rfl

@[simp] theorem length_row (b : Binding) (names : List String) :
    (b.row names).length = names.length := by
  induction names generalizing b with
  | nil => rfl
  | cons name rest ih => simp [row, ih]

/-- The first cell of a variable shows the text bound to it, and the later ones are empty. -/
theorem getElem?_row (b : Binding) (names : List String) (j : Nat) :
    (b.row names)[j]? =
      names[j]?.map fun name => if name ∈ names.take j then "" else b.text name := by
  induction names generalizing b j with
  | nil => rfl
  | cons first rest ih =>
    cases j with
    | zero => simp [row]
    | succ j =>
      rw [row, List.getElem?_cons_succ, List.getElem?_cons_succ, List.take_succ_cons, ih]
      congr 1
      funext name
      rw [text_erase]
      -- the first cell has taken the text of its own variable only
      by_cases hfirst : first = name
      · simp [hfirst]
      · simp [hfirst, Ne.symm hfirst]

end Binding

/-! ## The whole table -/

/-- The cell in a row and a column. -/
def Table.cell? (t : Table) (row column : Nat) : Option String := t.rows[row]?.bind (·[column]?)

namespace Results

/-- Every cell shows what is bound to its variable in its solution, and is empty if nothing is. -/
def ShowsEveryValue (r : Results) : Prop :=
  ∀ (i j : Nat) (b : Binding) (name : String), r.bindings[i]? = some b →
    r.columns[j]? = some name → r.table.cell? i j = some (b.text name)

theorem cell?_table (r : Results) {i j : Nat} {b : Binding} {name : String}
    (solution : r.bindings[i]? = some b) (column : r.columns[j]? = some name) :
    r.table.cell? i j = some (if name ∈ r.columns.take j then "" else b.text name) := by
  have hrow : r.table.rows[i]? = some (b.row r.columns) := by
    simp [table, List.getElem?_map, solution]
  rw [Table.cell?, hrow, Option.bind_some, Binding.getElem?_row, column, Option.map_some]

/-- A variable is listed more than once if and only if some column of it has another one before. -/
theorem one_lt_count_iff {names : List String} {name : String} :
    1 < names.count name ↔ ∃ j, names[j]? = some name ∧ name ∈ names.take j := by
  induction names with
  | nil => simp
  | cons first rest ih =>
    by_cases hfirst : first = name
    · subst hfirst
      rw [List.count_cons_self, Nat.lt_add_left_iff_pos, List.count_pos_iff]
      constructor
      · intro hrest
        obtain ⟨j, hj⟩ := List.mem_iff_getElem?.1 hrest
        exact ⟨j + 1, hj, by simp⟩
      · rintro ⟨j, hj, hbefore⟩
        cases j with
        | zero => simp at hbefore
        | succ j => exact List.mem_of_getElem? hj
    · rw [List.count_cons_of_ne hfirst, ih]
      constructor
      · rintro ⟨j, hj, hbefore⟩
        exact ⟨j + 1, hj, by simp [hbefore]⟩
      · rintro ⟨j, hj, hbefore⟩
        cases j with
        | zero => simp at hbefore
        | succ j => exact ⟨j, hj, by simpa [Ne.symm hfirst] using hbefore⟩

/-- A table has the variables as its columns, a row for each solution, and in each row a cell for
    each column. A cell shows what is bound to its variable, except that the later columns of a
    variable are empty. So every value is shown everywhere if and only if no solution binds a text
    to a variable that is listed more than once. -/
theorem shows_every_value_iff (r : Results) :
    r.table.columns = r.columns ∧ r.table.rows.length = r.bindings.length ∧
      (∀ row ∈ r.table.rows, row.length = r.columns.length) ∧
      (∀ (i j : Nat) (b : Binding) (name : String), r.bindings[i]? = some b →
        r.columns[j]? = some name →
        r.table.cell? i j = some (if name ∈ r.columns.take j then "" else b.text name)) ∧
      (r.ShowsEveryValue ↔
        ∀ b ∈ r.bindings, ∀ name, 1 < r.columns.count name → b.text name = "") := by
  refine ⟨rfl, by simp [table], ?_, fun i j b name => r.cell?_table, ?_, ?_⟩
  · intro row hrow
    obtain ⟨b, -, rfl⟩ := List.mem_map.1 hrow
    exact b.length_row r.columns
  · intro hshows b hb name hrepeated
    obtain ⟨i, hi⟩ := List.mem_iff_getElem?.1 hb
    obtain ⟨j, hj, hbefore⟩ := one_lt_count_iff.1 hrepeated
    have hcell := hshows i j b name hi hj
    rw [r.cell?_table hi hj, if_pos hbefore] at hcell
    exact (Option.some.inj hcell).symm
  · intro hempty i j b name hi hj
    rw [r.cell?_table hi hj]
    split
    · next hbefore =>
      rw [hempty b (List.mem_of_getElem? hi) name (one_lt_count_iff.2 ⟨j, hj, hbefore⟩)]
    · rfl

/-- An answer that lists its only variable twice. -/
def listedTwice : Results :=
  ⟨["s", "s"], [.ofPairs [("s", ⟨"uri", "http://ex/a", none, none⟩)]]⟩

/-- The value is missing from the second column. -/
theorem value_missing :
    listedTwice.table.rows = [["http://ex/a", ""]] ∧ ¬ listedTwice.ShowsEveryValue := by
  refine ⟨by decide, fun hshows => ?_⟩
  have hcell := hshows 0 1 (.ofPairs [("s", ⟨"uri", "http://ex/a", none, none⟩)]) "s" rfl rfl
  revert hcell
  decide

end Results

end QueryCanvas
