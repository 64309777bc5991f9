import JungleDb.Runtime.Table

/-!
# Tables as their users see them

A relation has the columns its first INSERT named and one tuple of values for each INSERT that
succeeded; the id of a row is its place in the list, so a relation with other ids cannot be written
down. An INSERT appends a tuple that fits the columns; a SELECT keeps the rows that satisfy its
condition and projects them.
-/

namespace JungleDb

open CString

/-- Two names are the same ignoring case. -/
def SameName (a b : Bytes) : Prop := a.map toupper = b.map toupper

instance (a b : Bytes) : Decidable (SameName a b) := inferInstanceAs (Decidable (_ = _))

/-- A name and what it stores. -/
structure Column where
  name : Identifier
  kind : ValueKind
  deriving DecidableEq

/-- The column that the runtime adds. -/
def idColumn : Column := ⟨idName, .int⟩

/-- The rows a table can hold: the doubling of the capacity leaves `int` after that. -/
abbrev MAX_ROWS : Nat := 2 ^ 30

/-- A table with at least one row. -/
@[ext] structure Relation where
  columns : List Column
  tuples : List Row
  named : columns ≠ []
  fits : columns.length < MAX_COLUMNS
  arity : ∀ v ∈ tuples, v.length = columns.length
  filled : tuples ≠ []
  bounded : tuples.length ≤ MAX_ROWS

namespace Relation

/-- All columns, the id first. -/
def header (R : Relation) : List Column := idColumn :: R.columns

/-- The rows: each tuple after the text of its id. -/
def rows (R : Relation) : List Row := R.tuples.mapIdx fun i v => decimal (i + 1) :: v

@[simp] theorem length_header (R : Relation) : R.header.length = R.columns.length + 1 := rfl

@[simp] theorem length_rows (R : Relation) : R.rows.length = R.tuples.length := by
  simp [rows]

theorem getElem?_rows (R : Relation) (i : Nat) :
    R.rows[i]? = R.tuples[i]?.map fun v => decimal (i + 1) :: v := by
  simp [rows]

theorem length_of_mem_rows {R : Relation} {row : Row} (h : row ∈ R.rows) :
    row.length = R.header.length := by
  obtain ⟨i, hi⟩ := List.getElem?_of_mem h
  rw [getElem?_rows, Option.map_eq_some_iff] at hi
  obtain ⟨v, hv, rfl⟩ := hi
  rw [List.length_cons, R.arity v (List.mem_of_getElem? hv), length_header]

theorem tuples_length_pos (R : Relation) : 0 < R.tuples.length :=
  List.length_pos_of_ne_nil R.filled

end Relation

/-! ## INSERT -/

/-- Why an INSERT into a table is rejected. -/
inductive InsertError
  | columnCount
  | explicitId
  | schema
  | types
  | full
  deriving DecidableEq

/-- The text that is reported. -/
def InsertError.text : InsertError → String
  | .columnCount => "Invalid INSERT column count."
  | .explicitId => "Explicit id values are not allowed."
  | .schema => "INSERT columns do not match table schema."
  | .types => "INSERT value types do not match table schema."
  | .full => "Failed to allocate memory."

/-- The first item that is not for the column in its place. -/
def mismatch : List Column → List InsertItem → Option InsertError
  | c :: cs, item :: items =>
    if ¬ SameName c.name.text item.column.text then some .schema
    else if c.kind ≠ item.valueKind then some .types
    else mismatch cs items
  | _, _ => none

/-- The column that an item of a first INSERT makes. -/
def InsertItem.toColumn (item : InsertItem) : Column := ⟨item.column, item.valueKind⟩

/-- A statement has the columns that it made. -/
theorem mismatch_toColumn (items : List InsertItem) :
    mismatch (items.map InsertItem.toColumn) items = none := by
  induction items with
  | nil => rfl
  | cons item items ih =>
    have hsame : SameName item.column.text item.column.text := rfl
    rw [List.map_cons, mismatch, InsertItem.toColumn, if_neg (not_not.mpr hsame),
      if_neg (not_not.mpr rfl)]
    exact ih

/-- The values of an INSERT. -/
def values (items : List InsertItem) : Row := items.map fun item => item.value.text

@[simp] theorem length_values (items : List InsertItem) : (values items).length = items.length := by
  simp [values]

/-- The relation with one more tuple. -/
def Relation.insert (R : Relation) (items : List InsertItem) : Except InsertError Relation :=
  if hlen : items.length ≠ R.columns.length then .error .schema
  else match mismatch R.columns items with
    | some e => .error e
    | none =>
      if hfull : R.tuples.length = MAX_ROWS then .error .full
      else .ok {
        columns := R.columns
        tuples := R.tuples ++ [values items]
        named := R.named
        fits := R.fits
        arity := by
          intro v hv
          rcases List.mem_append.mp hv with hv | hv
          · exact R.arity v hv
          · rw [List.mem_singleton.mp hv, length_values]
            exact Decidable.not_not.mp hlen
        filled := by simp
        bounded := by
          have := R.bounded
          rw [List.length_append, List.length_singleton]
          omega }

/-- The relation that a first INSERT makes. -/
def Relation.create (items : List InsertItem) : Except InsertError Relation :=
  if hcount : items = [] ∨ MAX_COLUMNS ≤ items.length then .error .columnCount
  else if items.any fun item => SameName item.column.text idName.text then .error .explicitId
  else .ok {
    columns := items.map InsertItem.toColumn
    tuples := [values items]
    named := by simpa using fun h => hcount (.inl h)
    fits := by simpa using fun h => hcount (.inr h)
    arity := by simp
    filled := by simp
    bounded := by rw [List.length_singleton]; decide }

/-- An INSERT into a table that may not be there yet. -/
def insertInto (table : Option Relation) (items : List InsertItem) : Except InsertError Relation :=
  match table with
  | none => Relation.create items
  | some R => R.insert items

/-- An INSERT that succeeds appends the tuple of its values, and keeps the columns. -/
theorem Relation.insert_ok {R R' : Relation} {items : List InsertItem}
    (h : R.insert items = .ok R') :
    R'.columns = R.columns ∧ R'.tuples = R.tuples ++ [values items] ∧
      items.length = R.columns.length ∧ mismatch R.columns items = none ∧
      R.tuples.length < MAX_ROWS := by
  unfold Relation.insert at h
  split at h
  · cases h
  · rename_i hlen
    split at h
    · cases h
    · rename_i hmatch
      split at h
      · cases h
      · rename_i hfull
        obtain rfl := Except.ok.inj h
        exact ⟨rfl, rfl, Decidable.not_not.mp hlen, hmatch, lt_of_le_of_ne R.bounded hfull⟩

theorem Relation.create_ok {R : Relation} {items : List InsertItem}
    (h : Relation.create items = .ok R) :
    R.columns = items.map InsertItem.toColumn ∧ R.tuples = [values items] ∧ items ≠ [] ∧
      items.length < MAX_COLUMNS ∧ ∀ item ∈ items, ¬ SameName item.column.text idName.text := by
  unfold Relation.create at h
  split at h
  · cases h
  · rename_i hcount
    split at h
    · cases h
    · rename_i hid
      obtain rfl := Except.ok.inj h
      refine ⟨rfl, rfl, fun h => hcount (.inl h), Nat.lt_of_not_le fun h => hcount (.inr h), ?_⟩
      simpa using hid

/-- When a row fits. -/
theorem Relation.insert_eq_ok {R : Relation} {items : List InsertItem}
    (hlen : items.length = R.columns.length) (hmatch : mismatch R.columns items = none)
    (hfull : R.tuples.length ≠ MAX_ROWS) : ∃ R', R.insert items = .ok R' := by
  unfold Relation.insert
  rw [dif_neg (not_not.mpr hlen)]
  simp only [hmatch, dif_neg hfull]
  exact ⟨_, rfl⟩

theorem Relation.create_eq_ok {items : List InsertItem}
    (hcount : ¬ (items = [] ∨ MAX_COLUMNS ≤ items.length))
    (hid : ¬ ∃ item ∈ items, SameName item.column.text idName.text) :
    ∃ R, Relation.create items = .ok R := by
  unfold Relation.create
  rw [dif_neg hcount, if_neg (by simpa using hid)]
  exact ⟨_, rfl⟩

theorem Relation.rows_append {R R' : Relation} {v : Row} (h : R'.tuples = R.tuples ++ [v]) :
    R'.rows = R.rows ++ [decimal (R.tuples.length + 1) :: v] := by
  unfold Relation.rows
  rw [h, List.mapIdx_append]
  simp

/-! ## SELECT -/

/-- The operators of a WHERE clause. -/
inductive Comparison
  | eq
  | ne
  | lt
  | le
  | gt
  | ge
  deriving DecidableEq

namespace Comparison

/-- How an operator is written. -/
def ofOp (op : Bytes) : Option Comparison :=
  if op = bytes "=" then some .eq
  else if op = bytes "!=" then some .ne
  else if op = bytes ">" then some .gt
  else if op = bytes ">=" then some .ge
  else if op = bytes "<" then some .lt
  else if op = bytes "<=" then some .le
  else none

/-- What it says of two values. -/
def holds {α : Type} [DecidableEq α] [LT α] [DecidableLT α] : Comparison → α → α → Bool
  | eq, a, b => a = b
  | ne, a, b => a ≠ b
  | lt, a, b => a < b
  | le, a, b => a < b ∨ a = b
  | gt, a, b => b < a
  | ge, a, b => b < a ∨ a = b

end Comparison

/-- The condition of a WHERE clause on a cell: the order of the integers for an INT column, of the
byte strings for a STRING column. An operator that is none of the six is never satisfied. -/
def WhereClause.holds (clause : WhereClause) (kind : ValueKind) (cell : Bytes) : Bool :=
  match Comparison.ofOp clause.op.text with
  | none => false
  | some c =>
    match kind with
    | .int => c.holds (intValue cell) (intValue clause.value.text)
    | .string => c.holds cell clause.value.text

/-- The cell of a row at a column. -/
def cellAt (row : Row) (i : Nat) : Bytes := row[i]?.getD []

/-- The cells of a row at the columns of an answer. -/
def projectRow (indices : List Nat) (row : Row) : Row := indices.map (cellAt row)

namespace Relation

/-- The column of a name. -/
def columnIndex (R : Relation) (name : Bytes) : Option Nat :=
  R.header.findIdx? fun c => SameName c.name.text name

/-- The column at an index. -/
def column (R : Relation) (i : Nat) : Column := R.header[i]?.getD idColumn

/-- The columns that a statement asks for. -/
def projection (R : Relation) (stmt : SelectStatement) : Option (List Nat) :=
  if stmt.columns.1 = [] then some (List.range R.header.length)
  else stmt.columns.1.mapM fun name => R.columnIndex name.text

/-- The integers that a WHERE clause compares can be compared. -/
def Comparable (R : Relation) (clause : WhereClause) (i : Nat) : Prop :=
  (R.column i).kind = .int →
    IntegerText clause.value.text ∧ ∀ row ∈ R.rows, IntegerText (cellAt row i)

instance (R : Relation) (clause : WhereClause) (i : Nat) : Decidable (R.Comparable clause i) :=
  inferInstanceAs (Decidable (_ → _))

/-- A SELECT that can be answered. -/
def Selectable (R : Relation) (stmt : SelectStatement) : Prop :=
  (∀ name ∈ stmt.columns.1, (R.columnIndex name.text).isSome) ∧
    ∀ clause ∈ stmt.where, ∃ i, R.columnIndex clause.column.text = some i ∧ R.Comparable clause i

/-- The rows that satisfy the WHERE clause. -/
def filtered (R : Relation) (clause : Option WhereClause) : List Row :=
  match clause with
  | none => R.rows
  | some clause =>
    match R.columnIndex clause.column.text with
    | none => []
    | some i => R.rows.filter fun row => clause.holds (R.column i).kind (cellAt row i)

/-- The names over the columns of an answer. -/
def names (R : Relation) (indices : List Nat) : List Identifier :=
  indices.map fun i => (R.column i).name

theorem columnIndex_lt {R : Relation} {name : Bytes} {i : Nat} (h : R.columnIndex name = some i) :
    i < R.header.length := by
  obtain ⟨hi, -⟩ := List.findIdx?_eq_some_iff_getElem.mp h
  exact hi

end Relation

end JungleDb
