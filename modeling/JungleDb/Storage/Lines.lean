import JungleDb.Storage.Insert

/-!
# The lines behind a header

The load, the search for a key and the search for the next id go over the same lines and pass over the
blank ones. Each of them comes through just when every line can be read and the rows in them are as it
wants them.
-/

namespace JungleDb

open CString Stdio

/-- Every line behind the header can be read. -/
def LinesRead (tableName : Bytes) (colCount : Nat) (lines : List Bytes) : Prop :=
  ∀ chunk ∈ lines, ∃ row, storageReadRow tableName colCount chunk = .ok row

/-- The rows of the lines that can be read. -/
def readRows (tableName : Bytes) (colCount : Nat) (lines : List Bytes) : List Row :=
  lines.filterMap fun chunk =>
    match storageReadRow tableName colCount chunk with
    | .error _ => none
    | .ok row => row

variable {tableName chunk : Bytes} {colCount idIndex : Nat} {lines : List Bytes}

theorem readRows_cons (tableName : Bytes) (colCount : Nat) (chunk : Bytes) (lines : List Bytes) :
    readRows tableName colCount (chunk :: lines) =
      match storageReadRow tableName colCount chunk with
      | .ok (some row) => row :: readRows tableName colCount lines
      | _ => readRows tableName colCount lines := by
  unfold readRows
  rw [List.filterMap_cons]
  cases storageReadRow tableName colCount chunk with
  | error e => rfl
  | ok row => cases row <;> rfl

theorem linesRead_error {e : Bytes} (h : storageReadRow tableName colCount chunk = .error e) :
    ¬ LinesRead tableName colCount (chunk :: lines) := by
  intro hread
  obtain ⟨⟨row, hrow⟩, -⟩ := List.forall_mem_cons.mp hread
  rw [h] at hrow
  cases hrow

theorem linesRead_ok {row : Option Row} (h : storageReadRow tableName colCount chunk = .ok row) :
    LinesRead tableName colCount (chunk :: lines) ↔ LinesRead tableName colCount lines :=
  List.forall_mem_cons.trans (and_iff_right ⟨row, h⟩)

/-! ## The loops -/

/-- A load keeps the rows of the lines. -/
theorem loadRows_ok {offset : Nat} {loaded : List (Nat × Row)}
    (h : loadRows tableName colCount offset lines = .ok loaded) :
    LinesRead tableName colCount lines ∧
      readRows tableName colCount lines = loaded.map Prod.snd := by
  induction lines generalizing offset loaded with
  | nil =>
    cases h
    exact ⟨nofun, rfl⟩
  | cons chunk lines ih =>
    rw [loadRows] at h
    rw [readRows_cons]
    cases hrow : storageReadRow tableName colCount chunk with
    | error e =>
      rw [hrow] at h
      cases h
    | ok row =>
      rw [hrow] at h
      rw [linesRead_ok hrow]
      cases row with
      | none => exact ih h
      | some row =>
        obtain ⟨rest, hrest, rfl⟩ := map_eq_ok h
        obtain ⟨hread, hrows⟩ := ih hrest
        exact ⟨hread, congrArg (row :: ·) hrows⟩

theorem LinesRead.load (h : LinesRead tableName colCount lines) (offset : Nat) :
    ∃ loaded, loadRows tableName colCount offset lines = .ok loaded := by
  induction lines generalizing offset with
  | nil => exact ⟨[], rfl⟩
  | cons chunk lines ih =>
    obtain ⟨⟨row, hrow⟩, hlines⟩ := List.forall_mem_cons.mp h
    obtain ⟨rows, hrows⟩ := ih hlines (offset + chunk.length)
    rw [loadRows, hrow]
    cases row with
    | none => exact ⟨rows, hrows⟩
    | some row =>
      simp only [hrows]
      exact ⟨_, rfl⟩

/-- The search for a key comes through where no row has it. -/
theorem findKey_ok_iff {key : Bytes} :
    findKey tableName colCount idIndex key lines = .ok () ↔
      LinesRead tableName colCount lines ∧
        ∀ row ∈ readRows tableName colCount lines, cellAt row idIndex ≠ key := by
  induction lines with
  | nil => exact iff_of_true rfl ⟨nofun, nofun⟩
  | cons chunk lines ih =>
    rw [findKey, readRows_cons]
    cases hrow : storageReadRow tableName colCount chunk with
    | error e => exact iff_of_false nofun fun h => linesRead_error hrow h.1
    | ok row =>
      rw [linesRead_ok hrow]
      cases row with
      | none => exact ih
      | some row =>
        simp only [List.forall_mem_cons]
        by_cases hkey : cellAt row idIndex = key
        · rw [if_pos hkey]
          exact iff_of_false nofun fun h => h.2.1 hkey
        · rw [if_neg hkey, ih]
          exact and_congr_right fun _ => (and_iff_right hkey).symm

/-- The search for the next id comes through where every row has an integer, and is a fold. -/
theorem nextAutoId_ok_iff {nextId result : Int} :
    nextAutoId tableName colCount idIndex nextId lines = .ok result ↔
      LinesRead tableName colCount lines ∧
        (∀ row ∈ readRows tableName colCount lines, utilsIsInteger (cellAt row idIndex) = true) ∧
        ((readRows tableName colCount lines).map fun row => cellAt row idIndex).foldl
          advanceId nextId = result := by
  induction lines generalizing nextId with
  | nil =>
    rw [nextAutoId, Except.ok.injEq]
    exact ⟨fun h => ⟨List.forall_mem_nil _, List.forall_mem_nil _, h⟩, fun h => h.2.2⟩
  | cons chunk lines ih =>
    rw [nextAutoId, readRows_cons]
    cases hrow : storageReadRow tableName colCount chunk with
    | error e => exact iff_of_false (fun hok => by cases hok) fun h => linesRead_error hrow h.1
    | ok row =>
      rw [linesRead_ok hrow]
      cases row with
      | none => exact ih
      | some row =>
        simp only [List.forall_mem_cons, List.map_cons, List.foldl_cons]
        by_cases hint : utilsIsInteger (cellAt row idIndex) = true
        · rw [hint, if_neg (by decide), ih]
          exact and_congr_right fun _ => and_congr_left fun _ => (and_iff_right rfl).symm
        · rw [Bool.not_eq_true] at hint
          rw [hint, if_pos (by decide)]
          exact iff_of_false (fun hok => by cases hok) fun h => Bool.false_ne_true h.2.1.1

end JungleDb
