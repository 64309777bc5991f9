import Mathlib.Data.List.Induction
import JungleDb.Runtime.Refine

/-!
# `table_linear_scan_by_field` filters the rows

The scan compares one cell of each row with the literal of the WHERE clause. On a table that
represents a relation it fails when the cells of an INT column cannot all be compared, and else finds
the indices of exactly the rows that satisfy the clause.
-/

namespace JungleDb

open CArray CString

/-! ## Comparisons -/

/-- A number with the sign of a comparison. -/
structure SignOf {α : Type} [LT α] (s : Int) (a b : α) : Prop where
  neg : s < 0 ↔ a < b
  zero : s = 0 ↔ a = b
  pos : 0 < s ↔ b < a

theorem signOf_strcmp (a b : Bytes) : SignOf (strcmp a b) a b :=
  ⟨strcmp_lt, strcmp_eq, by rw [← strcmp_lt, strcmp_swap a b]; omega⟩

theorem signOf_int (a b : Int) : SignOf (if a < b then -1 else if b < a then 1 else 0) a b := by
  constructor
  · split <;> rename_i h
    · simp [h]
    · split <;> simp [h]
  · split <;> rename_i h
    · simp [h.ne]
    · split <;> rename_i h'
      · simp [h'.ne']
      · simp only [true_iff]
        omega
  · split <;> rename_i h
    · simp [h.le]
    · split <;> rename_i h'
      · simp [h']
      · simp [h']

/-- `table_where_matches` decides the operator. -/
theorem tableWhereMatches_eq {α : Type} [DecidableEq α] [LT α] [DecidableLT α] {s : Int} {a b : α}
    (h : SignOf s a b) (op : Bytes) :
    tableWhereMatches s op = (Comparison.ofOp op).any fun c => c.holds a b := by
  have hne : (s ≠ 0) ↔ a ≠ b := not_congr h.zero
  have hge : s ≥ 0 ↔ b < a ∨ a = b := by rw [← h.pos, ← h.zero]; omega
  have hle : s ≤ 0 ↔ a < b ∨ a = b := by rw [← h.neg, ← h.zero]; omega
  unfold tableWhereMatches Comparison.ofOp
  split
  · simp [Comparison.holds, h.zero]
  split
  · simp [Comparison.holds, hne]
  split
  · simp [Comparison.holds, h.pos]
  split
  · simp [Comparison.holds, hge]
  split
  · simp [Comparison.holds, h.neg]
  split
  · simp [Comparison.holds, hle]
  · rfl

/-- A cell can be compared with the literal of a clause. -/
def WhereClause.CanCompare (clause : WhereClause) (kind : ValueKind) (cell : Bytes) : Prop :=
  kind = .int → IntegerText clause.value.text ∧ IntegerText cell

instance (clause : WhereClause) (kind : ValueKind) (cell : Bytes) :
    Decidable (clause.CanCompare kind cell) := inferInstanceAs (Decidable (_ → _))

/-- The text of the error of a scan over cells that are no integers. -/
def badInteger : CStr MESSAGE_LEN := message "Invalid integer literal for numeric column."

/-- What `table_compare_field_value` and `table_where_matches` make of one cell. -/
theorem tableCompareFieldValue_eq (t : TableRuntime) (i : Nat) (cell : Bytes)
    (clause : WhereClause) :
    if clause.CanCompare (rd t.columnValueKinds i) cell then
      ∃ s, tableCompareFieldValue t i cell clause = .ok s ∧
        tableWhereMatches s clause.op.text = clause.holds (rd t.columnValueKinds i) cell
    else tableCompareFieldValue t i cell clause = .error badInteger := by
  unfold tableCompareFieldValue WhereClause.CanCompare WhereClause.holds
  cases hkind : rd t.columnValueKinds i with
  | int =>
    simp only [if_true, forall_const]
    rw [utilsCompareIntegerStrings_eq]
    by_cases hboth : IntegerText clause.value.text ∧ IntegerText cell
    · rw [if_pos hboth, if_pos hboth.symm]
      refine ⟨_, rfl, ?_⟩
      rw [tableWhereMatches_eq (signOf_int (intValue cell) (intValue clause.value.text))]
      cases Comparison.ofOp clause.op.text <;> rfl
    · rw [if_neg hboth, if_neg fun h => hboth h.symm]
      rfl
  | string =>
    simp only [reduceCtorEq, if_false, false_implies, if_true]
    refine ⟨_, rfl, ?_⟩
    rw [tableWhereMatches_eq (signOf_strcmp cell clause.value.text)]
    cases Comparison.ofOp clause.op.text <;> rfl

/-! ## Columns -/

/-- A search of the indices of a list finds what a search of the list finds. -/
theorem find?_range {α : Type} (l : List α) (p : α → Bool) (q : Nat → Bool)
    (h : ∀ i a, l[i]? = some a → q i = p a) :
    (List.range l.length).find? q = l.findIdx? p := by
  ext i
  rw [List.find?_range_eq_some,
    List.findIdx?_eq_some_iff_getElem]
  have hget : ∀ j (hj : j < l.length), q j = p l[j] := fun j hj =>
    h j _ (List.getElem?_eq_getElem hj)
  refine ⟨?_, ?_⟩
  · rintro ⟨hi, hmem, hleast⟩
    have hlt := List.mem_range.mp hmem
    refine ⟨hlt, by rw [← hget i hlt]; exact hi, fun j hj => ?_⟩
    rw [← hget j (hj.trans hlt)]
    simpa using hleast j hj
  · rintro ⟨hlt, hi, hleast⟩
    refine ⟨by rw [hget i hlt]; exact hi, List.mem_range.mpr hlt, fun j hj => ?_⟩
    rw [hget j (hj.trans hlt)]
    simpa using hleast j hj

theorem HasSchema.findColumnIndex {t : TableRuntime} {R : Relation} (hs : HasSchema t R.header)
    (name : Bytes) : tableFindColumnIndex t name = R.columnIndex name := by
  unfold tableFindColumnIndex Relation.columnIndex
  rw [hs.colCount]
  refine find?_range R.header _ _ fun i c hc => ?_
  rw [(hs.column i c hc).1, utilsEqualsIgnoreCase_eq]

theorem Relation.header_getElem? {R : Relation} {i : Nat} (hi : i < R.header.length) :
    R.header[i]? = some (R.column i) := by
  rw [Relation.column, List.getElem?_eq_getElem hi]
  rfl

/-! ## The scan -/

/-- The rows from `start` on whose cells the loop compares. -/
theorem scanLoop_eq {t : TableRuntime} {R : Relation} (hs : HasSchema t R.header)
    (hr : RowStore t R.rows) (clause : WhereClause) {i : Nat} (hi : i < R.header.length) :
    ∀ (todo start : Nat) (found : List Nat), start + todo = t.rowCount →
      scanLoop t clause i todo start found =
        some (if ∀ row ∈ R.rows.drop start, clause.CanCompare (R.column i).kind (cellAt row i) then
            .ok (found ++ (List.range' start todo).filter fun j =>
              clause.holds (R.column i).kind (cellAt (R.rows[j]?.getD []) i))
          else .error badInteger)
  | 0, start, found, hstart => by
    have hdrop : R.rows.drop start = [] := by
      rw [List.drop_eq_nil_iff, ← hr.rowCount]
      omega
    simp [scanLoop, hdrop]
  | todo + 1, start, found, hstart => by
    have hlt : start < R.rows.length := by
      rw [← hr.rowCount]
      omega
    have hslot : t.rows[start]?.join = some R.rows[start] := by
      rw [hr.slot start (by omega), List.getElem?_eq_getElem hlt]
      rfl
    have hcell : R.rows[start][i]? = some (cellAt R.rows[start] i) := by
      have hlen := Relation.length_of_mem_rows (List.getElem_mem hlt)
      rw [cellAt, List.getElem?_eq_getElem (by omega)]
      rfl
    have hkind : rd t.columnValueKinds i = (R.column i).kind :=
      (hs.column i _ (Relation.header_getElem? hi)).2
    have hcmp := tableCompareFieldValue_eq t i (cellAt R.rows[start] i) clause
    rw [hkind] at hcmp
    rw [scanLoop, hslot]
    simp only [Option.bind_eq_bind, Option.bind_some, hcell]
    rw [List.drop_eq_getElem_cons hlt, List.range'_succ]
    by_cases hok : clause.CanCompare (R.column i).kind (cellAt R.rows[start] i)
    · rw [if_pos hok] at hcmp
      obtain ⟨s, hs', hmatch⟩ := hcmp
      have hget : R.rows[start]?.getD [] = R.rows[start] := by
        rw [List.getElem?_eq_getElem hlt]
        rfl
      simp only [hs', hmatch, List.forall_mem_cons, hok, true_and, List.filter_cons, hget]
      rw [scanLoop_eq hs hr clause hi todo (start + 1) _ (by omega)]
      by_cases hholds : clause.holds (R.column i).kind (cellAt R.rows[start] i) = true
      · simp only [hholds, if_true, List.append_assoc, List.singleton_append]
      · simp only [hholds, Bool.false_eq_true, if_false]
    · rw [if_neg hok] at hcmp
      simp only [hcmp, List.forall_mem_cons, hok, false_and, if_false]

/-- The indices of the rows that satisfy a clause on column `i`. -/
def Relation.matching (R : Relation) (clause : WhereClause) (i : Nat) : List Nat :=
  (List.range R.rows.length).filter fun j =>
    clause.holds (R.column i).kind (cellAt (R.rows[j]?.getD []) i)

theorem comparable_iff {R : Relation} {clause : WhereClause} {i : Nat} :
    (∀ row ∈ R.rows, clause.CanCompare (R.column i).kind (cellAt row i)) ↔ R.Comparable clause i := by
  obtain ⟨row, hrow⟩ : ∃ row, row ∈ R.rows := by
    have hpos := R.tuples_length_pos
    rw [← R.length_rows] at hpos
    exact ⟨_, List.getElem_mem hpos⟩
  refine ⟨fun h hkind => ⟨(h row hrow hkind).1, fun row' hrow' => (h row' hrow' hkind).2⟩,
    fun h row' hrow' hkind => ⟨(h hkind).1, (h hkind).2 row' hrow'⟩⟩

/-- `table_linear_scan_by_field` with a WHERE clause. -/
theorem tableLinearScanByField_where {t : TableRuntime} {R : Relation} (h : Represents t (some R))
    (clause : WhereClause) :
    tableLinearScanByField t (some clause) = some (match R.columnIndex clause.column.text with
      | none => .error (message "Column not found.")
      | some i => if R.Comparable clause i then .ok (R.matching clause i) else .error badInteger) := by
  obtain ⟨hs, hr⟩ := h
  have hrows : t.rowCount ≠ 0 := by
    have := R.tuples_length_pos
    rw [hr.rowCount, R.length_rows]
    omega
  unfold tableLinearScanByField
  rw [if_neg (by simp [hs.loaded, hrows])]
  simp only [hs.findColumnIndex]
  cases hcol : R.columnIndex clause.column.text with
  | none => rfl
  | some i =>
    simp only
    rw [scanLoop_eq hs hr clause (Relation.columnIndex_lt hcol) t.rowCount 0 [] (Nat.zero_add _)]
    simp only [List.drop_zero, comparable_iff, List.nil_append, Relation.matching,
      List.range_eq_range', hr.rowCount]

/-- `table_linear_scan_by_field` without one. -/
theorem tableLinearScanByField_all {t : TableRuntime} {R : Relation} (h : Represents t (some R)) :
    tableLinearScanByField t none = some (.ok (List.range R.rows.length)) := by
  obtain ⟨hs, hr⟩ := h
  have hrows : t.rowCount ≠ 0 := by
    have := R.tuples_length_pos
    rw [hr.rowCount, R.length_rows]
    omega
  unfold tableLinearScanByField
  rw [if_neg (by simp [hs.loaded, hrows]), hr.rowCount]

/-- The rows at the matching indices are the rows that match. -/
theorem map_filter_range {α : Type} (l : List α) (d : α) (p : α → Bool) :
    ((List.range l.length).filter fun j => p (l[j]?.getD d)).map (fun j => l[j]?.getD d) =
      l.filter p := by
  induction l using List.reverseRecOn with
  | nil => rfl
  | append_singleton l a ih =>
    have hold : ∀ j ∈ List.range l.length, (l ++ [a])[j]?.getD d = l[j]?.getD d := fun j hj => by
      rw [List.getElem?_append_left (List.mem_range.mp hj)]
    have hnew : (l ++ [a])[l.length]?.getD d = a := by simp
    rw [List.length_append, List.length_singleton, List.range_succ, List.filter_append,
      List.map_append, List.filter_append, ← ih]
    congr 1
    · rw [List.filter_congr fun j hj => by rw [hold j hj]]
      exact List.map_congr_left fun j hj => hold j (List.mem_of_mem_filter hj)
    · by_cases hp : p a <;> simp [hp]

end JungleDb
