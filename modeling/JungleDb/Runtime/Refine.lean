import JungleDb.Bptree.Insert
import JungleDb.Runtime.Relation

/-!
# `table_insert_row` refines the INSERT of relations

A table holds a schema and a store of rows. `HasSchema` says what the header is, `RowStore` ties the
row array, the counters and the id index to a list of rows. One call of `table_insert_row` checks or
sets the schema and then appends to the store; on the relation it does what `insertInto` does.
-/

namespace JungleDb

open CArray CString

/-- The schema of a loaded table. -/
structure HasSchema (t : TableRuntime) (header : List Column) : Prop where
  loaded : t.loaded = true
  colCount : t.colCount = header.length
  idColumnIndex : t.idColumnIndex = 0
  column : ∀ i c, header[i]? = some c →
    rd t.columns i = c.name ∧ rd t.columnValueKinds i = c.kind

/-- The rows of a table and everything that is kept in step with them. -/
structure RowStore (t : TableRuntime) (rows : List Row) : Prop where
  rowCount : t.rowCount = rows.length
  slot : ∀ i < t.rowCount, t.rows[i]? = some rows[i]?
  slots : t.rows.length = t.capacity
  fits : t.rowCount ≤ t.capacity
  doubled : t.capacity = 0 ∨ ∃ k ≤ 26, t.capacity = INITIAL_ROW_CAPACITY * 2 ^ k
  nextId : t.nextId = t.rowCount + 1
  index : ∃ es, Built t.idIndex es ∧
    ∀ k : Int, es.lookup k = if 1 ≤ k ∧ k ≤ t.rowCount then some (k - 1) else none

/-- The table holds the relation, or nothing yet. -/
def Represents (t : TableRuntime) : Option Relation → Prop
  | none => t.loaded = false ∧ RowStore t []
  | some R => HasSchema t R.header ∧ RowStore t R.rows

theorem represents_init : Represents tableInit none := by
  refine ⟨rfl, rfl, nofun, rfl, le_rfl, .inl rfl, rfl, [], .inl ⟨rfl, rfl⟩, fun k => ?_⟩
  rw [if_neg (fun h => absurd (h.1.trans h.2) (by decide))]
  rfl

/-- The two tables differ in their rows only. -/
structure SameSchema (t t' : TableRuntime) : Prop where
  tableName : t'.tableName = t.tableName
  colCount : t'.colCount = t.colCount
  columns : t'.columns = t.columns
  columnValueKinds : t'.columnValueKinds = t.columnValueKinds
  idColumnIndex : t'.idColumnIndex = t.idColumnIndex
  loaded : t'.loaded = t.loaded

theorem SameSchema.hasSchema {t t' : TableRuntime} (h : SameSchema t t') {header : List Column}
    (hs : HasSchema t header) : HasSchema t' header := by
  refine ⟨h.loaded.trans hs.loaded, h.colCount.trans hs.colCount,
    h.idColumnIndex.trans hs.idColumnIndex, ?_⟩
  rw [h.columns, h.columnValueKinds]
  exact hs.column

theorem SameSchema.trans {t₁ t₂ t₃ : TableRuntime} (h : SameSchema t₁ t₂) (h' : SameSchema t₂ t₃) :
    SameSchema t₁ t₃ :=
  ⟨h'.tableName.trans h.tableName, h'.colCount.trans h.colCount, h'.columns.trans h.columns,
    h'.columnValueKinds.trans h.columnValueKinds, h'.idColumnIndex.trans h.idColumnIndex,
    h'.loaded.trans h.loaded⟩

/-- The two tables have the same rows and counters. -/
structure SameRows (t t' : TableRuntime) : Prop where
  rows : t'.rows = t.rows
  rowCount : t'.rowCount = t.rowCount
  capacity : t'.capacity = t.capacity
  nextId : t'.nextId = t.nextId
  idIndex : t'.idIndex = t.idIndex

theorem SameRows.rowStore {t t' : TableRuntime} (h : SameRows t t') {rows : List Row}
    (hr : RowStore t rows) : RowStore t' rows := by
  obtain ⟨h₁, h₂, h₃, h₄, h₅⟩ := h
  constructor
  · rw [h₂, hr.rowCount]
  · rw [h₁, h₂]
    exact hr.slot
  · rw [h₁, h₃, hr.slots]
  · rw [h₂, h₃]
    exact hr.fits
  · rw [h₃]
    exact hr.doubled
  · rw [h₄, h₂, hr.nextId]
  · rw [h₅, h₂]
    exact hr.index

/-- A new entry holds nothing. -/
theorem represents_named (name : Identifier) :
    Represents { tableInit with tableName := name } none :=
  have hsame : SameRows tableInit { tableInit with tableName := name } := ⟨rfl, rfl, rfl, rfl, rfl⟩
  ⟨rfl, hsame.rowStore represents_init.2⟩

/-! ## The store of rows -/

/-- The row that an INSERT stores under the id `n + 1`. -/
def storedRow (n : Nat) (items : List InsertItem) : Row := decimal (n + 1) :: values items

theorem callocAll_nil (n : Nat) : callocAll n [] = (true, []) := by
  induction n with
  | zero => rfl
  | succ n ih => exact ih

theorem tableBuildRow_nil (stmt : InsertStatement) (n : Nat) :
    tableBuildRow stmt (n + 1 : Int) [] = (some (storedRow n stmt.items.1), []) := by
  have hlld : lld (n + 1 : Int) = decimal (n + 1) := by
    rw [lld, if_neg (by omega)]
    congr 1
  rw [tableBuildRow, callocAll_nil, hlld]
  rfl

namespace RowStore

variable {t : TableRuntime} {rows : List Row}

theorem capacity_le (hr : RowStore t rows) : t.capacity ≤ MAX_ROWS := by
  rcases hr.doubled with h | ⟨k, hk, h⟩
  · rw [h]
    exact Nat.zero_le _
  · rw [h]
    exact Nat.mul_le_mul_left 16 (Nat.pow_le_pow_right (by decide) hk)

/-- The table with an array of `n` slots. -/
def grown (t : TableRuntime) (n : Nat) : TableRuntime :=
  { t with rows := t.rows ++ List.replicate (n - t.rows.length) none, capacity := n }

theorem rowStore_grown (hr : RowStore t rows) {n k : Nat} (hk : k ≤ 26)
    (hn : n = INITIAL_ROW_CAPACITY * 2 ^ k) (hle : t.capacity ≤ n) :
    RowStore (grown t n) rows := by
  refine ⟨hr.rowCount, fun i hi => ?_, ?_, hr.fits.trans hle, .inr ⟨k, hk, hn⟩, hr.nextId,
    hr.index⟩
  · have hlt : i < t.rows.length := by
      rw [hr.slots]
      exact Nat.lt_of_lt_of_le hi hr.fits
    rw [grown, List.getElem?_append_left hlt]
    exact hr.slot i hi
  · simp only [grown, List.length_append, List.length_replicate]
    rw [hr.slots]
    omega

theorem sameSchema_grown (t : TableRuntime) (n : Nat) : SameSchema t (grown t n) :=
  ⟨rfl, rfl, rfl, rfl, rfl, rfl⟩

end RowStore

/-! ## Room for a row -/

/-- The array of rows fits the counters and was doubled up to its size. -/
structure Roomy (t : TableRuntime) : Prop where
  slots : t.rows.length = t.capacity
  fits : t.rowCount ≤ t.capacity
  doubled : t.capacity = 0 ∨ ∃ k ≤ 26, t.capacity = INITIAL_ROW_CAPACITY * 2 ^ k

theorem RowStore.roomy {t : TableRuntime} {rows : List Row} (hr : RowStore t rows) : Roomy t :=
  ⟨hr.slots, hr.fits, hr.doubled⟩

namespace Roomy

variable {t : TableRuntime}

theorem grown (h : Roomy t) {n k : Nat} (hk : k ≤ 26) (hn : n = INITIAL_ROW_CAPACITY * 2 ^ k)
    (hle : t.capacity ≤ n) : Roomy (RowStore.grown t n) := by
  refine ⟨?_, h.fits.trans hle, .inr ⟨k, hk, hn⟩⟩
  simp only [RowStore.grown, List.length_append, List.length_replicate]
  rw [h.slots]
  omega

/-- The array is full at its largest size: the doubling leaves `int`. -/
theorem reserve_full (h : Roomy t) (hfull : t.rowCount = MAX_ROWS) (allocs : List Bool) :
    tableReserveIfNeeded t allocs = (.error (message "Failed to allocate memory."), t, allocs) := by
  have hle : t.capacity ≤ MAX_ROWS := by
    rcases h.doubled with hzero | ⟨k, hk, hcap⟩
    · rw [hzero]
      exact Nat.zero_le _
    · rw [hcap]
      exact Nat.mul_le_mul_left 16 (Nat.pow_le_pow_right (by decide) hk)
  have hcap : t.capacity = MAX_ROWS := Nat.le_antisymm hle (hfull ▸ h.fits)
  unfold tableReserveIfNeeded
  rw [if_neg (by omega), hcap]
  rfl

/-- Where there is no room the array is doubled, if that is granted. -/
theorem reserve_grow (h : Roomy t) (hroom : ¬ t.rowCount < t.capacity)
    (hfull : t.rowCount ≠ MAX_ROWS) (allocs : List Bool) :
    ∃ n k, k ≤ 26 ∧ n = INITIAL_ROW_CAPACITY * 2 ^ k ∧ t.capacity < n ∧
      tableReserveIfNeeded t allocs = match calloc allocs with
        | (false, allocs) => (.error (message "Failed to allocate memory."), t, allocs)
        | (true, allocs) => (.ok (), RowStore.grown t n, allocs) := by
  have hfits := h.fits
  unfold tableReserveIfNeeded
  simp only [if_neg hroom]
  rcases h.doubled with hzero | ⟨k, hk, hcap⟩
  · refine ⟨INITIAL_ROW_CAPACITY, 0, Nat.zero_le _, rfl, by rw [hzero]; decide, ?_⟩
    rw [if_pos hzero]
    rfl
  · have hpos : 0 < t.capacity := by
      rw [hcap]
      exact Nat.mul_pos (by decide) (Nat.two_pow_pos k)
    rw [if_neg (Nat.pos_iff_ne_zero.mp hpos)]
    have hlt : k < 26 := by
      refine lt_of_le_of_ne hk ?_
      rintro rfl
      have hmax : MAX_ROWS = INITIAL_ROW_CAPACITY * 2 ^ 26 := rfl
      omega
    have hbound : t.capacity ≤ 2 ^ 29 := by
      rw [hcap]
      exact Nat.mul_le_mul_left 16 (Nat.pow_le_pow_right (by decide) (Nat.le_of_lt_succ hlt))
    have hmod : Int.bmod ((t.capacity : Int) * 2) (2 ^ 32) = ((t.capacity * 2 : Nat) : Int) := by
      rw [Int.bmod_eq_of_le (by omega) (by omega)]
      rfl
    have hgranted : reallocRows ((t.capacity * 2 : Nat) : Int) allocs = calloc allocs := by
      have hmax : ((PTRDIFF_MAX : Nat) : Int) = 2 ^ 63 - 1 := rfl
      have hsize : ((t.capacity * 2 : Nat) : Int) * 8 % 2 ^ 64 ≤ (PTRDIFF_MAX : Nat) := by omega
      rw [reallocRows, if_pos hsize]
    refine ⟨t.capacity * 2, k + 1, hlt, ?_, by omega, ?_⟩
    · rw [hcap, Nat.pow_succ, Nat.mul_assoc]
    · rw [hmod, hgranted]
      rfl

end Roomy

namespace RowStore

variable {t : TableRuntime} {rows : List Row}

/-- Where there is no room the array is doubled, up to the largest size. -/
theorem reserve (hr : RowStore t rows) :
    if rows.length = MAX_ROWS then
      tableReserveIfNeeded t [] = (.error (message "Failed to allocate memory."), t, [])
    else ∃ t', tableReserveIfNeeded t [] = (.ok (), t', []) ∧ RowStore t' rows ∧
      SameSchema t t' ∧ t'.rowCount < t'.capacity := by
  rw [← hr.rowCount]
  by_cases hfull : t.rowCount = MAX_ROWS
  · rw [if_pos hfull]
    exact hr.roomy.reserve_full hfull []
  · rw [if_neg hfull]
    by_cases hroom : t.rowCount < t.capacity
    · refine ⟨t, ?_, hr, ⟨rfl, rfl, rfl, rfl, rfl, rfl⟩, hroom⟩
      unfold tableReserveIfNeeded
      rw [if_pos hroom]
    · obtain ⟨n, k, hk, hn, hlt, hrun⟩ := hr.roomy.reserve_grow hroom hfull []
      exact ⟨grown t n, hrun, hr.rowStore_grown hk hn hlt.le, sameSchema_grown t n,
        Nat.lt_of_le_of_lt hr.fits hlt⟩

/-- The row goes into the next slot and its id into the index. -/
theorem store (hr : RowStore t rows) (hroom : t.rowCount < t.capacity) (row : Row) :
    ∃ t', tableStoreRow t row [] = some (.ok rows.length, t') ∧ RowStore t' (rows ++ [row]) ∧
      SameSchema t t' := by
  have hmax : t.nextId ≤ INT_MAX := by
    have hcap : t.capacity ≤ 2 ^ 30 := hr.capacity_le
    have : (t.rowCount : Int) + 1 ≤ 2 ^ 31 - 1 := by omega
    rw [hr.nextId]
    exact this
  have hslot : t.rowCount < t.rows.length := by rw [hr.slots]; exact hroom
  obtain ⟨es, hbuilt, hes⟩ := hr.index
  obtain ⟨idIndex, es', hrun, hbuilt', hes'⟩ := hbuilt.insert t.nextId t.rowCount
  have hnew : es.lookup t.nextId = none := by
    rw [hes, hr.nextId, if_neg (by omega)]
  rw [hnew] at hrun
  refine ⟨{ t with
    rows := t.rows.set t.rowCount (some row)
    idIndex := idIndex
    rowCount := t.rowCount + 1
    nextId := t.nextId + 1 }, ?_, ?_, ⟨rfl, rfl, rfl, rfl, rfl, rfl⟩⟩
  · unfold tableStoreRow
    rw [if_neg (not_lt.mpr hmax), if_pos hslot, hrun, hr.rowCount]
    rfl
  · constructor
    · rw [List.length_append, hr.rowCount]
      rfl
    · intro i hi
      rcases Nat.lt_succ_iff_lt_or_eq.mp hi with hlt | rfl
      · rw [List.getElem?_set_ne (by omega), hr.slot i hlt,
          List.getElem?_append_left (by rw [← hr.rowCount]; exact hlt)]
      · rw [List.getElem?_set_self hslot, hr.rowCount, List.getElem?_concat_length]
    · rw [List.length_set]
      exact hr.slots
    · exact hroom
    · exact hr.doubled
    · rw [hr.nextId]
      push_cast
      rfl
    · refine ⟨es', hbuilt', fun k => ?_⟩
      rw [hes', hes, hr.nextId]
      push_cast
      by_cases hold : 1 ≤ k ∧ k ≤ t.rowCount
      · have hnew : 1 ≤ k ∧ k ≤ t.rowCount + 1 := ⟨hold.1, by omega⟩
        rw [if_pos hold, if_pos hnew]
        rfl
      · rw [if_neg hold, Option.none_or]
        by_cases hk : k = t.rowCount + 1
        · have hnew : 1 ≤ k ∧ k ≤ t.rowCount + 1 := by omega
          rw [if_pos hk, if_pos hnew, hk, Int.add_sub_cancel]
        · have hnew : ¬ (1 ≤ k ∧ k ≤ t.rowCount + 1) := by omega
          rw [if_neg hk, if_neg hnew]

/-- Appending a row, no allocation failing. -/
theorem append (hr : RowStore t rows) (stmt : InsertStatement) :
    if rows.length = MAX_ROWS then
      tableAppendRow t stmt [] = some (.error (message InsertError.full.text), t)
    else ∃ t', tableAppendRow t stmt [] = some (.ok rows.length, t') ∧
      RowStore t' (rows ++ [storedRow rows.length stmt.items.1]) ∧ SameSchema t t' := by
  have hres := hr.reserve
  unfold tableAppendRow
  split
  · rename_i hfull
    rw [if_pos hfull] at hres
    rw [hres]
    rfl
  · rename_i hfull
    rw [if_neg hfull] at hres
    obtain ⟨t₁, hrun, hr₁, hsame₁, hroom⟩ := hres
    obtain ⟨t₂, hstore, hr₂, hsame₂⟩ := hr₁.store hroom (storedRow rows.length stmt.items.1)
    refine ⟨t₂, ?_, hr₂, hsame₁.trans hsame₂⟩
    have hid : t₁.nextId = (rows.length : Int) + 1 := by rw [hr₁.nextId, hr₁.rowCount]
    simp only [hrun, hid, tableBuildRow_nil, hstore]

end RowStore

/-! ## The schema -/

theorem utilsEqualsIgnoreCase_eq (a b : Bytes) :
    utilsEqualsIgnoreCase a b = decide (SameName a b) := by
  rw [Bool.eq_iff_iff, utilsEqualsIgnoreCase_iff, decide_eq_true_eq]
  rfl

/-- What a check that may find an error reports. -/
def reported : Option InsertError → Sql Unit
  | none => .ok ()
  | some e => .error (message e.text)

/-- The loop compares the items with the columns from `i + 1` on. -/
theorem validateColumns_eq {t : TableRuntime} : ∀ (cs : List Column) (items : List InsertItem)
    (i : Nat), (∀ j c, cs[j]? = some c →
      rd t.columns (i + 1 + j) = c.name ∧ rd t.columnValueKinds (i + 1 + j) = c.kind) →
    items.length = cs.length → validateColumns t i items = reported (mismatch cs items)
  | [], [], _, _, _ => rfl
  | [], _ :: _, _, _, hlen => by cases hlen
  | _ :: _, [], _, _, hlen => by cases hlen
  | c :: cs, item :: items, i, hcol, hlen => by
    obtain ⟨hname, hkind⟩ := hcol 0 c rfl
    have ih := validateColumns_eq cs items (i + 1) (fun j c' hc' => by
      have := hcol (j + 1) c' hc'
      rwa [show i + 1 + (j + 1) = i + 1 + 1 + j by omega] at this) (Nat.succ.inj hlen)
    rw [validateColumns, mismatch, hname, hkind, utilsEqualsIgnoreCase_eq]
    by_cases hsame : SameName c.name.text item.column.text
    · by_cases hk : c.kind = item.valueKind
      · simpa [hsame, hk] using ih
      · simp [hsame, hk, reported, InsertError.text]
    · simp [hsame, reported, InsertError.text]

/-- The check of a statement against the schema. -/
theorem HasSchema.validate {t : TableRuntime} {R : Relation} (hs : HasSchema t R.header)
    (stmt : InsertStatement) : tableValidateInsertSchema t stmt =
      reported (if stmt.items.1.length ≠ R.columns.length then some .schema
        else mismatch R.columns stmt.items.1) := by
  have hne : 0 < R.columns.length := List.length_pos_of_ne_nil R.named
  unfold tableValidateInsertSchema
  rw [hs.colCount, R.length_header]
  by_cases hlen : stmt.items.1.length = R.columns.length
  · rw [if_neg (by omega), if_neg (not_not.mpr hlen)]
    refine validateColumns_eq R.columns stmt.items.1 0 (fun j c hc => ?_) hlen
    have := hs.column (j + 1) c hc
    rwa [Nat.add_comm j 1] at this
  · rw [if_pos (by omega), if_pos hlen]
    rfl

/-- The loop of `table_initialize_schema` over items none of which is the id. -/
theorem initializeColumns_ok : ∀ (items : List InsertItem) (i : Nat) (t : TableRuntime),
    (∀ item ∈ items, ¬ SameName item.column.text idName.text) → i + items.length < MAX_COLUMNS →
      ∃ cols kinds, initializeColumns i items t =
          (.ok (), { t with columns := cols, columnValueKinds := kinds }) ∧
        (∀ j ≤ i, rd cols j = rd t.columns j ∧ rd kinds j = rd t.columnValueKinds j) ∧
        ∀ j item, items[j]? = some item →
          rd cols (i + 1 + j) = item.column ∧ rd kinds (i + 1 + j) = item.valueKind
  | [], _, t, _, _ => ⟨t.columns, t.columnValueKinds, rfl, fun _ _ => ⟨rfl, rfl⟩, nofun⟩
  | item :: items, i, t, hid, hlen => by
    rw [List.length_cons] at hlen
    have hitem : ¬ SameName item.column.text idName.text := hid item List.mem_cons_self
    have hi : i + 1 < MAX_COLUMNS := by omega
    obtain ⟨cols, kinds, hrun, hold, hnew⟩ := initializeColumns_ok items (i + 1)
      { t with
        columns := wr t.columns (i + 1) item.column
        columnValueKinds := wr t.columnValueKinds (i + 1) item.valueKind }
      (fun item' h => hid item' (List.mem_cons_of_mem item h)) (by omega)
    refine ⟨cols, kinds, ?_, fun j hj => ?_, fun j item' hj => ?_⟩
    · rw [initializeColumns, utilsEqualsIgnoreCase_eq, if_neg (by simpa using hitem),
        utilsSafeStrcpy_text]
      exact hrun
    · obtain ⟨hc, hk⟩ := hold j (Nat.le_succ_of_le hj)
      have hne : j ≠ i + 1 := by omega
      rw [hc, hk, rd_wr_ne _ _ hne, rd_wr_ne _ _ hne]
      exact ⟨rfl, rfl⟩
    · cases j with
      | zero =>
        obtain rfl : item = item' := Option.some.inj hj
        obtain ⟨hc, hk⟩ := hold (i + 1) le_rfl
        rw [Nat.add_zero, hc, hk, rd_wr_self _ _ _ hi, rd_wr_self _ _ _ hi]
        exact ⟨rfl, rfl⟩
      | succ j =>
        rw [show i + 1 + (j + 1) = i + 1 + 1 + j by omega]
        exact hnew j item' hj

/-- The loop stops at an item that is the id. -/
theorem initializeColumns_explicitId : ∀ (items : List InsertItem) (i : Nat) (t : TableRuntime),
    (∃ item ∈ items, SameName item.column.text idName.text) →
      ∃ cols kinds, initializeColumns i items t = (.error (message InsertError.explicitId.text),
        { t with columns := cols, columnValueKinds := kinds })
  | [], _, _, h => by
    obtain ⟨_, h, -⟩ := h
    cases h
  | item :: items, i, t, h => by
    rw [initializeColumns, utilsEqualsIgnoreCase_eq, utilsSafeStrcpy_text]
    by_cases hitem : SameName item.column.text idName.text
    · rw [if_pos (by simpa using hitem)]
      exact ⟨t.columns, t.columnValueKinds, rfl⟩
    · rw [if_neg (by simpa using hitem)]
      obtain ⟨item', hmem, hsame⟩ := h
      rcases List.mem_cons.mp hmem with rfl | hmem
      · exact absurd hsame hitem
      · obtain ⟨cols, kinds, hrun⟩ := initializeColumns_explicitId items (i + 1)
          { t with
            columns := wr t.columns (i + 1) item.column
            columnValueKinds := wr t.columnValueKinds (i + 1) item.valueKind } ⟨item', hmem, hsame⟩
        exact ⟨cols, kinds, hrun⟩

/-- What `table_initialize_schema` does to a table that is not loaded: an error leaves it not
loaded, success gives it the columns of the statement. -/
theorem tableInitializeSchema_spec {t : TableRuntime} (hload : t.loaded = false)
    (stmt : InsertStatement) :
    ∃ t', SameRows t t' ∧ t'.tableName = t.tableName ∧
      if stmt.items.1 = [] ∨ MAX_COLUMNS ≤ stmt.items.1.length then
        tableInitializeSchema t stmt = (.error (message InsertError.columnCount.text), t') ∧
          t'.loaded = false
      else if ∃ item ∈ stmt.items.1, SameName item.column.text idName.text then
        tableInitializeSchema t stmt = (.error (message InsertError.explicitId.text), t') ∧
          t'.loaded = false
      else tableInitializeSchema t stmt = (.ok (), t') ∧
        HasSchema t' (idColumn :: stmt.items.1.map InsertItem.toColumn) := by
  have hcount : (stmt.items.1.length = 0 ∨ MAX_COLUMNS < stmt.items.1.length + 1) ↔
      (stmt.items.1 = [] ∨ MAX_COLUMNS ≤ stmt.items.1.length) := by
    rw [List.length_eq_zero_iff, Nat.lt_succ_iff]
  unfold tableInitializeSchema
  by_cases hbad : stmt.items.1 = [] ∨ MAX_COLUMNS ≤ stmt.items.1.length
  · refine ⟨t, ⟨rfl, rfl, rfl, rfl, rfl⟩, rfl, ?_⟩
    rw [if_pos hbad, if_pos (hcount.mpr hbad)]
    exact ⟨rfl, hload⟩
  · simp only [if_neg hbad, if_neg (fun h => hbad (hcount.mp h))]
    by_cases hid : ∃ item ∈ stmt.items.1, SameName item.column.text idName.text
    · obtain ⟨cols, kinds, hrun⟩ := initializeColumns_explicitId stmt.items.1 0 { t with
        colCount := stmt.items.1.length + 1
        columns := wr t.columns 0 idName
        columnValueKinds := wr t.columnValueKinds 0 .int } hid
      rw [hrun]
      simp only [if_pos hid]
      refine ⟨{ t with
        colCount := stmt.items.1.length + 1
        columns := cols
        columnValueKinds := kinds }, ⟨rfl, rfl, rfl, rfl, rfl⟩, rfl, rfl, hload⟩
    · obtain ⟨cols, kinds, hrun, hzero, hcols⟩ := initializeColumns_ok stmt.items.1 0 { t with
        colCount := stmt.items.1.length + 1
        columns := wr t.columns 0 idName
        columnValueKinds := wr t.columnValueKinds 0 .int } (by simpa using hid) (by omega)
      rw [hrun]
      simp only [if_neg hid]
      refine ⟨{ t with
        colCount := stmt.items.1.length + 1
        columns := cols
        columnValueKinds := kinds
        idColumnIndex := 0
        loaded := true }, ⟨rfl, rfl, rfl, rfl, rfl⟩, rfl, rfl, rfl, ?_, rfl, fun i c hc => ?_⟩
      · simp
      · cases i with
        | zero =>
          obtain rfl : idColumn = c := Option.some.inj hc
          obtain ⟨hname, hkind⟩ := hzero 0 le_rfl
          refine ⟨hname.trans ?_, hkind.trans ?_⟩
          · exact rd_wr_self _ _ _ (by decide)
          · exact rd_wr_self _ _ _ (by decide)
        | succ i =>
          rw [List.getElem?_cons_succ, List.getElem?_map, Option.map_eq_some_iff] at hc
          obtain ⟨item, hitem, rfl⟩ := hc
          have := hcols i item hitem
          rwa [Nat.zero_add, Nat.add_comm 1 i] at this

/-! ## `table_insert_row` -/

/-- What a call makes of a table that represented `before`, when it stands for `insertInto`. -/
def InsertRefines (t : TableRuntime) (before : Option Relation) (items : List InsertItem)
    (call : Option (Sql Nat × TableRuntime)) : Prop :=
  match insertInto before items with
  | .error e => ∃ t', call = some (.error (message e.text), t') ∧ Represents t' before ∧
      t'.tableName = t.tableName
  | .ok R => ∃ t', call = some (.ok (R.tuples.length - 1), t') ∧ Represents t' (some R) ∧
      t'.tableName = t.tableName

theorem insertRefines_error {t : TableRuntime} {before : Option Relation} {items : List InsertItem}
    {call : Option (Sql Nat × TableRuntime)} {e : InsertError}
    (h : insertInto before items = .error e) : InsertRefines t before items call ↔
      ∃ t', call = some (.error (message e.text), t') ∧ Represents t' before ∧
        t'.tableName = t.tableName := by
  unfold InsertRefines
  rw [h]

theorem insertRefines_ok {t : TableRuntime} {before : Option Relation} {items : List InsertItem}
    {call : Option (Sql Nat × TableRuntime)} {R : Relation}
    (h : insertInto before items = .ok R) : InsertRefines t before items call ↔
      ∃ t', call = some (.ok (R.tuples.length - 1), t') ∧ Represents t' (some R) ∧
        t'.tableName = t.tableName := by
  unfold InsertRefines
  rw [h]

theorem tableInsertNamed_loaded {t : TableRuntime} {R : Relation} (h : Represents t (some R))
    (stmt : InsertStatement) :
    InsertRefines t (some R) stmt.items.1 (tableInsertNamed t stmt []) := by
  obtain ⟨hs, hr⟩ := h
  have happ := hr.append stmt
  rw [R.length_rows] at happ
  have hrun : tableInsertNamed t stmt [] = match tableValidateInsertSchema t stmt with
      | .error e => some (.error e, t)
      | .ok () => tableAppendRow t stmt [] := by
    unfold tableInsertNamed
    rw [if_pos hs.loaded]
    cases tableValidateInsertSchema t stmt <;> rfl
  rw [hrun, hs.validate]
  by_cases hlen : stmt.items.1.length = R.columns.length
  · rw [if_neg (not_not.mpr hlen)]
    cases hm : mismatch R.columns stmt.items.1 with
    | some e =>
      have hins : insertInto (some R) stmt.items.1 = .error e := by
        rw [insertInto, Relation.insert, dif_neg (not_not.mpr hlen), hm]
      exact (insertRefines_error hins).mpr ⟨t, rfl, ⟨hs, hr⟩, rfl⟩
    | none =>
      by_cases hfull : R.tuples.length = MAX_ROWS
      · have hins : insertInto (some R) stmt.items.1 = .error .full := by
          rw [insertInto, Relation.insert, dif_neg (not_not.mpr hlen), hm]
          exact dif_pos hfull
        rw [if_pos hfull] at happ
        exact (insertRefines_error hins).mpr ⟨t, happ, ⟨hs, hr⟩, rfl⟩
      · obtain ⟨R', hins⟩ := Relation.insert_eq_ok hlen hm hfull
        obtain ⟨hcols, htuples, -⟩ := Relation.insert_ok hins
        replace hins : insertInto (some R) stmt.items.1 = .ok R' := hins
        rw [if_neg hfull] at happ
        obtain ⟨t', hrun', hr', hsame⟩ := happ
        refine (insertRefines_ok hins).mpr ⟨t', ?_, ⟨?_, ?_⟩, hsame.tableName⟩
        · rw [htuples, List.length_append]
          exact hrun'
        · rw [Relation.header, hcols]
          exact hsame.hasSchema hs
        · rw [Relation.rows_append htuples]
          exact hr'
  · have hins : insertInto (some R) stmt.items.1 = .error .schema := by
      rw [insertInto, Relation.insert, dif_pos hlen]
    rw [if_pos hlen]
    exact (insertRefines_error hins).mpr ⟨t, rfl, ⟨hs, hr⟩, rfl⟩

theorem tableInsertNamed_fresh {t : TableRuntime} (h : Represents t none) (stmt : InsertStatement) :
    InsertRefines t none stmt.items.1 (tableInsertNamed t stmt []) := by
  obtain ⟨hload, hr⟩ := h
  obtain ⟨t₁, hrows, hname, hspec⟩ := tableInitializeSchema_spec hload stmt
  have hr₁ := hrows.rowStore hr
  unfold tableInsertNamed
  simp only [hload, Bool.false_eq_true, if_false]
  by_cases hcount : stmt.items.1 = [] ∨ MAX_COLUMNS ≤ stmt.items.1.length
  · have hins : insertInto none stmt.items.1 = .error .columnCount := by
      rw [insertInto, Relation.create, dif_pos hcount]
    rw [if_pos hcount] at hspec
    rw [hspec.1]
    exact (insertRefines_error hins).mpr ⟨t₁, rfl, ⟨hspec.2, hr₁⟩, hname⟩
  · rw [if_neg hcount] at hspec
    by_cases hid : ∃ item ∈ stmt.items.1, SameName item.column.text idName.text
    · have hins : insertInto none stmt.items.1 = .error .explicitId := by
        rw [insertInto, Relation.create, dif_neg hcount, if_pos (by simpa using hid)]
      rw [if_pos hid] at hspec
      rw [hspec.1]
      exact (insertRefines_error hins).mpr ⟨t₁, rfl, ⟨hspec.2, hr₁⟩, hname⟩
    · obtain ⟨R, hins⟩ := Relation.create_eq_ok hcount hid
      obtain ⟨hcols, htuples, -⟩ := Relation.create_ok hins
      replace hins : insertInto none stmt.items.1 = .ok R := hins
      rw [if_neg hid] at hspec
      rw [hspec.1]
      have happ := hr₁.append stmt
      rw [if_neg (by decide)] at happ
      obtain ⟨t₂, hrun₂, hr₂, hsame⟩ := happ
      refine (insertRefines_ok hins).mpr ⟨t₂, ?_, ⟨?_, ?_⟩, hsame.tableName.trans hname⟩
      · rw [htuples]
        exact hrun₂
      · rw [Relation.header, hcols]
        exact hsame.hasSchema hspec.2
      · rw [Relation.rows, htuples]
        exact hr₂

/-- On a statement for this table, the rest of `table_insert_row` is the INSERT of relations. -/
theorem tableInsertNamed_refines {t : TableRuntime} {before : Option Relation}
    (h : Represents t before) (stmt : InsertStatement) :
    InsertRefines t before stmt.items.1 (tableInsertNamed t stmt []) := by
  cases before with
  | none => exact tableInsertNamed_fresh h stmt
  | some R => exact tableInsertNamed_loaded h stmt

/-- The table after the first lines of `table_insert_row`: a table without a name takes the one of
the statement. -/
def TableRuntime.adopt (t : TableRuntime) (stmt : InsertStatement) : TableRuntime :=
  if t.tableName.text = [] then { t with tableName := stmt.tableName } else t

theorem Represents.adopt {t : TableRuntime} {o : Option Relation} (h : Represents t o)
    (stmt : InsertStatement) : Represents (t.adopt stmt) o := by
  unfold TableRuntime.adopt
  split
  · have hsame : SameRows t { t with tableName := stmt.tableName } := ⟨rfl, rfl, rfl, rfl, rfl⟩
    cases o with
    | none => exact ⟨h.1, hsame.rowStore h.2⟩
    | some R =>
      exact ⟨⟨h.1.loaded, h.1.colCount, h.1.idColumnIndex, h.1.column⟩, hsame.rowStore h.2⟩
  · exact h

theorem tableInsertRow_eq (t : TableRuntime) (stmt : InsertStatement) (allocs : List Bool) :
    tableInsertRow t stmt allocs =
      if SameName (t.adopt stmt).tableName.text stmt.tableName.text then
        tableInsertNamed (t.adopt stmt) stmt allocs
      else some (.error (message "Active runtime table does not match INSERT target."),
        t.adopt stmt) := by
  unfold tableInsertRow TableRuntime.adopt
  by_cases hname : t.tableName.text = []
  · simp [hname, utilsSafeStrcpy_text, utilsEqualsIgnoreCase_eq]
  · simp only [hname, if_false, utilsEqualsIgnoreCase_eq]
    split <;> simp_all

end JungleDb
