import JungleDb.Lib.Bisect
import JungleDb.Lib.HashChain
import JungleDb.Storage.Delete
import JungleDb.Storage.Offsets

/-!
# The indexes of `index.c`

An index over one column of a loaded table: a chained hash table of the cells and an array of the
cells sorted by `utils_compare_values`, each with the offsets of their rows. `qsort` is a parameter.
What the queries should return is a linear scan of the column.
-/

namespace JungleDb

open CString

abbrev HASH_BUCKET_COUNT : Nat := 101

/-- `index_hash_string`. -/
def indexHashString (text : Bytes) : UInt64 :=
  text.foldl (fun hash c => (hash <<< 5) + hash + c.toUInt64) 5381

/-- The buckets of `EqualityIndex`; a node has its key and its `offsets`. -/
abbrev EqualityIndex : Type := HashChain.Table Bytes Nat HASH_BUCKET_COUNT

def hashOf (key : Bytes) : Nat := (indexHashString key).toNat

/-- `index_add_hash_entry`. -/
def indexAddHashEntry (equality : EqualityIndex) (key : Bytes) (offset : Nat) : EqualityIndex :=
  HashChain.add hashOf equality key offset

/-- `RangeEntry`. -/
@[ext] structure RangeEntry where
  key : CStr MAX_VALUE_LEN
  offset : Nat
  deriving DecidableEq

/-- `index_compare_range_entries`. -/
def indexCompareRangeEntries (left right : RangeEntry) : Int :=
  let comparison := utilsCompareValues left.key.text right.key.text
  if comparison ≠ 0 then comparison
  else if left.offset < right.offset then -1
  else if left.offset > right.offset then 1
  else 0

/-- `index_compare_entry_to_value`. -/
def indexCompareEntryToValue (entry : RangeEntry) (value : Bytes) : Int :=
  utilsCompareValues entry.key.text value

/-- `index_lower_bound`. -/
def indexLowerBound (entries : List RangeEntry) (value : Bytes) : Nat :=
  Bisect.bisect (fun entry => decide (indexCompareEntryToValue entry value < 0)) entries 0
    entries.length

/-- `index_upper_bound`. -/
def indexUpperBound (entries : List RangeEntry) (value : Bytes) : Nat :=
  Bisect.bisect (fun entry => decide (indexCompareEntryToValue entry value ≤ 0)) entries 0
    entries.length

/-- `TableIndex`. -/
structure TableIndex where
  columnIndex : Nat
  equality : EqualityIndex
  range : List RangeEntry

/-- `qsort` on range entries. -/
abbrev Qsort : Type := (RangeEntry → RangeEntry → Int) → List RangeEntry → List RangeEntry

/-- The loop of `index_build` over the rows and their offsets. -/
def indexRows (columnIndex : Nat) :
    EqualityIndex → List (Row × Nat) → Storage (EqualityIndex × List RangeEntry)
  | equality, [] => .ok (equality, [])
  | equality, (row, offset) :: rows =>
    let key := cellAt row columnIndex
    let equality := indexAddHashEntry equality key offset
    match utilsSafeStrcpy MAX_VALUE_LEN key with
    | none => .error (bytes "Error: Indexed value is too long.\n")
    | some entryKey =>
      (indexRows columnIndex equality rows).map fun built => (built.1, ⟨entryKey, offset⟩ :: built.2)

/-- `index_build`. -/
def indexBuild (qsort : Qsort) (table : TableData) (columnIndex : Int) : Storage TableIndex :=
  -- nothing is printed for a column that is not there
  if columnIndex < 0 ∨ table.columns.length ≤ columnIndex then .error []
  else
    (indexRows columnIndex.toNat (HashChain.empty _) (table.rows.zip table.offsets)).map fun built =>
      ⟨columnIndex.toNat, built.1, qsort indexCompareRangeEntries built.2⟩

/-- `index_query_equals`. -/
def indexQueryEquals (index : TableIndex) (value : Bytes) : List Nat :=
  match HashChain.lookup hashOf index.equality value with
  | some node => node.items
  | none => []

/-- `index_query_range`. -/
def indexQueryRange (index : TableIndex) (op value : Bytes) : Storage (List Nat) :=
  let entries := index.range
  let slice := fun first last => ((entries.drop first).take (last - first)).map RangeEntry.offset
  if op = bytes "!=" then
    .ok ((entries.filter fun entry =>
      decide (utilsCompareValues entry.key.text value ≠ 0)).map RangeEntry.offset)
  else if op = bytes ">" then .ok (slice (indexUpperBound entries value) entries.length)
  else if op = bytes ">=" then .ok (slice (indexLowerBound entries value) entries.length)
  else if op = bytes "<" then .ok (slice 0 (indexLowerBound entries value))
  else if op = bytes "<=" then .ok (slice 0 (indexUpperBound entries value))
  else .error (bytes "Error: Unsupported WHERE operator '" ++ op ++ bytes "'.\n")

/-! ## The linear scan -/

/-- The comparison of a cell with a value, as a WHERE clause evaluates it. -/
def cellSatisfies (op value cell : Bytes) : Bool :=
  match storageCompareWithOperator cell op value with
  | .ok holds => holds
  | .error _ => false

/-- The offsets of the rows whose cell satisfies the comparison, in row order. -/
def linearScan (table : TableData) (columnIndex : Nat) (op value : Bytes) : List Nat :=
  ((table.rows.zip table.offsets).filter fun r =>
    cellSatisfies op value (cellAt r.1 columnIndex)).map Prod.snd

/-- Every cell of the column fits the key of an entry. -/
def KeysFit (table : TableData) (columnIndex : Nat) : Prop :=
  ∀ row ∈ table.rows, (cellAt row columnIndex).length < MAX_VALUE_LEN

instance (table : TableData) (columnIndex : Nat) : Decidable (KeysFit table columnIndex) :=
  inferInstanceAs (Decidable (∀ row ∈ table.rows, _))

/-- The entries of the column, in row order. -/
def columnEntries (table : TableData) (columnIndex : Nat) : List RangeEntry :=
  (table.rows.zip table.offsets).filterMap fun r =>
    (utilsSafeStrcpy MAX_VALUE_LEN (cellAt r.1 columnIndex)).map (⟨·, r.2⟩)

/-! ## What is built -/

/-- The entry of a row that fits. -/
theorem indexRows_ok {columnIndex : Nat} {rows : List (Row × Nat)}
    (h : ∀ r ∈ rows, (cellAt r.1 columnIndex).length < MAX_VALUE_LEN) (equality : EqualityIndex) :
    indexRows columnIndex equality rows =
      .ok ((rows.map fun r => (cellAt r.1 columnIndex, r.2)).foldl
          (fun equality entry => indexAddHashEntry equality entry.1 entry.2) equality,
        rows.filterMap fun r =>
          (utilsSafeStrcpy MAX_VALUE_LEN (cellAt r.1 columnIndex)).map (⟨·, r.2⟩)) := by
  induction rows generalizing equality with
  | nil => rfl
  | cons r rows ih =>
    obtain ⟨hfirst, hrest⟩ := List.forall_mem_cons.mp h
    have hcopy : utilsSafeStrcpy MAX_VALUE_LEN (cellAt r.1 columnIndex) = some ⟨_, hfirst⟩ :=
      dif_pos hfirst
    rw [List.filterMap_cons, hcopy]
    simp only [indexRows, hcopy, ih hrest]
    rfl

/-- The first cell that does not fit ends the build. -/
theorem indexRows_error {columnIndex : Nat} {rows : List (Row × Nat)}
    (h : ¬ ∀ r ∈ rows, (cellAt r.1 columnIndex).length < MAX_VALUE_LEN) (equality : EqualityIndex) :
    indexRows columnIndex equality rows = .error (bytes "Error: Indexed value is too long.\n") := by
  induction rows generalizing equality with
  | nil => exact absurd nofun h
  | cons r rows ih =>
    by_cases hfirst : (cellAt r.1 columnIndex).length < MAX_VALUE_LEN
    · have hrest : ¬ ∀ r ∈ rows, (cellAt r.1 columnIndex).length < MAX_VALUE_LEN :=
        fun hall => h (List.forall_mem_cons.mpr ⟨hfirst, hall⟩)
      have hcopy : utilsSafeStrcpy MAX_VALUE_LEN (cellAt r.1 columnIndex) = some ⟨_, hfirst⟩ :=
        dif_pos hfirst
      simp only [indexRows, hcopy, ih hrest]
      rfl
    · have hcopy : utilsSafeStrcpy MAX_VALUE_LEN (cellAt r.1 columnIndex) = none := dif_neg hfirst
      simp only [indexRows, hcopy]

section Build

variable {table : TableData} {columnIndex : Nat}

/-- The rows of a table and their offsets, when there is one for each. -/
theorem keysFit_iff (hoffsets : table.offsets.length = table.rows.length) :
    KeysFit table columnIndex ↔
      ∀ r ∈ table.rows.zip table.offsets, (cellAt r.1 columnIndex).length < MAX_VALUE_LEN := by
  constructor
  · intro h r hr
    exact h r.1 (List.of_mem_zip hr).1
  · intro h row hrow
    have hmap : (table.rows.zip table.offsets).map Prod.fst = table.rows :=
      List.map_fst_zip (Nat.le_of_eq hoffsets.symm)
    rw [← hmap] at hrow
    obtain ⟨r, hr, rfl⟩ := List.mem_map.mp hrow
    exact h r hr

theorem indexBuild_ok (hcolumn : columnIndex < table.columns.length)
    (hoffsets : table.offsets.length = table.rows.length) (hfit : KeysFit table columnIndex)
    (qsort : Qsort) :
    indexBuild qsort table columnIndex =
      .ok ⟨columnIndex,
        ((table.rows.zip table.offsets).map fun r => (cellAt r.1 columnIndex, r.2)).foldl
          (fun equality entry => indexAddHashEntry equality entry.1 entry.2) (HashChain.empty _),
        qsort indexCompareRangeEntries (columnEntries table columnIndex)⟩ := by
  have hthere : ¬ ((columnIndex : Int) < 0 ∨ (table.columns.length : Int) ≤ columnIndex) := by omega
  unfold indexBuild
  rw [if_neg hthere, Int.toNat_natCast, indexRows_ok ((keysFit_iff hoffsets).mp hfit)]
  rfl

theorem indexBuild_error (hcolumn : columnIndex < table.columns.length)
    (hoffsets : table.offsets.length = table.rows.length) (hfit : ¬ KeysFit table columnIndex)
    (qsort : Qsort) :
    indexBuild qsort table columnIndex = .error (bytes "Error: Indexed value is too long.\n") := by
  have hthere : ¬ ((columnIndex : Int) < 0 ∨ (table.columns.length : Int) ≤ columnIndex) := by omega
  unfold indexBuild
  rw [if_neg hthere, Int.toNat_natCast, indexRows_error (mt (keysFit_iff hoffsets).mpr hfit)]
  rfl

end Build

end JungleDb
