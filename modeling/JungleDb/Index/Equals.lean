import JungleDb.Index.Basic

/-!
# Equality by the hash index

The hash table keeps the cells apart as byte strings, and so the index finds the rows whose cell is
the value byte for byte, whatever the buckets are. A scan also takes the cells that are other spellings
of the value's integer.
-/

namespace JungleDb

open CString Stdio

/-- The query gives the offsets that were added under the value. -/
theorem indexQueryEquals_eq (index : TableIndex) (value : Bytes) :
    indexQueryEquals index value = HashChain.items hashOf index.equality value := by
  unfold indexQueryEquals HashChain.items HashChain.itemsOf HashChain.lookup
  cases HashChain.find value (CArray.rd index.equality (HashChain.bucket hashOf _ value)) with
  | none => rfl
  | some node => rfl

section Build

variable {table : TableData} {columnIndex : Nat}

/-- The rows whose cell is the value, in row order. -/
theorem indexQueryEquals_build (hcolumn : columnIndex < table.columns.length)
    (hoffsets : table.offsets.length = table.rows.length) (hfit : KeysFit table columnIndex)
    (qsort : Qsort) (value : Bytes) :
    ∃ index, indexBuild qsort table columnIndex = .ok index ∧
      indexQueryEquals index value =
        ((table.rows.zip table.offsets).filter fun r =>
          decide (cellAt r.1 columnIndex = value)).map Prod.snd := by
  refine ⟨_, indexBuild_ok hcolumn hoffsets hfit qsort, ?_⟩
  have hitems := HashChain.items_foldl_add hashOf (show 0 < HASH_BUCKET_COUNT by decide)
    ((table.rows.zip table.offsets).map fun r => (cellAt r.1 columnIndex, r.2))
    (HashChain.empty _) value
  rw [HashChain.items_empty, List.nil_append, List.filter_map, List.map_map] at hitems
  rw [indexQueryEquals_eq]
  exact hitems

theorem cellSatisfies_equal (value cell : Bytes) :
    cellSatisfies (bytes "=") value cell = decide (utilsCompareValues cell value = 0) := by
  unfold cellSatisfies storageCompareWithOperator
  rw [if_pos rfl]

theorem utilsCompareValues_self (value : Bytes) : utilsCompareValues value value = 0 := by
  unfold utilsCompareValues
  rw [utilsCompareIntegerStrings_eq]
  by_cases h : IntegerText value ∧ IntegerText value
  · rw [if_pos h]
    show (if intValue value < intValue value then -1 else _) = _
    rw [if_neg (lt_irrefl _), if_neg (lt_irrefl _)]
  · rw [if_neg h]
    exact strcmp_eq.mpr rfl

end Build

/-- A filter that keeps as many elements as a stronger one keeps the same. -/
theorem of_length_filter {α : Type} {p q : α → Bool} {as : List α}
    (himp : ∀ a, p a = true → q a = true)
    (hlength : (as.filter p).length = (as.filter q).length) {a : α} (ha : a ∈ as)
    (hq : q a = true) : p a = true := by
  have hsame := (List.monotone_filter_right as himp).eq_of_length hlength
  have hmem : a ∈ as.filter q := List.mem_filter.mpr ⟨ha, hq⟩
  rw [← hsame] at hmem
  exact (List.mem_filter.mp hmem).2

/-- The index finds the rows of the scan just when every cell that compares equal to the value is the
value byte for byte; it is not built where a cell does not fit its entry. -/
theorem indexQueryEquals_eq_linearScan {file : Option Bytes} {tableName : Bytes} {table : TableData}
    (hload : storageLoadTable file tableName = .ok table) {columnIndex : Nat}
    (hcolumn : columnIndex < table.columns.length) (qsort : Qsort) (value : Bytes) :
    (∃ index, indexBuild qsort table columnIndex = .ok index ∧
      indexQueryEquals index value = linearScan table columnIndex (bytes "=") value) ↔
    KeysFit table columnIndex ∧
      ∀ row ∈ table.rows, utilsCompareValues (cellAt row columnIndex) value = 0 →
        cellAt row columnIndex = value := by
  obtain ⟨hoffsets, -⟩ := storageLoadTable_offsets hload
  have hrows : (table.rows.zip table.offsets).map Prod.fst = table.rows :=
    List.map_fst_zip (Nat.le_of_eq hoffsets.symm)
  have hscan : linearScan table columnIndex (bytes "=") value =
      ((table.rows.zip table.offsets).filter fun r =>
        decide (utilsCompareValues (cellAt r.1 columnIndex) value = 0)).map Prod.snd := by
    unfold linearScan
    simp only [cellSatisfies_equal]
  constructor
  · rintro ⟨index, hbuild, hquery⟩
    have hfit : KeysFit table columnIndex := by
      by_contra hnot
      rw [indexBuild_error hcolumn hoffsets hnot] at hbuild
      cases hbuild
    refine ⟨hfit, ?_⟩
    obtain ⟨index', hbuild', hquery'⟩ :=
      indexQueryEquals_build hcolumn hoffsets hfit qsort value
    rw [hbuild] at hbuild'
    cases hbuild'
    rw [hquery', hscan] at hquery
    have hlength := congrArg List.length hquery
    rw [List.length_map, List.length_map] at hlength
    intro row hrow hequal
    rw [← hrows] at hrow
    obtain ⟨r, hr, rfl⟩ := List.mem_map.mp hrow
    -- the rows that the index finds are rows of the scan, and as many
    refine of_decide_eq_true (of_length_filter (fun r hcell => ?_) hlength hr
      (decide_eq_true hequal))
    rw [decide_eq_true_eq] at hcell ⊢
    rw [hcell]
    exact utilsCompareValues_self value
  · rintro ⟨hfit, hbytes⟩
    obtain ⟨index, hbuild, hquery⟩ := indexQueryEquals_build hcolumn hoffsets hfit qsort value
    refine ⟨index, hbuild, ?_⟩
    rw [hquery, hscan]
    refine congrArg _ (List.filter_congr ?_)
    intro r hr
    refine decide_eq_decide.mpr ⟨?_, hbytes r.1 (List.of_mem_zip hr).1⟩
    intro hcell
    rw [hcell]
    exact utilsCompareValues_self value

/-- A table with the ids 7 and 08. -/
def idsFile : Bytes := bytes "id\n7\n08\n"

def idsTable : TableData := ⟨[⟨bytes "id", length_id⟩], [[bytes "7"], [bytes "08"]], [3, 5]⟩

theorem indexQueryEquals_eq_linearScan_seven :
    ∃ index, indexBuild Bisect.sortBy idsTable 0 = .ok index ∧
      indexQueryEquals index (bytes "7") = linearScan idsTable 0 (bytes "=") (bytes "7") := by
  have hload : storageLoadTable (some idsFile) (bytes "ids") = .ok idsTable := by decide +kernel
  exact (indexQueryEquals_eq_linearScan hload Nat.zero_lt_one Bisect.sortBy (bytes "7")).mpr
    (by decide +kernel)

/-- The row with 08 is not found by 8. -/
theorem indexQueryEquals_other_spelling :
    storageLoadTable (some idsFile) (bytes "ids") = .ok idsTable ∧
      linearScan idsTable 0 (bytes "=") (bytes "8") = [5] ∧
      ∀ qsort, ∃ index, indexBuild qsort idsTable 0 = .ok index ∧
        indexQueryEquals index (bytes "8") = [] := by
  refine ⟨by decide +kernel, by decide +kernel, ?_⟩
  intro qsort
  have hfit : KeysFit idsTable 0 := by decide +kernel
  obtain ⟨index, hbuild, hquery⟩ :=
    indexQueryEquals_build Nat.zero_lt_one rfl hfit qsort (bytes "8")
  exact ⟨index, hbuild, hquery.trans (by decide +kernel)⟩

end JungleDb
