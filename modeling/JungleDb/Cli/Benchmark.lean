import JungleDb.Cli.Width
import JungleDb.Runtime.Limits

/-!
# The benchmark of `benchmark.c`

The benchmark fills a runtime table and an array of rows without an index, and looks ids up in the
table, once in the B+ tree and once row by row. It checks every row that it finds. The times between
two calls of `clock` and the lines that print them are left out; what is left of a run is the number
of lookups of each case. Memory is granted up to the largest object, and `int` wraps where the arrays
are doubled, as in `Runtime/Table`.
-/

namespace JungleDb

open CArray CString

/-! ## The functions -/

/-- A function returns FAILURE, or it reads or writes outside an array, or reads a slot that was never
written. -/
inductive BenchmarkStop
  | failure
  | outside
  deriving DecidableEq

abbrev Bench (α : Type) := Except BenchmarkStop α

@[simp] theorem Bench.bind_ok {α β : Type} (a : α) (f : α → Bench β) :
    ((.ok a : Bench α) >>= f) = f a := rfl

@[simp] theorem Bench.bind_error {α β : Type} (stop : BenchmarkStop) (f : α → Bench β) :
    ((.error stop : Bench α) >>= f) = .error stop := rfl

/-- An element of an array. -/
def element {α : Type} (as : List α) (i : Nat) : Bench α :=
  match as[i]? with
  | none => .error .outside
  | some a => .ok a

/-- An array of `int`s; a slot is `none` until it is written. -/
abbrev IntArray := List (Option Int)

/-- `malloc` of `count` elements; both callers ask for a positive number. -/
def IntArray.malloc (count : Int) : IntArray := List.replicate count.toNat none

/-- `as[i] = value` -/
def IntArray.store (as : IntArray) (i : Nat) (value : Int) : Bench IntArray :=
  if i < as.length then .ok (as.set i (some value)) else .error .outside

/-- `as[i]` -/
def IntArray.load (as : IntArray) (i : Int) : Bench Int :=
  if i < 0 then .error .outside
  else match as[i.toNat]? with
    | some (some value) => .ok value
    | _ => .error .outside

/-- `BenchmarkConfig` -/
structure BenchmarkConfig where
  rowCount : Int
  queryCount : Int
  deriving DecidableEq

/-- `benchmark_default_config` -/
def benchmarkDefaultConfig : BenchmarkConfig := ⟨1000000, 1000⟩

/-- `BenchmarkRowStore`; a slot is `none` where no row was stored. -/
structure BenchmarkRowStore where
  rows : List (Option Row)
  rowCount : Nat
  capacity : Nat

/-- `BenchmarkLookupCase` -/
inductive BenchmarkLookupCase
  | average
  | worst
  | random
  deriving DecidableEq

/-- `benchmark_plain_store_reserve`; the doubling is done in `int`. -/
def benchmarkPlainStoreReserve (store : BenchmarkRowStore) : Bench BenchmarkRowStore :=
  if store.rowCount < store.capacity then .ok store
  else
    let newCapacity : Int := if store.capacity = 0 then INITIAL_ROW_CAPACITY
      else Int.bmod (store.capacity * 2) (2 ^ 32)
    match reallocRows newCapacity [] with
    | (false, _) => .error .failure
    | (true, _) => .ok { store with
        rows := store.rows ++ List.replicate (newCapacity.toNat - store.rows.length) none
        capacity := newCapacity.toNat }

/-- `benchmark_plain_store_append` -/
def benchmarkPlainStoreAppend (store : BenchmarkRowStore) (id : Int) (name age : Literal) :
    Bench BenchmarkRowStore := do
  let store ← benchmarkPlainStoreReserve store
  let row := [(snprintf MAX_VALUE_LEN (lld id)).text, name.text, age.text]
  if store.rowCount < store.rows.length then
    .ok { store with
      rows := store.rows.set store.rowCount (some row)
      rowCount := store.rowCount + 1 }
  else .error .outside

/-- `benchmark_build_values` -/
def benchmarkBuildValues (index : Nat) : Literal × Literal :=
  (snprintf _ (bytes "user_" ++ decimal (index + 1)), snprintf _ (decimal (20 + index % 50)))

/-- `benchmark_prepare_insert_stmt`, with the values that are copied into it. -/
def benchmarkPrepareInsertStmt (name age : Literal) : InsertStatement where
  tableName := lit _ "benchmark_users"
  items := ⟨[⟨lit _ "name", name, .string⟩, ⟨lit _ "age", age, .int⟩], by simp [MAX_COLUMNS]⟩

/-- The body of the loop of `benchmark_measure_indexed_insert`: the table, and the id. -/
def indexedInsert (table : TableRuntime) (i : Nat) : Bench (TableRuntime × Int) :=
  let (name, age) := benchmarkBuildValues i
  match tableInsertRow table (benchmarkPrepareInsertStmt name age) [] with
  | none => .error .outside
  | some (.error _, _) => .error .failure
  | some (.ok rowIndex, table) =>
    match tableGetRowBySlot table rowIndex with
    | none => .error .failure
    | some row => do
      let cell ← element row 0
      if utilsIsInteger cell then .ok (table, wrap (utilsParseInteger cell)) else .error .failure

/-- The loop of `benchmark_measure_indexed_insert`. -/
def indexedInsertLoop : Nat → Nat → TableRuntime → IntArray → Bench (TableRuntime × IntArray)
  | 0, _, table, insertedIds => .ok (table, insertedIds)
  | todo + 1, i, table, insertedIds => do
    let (table, idKey) ← indexedInsert table i
    let insertedIds ← IntArray.store insertedIds i idKey
    indexedInsertLoop todo (i + 1) table insertedIds

/-- `benchmark_measure_indexed_insert` -/
def benchmarkMeasureIndexedInsert (config : BenchmarkConfig) : Bench (TableRuntime × IntArray) :=
  indexedInsertLoop config.rowCount.toNat 0 tableInit (IntArray.malloc config.rowCount)

/-- The loop of `benchmark_measure_plain_insert`. -/
def plainInsertLoop : Nat → Nat → BenchmarkRowStore → Bench BenchmarkRowStore
  | 0, _, store => .ok store
  | todo + 1, i, store => do
    let (name, age) := benchmarkBuildValues i
    let store ← benchmarkPlainStoreAppend store (i + 1) name age
    plainInsertLoop todo (i + 1) store

/-- `benchmark_measure_plain_insert` -/
def benchmarkMeasurePlainInsert (config : BenchmarkConfig) : Bench BenchmarkRowStore :=
  plainInsertLoop config.rowCount.toNat 0 ⟨[], 0, 0⟩

/-- `benchmark_pick_lookup_index`; a product of two `int`s fits `long long`. -/
def benchmarkPickLookupIndex (config : BenchmarkConfig) (queryIndex : Int) : Int :=
  if config.rowCount ≤ 0 ∨ config.queryCount ≤ 0 then 0
  else
    let scaledIndex := (queryIndex * config.rowCount).tdiv config.queryCount
    if config.rowCount ≤ scaledIndex then config.rowCount - 1 else scaledIndex

/-- The loop of `benchmark_build_lookup_keys`, with `random_state`. -/
def lookupKeysLoop (config : BenchmarkConfig) (insertedIds : IntArray)
    (lookupCase : BenchmarkLookupCase) : Nat → Nat → UInt32 → IntArray → Bench IntArray
  | 0, _, _, lookupKeys => .ok lookupKeys
  | todo + 1, i, randomState, lookupKeys =>
    match lookupCase with
    | .average => do
      let key ← IntArray.load insertedIds (benchmarkPickLookupIndex config i)
      let lookupKeys ← IntArray.store lookupKeys i key
      lookupKeysLoop config insertedIds lookupCase todo (i + 1) randomState lookupKeys
    | .worst => do
      let key ← IntArray.load insertedIds (config.rowCount - 1)
      let lookupKeys ← IntArray.store lookupKeys i key
      lookupKeysLoop config insertedIds lookupCase todo (i + 1) randomState lookupKeys
    | .random => do
      let randomState := randomState * 1103515245 + 12345
      let randomIndex := randomState.toNat % config.rowCount.toNat
      let key ← IntArray.load insertedIds randomIndex
      let lookupKeys ← IntArray.store lookupKeys i key
      lookupKeysLoop config insertedIds lookupCase todo (i + 1) randomState lookupKeys

/-- `benchmark_build_lookup_keys` -/
def benchmarkBuildLookupKeys (config : BenchmarkConfig) (insertedIds : IntArray)
    (lookupCase : BenchmarkLookupCase) (queryCount : Int) (lookupKeys : IntArray) :
    Bench IntArray :=
  if config.rowCount ≤ 0 ∨ queryCount ≤ 0 then .error .failure
  else lookupKeysLoop config insertedIds lookupCase queryCount.toNat 0 0x00C0FFEE lookupKeys

/-- `benchmark_query_count_for_case` -/
def benchmarkQueryCountForCase (config : BenchmarkConfig) (lookupCase : BenchmarkLookupCase) : Int :=
  if config.queryCount ≤ 0 then 0
  else if lookupCase = .worst then 1
  else config.queryCount

/-- `benchmark_validate_lookup_row` -/
def benchmarkValidateLookupRow (table : TableRuntime) (rowIndex expectedId : Int) : Bench Unit :=
  match tableGetRowBySlot table rowIndex with
  | none => .error .failure
  | some row => do
    let cell ← element row 0
    if utilsIsInteger cell ∧ utilsParseInteger cell = expectedId then .ok () else .error .failure

/-- The loop of `benchmark_find_row_index_by_id_linear`. -/
def findRowLoop (table : TableRuntime) (targetId : Int) : Nat → Nat → Bench Int
  | 0, _ => .error .failure
  | todo + 1, i => do
    match ← element table.rows i with
    | none => findRowLoop table targetId todo (i + 1)
    | some row =>
      let cell ← element row 0
      if utilsIsInteger cell ∧ utilsParseInteger cell = targetId then .ok i
      else findRowLoop table targetId todo (i + 1)

/-- `benchmark_find_row_index_by_id_linear` -/
def benchmarkFindRowIndexByIdLinear (table : TableRuntime) (targetId : Int) : Bench Int :=
  findRowLoop table targetId table.rowCount 0

/-- `bptree_search` of the id index. -/
def findRowIndexByTree (table : TableRuntime) (key : Int) : Bench Int :=
  match bptreeSearch table.idIndex key with
  | none => .error .outside
  | some none => .error .failure
  | some (some rowIndex) => .ok rowIndex

/-- The loop over the keys of both measurements. -/
def lookupLoop (table : TableRuntime) (find : Int → Bench Int) (lookupKeys : IntArray) :
    Nat → Nat → Bench Unit
  | 0, _ => .ok ()
  | todo + 1, i => do
    let key ← IntArray.load lookupKeys i
    let rowIndex ← find key
    benchmarkValidateLookupRow table rowIndex key
    lookupLoop table find lookupKeys todo (i + 1)

/-- `benchmark_measure_id_lookup` -/
def benchmarkMeasureIdLookup (table : TableRuntime) (lookupKeys : IntArray) (queryCount : Int) :
    Bench Unit :=
  if table.idIndex.root = none then .error .failure
  else lookupLoop table (findRowIndexByTree table) lookupKeys queryCount.toNat 0

/-- `benchmark_measure_id_linear_scan` -/
def benchmarkMeasureIdLinearScan (table : TableRuntime) (lookupKeys : IntArray)
    (queryCount : Int) : Bench Unit :=
  lookupLoop table (benchmarkFindRowIndexByIdLinear table) lookupKeys queryCount.toNat 0

/-- The loop over the cases of `benchmark_run`: the number of lookups of each. The cases share the
array of the keys. -/
def lookupCasesLoop (config : BenchmarkConfig) (table : TableRuntime) (insertedIds : IntArray) :
    List BenchmarkLookupCase → IntArray → Bench (List (BenchmarkLookupCase × Int))
  | [], _ => .ok []
  | lookupCase :: lookupCases, lookupKeys => do
    let lookupQueryCount := benchmarkQueryCountForCase config lookupCase
    let lookupKeys ←
      benchmarkBuildLookupKeys config insertedIds lookupCase lookupQueryCount lookupKeys
    benchmarkMeasureIdLookup table lookupKeys lookupQueryCount
    benchmarkMeasureIdLinearScan table lookupKeys lookupQueryCount
    let lookupResults ← lookupCasesLoop config table insertedIds lookupCases lookupKeys
    .ok ((lookupCase, lookupQueryCount) :: lookupResults)

/-- `benchmark_run` of a pointer; none is NULL. -/
def benchmarkRun (config : Option BenchmarkConfig) :
    Bench (BenchmarkConfig × List (BenchmarkLookupCase × Int)) := do
  let activeConfig := config.getD benchmarkDefaultConfig
  if activeConfig.rowCount ≤ 0 ∨ activeConfig.queryCount ≤ 0 then .error .failure
  else do
    let (table, insertedIds) ← benchmarkMeasureIndexedInsert activeConfig
    let lookupKeys := IntArray.malloc activeConfig.queryCount
    let _ ← benchmarkMeasurePlainInsert activeConfig
    let lookupResults ←
      lookupCasesLoop activeConfig table insertedIds [.average, .worst, .random] lookupKeys
    .ok (activeConfig, lookupResults)

/-! ## Arrays that are filled from the front -/

/-- The next slot is written. -/
theorem IntArray.store_next (written : List Int) (slot : Option Int) (rest : IntArray)
    (value : Int) :
    IntArray.store (written.map some ++ slot :: rest) written.length value =
      .ok ((written ++ [value]).map some ++ rest) := by
  have hlength : (written.map (some : Int → Option Int)).length = written.length :=
    List.length_map _
  unfold IntArray.store
  rw [if_pos (by simp), List.set_append_right _ _ hlength.le, hlength, Nat.sub_self]
  simp

/-- A slot that was written is read. -/
theorem IntArray.load_written {written : List Int} (rest : IntArray) {i : Nat}
    (h : i < written.length) :
    IntArray.load (written.map some ++ rest) i = .ok written[i] := by
  have hslot : (written.map some ++ rest)[i]? = some (some written[i]) := by
    rw [List.getElem?_append_left (by simpa using h), List.getElem?_map,
      List.getElem?_eq_getElem h]
    rfl
  unfold IntArray.load
  rw [if_neg (by omega), Int.toNat_natCast, hslot]

/-! ## The table with the index -/

theorem intValue_nat {n : Nat} (h : n ≤ MAX_ROWS) :
    utilsIsInteger (decimal n) = true ∧ utilsParseInteger (decimal n) = n := by
  have hfits : (n : Int) ≤ LLONG_MAX := by
    have hmax : LLONG_MAX = 9223372036854775807 := rfl
    have hrows : MAX_ROWS = 1073741824 := rfl
    omega
  obtain ⟨hint, hrange⟩ := integerText_decimal hfits
  obtain ⟨hne, hdigits⟩ := utilsIsInteger_iff.mp hint
  refine ⟨hint, ?_⟩
  unfold utilsParseInteger
  rw [strtoll_eq hne hdigits, if_neg (not_lt.mpr hrange.1), if_neg (not_lt.mpr hrange.2),
    intValue_decimal]

/-- The table after some turns: it has a row for each, and further statements fit. -/
structure Filled (t : TableRuntime) (n : Nat) : Prop where
  named : t.tableName.text = [] ∨ t.tableName = lit _ "benchmark_users"
  fits : ∃ o, Represents t o ∧ (tuplesOf o).length = n ∧
    ∀ name age, Fits o (benchmarkPrepareInsertStmt name age).items.1

theorem Filled.invariant {t : TableRuntime} {n : Nat} (h : Filled t n) :
    TableInvariant t ∧ t.rowCount = n := by
  obtain ⟨o, hrep, hlength, -⟩ := h.fits
  exact ⟨hrep.invariant, hrep.slot.1.trans hlength⟩

theorem filled_init : Filled tableInit 0 := by
  refine ⟨.inl rfl, none, represents_init, rfl, fun name age => ⟨?_, ?_⟩⟩
  · simp [benchmarkPrepareInsertStmt, MAX_COLUMNS]
  · rintro ⟨item, hitem, hsame⟩
    have hname : item.column = lit _ "name" ∨ item.column = lit _ "age" := by
      rcases List.mem_cons.mp hitem with rfl | hitem
      · exact .inl rfl
      · exact .inr (congrArg InsertItem.column (List.mem_singleton.mp hitem))
    rcases hname with hname | hname
    · rw [hname] at hsame
      exact absurd hsame (by decide)
    · rw [hname] at hsame
      exact absurd hsame (by decide)

/-- Whether items fit does not depend on their values. -/
theorem fits_values {R : Relation} {name age : Literal}
    (h : Fits (some R) (benchmarkPrepareInsertStmt name age).items.1) (name' age' : Literal) :
    Fits (some R) (benchmarkPrepareInsertStmt name' age').items.1 := by
  obtain ⟨hlength, hmatch⟩ := h
  refine ⟨hlength, ?_⟩
  rw [← hmatch]
  cases R.columns with
  | nil => rfl
  | cons first columns =>
    cases columns with
    | nil => rfl
    | cons second columns => rfl

theorem Filled.slot {t : TableRuntime} {n : Nat} (h : Filled t n) {i : Nat} (hi : i < n) :
    ∃ row, t.rows[i]? = some (some row) ∧ element row 0 = .ok (decimal (i + 1)) ∧
      tableGetRowBySlot t i = some row := by
  obtain ⟨hinvariant, hcount⟩ := h.invariant
  obtain ⟨row, hslot, -, hhead⟩ := hinvariant.row i (hcount ▸ hi)
  refine ⟨row, hslot, ?_, ?_⟩
  · unfold element
    rw [← List.head?_eq_getElem?, hhead]
  · unfold tableGetRowBySlot
    rw [if_neg (by omega), Int.toNat_natCast, hslot]
    rfl

/-- One turn adds a row and gives its id, as long as there is room. -/
theorem Filled.insert {t : TableRuntime} {n : Nat} (h : Filled t n) (i : Nat) :
    if n = MAX_ROWS then indexedInsert t i = .error .failure
    else ∃ t', indexedInsert t i = .ok (t', (n + 1 : Nat)) ∧ Filled t' (n + 1) := by
  obtain ⟨o, hrep, hlength, hfits⟩ := h.fits
  generalize hvalues : benchmarkBuildValues i = values
  obtain ⟨name, age⟩ := values
  generalize hstmt : benchmarkPrepareInsertStmt name age = stmt
  have hitems := hfits name age
  rw [hstmt] at hitems
  have htarget : stmt.tableName = lit _ "benchmark_users" := by rw [← hstmt]; rfl
  have hadopt : (t.adopt stmt).tableName = lit _ "benchmark_users" := by
    unfold TableRuntime.adopt
    split
    · exact htarget
    · rename_i hnamed
      exact h.named.resolve_left hnamed
  have hsame : SameName (t.adopt stmt).tableName.text stmt.tableName.text := by
    rw [hadopt, htarget]
    rfl
  have hrefines := tableInsertNamed_refines (hrep.adopt stmt) stmt
  have hinto := insertInto_fits hitems
  unfold indexedInsert
  rw [hvalues]
  simp only [hstmt, tableInsertRow_eq, if_pos hsame]
  rw [← hlength]
  by_cases hfull : (tuplesOf o).length = MAX_ROWS
  · rw [if_pos hfull] at hinto ⊢
    obtain ⟨t', hrun, -, -⟩ := (insertRefines_error hinto).mp hrefines
    rw [hrun]
  · rw [if_neg hfull] at hinto ⊢
    obtain ⟨R, hR, hmore, hfits'⟩ := hinto
    obtain ⟨t', hrun, hrep', hname'⟩ := (insertRefines_ok hR).mp hrefines
    have hfilled : Filled t' ((tuplesOf o).length + 1) := by
      refine ⟨.inr (hname'.trans hadopt), some R, hrep', hmore, fun name' age' => ?_⟩
      rw [← hstmt] at hfits'
      exact fits_values hfits' name' age'
    obtain ⟨row, -, hcell, hrow⟩ := hfilled.slot (Nat.lt_succ_self _)
    have hbound : (tuplesOf o).length + 1 ≤ MAX_ROWS := by
      have hle := R.bounded
      omega
    obtain ⟨hint, hparse⟩ := intValue_nat hbound
    have hwrap : wrap (((tuplesOf o).length + 1 : Nat) : Int) = ((tuplesOf o).length + 1 : Nat) := by
      have hmax : MAX_ROWS = 2 ^ 30 := rfl
      exact wrap_eq (by omega) (by omega)
    refine ⟨t', ?_, hfilled⟩
    rw [hrun, hmore, Nat.add_sub_cancel]
    simp only [hrow, hcell, Bench.bind_ok, hint, hparse, if_true, hwrap]

/-- The ids that the loop keeps. -/
def idsUpTo (n : Nat) : List Int := (List.range n).map fun i => ((i + 1 : Nat) : Int)

@[simp] theorem length_idsUpTo (n : Nat) : (idsUpTo n).length = n := by
  simp [idsUpTo]

theorem idsUpTo_succ (n : Nat) : idsUpTo (n + 1) = idsUpTo n ++ [((n + 1 : Nat) : Int)] := by
  simp [idsUpTo, List.range_succ]

/-- The loop fills the table and the rest of its array, and fails where it gets past the largest
table. -/
theorem indexedInsertLoop_fills {t : TableRuntime} {n : Nat} (h : Filled t n) (todo : Nat) :
    if n + todo ≤ MAX_ROWS then
      ∃ t', indexedInsertLoop todo n t ((idsUpTo n).map some ++ List.replicate todo none) =
          .ok (t', (idsUpTo (n + todo)).map some) ∧
        Filled t' (n + todo)
    else n ≤ MAX_ROWS →
      indexedInsertLoop todo n t ((idsUpTo n).map some ++ List.replicate todo none) =
        .error .failure := by
  induction todo generalizing t n with
  | zero =>
    split
    · exact ⟨t, by rw [List.replicate_zero, List.append_nil]; rfl, h⟩
    · rename_i hlarge
      exact fun hle => absurd hle hlarge
  | succ todo ih =>
    have hstep := h.insert n
    rw [indexedInsertLoop]
    by_cases hfull : n = MAX_ROWS
    · rw [if_pos hfull] at hstep
      rw [if_neg (by omega), hstep]
      exact fun _ => rfl
    · rw [if_neg hfull] at hstep
      obtain ⟨t', hrun, hfilled⟩ := hstep
      have hstore := IntArray.store_next (idsUpTo n) none (List.replicate todo none) (n + 1 : Nat)
      rw [length_idsUpTo, ← idsUpTo_succ, ← List.replicate_succ] at hstore
      have hmore := ih hfilled
      rw [Nat.add_right_comm, Nat.add_assoc] at hmore
      simp only [hrun, hstore, Bench.bind_ok]
      split
      · rename_i hle
        rwa [if_pos hle] at hmore
      · rename_i hlarge
        rw [if_neg hlarge] at hmore
        exact fun hle => hmore (by omega)

/-! ## The rows without the index -/

/-- The array of a store as that of a table. -/
def BenchmarkRowStore.table (store : BenchmarkRowStore) : TableRuntime :=
  { tableInit with rows := store.rows, rowCount := store.rowCount, capacity := store.capacity }

/-- The store grows as a table does. -/
theorem benchmarkPlainStoreReserve_eq (store : BenchmarkRowStore) :
    benchmarkPlainStoreReserve store = match tableReserveIfNeeded store.table [] with
      | (.error _, _, _) => .error .failure
      | (.ok (), t, _) => .ok ⟨t.rows, t.rowCount, t.capacity⟩ := by
  unfold benchmarkPlainStoreReserve tableReserveIfNeeded
  have hcount : store.table.rowCount = store.rowCount := rfl
  have hcapacity : store.table.capacity = store.capacity := rfl
  simp only [hcount, hcapacity]
  by_cases hroom : store.rowCount < store.capacity
  · simp only [if_pos hroom]
    rfl
  · simp only [if_neg hroom]
    generalize (if store.capacity = 0 then (INITIAL_ROW_CAPACITY : Int)
      else Int.bmod (store.capacity * 2) (2 ^ 32)) = newCapacity
    rcases reallocRows newCapacity [] with ⟨_ | _, allocs⟩
    · rfl
    · rfl

/-- One row more, as long as there is room. -/
theorem benchmarkPlainStoreAppend_spec {store : BenchmarkRowStore} (h : Roomy store.table) (id : Int)
    (name age : Literal) :
    if store.rowCount = MAX_ROWS then benchmarkPlainStoreAppend store id name age = .error .failure
    else ∃ store', benchmarkPlainStoreAppend store id name age = .ok store' ∧
      Roomy store'.table ∧ store'.rowCount = store.rowCount + 1 := by
  unfold benchmarkPlainStoreAppend
  rw [benchmarkPlainStoreReserve_eq]
  by_cases hfull : store.rowCount = MAX_ROWS
  · rw [if_pos hfull, h.reserve_full hfull]
    rfl
  · rw [if_neg hfull]
    have hreserve : ∃ t : TableRuntime, tableReserveIfNeeded store.table [] = (.ok (), t, []) ∧
        Roomy t ∧ t.rowCount = store.rowCount ∧ t.rowCount < t.capacity := by
      by_cases hroom : store.rowCount < store.capacity
      · refine ⟨store.table, ?_, h, rfl, hroom⟩
        unfold tableReserveIfNeeded
        exact if_pos hroom
      · obtain ⟨n, k, hk, hn, hlt, hrun⟩ := h.reserve_grow hroom hfull []
        exact ⟨RowStore.grown store.table n, hrun, h.grown hk hn hlt.le, rfl,
          Nat.lt_of_le_of_lt h.fits hlt⟩
    obtain ⟨t, hrun, hroomy, hcount, hroom⟩ := hreserve
    have hslots := hroomy.slots
    rw [hrun]
    simp only [Bench.bind_ok, if_pos (hslots.symm ▸ hroom)]
    refine ⟨_, rfl, ⟨?_, hroom, hroomy.doubled⟩, congrArg (· + 1) hcount⟩
    simp [BenchmarkRowStore.table, hslots]

theorem plainInsertLoop_spec {store : BenchmarkRowStore} (h : Roomy store.table)
    (todo i : Nat) (hroom : store.rowCount + todo ≤ MAX_ROWS) :
    ∃ store', plainInsertLoop todo i store = .ok store' := by
  induction todo generalizing store i with
  | zero => exact ⟨store, rfl⟩
  | succ todo ih =>
    have hstep := benchmarkPlainStoreAppend_spec h (i + 1) (benchmarkBuildValues i).1
      (benchmarkBuildValues i).2
    rw [if_neg (by omega)] at hstep
    obtain ⟨store', hrun, hroomy, hcount⟩ := hstep
    rw [plainInsertLoop]
    simp only [hrun, Bench.bind_ok]
    exact ih hroomy (i + 1) (by omega)

/-! ## Lookups -/

theorem Filled.le {t : TableRuntime} {n : Nat} (h : Filled t n) : n ≤ MAX_ROWS := by
  obtain ⟨o, -, hlength, -⟩ := h.fits
  rw [← hlength]
  cases o with
  | none => exact Nat.zero_le _
  | some R => exact R.bounded

/-- The scan from a row on stops at the row with the id, if that is still to come. -/
theorem Filled.findRowLoop_eq {t : TableRuntime} {n : Nat} (h : Filled t n) (target : Int)
    {todo i : Nat} (hend : i + todo = n) :
    findRowLoop t target todo i =
      if (i : Int) < target ∧ target ≤ n then .ok (target - 1) else .error .failure := by
  induction todo generalizing i with
  | zero =>
    rw [if_neg (by omega)]
    rfl
  | succ todo ih =>
    have hlt : i < n := by omega
    have hle := h.le
    obtain ⟨row, hslot, hcell, -⟩ := h.slot hlt
    obtain ⟨hint, hparse⟩ := intValue_nat (Nat.le_trans hlt hle)
    have helement : element t.rows i = .ok (some row) := by
      unfold element
      rw [hslot]
    rw [findRowLoop]
    simp only [helement, Bench.bind_ok, hcell, hint, hparse, true_and]
    by_cases hfound : ((i + 1 : Nat) : Int) = target
    · rw [if_pos hfound, if_pos (by omega)]
      congr 1
      omega
    · rw [if_neg hfound, ih (by omega)]
      congr 1
      exact propext (by omega)

/-- The tree and the scan give the same row for every key, and a key without a row fails in both. -/
theorem Filled.lookups {t : TableRuntime} {n : Nat} (h : Filled t n) (key : Int) :
    findRowIndexByTree t key = benchmarkFindRowIndexByIdLinear t key ∧
      benchmarkFindRowIndexByIdLinear t key =
        if 0 < key ∧ key ≤ n then .ok (key - 1) else .error .failure := by
  obtain ⟨hinvariant, hcount⟩ := h.invariant
  have hscan : benchmarkFindRowIndexByIdLinear t key =
      if 0 < key ∧ key ≤ n then .ok (key - 1) else .error .failure := by
    unfold benchmarkFindRowIndexByIdLinear
    rw [hcount]
    exact h.findRowLoop_eq key (Nat.zero_add n)
  refine ⟨?_, hscan⟩
  unfold findRowIndexByTree
  rw [hscan, hinvariant.index, hcount]
  by_cases hkey : 0 < key ∧ key ≤ n
  · rw [if_pos hkey, if_pos (by omega)]
  · rw [if_neg hkey, if_neg (by omega)]

theorem Filled.root_ne_none {t : TableRuntime} {n : Nat} (h : Filled t n) (hn : 1 ≤ n) :
    t.idIndex.root ≠ none := by
  intro hnone
  have hsearch : bptreeSearch t.idIndex 1 = some none := by
    unfold bptreeSearch
    rw [hnone, bptreeFindLeaf]
    rfl
  obtain ⟨hinvariant, hcount⟩ := h.invariant
  rw [hinvariant.index, if_pos (by omega)] at hsearch
  cases hsearch

/-- The row that is found is the right one. -/
theorem Filled.validate {t : TableRuntime} {n : Nat} (h : Filled t n) {key : Int} (hlow : 0 < key)
    (hhigh : key ≤ n) : benchmarkValidateLookupRow t (key - 1) key = .ok () := by
  have hle := h.le
  obtain ⟨i, rfl⟩ : ∃ i : Nat, key = ((i + 1 : Nat) : Int) := ⟨key.toNat - 1, by omega⟩
  have hlt : i < n := by omega
  obtain ⟨row, -, hcell, hrow⟩ := h.slot hlt
  obtain ⟨hint, hparse⟩ := intValue_nat (Nat.le_trans hlt hle)
  have hindex : ((i + 1 : Nat) : Int) - 1 = i := by omega
  unfold benchmarkValidateLookupRow
  rw [hindex, hrow]
  simp only [hcell, Bench.bind_ok, hint, hparse, and_self, if_true]

/-- Lookups of keys that are there come through. -/
theorem Filled.lookupLoop_ok {t : TableRuntime} {n : Nat} (h : Filled t n) {find : Int → Bench Int}
    {keys : List Int} (hkeys : ∀ key ∈ keys, 0 < key ∧ key ≤ n)
    (hfind : ∀ key : Int, 0 < key → key ≤ n → find key = .ok (key - 1)) (rest : IntArray)
    {todo i : Nat} (hend : i + todo = keys.length) :
    lookupLoop t find (keys.map some ++ rest) todo i = .ok () := by
  induction todo generalizing i with
  | zero => rfl
  | succ todo ih =>
    have hlt : i < keys.length := by omega
    obtain ⟨hlow, hhigh⟩ := hkeys keys[i] (List.getElem_mem hlt)
    rw [lookupLoop]
    simp only [IntArray.load_written rest hlt, Bench.bind_ok, hfind _ hlow hhigh,
      h.validate hlow hhigh]
    exact ih (by omega)

/-! ## Keys -/

theorem load_idsUpTo {n : Nat} {index : Int} (hlow : 0 ≤ index) (hhigh : index < n) :
    IntArray.load ((idsUpTo n).map some) index = .ok (index + 1) := by
  obtain ⟨i, rfl⟩ := Int.eq_ofNat_of_zero_le hlow
  have hlt : i < (idsUpTo n).length := by
    rw [length_idsUpTo]
    exact Int.ofNat_lt.mp hhigh
  have hload := IntArray.load_written [] hlt
  rw [List.append_nil] at hload
  rw [hload]
  simp [idsUpTo]

theorem benchmarkPickLookupIndex_lt {config : BenchmarkConfig} (hrows : 1 ≤ config.rowCount)
    (hqueries : 1 ≤ config.queryCount) (i : Nat) :
    0 ≤ benchmarkPickLookupIndex config i ∧ benchmarkPickLookupIndex config i < config.rowCount := by
  have hscaled : 0 ≤ ((i : Int) * config.rowCount).tdiv config.queryCount :=
    Int.tdiv_nonneg (Int.mul_nonneg (by omega) (by omega)) (by omega)
  unfold benchmarkPickLookupIndex
  rw [if_neg (by omega)]
  simp only
  split <;> omega

/-- Every key of every case is an id that was inserted, and the keys fill the slots from the front. -/
theorem lookupKeysLoop_spec {config : BenchmarkConfig} (hrows : 1 ≤ config.rowCount)
    (hqueries : 1 ≤ config.queryCount) (lookupCase : BenchmarkLookupCase) (todo : Nat)
    (randomState : UInt32) (keys : List Int) (slots : IntArray) (hroom : todo ≤ slots.length) :
    ∃ new, lookupKeysLoop config ((idsUpTo config.rowCount.toNat).map some) lookupCase todo
        keys.length randomState (keys.map some ++ slots) =
          .ok ((keys ++ new).map some ++ slots.drop todo) ∧ new.length = todo ∧
      ∀ key ∈ new, 0 < key ∧ key ≤ config.rowCount := by
  have hload : ∀ {index : Int}, 0 ≤ index → index < config.rowCount →
      IntArray.load ((idsUpTo config.rowCount.toNat).map some) index = .ok (index + 1) :=
    fun hlow hhigh => load_idsUpTo hlow (by omega)
  induction todo generalizing randomState keys slots with
  | zero => exact ⟨[], by simp [lookupKeysLoop], rfl, nofun⟩
  | succ todo ih =>
    obtain ⟨slot, slots, rfl⟩ := List.exists_cons_of_length_pos (Nat.zero_lt_of_lt hroom)
    have hnext : ∀ {index : Int} (randomState : UInt32), 0 ≤ index → index < config.rowCount →
        ∃ new, (IntArray.load ((idsUpTo config.rowCount.toNat).map some) index >>= fun key =>
            IntArray.store (keys.map some ++ slot :: slots) keys.length key >>= fun lookupKeys =>
              lookupKeysLoop config ((idsUpTo config.rowCount.toNat).map some) lookupCase todo
                (keys.length + 1) randomState lookupKeys) =
            .ok ((keys ++ new).map some ++ (slot :: slots).drop (todo + 1)) ∧
          new.length = todo + 1 ∧ ∀ key ∈ new, 0 < key ∧ key ≤ config.rowCount := by
      intro index randomState hlow hhigh
      obtain ⟨new, hrun, hlength, hall⟩ :=
        ih randomState (keys ++ [index + 1]) slots (Nat.le_of_succ_le_succ hroom)
      rw [List.length_append, List.length_singleton, List.append_assoc] at hrun
      refine ⟨(index + 1) :: new, ?_, congrArg (· + 1) hlength, ?_⟩
      · rw [hload hlow hhigh, Bench.bind_ok, IntArray.store_next, Bench.bind_ok, hrun]
        rfl
      · exact List.forall_mem_cons.mpr ⟨by omega, hall⟩
    cases lookupCase with
    | average =>
      obtain ⟨hlow, hhigh⟩ := benchmarkPickLookupIndex_lt hrows hqueries keys.length
      exact hnext randomState hlow hhigh
    | worst => exact hnext randomState (by omega) (by omega)
    | random =>
      have hmod := Nat.mod_lt (randomState * 1103515245 + 12345).toNat
        (show 0 < config.rowCount.toNat by omega)
      exact hnext _ (by omega) (by omega)

/-- The number of lookups of a case is positive and has room in the array of the keys. -/
theorem benchmarkQueryCountForCase_eq {config : BenchmarkConfig} (hqueries : 1 ≤ config.queryCount)
    (lookupCase : BenchmarkLookupCase) :
    benchmarkQueryCountForCase config lookupCase =
        (if lookupCase = .worst then 1 else config.queryCount) ∧
      1 ≤ benchmarkQueryCountForCase config lookupCase ∧
      benchmarkQueryCountForCase config lookupCase ≤ config.queryCount := by
  unfold benchmarkQueryCountForCase
  rw [if_neg (by omega)]
  refine ⟨rfl, ?_, ?_⟩
  · split <;> omega
  · split <;> omega

theorem lookupCasesLoop_ok {config : BenchmarkConfig} (hrows : 1 ≤ config.rowCount)
    (hqueries : 1 ≤ config.queryCount) {t : TableRuntime} (h : Filled t config.rowCount.toNat)
    (lookupCases : List BenchmarkLookupCase) {lookupKeys : IntArray}
    (hroom : config.queryCount.toNat ≤ lookupKeys.length) :
    lookupCasesLoop config t ((idsUpTo config.rowCount.toNat).map some) lookupCases lookupKeys =
      .ok (lookupCases.map fun lookupCase =>
        (lookupCase, if lookupCase = .worst then 1 else config.queryCount)) := by
  induction lookupCases generalizing lookupKeys with
  | nil => rfl
  | cons lookupCase lookupCases ih =>
    obtain ⟨hcount, hpos, hle⟩ := benchmarkQueryCountForCase_eq hqueries lookupCase
    rw [lookupCasesLoop, List.map_cons, ← hcount]
    generalize benchmarkQueryCountForCase config lookupCase = queryCount at hpos hle ⊢
    have hroot := h.root_ne_none (by omega)
    obtain ⟨keys, hkeys, hlength, hall⟩ := lookupKeysLoop_spec hrows hqueries lookupCase
      queryCount.toNat 0x00C0FFEE [] lookupKeys (by omega)
    rw [List.nil_append, List.length_nil, List.map_nil, List.nil_append] at hkeys
    have hkeys' : ∀ key ∈ keys, 0 < key ∧ key ≤ (config.rowCount.toNat : Int) := fun key hkey => by
      have := hall key hkey
      omega
    have hscan : ∀ key : Int, 0 < key → key ≤ (config.rowCount.toNat : Int) →
        benchmarkFindRowIndexByIdLinear t key = .ok (key - 1) := fun key hlow hhigh => by
      rw [(h.lookups key).2, if_pos ⟨hlow, hhigh⟩]
    have htree : ∀ key : Int, 0 < key → key ≤ (config.rowCount.toNat : Int) →
        findRowIndexByTree t key = .ok (key - 1) := fun key hlow hhigh => by
      rw [(h.lookups key).1, hscan key hlow hhigh]
    have hend : 0 + queryCount.toNat = keys.length := by omega
    have hneg : ¬ (config.rowCount ≤ 0 ∨ queryCount ≤ 0) := by omega
    unfold benchmarkBuildLookupKeys benchmarkMeasureIdLookup benchmarkMeasureIdLinearScan
    simp only [if_neg hneg, if_neg hroot, hkeys, Bench.bind_ok,
      h.lookupLoop_ok hkeys' htree _ hend, h.lookupLoop_ok hkeys' hscan _ hend]
    -- The next case finds the array as long as before.
    rw [ih (by simp; omega)]
    rfl

/-! ## The whole run -/

/-- The benchmark comes through for every positive number of queries and every number of rows up to the
largest table, and fails for all others; it never leaves an array, nor reads an id or a key that was not
written. Of a table that it fills, the tree and the scan give the same answer for every key, whether it
is there or not. -/
theorem benchmarkRun_spec (config : BenchmarkConfig) :
    benchmarkRun (some config) =
        (if 1 ≤ config.rowCount ∧ config.rowCount ≤ 2 ^ 30 ∧ 1 ≤ config.queryCount then
          .ok (config, [(.average, config.queryCount), (.worst, 1), (.random, config.queryCount)])
        else .error .failure) ∧
      (config.rowCount ≤ 2 ^ 30 → ∃ table,
        benchmarkMeasureIndexedInsert config =
          .ok (table, (idsUpTo config.rowCount.toNat).map some) ∧
        ∀ key : Int, findRowIndexByTree table key = benchmarkFindRowIndexByIdLinear table key ∧
          benchmarkFindRowIndexByIdLinear table key =
            if 0 < key ∧ key ≤ config.rowCount then .ok (key - 1) else .error .failure) := by
  have hmax : MAX_ROWS = 2 ^ 30 := rfl
  have hfill := indexedInsertLoop_fills filled_init config.rowCount.toNat
  rw [Nat.zero_add] at hfill
  have hindexed : benchmarkMeasureIndexedInsert config =
      indexedInsertLoop config.rowCount.toNat 0 tableInit
        ((idsUpTo 0).map some ++ List.replicate config.rowCount.toNat none) := rfl
  constructor
  · by_cases hpositive : config.rowCount ≤ 0 ∨ config.queryCount ≤ 0
    · rw [if_neg (by omega)]
      simp only [benchmarkRun, Option.getD_some, if_pos hpositive]
    · simp only [benchmarkRun, Option.getD_some, if_neg hpositive]
      by_cases hlarge : config.rowCount.toNat ≤ MAX_ROWS
      · rw [if_pos hlarge] at hfill
        obtain ⟨table, hrun, hfilled⟩ := hfill
        have hroomy : Roomy (BenchmarkRowStore.table ⟨[], 0, 0⟩) := represents_init.2.roomy
        obtain ⟨store, hplain⟩ := plainInsertLoop_spec hroomy config.rowCount.toNat 0
          (by rw [Nat.zero_add]; exact hlarge)
        have hmeasured : benchmarkMeasurePlainInsert config = .ok store := hplain
        have hrows : 1 ≤ config.rowCount := by omega
        have hlookups := lookupCasesLoop_ok hrows (by omega) hfilled [.average, .worst, .random]
          (show _ ≤ (IntArray.malloc config.queryCount).length from List.length_replicate.ge)
        rw [if_pos (by omega), hindexed, hrun]
        simp only [Bench.bind_ok, hmeasured, hlookups]
        rfl
      · rw [if_neg hlarge] at hfill
        rw [if_neg (by omega), hindexed, hfill (Nat.zero_le _)]
        rfl
  · intro hrows
    rw [if_pos (by omega)] at hfill
    obtain ⟨table, hrun, hfilled⟩ := hfill
    refine ⟨table, hindexed.trans hrun, fun key => ?_⟩
    obtain ⟨hsame, hscan⟩ := hfilled.lookups key
    refine ⟨hsame, hscan.trans ?_⟩
    congr 1
    exact propext (by omega)

end JungleDb
