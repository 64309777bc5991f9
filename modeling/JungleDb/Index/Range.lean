import JungleDb.Index.Equals

/-!
# Ranges by the sorted index

The binary searches look for the place where the entries below a value end. There is one if the
entries below the value come before the others in the order of `index_compare_range_entries`.
`utils_compare_values` compares integers as numbers and other strings byte by byte: with both kinds in
one column, or of one kind in the column and a value of the other, it need not be so.
-/

namespace JungleDb

open CString Stdio Bisect

/-! ## The comparator -/

theorem utilsCompareValues_swap (lhs rhs : Bytes) :
    utilsCompareValues rhs lhs = - utilsCompareValues lhs rhs := by
  unfold utilsCompareValues
  rw [utilsCompareIntegerStrings_eq, utilsCompareIntegerStrings_eq]
  by_cases h : IntegerText lhs ∧ IntegerText rhs
  · rw [if_pos h, if_pos h.symm]
    rcases lt_trichotomy (intValue lhs) (intValue rhs) with hless | hsame | hless
    · simp only [if_pos hless, if_neg (lt_asymm hless)]
      rfl
    · simp only [hsame, if_neg (lt_irrefl (intValue rhs))]
      rfl
    · simp only [if_pos hless, if_neg (lt_asymm hless)]
  · rw [if_neg h, if_neg fun hboth => h hboth.symm]
    exact strcmp_swap lhs rhs

theorem indexCompareRangeEntries_of_ne {left right : RangeEntry}
    (h : utilsCompareValues left.key.text right.key.text ≠ 0) :
    indexCompareRangeEntries left right = utilsCompareValues left.key.text right.key.text := if_pos h

theorem indexCompareRangeEntries_of_eq {left right : RangeEntry}
    (h : utilsCompareValues left.key.text right.key.text = 0) :
    indexCompareRangeEntries left right =
      if left.offset < right.offset then -1
      else if left.offset > right.offset then 1
      else 0 := if_neg (not_not.mpr h)

theorem indexCompareRangeEntries_swap (left right : RangeEntry) :
    indexCompareRangeEntries right left = - indexCompareRangeEntries left right := by
  have hswap := utilsCompareValues_swap left.key.text right.key.text
  by_cases h : utilsCompareValues left.key.text right.key.text = 0
  · have hback : utilsCompareValues right.key.text left.key.text = 0 := by rw [hswap, h, neg_zero]
    rw [indexCompareRangeEntries_of_eq h, indexCompareRangeEntries_of_eq hback]
    rcases Nat.lt_trichotomy left.offset right.offset with hless | hsame | hless
    · rw [if_neg (Nat.lt_asymm hless), if_pos hless, if_pos hless]
      rfl
    · rw [hsame, if_neg (Nat.lt_irrefl _), if_neg (Nat.lt_irrefl _)]
      rfl
    · rw [if_pos hless, if_neg (Nat.lt_asymm hless), if_pos hless]
  · have hback : utilsCompareValues right.key.text left.key.text ≠ 0 := by
      rw [hswap]
      exact neg_ne_zero.mpr h
    rw [indexCompareRangeEntries_of_ne h, indexCompareRangeEntries_of_ne hback, hswap]

/-- Two entries that the comparator does not tell apart have one offset. -/
theorem indexCompareRangeEntries_eq_zero {left right : RangeEntry}
    (h : indexCompareRangeEntries left right = 0) : left.offset = right.offset := by
  by_cases hequal : utilsCompareValues left.key.text right.key.text = 0
  · rw [indexCompareRangeEntries_of_eq hequal] at h
    split at h
    · cases h
    · split at h
      · cases h
      · omega
  · rw [indexCompareRangeEntries_of_ne hequal] at h
    exact absurd h hequal

/-- It takes two entries for the comparator to be inconsistent. -/
theorem totalPreorder_of_length {entries : List RangeEntry} (h : entries.length < 2) :
    TotalPreorder indexCompareRangeEntries entries := by
  have hself : ∀ entry, indexCompareRangeEntries entry entry = 0 := by
    intro entry
    have hswap := indexCompareRangeEntries_swap entry entry
    omega
  have hone : ∀ left ∈ entries, ∀ right ∈ entries, left = right := by
    intro left hleft right hright
    cases entries with
    | nil => cases hleft
    | cons entry entries =>
      have hnil : entries = [] := List.eq_nil_of_length_eq_zero (by
        rw [List.length_cons] at h
        omega)
      subst hnil
      rw [List.mem_singleton.mp hleft, List.mem_singleton.mp hright]
  constructor
  · intro left hleft right hright
    rw [indexCompareRangeEntries_swap left right]
    omega
  · intro left hleft middle hmiddle right hright _ _
    rw [hone left hleft right hright, hself]

/-! ## The searches -/

def rangeOperators : List Bytes :=
  [bytes "!=", bytes ">", bytes ">=", bytes "<", bytes "<="]

/-- The entry lies before the place that the search for the operator looks for. -/
def below (op value : Bytes) (entry : RangeEntry) : Bool :=
  if op = bytes "<" ∨ op = bytes ">=" then decide (indexCompareEntryToValue entry value < 0)
  else decide (indexCompareEntryToValue entry value ≤ 0)

/-- The entry is a row of the scan. -/
def satisfies (op value : Bytes) (entry : RangeEntry) : Bool := cellSatisfies op value entry.key.text

/-- The place of the operator. -/
def placeOf (op value : Bytes) (entries : List RangeEntry) : Nat :=
  bisect (below op value) entries 0 entries.length

theorem below_lower {op : Bytes} (h : op = bytes "<" ∨ op = bytes ">=") (value : Bytes) :
    below op value = fun entry => decide (indexCompareEntryToValue entry value < 0) := by
  funext entry
  exact if_pos h

theorem below_upper {op : Bytes} (h : ¬ (op = bytes "<" ∨ op = bytes ">=")) (value : Bytes) :
    below op value = fun entry => decide (indexCompareEntryToValue entry value ≤ 0) := by
  funext entry
  exact if_neg h

/-- For `<` and `<=` the rows of the scan are those before the place. -/
theorem satisfies_before {op : Bytes} (h : op = bytes "<" ∨ op = bytes "<=") (value : Bytes) :
    satisfies op value = below op value := by
  funext entry
  rcases h with rfl | rfl
  · rfl
  · rfl

/-- For `>` and `>=` they are the others. -/
theorem satisfies_behind {op : Bytes} (h : op = bytes ">" ∨ op = bytes ">=") (value : Bytes) :
    satisfies op value = fun entry => !below op value entry := by
  funext entry
  rcases h with rfl | rfl
  · show decide (utilsCompareValues entry.key.text value > 0) =
      !decide (utilsCompareValues entry.key.text value ≤ 0)
    rw [← decide_not]
    exact decide_eq_decide.mpr not_le.symm
  · show decide (utilsCompareValues entry.key.text value ≥ 0) =
      !decide (utilsCompareValues entry.key.text value < 0)
    rw [← decide_not]
    exact decide_eq_decide.mpr not_lt.symm

/-- A query of a range cuts the entries at a place. -/
theorem indexQueryRange_before {op : Bytes} (h : op = bytes "<" ∨ op = bytes "<=")
    (index : TableIndex) (value : Bytes) :
    indexQueryRange index op value =
      .ok ((index.range.take (placeOf op value index.range)).map RangeEntry.offset) := by
  unfold placeOf
  rcases h with rfl | rfl
  · rw [below_lower (.inl rfl)]
    rfl
  · rw [below_upper (by decide)]
    rfl

theorem indexQueryRange_behind {op : Bytes} (h : op = bytes ">" ∨ op = bytes ">=")
    (index : TableIndex) (value : Bytes) :
    indexQueryRange index op value =
      .ok ((index.range.drop (placeOf op value index.range)).map RangeEntry.offset) := by
  have hrest : ∀ place, (index.range.drop place).take (index.range.length - place) =
      index.range.drop place := by
    intro place
    refine List.take_of_length_le ?_
    rw [List.length_drop]
  unfold placeOf
  rcases h with rfl | rfl
  · rw [below_upper (by decide), ← hrest]
    rfl
  · rw [below_lower (.inr rfl), ← hrest]
    rfl

theorem mem_rangeOperators {op : Bytes} (h : op ∈ rangeOperators) :
    op = bytes "!=" ∨ (op = bytes "<" ∨ op = bytes "<=") ∨ op = bytes ">" ∨ op = bytes ">=" := by
  simp only [rangeOperators, List.mem_cons, List.not_mem_nil, or_false] at h
  tauto

/-- Where there is a place, the query returns the rows of the scan. -/
theorem indexQueryRange_eq {op : Bytes} (hop : op ∈ rangeOperators) {index : TableIndex}
    {value : Bytes} (h : op = bytes "!=" ∨ Splits (below op value) index.range) :
    indexQueryRange index op value =
      .ok ((index.range.filter (satisfies op value)).map RangeEntry.offset) := by
  rcases mem_rangeOperators hop with rfl | hbefore | hbehind
  · rfl
  · have hsplits : Splits (below op value) index.range := by
      refine h.resolve_left ?_
      rcases hbefore with rfl | rfl <;> decide
    rw [indexQueryRange_before hbefore, placeOf, hsplits.bisect_eq, hsplits.take,
      satisfies_before hbefore]
  · have hsplits : Splits (below op value) index.range := by
      refine h.resolve_left ?_
      rcases hbehind with rfl | rfl <;> decide
    rw [indexQueryRange_behind hbehind, placeOf, hsplits.bisect_eq, hsplits.drop,
      satisfies_behind hbehind]

/-- A query that returns the rows of the scan cuts at such a place. -/
theorem splits_of_indexQueryRange {op : Bytes} (hop : op ∈ rangeOperators)
    (hne : op ≠ bytes "!=") {index : TableIndex} {value : Bytes}
    (hoffsets : (index.range.map RangeEntry.offset).Nodup) {offsets : List Nat}
    (hquery : indexQueryRange index op value = .ok offsets)
    (h : offsets.Perm ((index.range.filter (satisfies op value)).map RangeEntry.offset)) :
    Splits (below op value) index.range := by
  rcases mem_rangeOperators hop with heq | hbefore | hbehind
  · exact absurd heq hne
  · rw [indexQueryRange_before hbefore] at hquery
    cases hquery
    rw [satisfies_before hbefore] at h
    exact splits_of_take hoffsets h
  · rw [indexQueryRange_behind hbehind] at hquery
    cases hquery
    rw [satisfies_behind hbehind] at h
    exact splits_of_drop hoffsets h

/-- Entries that the comparison does not tell apart are before the place or behind it together. -/
theorem splits_of_constant {op : Bytes} (hop : op ∈ rangeOperators) {value : Bytes}
    {entries : List RangeEntry} {holds : Bool}
    (h : ∀ entry ∈ entries, satisfies op value entry = holds) :
    op = bytes "!=" ∨ Splits (below op value) entries := by
  rcases mem_rangeOperators hop with heq | hbefore | hbehind
  · exact .inl heq
  · rw [satisfies_before hbefore] at h
    refine .inr (List.pairwise_of_forall_mem_list fun left hleft right hright hbelow => ?_)
    rw [h left hleft, ← h right hright]
    exact hbelow
  · rw [satisfies_behind hbehind] at h
    refine .inr (List.pairwise_of_forall_mem_list fun left hleft right hright hbelow => ?_)
    have hsame : (!below op value left) = !below op value right :=
      (h left hleft).trans (h right hright).symm
    exact (Bool.not_inj hsame).trans hbelow

/-- The sorted entries split just when none behind the place may stand before one that is not. -/
theorem splits_sorted_iff {qsort : Qsort} (hsort : Sorts qsort) {entries : List RangeEntry}
    (hnodup : (entries.map RangeEntry.offset).Nodup)
    (horder : TotalPreorder indexCompareRangeEntries entries) (p : RangeEntry → Bool) :
    Splits p (qsort indexCompareRangeEntries entries) ↔
      ∀ left ∈ entries, ∀ right ∈ entries, indexCompareRangeEntries left right ≤ 0 →
        p right = true → p left = true := by
  have hperm := hsort.perm horder
  have hinj := List.inj_on_of_nodup_map hnodup
  rw [splits_iff_of_sorted (hsort.sorted horder)]
  · simp only [hperm.mem_iff]
  · intro left hleft right hright hle hge
    rw [hperm.mem_iff] at hleft hright
    rw [indexCompareRangeEntries_swap left right] at hge
    have hzero : indexCompareRangeEntries left right = 0 := by omega
    exact hinj hleft hright (indexCompareRangeEntries_eq_zero hzero)

/-! ## The entries of a column -/

section Column

variable {table : TableData} {columnIndex : Nat}

/-- Every row has its entry. -/
theorem columnEntries_map (hoffsets : table.offsets.length = table.rows.length)
    (hfit : KeysFit table columnIndex) :
    (columnEntries table columnIndex).map (fun entry => (entry.key.text, entry.offset)) =
      (table.rows.zip table.offsets).map fun r => (cellAt r.1 columnIndex, r.2) := by
  have hall := (keysFit_iff hoffsets).mp hfit
  unfold columnEntries
  generalize table.rows.zip table.offsets = rows at hall
  induction rows with
  | nil => rfl
  | cons r rows ih =>
    obtain ⟨hfirst, hrest⟩ := List.forall_mem_cons.mp hall
    have hcopy : utilsSafeStrcpy MAX_VALUE_LEN (cellAt r.1 columnIndex) = some ⟨_, hfirst⟩ :=
      dif_pos hfirst
    rw [List.filterMap_cons, hcopy, List.map_cons]
    exact congrArg _ (ih hrest)

theorem columnEntries_offsets (hoffsets : table.offsets.length = table.rows.length)
    (hfit : KeysFit table columnIndex) :
    (columnEntries table columnIndex).map RangeEntry.offset = table.offsets := by
  have hmap := congrArg (List.map Prod.snd) (columnEntries_map hoffsets hfit)
  rw [List.map_map, List.map_map] at hmap
  exact hmap.trans (List.map_snd_zip (Nat.le_of_eq hoffsets))

/-- The scan, over the entries. -/
theorem linearScan_eq (hoffsets : table.offsets.length = table.rows.length)
    (hfit : KeysFit table columnIndex) (op value : Bytes) :
    linearScan table columnIndex op value =
      ((columnEntries table columnIndex).filter (satisfies op value)).map RangeEntry.offset := by
  have hmap := congrArg (fun pairs =>
    (pairs.filter fun r : Bytes × Nat => cellSatisfies op value r.1).map Prod.snd)
    (columnEntries_map hoffsets hfit)
  simp only [List.filter_map, List.map_map] at hmap
  exact hmap.symm

/-- The entries of the column can be searched for the value: the comparator is consistent on them, and
none that lies behind the place may stand before one that lies before it. Nothing is looked for where
no key at all satisfies the comparison. -/
def RangeSearchable (table : TableData) (columnIndex : Nat) (op value : Bytes) : Prop :=
  (TotalPreorder indexCompareRangeEntries (columnEntries table columnIndex) ∧
    (op = bytes "!=" ∨
      ∀ left ∈ columnEntries table columnIndex, ∀ right ∈ columnEntries table columnIndex,
        indexCompareRangeEntries left right ≤ 0 → below op value right = true →
          below op value left = true)) ∨
  ∀ key : CStr MAX_VALUE_LEN, cellSatisfies op value key.text = false

end Column

/-! ## The queries -/

/-- On the entries in another order, with a place, the query returns the rows of the scan. -/
theorem indexQueryRange_perm {op : Bytes} (hop : op ∈ rangeOperators) {index : TableIndex}
    {value : Bytes} {entries : List RangeEntry} (hnodup : (entries.map RangeEntry.offset).Nodup)
    (hperm : index.range.Perm entries) (h : op = bytes "!=" ∨ Splits (below op value) index.range) :
    ∃ offsets, indexQueryRange index op value = .ok offsets ∧
      offsets.Perm ((entries.filter (satisfies op value)).map RangeEntry.offset) ∧
      offsets.Nodup := by
  have hrows := (hperm.filter (satisfies op value)).map RangeEntry.offset
  refine ⟨_, indexQueryRange_eq hop h, hrows, ?_⟩
  exact hrows.nodup_iff.mpr (hnodup.sublist (List.filter_sublist.map _))

/-- Where no key satisfies the comparison nothing is returned, and the scan is empty. -/
theorem indexQueryRange_nil {op : Bytes} (hop : op ∈ rangeOperators) {value : Bytes}
    (hnever : ∀ key : CStr MAX_VALUE_LEN, cellSatisfies op value key.text = false)
    (index : TableIndex) (entries : List RangeEntry) :
    indexQueryRange index op value = .ok [] ∧ entries.filter (satisfies op value) = [] := by
  have hnone : ∀ range : List RangeEntry, range.filter (satisfies op value) = [] := by
    intro range
    rw [List.filter_eq_nil_iff]
    intro entry _
    rw [satisfies, hnever]
    exact Bool.false_ne_true
  have hsplits : op = bytes "!=" ∨ Splits (below op value) index.range :=
    splits_of_constant hop fun entry _ => hnever entry.key
  rw [indexQueryRange_eq hop hsplits, hnone]
  exact ⟨rfl, hnone entries⟩

/-- An array of one key that satisfies the comparison, which `qsort` may leave where it promises
nothing, gives one row twice. -/
theorem indexQueryRange_junk {op : Bytes} (hop : op ∈ rangeOperators) {index : TableIndex}
    {value : Bytes} {entries : List RangeEntry} {key : CStr MAX_VALUE_LEN}
    (hkey : cellSatisfies op value key.text = true)
    (horder : ¬ TotalPreorder indexCompareRangeEntries entries)
    (hrange : index.range = sortOr ⟨key, 0⟩ indexCompareRangeEntries entries) {offsets : List Nat}
    (hquery : indexQueryRange index op value = .ok offsets) : ¬ offsets.Nodup := by
  rw [sortOr, if_neg horder] at hrange
  have hall : ∀ entry ∈ index.range, satisfies op value entry = true := by
    intro entry hentry
    rw [hrange] at hentry
    rw [List.eq_of_mem_replicate hentry]
    exact hkey
  rw [indexQueryRange_eq hop (splits_of_constant hop hall), List.filter_eq_self.mpr hall, hrange,
    List.map_replicate] at hquery
  cases hquery
  intro honce
  have hshort := List.nodup_replicate.mp honce
  exact horder (totalPreorder_of_length (by omega))

/-- The query returns the rows of the scan, each once, whatever `qsort` does where it promises
nothing, just when the entries can be searched for the value. -/
theorem indexQueryRange_perm_linearScan {file : Option Bytes} {tableName : Bytes} {table : TableData}
    (hload : storageLoadTable file tableName = .ok table) {columnIndex : Nat}
    (hcolumn : columnIndex < table.columns.length) (hfit : KeysFit table columnIndex) {op : Bytes}
    (hop : op ∈ rangeOperators) (value : Bytes) :
    (∀ qsort : Qsort, Sorts qsort → ∃ index offsets,
      indexBuild qsort table columnIndex = .ok index ∧
      indexQueryRange index op value = .ok offsets ∧
      offsets.Perm (linearScan table columnIndex op value) ∧ offsets.Nodup) ↔
    RangeSearchable table columnIndex op value := by
  obtain ⟨hoffsets, hnodup⟩ := storageLoadTable_offsets hload
  have hentries := columnEntries_offsets hoffsets hfit
  rw [linearScan_eq hoffsets hfit]
  rw [← hentries] at hnodup
  unfold RangeSearchable
  generalize hcolumnEntries : columnEntries table columnIndex = entries at hnodup ⊢
  have hbuild : ∀ qsort : Qsort, ∃ index, indexBuild qsort table columnIndex = .ok index ∧
      index.range = qsort indexCompareRangeEntries entries := by
    intro qsort
    exact ⟨_, indexBuild_ok hcolumn hoffsets hfit qsort, congrArg _ hcolumnEntries⟩
  constructor
  · intro h
    by_cases horder : TotalPreorder indexCompareRangeEntries entries
    · left
      refine ⟨horder, or_iff_not_imp_left.mpr ?_⟩
      intro hne
      have hsort : Sorts (sortBy (α := RangeEntry)) := sorts_sortBy
      have hperm := hsort.perm horder
      obtain ⟨index, offsets, hbuilt, hquery, hsame, -⟩ := h _ hsort
      obtain ⟨index', hbuilt', hrange⟩ := hbuild sortBy
      rw [hbuilt] at hbuilt'
      cases hbuilt'
      have hsplits : Splits (below op value) index.range := by
        rw [← hrange] at hperm
        refine splits_of_indexQueryRange hop hne ?_ hquery ?_
        · exact (hperm.map _).nodup_iff.mpr hnodup
        · exact hsame.trans ((hperm.filter _).map _).symm
      rw [hrange] at hsplits
      exact (splits_sorted_iff hsort hnodup horder _).mp hsplits
    · right
      intro key
      by_contra hkey
      rw [Bool.not_eq_false] at hkey
      obtain ⟨index, offsets, hbuilt, hquery, -, honce⟩ := h _ (sorts_sortOr ⟨key, 0⟩)
      obtain ⟨index', hbuilt', hrange⟩ := hbuild (sortOr ⟨key, 0⟩)
      rw [hbuilt] at hbuilt'
      cases hbuilt'
      exact indexQueryRange_junk hop hkey horder hrange hquery honce
  · rintro (⟨horder, hplace⟩ | hnever)
    · intro qsort hsort
      obtain ⟨index, hbuilt, hrange⟩ := hbuild qsort
      have hperm := hsort.perm horder
      have hsplits : op = bytes "!=" ∨ Splits (below op value) index.range := by
        refine hplace.imp_right fun hall => ?_
        rw [hrange]
        exact (splits_sorted_iff hsort hnodup horder _).mpr hall
      rw [← hrange] at hperm
      obtain ⟨offsets, hquery⟩ := indexQueryRange_perm hop hnodup hperm hsplits
      exact ⟨index, offsets, hbuilt, hquery⟩
    · intro qsort _
      obtain ⟨index, hbuilt, -⟩ := hbuild qsort
      obtain ⟨hquery, hnone⟩ := indexQueryRange_nil hop hnever index entries
      rw [hnone]
      exact ⟨index, [], hbuilt, hquery, .nil, List.nodup_nil⟩

/-- A table with the ids 10 and 2. -/
def numbersFile : Bytes := bytes "id\n10\n2\n"

def numbersTable : TableData := ⟨[⟨bytes "id", length_id⟩], [[bytes "10"], [bytes "2"]], [3, 6]⟩

theorem indexQueryRange_perm_linearScan_numbers :
    ∃ index offsets, indexBuild sortBy numbersTable 0 = .ok index ∧
      indexQueryRange index (bytes "<") (bytes "9") = .ok offsets ∧
      offsets.Perm (linearScan numbersTable 0 (bytes "<") (bytes "9")) ∧ offsets.Nodup := by
  have hload : storageLoadTable (some numbersFile) (bytes "numbers") = .ok numbersTable := by
    decide +kernel
  have hop : bytes "<" ∈ rangeOperators := by decide +kernel
  have hsearch : RangeSearchable numbersTable 0 (bytes "<") (bytes "9") :=
    .inl ⟨by decide +kernel, .inr (by decide +kernel)⟩
  exact (indexQueryRange_perm_linearScan hload Nat.zero_lt_one (by decide +kernel) hop
    (bytes "9")).mpr hsearch sortBy sorts_sortBy

/-- The row with 2 is returned as less than 1a. -/
theorem indexQueryRange_between_kinds :
    storageLoadTable (some numbersFile) (bytes "numbers") = .ok numbersTable ∧
      linearScan numbersTable 0 (bytes "<") (bytes "1a") = [3] ∧
      Sorts (sortBy (α := RangeEntry)) ∧
      ∃ index, indexBuild sortBy numbersTable 0 = .ok index ∧
        indexQueryRange index (bytes "<") (bytes "1a") = .ok [6, 3] := by
  refine ⟨by decide +kernel, by decide +kernel, sorts_sortBy, ?_⟩
  refine ⟨_, indexBuild_ok Nat.zero_lt_one rfl (by decide +kernel) sortBy, ?_⟩
  decide +kernel

/-! ## Columns of one kind -/

/-- Where `utils_compare_values` goes by an order, entries are ordered by it and by their offsets. -/
theorem indexCompareRangeEntries_le_iff {β : Type} [LT β] {left right : RangeEntry} {lhs rhs : β}
    (hsign : SignOf (utilsCompareValues left.key.text right.key.text) lhs rhs) :
    indexCompareRangeEntries left right ≤ 0 ↔
      lhs < rhs ∨ lhs = rhs ∧ left.offset ≤ right.offset := by
  by_cases hequal : utilsCompareValues left.key.text right.key.text = 0
  · have hless : ¬ lhs < rhs := by
      rw [← hsign.neg, hequal]
      exact lt_irrefl 0
    rw [indexCompareRangeEntries_of_eq hequal, or_iff_right hless,
      and_iff_right (hsign.zero.mp hequal)]
    split
    · omega
    · split <;> omega
  · have hdiffer := mt hsign.zero.mpr hequal
    rw [indexCompareRangeEntries_of_ne hequal, ← hsign.neg, or_iff_left fun h => hdiffer h.1]
    omega

/-- Where `utils_compare_values` goes by one order on the keys of the column and the value, the entries
can be searched for the value. -/
theorem rangeSearchable_of_order {β : Type} [LT β] (htrans : ∀ {a b c : β}, a < b → b < c → a < c)
    {table : TableData} {columnIndex : Nat} {value : Bytes} (f : Bytes → β)
    (hkeys : ∀ left ∈ columnEntries table columnIndex, ∀ right ∈ columnEntries table columnIndex,
      SignOf (utilsCompareValues left.key.text right.key.text) (f left.key.text) (f right.key.text))
    (hvalue : ∀ entry ∈ columnEntries table columnIndex,
      SignOf (utilsCompareValues entry.key.text value) (f entry.key.text) (f value))
    (op : Bytes) : RangeSearchable table columnIndex op value := by
  have hle : ∀ left ∈ columnEntries table columnIndex, ∀ right ∈ columnEntries table columnIndex,
      indexCompareRangeEntries left right ≤ 0 ↔ f left.key.text < f right.key.text ∨
        f left.key.text = f right.key.text ∧ left.offset ≤ right.offset :=
    fun left hleft right hright => indexCompareRangeEntries_le_iff (hkeys left hleft right hright)
  refine .inl ⟨⟨?_, ?_⟩, .inr ?_⟩
  · intro left _ right _
    rw [indexCompareRangeEntries_swap left right]
    omega
  · intro left hleft middle hmiddle right hright hfirst hsecond
    rw [hle _ hleft _ hmiddle] at hfirst
    rw [hle _ hmiddle _ hright] at hsecond
    rw [hle _ hleft _ hright]
    rcases hfirst with hfirst | ⟨hfirst, hoffset⟩
    · rcases hsecond with hsecond | ⟨hsecond, -⟩
      · exact .inl (htrans hfirst hsecond)
      · exact .inl (hsecond ▸ hfirst)
    · rcases hsecond with hsecond | ⟨hsecond, hoffset'⟩
      · exact .inl (hfirst ▸ hsecond)
      · exact .inr ⟨hfirst.trans hsecond, Nat.le_trans hoffset hoffset'⟩
  · intro left hleft right hright hbefore
    have hkey : f left.key.text < f right.key.text ∨ f left.key.text = f right.key.text := by
      rw [hle _ hleft _ hright] at hbefore
      exact hbefore.imp_right And.left
    have hless : f right.key.text < f value → f left.key.text < f value := by
      rcases hkey with hkey | hkey
      · exact htrans hkey
      · exact fun h => hkey ▸ h
    unfold below indexCompareEntryToValue
    split
    · rw [decide_eq_true_eq, decide_eq_true_eq, (hvalue _ hleft).neg, (hvalue _ hright).neg]
      exact hless
    · have hnot : ∀ entry ∈ columnEntries table columnIndex,
          utilsCompareValues entry.key.text value ≤ 0 ↔
            f entry.key.text < f value ∨ f entry.key.text = f value := by
        intro entry hentry
        rw [Int.le_iff_lt_or_eq, (hvalue _ hentry).neg, (hvalue _ hentry).zero]
      rw [decide_eq_true_eq, decide_eq_true_eq, hnot _ hleft, hnot _ hright]
      rintro (hright | hright)
      · exact .inl (hless hright)
      · rw [← hright]
        exact hkey

/-- A column of integers can be searched for every integer. -/
theorem rangeSearchable_integers {table : TableData} {columnIndex : Nat} {value : Bytes}
    (hcolumn : ∀ entry ∈ columnEntries table columnIndex, IntegerText entry.key.text)
    (hvalue : IntegerText value) (op : Bytes) : RangeSearchable table columnIndex op value := by
  have hsign : ∀ {lhs rhs : Bytes}, IntegerText lhs → IntegerText rhs →
      SignOf (utilsCompareValues lhs rhs) (intValue lhs) (intValue rhs) := by
    intro lhs rhs hlhs hrhs
    unfold utilsCompareValues
    rw [utilsCompareIntegerStrings_eq, if_pos ⟨hlhs, hrhs⟩]
    exact signOf_int _ _
  exact rangeSearchable_of_order lt_trans intValue
    (fun left hleft right hright => hsign (hcolumn left hleft) (hcolumn right hright))
    (fun entry hentry => hsign (hcolumn entry hentry) hvalue) op

/-- A column without integers can be searched for every string, whether it is one or not. -/
theorem rangeSearchable_texts {table : TableData} {columnIndex : Nat}
    (hcolumn : ∀ entry ∈ columnEntries table columnIndex, ¬ IntegerText entry.key.text)
    (op value : Bytes) : RangeSearchable table columnIndex op value := by
  have hsign : ∀ {lhs : Bytes}, ¬ IntegerText lhs → ∀ rhs,
      SignOf (utilsCompareValues lhs rhs) lhs rhs := by
    intro lhs hlhs rhs
    unfold utilsCompareValues
    rw [utilsCompareIntegerStrings_eq, if_neg fun h => hlhs h.1]
    exact signOf_strcmp _ _
  exact rangeSearchable_of_order List.lt_trans id
    (fun left hleft right _ => hsign (hcolumn left hleft) right.key.text)
    (fun entry hentry => hsign (hcolumn entry hentry) value) op

end JungleDb
