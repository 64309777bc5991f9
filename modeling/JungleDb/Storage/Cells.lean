import Mathlib.Data.Finset.Card
import JungleDb.Storage.Rejected

/-!
# The cells of an appended row

An accepted statement has as many columns as the table wants, and each column of the table is found in
it. This makes the cells and the values of the statement correspond one to one just when the table has
no name twice; for a name that it has twice a value is copied twice, and another one is dropped.
-/

namespace JungleDb

open CString Stdio

/-! ## Where the cells come from -/

/-- `match_index`: the value of the statement that a cell points to; the automatic id has none. -/
def matchIndex (columns : List Identifier) (stmt : InsertStatement) (i : Nat) : Option Nat :=
  if some i = storageFindColumnIndex columns idText ∧
      storageFindColumnIndex stmt.names idText = none then none
  else columns[i]?.bind fun column => storageFindColumnIndex stmt.names column.text

/-- Every value of the statement is in one cell, under its name, and every other cell is the automatic
id. -/
structure Places (columns : List Identifier) (stmt : InsertStatement) (row : Row) : Prop where
  arity : row.length = columns.length
  automatic : ∀ i < columns.length, matchIndex columns stmt i = none →
    some i = storageFindColumnIndex columns idText ∧ ¬ stmt.HasId
  named : ∀ i m, matchIndex columns stmt i = some m → ∃ column item, columns[i]? = some column ∧
    stmt.items.1[m]? = some item ∧ SameName item.column.text column.text ∧
      cellAt row i = item.value.text
  once : ∀ m < stmt.items.1.length, ∃! i, matchIndex columns stmt i = some m

/-- No name twice, in any case. -/
def DistinctNames (columns : List Identifier) : Prop :=
  columns.Pairwise fun a b => ¬ SameName a.text b.text

instance (columns : List Identifier) : Decidable (DistinctNames columns) :=
  inferInstanceAs (Decidable (columns.Pairwise _))

/-- The column that the search finds has the name. -/
theorem storageFindColumnIndex_eq_some {columns : List Identifier} {target : Bytes} {i : Nat}
    (h : storageFindColumnIndex columns target = some i) :
    ∃ column, columns[i]? = some column ∧ SameName column.text target := by
  obtain ⟨hlt, hname, -⟩ := List.findIdx?_eq_some_iff_getElem.mp h
  exact ⟨columns[i], List.getElem?_eq_getElem hlt, utilsEqualsIgnoreCase_iff.mp hname⟩

theorem storageFindColumnIndex_congr {target target' : Bytes} (h : SameName target target')
    (columns : List Identifier) :
    storageFindColumnIndex columns target = storageFindColumnIndex columns target' := by
  unfold storageFindColumnIndex
  congr 1
  funext column
  rw [Bool.eq_iff_iff, utilsEqualsIgnoreCase_iff, utilsEqualsIgnoreCase_iff, h]

theorem DistinctNames.eq {columns : List Identifier} (h : DistinctNames columns) {i j : Nat}
    {a b : Identifier} (ha : columns[i]? = some a) (hb : columns[j]? = some b)
    (hsame : SameName a.text b.text) : i = j := by
  obtain ⟨hi, rfl⟩ := List.getElem?_eq_some_iff.mp ha
  obtain ⟨hj, rfl⟩ := List.getElem?_eq_some_iff.mp hb
  have hpairs := List.pairwise_iff_getElem.mp h
  rcases Nat.lt_trichotomy i j with hlt | heq | hlt
  · exact absurd hsame (hpairs i j hi hj hlt)
  · exact heq
  · exact absurd hsame.symm (hpairs j i hj hi hlt)

section Accepted

variable {columns : List Identifier} {stmt : InsertStatement}

theorem matchIndex_eq_some {i m : Nat} (h : matchIndex columns stmt i = some m) :
    ∃ column item, columns[i]? = some column ∧ stmt.items.1[m]? = some item ∧
      SameName item.column.text column.text := by
  unfold matchIndex at h
  split at h
  · cases h
  · obtain ⟨column, hcolumn, hfind⟩ := Option.bind_eq_some_iff.mp h
    obtain ⟨name, hname, hsame⟩ := storageFindColumnIndex_eq_some hfind
    rw [InsertStatement.names, List.getElem?_map] at hname
    obtain ⟨item, hitem, rfl⟩ := Option.map_eq_some_iff.mp hname
    exact ⟨column, item, hcolumn, hitem, hsame⟩

/-- In an accepted statement only the automatic id has no value. -/
theorem matchIndex_eq_none (h : matchColumns columns stmt 0 columns = .ok ()) {i : Nat}
    (hi : i < columns.length) :
    matchIndex columns stmt i = none ↔
      some i = storageFindColumnIndex columns idText ∧ ¬ stmt.HasId := by
  unfold matchIndex
  rw [← names_find_eq_none]
  split
  · rename_i hauto
    exact iff_of_true rfl hauto
  · rename_i hauto
    have hmatch := matchColumns_ok h (List.getElem?_eq_getElem hi)
    rw [Nat.zero_add] at hmatch
    rw [List.getElem?_eq_getElem hi, Option.bind_some, ← Option.not_isSome_iff_eq_none]
    exact iff_of_false (fun hnone => hnone (hmatch.resolve_left hauto)) hauto

/-- The cells are those of `match_index`. -/
theorem cellAt_orderValues (h : matchColumns columns stmt 0 columns = .ok ()) (autoId : Bytes)
    {i : Nat} (hi : i < columns.length) :
    cellAt (orderValues columns stmt autoId) i =
      match matchIndex columns stmt i with
      | none => autoId
      | some m => cellAt (values stmt.items.1) m := by
  have hnone := matchIndex_eq_none h hi
  rw [← names_find_eq_none] at hnone
  unfold cellAt orderValues
  rw [List.getElem?_mapIdx, List.getElem?_eq_getElem hi, Option.map_some, Option.getD_some]
  by_cases hauto : some i = storageFindColumnIndex columns idText ∧
      storageFindColumnIndex stmt.names idText = none
  · rw [if_pos hauto, hnone.mpr hauto]
  · have hindex : matchIndex columns stmt i =
        storageFindColumnIndex stmt.names columns[i].text := by
      unfold matchIndex
      rw [if_neg hauto, List.getElem?_eq_getElem hi, Option.bind_some]
    rw [if_neg hauto, ← hindex]
    cases hm : matchIndex columns stmt i with
    | none => exact absurd (hnone.mp hm) hauto
    | some m => rfl

/-! ## As many cells as values -/

/-- The cells that have a value. -/
def filledCells (columns : List Identifier) (stmt : InsertStatement) : Finset Nat :=
  (Finset.range columns.length).filter fun i => matchIndex columns stmt i ≠ none

theorem mem_filledCells {i : Nat} :
    i ∈ filledCells columns stmt ↔ ∃ m, matchIndex columns stmt i = some m := by
  unfold filledCells
  rw [Finset.mem_filter, Finset.mem_range, Option.ne_none_iff_exists']
  refine and_iff_right_of_imp ?_
  rintro ⟨m, hm⟩
  obtain ⟨column, -, hcolumn, -⟩ := matchIndex_eq_some hm
  exact (List.getElem?_eq_some_iff.mp hcolumn).1

/-- The check of the number of columns makes them as many as the values. -/
theorem card_filledCells (h : matchColumns columns stmt 0 columns = .ok ())
    (hcount : ¬ columnCountDiffers columns stmt) :
    (filledCells columns stmt).card = stmt.items.1.length := by
  have hnone : ∀ i < columns.length, matchIndex columns stmt i = none ↔
      some i = storageFindColumnIndex columns idText ∧ ¬ stmt.HasId :=
    fun i hi => matchIndex_eq_none h hi
  unfold columnCountDiffers at hcount
  rw [← stmt.length_names]
  by_cases hauto : storageFindColumnIndex columns idText ≠ none ∧ ¬ stmt.HasId
  · -- all cells but the one of the automatic id
    obtain ⟨hid, hstmt⟩ := hauto
    obtain ⟨idIndex, hfind⟩ := Option.ne_none_iff_exists'.mp hid
    have hlength : columns.length = stmt.names.length + 1 := by
      by_contra hne
      exact hcount (.inr (.inr ⟨hid, names_find_eq_none.mpr hstmt, hne⟩))
    obtain ⟨column, hcolumn, -⟩ := storageFindColumnIndex_eq_some hfind
    have hlt := (List.getElem?_eq_some_iff.mp hcolumn).1
    have hcells : filledCells columns stmt = (Finset.range columns.length).erase idIndex := by
      ext i
      unfold filledCells
      rw [Finset.mem_filter, Finset.mem_erase, Finset.mem_range, and_comm]
      refine and_congr_left fun hi => ?_
      rw [ne_eq, hnone i hi, hfind, Option.some_inj, and_iff_left hstmt]
    rw [hcells, Finset.card_erase_of_mem (Finset.mem_range.mpr hlt), Finset.card_range, hlength]
    rfl
  · have hlength : columns.length = stmt.names.length := by
      by_contra hne
      by_cases hid : storageFindColumnIndex columns idText = none
      · exact hcount (.inl ⟨hid, hne⟩)
      · refine hcount (.inr (.inl ⟨hid, fun hfind => ?_, hne⟩))
        exact hauto ⟨hid, names_find_eq_none.mp hfind⟩
    have hcells : filledCells columns stmt = Finset.range columns.length := by
      refine Finset.filter_true_of_mem fun i hi hempty => hauto ?_
      obtain ⟨hid, hstmt⟩ := (hnone i (Finset.mem_range.mp hi)).mp hempty
      exact ⟨hid ▸ Option.some_ne_none i, hstmt⟩
    rw [hcells, Finset.card_range, hlength]

/-- With distinct names every value has its cell. -/
theorem exists_matchIndex (h : matchColumns columns stmt 0 columns = .ok ())
    (hcount : ¬ columnCountDiffers columns stmt) (hnames : DistinctNames columns) {m : Nat}
    (hm : m < stmt.items.1.length) : ∃! i, matchIndex columns stmt i = some m := by
  have hunique : ∀ i j m, matchIndex columns stmt i = some m → matchIndex columns stmt j = some m →
      i = j := by
    intro i j m hi hj
    obtain ⟨a, item, ha, hitem, hsame⟩ := matchIndex_eq_some hi
    obtain ⟨b, item', hb, hitem', hsame'⟩ := matchIndex_eq_some hj
    rw [hitem] at hitem'
    cases hitem'
    exact hnames.eq ha hb (Eq.trans hsame.symm hsame')
  have hmaps : Set.MapsTo (fun i => (matchIndex columns stmt i).getD 0) (filledCells columns stmt)
      (Finset.range stmt.items.1.length) := by
    intro i hi
    obtain ⟨k, hk⟩ := mem_filledCells.mp (Finset.mem_coe.mp hi)
    obtain ⟨-, item, -, hitem, -⟩ := matchIndex_eq_some hk
    simp only [hk, Option.getD_some, Finset.coe_range, Set.mem_Iio]
    exact (List.getElem?_eq_some_iff.mp hitem).1
  have hinj : Set.InjOn (fun i => (matchIndex columns stmt i).getD 0)
      (filledCells columns stmt) := by
    intro i hi j hj hsame
    obtain ⟨k, hk⟩ := mem_filledCells.mp (Finset.mem_coe.mp hi)
    obtain ⟨l, hl⟩ := mem_filledCells.mp (Finset.mem_coe.mp hj)
    simp only [hk, hl, Option.getD_some] at hsame
    rw [← hsame] at hl
    exact hunique i j k hk hl
  have hcard : (Finset.range stmt.items.1.length).card ≤ (filledCells columns stmt).card := by
    rw [Finset.card_range, card_filledCells h hcount]
  obtain ⟨i, hi, hindex⟩ := Finset.surjOn_of_injOn_of_card_le _ hmaps hinj hcard
    (Finset.mem_coe.mpr (Finset.mem_range.mpr hm))
  obtain ⟨k, hk⟩ := mem_filledCells.mp (Finset.mem_coe.mp hi)
  simp only [hk, Option.getD_some] at hindex
  rw [hindex] at hk
  exact ⟨i, hk, fun j hj => hunique j i m hj hk⟩

/-- Two columns of one name have one value. -/
theorem distinctNames_of_once (h : matchColumns columns stmt 0 columns = .ok ())
    (honce : ∀ m < stmt.items.1.length, ∃! i, matchIndex columns stmt i = some m) :
    DistinctNames columns := by
  refine List.pairwise_iff_getElem.mpr fun i j hi hj hlt hsame => ?_
  -- the first of them may be the automatic id, but then the statement has no value for the other
  have hfilled : ∀ k (hk : k < columns.length),
      ¬ (some k = storageFindColumnIndex columns idText ∧ ¬ stmt.HasId) →
      matchIndex columns stmt k = storageFindColumnIndex stmt.names columns[k].text := by
    intro k hk hauto
    unfold matchIndex
    rw [if_neg, List.getElem?_eq_getElem hk, Option.bind_some]
    rw [names_find_eq_none]
    exact hauto
  have hindex : ∀ k (hk : k < columns.length), ∃ m, matchIndex columns stmt k = some m ∨
      some k = storageFindColumnIndex columns idText ∧ ¬ stmt.HasId := by
    intro k hk
    cases hm : matchIndex columns stmt k with
    | none => exact ⟨0, .inr ((matchIndex_eq_none h hk).mp hm)⟩
    | some m => exact ⟨m, .inl rfl⟩
  have hid : ¬ (some i = storageFindColumnIndex columns idText ∧ ¬ stmt.HasId) := by
    rintro ⟨hid, hstmt⟩
    have hiId := isId_of_find hid.symm (List.getElem?_eq_getElem hi)
    obtain ⟨m, hm | ⟨hjd, -⟩⟩ := hindex j hj
    · obtain ⟨column, item, hcolumn, hitem, hname⟩ := matchIndex_eq_some hm
      rw [List.getElem?_eq_getElem hj] at hcolumn
      cases hcolumn
      refine hstmt ⟨item.column, List.mem_map_of_mem (List.mem_of_getElem? hitem), ?_⟩
      exact Eq.trans hname (Eq.trans hsame.symm hiId)
    · rw [← hid] at hjd
      exact absurd (Option.some.inj hjd) (Nat.ne_of_gt hlt)
  have hjd : ¬ (some j = storageFindColumnIndex columns idText ∧ ¬ stmt.HasId) := by
    rintro ⟨hjd, hstmt⟩
    -- the search would have found the first
    obtain ⟨_, hname, hbefore⟩ := List.findIdx?_eq_some_iff_getElem.mp hjd.symm
    refine hbefore i hlt (utilsEqualsIgnoreCase_iff.mpr ?_)
    exact Eq.trans hsame (utilsEqualsIgnoreCase_iff.mp hname)
  obtain ⟨m, hm⟩ := hindex i hi
  have hmi := hm.resolve_right hid
  have hmj : matchIndex columns stmt j = some m := by
    rw [hfilled j hj hjd, ← storageFindColumnIndex_congr hsame, ← hfilled i hi hid]
    exact hmi
  obtain ⟨-, item, -, hitem, -⟩ := matchIndex_eq_some hmi
  obtain ⟨k, -, hunique⟩ := honce m (List.getElem?_eq_some_iff.mp hitem).1
  exact absurd ((hunique i hmi).trans (hunique j hmj).symm) (Nat.ne_of_lt hlt)

/-- The row of an accepted statement places its values just when the columns have distinct names. -/
theorem storageOrderRow_places {tableName : Bytes} {lines : List Bytes} {row : Row}
    (h : storageOrderRow tableName columns stmt lines = .ok row) :
    Places columns stmt row ↔ DistinctNames columns := by
  have hmatch := storageOrderRow_matches h
  refine ⟨fun hplaces => distinctNames_of_once hmatch hplaces.once, fun hnames => ?_⟩
  have hcount : ¬ columnCountDiffers columns stmt := by
    intro hdiffers
    unfold storageOrderRow at h
    rw [if_pos hdiffers] at h
    cases h
  obtain ⟨autoId, rfl, -⟩ := storageOrderRow_ok h
  rw [← orderValues_eq hmatch]
  refine ⟨?_, fun i hi => (matchIndex_eq_none hmatch hi).mp, fun i m hm => ?_, fun m hm => ?_⟩
  · unfold orderValues
    rw [List.length_mapIdx]
  · obtain ⟨column, item, hcolumn, hitem, hsame⟩ := matchIndex_eq_some hm
    refine ⟨column, item, hcolumn, hitem, hsame, ?_⟩
    rw [cellAt_orderValues hmatch _ (List.getElem?_eq_some_iff.mp hcolumn).1, hm]
    simp only [cellAt, values, List.getElem?_map, hitem, Option.map_some, Option.getD_some]
  · exact exists_matchIndex hmatch hcount hnames hm

end Accepted

/-! ## The call -/

/-- What an accepted call writes to a file with a header. -/
theorem storageInsert_ordered {io : InsertIo} {content tableName : Bytes} {stmt : InsertStatement}
    {columns : List Identifier} {lines : List Bytes}
    (hheader : storageReadHeader (fgetsLines MAX_CSV_LINE_LENGTH content) = .ok (columns, lines))
    (hcolumns : columns ≠ []) (h : (storageInsert io (some content) tableName stmt).1 = .ok ()) :
    ∃ row fp, storageOrderRow tableName columns stmt lines = .ok row ∧
      Stream.content fp = content ++ csvRow row ∧
      (storageInsert io (some content) tableName stmt).2 =
        some ((fp.flush io.flushed).close io.closed) := by
  obtain ⟨column, columns, rfl⟩ := List.exists_cons_of_ne_nil hcolumns
  unfold storageInsert at h ⊢
  simp only [Option.getD_some] at h ⊢
  split at h
  · cases h
  · split at h
    · cases h
    · split at h
      · cases h
      · rename_i hopens
        rw [if_neg hopens]
        split at h
        · cases h
        · rename_i hlocks
          rw [if_neg hlocks]
          split at h
          · cases h
          · rename_i plan hplan
            unfold storagePlanInsert at hplan
            simp only [hheader] at hplan
            obtain ⟨row, hrow, rfl⟩ := map_eq_ok hplan
            split at h
            · cases h
            · rename_i hseeks
              rw [if_neg hseeks]
              split at h
              · rename_i fp outcomes hput
                have hcontent := Stream.content_putAll hput
                have hstart : (Stream.mk content []).content = content := List.append_nil content
                rw [InsertPlan.flatten_calls, hstart] at hcontent
                exact ⟨row, fp, hrow, hcontent, rfl⟩
              · cases h

/-- An accepted call on a table writes a row in which every value of the statement is in one cell,
under its name, just when no two columns of the table have one name. -/
theorem storageInsert_places_iff {io : InsertIo} {content tableName : Bytes}
    {stmt : InsertStatement} {columns : List Identifier} {lines : List Bytes}
    (hheader : storageReadHeader (fgetsLines MAX_CSV_LINE_LENGTH content) = .ok (columns, lines))
    (hcolumns : columns ≠ []) (h : (storageInsert io (some content) tableName stmt).1 = .ok ()) :
    ∃ row fp, Stream.content fp = content ++ csvRow row ∧
      (storageInsert io (some content) tableName stmt).2 =
        some ((fp.flush io.flushed).close io.closed) ∧
      (Places columns stmt row ↔ DistinctNames columns) := by
  obtain ⟨row, fp, hrow, hcontent, hfile⟩ := storageInsert_ordered hheader hcolumns h
  exact ⟨row, fp, hcontent, hfile, storageOrderRow_places hrow⟩

/-- `INSERT INTO users (..., ..., ...) VALUES ('...', '...', '...')` -/
def insertThree (a b c : String × String) : InsertStatement :=
  ⟨lit _ "users", ⟨[⟨lit _ a.1, lit _ a.2, .string⟩, ⟨lit _ b.1, lit _ b.2, .string⟩,
    ⟨lit _ c.1, lit _ c.2, .string⟩], Nat.le_add_left 3 29⟩⟩

/-- The columns in another order and case. -/
theorem storageInsert_places_reordered :
    ∃ row, Places [lit _ "id", lit _ "name", lit _ "age"]
      (insertThree ("AGE", "30") ("ID", "2") ("Name", "Lee")) row := by
  have hheader : storageReadHeader (fgetsLines MAX_CSV_LINE_LENGTH
      (bytes "id,name,age\n1,Kim,20\n")) =
        .ok ([lit _ "id", lit _ "name", lit _ "age"], [bytes "1,Kim,20\n"]) := by
    decide +kernel
  have haccepts : (storageInsert .fine (some (bytes "id,name,age\n1,Kim,20\n")) (bytes "users")
      (insertThree ("AGE", "30") ("ID", "2") ("Name", "Lee"))).1 = .ok () := by
    decide +kernel
  obtain ⟨row, -, -, -, hplaces⟩ :=
    storageInsert_places_iff hheader (List.cons_ne_nil _ _) haccepts
  exact ⟨row, hplaces.mpr (by decide)⟩

/-- The table has the column `a` twice: its value is copied, and that of `b` is dropped. -/
theorem storageInsert_places_twice :
    ¬ ∀ tableName created stmt content columns lines row,
      storageInsert .fine none tableName created = (.ok (), some content) →
      storageReadHeader (fgetsLines MAX_CSV_LINE_LENGTH content) = .ok (columns, lines) →
      storageInsert .fine (some content) tableName stmt = (.ok (), some (content ++ csvRow row)) →
      Places columns stmt row := by
  intro hgeneral
  have hplaces := hgeneral (bytes "users") (insertThree ("id", "1") ("a", "x") ("a", "y"))
    (insertThree ("id", "2") ("a", "x") ("b", "y")) (bytes "id,a,a\n1,x,y\n")
    [lit _ "id", lit _ "a", lit _ "a"] [bytes "1,x,y\n"] [bytes "2", bytes "x", bytes "x"]
    (by decide +kernel) (by decide +kernel) (by decide +kernel)
  obtain ⟨i, -, hunique⟩ := hplaces.once 1 (by decide)
  have hone := hunique 1 (by decide)
  have htwo := hunique 2 (by decide)
  rw [← htwo] at hone
  cases hone

end JungleDb
