import JungleDb.Storage.AutoId
import JungleDb.Storage.History

/-!
# The column `id` as a primary key

An explicit id is compared with the ids of the table as a text, an automatic one is above the integers
of all of them. `WHERE id = ...` compares two texts of integers as numbers. The ids of a table stay
apart under this comparison as long as no accepted statement spells the integer of an id in another
way, and no automatic id is computed behind one that cannot be counted on from.
-/

namespace JungleDb

open CString Stdio

/-! ## Keys -/

/-- No two ids compare equal, and so a value is that of one row at most. -/
structure PrimaryKey (ids : List Bytes) : Prop where
  apart : ids.Pairwise fun id id' => utilsCompareValues id id' ≠ 0
  lookup : ∀ value, (ids.countP fun id => decide (utilsCompareValues id value = 0)) ≤ 1

theorem utilsCompareValues_symm {lhs rhs : Bytes} :
    utilsCompareValues lhs rhs = 0 ↔ utilsCompareValues rhs lhs = 0 := by
  rw [utilsCompareValues_eq_zero, utilsCompareValues_eq_zero]
  constructor
  · rintro (hsame | ⟨hlhs, hrhs, hvalue⟩)
    · exact .inl hsame.symm
    · exact .inr ⟨hrhs, hlhs, hvalue.symm⟩
  · rintro (hsame | ⟨hrhs, hlhs, hvalue⟩)
    · exact .inl hsame.symm
    · exact .inr ⟨hlhs, hrhs, hvalue.symm⟩

theorem utilsCompareValues_trans {a b c : Bytes} (hab : utilsCompareValues a b = 0)
    (hbc : utilsCompareValues b c = 0) : utilsCompareValues a c = 0 := by
  rw [utilsCompareValues_eq_zero] at hab hbc ⊢
  rcases hab with rfl | ⟨ha, hb, hvalue⟩
  · exact hbc
  · rcases hbc with rfl | ⟨-, hc, hvalue'⟩
    · exact .inr ⟨ha, hb, hvalue⟩
    · exact .inr ⟨ha, hc, hvalue.trans hvalue'⟩

theorem primaryKey_of_apart {ids : List Bytes}
    (h : ids.Pairwise fun id id' => utilsCompareValues id id' ≠ 0) : PrimaryKey ids := by
  refine ⟨h, fun value => ?_⟩
  induction ids with
  | nil => exact Nat.zero_le 1
  | cons id ids ih =>
    obtain ⟨hfirst, hrest⟩ := List.pairwise_cons.mp h
    rw [List.countP_cons]
    by_cases hid : utilsCompareValues id value = 0
    · have hnone : (ids.countP fun id => decide (utilsCompareValues id value = 0)) = 0 := by
        rw [List.countP_eq_zero]
        intro id' hid' hsame
        have hvalue := utilsCompareValues_symm.mp (of_decide_eq_true hsame)
        exact hfirst id' hid' (utilsCompareValues_trans hid hvalue)
      rw [hnone, if_pos (decide_eq_true hid)]
    · have hno : ¬ decide (utilsCompareValues id value = 0) = true := by simpa using hid
      rw [if_neg hno]
      exact ih hrest

/-- The value is another text for the integer of an id. -/
def Respells (ids : List Bytes) (value : Bytes) : Prop :=
  ∃ id ∈ ids, id ≠ value ∧ IntegerText id ∧ IntegerText value ∧ intValue id = intValue value

/-- The value of the statement for the column `id`. -/
def InsertStatement.idValue (stmt : InsertStatement) : Bytes := stmt.valueOf idName

/-- The statement has an id that is no other text for the integer of one, or gets an automatic id in a
table whose ids can be counted on from. -/
def KeyStep (ids : List Bytes) (stmt : InsertStatement) : Prop :=
  (stmt.HasId → ¬ Respells ids stmt.idValue) ∧
    (¬ stmt.HasId → ∀ id ∈ ids, intValue id < LLONG_MAX)

/-- What an accepted statement puts in the column `id`. -/
structure KeyOf (ids : List Bytes) (stmt : InsertStatement) (key : Bytes) : Prop where
  explicit : stmt.HasId → key = stmt.idValue ∧ key ∉ ids
  automatic : ¬ stmt.HasId →
    (∀ id ∈ ids, utilsIsInteger id = true) ∧ key = lld (ids.foldl advanceId 1)

/-- The key is apart from the ids of the table. -/
theorem KeyOf.apart {ids : List Bytes} {stmt : InsertStatement} {key : Bytes}
    (h : KeyOf ids stmt key) (hstep : KeyStep ids stmt) :
    ∀ id ∈ ids, utilsCompareValues id key ≠ 0 := by
  intro id hid hzero
  by_cases hstmt : stmt.HasId
  · obtain ⟨rfl, hfresh⟩ := h.explicit hstmt
    rcases utilsCompareValues_eq_zero.mp hzero with rfl | ⟨hint, hkey, hvalue⟩
    · exact hfresh hid
    · have hne : id ≠ stmt.idValue := by
        rintro rfl
        exact hfresh hid
      exact hstep.1 hstmt ⟨id, hid, hne, hint, hkey, hvalue⟩
  · obtain ⟨hints, rfl⟩ := h.automatic hstmt
    obtain ⟨habove, hpos, -⟩ := foldl_advanceId_spec hints (hstep.2 hstmt) le_rfl one_le_LLONG_MAX
    exact utilsCompareValues_lld_ne hpos (habove id hid) (utilsCompareValues_symm.mp hzero)

/-! ## What the calls check -/

/-- A row with an id of the statement has been looked up. -/
theorem storageOrderRow_validates {tableName : Bytes} {columns : List Identifier}
    {stmt : InsertStatement} {lines : List Bytes} {row : Row} (hid : stmt.HasId)
    (h : storageOrderRow tableName columns stmt lines = .ok row) :
    storageValidatePrimaryKey tableName columns row lines = .ok () := by
  unfold storageOrderRow at h
  split at h
  · cases h
  · split at h
    · cases h
    · have hauto : ¬ isAutoId columns stmt = true := fun hauto => (isAutoId_iff.mp hauto).2 hid
      rw [if_neg hauto] at h
      obtain ⟨u, hvalid, rfl⟩ := map_eq_ok h
      exact hvalid

/-- The lines of a table with keys are its rows. -/
theorem CsvTable.Keyed.readRows {T : CsvTable} (h : T.Keyed) {tableName : Bytes}
    (hread : LinesRead tableName T.columns.length
      (fgetsLines MAX_CSV_LINE_LENGTH (T.rows.map csvRow).flatten)) :
    JungleDb.readRows tableName T.columns.length
      (fgetsLines MAX_CSV_LINE_LENGTH (T.rows.map csvRow).flatten) = T.rows := by
  obtain ⟨loaded, hloaded⟩ := hread.load 0
  have hfits : ∀ row ∈ T.rows, LineFits row := by
    by_contra hnot
    obtain ⟨e, he⟩ := loadRows_unreadable tableName 0 T.arity T.columns_length_pos T.cellStrings hnot
    rw [he] at hloaded
    cases hloaded
  obtain ⟨loaded', hloaded', hrows⟩ :=
    loadRows_csvRows tableName 0 T.arity T.columns_length_pos T.cellStrings hfits
  rw [(loadRows_ok hloaded').2, hrows]
  exact h.visible

/-! ## The ids of a file -/

/-- The cells in the column `id`. -/
def CsvTable.ids (T : CsvTable) : List Bytes :=
  match storageFindColumnIndex T.columns idText with
  | none => []
  | some idIndex => T.rows.map fun row => cellAt row idIndex

/-- The ids of a file that is absent, empty, or a table that was written row by row. -/
def FileIds (file : Option Bytes) (ids : List Bytes) : Prop :=
  (file.getD [] = [] ∧ ids = []) ∨ ∃ T : CsvTable, file = some T.encode ∧ T.ids = ids

/-- A file has the ids of one table at most. -/
theorem FileIds.unique {file : Option Bytes} {ids ids' : List Bytes} (h : FileIds file ids)
    (h' : FileIds file ids') : ids = ids' := by
  rcases h with ⟨hempty, rfl⟩ | ⟨T, rfl, rfl⟩
  · rcases h' with ⟨-, rfl⟩ | ⟨T', rfl, -⟩
    · rfl
    · exact absurd hempty T'.encode_ne_nil
  · rcases h' with ⟨hempty, -⟩ | ⟨T', hsame, rfl⟩
    · exact absurd hempty T.encode_ne_nil
    · obtain ⟨hheader, hrows⟩ := CsvTable.encode_inj (Option.some.inj hsame)
      have hcolumns : T.columns = T'.columns :=
        List.map_injective_iff.mpr (fun _ _ => CStr.ext) hheader
      unfold CsvTable.ids
      rw [hcolumns, hrows]

/-- The files that runs of `storage_insert` leave, with their ids. -/
inductive KeyedFile : Option Bytes → List Bytes → Prop
  | empty {file : Option Bytes} : file.getD [] = [] → KeyedFile file []
  | table {T : CsvTable} : T.Keyed → KeyedFile (some T.encode) T.ids

theorem KeyedFile.fileIds {file : Option Bytes} {ids : List Bytes} (h : KeyedFile file ids) :
    FileIds file ids := by
  cases h with
  | empty hempty => exact .inl ⟨hempty, rfl⟩
  | @table T hkeyed => exact .inr ⟨T, rfl, rfl⟩

/-- The cell of the statement for a column `id`. -/
theorem InsertStatement.cellFor_isId {stmt : InsertStatement} {column : Identifier}
    (h : IsId column) (autoId : Bytes) :
    stmt.cellFor autoId column = if stmt.HasId then stmt.idValue else autoId := by
  have hcolumn : SameName column.text idName.text := h
  unfold InsertStatement.cellFor
  by_cases hstmt : stmt.HasId
  · rw [if_neg fun hnot => hnot.2 hstmt, if_pos hstmt]
    have hnames : (fun item : InsertItem => decide (SameName item.column.text column.text)) =
        fun item => decide (SameName item.column.text idName.text) := by
      funext item
      rw [decide_eq_decide]
      exact ⟨fun hsame => Eq.trans hsame hcolumn, fun hsame => Eq.trans hsame hcolumn.symm⟩
    unfold idValue valueOf
    rw [hnames]
  · rw [if_pos ⟨h, hstmt⟩, if_neg hstmt]

/-- The cell of a row in the column `id`. -/
theorem cellAt_idIndex {columns : List Identifier} {stmt : InsertStatement} {idIndex : Nat}
    (h : storageFindColumnIndex columns idText = some idIndex) (autoId : Bytes) :
    cellAt (columns.map (stmt.cellFor autoId)) idIndex =
      if stmt.HasId then stmt.idValue else autoId := by
  obtain ⟨hlt, -, -⟩ := List.findIdx?_eq_some_iff_getElem.mp h
  have hid := isId_of_find h (List.getElem?_eq_getElem hlt)
  rw [cellAt, List.getElem?_map, List.getElem?_eq_getElem hlt, Option.map_some, Option.getD_some,
    InsertStatement.cellFor_isId hid]

/-- The first row has the key of its statement. -/
theorem InsertStatement.newTable_ids (stmt : InsertStatement) (hfits hstrings) :
    ∃ key, (stmt.newTable hfits hstrings).ids = [] ++ [key] ∧ KeyOf [] stmt key := by
  unfold CsvTable.ids newTable newColumns firstRow
  by_cases hid : stmt.HasId
  · obtain ⟨idIndex, hfind⟩ := Option.isSome_iff_exists.mp
      (storageFindColumnIndex_isSome.mpr (show ∃ name ∈ stmt.names, IsId name from hid))
    simp only [if_pos hid, hfind]
    exact ⟨_, rfl, fun _ => ⟨cellAt_values _ _ hfind, nofun⟩, fun hnot => absurd hid hnot⟩
  · have hfind : storageFindColumnIndex (idName :: stmt.names) idText = some 0 := by
      unfold storageFindColumnIndex
      rw [List.findIdx?_cons]
      rfl
    simp only [if_neg hid, hfind]
    exact ⟨_, rfl, fun hnot => absurd hnot hid, fun _ => ⟨nofun, rfl⟩⟩

/-- The row of an accepted statement has its key. -/
theorem CsvTable.Keyed.ids_append {T : CsvTable} (h : T.Keyed) {tableName : Bytes}
    {stmt : InsertStatement} {row : Row} {harity hstrings}
    (horder : storageOrderRow tableName T.columns stmt
      (fgetsLines MAX_CSV_LINE_LENGTH (T.rows.map csvRow).flatten) = .ok row) :
    ∃ key, (T.append row harity hstrings).ids = T.ids ++ [key] ∧ KeyOf T.ids stmt key := by
  obtain ⟨idIndex, hfind⟩ := Option.isSome_iff_exists.mp (storageFindColumnIndex_isSome.mpr h.1)
  have hids : T.ids = T.rows.map fun row => cellAt row idIndex := by
    unfold CsvTable.ids
    rw [hfind]
  have happend : (T.append row harity hstrings).ids = T.ids ++ [cellAt row idIndex] := by
    rw [hids]
    unfold CsvTable.ids CsvTable.append
    simp only [hfind, List.map_append, List.map_singleton]
  have hread := storageOrderRow_reads h.1 horder
  have hrows := h.readRows hread
  obtain ⟨autoId, hrow, hkey⟩ := storageOrderRow_ok horder
  have hcell : cellAt (T.columns.map (stmt.cellFor (lld autoId))) idIndex = _ :=
    cellAt_idIndex hfind (lld autoId)
  rw [← hrow] at hcell
  refine ⟨_, happend, fun hid => ?_, fun hid => ?_⟩
  · rw [if_pos hid] at hcell
    refine ⟨hcell, fun hmem => ?_⟩
    have hvalid := storageOrderRow_validates hid horder
    unfold storageValidatePrimaryKey at hvalid
    simp only [hfind] at hvalid
    split at hvalid
    · cases hvalid
    · have hne := (findKey_ok_iff.mp hvalid).2
      rw [hrows] at hne
      rw [hids] at hmem
      obtain ⟨other, hother, hsame⟩ := List.mem_map.mp hmem
      exact hne other hother hsame
  · have hnext := (hkey h.1).2 hid idIndex hfind
    obtain ⟨-, hints, hnext⟩ := nextAutoId_ok_iff.mp hnext
    rw [hrows] at hints
    rw [hrows, ← hids] at hnext
    rw [if_neg hid, ← hnext] at hcell
    refine ⟨?_, hcell⟩
    rw [hids]
    exact List.forall_mem_map.mpr hints

/-! ## One call -/

theorem KeyedFile.accepted {tableName : Bytes} {file : Option Bytes} {ids : List Bytes}
    {stmt : InsertStatement} (h : KeyedFile file ids) (hstrings : stmt.Strings)
    (haccepts : (storageInsert .fine file tableName stmt).1 = .ok ()) :
    ∃ key, KeyedFile (storageInsert .fine file tableName stmt).2 (ids ++ [key]) ∧
      KeyOf ids stmt key := by
  obtain ⟨plan, hplan, hcall⟩ := storageInsert_accepted haccepts
  rw [hcall]
  cases h with
  | @empty file hempty =>
    rw [hempty] at hplan ⊢
    obtain ⟨hfits, htext, -, hkey⟩ := storagePlanInsert_new hplan hstrings
    obtain ⟨key, hids, hof⟩ := stmt.newTable_ids hfits hstrings
    refine ⟨key, ?_, hof⟩
    rw [htext, ← hids]
    exact .table ⟨stmt.exists_isId_newColumns, List.forall_mem_singleton.mpr hkey⟩
  | @table T hkeyed =>
    rw [Option.getD_some] at hplan ⊢
    obtain ⟨harity, hcells, htext⟩ := CsvTable.encode_planned hplan hstrings
    obtain ⟨-, -, horder⟩ := storagePlanInsert_append hplan
    obtain ⟨key, hids, hof⟩ : ∃ key, (T.append _ harity hcells).ids = T.ids ++ [key] ∧
        KeyOf T.ids stmt key := hkeyed.ids_append horder
    obtain ⟨autoId, -, hkey⟩ := storageOrderRow_ok horder
    refine ⟨key, ?_, hof⟩
    rw [htext, ← hids]
    exact .table ⟨hkeyed.1, List.forall_mem_append.mpr
      ⟨hkeyed.2, List.forall_mem_singleton.mpr (hkey hkeyed.1).1⟩⟩

theorem KeyedFile.rejected {tableName : Bytes} {file : Option Bytes} {ids : List Bytes}
    {stmt : InsertStatement} (h : KeyedFile file ids)
    (hrejects : (storageInsert .fine file tableName stmt).1 ≠ .ok ()) :
    KeyedFile (storageInsert .fine file tableName stmt).2 ids := by
  rcases storageInsert_rejected hrejects with hsame | hsame
  · rw [hsame]
    exact h
  · rw [hsame]
    cases h with
    | empty hempty => exact .empty hempty
    | table hkeyed => exact .table hkeyed

theorem Stored.insert_file (tableName : Bytes) (s : Stored) (stmt : InsertStatement) :
    (s.insert tableName stmt).file = (storageInsert .fine s.file tableName stmt).2 := by
  unfold Stored.insert
  cases storageInsert .fine s.file tableName stmt with
  | mk result file => cases result <;> rfl

/-! ## Runs -/

/-- Every file of a run has ids. -/
theorem storageInserts_keyedFile (tableName : Bytes) {stmts : List InsertStatement}
    (hstrings : ∀ stmt ∈ stmts, stmt.Strings) :
    ∃ ids, KeyedFile (storageInserts tableName stmts).file ids := by
  induction stmts using List.reverseRecOn with
  | nil => exact ⟨[], .empty rfl⟩
  | append_singleton stmts stmt ih =>
    rw [List.forall_mem_append, List.forall_mem_singleton] at hstrings
    obtain ⟨ids, hfile⟩ := ih hstrings.1
    rw [storageInserts_concat, Stored.insert_file]
    by_cases haccepts : (storageInserts tableName stmts).Accepts tableName stmt
    · obtain ⟨key, hkeyed, -⟩ := hfile.accepted hstrings.2 haccepts
      exact ⟨_, hkeyed⟩
    · exact ⟨ids, hfile.rejected haccepts⟩

/-- One call keeps the ids apart. -/
theorem storageInserts_primaryKey_concat {tableName : Bytes} {stmts : List InsertStatement}
    {stmt : InsertStatement} (hstrings : ∀ stmt ∈ stmts, stmt.Strings) (hlast : stmt.Strings)
    {ids : List Bytes} (hids : FileIds (storageInserts tableName stmts).file ids)
    (hkey : PrimaryKey ids)
    (hstep : (storageInserts tableName stmts).Accepts tableName stmt → KeyStep ids stmt) :
    ∃ ids', FileIds (storageInserts tableName (stmts ++ [stmt])).file ids' ∧ PrimaryKey ids' := by
  obtain ⟨ids', hfile⟩ := storageInserts_keyedFile tableName hstrings
  obtain rfl := hids.unique hfile.fileIds
  rw [storageInserts_concat, Stored.insert_file]
  by_cases haccepts : (storageInserts tableName stmts).Accepts tableName stmt
  · obtain ⟨key, hkeyed, hof⟩ := hfile.accepted hlast haccepts
    have hapart := hof.apart (hstep haccepts)
    refine ⟨_, hkeyed.fileIds, primaryKey_of_apart ?_⟩
    rw [List.pairwise_append]
    refine ⟨hkey.apart, List.pairwise_singleton _ _, fun id hid id' hid' => ?_⟩
    rw [List.mem_singleton.mp hid']
    exact hapart id hid
  · exact ⟨ids, (hfile.rejected haccepts).fileIds, hkey⟩

/-- The property of a run: its file has ids, and they are a primary key. -/
def KeyedUniquely (tableName : Bytes) (stmts : List InsertStatement) : Prop :=
  ∃ ids, FileIds (storageInserts tableName stmts).file ids ∧ PrimaryKey ids

/-- The ids are a primary key after every call if every accepted statement has an id that is no other
text for the integer of one, or gets an automatic id behind ids that are below `LLONG_MAX`; and they
are none after an accepted statement whose id is another text. -/
theorem storageInserts_primaryKey {tableName : Bytes} {stmts : List InsertStatement}
    (hstrings : ∀ stmt ∈ stmts, stmt.Strings) :
    ((EveryAccepted tableName stmts fun s stmt => ∀ ids, FileIds s.file ids → KeyStep ids stmt) →
      ∀ before, before <+: stmts → KeyedUniquely tableName before) ∧
    ((∀ before, before <+: stmts → KeyedUniquely tableName before) →
      EveryAccepted tableName stmts fun s stmt => ∀ ids, FileIds s.file ids → stmt.HasId →
        ¬ Respells ids stmt.idValue) := by
  constructor
  · intro hsteps
    induction stmts using List.reverseRecOn with
    | nil =>
      intro before hbefore
      obtain rfl := List.prefix_nil.mp hbefore
      exact ⟨[], .inl ⟨rfl, rfl⟩, primaryKey_of_apart .nil⟩
    | append_singleton stmts stmt ih =>
      rw [List.forall_mem_append, List.forall_mem_singleton] at hstrings
      obtain ⟨hbefore, hlast⟩ := everyAccepted_concat.mp hsteps
      have hall := ih hstrings.1 hbefore
      intro before hprefix
      rcases List.prefix_concat_iff.mp hprefix with rfl | hprefix
      · obtain ⟨ids, hids, hkey⟩ := hall stmts (List.prefix_refl _)
        exact storageInserts_primaryKey_concat hstrings.1 hstrings.2 hids hkey
          fun haccepts => hlast haccepts ids hids
      · exact hall before hprefix
  · rintro hall before stmt hlonger haccepts ids hids hid ⟨id, hmem, -, hint, hvalue, hsame⟩
    have hbefore : ∀ stmt ∈ before, stmt.Strings := fun stmt hstmt =>
      hstrings stmt (hlonger.subset (List.mem_append_left _ hstmt))
    have hlast : stmt.Strings :=
      hstrings stmt (hlonger.subset (List.mem_append_right _ (List.mem_singleton_self stmt)))
    obtain ⟨ids', hfile⟩ := storageInserts_keyedFile tableName hbefore
    obtain rfl := hids.unique hfile.fileIds
    obtain ⟨key, hkeyed, hof⟩ := hfile.accepted hlast haccepts
    obtain ⟨rfl, -⟩ := hof.explicit hid
    obtain ⟨after, hafter, hkey⟩ := hall _ hlonger
    rw [storageInserts_concat, Stored.insert_file] at hafter
    obtain rfl := hafter.unique hkeyed.fileIds
    have hapart := (List.pairwise_append.mp hkey.apart).2.2 id hmem _ (List.mem_singleton_self _)
    exact hapart (utilsCompareValues_eq_zero.mpr (.inr ⟨hint, hvalue, hsame⟩))

/-- A run of an automatic and an explicit id. -/
theorem storageInserts_primaryKey_users :
    KeyedUniquely (bytes "users") [insertName "Kim", insertId "7"] := by
  have hname : (insertName "Kim").Strings := ⟨by decide, by decide⟩
  have hid : (insertId "7").Strings := ⟨by decide, by decide⟩
  have hstrings : ∀ stmt ∈ [insertName "Kim", insertId "7"], InsertStatement.Strings stmt :=
    List.forall_mem_cons.mpr ⟨hname, List.forall_mem_singleton.mpr hid⟩
  refine (storageInserts_primaryKey hstrings).1 ?_ _ (List.prefix_refl _)
  refine everyAccepted_concat.mpr ⟨everyAccepted_concat.mpr ⟨everyAccepted_nil _ _, ?_⟩, ?_⟩
  · intro _ ids hids
    obtain rfl := hids.unique (.inl ⟨rfl, rfl⟩)
    exact ⟨fun hnot => absurd hnot (by decide), fun _ => nofun⟩
  · intro _ ids hids
    have hfile : (storageInserts (bytes "users") [insertName "Kim"]).file = some usersFile := by
      decide +kernel
    have hone : (insertId "1").Strings := ⟨by decide, by decide⟩
    have hkeys : FileIds (some usersFile) [bytes "1"] :=
      .inr ⟨(insertId "1").newTable (by decide) hone, rfl, rfl⟩
    rw [show [] ++ [insertName "Kim"] = [insertName "Kim"] from rfl, hfile] at hids
    obtain rfl := hids.unique hkeys
    refine ⟨?_, fun hnot => absurd (by decide) hnot⟩
    rintro - ⟨id, hmem, -, -, -, hvalue⟩
    rw [List.mem_singleton.mp hmem] at hvalue
    revert hvalue
    decide

/-- The ids 1 and 01 are two texts. -/
theorem storageInserts_primaryKey_respelled :
    ¬ ∀ tableName stmts, (∀ stmt ∈ stmts, InsertStatement.Strings stmt) →
      KeyedUniquely tableName stmts := by
  intro hunique
  have hone : (insertId "1").Strings := ⟨by decide, by decide⟩
  have hother : (insertId "01").Strings := ⟨by decide, by decide⟩
  obtain ⟨ids, hids, hkey⟩ := hunique (bytes "users") [insertId "1", insertId "01"]
    (List.forall_mem_cons.mpr ⟨hone, List.forall_mem_singleton.mpr hother⟩)
  have hfile : (storageInserts (bytes "users") [insertId "1", insertId "01"]).file =
      some (bytes "id,name\n1,Kim\n01,Kim\n") := by
    decide +kernel
  have hkeys : FileIds (some (bytes "id,name\n1,Kim\n01,Kim\n")) [bytes "1", bytes "01"] :=
    .inr ⟨((insertId "1").newTable (by decide) hone).append [bytes "01", bytes "Kim"] rfl
      (by decide), rfl, rfl⟩
  rw [hfile] at hids
  obtain rfl := hids.unique hkeys
  have hapart := (List.pairwise_cons.mp hkey.apart).1 (bytes "01") List.mem_cons_self
  revert hapart
  decide +kernel

end JungleDb
