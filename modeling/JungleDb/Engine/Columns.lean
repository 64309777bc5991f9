import JungleDb.Engine.Answer

/-!
# Columns and their names

A name stands for the first column that has it. The columns of a table are those of the first INSERT
that can make the table, and nothing compares the names of an INSERT with each other; so every
column is reached by its name exactly when that INSERT names no column twice.
-/

namespace JungleDb

open CString

/-! ## The columns of a relation -/

/-- No two columns have the same name, ignoring case. -/
def Relation.NamesDistinct (R : Relation) : Prop :=
  (R.header.map fun c => nameKey c.name.text).Nodup

instance (R : Relation) : Decidable R.NamesDistinct := inferInstanceAs (Decidable (List.Nodup _))

/-- Where the names are distinct, a name finds its own column. -/
theorem Relation.NamesDistinct.columnIndex_eq {R : Relation} (h : R.NamesDistinct) {i : Nat}
    {c : Column} (hc : R.header[i]? = some c) {name : Bytes} (hname : SameName name c.name.text) :
    R.columnIndex name = some i := by
  obtain ⟨hi, hget⟩ := List.getElem?_eq_some_iff.mp hc
  apply List.findIdx?_eq_some_iff_getElem.mpr
  refine ⟨hi, ?_, ?_⟩
  · rw [hget]
    exact decide_eq_true hname.symm
  · intro j hj hsame
    have hsame' : nameKey R.header[j].name.text = nameKey name := of_decide_eq_true hsame
    have hlen : (R.header.map fun c => nameKey c.name.text).length = R.header.length :=
      List.length_map _
    have hi' : i < (R.header.map fun c => nameKey c.name.text).length := by omega
    have hj' : j < (R.header.map fun c => nameKey c.name.text).length := by omega
    have heq : (R.header.map fun c => nameKey c.name.text)[j] =
        (R.header.map fun c => nameKey c.name.text)[i] := by
      rw [List.getElem_map, List.getElem_map, hget, hsame']
      exact hname
    have hij := (List.Nodup.getElem_inj_iff h).mp heq
    omega

theorem Relation.column_eq {R : Relation} {i : Nat} {c : Column} (hc : R.header[i]? = some c) :
    R.column i = c := by
  rw [Relation.column, hc]
  rfl

/-- A relation made by an INSERT without an `id` has distinct names where the INSERT has. -/
theorem Relation.namesDistinct_iff {R : Relation} {items : List InsertItem}
    (hcolumns : R.columns = items.map InsertItem.toColumn)
    (hid : ∀ item ∈ items, ¬ SameName item.column.text idName.text) :
    R.NamesDistinct ↔ (items.map fun item => nameKey item.column.text).Nodup := by
  have hnames : R.header.map (fun c => nameKey c.name.text) =
      nameKey idName.text :: items.map fun item => nameKey item.column.text := by
    rw [Relation.header, hcolumns, List.map_cons, List.map_map]
    rfl
  rw [Relation.NamesDistinct, hnames, List.nodup_cons]
  apply and_iff_right
  intro hmem
  obtain ⟨item, hitem, hkey⟩ := List.mem_map.mp hmem
  exact hid item hitem hkey

/-! ## Columns that are reached by their names -/

/-- The SELECT of one column. -/
def selectColumn (table column : Identifier) : SelectStatement :=
  ⟨table, ⟨[column], Nat.le_of_ble_eq_true rfl⟩, none⟩

/-- The columns of a table have distinct names; the SELECT of a column by its name gives its cells;
a WHERE on its name tests them. -/
structure ColumnsReachable (registry : Registry) (table : Identifier) (R : Relation) : Prop where
  distinct : R.NamesDistinct
  selected : ∀ {i : Nat} {c : Column}, R.header[i]? = some c → ∀ {name column : Identifier},
    SameName name.text table.text → SameName column.text c.name.text →
    ∃ result, executorExecute registry (.select (selectColumn name column)) =
        some ((.success, result), registry) ∧
      result.rows = R.rows.map fun row => [cellAt row i]
  tested : ∀ {i : Nat} {c : Column}, R.header[i]? = some c → ∀ {stmt : SelectStatement}
    {clause : WhereClause}, SameName stmt.tableName.text table.text → stmt.where = some clause →
    SameName clause.column.text c.name.text →
    ∃ status result, executorExecute registry (.select stmt) =
        some ((status, result), registry) ∧
      (status = .success ↔ (∀ name ∈ stmt.columns.1, (R.columnIndex name.text).isSome) ∧
        R.Comparable clause i) ∧
      (status = .success → ∃ indices, R.projection stmt = some indices ∧
        result.rows = (R.rows.filter fun row => clause.holds c.kind (cellAt row i)).map
          (projectRow indices))

theorem HoldsDb.execute_shown {registry : Registry} {db : Database} (h : HoldsDb registry db)
    {t : TableRuntime} (ht : t ∈ registry) {R : Relation} (hR : t.Shows R) {stmt : SelectStatement}
    (hname : SameName stmt.tableName.text t.tableName.text) :
    executorExecute registry (.select stmt) = some (R.reply stmt, registry) := by
  rw [← h.select_shown ht hR hname.symm]
  exact h.execSelect stmt

theorem Relation.NamesDistinct.selected {R : Relation} (h : R.NamesDistinct) {i : Nat} {c : Column}
    (hc : R.header[i]? = some c) (name : Identifier) {column : Identifier}
    (hcolumn : SameName column.text c.name.text) :
    ∃ result, R.reply (selectColumn name column) = (.success, result) ∧
      result.rows = R.rows.map fun row => [cellAt row i] := by
  have hindex := h.columnIndex_eq hc hcolumn
  have hsel : R.Selectable (selectColumn name column) := by
    refine ⟨fun n hn => ?_, nofun⟩
    rw [List.mem_singleton.mp hn, hindex]
    rfl
  have hone : R.projection (selectColumn name column) = some [i] := by
    show (if [column] = [] then _ else [column].mapM _) = _
    rw [if_neg (List.cons_ne_nil _ _), List.mapM_cons, hindex]
    rfl
  obtain ⟨indices, hproj, hreply⟩ := Relation.reply_of_selectable hsel
  rw [hone] at hproj
  obtain rfl := Option.some.inj hproj
  exact ⟨_, hreply, rfl⟩

theorem Relation.NamesDistinct.tested {R : Relation} (h : R.NamesDistinct) {i : Nat} {c : Column}
    (hc : R.header[i]? = some c) {stmt : SelectStatement} {clause : WhereClause}
    (hwhere : stmt.where = some clause) (hcolumn : SameName clause.column.text c.name.text) :
    ((R.reply stmt).1 = .success ↔
      (∀ name ∈ stmt.columns.1, (R.columnIndex name.text).isSome) ∧ R.Comparable clause i) ∧
    ((R.reply stmt).1 = .success → ∃ indices, R.projection stmt = some indices ∧
      (R.reply stmt).2.rows = (R.rows.filter fun row => clause.holds c.kind (cellAt row i)).map
        (projectRow indices)) := by
  have hindex := h.columnIndex_eq hc hcolumn
  constructor
  · rw [Relation.reply_success, Relation.Selectable, hwhere]
    simp only [Option.mem_def, Option.some.injEq, forall_eq', hindex, exists_eq_left']
  · intro hsucc
    have hsel := Relation.reply_success.mp hsucc
    obtain ⟨indices, hproj, hreply⟩ := Relation.reply_of_selectable hsel
    refine ⟨indices, hproj, ?_⟩
    rw [hreply]
    simp only [hwhere, Relation.filtered, hindex, Relation.column_eq hc]

/-- The columns are reached by their names exactly when the names are distinct. -/
theorem HoldsDb.columnsReachable {registry : Registry} {db : Database} (h : HoldsDb registry db)
    {t : TableRuntime} (ht : t ∈ registry) {R : Relation} (hR : t.Shows R) :
    ColumnsReachable registry t.tableName R ↔ R.NamesDistinct := by
  refine ⟨ColumnsReachable.distinct, fun hdistinct => ⟨hdistinct, ?_, ?_⟩⟩
  · intro i c hc name column hname hcolumn
    obtain ⟨result, hreply, hrows⟩ := hdistinct.selected hc name hcolumn
    refine ⟨result, ?_, hrows⟩
    rw [h.execute_shown ht hR hname, hreply]
  · intro i c hc stmt clause hname hwhere hcolumn
    obtain ⟨hsucc, hrows⟩ := hdistinct.tested hc hwhere hcolumn
    exact ⟨_, _, h.execute_shown ht hR hname, hsucc, hrows⟩

/-! ## The INSERT that makes a table -/

/-- An INSERT that can be the first of its table. -/
def InsertStatement.opens (stmt : InsertStatement) : Bool :=
  !executorInsertMentionsId stmt && (0 < stmt.items.1.length && stmt.items.1.length < MAX_COLUMNS)

/-- The text as an INSERT that can be the first of the table with this name, in upper case. -/
def opening (k : Bytes) (sql : Bytes) : Option InsertStatement :=
  match parsedStatement sql with
  | some (.insert stmt) =>
    if nameKey stmt.tableName.text = k ∧ stmt.opens = true then some stmt else none
  | _ => none

/-- The columns that it makes. -/
def InsertStatement.columns (stmt : InsertStatement) : List Column :=
  stmt.items.1.map InsertItem.toColumn

theorem not_sameName_of_mentionsId {stmt : InsertStatement}
    (h : executorInsertMentionsId stmt = false) :
    ∀ item ∈ stmt.items.1, ¬ SameName item.column.text idName.text := by
  intro item hitem hsame
  have hnot := List.any_eq_false.mp h item hitem
  rw [utilsEqualsIgnoreCase_eq] at hnot
  exact hnot (decide_eq_true hsame)

/-- The columns after an INSERT into a table: those that are there, or those of the INSERT. -/
theorem insertInto_columns {stmt : InsertStatement} (hid : executorInsertMentionsId stmt = false)
    (table : Option Relation) :
    match insertInto table stmt.items.1 with
    | .error _ => (table.map Relation.columns).or (if stmt.opens then some stmt.columns else none) =
        table.map Relation.columns
    | .ok R => (table.map Relation.columns).or (if stmt.opens then some stmt.columns else none) =
        some R.columns := by
  cases table with
  | some R₀ =>
    cases hR : insertInto (some R₀) stmt.items.1 with
    | error e => rfl
    | ok R =>
      obtain ⟨hcolumns, -⟩ := Relation.insert_ok hR
      show some R₀.columns = some R.columns
      rw [hcolumns]
  | none =>
    cases hR : insertInto none stmt.items.1 with
    | error e =>
      have hclosed : stmt.opens = false := by
        rw [InsertStatement.opens, hid, Bool.not_false, Bool.true_and]
        by_contra hopen
        rw [Bool.not_eq_false, Bool.and_eq_true, decide_eq_true_eq, decide_eq_true_eq] at hopen
        obtain ⟨R, hcreate⟩ := @Relation.create_eq_ok stmt.items.1
          (by
            rintro (hnil | hmany)
            · rw [hnil] at hopen
              exact Nat.lt_irrefl 0 hopen.1
            · exact Nat.not_lt.mpr hmany hopen.2)
          (by
            rintro ⟨item, hitem, hsame⟩
            exact not_sameName_of_mentionsId hid item hitem hsame)
        have hsome : insertInto none stmt.items.1 = .ok R := hcreate
        rw [hR] at hsome
        cases hsome
      show (none : Option (List Column)).or (if stmt.opens then some stmt.columns else none) = none
      rw [hclosed]
      rfl
    | ok R =>
      obtain ⟨hcolumns, -, hne, hlt, -⟩ := Relation.create_ok hR
      have hopen : stmt.opens = true := by
        rw [InsertStatement.opens, hid, decide_eq_true (List.length_pos_of_ne_nil hne),
          decide_eq_true hlt]
        rfl
      show (none : Option (List Column)).or (if stmt.opens then some stmt.columns else none) =
        some R.columns
      rw [hopen, hcolumns]
      rfl

/-- An INSERT keeps the columns of the tables that are there, and can make a table. -/
theorem Database.insert_columns {db : Database} {stmt : InsertStatement} {k : Bytes}
    (hk : k ≠ []) :
    ((db.insert stmt).2 k).map Relation.columns = ((db k).map Relation.columns).or
      (if nameKey stmt.tableName.text = k ∧ stmt.opens = true then some stmt.columns else none) := by
  unfold Database.insert
  simp only
  by_cases hkey : nameKey stmt.tableName.text = k
  · subst hkey
    have hname : stmt.tableName.text ≠ [] := fun hnil => hk (by rw [hnil]; rfl)
    simp only [true_and, if_neg hname]
    cases hid : executorInsertMentionsId stmt with
    | true =>
      have hclosed : stmt.opens = false := by rw [InsertStatement.opens, hid]; rfl
      rw [if_pos rfl, hclosed, if_neg Bool.false_ne_true, Option.or_none]
    | false =>
      have hcolumns := insertInto_columns hid (db (nameKey stmt.tableName.text))
      rw [if_neg Bool.false_ne_true]
      cases hR : insertInto (db (nameKey stmt.tableName.text)) stmt.items.1 with
      | error e =>
        rw [hR] at hcolumns
        exact hcolumns.symm
      | ok R =>
        rw [hR] at hcolumns
        rw [hcolumns]
        show (Function.update db _ (some R) _).map Relation.columns = _
        rw [Function.update_self]
        rfl
  · simp only [hkey, false_and, if_false, Option.or_none]
    split
    · rfl
    split
    · rfl
    split
    · rfl
    · rename_i R _
      show (Function.update db (nameKey stmt.tableName.text) (some R) k).map _ = _
      rw [Function.update_of_ne (Ne.symm hkey)]

/-- One text. -/
theorem Database.execSql_columns {k : Bytes} (hk : k ≠ []) (db : Database) (sql : Bytes) :
    ((db.execSql sql).2 k).map Relation.columns =
      ((db k).map Relation.columns).or ((opening k sql).map InsertStatement.columns) := by
  unfold opening
  cases hparse : parsedStatement sql with
  | none =>
    obtain ⟨error, -, hexec⟩ := Database.execSql_unparsed hparse
    rw [hexec]
    exact Option.or_none.symm
  | some statement =>
    rw [Database.execSql_parsed hparse]
    cases statement with
    | insert stmt =>
      rw [Database.exec, Database.insert_columns hk]
      simp only
      split <;> rfl
    | select _ => exact Option.or_none.symm
    | delete _ => exact Option.or_none.symm

/-- A run of texts: a table that is made has the columns of the first INSERT that can make it. -/
theorem Database.run_columns {k : Bytes} (hk : k ≠ []) (sqls : List Bytes) (db : Database) :
    ((Machine.specRun Database.execSql db sqls).2 k).map Relation.columns =
      ((db k).map Relation.columns).or
        ((sqls.findSome? (opening k)).map InsertStatement.columns) := by
  induction sqls generalizing db with
  | nil => exact Option.or_none.symm
  | cons sql sqls ih =>
    rw [Machine.specRun, ih, Database.execSql_columns hk, List.findSome?_cons, Option.or_assoc]
    cases opening k sql <;> rfl

theorem opening_mentionsId {k sql : Bytes} {stmt : InsertStatement}
    (h : opening k sql = some stmt) : executorInsertMentionsId stmt = false := by
  unfold opening at h
  split at h
  · split at h
    · rename_i hopen
      obtain rfl := Option.some.inj h
      have hboth := (Bool.and_eq_true _ _).mp hopen.2
      exact Bool.not_eq_true' _ |>.mp hboth.1
    · cases h
  · cases h

/-- SQL texts are run from the empty registry. In every table the column names are distinct ignoring
case, the SELECT of a column by its name gives the cells of that column and a WHERE on its name
tests them, exactly when the first INSERT of the run that can make the table names no column twice. -/
theorem engine_columnsReachable (sqls : List Bytes) :
    ∃ replies registry, Machine.run engineExecuteSql [] sqls = some (replies, registry) ∧
      ∀ t ∈ registry, t.loaded = true → ∃ R stmt, t.Shows R ∧
        sqls.findSome? (opening (nameKey t.tableName.text)) = some stmt ∧
        (ColumnsReachable registry t.tableName R ↔
          (stmt.items.1.map fun item => nameKey item.column.text).Nodup) := by
  obtain ⟨registry, hrun, hdb⟩ := engine_simulates.run holds_empty sqls
  refine ⟨_, registry, hrun, ?_⟩
  intro t ht hloaded
  obtain ⟨R, hR, hshows⟩ := hdb.shows ht hloaded
  have hk : nameKey t.tableName.text ≠ [] := fun hnil =>
    hdb.named t ht (List.map_eq_nil_iff.mp hnil)
  have hcolumns := Database.run_columns hk sqls .empty
  rw [hR] at hcolumns
  cases hfirst : sqls.findSome? (opening (nameKey t.tableName.text)) with
  | none =>
    rw [hfirst] at hcolumns
    cases hcolumns
  | some stmt =>
    rw [hfirst] at hcolumns
    obtain ⟨sql, -, hopening⟩ := List.exists_of_findSome?_eq_some hfirst
    refine ⟨R, stmt, hshows, rfl, ?_⟩
    rw [hdb.columnsReachable ht hshows]
    exact Relation.namesDistinct_iff (Option.some.inj hcolumns)
      (not_sameName_of_mentionsId (opening_mentionsId hopening))

/-- A first INSERT that names a column twice. -/
def insertTwice : Bytes := bytes "INSERT INTO t (a, a) VALUES (1, 2)"

set_option synthInstance.maxSize 2048 in
/-- It is accepted, and its table has two columns of one name: a SELECT gives the first for both. -/
theorem engine_columnsReachable_twice : ∃ replies registry,
    Machine.run engineExecuteSql [] [insertTwice, bytes "SELECT a, A FROM t"] =
      some (replies, registry) ∧
    replies.map (fun reply => (reply.1, reply.2.rows)) =
      [(.success, []), (.success, [[bytes "1", bytes "1"]])] ∧
    ∃ t ∈ registry, t.loaded = true ∧ t.stored = [[bytes "1", bytes "1", bytes "2"]] ∧
      ∀ R, t.Shows R → ¬ ColumnsReachable registry t.tableName R := by
  have hrows : (Machine.run engineExecuteSql [] [insertTwice, bytes "SELECT a, A FROM t"]).map
      (fun r => (r.1.map fun reply => (reply.1, reply.2.rows), r.2.map fun t =>
        (t.loaded, t.stored, decide (t.header.map fun c => nameKey c.name.text).Nodup))) =
      some ([(.success, []), (.success, [[bytes "1", bytes "1"]])],
        [(true, [[bytes "1", bytes "1", bytes "2"]], false)]) := by
    decide +kernel
  cases hrun : Machine.run engineExecuteSql [] [insertTwice, bytes "SELECT a, A FROM t"] with
  | none =>
    rw [hrun] at hrows
    cases hrows
  | some r =>
    obtain ⟨replies, registry⟩ := r
    rw [hrun, Option.map_some, Option.some.injEq, Prod.mk.injEq] at hrows
    obtain ⟨hreplies, hregistry⟩ := hrows
    obtain ⟨t, rfl, ht⟩ := List.map_eq_singleton_iff.mp hregistry
    simp only [Prod.mk.injEq] at ht
    obtain ⟨hloaded, hstored, hnames⟩ := ht
    refine ⟨replies, [t], rfl, hreplies, t, List.mem_singleton_self t, hloaded, hstored, ?_⟩
    intro R hR hreach
    have hdistinct : (R.header.map fun c => nameKey c.name.text).Nodup := hreach.distinct
    rw [← hR.header] at hdistinct
    exact of_decide_eq_false hnames hdistinct

end JungleDb
