import Mathlib.Data.List.ReduceOption
import JungleDb.Engine.Database

/-!
# Which SELECTs are answered, and how

The reply of a relation is a success exactly when the columns exist and the integers that the WHERE
clause compares can be compared, and then it is the filtered and projected rows. Every registry that
the engine reaches replies so, table by table.
-/

namespace JungleDb

open CArray CString

/-! ## The reply of a relation -/

theorem Relation.resolve_eq (R : Relation) : ∀ names : List Identifier,
    match names.mapM fun name => R.columnIndex name.text with
    | some indices => R.resolve names = (indices, none)
    | none => ∃ name, (R.resolve names).2 = some name
  | [] => rfl
  | name :: names => by
    have ih := R.resolve_eq names
    rw [List.mapM_cons, Relation.resolve]
    cases hcol : R.columnIndex name.text with
    | none => exact ⟨name, rfl⟩
    | some i =>
      cases hrest : names.mapM fun name => R.columnIndex name.text with
      | none =>
        rw [hrest] at ih
        exact ih
      | some indices =>
        rw [hrest] at ih
        simp only [Option.bind_eq_bind, Option.bind_some, Option.pure_def, ih]

/-- The requested columns are the projection, where there is one. -/
theorem Relation.requested_eq (R : Relation) (stmt : SelectStatement) :
    match R.projection stmt with
    | some indices => R.requested stmt = (indices, none)
    | none => ∃ name, (R.requested stmt).2 = some name := by
  unfold Relation.projection Relation.requested
  split
  · rename_i indices h
    split at h
    · rename_i hall
      obtain rfl := Option.some.inj h
      rw [if_pos hall]
    · rename_i hall
      have := R.resolve_eq stmt.columns.1
      rw [h] at this
      rw [if_neg hall]
      exact this
  · rename_i h
    split at h
    · cases h
    · rename_i hall
      have := R.resolve_eq stmt.columns.1
      rw [h] at this
      rw [if_neg hall]
      exact this

theorem mapM_isSome {α β : Type} {f : α → Option β} : ∀ {as : List α},
    (as.mapM f).isSome = true ↔ ∀ a ∈ as, (f a).isSome = true
  | [] => by simp
  | a :: as => by
    rw [List.mapM_cons, List.forall_mem_cons, ← mapM_isSome]
    cases f a with
    | none => simp
    | some b => cases as.mapM f <;> simp

theorem Relation.projection_isSome {R : Relation} {stmt : SelectStatement} :
    (R.projection stmt).isSome = true ↔
      ∀ name ∈ stmt.columns.1, (R.columnIndex name.text).isSome = true := by
  unfold Relation.projection
  split
  · rename_i hall
    simp [hall]
  · exact mapM_isSome

theorem Relation.whereError_eq_none {R : Relation} {clause : Option WhereClause} :
    R.whereError clause = none ↔
      ∀ c ∈ clause, ∃ i, R.columnIndex c.column.text = some i ∧ R.Comparable c i := by
  unfold Relation.whereError
  cases clause with
  | none => simp
  | some c =>
    simp only [Option.mem_def, Option.some.injEq, forall_eq']
    cases hcol : R.columnIndex c.column.text with
    | none => simp
    | some i => simp

/-- The reply is a success exactly for the statements that can be answered. -/
theorem Relation.reply_success {R : Relation} {stmt : SelectStatement} :
    (R.reply stmt).1 = .success ↔ R.Selectable stmt := by
  have hreq := R.requested_eq stmt
  unfold Relation.Selectable
  rw [← Relation.projection_isSome, ← Relation.whereError_eq_none]
  unfold Relation.reply
  cases hproj : R.projection stmt with
  | none =>
    rw [hproj] at hreq
    obtain ⟨name, hname⟩ := hreq
    simp [hname, executorFail]
  | some indices =>
    rw [hproj] at hreq
    simp only [hreq, Option.isSome_some, true_and]
    cases R.whereError stmt.where with
    | none => simp
    | some e => simp [executorFail]

/-- A success carries the names of the columns and the projected rows that satisfy the clause. -/
theorem Relation.reply_of_selectable {R : Relation} {stmt : SelectStatement}
    (h : R.Selectable stmt) : ∃ indices, R.projection stmt = some indices ∧
      R.reply stmt = (.success, { queryResultInit with
        success := true, kind := .table, columns := R.names indices, columnCount := indices.length
        rows := (R.filtered stmt.where).map (projectRow indices) }) := by
  obtain ⟨indices, hproj⟩ := Option.isSome_iff_exists.mp (Relation.projection_isSome.mpr h.1)
  have hreq := R.requested_eq stmt
  rw [hproj] at hreq
  refine ⟨indices, hproj, ?_⟩
  unfold Relation.reply
  simp only [hreq, Relation.whereError_eq_none.mpr h.2]

/-! ## The tables of the registry -/

/-- The columns that the fields of a table give. -/
def TableRuntime.header (t : TableRuntime) : List Column :=
  (List.range t.colCount).map fun i => ⟨rd t.columns i, rd t.columnValueKinds i⟩

/-- The rows in the first `row_count` slots. -/
def TableRuntime.stored (t : TableRuntime) : List Row := (t.rows.take t.rowCount).reduceOption

/-- The table is loaded and has the columns and rows of the relation. -/
structure TableRuntime.Shows (t : TableRuntime) (R : Relation) : Prop where
  loaded : t.loaded = true
  header : t.header = R.header
  stored : t.stored = R.rows

theorem reduceOption_map_some {α : Type} (l : List α) : (l.map some).reduceOption = l := by
  induction l with
  | nil => rfl
  | cons a l ih => rw [List.map_cons, List.reduceOption_cons_of_some, ih]

theorem Represents.shows {t : TableRuntime} {R : Relation} (h : Represents t (some R)) :
    t.Shows R := by
  obtain ⟨hs, hr⟩ := h
  refine ⟨hs.loaded, ?_, ?_⟩
  · refine List.ext_getElem? fun i => ?_
    rw [TableRuntime.header, List.getElem?_map, hs.colCount]
    by_cases hi : i < R.header.length
    · have hc := List.getElem?_eq_getElem hi
      obtain ⟨hname, hkind⟩ := hs.column i _ hc
      rw [List.getElem?_range hi, Option.map_some, hname, hkind, hc]
    · rw [List.getElem?_eq_none (by simpa using hi), List.getElem?_eq_none (by omega)]
      rfl
  · have htake : t.rows.take t.rowCount = R.rows.map some := by
      refine List.ext_getElem? fun i => ?_
      rw [List.getElem?_take, List.getElem?_map]
      split
      · rename_i hi
        have hlt : i < R.rows.length := by rw [← hr.rowCount]; exact hi
        rw [hr.slot i hi, List.getElem?_eq_getElem hlt]
        rfl
      · rename_i hi
        rw [List.getElem?_eq_none (by rw [← hr.rowCount]; omega)]
        rfl
    rw [TableRuntime.stored, htake, reduceOption_map_some]

theorem Relation.tuples_eq (R : Relation) : R.tuples = R.rows.map List.tail := by
  refine List.ext_getElem? fun i => ?_
  rw [List.getElem?_map, Relation.getElem?_rows]
  cases R.tuples[i]? <;> rfl

/-- A table shows one relation. -/
theorem TableRuntime.Shows.unique {t : TableRuntime} {R R' : Relation} (h : t.Shows R)
    (h' : t.Shows R') : R = R' := by
  have hheader : R.header = R'.header := h.header.symm.trans h'.header
  have hrows : R.rows = R'.rows := h.stored.symm.trans h'.stored
  refine Relation.ext (List.cons.inj hheader).2 ?_
  rw [R.tuples_eq, R'.tuples_eq, hrows]

/-- The relation of a loaded entry is the one of its name. -/
theorem HoldsDb.shows {registry : Registry} {db : Database} (h : HoldsDb registry db)
    {t : TableRuntime} (ht : t ∈ registry) (hload : t.loaded = true) :
    ∃ R, db (nameKey t.tableName.text) = some R ∧ t.Shows R := by
  have hrep := h.entry t ht
  cases hR : db (nameKey t.tableName.text) with
  | none =>
    rw [hR] at hrep
    rw [hrep.1] at hload
    cases hload
  | some R =>
    rw [hR] at hrep
    exact ⟨R, rfl, hrep.shows⟩

theorem HoldsDb.entry_of_some {registry : Registry} {db : Database} (h : HoldsDb registry db)
    {k : Bytes} {R : Relation} (hR : db k = some R) :
    ∃ t ∈ registry, nameKey t.tableName.text = k ∧ t.Shows R := by
  by_contra hnone
  have habsent : db k = none := h.absent k fun t ht hk => hnone ⟨t, ht, hk, by
    have hrep := h.entry t ht
    rw [hk, hR] at hrep
    exact hrep.shows⟩
  rw [hR] at habsent
  cases habsent

/-- A name of an entry is not empty. -/
theorem HoldsDb.name_ne_nil {registry : Registry} {db : Database} (h : HoldsDb registry db)
    {t : TableRuntime} (ht : t ∈ registry) {name : Bytes} (hname : SameName t.tableName.text name) :
    name ≠ [] := by
  rintro rfl
  exact h.named t ht (List.map_eq_nil_iff.mp hname)

/-- A SELECT is answered by the relation that the table of its name shows. -/
theorem HoldsDb.select_shown {registry : Registry} {db : Database} (h : HoldsDb registry db)
    {t : TableRuntime} (ht : t ∈ registry) {R : Relation} (hR : t.Shows R) {stmt : SelectStatement}
    (hname : SameName t.tableName.text stmt.tableName.text) : db.select stmt = R.reply stmt := by
  obtain ⟨R', hdb, hR'⟩ := h.shows ht hR.loaded
  rw [Database.select, if_neg (h.name_ne_nil ht hname), ← sameName_iff.mp hname, hdb,
    hR.unique hR']

/-- A SELECT in any registry that the engine reaches, whatever its statement: it leaves the registry
as it is; it succeeds exactly when a loaded table has the name and shows a relation that can be
asked the statement; and then the result is the answer of that relation. -/
theorem executorExecute_select {registry : Registry} (hreach : EngineReachable registry)
    (stmt : SelectStatement) :
    ∃ status result, executorExecute registry (.select stmt) = some ((status, result), registry) ∧
      (∀ t ∈ registry, t.loaded = true → ∃ R, t.Shows R) ∧
      (status = .success ↔ ∃ t ∈ registry, ∃ R, t.Shows R ∧
        SameName t.tableName.text stmt.tableName.text ∧ R.Selectable stmt) ∧
      ∀ t ∈ registry, ∀ R, t.Shows R → SameName t.tableName.text stmt.tableName.text →
        status = .success → ∃ indices, R.projection stmt = some indices ∧
          result.kind = .table ∧ result.columns = R.names indices ∧
          result.columnCount = indices.length ∧
          result.rows = (R.filtered stmt.where).map (projectRow indices) := by
  obtain ⟨db, h⟩ := hreach.holds
  rcases hselect : db.select stmt with ⟨status, result⟩
  have hrun := h.execSelect stmt
  rw [hselect] at hrun
  refine ⟨status, result, hrun, fun t ht hload => ?_, ⟨?_, ?_⟩, ?_⟩
  · obtain ⟨R, -, hR⟩ := h.shows ht hload
    exact ⟨R, hR⟩
  · rintro rfl
    cases hdb : (if stmt.tableName.text = [] then none else db (nameKey stmt.tableName.text)) with
    | none =>
      rw [Database.select, hdb] at hselect
      cases hselect
    | some R =>
      rw [Database.select, hdb] at hselect
      have hsucc : (R.reply stmt).1 = .success := congrArg Prod.fst hselect
      split at hdb
      · cases hdb
      · obtain ⟨t, ht, hkey, hR⟩ := h.entry_of_some hdb
        exact ⟨t, ht, R, hR, sameName_iff.mpr hkey, Relation.reply_success.mp hsucc⟩
  · rintro ⟨t, ht, R, hR, hsame, hsel⟩
    have hsucc := Relation.reply_success.mpr hsel
    rwa [← h.select_shown ht hR hsame, hselect] at hsucc
  · rintro t ht R hR hsame rfl
    rw [h.select_shown ht hR hsame] at hselect
    have hsel := Relation.reply_success.mp (congrArg Prod.fst hselect)
    obtain ⟨indices, hproj, hres⟩ := Relation.reply_of_selectable hsel
    rw [hres] at hselect
    obtain rfl := (Prod.mk.inj hselect).2
    exact ⟨indices, hproj, rfl, rfl, rfl, rfl⟩

/-- A first INSERT. -/
def insertFive : Bytes := bytes "INSERT INTO t (a) VALUES (5)"

/-- The registry after it answers `SELECT ID FROM T WHERE A > 4`. -/
theorem executorExecute_select_insertFive :
    let stmt : SelectStatement := ⟨lit _ "T", ⟨[lit _ "ID"], by decide⟩,
      some ⟨lit _ "A", lit _ ">", lit _ "4", .int⟩⟩
    ∃ registry, registry ≠ [] ∧ ∃ status result,
      executorExecute registry (.select stmt) = some ((status, result), registry) ∧
      (∀ t ∈ registry, t.loaded = true → ∃ R, t.Shows R) ∧
      (status = .success ↔ ∃ t ∈ registry, ∃ R, t.Shows R ∧
        SameName t.tableName.text stmt.tableName.text ∧ R.Selectable stmt) ∧
      ∀ t ∈ registry, ∀ R, t.Shows R → SameName t.tableName.text stmt.tableName.text →
        status = .success → ∃ indices, R.projection stmt = some indices ∧
          result.kind = .table ∧ result.columns = R.names indices ∧
          result.columnCount = indices.length ∧
          result.rows = (R.filtered stmt.where).map (projectRow indices) := by
  have hlen : (engineExecuteSql [] insertFive).map (fun r => r.2.length) = some 1 := by
    decide +kernel
  intro stmt
  cases h : engineExecuteSql [] insertFive with
  | none =>
    rw [h] at hlen
    cases hlen
  | some r =>
    rw [h] at hlen
    refine ⟨r.2, fun hnil => ?_, executorExecute_select (.step .start h) stmt⟩
    rw [Option.map_some, hnil] at hlen
    cases hlen

end JungleDb
