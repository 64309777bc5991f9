import JungleDb.Engine.Built

/-!
# Integer filters after successful INSERTs

An INSERT is accepted when its literals have the kinds of the columns; the tokenizer takes any digits
for an integer. So a column of kind INT may hold an integer that no `long long` holds, and then every
filter on that column fails. It succeeds exactly when no INSERT put such an integer into the column.
-/

namespace JungleDb

open CString

/-- A registry that INSERTs lead to, all of which succeed. -/
inductive InsertRun : List Bytes → Registry → Prop
  | nil : InsertRun [] []
  | snoc {sqls : List Bytes} {registry registry' : Registry} {sql : Bytes} {stmt : InsertStatement}
    {result : QueryResult} : InsertRun sqls registry → parsedInsert sql = some stmt →
      engineExecuteSql registry sql = some ((.success, result), registry') →
        InsertRun (sqls ++ [sql]) registry'

/-- The database of a run is built from its statements. -/
theorem InsertRun.built {sqls : List Bytes} {registry : Registry} (h : InsertRun sqls registry) :
    ∃ db, HoldsDb registry db ∧ BuiltByInserts db (sqls.filterMap parsedInsert) := by
  induction h with
  | nil => exact ⟨.empty, holds_empty, builtByInserts_empty⟩
  | @snoc sqls registry registry' sql stmt result _ hparse hrun ih =>
    obtain ⟨db, hdb, hb⟩ := ih
    obtain ⟨registry'', hrun', hdb'⟩ := engine_simulates hdb sql
    rw [hrun, Option.some.injEq, Prod.mk.injEq] at hrun'
    obtain ⟨hreply, rfl⟩ := hrun'
    have hstep := hb.step sql
    rw [← hreply, acceptedInsert, if_pos rfl, hparse] at hstep
    rw [List.filterMap_append, List.filterMap_cons_some hparse]
    exact ⟨_, hdb', hstep⟩

/-! ## The filter -/

/-- The value that an INSERT gives to the column of a name. -/
def valueFor (stmt : InsertStatement) (name : Bytes) : Option InsertItem :=
  stmt.items.1.find? fun item => SameName item.column.text name

/-- The item for a column stands in the place of the column. -/
theorem find?_of_fits {name : Bytes} : ∀ {columns : List Column} {items : List InsertItem} {j : Nat},
    mismatch columns items = none → items.length = columns.length →
      columns.findIdx? (fun c => SameName c.name.text name) = some j →
        items.find? (fun item => SameName item.column.text name) = items[j]?
  | [], _, _, _, _, h => by cases h
  | _ :: _, [], _, _, hlen, _ => by cases hlen
  | c :: columns, item :: items, j, hmatch, hlen, h => by
    obtain ⟨hname, -⟩ := mismatch_none (j := 0) hmatch rfl rfl
    have hrest : mismatch columns items = none := by
      rw [mismatch] at hmatch
      split at hmatch
      · cases hmatch
      · split at hmatch
        · cases hmatch
        · exact hmatch
    have hiff : SameName c.name.text name ↔ SameName item.column.text name := by
      rw [sameName_iff, sameName_iff, sameName_iff.mp hname]
    rw [List.findIdx?_cons] at h
    rw [List.find?_cons]
    by_cases hsame : SameName c.name.text name
    · simp only [hsame, decide_true, if_true, Option.some.injEq] at h
      subst h
      simp [hiff.mp hsame]
    · have hsame' : ¬ SameName item.column.text name := fun h => hsame (hiff.mpr h)
      simp only [hsame, decide_false, Bool.false_eq_true, if_false, Option.map_eq_some_iff] at h
      obtain ⟨j', hj', rfl⟩ := h
      simp only [hsame', decide_false]
      rw [find?_of_fits hrest (Nat.succ.inj hlen) hj', List.getElem?_cons_succ]

/-- A SELECT whose columns exist and whose WHERE compares the INT column `i` with an integer. -/
structure IntFilter (R : Relation) (stmt : SelectStatement) (clause : WhereClause) (i : Nat) :
    Prop where
  columns : ∀ name ∈ stmt.columns.1, (R.columnIndex name.text).isSome
  condition : stmt.where = some clause
  column : R.columnIndex clause.column.text = some i
  kind : (R.column i).kind = .int
  literal : IntegerText clause.value.text

theorem IntFilter.selectable {R : Relation} {stmt : SelectStatement} {clause : WhereClause} {i : Nat}
    (h : IntFilter R stmt clause i) :
    R.Selectable stmt ↔ ∀ row ∈ R.rows, IntegerText (cellAt row i) := by
  unfold Relation.Selectable Relation.Comparable
  rw [h.condition]
  refine ⟨fun hsel => ?_, fun hrows => ⟨h.columns, ?_⟩⟩
  · obtain ⟨i', hi', hcmp⟩ := hsel.2 clause rfl
    rw [h.column] at hi'
    obtain rfl := Option.some.inj hi'
    exact (hcmp h.kind).2
  · rintro c hc
    obtain rfl := Option.some.inj hc
    exact ⟨i, h.column, fun _ => ⟨h.literal, hrows⟩⟩

/-- The cells of column `i` are integers exactly when the values given to it are in range. -/
theorem IntFilter.cells {R : Relation} {stmt : SelectStatement} {clause : WhereClause} {i : Nat}
    (h : IntFilter R stmt clause i) {stmts : List InsertStatement}
    (htuples : R.tuples = stmts.map fun s => values s.items.1)
    (hfits : ∀ s ∈ stmts, FitsColumns R.columns s.items.1)
    (hsound : ∀ s ∈ stmts, ∀ item ∈ s.items.1, item.Sound)
    (hids : ∀ s ∈ stmts, executorInsertMentionsId s = false) :
    (∀ row ∈ R.rows, IntegerText (cellAt row i)) ↔
      ∀ s ∈ stmts, ∀ item, valueFor s clause.column.text = some item →
        InLongLong (intValue item.value.text) := by
  have hcol := h.column
  rw [Relation.columnIndex, Relation.header, List.findIdx?_cons] at hcol
  by_cases hid : SameName idColumn.name.text clause.column.text
  · simp only [hid, decide_true, if_true, Option.some.injEq] at hcol
    subst hcol
    refine ⟨fun _ s hs item hitem => ?_, fun _ => ((R.comparable_id h.literal) rfl).2⟩
    have hmem := List.mem_of_find?_eq_some hitem
    have hname : SameName item.column.text clause.column.text := by
      simpa using List.find?_some hitem
    have hmentions : executorInsertMentionsId s = true := by
      rw [executorInsertMentionsId, List.any_eq_true]
      refine ⟨item, hmem, ?_⟩
      rw [utilsEqualsIgnoreCase_eq, decide_eq_true_eq]
      exact hname.trans hid.symm
    rw [hids s hs] at hmentions
    cases hmentions
  · simp only [hid, decide_false, Bool.false_eq_true, if_false, Option.map_eq_some_iff] at hcol
    obtain ⟨j, hj, rfl⟩ := hcol
    have hlt : j < R.columns.length := (List.findIdx?_eq_some_iff_getElem.mp hj).1
    have hrows : (∀ row ∈ R.rows, IntegerText (cellAt row (j + 1))) ↔
        ∀ v ∈ R.tuples, IntegerText (cellAt v j) := by
      rw [R.tuples_eq, List.forall_mem_map]
      refine forall₂_congr fun row hrow => ?_
      rw [cellAt, cellAt, List.getElem?_tail]
    rw [hrows, htuples, List.forall_mem_map]
    refine forall₂_congr fun s hs => ?_
    obtain ⟨hlen, hmatch⟩ := hfits s hs
    have hget := List.getElem?_eq_getElem (l := s.items.1) (i := j) (by omega)
    have hvalue : valueFor s clause.column.text = some s.items.1[j] := by
      rw [valueFor, find?_of_fits hmatch hlen hj, hget]
    have hcell : cellAt (values s.items.1) j = s.items.1[j].value.text := by
      rw [cellAt, values, List.getElem?_map, hget]
      rfl
    have hkind : s.items.1[j].valueKind = .int := by
      rw [← (mismatch_none hmatch (List.getElem?_eq_getElem hlt) hget).2, ← h.kind,
        Relation.column, Relation.header, List.getElem?_cons_succ, List.getElem?_eq_getElem hlt]
      rfl
    have hint := hsound s hs _ (List.getElem_mem (by omega)) hkind
    rw [hvalue, hcell]
    refine ⟨fun htext item hitem => ?_, fun hall => ⟨hint, hall _ rfl⟩⟩
    rw [← Option.some.inj hitem]
    exact htext.2

/-- On a table built by INSERTs that all succeeded, a filter of an INT column by an integer succeeds
exactly when every literal that the INSERTs gave to that column is in the range of `long long`. -/
theorem executorExecute_intFilter {sqls : List Bytes} {registry : Registry}
    (hrun : InsertRun sqls registry) {t : TableRuntime} (ht : t ∈ registry) {R : Relation}
    (hR : t.Shows R) {stmt : SelectStatement} {clause : WhereClause} {i : Nat}
    (hname : SameName t.tableName.text stmt.tableName.text) (hfilter : IntFilter R stmt clause i) :
    (∃ result, executorExecute registry (.select stmt) = some ((.success, result), registry)) ↔
      ∀ sql ∈ sqls, ∀ insert, parsedInsert sql = some insert →
        SameName insert.tableName.text stmt.tableName.text →
          ∀ item, valueFor insert clause.column.text = some item →
            InLongLong (intValue item.value.text) := by
  obtain ⟨db, hdb, hb, -, hids⟩ := hrun.built
  obtain ⟨R', hR', hshows⟩ := hdb.shows ht hR.loaded
  obtain rfl := hR.unique hshows
  obtain ⟨htuples, hfits⟩ := hb _ R hR'
  have hexec : executorExecute registry (.select stmt) = some (R.reply stmt, registry) := by
    rw [← hdb.select_shown ht hR hname]
    exact hdb.execSelect stmt
  have hstatus : (∃ result, executorExecute registry (.select stmt) =
      some ((.success, result), registry)) ↔ R.Selectable stmt := by
    rw [hexec, ← Relation.reply_success]
    constructor
    · rintro ⟨result, h⟩
      exact congrArg Prod.fst (Prod.mk.inj (Option.some.inj h)).1
    · intro h
      exact ⟨(R.reply stmt).2, congrArg (fun reply => some (reply, registry)) (Prod.ext h rfl)⟩
  rw [hstatus, hfilter.selectable, hfilter.cells htuples]
  · simp only [List.mem_filter, List.mem_filterMap, decide_eq_true_eq]
    refine ⟨fun h sql hsql insert hinsert hsame => ?_, fun h s hs => ?_⟩
    · exact h insert ⟨⟨sql, hsql, hinsert⟩, by
        rw [sameName_iff.mp hname]
        exact sameName_iff.mp hsame⟩
    · obtain ⟨⟨sql, hsql, hinsert⟩, hkey⟩ := hs
      refine h sql hsql s hinsert (sameName_iff.mpr ?_)
      rw [hkey, sameName_iff.mp hname]
  · intro s hs
    obtain ⟨hs, hkey⟩ := List.mem_filter.mp hs
    exact hfits s hs (of_decide_eq_true hkey)
  · intro s hs
    obtain ⟨sql, -, hparse⟩ := List.mem_filterMap.mp (List.mem_filter.mp hs).1
    exact parsedInsert_sound hparse
  · exact fun s hs => hids s (List.mem_filter.mp hs).1

/-! ## A literal out of range -/

/-- An accepted INSERT. -/
def overflowInsert : Bytes := bytes "INSERT INTO t (a) VALUES (99999999999999999999)"

/-- The relation it makes. -/
def overflowRelation : Relation where
  columns := [⟨lit _ "a", .int⟩]
  tuples := [[bytes "99999999999999999999"]]
  named := by decide
  fits := by decide
  arity := by decide
  filled := by decide
  bounded := by decide

/-- `a = 1` -/
def overflowClause : WhereClause := ⟨lit _ "a", lit _ "=", lit _ "1", .int⟩

/-- `SELECT * FROM t WHERE a = 1` -/
def overflowFilter : SelectStatement := ⟨lit _ "t", .none, some overflowClause⟩

theorem overflowFilter_parsed : (tokenizerTokenize (bytes "SELECT * FROM t WHERE a = 1")).bind
    parserParse = .ok (.select overflowFilter) := by decide +kernel

theorem intFilter_overflowFilter : IntFilter overflowRelation overflowFilter overflowClause 1 :=
  ⟨by decide, rfl, by decide, by decide, by decide +kernel⟩

/-- The registry after the INSERT: its table, and the reply to the filter. -/
theorem overflow_run : ∃ registry t, InsertRun [overflowInsert] registry ∧ t ∈ registry ∧
    t.Shows overflowRelation ∧ SameName t.tableName.text overflowFilter.tableName.text ∧
    ∃ result, executorExecute registry (.select overflowFilter) =
      some ((.failure, result), registry) := by
  have hparse : parsedInsert overflowInsert = some ⟨lit _ "t",
      ⟨[⟨lit _ "a", lit _ "99999999999999999999", .int⟩], by decide⟩⟩ := by decide +kernel
  have hstatus : (engineExecuteSql [] overflowInsert).map (fun r => (r.1.1, r.2.length)) =
      some (.success, 1) := by decide +kernel
  have htable : (engineExecuteSql [] overflowInsert).map (fun r => r.2.map fun t =>
      (t.loaded, t.tableName)) = some [(true, lit _ "t")] := by decide +kernel
  have hshows : (engineExecuteSql [] overflowInsert).map (fun r => r.2.map fun t =>
      (t.header, t.stored)) = some [(overflowRelation.header, overflowRelation.rows)] := by
    decide +kernel
  have hselect : (engineExecuteSql [] overflowInsert).map (fun r =>
      (executorExecute r.2 (.select overflowFilter)).map fun q => q.1.1) =
      some (some .failure) := by decide +kernel
  cases h : engineExecuteSql [] overflowInsert with
  | none =>
    rw [h] at hstatus
    cases hstatus
  | some r =>
    obtain ⟨⟨status, result⟩, registry⟩ := r
    rw [h] at hstatus htable hshows hselect
    obtain ⟨rfl, hlen⟩ := Prod.mk.inj (Option.some.inj hstatus)
    obtain ⟨t, rfl⟩ := List.length_eq_one_iff.mp hlen
    simp only [Option.map_some, List.map_cons, List.map_nil, Option.some.injEq, List.cons.injEq,
      Prod.mk.injEq, and_true] at htable hshows hselect
    have hrun : InsertRun [overflowInsert] [t] := .snoc .nil hparse h
    refine ⟨[t], t, hrun, List.mem_singleton_self t, ⟨htable.1, hshows.1, hshows.2⟩, ?_, ?_⟩
    · rw [htable.2]
      rfl
    · obtain ⟨db, hdb, -⟩ := hrun.built
      have hexec := hdb.execSelect overflowFilter
      rw [show executorExecute [t] (.select overflowFilter) = _ from hexec] at hselect ⊢
      rcases hreply : db.select overflowFilter with ⟨status, result⟩
      rw [hreply] at hselect
      obtain rfl : status = .failure := Option.some.inj hselect
      exact ⟨result, rfl⟩

/-- The INSERT succeeds and the filter on its column fails. -/
theorem executorExecute_overflowFilter : ∃ registry t, InsertRun [overflowInsert] registry ∧
    t ∈ registry ∧ t.Shows overflowRelation ∧
    SameName t.tableName.text overflowFilter.tableName.text ∧
    (tokenizerTokenize (bytes "SELECT * FROM t WHERE a = 1")).bind parserParse =
      .ok (.select overflowFilter) ∧
    IntFilter overflowRelation overflowFilter overflowClause 1 ∧
    ¬ ∃ result, executorExecute registry (.select overflowFilter) =
      some ((.success, result), registry) := by
  obtain ⟨registry, t, hrun, ht, hR, hname, result, hexec⟩ := overflow_run
  refine ⟨registry, t, hrun, ht, hR, hname, overflowFilter_parsed, intFilter_overflowFilter, ?_⟩
  rintro ⟨result', hexec'⟩
  rw [hexec] at hexec'
  cases hexec'

/-- The condition at that table. -/
theorem executorExecute_intFilter_overflow : ∃ registry, registry ≠ [] ∧
    ((∃ result, executorExecute registry (.select overflowFilter) =
        some ((.success, result), registry)) ↔
      ∀ sql ∈ [overflowInsert], ∀ insert, parsedInsert sql = some insert →
        SameName insert.tableName.text overflowFilter.tableName.text →
          ∀ item, valueFor insert overflowClause.column.text = some item →
            InLongLong (intValue item.value.text)) := by
  obtain ⟨registry, t, hrun, ht, hR, hname, -⟩ := overflow_run
  exact ⟨registry, List.ne_nil_of_mem ht,
    executorExecute_intFilter hrun ht hR hname intFilter_overflowFilter⟩

end JungleDb
