import JungleDb.Engine.Answer

/-!
# What a run of statements builds

The INSERTs of a run that succeed build the tables: each table has their values in order, and all of
them name its columns. Every other statement of the run leaves the tables as they are.
-/

namespace JungleDb

open CString

/-- The INSERT that a text is. -/
def parsedInsert (sql : Bytes) : Option InsertStatement :=
  match tokenizerTokenize sql with
  | .error _ => none
  | .ok tokens =>
    match parserParse tokens with
    | .ok (.insert stmt) => some stmt
    | _ => none

/-- The values of a parsed INSERT are integer texts where their kind is INT. -/
theorem parsedInsert_sound {sql : Bytes} {stmt : InsertStatement}
    (h : parsedInsert sql = some stmt) : ∀ item ∈ stmt.items.1, item.Sound := by
  unfold parsedInsert at h
  split at h
  · cases h
  · rename_i tokens htokens
    split at h
    · rename_i stmt' hparse
      obtain rfl := Option.some.inj h
      exact parserParse_sound (tokenizerTokenize_sound htokens) hparse
    · cases h

theorem parsedInsert_iff {sql : Bytes} {statement : SqlStatement}
    (h : parsedStatement sql = some statement) {stmt : InsertStatement} :
    parsedInsert sql = some stmt ↔ statement = .insert stmt := by
  unfold parsedStatement at h
  split at h
  · cases h
  · unfold parsedInsert
    cases htokens : tokenizerTokenize sql with
    | error e =>
      rw [htokens] at h
      cases h
    | ok tokens =>
      rw [htokens, Except.bind] at h
      cases hparse : parserParse tokens with
      | error e =>
        rw [hparse] at h
        cases h
      | ok statement' =>
        rw [hparse] at h
        obtain rfl := Option.some.inj h
        cases statement' with
        | insert stmt' => simp only [hparse, Option.some.injEq, SqlStatement.insert.injEq]
        | select _ => simp only [hparse, reduceCtorEq]
        | delete _ => simp only [hparse, reduceCtorEq]

/-- A text that is an INSERT and succeeds has been run as one. -/
theorem Database.execSql_insert {db : Database} {sql : Bytes} {stmt : InsertStatement}
    (h : parsedInsert sql = some stmt) (hsucc : (db.execSql sql).1.1 = .success) :
    db.execSql sql = db.insert stmt := by
  cases hparse : parsedStatement sql with
  | none =>
    obtain ⟨error, -, hexec⟩ := Database.execSql_unparsed hparse
    rw [hexec] at hsucc
    cases hsucc
  | some statement =>
    obtain rfl := (parsedInsert_iff hparse).mp h
    exact Database.execSql_parsed hparse db

/-! ## What the INSERTs of a run have built -/

/-- An item for each column, in order, of its name and kind. -/
def FitsColumns (columns : List Column) (items : List InsertItem) : Prop :=
  items.length = columns.length ∧ mismatch columns items = none

theorem mismatch_none {c : Column} {item : InsertItem} : ∀ {cs : List Column}
    {items : List InsertItem} {j : Nat}, mismatch cs items = none → cs[j]? = some c →
      items[j]? = some item → SameName c.name.text item.column.text ∧ c.kind = item.valueKind
  | [], _, _, _, hc, _ => by cases hc
  | _ :: _, [], _, _, _, hi => by cases hi
  | c' :: cs, item' :: items, j, h, hc, hi => by
    rw [mismatch] at h
    split at h
    · cases h
    · rename_i hname
      split at h
      · cases h
      · rename_i hkind
        cases j with
        | zero =>
          obtain rfl := Option.some.inj hc
          obtain rfl := Option.some.inj hi
          exact ⟨not_not.mp hname, not_not.mp hkind⟩
        | succ j => exact mismatch_none h hc hi

/-- The tables of a database are those that the statements name, with their values. -/
def BuiltFrom (db : Database) (stmts : List InsertStatement) : Prop :=
  ∀ k R, db k = some R →
    R.tuples = (stmts.filter fun s => nameKey s.tableName.text = k).map (fun s => values s.items.1) ∧
    ∀ s ∈ stmts, nameKey s.tableName.text = k → FitsColumns R.columns s.items.1

/-- A table that is not there has not been named. -/
def Unnamed (db : Database) (stmts : List InsertStatement) : Prop :=
  ∀ k, db k = none → ∀ s ∈ stmts, nameKey s.tableName.text ≠ k

/-- A successful INSERT is a successful INSERT into the relation of its name. -/
theorem Database.insert_success {db : Database} {stmt : InsertStatement}
    (h : (db.insert stmt).1.1 = .success) :
    executorInsertMentionsId stmt = false ∧
      ∃ R, insertInto (db (nameKey stmt.tableName.text)) stmt.items.1 = .ok R ∧
        (db.insert stmt).2 = Function.update db (nameKey stmt.tableName.text) (some R) := by
  revert h
  unfold Database.insert
  simp only
  split
  · nofun
  rename_i hid
  split
  · nofun
  split
  · nofun
  · rename_i R hR
    exact fun _ => ⟨by simpa using hid, R, hR, rfl⟩

theorem BuiltFrom.insert {db : Database} {stmts : List InsertStatement} (hb : BuiltFrom db stmts)
    (hu : Unnamed db stmts) {stmt : InsertStatement} {R : Relation}
    (hR : insertInto (db (nameKey stmt.tableName.text)) stmt.items.1 = .ok R) :
    BuiltFrom (Function.update db (nameKey stmt.tableName.text) (some R)) (stmts ++ [stmt]) := by
  intro k R' hk
  by_cases hkey : k = nameKey stmt.tableName.text
  · subst hkey
    rw [Function.update_self] at hk
    obtain rfl := Option.some.inj hk
    rw [List.filter_append, List.map_append, List.filter_cons_of_pos (by simp)]
    cases hold : db (nameKey stmt.tableName.text) with
    | none =>
      rw [hold] at hR
      obtain ⟨hcols, htuples, -⟩ := Relation.create_ok hR
      have hnone : stmts.filter (fun s => nameKey s.tableName.text = nameKey stmt.tableName.text) =
          [] := List.filter_eq_nil_iff.mpr fun s hs => by simpa using hu _ hold s hs
      rw [hnone, htuples]
      refine ⟨rfl, fun s hs hsk => ?_⟩
      rcases List.mem_append.mp hs with hs | hs
      · exact absurd hsk (hu _ hold s hs)
      · rw [List.mem_singleton.mp hs, hcols]
        exact ⟨by simp, mismatch_toColumn _⟩
    | some R₀ =>
      rw [hold] at hR
      obtain ⟨hcols, htuples, hlen, hmatch, -⟩ := Relation.insert_ok hR
      obtain ⟨htuples₀, hfits⟩ := hb _ R₀ hold
      rw [htuples, htuples₀, hcols]
      refine ⟨rfl, fun s hs hsk => ?_⟩
      rcases List.mem_append.mp hs with hs | hs
      · exact hfits s hs hsk
      · rw [List.mem_singleton.mp hs]
        exact ⟨hlen, hmatch⟩
  · rw [Function.update_of_ne hkey] at hk
    obtain ⟨htuples, hfits⟩ := hb k R' hk
    rw [List.filter_append, List.filter_cons_of_neg (by simpa using fun h => hkey h.symm),
      List.filter_nil, List.append_nil]
    refine ⟨htuples, fun s hs hsk => ?_⟩
    rcases List.mem_append.mp hs with hs | hs
    · exact hfits s hs hsk
    · rw [List.mem_singleton.mp hs] at hsk
      exact absurd hsk.symm hkey

theorem Unnamed.insert {db : Database} {stmts : List InsertStatement} (hu : Unnamed db stmts)
    {stmt : InsertStatement} (R : Relation) :
    Unnamed (Function.update db (nameKey stmt.tableName.text) (some R)) (stmts ++ [stmt]) := by
  intro k hk s hs
  by_cases hkey : k = nameKey stmt.tableName.text
  · rw [hkey, Function.update_self] at hk
    cases hk
  · rw [Function.update_of_ne hkey] at hk
    rcases List.mem_append.mp hs with hs | hs
    · exact hu k hk s hs
    · rw [List.mem_singleton.mp hs]
      exact fun h => hkey h.symm

/-- The INSERTs build the database, and none of them mentions the id. -/
structure BuiltByInserts (db : Database) (stmts : List InsertStatement) : Prop where
  tables : BuiltFrom db stmts
  unnamed : Unnamed db stmts
  noId : ∀ s ∈ stmts, executorInsertMentionsId s = false

theorem builtByInserts_empty : BuiltByInserts .empty [] := ⟨nofun, nofun, nofun⟩

/-- An INSERT that succeeds adds to what is built. -/
theorem BuiltByInserts.insert {db : Database} {stmts : List InsertStatement}
    (h : BuiltByInserts db stmts) {stmt : InsertStatement} (hsucc : (db.insert stmt).1.1 = .success) :
    BuiltByInserts (db.insert stmt).2 (stmts ++ [stmt]) := by
  obtain ⟨hid, R, hR, hdb⟩ := Database.insert_success hsucc
  rw [hdb]
  refine ⟨h.tables.insert h.unnamed hR, h.unnamed.insert R, fun s hs => ?_⟩
  rcases List.mem_append.mp hs with hs | hs
  · exact h.noId s hs
  · rw [List.mem_singleton.mp hs]
    exact hid

/-- The INSERT of a text that succeeded. -/
def acceptedInsert (sql : Bytes) (reply : Reply) : Option InsertStatement :=
  if reply.1 = .success then parsedInsert sql else none

/-- The INSERTs of a run that succeeded. -/
def acceptedInserts (sqls : List Bytes) (replies : List Reply) : List InsertStatement :=
  (sqls.zip replies).filterMap fun p => acceptedInsert p.1 p.2

/-- A statement that succeeds and is no INSERT leaves the database. -/
theorem Database.execSql_noInsert {db : Database} {sql : Bytes} (h : parsedInsert sql = none) :
    (db.execSql sql).2 = db := by
  cases hparse : parsedStatement sql with
  | none =>
    obtain ⟨error, -, hexec⟩ := Database.execSql_unparsed hparse
    rw [hexec]
  | some statement =>
    rw [Database.execSql_parsed hparse]
    cases statement with
    | insert stmt =>
      rw [(parsedInsert_iff hparse).mpr rfl] at h
      cases h
    | select _ => rfl
    | delete _ => rfl

/-- One text. -/
theorem BuiltByInserts.step {db : Database} {stmts : List InsertStatement}
    (h : BuiltByInserts db stmts) (sql : Bytes) :
    BuiltByInserts (db.execSql sql).2
      (stmts ++ (acceptedInsert sql (db.execSql sql).1).toList) := by
  unfold acceptedInsert
  split
  · rename_i hsucc
    cases hparse : parsedInsert sql with
    | none =>
      rw [Database.execSql_noInsert hparse, Option.toList_none, List.append_nil]
      exact h
    | some stmt =>
      have hexec := Database.execSql_insert hparse hsucc
      rw [hexec] at hsucc ⊢
      exact h.insert hsucc
  · rename_i hfail
    have hfailure : (db.execSql sql).1.1 = .failure := by
      cases hstatus : (db.execSql sql).1.1 with
      | success => exact absurd hstatus hfail
      | failure => rfl
    rw [Database.execSql_failure hfailure, Option.toList_none, List.append_nil]
    exact h

/-- A run of any texts. -/
theorem BuiltByInserts.run (sqls : List Bytes) {db : Database} {stmts : List InsertStatement}
    (h : BuiltByInserts db stmts) :
    BuiltByInserts (Machine.specRun Database.execSql db sqls).2
      (stmts ++ acceptedInserts sqls (Machine.specRun Database.execSql db sqls).1) := by
  induction sqls generalizing db stmts with
  | nil =>
    rw [acceptedInserts, List.zip_nil_left, List.filterMap_nil, List.append_nil]
    exact h
  | cons sql sqls ih =>
    have hrest := ih (h.step sql)
    rw [List.append_assoc] at hrest
    have hsplit : acceptedInserts (sql :: sqls) (Machine.specRun Database.execSql db (sql :: sqls)).1 =
        (acceptedInsert sql (db.execSql sql).1).toList ++ acceptedInserts sqls
          (Machine.specRun Database.execSql (db.execSql sql).2 sqls).1 := by
      rw [Machine.specRun, acceptedInserts, List.zip_cons_cons, List.filterMap_cons]
      cases acceptedInsert sql (db.execSql sql).1 <;> rfl
    rw [hsplit, Machine.specRun]
    exact hrest

end JungleDb
