import Mathlib.Logic.Function.Basic
import JungleDb.Engine.Select
import JungleDb.Lib.Machine

/-!
# The engine refines a database of relations

A database maps names, in upper case, to relations. A registry holds a database when its entries
have different names and each represents the relation of its name; an entry that a rejected first
INSERT has left behind represents no relation and is not seen. Every statement does to the registry
what it does to the database and gets the same reply.
-/

namespace JungleDb

open CString

/-- A name up to case. -/
def nameKey (name : Bytes) : Bytes := name.map toupper

theorem sameName_iff {a b : Bytes} : SameName a b ↔ nameKey a = nameKey b := Iff.rfl

/-- The tables by their names. -/
abbrev Database := Bytes → Option Relation

/-- No tables. -/
def Database.empty : Database := fun _ => none

/-- The reply to a statement for a table that is not there. -/
def notFound (name : Bytes) : Reply :=
  executorFail queryResultInit (bytes "Table '" ++ name ++ bytes "' not found.")

/-- INSERT on a database. -/
def Database.insert (db : Database) (stmt : InsertStatement) : Reply × Database :=
  let name := stmt.tableName.text
  if executorInsertMentionsId stmt then
    (executorFail queryResultInit (bytes "Explicit id values are not allowed."), db)
  else if name = [] then (executorFail queryResultInit
    (bytes "Failed to open table '" ++ name ++ bytes "' for writing."), db)
  else match insertInto (db (nameKey name)) stmt.items.1 with
    | .error e => (executorFail queryResultInit (message e.text).text, db)
    | .ok R => (executorMessage queryResultInit (bytes "1 row inserted into " ++ name ++ bytes "."),
        Function.update db (nameKey name) (some R))

/-- SELECT on a database. -/
def Database.select (db : Database) (stmt : SelectStatement) : Reply :=
  match if stmt.tableName.text = [] then none else db (nameKey stmt.tableName.text) with
  | none => notFound stmt.tableName.text
  | some R => R.reply stmt

/-- A statement on a database. -/
def Database.exec (db : Database) : SqlStatement → Reply × Database
  | .insert stmt => db.insert stmt
  | .select stmt => (db.select stmt, db)
  | .delete _ => (executorExecuteDelete queryResultInit, db)

/-- An SQL text on a database. -/
def Database.execSql (db : Database) (sql : Bytes) : Reply × Database :=
  let fail (error : CStr MESSAGE_LEN) : Reply × Database :=
    ((.failure, queryResultSetError queryResultInit error), db)
  if MAX_SQL_LENGTH ≤ sql.length then fail (message "SQL is too long.")
  else match tokenizerTokenize sql with
    | .error e => fail e
    | .ok [] => fail (message "Failed to tokenize SQL.")
    | .ok tokens =>
      match parserParse tokens with
      | .error e => fail e
      | .ok statement => db.exec statement

/-! ## Texts and their statements -/

/-- The table that a statement is about. -/
def SqlStatement.tableName : SqlStatement → Bytes
  | .insert stmt => stmt.tableName.text
  | .select stmt => stmt.tableName.text
  | .delete stmt => stmt.tableName.text

/-- The statement that `engine_execute_sql` reads in a text. -/
def parsedStatement (sql : Bytes) : Option SqlStatement :=
  if MAX_SQL_LENGTH ≤ sql.length then none
  else ((tokenizerTokenize sql).bind parserParse).toOption

theorem Database.execSql_parsed {sql : Bytes} {statement : SqlStatement}
    (h : parsedStatement sql = some statement) (db : Database) :
    db.execSql sql = db.exec statement := by
  unfold parsedStatement at h
  unfold Database.execSql
  by_cases hlen : MAX_SQL_LENGTH ≤ sql.length
  · rw [if_pos hlen] at h
    cases h
  · rw [if_neg hlen] at h ⊢
    cases htokens : tokenizerTokenize sql with
    | error e =>
      rw [htokens] at h
      cases h
    | ok tokens =>
      cases tokens with
      | nil =>
        rw [htokens] at h
        cases h
      | cons t tokens =>
        rw [htokens, Except.bind] at h
        cases hparse : parserParse (t :: tokens) with
        | error e =>
          rw [hparse] at h
          cases h
        | ok statement' =>
          rw [hparse] at h
          cases h
          simp only [hparse]

/-- Why no statement is read in a text, with the error that is reported. -/
inductive Unparsed (sql : Bytes) : CStr MESSAGE_LEN → Prop
  | long : MAX_SQL_LENGTH ≤ sql.length → Unparsed sql (message "SQL is too long.")
  | tokenize {e : CStr MESSAGE_LEN} : tokenizerTokenize sql = .error e → Unparsed sql e
  | empty : tokenizerTokenize sql = .ok [] → Unparsed sql (message "Failed to tokenize SQL.")
  | parse {tokens : Tokens} {e : CStr MESSAGE_LEN} : tokenizerTokenize sql = .ok tokens →
    parserParse tokens = .error e → Unparsed sql e

/-- A text without a statement fails with such an error on every database. -/
theorem Database.execSql_unparsed {sql : Bytes} (h : parsedStatement sql = none) :
    ∃ error, Unparsed sql error ∧ ∀ db : Database,
      db.execSql sql = ((.failure, queryResultSetError queryResultInit error), db) := by
  unfold parsedStatement at h
  unfold Database.execSql
  by_cases hlen : MAX_SQL_LENGTH ≤ sql.length
  · simp only [if_pos hlen]
    exact ⟨_, .long hlen, fun _ => rfl⟩
  · simp only [if_neg hlen] at h ⊢
    cases htokens : tokenizerTokenize sql with
    | error e => exact ⟨e, .tokenize htokens, fun _ => rfl⟩
    | ok tokens =>
      cases tokens with
      | nil => exact ⟨_, .empty htokens, fun _ => rfl⟩
      | cons t tokens =>
        rw [htokens, Except.bind] at h
        cases hparse : parserParse (t :: tokens) with
        | error e =>
          simp only [hparse]
          exact ⟨e, .parse htokens hparse, fun _ => rfl⟩
        | ok statement' =>
          rw [hparse] at h
          cases h

/-! ## Registries that hold a database -/

/-- The registry holds the database. -/
structure HoldsDb (registry : Registry) (db : Database) : Prop where
  distinct : ∀ (i j : Nat) (t t' : TableRuntime), registry[i]? = some t → registry[j]? = some t' →
    SameName t.tableName.text t'.tableName.text → i = j
  named : ∀ t ∈ registry, t.tableName.text ≠ []
  entry : ∀ t ∈ registry, Represents t (db (nameKey t.tableName.text))
  absent : ∀ k, (∀ t ∈ registry, nameKey t.tableName.text ≠ k) → db k = none

theorem holds_empty : HoldsDb [] .empty :=
  ⟨nofun, nofun, nofun, fun _ _ => rfl⟩

/-! ## The search for an entry -/

theorem tableRuntimeFindEntryLocked_some {registry : Registry} {name : Bytes} {i : Nat}
    (h : tableRuntimeFindEntryLocked registry name = some i) :
    ∃ t, registry[i]? = some t ∧ SameName t.tableName.text name := by
  have hfound := List.find?_some h
  rw [Option.any_eq_true] at hfound
  obtain ⟨t, ht, hsame⟩ := hfound
  rw [utilsEqualsIgnoreCase_eq, decide_eq_true_eq] at hsame
  exact ⟨t, ht, hsame⟩

theorem tableRuntimeFindEntryLocked_none {registry : Registry} {name : Bytes}
    (h : tableRuntimeFindEntryLocked registry name = none) :
    ∀ t ∈ registry, ¬ SameName t.tableName.text name := by
  intro t ht hsame
  obtain ⟨i, hi, rfl⟩ := List.getElem_of_mem ht
  have hnot := List.find?_eq_none.mp h i (List.mem_reverse.mpr (List.mem_range.mpr hi))
  rw [List.getElem?_eq_getElem hi, Option.any_some, utilsEqualsIgnoreCase_eq] at hnot
  exact hnot (decide_eq_true hsame)

namespace HoldsDb

variable {registry : Registry} {db : Database}

/-- A new entry is not seen. -/
theorem create (h : HoldsDb registry db) {name : Identifier} (hne : name.text ≠ [])
    (hnew : ∀ t ∈ registry, ¬ SameName t.tableName.text name.text) :
    HoldsDb (registry ++ [{ tableInit with tableName := name }]) db := by
  have hfresh : db (nameKey name.text) = none := h.absent _ hnew
  have hmem : ∀ {i t}, (registry ++ [{ tableInit with tableName := name }])[i]? = some t →
      registry[i]? = some t ∨ i = registry.length ∧ t.tableName = name := fun {i t} hi => by
    rcases Nat.lt_trichotomy i registry.length with hlt | rfl | hgt
    · rw [List.getElem?_append_left hlt] at hi
      exact .inl hi
    · rw [List.getElem?_concat_length] at hi
      obtain rfl := Option.some.inj hi
      exact .inr ⟨rfl, rfl⟩
    · rw [List.getElem?_eq_none (by simp; omega)] at hi
      cases hi
  refine ⟨fun i j t t' hi hj hs => ?_, fun t ht => ?_, fun t ht => ?_, fun k hk => ?_⟩
  · rcases hmem hi with hi | ⟨rfl, hname⟩
    · rcases hmem hj with hj | ⟨rfl, hname'⟩
      · exact h.distinct i j t t' hi hj hs
      · rw [hname'] at hs
        exact absurd hs (hnew t (List.mem_of_getElem? hi))
    · rcases hmem hj with hj | ⟨rfl, -⟩
      · rw [hname] at hs
        exact absurd hs.symm (hnew t' (List.mem_of_getElem? hj))
      · rfl
  · rcases List.mem_append.mp ht with ht | ht
    · exact h.named t ht
    · rw [List.mem_singleton.mp ht]
      exact hne
  · rcases List.mem_append.mp ht with ht | ht
    · exact h.entry t ht
    · rw [List.mem_singleton.mp ht]
      show Represents _ (db (nameKey name.text))
      rw [hfresh]
      exact represents_named name
  · exact h.absent k fun t ht => hk t (List.mem_append_left _ ht)

/-- A table is replaced by one of the same name. -/
theorem set (h : HoldsDb registry db) {i : Nat} {t t' : TableRuntime} {o : Option Relation}
    (hi : registry[i]? = some t) (hname : t'.tableName = t.tableName) (hrep : Represents t' o) :
    HoldsDb (registry.set i t') (Function.update db (nameKey t.tableName.text) o) := by
  have hlt : i < registry.length := (List.getElem?_eq_some_iff.mp hi).1
  have hget : ∀ {j u}, (registry.set i t')[j]? = some u →
      ∃ u', registry[j]? = some u' ∧ u'.tableName = u.tableName ∧ (i ≠ j → u' = u) ∧
        (i = j → u = t') := fun {j u} hj => by
    rw [List.getElem?_set] at hj
    split at hj
    · rename_i hij
      subst hij
      obtain rfl := Option.some.inj hj
      exact ⟨t, hi, hname.symm, fun h => absurd rfl h, fun _ => rfl⟩
    · rename_i hij
      exact ⟨u, hj, rfl, fun _ => rfl, fun h => absurd h hij⟩
  refine ⟨fun j k u v hj hk hs => ?_, fun u hu => ?_, fun u hu => ?_, fun k hk => ?_⟩
  · obtain ⟨u', hj', hu', -⟩ := hget hj
    obtain ⟨v', hk', hv', -⟩ := hget hk
    rw [← hu', ← hv'] at hs
    exact h.distinct j k u' v' hj' hk' hs
  · obtain ⟨j, hj⟩ := List.getElem?_of_mem hu
    obtain ⟨u', hj', hu', -⟩ := hget hj
    rw [← hu']
    exact h.named u' (List.mem_of_getElem? hj')
  · obtain ⟨j, hj⟩ := List.getElem?_of_mem hu
    obtain ⟨u', hj', hu', hother, hsame⟩ := hget hj
    by_cases hij : i = j
    · rw [hsame hij, hname, Function.update_self]
      exact hrep
    · obtain rfl := hother hij
      rw [Function.update_of_ne]
      · exact h.entry u' (List.mem_of_getElem? hj')
      · exact fun hkey => hij (h.distinct i j t u' hi hj' (sameName_iff.mpr hkey.symm))
  · have hne : k ≠ nameKey t.tableName.text := fun hk' =>
      hk t' (List.mem_of_getElem? (List.getElem?_set_self hlt)) (by rw [hname, hk'])
    rw [Function.update_of_ne hne]
    refine h.absent k fun u hu => ?_
    obtain ⟨j, hj⟩ := List.getElem?_of_mem hu
    by_cases hij : i = j
    · subst hij
      rw [hi] at hj
      obtain rfl := Option.some.inj hj
      exact hne.symm
    · refine hk u (List.mem_of_getElem? (i := j) ?_)
      rw [List.getElem?_set_ne hij]
      exact hj

/-- A search for reading finds the entry of the name, if there is one. -/
theorem acquireRead (h : HoldsDb registry db) (name : Bytes) :
    (tableRuntimeAcquireRead registry name = (none, registry) ∧
      (name = [] ∨ db (nameKey name) = none)) ∨
    ∃ i t, tableRuntimeAcquireRead registry name = (some i, registry) ∧ name ≠ [] ∧
      registry[i]? = some t ∧ SameName t.tableName.text name := by
  unfold tableRuntimeAcquireRead tableRuntimeAcquireEntry
  by_cases hname : name = []
  · rw [if_pos hname]
    exact .inl ⟨rfl, .inl hname⟩
  · rw [if_neg hname]
    cases hfind : tableRuntimeFindEntryLocked registry name with
    | none =>
      exact .inl ⟨rfl, .inr (h.absent _ (tableRuntimeFindEntryLocked_none hfind))⟩
    | some i =>
      obtain ⟨t, ht, hsame⟩ := tableRuntimeFindEntryLocked_some hfind
      exact .inr ⟨i, t, rfl, hname, ht, hsame⟩

/-- A search for writing finds the entry of the name or makes one. -/
theorem acquireWrite (h : HoldsDb registry db) {name : Identifier} (hname : name.text ≠ []) :
    ∃ i t registry', tableRuntimeAcquireWrite registry name.text = (some i, registry') ∧
      HoldsDb registry' db ∧ registry'[i]? = some t ∧ SameName t.tableName.text name.text := by
  unfold tableRuntimeAcquireWrite tableRuntimeAcquireEntry
  rw [if_neg hname]
  cases hfind : tableRuntimeFindEntryLocked registry name.text with
  | none =>
    refine ⟨registry.length, { tableInit with tableName := name }, _, ?_,
      h.create hname (tableRuntimeFindEntryLocked_none hfind), List.getElem?_concat_length, rfl⟩
    simp only [if_true, tableRuntimeCreateEntry, utilsSafeStrcpy_text]
  | some i =>
    obtain ⟨t, ht, hsame⟩ := tableRuntimeFindEntryLocked_some hfind
    exact ⟨i, t, registry, rfl, h, ht, hsame⟩

/-- The relation that an entry represents, up to the case of its name. -/
theorem entry_of_sameName (h : HoldsDb registry db) {i : Nat} {t : TableRuntime} {name : Bytes}
    (ht : registry[i]? = some t) (hsame : SameName t.tableName.text name) :
    Represents t (db (nameKey name)) := by
  rw [← sameName_iff.mp hsame]
  exact h.entry t (List.mem_of_getElem? ht)

/-! ## Statements -/

/-- `table_insert_row` on the entry of its table. -/
theorem insertRow (h : HoldsDb registry db) {i : Nat} {t : TableRuntime} {stmt : InsertStatement}
    (ht : registry[i]? = some t) (hsame : SameName t.tableName.text stmt.tableName.text) :
    ∃ t', t'.tableName = t.tableName ∧
      match insertInto (db (nameKey stmt.tableName.text)) stmt.items.1 with
      | .error e => executorInsertBody stmt t = some (.error (message e.text), t') ∧
          HoldsDb (registry.set i t') db
      | .ok R => executorInsertBody stmt t = some (.ok (R.tuples.length - 1), t') ∧
          HoldsDb (registry.set i t')
            (Function.update db (nameKey stmt.tableName.text) (some R)) := by
  have hrep := h.entry_of_sameName ht hsame
  have hadopt : t.adopt stmt = t := if_neg (h.named t (List.mem_of_getElem? ht))
  have hins := tableInsertNamed_refines hrep stmt
  have hkey := sameName_iff.mp hsame
  rw [executorInsertBody, tableInsertRow_eq, hadopt, if_pos hsame]
  cases hR : insertInto (db (nameKey stmt.tableName.text)) stmt.items.1 with
  | error e =>
    obtain ⟨t', hrun, hrep', hname⟩ := (insertRefines_error hR).mp hins
    refine ⟨t', hname, hrun, ?_⟩
    have hset := h.set ht hname hrep'
    rwa [hkey, Function.update_eq_self] at hset
  | ok R =>
    obtain ⟨t', hrun, hrep', hname⟩ := (insertRefines_ok hR).mp hins
    refine ⟨t', hname, hrun, ?_⟩
    have hset := h.set ht hname hrep'
    rwa [hkey] at hset

theorem execInsert (h : HoldsDb registry db) (stmt : InsertStatement) :
    ∃ registry', executorExecuteInsert registry stmt queryResultInit =
      some ((db.insert stmt).1, registry') ∧ HoldsDb registry' (db.insert stmt).2 := by
  unfold executorExecuteInsert Database.insert
  by_cases hid : executorInsertMentionsId stmt = true
  · simp only [if_pos hid]
    exact ⟨registry, rfl, h⟩
  · simp only [if_neg hid]
    by_cases hname : stmt.tableName.text = []
    · rw [if_pos hname, hname]
      exact ⟨registry, rfl, h⟩
    · rw [if_neg hname]
      obtain ⟨i, t, registry', hacq, h', ht, hsame⟩ := h.acquireWrite hname
      obtain ⟨t', -, hbody⟩ := h'.insertRow ht hsame
      simp only [hacq, ht]
      cases hR : insertInto (db (nameKey stmt.tableName.text)) stmt.items.1 with
      | error e =>
        simp only [hR] at hbody
        simp only [hbody.1, Option.bind_eq_bind, Option.bind_some]
        exact ⟨_, rfl, hbody.2⟩
      | ok R =>
        simp only [hR] at hbody
        simp only [hbody.1, Option.bind_eq_bind, Option.bind_some]
        exact ⟨_, rfl, hbody.2⟩

theorem execSelect (h : HoldsDb registry db) (stmt : SelectStatement) :
    executorExecuteSelect registry stmt queryResultInit = some (db.select stmt, registry) := by
  unfold executorExecuteSelect Database.select
  rcases h.acquireRead stmt.tableName.text with ⟨hacq, hnone⟩ | ⟨i, t, hacq, hname, ht, hsame⟩
  · have hmissing : (if stmt.tableName.text = [] then none
        else db (nameKey stmt.tableName.text)) = none := by
      rcases hnone with hnone | hnone
      · rw [if_pos hnone]
      · rw [hnone]
        split <;> rfl
    simp only [hacq, hmissing]
    rfl
  · have hrep := h.entry_of_sameName ht hsame
    simp only [hacq, ht, if_neg hname]
    cases hR : db (nameKey stmt.tableName.text) with
    | none =>
      rw [hR] at hrep
      have hbody : executorSelectBody stmt t queryResultInit =
          some (notFound stmt.tableName.text) := by
        rw [executorSelectBody, hrep.1]
        rfl
      simp only [hbody, Option.bind_eq_bind, Option.bind_some]
    | some R =>
      rw [hR] at hrep
      simp only [executorSelectBody_refines hrep stmt, Option.bind_eq_bind, Option.bind_some]

/-- A statement does to the registry what it does to the database. -/
theorem exec (h : HoldsDb registry db) (statement : SqlStatement) :
    ∃ registry', executorExecute registry statement =
      some ((db.exec statement).1, registry') ∧ HoldsDb registry' (db.exec statement).2 := by
  cases statement with
  | insert stmt => exact h.execInsert stmt
  | select stmt => exact ⟨registry, h.execSelect stmt, h⟩
  | delete _ => exact ⟨registry, rfl, h⟩

end HoldsDb

/-- The engine refines the database. -/
theorem engine_simulates : Machine.Simulates engineExecuteSql Database.execSql HoldsDb := by
  intro registry db h sql
  unfold engineExecuteSql Database.execSql
  by_cases hlen : MAX_SQL_LENGTH ≤ sql.length
  · simp only [if_pos hlen]
    exact ⟨registry, rfl, h⟩
  · simp only [if_neg hlen]
    cases tokenizerTokenize sql with
    | error e => exact ⟨registry, rfl, h⟩
    | ok tokens =>
      cases tokens with
      | nil => exact ⟨registry, rfl, h⟩
      | cons t tokens =>
        simp only
        cases parserParse (t :: tokens) with
        | error e => exact ⟨registry, rfl, h⟩
        | ok statement => exact h.exec statement

/-- A registry that calls of `engine_execute_sql` lead to. -/
abbrev EngineReachable (registry : Registry) : Prop :=
  Machine.Reachable engineExecuteSql [] registry

theorem EngineReachable.holds {registry : Registry} (h : EngineReachable registry) :
    ∃ db, HoldsDb registry db :=
  engine_simulates.reachable holds_empty h

/-! ## Failed statements -/

/-- A statement that fails leaves the database as it was. -/
theorem Database.exec_failure {db : Database} {statement : SqlStatement}
    (h : (db.exec statement).1.1 = .failure) : (db.exec statement).2 = db := by
  cases statement with
  | insert stmt =>
    revert h
    unfold Database.exec Database.insert
    simp only
    split
    · exact fun _ => rfl
    split
    · exact fun _ => rfl
    split
    · exact fun _ => rfl
    · intro h
      cases h
  | select stmt => rfl
  | delete _ => rfl

theorem Database.execSql_failure {db : Database} {sql : Bytes}
    (h : (db.execSql sql).1.1 = .failure) : (db.execSql sql).2 = db := by
  cases hparse : parsedStatement sql with
  | none =>
    obtain ⟨error, -, hexec⟩ := Database.execSql_unparsed hparse
    rw [hexec]
  | some statement =>
    rw [Database.execSql_parsed hparse] at h ⊢
    exact Database.exec_failure h

/-- After a statement that failed, all later statements give the replies they would have given
without it. -/
theorem engine_failure_unobservable {registry registry' : Registry} {sql : Bytes}
    {result : QueryResult} (hreach : EngineReachable registry)
    (hfail : engineExecuteSql registry sql = some ((.failure, result), registry'))
    (later : List Bytes) :
    ∃ replies, (Machine.run engineExecuteSql registry' later).map Prod.fst = some replies ∧
      (Machine.run engineExecuteSql registry later).map Prod.fst = some replies := by
  obtain ⟨db, h⟩ := hreach.holds
  obtain ⟨registry'', hrun, h'⟩ := engine_simulates h sql
  rw [hfail, Option.some.injEq, Prod.mk.injEq] at hrun
  obtain ⟨hreply, rfl⟩ := hrun
  rw [Database.execSql_failure (by rw [← hreply])] at h'
  exact engine_simulates.answers_eq h' h later

/-- A first INSERT of 32 columns: the entry is made before the count is rejected. -/
def wideInsert : Bytes := bytes "INSERT INTO t (" ++ (List.replicate 31 (bytes "a,")).flatten ++
  bytes "a) VALUES (" ++ (List.replicate 31 (bytes "1,")).flatten ++ bytes "1)"

/-- The entry it leaves behind is not seen. -/
theorem engine_failure_unobservable_wideInsert :
    ∃ result registry', engineExecuteSql [] wideInsert = some ((.failure, result), registry') ∧
      registry' ≠ [] ∧ ∀ later,
        ∃ replies, (Machine.run engineExecuteSql registry' later).map Prod.fst = some replies ∧
          (Machine.run engineExecuteSql [] later).map Prod.fst = some replies := by
  have hrun : (engineExecuteSql [] wideInsert).map (fun r => (r.1.1, r.2.length)) =
      some (.failure, 1) := by decide +kernel
  cases h : engineExecuteSql [] wideInsert with
  | none =>
    rw [h] at hrun
    cases hrun
  | some r =>
    obtain ⟨⟨status, result⟩, registry'⟩ := r
    rw [h] at hrun
    obtain ⟨rfl, hlen⟩ := Prod.mk.inj (Option.some.inj hrun)
    refine ⟨result, registry', rfl, fun hnil => ?_, engine_failure_unobservable .start h⟩
    rw [hnil] at hlen
    cases hlen

end JungleDb
