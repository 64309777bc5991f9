import JungleDb.Engine.Database

/-!
# Tables do not see each other

A statement reads and writes the relation of its own table only. So what the statements on one table
are answered in a run does not depend on the other statements of the run.
-/

namespace JungleDb

open CString

/-- The text is a statement on the table, up to the case of its name. -/
def namesTable (table : Bytes) (sql : Bytes) : Bool :=
  (parsedStatement sql).any fun statement => nameKey statement.tableName == nameKey table

/-- A statement reads and writes the relation of its table only. -/
theorem Database.exec_local {db db' : Database} {statement : SqlStatement} {k : Bytes}
    (hk : nameKey statement.tableName = k) (h : db k = db' k) :
    (db.exec statement).1 = (db'.exec statement).1 ∧
      (db.exec statement).2 k = (db'.exec statement).2 k := by
  cases statement with
  | insert stmt =>
    have hk' : nameKey stmt.tableName.text = k := hk
    simp only [Database.exec, Database.insert, hk', h]
    split
    · exact ⟨rfl, h⟩
    split
    · exact ⟨rfl, h⟩
    split
    · exact ⟨rfl, h⟩
    · rename_i R _
      refine ⟨rfl, ?_⟩
      show Function.update db k (some R) k = Function.update db' k (some R) k
      rw [Function.update_self, Function.update_self]
  | select stmt =>
    have hk' : nameKey stmt.tableName.text = k := hk
    simp only [Database.exec, Database.select, hk', h, and_self]
  | delete _ => exact ⟨rfl, h⟩

theorem Database.exec_other {db : Database} {statement : SqlStatement} {k : Bytes}
    (hk : nameKey statement.tableName ≠ k) : (db.exec statement).2 k = db k := by
  cases statement with
  | insert stmt =>
    have hk' : k ≠ nameKey stmt.tableName.text := fun heq => hk heq.symm
    simp only [Database.exec, Database.insert]
    split
    · rfl
    split
    · rfl
    split
    · rfl
    · exact Function.update_of_ne hk' ..
  | select _ => rfl
  | delete _ => rfl

/-- The statements on a table see the relation of its name. -/
theorem database_views (table : Bytes) :
    Machine.Views Database.execSql (namesTable table) (fun db => db (nameKey table)) := by
  constructor
  · intro db sql hsql
    cases hparse : parsedStatement sql with
    | none =>
      obtain ⟨error, -, hexec⟩ := Database.execSql_unparsed hparse
      rw [hexec]
    | some statement =>
      rw [Database.execSql_parsed hparse]
      apply Database.exec_other
      intro heq
      rw [namesTable, hparse, Option.any_some, heq, beq_self_eq_true] at hsql
      cases hsql
  · intro db db' sql hsql h
    cases hparse : parsedStatement sql with
    | none =>
      rw [namesTable, hparse] at hsql
      cases hsql
    | some statement =>
      rw [namesTable, hparse, Option.any_some, beq_iff_eq] at hsql
      rw [Database.execSql_parsed hparse, Database.execSql_parsed hparse]
      exact Database.exec_local hsql h

/-- Two sequences of SQL texts with the same statements on a table, in the same order, run from the
empty registry; the replies to these statements are the same in both. -/
theorem engine_isolation (table : Bytes) {sqls sqls' : List Bytes}
    (h : sqls.filter (namesTable table) = sqls'.filter (namesTable table)) :
    ∃ replies registry replies' registry',
      Machine.run engineExecuteSql [] sqls = some (replies, registry) ∧
      Machine.run engineExecuteSql [] sqls' = some (replies', registry') ∧
      Machine.answersTo (namesTable table) sqls replies =
        Machine.answersTo (namesTable table) sqls' replies' := by
  obtain ⟨registry, hrun, -⟩ := engine_simulates.run holds_empty sqls
  obtain ⟨registry', hrun', -⟩ := engine_simulates.run holds_empty sqls'
  exact ⟨_, registry, _, registry', hrun, hrun', (database_views table).answersTo_congr rfl h⟩

/-- An INSERT into another table in between. -/
theorem engine_isolation_other :
    let own := [bytes "INSERT INTO t (a) VALUES (5)", bytes "SELECT * FROM T"]
    let mixed := [bytes "INSERT INTO t (a) VALUES (5)", bytes "INSERT INTO u (b) VALUES ('x')",
      bytes "SELECT * FROM T"]
    ∃ replies registry replies' registry',
      Machine.run engineExecuteSql [] own = some (replies, registry) ∧
      Machine.run engineExecuteSql [] mixed = some (replies', registry') ∧
      Machine.answersTo (namesTable (bytes "t")) own replies =
        Machine.answersTo (namesTable (bytes "t")) mixed replies' :=
  engine_isolation (bytes "t") (by decide +kernel)

end JungleDb
