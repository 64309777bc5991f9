import JungleDb.Runtime.Refine

/-!
# Runs of `table_insert_row`

Whatever statements a table created by `table_init` is given, it keeps representing a relation. Each
accepted statement extends the relation by the tuple of its values and a rejected one leaves it; so
every fact about a table after any run is read off the relation it represents.
-/

namespace JungleDb

open CArray CString

/-- A call of `table_insert_row`: its statement, what it returned and the table it left. -/
structure InsertRowCall where
  stmt : InsertStatement
  result : Sql Nat
  table : TableRuntime

/-- The call returned `SUCCESS`. -/
def InsertRowCall.accepted (c : InsertRowCall) : Bool := c.result.isOk

/-- The values of the accepted calls, in order. -/
def acceptedValues (calls : List InsertRowCall) : List Row :=
  (calls.filter InsertRowCall.accepted).map fun c => values c.stmt.items.1

/-- The calls for a list of statements, no allocation failing. -/
def insertRows : TableRuntime → List InsertStatement → Option (List InsertRowCall)
  | _, [] => some []
  | t, stmt :: stmts => do
    let (result, t') ← tableInsertRow t stmt []
    let calls ← insertRows t' stmts
    some (⟨stmt, result, t'⟩ :: calls)

/-- The tuples of a table that may not be there yet. -/
def tuplesOf : Option Relation → List Row
  | none => []
  | some R => R.tuples

/-- The table `o'` has the columns of `o` and `new` after its tuples. -/
structure Extends (o o' : Option Relation) (new : List Row) : Prop where
  tuples : tuplesOf o' = tuplesOf o ++ new
  columns : ∀ R, o = some R → ∃ R', o' = some R' ∧ R'.columns = R.columns

namespace Extends

theorem refl (o : Option Relation) : Extends o o [] :=
  ⟨(List.append_nil _).symm, fun R h => ⟨R, h, rfl⟩⟩

theorem trans {o₁ o₂ o₃ : Option Relation} {new new' : List Row} (h : Extends o₁ o₂ new)
    (h' : Extends o₂ o₃ new') : Extends o₁ o₃ (new ++ new') := by
  refine ⟨?_, fun R hR => ?_⟩
  · rw [h'.tuples, h.tuples, List.append_assoc]
  · obtain ⟨R₂, h₂, hcols⟩ := h.columns R hR
    obtain ⟨R₃, h₃, hcols'⟩ := h'.columns R₂ h₂
    exact ⟨R₃, h₃, hcols'.trans hcols⟩

end Extends

theorem insertInto_extends {o : Option Relation} {items : List InsertItem} {R : Relation}
    (h : insertInto o items = .ok R) : Extends o (some R) [values items] := by
  cases o with
  | none =>
    obtain ⟨-, htuples, -⟩ := Relation.create_ok h
    exact ⟨htuples, nofun⟩
  | some R₀ =>
    obtain ⟨hcols, htuples, -⟩ := Relation.insert_ok h
    refine ⟨htuples, fun R₁ h₁ => ⟨R, rfl, ?_⟩⟩
    obtain rfl := Option.some.inj h₁
    exact hcols

/-- One call, accepted or rejected. -/
theorem Represents.insertRow {t : TableRuntime} {o : Option Relation} (h : Represents t o)
    (stmt : InsertStatement) :
    ∃ result t' o', tableInsertRow t stmt [] = some (result, t') ∧ Represents t' o' ∧
      Extends o o' (acceptedValues [⟨stmt, result, t'⟩]) := by
  rw [tableInsertRow_eq]
  split
  · have hins := tableInsertNamed_refines (h.adopt stmt) stmt
    cases hR : insertInto o stmt.items.1 with
    | error e =>
      obtain ⟨t', hrun, hrep, -⟩ := (insertRefines_error hR).mp hins
      exact ⟨_, t', o, hrun, hrep, .refl o⟩
    | ok R =>
      obtain ⟨t', hrun, hrep, -⟩ := (insertRefines_ok hR).mp hins
      exact ⟨_, t', some R, hrun, hrep, insertInto_extends hR⟩
  · exact ⟨_, _, o, rfl, h.adopt stmt, .refl o⟩

theorem acceptedValues_cons (c : InsertRowCall) (calls : List InsertRowCall) :
    acceptedValues (c :: calls) = acceptedValues [c] ++ acceptedValues calls := by
  rw [← List.singleton_append]
  simp only [acceptedValues, List.filter_append, List.map_append]

/-- No call of a run is undefined. -/
theorem insertRows_isSome : ∀ (stmts : List InsertStatement) {t : TableRuntime}
    {o : Option Relation}, Represents t o →
      ∃ calls, insertRows t stmts = some calls ∧ calls.length = stmts.length
  | [], _, _, _ => ⟨[], rfl, rfl⟩
  | stmt :: stmts, t, o, h => by
    obtain ⟨result, t', o', hrun, hrep, -⟩ := h.insertRow stmt
    obtain ⟨calls, hcalls, hlen⟩ := insertRows_isSome stmts hrep
    refine ⟨⟨stmt, result, t'⟩ :: calls, ?_, by rw [List.length_cons, hlen, List.length_cons]⟩
    rw [insertRows, hrun]
    simp only [Option.bind_eq_bind, Option.bind_some, hcalls]

/-- After each call of a run the table represents the relation extended by the accepted values, and
the calls after it are a run from that table. -/
theorem insertRows_extends : ∀ (before : List InsertRowCall) {stmts : List InsertStatement}
    {t : TableRuntime} {o : Option Relation} {call : InsertRowCall} {after : List InsertRowCall},
    Represents t o → insertRows t stmts = some (before ++ call :: after) →
      ∃ o', Represents call.table o' ∧ Extends o o' (acceptedValues (before ++ [call])) ∧
        ∃ rest, insertRows call.table rest = some after
  | before, [], t, o, call, after, _, hrun => by
    cases before <;> cases hrun
  | before, stmt :: stmts, t, o, call, after, h, hrun => by
    obtain ⟨result, t', o', hstep, hrep, hext⟩ := h.insertRow stmt
    obtain ⟨calls, hcalls, -⟩ := insertRows_isSome stmts hrep
    rw [insertRows, hstep] at hrun
    simp only [Option.bind_eq_bind, Option.bind_some, hcalls, Option.some.injEq] at hrun
    cases before with
    | nil =>
      obtain ⟨rfl, rfl⟩ := List.cons.inj hrun
      exact ⟨o', hrep, hext, stmts, hcalls⟩
    | cons first before =>
      obtain ⟨rfl, rfl⟩ := List.cons.inj hrun
      obtain ⟨o'', hrep', hext', hrest⟩ := insertRows_extends before hrep hcalls
      refine ⟨o'', hrep', ?_, hrest⟩
      rw [List.cons_append, acceptedValues_cons]
      exact hext.trans hext'

/-- What holds of a table after any calls of `table_insert_row`. -/
structure TableInvariant (t : TableRuntime) : Prop where
  rowCount_le : t.rowCount ≤ t.capacity
  nextId : t.nextId = t.rowCount + 1
  row : ∀ i < t.rowCount, ∃ row, t.rows[i]? = some (some row) ∧ row.length = t.colCount ∧
    row.head? = some (decimal (i + 1))
  idColumn : t.loaded = true → rd t.columns 0 = idName ∧ rd t.columnValueKinds 0 = .int
  index : ∀ k : Int, bptreeSearch t.idIndex k =
    some (if 1 ≤ k ∧ k ≤ t.rowCount then some (k - 1) else none)

theorem RowStore.search {t : TableRuntime} {rows : List Row} (hr : RowStore t rows) (k : Int) :
    bptreeSearch t.idIndex k = some (if 1 ≤ k ∧ k ≤ t.rowCount then some (k - 1) else none) := by
  obtain ⟨es, hbuilt, hes⟩ := hr.index
  rw [hbuilt.search, hes]

theorem Represents.invariant {t : TableRuntime} {o : Option Relation} (h : Represents t o) :
    TableInvariant t := by
  cases o with
  | none =>
    obtain ⟨hload, hr⟩ := h
    refine ⟨hr.fits, hr.nextId, fun i hi => ?_, fun hl => ?_, hr.search⟩
    · rw [hr.rowCount] at hi
      cases hi
    · rw [hload] at hl
      cases hl
  | some R =>
    obtain ⟨hs, hr⟩ := h
    refine ⟨hr.fits, hr.nextId, fun i hi => ?_, fun _ => hs.column 0 idColumn rfl, hr.search⟩
    have hlt : i < R.tuples.length := by
      rw [← R.length_rows, ← hr.rowCount]
      exact hi
    have hrow : R.rows[i]? = some (decimal (i + 1) :: R.tuples[i]) := by
      rw [Relation.getElem?_rows, List.getElem?_eq_getElem hlt]
      rfl
    refine ⟨_, by rw [hr.slot i hi, hrow], ?_, rfl⟩
    rw [hs.colCount]
    exact Relation.length_of_mem_rows (List.mem_of_getElem? hrow)

/-- The rows of a represented table are its tuples under their ids. -/
theorem Represents.slot {t : TableRuntime} {o : Option Relation} (h : Represents t o) :
    t.rowCount = (tuplesOf o).length ∧ ∀ i v, (tuplesOf o)[i]? = some v →
      t.rows[i]? = some (some (decimal (i + 1) :: v)) := by
  cases o with
  | none => exact ⟨h.2.rowCount, nofun⟩
  | some R =>
    refine ⟨h.2.rowCount.trans R.length_rows, fun i v hv => ?_⟩
    have hi : i < t.rowCount := by
      rw [h.2.rowCount, R.length_rows]
      exact (List.getElem?_eq_some_iff.mp hv).1
    rw [h.2.slot i hi, Relation.getElem?_rows]
    rw [show R.tuples[i]? = some v from hv]
    rfl

/-- The columns of a loaded table stay when the relation is extended. -/
theorem Represents.columns_eq {t t' : TableRuntime} {o o' : Option Relation} {new : List Row}
    (h : Represents t o) (h' : Represents t' o') (hext : Extends o o' new)
    (hload : t.loaded = true) :
    t'.loaded = true ∧ t'.colCount = t.colCount ∧ ∀ i < t.colCount,
      rd t'.columns i = rd t.columns i ∧ rd t'.columnValueKinds i = rd t.columnValueKinds i := by
  cases o with
  | none =>
    rw [h.1] at hload
    cases hload
  | some R =>
    obtain ⟨R', rfl, hcols⟩ := hext.columns R rfl
    have hheader : R'.header = R.header := by rw [Relation.header, hcols, Relation.header]
    have hs' := h'.1
    rw [hheader] at hs'
    refine ⟨hs'.loaded, hs'.colCount.trans h.1.colCount.symm, fun i hi => ?_⟩
    rw [h.1.colCount] at hi
    obtain ⟨hname, hkind⟩ := h.1.column i _ (List.getElem?_eq_getElem hi)
    obtain ⟨hname', hkind'⟩ := hs'.column i _ (List.getElem?_eq_getElem hi)
    exact ⟨hname'.trans hname.symm, hkind'.trans hkind.symm⟩

/-- The rows of a table stay when the relation is extended. -/
theorem Represents.slot_eq {t t' : TableRuntime} {o o' : Option Relation} {new : List Row}
    (h : Represents t o) (h' : Represents t' o') (hext : Extends o o' new) :
    ∀ i < t.rowCount, t'.rows[i]? = t.rows[i]? := by
  intro i hi
  rw [h.slot.1] at hi
  have hold := List.getElem?_eq_getElem hi
  have hnew : (tuplesOf o')[i]? = some (tuplesOf o)[i] := by
    rw [hext.tuples, List.getElem?_append_left hi, hold]
  rw [h.slot.2 i _ hold, h'.slot.2 i _ hnew]

/-- After every call of every run of `table_insert_row`: the invariant holds, the accepted values
are the rows, and no later call changes the schema or a row. -/
theorem tableInsertRow_invariant (stmts : List InsertStatement) :
    ∃ calls, insertRows tableInit stmts = some calls ∧ calls.length = stmts.length ∧
      ∀ before call after, calls = before ++ call :: after →
        TableInvariant call.table ∧
        call.table.rowCount = (acceptedValues (before ++ [call])).length ∧
        (∀ i v, (acceptedValues (before ++ [call]))[i]? = some v →
          call.table.rows[i]? = some (some (decimal (i + 1) :: v))) ∧
        ∀ later ∈ after,
          (call.table.loaded = true → later.table.loaded = true ∧
            later.table.colCount = call.table.colCount ∧ ∀ i < call.table.colCount,
              rd later.table.columns i = rd call.table.columns i ∧
              rd later.table.columnValueKinds i = rd call.table.columnValueKinds i) ∧
          ∀ i < call.table.rowCount, later.table.rows[i]? = call.table.rows[i]? := by
  obtain ⟨calls, hcalls, hlen⟩ := insertRows_isSome stmts represents_init
  refine ⟨calls, hcalls, hlen, ?_⟩
  rintro before call after rfl
  obtain ⟨o, hrep, hext, rest, hrest⟩ := insertRows_extends before represents_init hcalls
  have htuples : tuplesOf o = acceptedValues (before ++ [call]) := hext.tuples
  refine ⟨hrep.invariant, ?_, ?_, fun later hlater => ?_⟩
  · rw [hrep.slot.1, htuples]
  · rw [← htuples]
    exact hrep.slot.2
  · obtain ⟨between, beyond, rfl⟩ := List.append_of_mem hlater
    obtain ⟨o', hrep', hext', -⟩ := insertRows_extends between hrep hrest
    exact ⟨hrep.columns_eq hrep' hext', hrep.slot_eq hrep' hext'⟩

end JungleDb
