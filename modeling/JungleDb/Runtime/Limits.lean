import JungleDb.Runtime.Insert

/-!
# How far a table grows

Along a run of statements that conform to the schema a table grows by one row with each call. Its
capacity is a power of two times the first one, so it is full with `2 ^ 30` rows; the doubling that
the next call needs leaves `int` long before the ids do.
-/

namespace JungleDb

open CArray CString

/-- The statement is for the table and has the columns of its schema, or can make the schema. -/
def Conforms (t : TableRuntime) (stmt : InsertStatement) : Prop :=
  utilsEqualsIgnoreCase (t.adopt stmt).tableName.text stmt.tableName.text = true ∧
    (if (t.adopt stmt).loaded then tableValidateInsertSchema (t.adopt stmt) stmt
      else (tableInitializeSchema (t.adopt stmt) stmt).1) = .ok ()

/-- Each statement conforms to the table that the calls before it leave. -/
def Conforming : TableRuntime → List InsertStatement → Prop
  | _, [] => True
  | t, stmt :: stmts => Conforms t stmt ∧
      ∀ result t', tableInsertRow t stmt [] = some (result, t') → Conforming t' stmts

/-- The call meets no limit but that of the ids. -/
structure WithinLimits (t : TableRuntime) (c : InsertRowCall) : Prop where
  doubling : t.capacity ≤ t.rowCount → (t.capacity * 2 : Int) ≤ INT_MAX
  accepted : t.nextId ≤ INT_MAX → c.accepted = true
  rejected : INT_MAX < t.nextId →
    c.result = .error (message "Runtime id exceeds B+ tree key range.") ∧
      (∀ i < t.rowCount, c.table.rows[i]? = t.rows[i]?) ∧
      c.table.rowCount = t.rowCount ∧ c.table.nextId = t.nextId

/-- All calls of a run do. -/
def StaysWithin : TableRuntime → List InsertRowCall → Prop
  | _, [] => True
  | t, c :: calls => WithinLimits t c ∧ StaysWithin c.table calls

/-! ## Conforming statements -/

/-- The items are those of an INSERT that the table has the columns for. -/
def Fits : Option Relation → List InsertItem → Prop
  | none, items => ¬ (items = [] ∨ MAX_COLUMNS ≤ items.length) ∧
      ¬ ∃ item ∈ items, SameName item.column.text idName.text
  | some R, items => items.length = R.columns.length ∧ mismatch R.columns items = none

theorem reported_eq_ok {e : Option InsertError} : reported e = .ok () ↔ e = none := by
  cases e with
  | none => exact iff_of_true rfl rfl
  | some e => exact iff_of_false nofun nofun

/-- A table that is not loaded gets its schema from items that fit, and only from them. -/
theorem tableInitializeSchema_fits {t : TableRuntime} (hload : t.loaded = false)
    (stmt : InsertStatement) :
    ((tableInitializeSchema t stmt).1 = .ok () ↔ Fits none stmt.items.1) ∧
      ((tableInitializeSchema t stmt).2.loaded = true ↔ Fits none stmt.items.1) := by
  obtain ⟨t', -, -, hspec⟩ := tableInitializeSchema_spec hload stmt
  unfold Fits
  split at hspec
  · rename_i hcount
    rw [hspec.1]
    refine ⟨iff_of_false nofun fun hfits => hfits.1 hcount, iff_of_false ?_ fun hfits => hfits.1 hcount⟩
    rw [hspec.2]
    exact Bool.false_ne_true
  · rename_i hcount
    split at hspec
    · rename_i hid
      rw [hspec.1]
      refine ⟨iff_of_false nofun fun hfits => hfits.2 hid, iff_of_false ?_ fun hfits => hfits.2 hid⟩
      rw [hspec.2]
      exact Bool.false_ne_true
    · rename_i hid
      rw [hspec.1]
      exact ⟨iff_of_true rfl ⟨hcount, hid⟩, iff_of_true hspec.2.loaded ⟨hcount, hid⟩⟩

theorem Represents.conforms_iff {t : TableRuntime} {o : Option Relation} (h : Represents t o)
    (stmt : InsertStatement) :
    Conforms t stmt ↔
      SameName (t.adopt stmt).tableName.text stmt.tableName.text ∧ Fits o stmt.items.1 := by
  have hnamed := h.adopt stmt
  unfold Conforms
  rw [utilsEqualsIgnoreCase_eq, decide_eq_true_eq]
  refine and_congr_right fun _ => ?_
  cases o with
  | none =>
    rw [hnamed.1, if_neg Bool.false_ne_true]
    exact (tableInitializeSchema_fits hnamed.1 stmt).1
  | some R =>
    rw [hnamed.1.loaded, if_pos rfl, hnamed.1.validate, reported_eq_ok]
    unfold Fits
    by_cases hlen : stmt.items.1.length = R.columns.length
    · rw [if_neg (not_not.mpr hlen)]
      exact ⟨fun hm => ⟨hlen, hm⟩, fun hm => hm.2⟩
    · rw [if_pos hlen]
      exact iff_of_false nofun fun hm => hlen hm.1

/-- Items that fit are inserted, and fit again, as long as there is room. -/
theorem insertInto_fits {o : Option Relation} {items : List InsertItem} (h : Fits o items) :
    if (tuplesOf o).length = MAX_ROWS then insertInto o items = .error .full
    else ∃ R, insertInto o items = .ok R ∧ R.tuples.length = (tuplesOf o).length + 1 ∧
      Fits (some R) items := by
  cases o with
  | none =>
    obtain ⟨R, hR⟩ := Relation.create_eq_ok h.1 h.2
    obtain ⟨hcols, htuples, -⟩ := Relation.create_ok hR
    rw [if_neg (by decide)]
    refine ⟨R, hR, ?_, ?_, ?_⟩
    · rw [htuples]
      rfl
    · rw [hcols, List.length_map]
    · rw [hcols]
      exact mismatch_toColumn items
  | some R =>
    obtain ⟨hlen, hmatch⟩ := h
    show if R.tuples.length = MAX_ROWS then _ else _
    by_cases hfull : R.tuples.length = MAX_ROWS
    · rw [if_pos hfull, insertInto, Relation.insert, dif_neg (not_not.mpr hlen), hmatch]
      exact dif_pos hfull
    · rw [if_neg hfull]
      obtain ⟨R', hR⟩ := Relation.insert_eq_ok hlen hmatch hfull
      obtain ⟨hcols, htuples, -⟩ := Relation.insert_ok hR
      refine ⟨R', hR, ?_, ?_, ?_⟩
      · rw [htuples, List.length_append]
        rfl
      · rw [hcols]
        exact hlen
      · rw [hcols]
        exact hmatch

/-- A call of a conforming statement: a row is added until the table is full. -/
theorem Represents.conforming {t : TableRuntime} {o : Option Relation} (h : Represents t o)
    {stmt : InsertStatement} (hc : Conforms t stmt) :
    ∃ result t' o', tableInsertRow t stmt [] = some (result, t') ∧ Represents t' o' ∧
      Fits o' stmt.items.1 ∧ t'.tableName = (t.adopt stmt).tableName ∧
      if (tuplesOf o).length = MAX_ROWS then result.isOk = false
      else result.isOk = true ∧ (tuplesOf o').length = (tuplesOf o).length + 1 := by
  obtain ⟨hname, hfits⟩ := (h.conforms_iff stmt).mp hc
  have hins := tableInsertNamed_refines (h.adopt stmt) stmt
  have hinto := insertInto_fits hfits
  rw [tableInsertRow_eq, if_pos hname]
  by_cases hfull : (tuplesOf o).length = MAX_ROWS
  · rw [if_pos hfull] at hinto
    obtain ⟨t', hrun, hrep, hname'⟩ := (insertRefines_error hinto).mp hins
    refine ⟨_, t', o, hrun, hrep, hfits, hname', ?_⟩
    rw [if_pos hfull]
    rfl
  · rw [if_neg hfull] at hinto
    obtain ⟨R, hR, hlen, hfits'⟩ := hinto
    obtain ⟨t', hrun, hrep, hname'⟩ := (insertRefines_ok hR).mp hins
    refine ⟨_, t', some R, hrun, hrep, hfits', hname', ?_⟩
    rw [if_neg hfull]
    exact ⟨rfl, hlen⟩

/-- A statement that conforms goes on to do so. -/
theorem Represents.conforming_replicate {t : TableRuntime} {o : Option Relation}
    (h : Represents t o) {stmt : InsertStatement} (hc : Conforms t stmt) (n : Nat) :
    Conforming t (List.replicate n stmt) := by
  induction n generalizing t o with
  | zero => exact trivial
  | succ n ih =>
    refine ⟨hc, ?_⟩
    intro result t' hrun
    obtain ⟨_, _, o', hrun', hrep, hfits, hname, -⟩ := h.conforming hc
    rw [hrun', Option.some.injEq, Prod.mk.injEq] at hrun
    obtain ⟨rfl, rfl⟩ := hrun
    refine ih hrep ((hrep.conforms_iff stmt).mpr ⟨?_, hfits⟩)
    have hsame := ((h.conforms_iff stmt).mp hc).1
    unfold TableRuntime.adopt
    split
    · rfl
    · rw [hname]
      exact hsame

/-! ## Runs -/

/-- The doubling stays in `int` as long as the table is not full. -/
theorem RowStore.doubling {t : TableRuntime} {rows : List Row} (hr : RowStore t rows)
    (hfull : t.capacity ≤ t.rowCount) :
    (t.capacity * 2 : Int) ≤ INT_MAX ↔ rows.length < MAX_ROWS := by
  have hle := hr.capacity_le
  have hfits := hr.fits
  have hcount := hr.rowCount
  have hmax : MAX_ROWS = 2 ^ 30 := rfl
  have hint : INT_MAX = 2 ^ 31 - 1 := rfl
  omega

/-- A call of a conforming statement keeps to the limits just when the table is not full. -/
theorem Represents.withinLimits {t : TableRuntime} {o : Option Relation} (h : Represents t o)
    {stmt : InsertStatement} {result : Sql Nat} {t' : TableRuntime}
    (hok : result.isOk = true ↔ (tuplesOf o).length ≠ MAX_ROWS) :
    WithinLimits t ⟨stmt, result, t'⟩ ↔ (tuplesOf o).length < MAX_ROWS := by
  obtain ⟨rows, hr, hlen⟩ : ∃ rows, RowStore t rows ∧ rows.length = (tuplesOf o).length := by
    cases o with
    | none => exact ⟨[], h.2, rfl⟩
    | some R => exact ⟨R.rows, h.2, R.length_rows⟩
  have hfits := hr.fits
  have hle := hr.capacity_le
  have hcount := hr.rowCount
  have hnext := hr.nextId
  have hmax : MAX_ROWS = 2 ^ 30 := rfl
  have hint : INT_MAX = 2 ^ 31 - 1 := rfl
  constructor
  · intro hwithin
    by_contra hfull
    have hnot := (hr.doubling (by omega)).mp (hwithin.doubling (by omega))
    omega
  · intro hroom
    refine ⟨?_, ?_, ?_⟩
    · intro hfull
      exact (hr.doubling hfull).mpr (hlen ▸ hroom)
    · intro _
      exact hok.mpr (Nat.ne_of_lt hroom)
    · intro hlarge
      omega

theorem insertRows_staysWithin {t : TableRuntime} {o : Option Relation} (h : Represents t o)
    {stmts : List InsertStatement} (hc : Conforming t stmts) :
    ∃ calls, insertRows t stmts = some calls ∧
      (StaysWithin t calls ↔ stmts = [] ∨ (tuplesOf o).length + stmts.length ≤ MAX_ROWS) := by
  induction stmts generalizing t o with
  | nil => exact ⟨[], rfl, iff_of_true trivial (.inl rfl)⟩
  | cons stmt stmts ih =>
    obtain ⟨hconforms, hmore⟩ := hc
    obtain ⟨result, t', o', hrun, hrep, -, -, hresult⟩ := h.conforming hconforms
    obtain ⟨calls, hcalls, hiff⟩ := ih hrep (hmore result t' hrun)
    have hok : result.isOk = true ↔ (tuplesOf o).length ≠ MAX_ROWS := by
      split at hresult
      · rename_i hfull
        rw [hresult]
        exact iff_of_false Bool.false_ne_true (not_not.mpr hfull)
      · rename_i hfull
        exact iff_of_true hresult.1 hfull
    refine ⟨⟨stmt, result, t'⟩ :: calls, ?_, ?_⟩
    · rw [insertRows, hrun]
      simp only [Option.bind_eq_bind, Option.bind_some, hcalls]
    · rw [StaysWithin, h.withinLimits hok, hiff, List.length_cons]
      constructor
      · rintro ⟨hroom, rfl | hle⟩
        · exact .inr hroom
        · rw [if_neg (Nat.ne_of_lt hroom)] at hresult
          omega
      · rintro (hnil | hle)
        · cases hnil
        · have hroom : (tuplesOf o).length < MAX_ROWS := by omega
          rw [if_neg (Nat.ne_of_lt hroom)] at hresult
          exact ⟨hroom, .inr (by omega)⟩

/-- A run of conforming statements meets no limit but that of the ids just when it has at most
`2 ^ 30` of them. -/
theorem tableInsertRow_limits (name : Identifier) (stmts : List InsertStatement)
    (hc : Conforming { tableInit with tableName := name } stmts) :
    ∃ calls, insertRows { tableInit with tableName := name } stmts = some calls ∧
      (StaysWithin { tableInit with tableName := name } calls ↔ stmts.length ≤ 2 ^ 30) := by
  obtain ⟨calls, hcalls, hiff⟩ := insertRows_staysWithin (represents_named name) hc
  refine ⟨calls, hcalls, hiff.trans ⟨?_, ?_⟩⟩
  · rintro (rfl | hle)
    · exact Nat.zero_le _
    · exact (Nat.le_add_left _ _).trans hle
  · intro hle
    refine .inr ?_
    rw [show (tuplesOf none).length = 0 from rfl, Nat.zero_add]
    exact hle

/-- `INSERT INTO t (a) VALUES (1);` -/
def insertOne : InsertStatement := ⟨lit _ "t", ⟨[⟨lit _ "a", lit _ "1", .int⟩], by decide⟩⟩

theorem conforms_insertOne : Conforms { tableInit with tableName := lit _ "t" } insertOne := by
  refine ((represents_named (lit _ "t")).conforms_iff insertOne).mpr ⟨rfl, ?_, ?_⟩
  · rintro (hnil | hlong)
    · cases hnil
    · exact absurd hlong (by decide)
  · rintro ⟨item, hitem, hsame⟩
    cases List.mem_singleton.mp hitem
    exact absurd hsame (by decide)

/-- A thousand inserts. -/
theorem tableInsertRow_limits_thousand :
    ∃ calls, insertRows { tableInit with tableName := lit _ "t" } (List.replicate 1000 insertOne) =
        some calls ∧ StaysWithin { tableInit with tableName := lit _ "t" } calls := by
  obtain ⟨calls, hcalls, hiff⟩ := tableInsertRow_limits (lit _ "t") (List.replicate 1000 insertOne)
    ((represents_named _).conforming_replicate conforms_insertOne 1000)
  refine ⟨calls, hcalls, hiff.mpr ?_⟩
  rw [List.length_replicate]
  decide

/-- The insert after `2 ^ 30` others overflows the capacity, and is rejected. -/
theorem tableInsertRow_limits_overflow :
    ¬ ∀ (name : Identifier) (stmts : List InsertStatement),
      Conforming { tableInit with tableName := name } stmts →
        ∃ calls, insertRows { tableInit with tableName := name } stmts = some calls ∧
          StaysWithin { tableInit with tableName := name } calls := by
  intro h
  have hrep := represents_named (lit _ "t")
  have hc := hrep.conforming_replicate conforms_insertOne (2 ^ 30 + 1)
  obtain ⟨calls, hcalls, hwithin⟩ := h _ _ hc
  obtain ⟨calls', hcalls', hiff⟩ := insertRows_staysWithin hrep hc
  rw [hcalls, Option.some.injEq] at hcalls'
  subst hcalls'
  rcases hiff.mp hwithin with hnil | hle
  · exact absurd hnil (List.cons_ne_nil _ _)
  · rw [List.length_replicate] at hle
    have hmax : MAX_ROWS = 2 ^ 30 := rfl
    omega

end JungleDb
