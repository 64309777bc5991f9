import JungleDb.Storage.Rejected

/-!
# `storage_get_next_auto_id`

The loop keeps a number above every id it has read. It reads the ids with `strtoll`, which gives
`LLONG_MAX` for every number above it, and adds one in `long long`: the number is above all ids just
as long as each of them is below `LLONG_MAX`.
-/

namespace JungleDb

open CString Stdio

/-! ## The ids of a table -/

/-- The cells of the rows in the column `id`. -/
def idCells (tableName : Bytes) (columns : List Identifier) (lines : List Bytes) : List Bytes :=
  match storageFindColumnIndex columns idText with
  | none => []
  | some idIndex => (readRows tableName columns.length lines).map fun row => cellAt row idIndex

/-! ## The arithmetic of the loop -/

theorem utilsParseInteger_eq {text : Bytes} (h : utilsIsInteger text = true) :
    utilsParseInteger text = if intValue text < LLONG_MIN then LLONG_MIN
      else if LLONG_MAX < intValue text then LLONG_MAX else intValue text := by
  obtain ⟨hne, hdigits⟩ := utilsIsInteger_iff.mp h
  unfold utilsParseInteger
  rw [strtoll_eq hne hdigits]

/-- An id whose number `strtoll` returns, and to which one can be added. -/
def Countable (id : Bytes) : Prop := LLONG_MIN ≤ intValue id ∧ intValue id < LLONG_MAX

instance (id : Bytes) : Decidable (Countable id) := inferInstanceAs (Decidable (_ ∧ _))

/-- No call of `strtoll` saturates, and no `current_id + 1` overflows. -/
def ExactIds : Int → List Bytes → Prop
  | _, [] => True
  | nextId, id :: ids =>
    utilsParseInteger id = intValue id ∧
      (nextId ≤ utilsParseInteger id → utilsParseInteger id + 1 ≤ LLONG_MAX) ∧
      ExactIds (advanceId nextId id) ids

theorem one_le_LLONG_MAX : (1 : Int) ≤ LLONG_MAX := by decide

/-- One turn: below `LLONG_MAX` the number moves above the id, and not down. -/
theorem advanceId_spec {id : Bytes} {nextId : Int} (hint : utilsIsInteger id = true)
    (hid : intValue id < LLONG_MAX) (hpos : 1 ≤ nextId) (hnext : nextId ≤ LLONG_MAX) :
    intValue id < advanceId nextId id ∧ nextId ≤ advanceId nextId id ∧
      advanceId nextId id ≤ LLONG_MAX := by
  have hmin : LLONG_MIN = -9223372036854775808 := rfl
  have hmax : LLONG_MAX = 9223372036854775807 := rfl
  have hparse : utilsParseInteger id = if intValue id < LLONG_MIN then LLONG_MIN else intValue id := by
    rw [utilsParseInteger_eq hint, if_neg (not_lt.mpr hid.le)]
  unfold advanceId
  rw [hparse]
  by_cases hlow : intValue id < LLONG_MIN
  · rw [if_pos hlow, if_neg (by omega)]
    omega
  · rw [if_neg hlow]
    by_cases hle : nextId ≤ intValue id
    · have hbmod : Int.bmod (intValue id + 1) (2 ^ 64) = intValue id + 1 :=
        Int.bmod_eq_of_le (by omega) (by omega)
      rw [if_pos hle, hbmod]
      omega
    · rw [if_neg hle]
      omega

/-- A run: it ends above every id, and at 1 at least. -/
theorem foldl_advanceId_spec {ids : List Bytes} {nextId : Int}
    (hint : ∀ id ∈ ids, utilsIsInteger id = true) (hids : ∀ id ∈ ids, intValue id < LLONG_MAX)
    (hpos : 1 ≤ nextId) (hnext : nextId ≤ LLONG_MAX) :
    (∀ id ∈ ids, intValue id < ids.foldl advanceId nextId) ∧ nextId ≤ ids.foldl advanceId nextId ∧
      ids.foldl advanceId nextId ≤ LLONG_MAX := by
  induction ids generalizing nextId with
  | nil => exact ⟨nofun, le_rfl, hnext⟩
  | cons id ids ih =>
    obtain ⟨hfirst, hrest⟩ := List.forall_mem_cons.mp hint
    obtain ⟨hbelow, hbelows⟩ := List.forall_mem_cons.mp hids
    obtain ⟨habove, hgrows, hbound⟩ := advanceId_spec hfirst hbelow hpos hnext
    obtain ⟨haboves, hmore, hlast⟩ := ih hrest hbelows (hpos.trans hgrows) hbound
    rw [List.foldl_cons]
    exact ⟨List.forall_mem_cons.mpr ⟨habove.trans_le hmore, haboves⟩, hgrows.trans hmore, hlast⟩

/-- The run is exact just when every id is countable, in whatever order they come. -/
theorem exactIds_iff {ids : List Bytes} {nextId : Int}
    (hint : ∀ id ∈ ids, utilsIsInteger id = true) (hpos : 1 ≤ nextId) (hnext : nextId ≤ LLONG_MAX) :
    ExactIds nextId ids ↔ ∀ id ∈ ids, Countable id := by
  induction ids generalizing nextId with
  | nil => exact iff_of_true trivial nofun
  | cons id ids ih =>
    obtain ⟨hfirst, hrest⟩ := List.forall_mem_cons.mp hint
    have hturn : (utilsParseInteger id = intValue id ∧
        (nextId ≤ utilsParseInteger id → utilsParseInteger id + 1 ≤ LLONG_MAX)) ↔ Countable id := by
      have hmin : LLONG_MIN = -9223372036854775808 := rfl
      have hmax : LLONG_MAX = 9223372036854775807 := rfl
      rw [utilsParseInteger_eq hfirst]
      unfold Countable
      split
      · omega
      · split
        · omega
        · omega
    rw [ExactIds, List.forall_mem_cons, ← hturn, and_assoc]
    refine and_congr_right fun hparse => and_congr_right fun hadds => ?_
    obtain ⟨-, hgrows, hbound⟩ := advanceId_spec hfirst (hturn.mp ⟨hparse, hadds⟩).2 hpos hnext
    exact ih hrest (hpos.trans hgrows) hbound

/-! ## The id as a text -/

theorem lld_of_pos {n : Int} (h : 1 ≤ n) : lld n = decimal n.toNat := if_neg (by omega)

theorem intValue_lld {n : Int} (h : 1 ≤ n) : intValue (lld n) = n := by
  rw [lld_of_pos h, intValue_decimal]
  omega

theorem integerText_lld {n : Int} (hpos : 1 ≤ n) (hmax : n ≤ LLONG_MAX) : IntegerText (lld n) := by
  rw [lld_of_pos hpos]
  exact integerText_decimal (by omega)

/-- Two values are equal for a comparison if they are one text, or denote one `long long`. -/
theorem utilsCompareValues_eq_zero {lhs rhs : Bytes} :
    utilsCompareValues lhs rhs = 0 ↔
      lhs = rhs ∨ IntegerText lhs ∧ IntegerText rhs ∧ intValue lhs = intValue rhs := by
  unfold utilsCompareValues
  rw [utilsCompareIntegerStrings_eq]
  by_cases h : IntegerText lhs ∧ IntegerText rhs
  · rw [if_pos h]
    show (if intValue lhs < intValue rhs then (-1 : Int)
      else if intValue rhs < intValue lhs then 1 else 0) = 0 ↔ _
    constructor
    · intro hzero
      refine .inr ⟨h.1, h.2, ?_⟩
      by_contra hne
      rcases lt_or_gt_of_ne hne with hless | hless
      · rw [if_pos hless] at hzero
        cases hzero
      · rw [if_neg hless.le.not_gt, if_pos hless] at hzero
        cases hzero
    · intro hsame
      have hvalue : intValue lhs = intValue rhs := by
        rcases hsame with rfl | ⟨-, -, hvalue⟩
        · rfl
        · exact hvalue
      rw [hvalue, if_neg (lt_irrefl _), if_neg (lt_irrefl _)]
  · rw [if_neg h]
    show strcmp lhs rhs = 0 ↔ _
    rw [strcmp_eq]
    exact ⟨.inl, fun hsame => hsame.resolve_right fun hints => h ⟨hints.1, hints.2.1⟩⟩

/-- A number above that of an id is another id. -/
theorem utilsCompareValues_lld_ne {n : Int} (hpos : 1 ≤ n) {id : Bytes} (h : intValue id < n) :
    utilsCompareValues (lld n) id ≠ 0 := by
  intro hzero
  have hvalue : intValue (lld n) = intValue id := by
    rcases utilsCompareValues_eq_zero.mp hzero with hsame | ⟨-, -, hvalue⟩
    · rw [hsame]
    · exact hvalue
  rw [intValue_lld hpos] at hvalue
  omega

/-! ## The call -/

/-- On a table whose ids are integers the call fails, or computes without saturation and overflow an
id above every other, just when a line of the table cannot be read or every id is at least `LLONG_MIN`
and below `LLONG_MAX`. -/
theorem storageGetNextAutoId_iff {tableName : Bytes} {columns : List Identifier}
    {lines : List Bytes}
    (hint : ∀ id ∈ idCells tableName columns lines, utilsIsInteger id = true) :
    ((∃ e, storageGetNextAutoId tableName columns lines = .error e) ∨
      (ExactIds 1 (idCells tableName columns lines) ∧
        ∃ autoId, storageGetNextAutoId tableName columns lines = .ok autoId ∧
          IntegerText autoId ∧ 1 ≤ intValue autoId ∧
          ∀ id ∈ idCells tableName columns lines,
            intValue id < intValue autoId ∧ utilsCompareValues autoId id ≠ 0)) ↔
    (¬ LinesRead tableName columns.length lines ∨
      ∀ id ∈ idCells tableName columns lines, Countable id) := by
  unfold storageGetNextAutoId
  unfold idCells at hint ⊢
  cases hfind : storageFindColumnIndex columns idText with
  | none =>
    simp only
    exact iff_of_true (.inl ⟨_, rfl⟩) (.inr nofun)
  | some idIndex =>
    simp only [hfind] at hint ⊢
    by_cases hread : LinesRead tableName columns.length lines
    · have hrows : ∀ row ∈ readRows tableName columns.length lines,
          utilsIsInteger (cellAt row idIndex) = true :=
        fun row hrow => hint _ (List.mem_map_of_mem hrow)
      have hexact := exactIds_iff hint le_rfl one_le_LLONG_MAX
      rw [nextAutoId_ok_iff.mpr ⟨hread, hrows, rfl⟩]
      generalize (readRows tableName columns.length lines).map
        (fun row => cellAt row idIndex) = ids at hint hexact ⊢
      rw [hexact]
      constructor
      · rintro (⟨e, he⟩ | ⟨hids, -⟩)
        · cases he
        · exact .inr hids
      · intro hcond
        have hids := hcond.resolve_left fun hnot => hnot hread
        obtain ⟨habove, hpos, hmax⟩ := foldl_advanceId_spec hint (fun id hid => (hids id hid).2)
          le_rfl one_le_LLONG_MAX
        refine .inr ⟨hids, _, rfl, integerText_lld hpos hmax, ?_, fun id hid => ?_⟩
        · rw [intValue_lld hpos]
          exact hpos
        · rw [intValue_lld hpos]
          exact ⟨habove id hid, utilsCompareValues_lld_ne hpos (habove id hid)⟩
    · cases hnext : nextAutoId tableName columns.length idIndex 1 lines with
      | error e => exact iff_of_true (.inl ⟨e, rfl⟩) (.inl hread)
      | ok nextId => exact absurd (nextAutoId_ok_iff.mp hnext).1 hread

/-- The largest id is in front. -/
theorem storageGetNextAutoId_seven :
    ∃ autoId, storageGetNextAutoId (bytes "users") [lit _ "id", lit _ "name"]
        [bytes "7,Kim\n", bytes "-3,Lee\n"] = .ok autoId ∧ 1 ≤ intValue autoId := by
  have hcells : idCells (bytes "users") [lit _ "id", lit _ "name"]
      [bytes "7,Kim\n", bytes "-3,Lee\n"] = [bytes "7", bytes "-3"] := by
    decide +kernel
  have hint : ∀ id ∈ idCells (bytes "users") [lit _ "id", lit _ "name"]
      [bytes "7,Kim\n", bytes "-3,Lee\n"], utilsIsInteger id = true := by
    rw [hcells]
    decide
  have hcall : (storageGetNextAutoId (bytes "users") [lit _ "id", lit _ "name"]
      [bytes "7,Kim\n", bytes "-3,Lee\n"]).toOption ≠ none := by
    decide +kernel
  have hcountable : ∀ id ∈ idCells (bytes "users") [lit _ "id", lit _ "name"]
      [bytes "7,Kim\n", bytes "-3,Lee\n"], Countable id := by
    rw [hcells]
    decide
  rcases (storageGetNextAutoId_iff hint).mpr (.inr hcountable) with ⟨e, he⟩ |
    ⟨-, autoId, hid, -, hpos, -⟩
  · rw [he] at hcall
    exact absurd rfl hcall
  · exact ⟨autoId, hid, hpos⟩

/-- Behind the id `LLONG_MAX` the sum overflows. -/
theorem storageGetNextAutoId_overflows :
    ¬ ∀ tableName columns lines,
      (∀ id ∈ idCells tableName columns lines, utilsIsInteger id = true) →
      (∃ e, storageGetNextAutoId tableName columns lines = .error e) ∨
        (ExactIds 1 (idCells tableName columns lines) ∧
          ∃ autoId, storageGetNextAutoId tableName columns lines = .ok autoId ∧
            IntegerText autoId ∧ 1 ≤ intValue autoId ∧
            ∀ id ∈ idCells tableName columns lines,
              intValue id < intValue autoId ∧ utilsCompareValues autoId id ≠ 0) := by
  intro hgeneral
  have hcells : idCells (bytes "users") [lit _ "id", lit _ "name"]
      [bytes "9223372036854775807,Kim\n"] = [bytes "9223372036854775807"] := by
    decide +kernel
  have hcall : storageGetNextAutoId (bytes "users") [lit _ "id", lit _ "name"]
      [bytes "9223372036854775807,Kim\n"] = .ok (bytes "-9223372036854775808") := by
    decide +kernel
  have hcase := hgeneral (bytes "users") [lit _ "id", lit _ "name"]
    [bytes "9223372036854775807,Kim\n"]
  rw [hcells, hcall] at hcase
  rcases hcase (by decide) with ⟨e, he⟩ | ⟨-, autoId, hid, -, hpos, -⟩
  · cases he
  · cases hid
    revert hpos
    decide

end JungleDb
