import JungleDb.Cli.Width
import JungleDb.Server.Response

/-!
# The tables on the terminal

`main_print_table_result` of `main.c` prints the columns and rows of a result. It gives each column
the width of its widest string and pads the others with spaces. A cell that is printed ends in a
space, and the next one begins in ASCII, so that the widths of the strings add up along a line, and
the separators stand in the same place on all of them.
-/

namespace JungleDb

open CArray CString Stdio Utf8

/-! ## What is printed -/

/-- The memory of a string. -/
def stringMemory (text : Bytes) : Bytes := text ++ [0]

/-- `utils_print_padded` on a stream, where none is NULL. -/
def utilsPrintPadded (text : Option Bytes) (targetWidth : Int) : Option Bytes :=
  match text with
  | none => some []
  | some text => do
    let currentWidth ← utilsDisplayWidth (some text)
    some (cstring text ++ List.replicate (targetWidth - currentWidth).toNat (ch ' '))

/-- The part of a border above and below a column. -/
def borderColumn (width : Int) : Bytes :=
  ch '+' :: List.replicate (wrap (width + 2)).toNat (ch '-')

/-- `main_print_border`. -/
def mainPrintBorder (widths : List Int) (colCount : Nat) : Option Bytes := do
  let columns ← (List.range colCount).mapM fun i => (widths[i]?).map borderColumn
  some (columns.flatten ++ bytes "+\n")

/-- `widths[i] = utils_display_width(result->columns[i])`; there are `MAX_COLUMNS` elements. -/
def columnNameWidth (result : QueryResult) (i : Nat) : Option Int :=
  if i < MAX_COLUMNS then do
    let column ← result.columns[i]?
    utilsDisplayWidth (some (stringMemory column.text))
  else none

/-- The loop over the names of the columns. -/
def columnNameWidths (result : QueryResult) : Option (List Int) :=
  (List.range result.columnCount).mapM (columnNameWidth result)

/-- The body of the loop over the cells of a row. -/
def widenColumn (row : Row) (widths : List Int) (j : Nat) : Option (List Int) := do
  let cell ← row[j]?
  let cellWidth ← utilsDisplayWidth (some (stringMemory cell))
  let width ← widths[j]?
  some (if width < cellWidth then widths.set j cellWidth else widths)

/-- The loop over the cells of a row. -/
def widenColumns (columnCount : Nat) (widths : List Int) (row : Row) : Option (List Int) :=
  (List.range columnCount).foldlM (widenColumn row) widths

/-- `printf("| "); utils_print_padded(...); putchar(' ');` -/
def printCell (texts : List Bytes) (widths : List Int) (i : Nat) : Option Bytes := do
  let text ← texts[i]?
  let width ← widths[i]?
  let padded ← utilsPrintPadded (some (stringMemory text)) width
  some (bytes "| " ++ padded ++ [ch ' '])

/-- The loop over the columns of the header or of a row, and `puts("|")`. -/
def printLine (texts : List Bytes) (widths : List Int) (columnCount : Nat) : Option Bytes := do
  let cells ← (List.range columnCount).mapM (printCell texts widths)
  some (cells.flatten ++ bytes "|\n")

/-- `"%d row%s selected.\n"`. -/
def rowsSelected (rowCount : Nat) : Bytes :=
  decimal rowCount ++ bytes " row" ++ (if rowCount = 1 then [] else bytes "s") ++
    bytes " selected.\n"

/-- `main_print_table_result` of a pointer, where none is NULL. -/
def mainPrintTableResult : Option QueryResult → Option Bytes
  | none => some []
  | some result => do
    let widths ← columnNameWidths result
    let widths ← result.rows.foldlM (widenColumns result.columnCount) widths
    let border ← mainPrintBorder widths result.columnCount
    let header ← printLine (result.columns.map CStr.text) widths result.columnCount
    let lines ← result.rows.mapM fun row => printLine row widths result.columnCount
    some (border ++ header ++ border ++ lines.flatten ++ border ++ rowsSelected result.rows.length)

/-- `main_print_query_result`: what it prints on `stdout` and on `stderr`. -/
def mainPrintQueryResult (result : QueryResult) : Option (Bytes × Bytes) :=
  if !result.success then
    some ([], bytes "Error: " ++ result.error.text ++ bytes "\n")
  else if result.kind = .message then
    some (result.message.text ++ bytes "\n", [])
  else (mainPrintTableResult (some result)).map fun output => (output, [])

/-- The arrays of a result have what its counts say. -/
structure QueryResult.IsTable (result : QueryResult) : Prop where
  fits : result.columnCount ≤ MAX_COLUMNS
  columns : result.columns.length = result.columnCount
  rows : ∀ row ∈ result.rows, row.length = result.columnCount

/-! ## The widths of the columns -/

/-- The width of a string. -/
def widthOf (text : Bytes) : Int := (utilsDisplayWidth (some (stringMemory text))).getD 0

theorem cstring_stringMemory (text : Bytes) : cstring (stringMemory text) = cstring text := by
  induction text with
  | nil => rfl
  | cons b text ih =>
    by_cases hb : b = 0
    · subst hb
      rfl
    · have hcons : ∀ rest, cstring (b :: rest) = b :: cstring rest := fun _ =>
        List.takeWhile_cons_of_pos (decide_eq_true hb)
      rw [stringMemory, List.cons_append, hcons, hcons]
      exact congrArg (b :: ·) ih

theorem exists_spans_widthOf (text : Bytes) :
    ∃ n, Spans (cstring text) n ∧ widthOf text = wrap n ∧
      utilsDisplayWidth (some (stringMemory text)) = some (wrap n) := by
  have hmem : 0 ∈ stringMemory text := List.mem_append_right text List.mem_cons_self
  obtain ⟨rest, hrest⟩ := exists_terminator hmem
  obtain ⟨n, hn⟩ := exists_spans (zero_notMem_cstring text)
  have hwidth : utilsDisplayWidth (some (stringMemory text)) = some (wrap n) := by
    rw [hrest, cstring_stringMemory]
    exact hn.width rest
  exact ⟨n, hn, by rw [widthOf, hwidth, Option.getD_some], hwidth⟩

theorem utilsDisplayWidth_stringMemory (text : Bytes) :
    utilsDisplayWidth (some (stringMemory text)) = some (widthOf text) := by
  obtain ⟨n, -, hwidth, heval⟩ := exists_spans_widthOf text
  rw [heval, hwidth]

/-- Each column raised to the width of its cell. -/
def widen (widths : List Int) (row : Row) : List Int := widths.zipWith max (row.map widthOf)

theorem length_widen {widths : List Int} {row : Row} (hrow : row.length = widths.length) :
    (widen widths row).length = widths.length := by
  rw [widen, List.length_zipWith, List.length_map, hrow, Nat.min_self]

/-- The widths of the columns: each is that of its widest string. -/
def tableWidths (result : QueryResult) : List Int :=
  result.rows.foldl widen (result.columns.map fun column => widthOf column.text)

/-- A column gets the width of the cell if that is larger. -/
theorem widenColumn_eq {row : Row} {j : Nat} {cell : Bytes} (hcell : row[j]? = some cell)
    {before : List Int} (hbefore : before.length = j) (width : Int) (after : List Int) :
    widenColumn row (before ++ width :: after) j =
      some (before ++ max width (widthOf cell) :: after) := by
  subst hbefore
  have hwidth : (before ++ width :: after)[before.length]? = some width := by
    rw [List.getElem?_append_right (Nat.le_refl _), Nat.sub_self]
    rfl
  simp only [widenColumn, hcell, utilsDisplayWidth_stringMemory, hwidth, Option.bind_eq_bind,
    Option.bind_some]
  by_cases hlt : width < widthOf cell
  · rw [if_pos hlt, max_eq_right (Int.le_of_lt hlt), List.set_append_right _ _ (Nat.le_refl _),
      Nat.sub_self, List.set_cons_zero]
  · rw [if_neg hlt, max_eq_left (Int.not_lt.mp hlt)]

/-- Up to a column the widths are raised. -/
theorem foldlM_widenColumn {widths : List Int} {row : Row} (hrow : row.length = widths.length)
    {k : Nat} (hk : k ≤ widths.length) :
    (List.range k).foldlM (widenColumn row) widths =
      some ((widen widths row).take k ++ widths.drop k) := by
  have hlength := length_widen hrow
  induction k with
  | zero => rfl
  | succ k ih =>
    have hbefore : ((widen widths row).take k).length = k := by
      rw [List.length_take, hlength]
      omega
    have hcell : row[k]? = some row[k] := List.getElem?_eq_getElem (by omega)
    have hturn := widenColumn_eq hcell hbefore widths[k] (widths.drop (k + 1))
    rw [List.range_succ, List.foldlM_append, ih (Nat.le_of_succ_le hk),
      List.drop_eq_getElem_cons hk]
    simp only [List.foldlM_cons, List.foldlM_nil, hturn, Option.bind_eq_bind, Option.bind_some,
      Option.pure_def]
    simp only [widen] at hlength ⊢
    rw [List.take_succ_eq_append_getElem (by omega), List.getElem_zipWith, List.getElem_map,
      ← List.append_cons]

theorem widenColumns_eq {widths : List Int} {row : Row} (hrow : row.length = widths.length) :
    widenColumns widths.length widths row = some (widen widths row) := by
  rw [widenColumns, foldlM_widenColumn hrow (Nat.le_refl _), List.drop_length, List.append_nil,
    List.take_of_length_le (Nat.le_of_eq (length_widen hrow))]

theorem foldlM_widenColumns {rows : List Row} {widths : List Int}
    (hrows : ∀ row ∈ rows, row.length = widths.length) :
    rows.foldlM (widenColumns widths.length) widths = some (rows.foldl widen widths) := by
  induction rows generalizing widths with
  | nil => rfl
  | cons row rows ih =>
    obtain ⟨hrow, hrows⟩ := List.forall_mem_cons.mp hrows
    have hlength := length_widen hrow
    have hmore := @ih (widen widths row) fun row' hmem => (hrows row' hmem).trans hlength.symm
    rw [hlength] at hmore
    rw [List.foldlM_cons, widenColumns_eq hrow]
    exact hmore

theorem columnNameWidths_eq {result : QueryResult} (h : result.IsTable) :
    columnNameWidths result = some (result.columns.map fun column => widthOf column.text) := by
  have hlength : (result.columns.map fun column => widthOf column.text).length =
      result.columnCount := by
    rw [List.length_map, h.columns]
  rw [columnNameWidths, ← hlength]
  refine mapM_range fun i width hwidth => ?_
  have hlt := (List.getElem?_eq_some_iff.mp hwidth).1
  rw [List.getElem?_map] at hwidth
  obtain ⟨column, hcolumn, rfl⟩ := Option.map_eq_some_iff.mp hwidth
  rw [columnNameWidth, if_pos (Nat.lt_of_lt_of_le (hlength ▸ hlt) h.fits)]
  simp only [hcolumn, Option.bind_eq_bind, Option.bind_some, utilsDisplayWidth_stringMemory]

/-- No string is wider than its column. -/
def Covers (widths : List Int) (texts : List Bytes) : Prop :=
  List.Forall₂ (fun text width => widthOf text ≤ width) texts widths

theorem covers_map (texts : List Bytes) : Covers (texts.map widthOf) texts :=
  List.forall₂_map_right_iff.mpr (List.forall₂_same.mpr fun _ _ => Int.le_refl _)

theorem Covers.widen {widths : List Int} {texts : List Bytes} (h : Covers widths texts)
    {row : Row} (hrow : row.length = widths.length) : Covers (widen widths row) texts := by
  induction h generalizing row with
  | nil =>
    obtain rfl := List.length_eq_zero_iff.mp hrow
    exact .nil
  | cons hle _ ih =>
    cases row with
    | nil => cases hrow
    | cons cell row => exact .cons (hle.trans (le_max_left _ _)) (ih (Nat.succ.inj hrow))

theorem covers_widen {widths : List Int} {row : Row} (hrow : row.length = widths.length) :
    Covers (widen widths row) row := by
  induction widths generalizing row with
  | nil =>
    obtain rfl := List.length_eq_zero_iff.mp hrow
    exact .nil
  | cons width widths ih =>
    cases row with
    | nil => cases hrow
    | cons cell row => exact .cons (le_max_right _ _) (ih (Nat.succ.inj hrow))

/-- Raised to all rows, the columns still hold what they held, and hold every row. -/
theorem covers_foldl {rows : List Row} {widths : List Int} {texts : List Bytes}
    (hrows : ∀ row ∈ rows, row.length = widths.length) (h : Covers widths texts) :
    ∀ line ∈ texts :: rows, Covers (rows.foldl JungleDb.widen widths) line := by
  induction rows generalizing widths texts with
  | nil => exact List.forall_mem_singleton.mpr h
  | cons row rows ih =>
    obtain ⟨hrow, hrows⟩ := List.forall_mem_cons.mp hrows
    have hlengths : ∀ row' ∈ rows, row'.length = (JungleDb.widen widths row).length :=
      fun row' hmem => (hrows row' hmem).trans (length_widen hrow).symm
    have htexts := ih hlengths (h.widen hrow)
    have hlater := ih hlengths (covers_widen hrow)
    exact List.forall_mem_cons.mpr ⟨(List.forall_mem_cons.mp htexts).1, hlater⟩

theorem covers_tableWidths {result : QueryResult} (h : result.IsTable) :
    ∀ line ∈ result.columns.map CStr.text :: result.rows, Covers (tableWidths result) line := by
  have hnames := covers_map (result.columns.map CStr.text)
  rw [List.map_map] at hnames
  refine covers_foldl (fun row hrow => ?_) hnames
  rw [h.rows row hrow, List.length_map, h.columns]

/-! ## The lines -/

/-- A cell that is padded to a width. -/
def paddedCell (text : Bytes) (width : Int) : Bytes :=
  bytes "| " ++ (cstring text ++ List.replicate (width - widthOf text).toNat (ch ' ')) ++ [ch ' ']

theorem printLine_eq {texts : List Bytes} {widths : List Int} (h : texts.length = widths.length) :
    printLine texts widths widths.length =
      some ((List.zipWith paddedCell texts widths).flatten ++ bytes "|\n") := by
  have hlength : (List.zipWith paddedCell texts widths).length = widths.length := by
    rw [List.length_zipWith, h, Nat.min_self]
  have hcells : (List.range widths.length).mapM (printCell texts widths) =
      some (List.zipWith paddedCell texts widths) := by
    rw [← hlength]
    refine mapM_range fun i cell hcell => ?_
    obtain ⟨text, width, htext, hwidth, rfl⟩ := List.getElem?_zipWith_eq_some.mp hcell
    simp only [printCell, htext, hwidth, utilsPrintPadded, utilsDisplayWidth_stringMemory,
      cstring_stringMemory, Option.bind_eq_bind, Option.bind_some, paddedCell]
  rw [printLine, hcells]
  rfl

theorem mainPrintBorder_eq (widths : List Int) :
    mainPrintBorder widths widths.length =
      some ((widths.map borderColumn).flatten ++ bytes "+\n") := by
  have hcolumns : (List.range widths.length).mapM (fun i => (widths[i]?).map borderColumn) =
      some (widths.map borderColumn) := by
    rw [← List.length_map (f := borderColumn)]
    refine mapM_range fun i column hcolumn => ?_
    rw [← List.getElem?_map, hcolumn]
  rw [mainPrintBorder, hcolumns]
  rfl

/-- What a line has at a column: as many cells as the column is wide, and three. -/
def Fills (cell : Bytes) (width : Int) : Prop :=
  (∃ n, Spans cell n ∧ wrap n = wrap (width + 3)) ∧ ∀ x, cell.head? = some x → ¬ Trails x

theorem printable_replicate {b : UInt8} (hb : Printable b) (n : Nat) :
    ∀ x ∈ List.replicate n b, Printable x := by
  intro x hx
  rw [List.eq_of_mem_replicate hx]
  exact hb

theorem paddedCell_fills {text : Bytes} {width : Int} (h : widthOf text ≤ width) :
    Fills (paddedCell text width) width := by
  obtain ⟨n, hn, hwidth, -⟩ := exists_spans_widthOf text
  have hopening : ∀ b ∈ bytes "| ", Printable b := by decide +kernel
  have hspace : Printable (ch ' ') := by decide +kernel
  have hpadding := printable_replicate hspace (width - widthOf text).toNat
  have hcell := (hn.append_printable hpadding).printable_append hopening
    |>.append_printable (List.forall_mem_singleton.mpr hspace)
  refine ⟨⟨_, hcell, ?_⟩, ?_⟩
  · have htarget : ((width - widthOf text).toNat : Int) = width - wrap n := by
      rw [Int.toNat_of_nonneg (by omega), hwidth]
    have htwo : (bytes "| ").length = 2 := rfl
    have hcells : (((bytes "| ").length + (n + (List.replicate (width - widthOf text).toNat
        (ch ' ')).length) + [ch ' '].length : Nat) : Int) = n + (width - wrap n + 3) := by
      rw [htwo, List.length_replicate, List.length_singleton]
      omega
    rw [hcells, ← wrap_add_wrap]
    exact congrArg wrap (by omega)
  · rintro x ⟨⟩
    exact not_trails_of_le (hopening _ List.mem_cons_self).le

theorem borderColumn_fills {width : Int} (hlow : 0 ≤ width) (hhigh : width + 2 < 2 ^ 31) :
    Fills (borderColumn width) width := by
  have hplus : Printable (ch '+') := by decide +kernel
  have hdashes : ∀ b ∈ List.replicate (wrap (width + 2)).toNat (ch '-'), Printable b :=
    printable_replicate (by decide +kernel) _
  have hcolumn := spans_printable (List.forall_mem_cons.mpr ⟨hplus, hdashes⟩)
  refine ⟨⟨_, hcolumn, ?_⟩, ?_⟩
  · rw [List.length_cons, List.length_replicate, wrap_eq (by omega) hhigh]
    exact congrArg wrap (by omega)
  · rintro x ⟨⟩
    exact not_trails_of_le hplus.le

/-- The width of a line in front of a column. -/
def columnStart (widths : List Int) (j : Nat) : Int := wrap ((widths.take j).map (· + 3)).sum

/-- The separators stand where the columns begin. -/
def LinesUp (widths : List Int) (cells : List Bytes) : Prop :=
  cells.length = widths.length ∧ ∀ j ≤ widths.length,
    utilsDisplayWidth (some (stringMemory (cells.take j).flatten)) = some (columnStart widths j)

theorem spans_flatten {cells : List Bytes} {widths : List Int} (h : List.Forall₂ Fills cells widths)
    {before : Bytes} {m : Nat} {start : Int} (hbefore : Spans before m) (hm : wrap m = wrap start)
    (j : Nat) : ∃ n, Spans (before ++ (cells.take j).flatten) n ∧
      wrap n = wrap (start + ((widths.take j).map (· + 3)).sum) := by
  induction h generalizing before m start j with
  | nil =>
    refine ⟨m, ?_, ?_⟩
    · rwa [List.take_nil, List.flatten_nil, List.append_nil]
    · rw [hm, List.take_nil, List.map_nil, List.sum_nil, Int.add_zero]
  | @cons cell width cells widths hcell _ ih =>
    cases j with
    | zero =>
      refine ⟨m, ?_, ?_⟩
      · rwa [List.take_zero, List.flatten_nil, List.append_nil]
      · rw [hm, List.take_zero, List.map_nil, List.sum_nil, Int.add_zero]
    | succ j =>
      obtain ⟨⟨k, hk, hwrap⟩, hhead⟩ := hcell
      have hsum : wrap ((m + k : Nat) : Int) = wrap (start + (width + 3)) := by
        rw [Int.natCast_add]
        exact wrap_add hm hwrap
      obtain ⟨n, hn, hstart⟩ := ih (hbefore.append hk hhead) hsum j
      refine ⟨n, ?_, ?_⟩
      · rwa [List.take_succ_cons, List.flatten_cons, ← List.append_assoc]
      · rw [hstart, List.take_succ_cons, List.map_cons, List.sum_cons, Int.add_assoc]

theorem linesUp_of_fills {cells : List Bytes} {widths : List Int}
    (h : List.Forall₂ Fills cells widths) : LinesUp widths cells := by
  refine ⟨h.length_eq, fun j _ => ?_⟩
  have hempty : Spans [] 0 := @spans_chars [] (List.forall_mem_nil _)
  obtain ⟨n, hn, hwrap⟩ := spans_flatten h hempty (Eq.refl (wrap 0)) j
  rw [List.nil_append] at hn
  rw [Int.zero_add] at hwrap
  rw [stringMemory, hn.width [], hwrap, columnStart]

/-! ## The table -/

/-- The cells of a line. -/
def lineCells (result : QueryResult) (texts : List Bytes) : List Bytes :=
  List.zipWith paddedCell texts (tableWidths result)

/-- The line above and below the names and below the rows. -/
def borderLine (result : QueryResult) : Bytes :=
  ((tableWidths result).map borderColumn).flatten ++ bytes "+\n"

/-- The line of the names or of a row. -/
def textLine (result : QueryResult) (texts : List Bytes) : Bytes :=
  (lineCells result texts).flatten ++ bytes "|\n"

theorem columnWidths_eq {result : QueryResult} (h : result.IsTable) :
    (tableWidths result).length = result.columnCount ∧
      result.rows.foldlM (widenColumns result.columnCount)
        (result.columns.map fun column => widthOf column.text) = some (tableWidths result) := by
  have hnames : (result.columns.map fun column => widthOf column.text).length =
      result.columnCount := by
    rw [List.length_map, h.columns]
  constructor
  · have hcovers := (List.forall_mem_cons.mp (covers_tableWidths h)).1
    rw [← hcovers.length_eq, List.length_map, h.columns]
  · rw [← hnames]
    exact foldlM_widenColumns fun row hrow => (h.rows row hrow).trans hnames.symm

theorem mainPrintTableResult_eq {result : QueryResult} (h : result.IsTable) :
    mainPrintTableResult (some result) =
      some (borderLine result ++ textLine result (result.columns.map CStr.text) ++
        borderLine result ++ (result.rows.map (textLine result)).flatten ++ borderLine result ++
        rowsSelected result.rows.length) := by
  obtain ⟨hlength, hwidths⟩ := columnWidths_eq h
  obtain ⟨hnames, hrows⟩ := List.forall_mem_cons.mp (covers_tableWidths h)
  have hborder : mainPrintBorder (tableWidths result) result.columnCount =
      some (borderLine result) := by
    rw [← hlength]
    exact mainPrintBorder_eq _
  have hline : ∀ texts, Covers (tableWidths result) texts →
      printLine texts (tableWidths result) result.columnCount = some (textLine result texts) := by
    intro texts hall
    rw [← hlength]
    exact printLine_eq hall.length_eq
  have hlines : result.rows.mapM (fun row => printLine row (tableWidths result)
      result.columnCount) = some (result.rows.map (textLine result)) :=
    mapM_eq_some fun row hrow => hline row (hrows row hrow)
  simp only [mainPrintTableResult, columnNameWidths_eq h, hwidths, hborder, hline _ hnames, hlines,
    Option.bind_eq_bind, Option.bind_some]

theorem lineCells_linesUp {result : QueryResult} {texts : List Bytes}
    (h : Covers (tableWidths result) texts) :
    LinesUp (tableWidths result) (lineCells result texts) := by
  refine linesUp_of_fills ?_
  rw [lineCells]
  generalize tableWidths result = widths at h ⊢
  induction h with
  | nil => exact .nil
  | cons hle _ ih => exact .cons (paddedCell_fills hle) ih

/-- A column is as wide as one of the strings. -/
theorem mem_foldl_widen {rows : List Row} {widths : List Int} {width : Int}
    (h : width ∈ rows.foldl widen widths) :
    width ∈ widths ∨ ∃ row ∈ rows, ∃ text ∈ row, width = widthOf text := by
  induction rows generalizing widths with
  | nil => exact .inl h
  | cons row rows ih =>
    rcases ih h with hwiden | ⟨row', hrow', hmem⟩
    · obtain ⟨i, hi⟩ := List.mem_iff_getElem?.mp hwiden
      obtain ⟨old, new, hold, hnew, rfl⟩ := List.getElem?_zipWith_eq_some.mp hi
      obtain ⟨text, htext, rfl⟩ := List.mem_map.mp (List.mem_of_getElem? hnew)
      rcases max_choice old (widthOf text) with hmax | hmax
      · left
        rw [hmax]
        exact List.mem_of_getElem? hold
      · exact .inr ⟨row, List.mem_cons_self, text, htext, hmax⟩
    · exact .inr ⟨row', List.mem_cons_of_mem row hrow', hmem⟩

theorem mem_tableWidths {result : QueryResult} {width : Int} (h : width ∈ tableWidths result) :
    ∃ line ∈ result.columns.map CStr.text :: result.rows, ∃ text ∈ line, width = widthOf text := by
  rcases mem_foldl_widen h with hname | ⟨row, hrow, hmem⟩
  · obtain ⟨column, hcolumn, rfl⟩ := List.mem_map.mp hname
    exact ⟨_, List.mem_cons_self, column.text, List.mem_map_of_mem hcolumn, rfl⟩
  · exact ⟨row, List.mem_cons_of_mem _ hrow, hmem⟩

theorem widthOf_range {text : Bytes} (h : 4 * text.length + 2 < 2 ^ 31) :
    0 ≤ widthOf text ∧ widthOf text + 2 < 2 ^ 31 := by
  obtain ⟨n, hn, hwidth, -⟩ := exists_spans_widthOf text
  have hcells := hn.le
  have hshorter : (cstring text).length ≤ text.length := (List.takeWhile_sublist _).length_le
  rw [hwidth, hn.in_range (by omega)]
  omega

/-- The borders line up too, if no width of a column with the room around it is out of range. -/
theorem borderLine_linesUp {result : QueryResult}
    (h : ∀ line ∈ result.columns.map CStr.text :: result.rows, ∀ text ∈ line,
      4 * text.length + 2 < 2 ^ 31) :
    LinesUp (tableWidths result) ((tableWidths result).map borderColumn) := by
  refine linesUp_of_fills ?_
  rw [List.forall₂_map_left_iff, List.forall₂_same]
  intro width hmem
  obtain ⟨line, hline, text, htext, rfl⟩ := mem_tableWidths hmem
  obtain ⟨hlow, hhigh⟩ := widthOf_range (h line hline text htext)
  exact borderColumn_fills hlow hhigh

/-! ## The tables that are printed -/

theorem Relation.reply_fits (R : Relation) (stmt : SelectStatement) :
    (R.reply stmt).2.success = true → (R.reply stmt).2.kind = .table →
      (R.reply stmt).2.columnCount ≤ MAX_COLUMNS := by
  unfold Relation.reply
  simp only
  split
  · exact nofun
  rename_i hmissing
  split
  · exact nofun
  · intro _ _
    show (R.requested stmt).1.length ≤ MAX_COLUMNS
    revert hmissing
    unfold Relation.requested
    split
    · intro _
      rw [List.length_range]
      exact R.fits
    · intro hmissing
      rw [Relation.resolve_length hmissing]
      exact stmt.columns.2

theorem Produced.isTable {result : QueryResult} (h : Produced result)
    (hsuccess : result.success = true) (htable : result.kind = .table) : result.IsTable where
  fits := (h.elim (P := fun result => result.success = true → result.kind = .table →
    result.columnCount ≤ MAX_COLUMNS) (fun _ _ => nofun) (fun _ _ => nofun) Relation.reply_fits)
      hsuccess htable
  columns := h.wellFormed.columns hsuccess htable
  rows := h.wellFormed.rows hsuccess htable

/-- The loop of the width makes the cuts of any string: each turn is the well-formed sequence that
begins there, with its code point, or one byte, up to the terminator. The widths add up over the
scalar values of a text, and over any strings with ASCII between them; in a string of less than half a
gigabyte no sum is out of range. So the names and the rows of a table line up, and the borders with
them. -/
theorem utilsDisplayWidth_sums :
    (∀ memory, 0 ∈ memory →
      ∃ segs, (∀ segs', Cuts (cstring memory) segs' ↔ segs' = segs) ∧
        segs.flatMap Segment.bytes = cstring memory ∧
        displaySteps memory = some (segs.map stepOf) ∧
        utilsDisplayWidth (some memory) = some (wrap ((segs.map segmentWidth).sum : Nat))) ∧
    (∀ cs : List Char, (∀ c ∈ cs, c ≠ '\x00') →
      ∃ n : Nat, n = (cs.map fun c => codepointWidth c.val).sum ∧
        utilsDisplayWidth (some (stringMemory (cs.flatMap encode))) = some (wrap n) ∧
        (4 * (cs.flatMap encode).length < 2 ^ 31 → wrap n = n)) ∧
    (∀ s t u : Bytes, 0 ∉ s → 0 ∉ u → t ≠ [] → (∀ b ∈ t, b ≠ 0 ∧ b ≤ 0x7F) →
      ∃ a b c : Int, utilsDisplayWidth (some (stringMemory s)) = some a ∧
        utilsDisplayWidth (some (stringMemory t)) = some b ∧
        utilsDisplayWidth (some (stringMemory u)) = some c ∧
        utilsDisplayWidth (some (stringMemory (s ++ t ++ u))) = some (wrap (a + b + c)) ∧
        (4 * (s ++ t ++ u).length < 2 ^ 31 → wrap (a + b + c) = a + b + c)) ∧
    (∀ result : QueryResult, result.IsTable →
      mainPrintTableResult (some result) =
        some (borderLine result ++ textLine result (result.columns.map CStr.text) ++
          borderLine result ++ (result.rows.map (textLine result)).flatten ++ borderLine result ++
          rowsSelected result.rows.length) ∧
      (∀ line ∈ result.columns.map CStr.text :: result.rows,
        LinesUp (tableWidths result) (lineCells result line)) ∧
      ((∀ line ∈ result.columns.map CStr.text :: result.rows, ∀ text ∈ line,
        4 * text.length + 2 < 2 ^ 31) →
          LinesUp (tableWidths result) ((tableWidths result).map borderColumn))) ∧
    ∀ result : QueryResult, Produced result → result.success = true → result.kind = .table →
      result.IsTable := by
  refine ⟨fun memory => utilsDisplayWidth_cuts, fun cs hcs => ?_, fun s t u hs hu hne ht => ?_,
    fun result h => ⟨mainPrintTableResult_eq h, fun line hline => ?_, borderLine_linesUp⟩,
    fun result => Produced.isTable⟩
  · have hspans := spans_chars hcs
    exact ⟨_, rfl, hspans.width [], hspans.in_range⟩
  · have hzero : 0 ∉ t := fun hmem => (ht 0 hmem).1 rfl
    obtain ⟨a, ha⟩ := exists_spans hs
    obtain ⟨b, hb⟩ := exists_spans hzero
    obtain ⟨c, hc⟩ := exists_spans hu
    have hall := ha.append_between hb hne (fun x hx => (ht x hx).2) hc
    refine ⟨wrap a, wrap b, wrap c, ha.width [], hb.width [], hc.width [], ?_, fun hfits => ?_⟩
    · have hsum : wrap (wrap a + wrap b + wrap c) = wrap ((a + b + c : Nat) : Int) := by
        rw [Int.natCast_add, Int.natCast_add]
        exact wrap_add (wrap_add (wrap_wrap a) (wrap_wrap b)) (wrap_wrap c)
      rw [hsum]
      exact hall.width []
    · have hsum := hall.in_range hfits
      simp only [List.length_append] at hfits
      rw [ha.in_range (by omega), hb.in_range (by omega), hc.in_range (by omega),
        ← Int.natCast_add, ← Int.natCast_add]
      exact hsum
  · exact lineCells_linesUp (covers_tableWidths h line hline)

/-- A lead byte, ASCII and the bytes that would follow it. -/
theorem utilsDisplayWidth_sums_apart :
    ∃ a b c : Int, utilsDisplayWidth (some (stringMemory [0xE3])) = some a ∧
      utilsDisplayWidth (some (stringMemory (bytes "| "))) = some b ∧
      utilsDisplayWidth (some (stringMemory [0x81, 0x82])) = some c ∧
      utilsDisplayWidth (some (stringMemory ([0xE3] ++ bytes "| " ++ [0x81, 0x82]))) =
        some (a + b + c) := by
  obtain ⟨a, b, c, ha, hb, hc, hsum, hfits⟩ := utilsDisplayWidth_sums.2.2.1 [0xE3] (bytes "| ")
    [0x81, 0x82] (by decide +kernel) (by decide +kernel) (by decide +kernel) (by decide +kernel)
  rw [hfits (by decide +kernel)] at hsum
  exact ⟨a, b, c, ha, hb, hc, hsum⟩

end JungleDb
