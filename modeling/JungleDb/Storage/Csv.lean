import JungleDb.Lib.Stdio
import JungleDb.Sql.Utils

/-!
# The CSV lines of `storage.c`

`storage_parse_csv_line` reads a line up to its end, a NUL, CR or LF; `storage_write_csv_row` puts
quotes around the cells that hold a comma, a quote, CR or LF. A row is read back from its line unless
a cell holds CR or LF: the line then ends inside quotes.
-/

namespace JungleDb

open CString Stdio

/-- The result of a function that prints why it fails. -/
abbrev Storage := Except Bytes

abbrev quote : UInt8 := ch '"'

abbrev separator : UInt8 := ch ','

abbrev carriageReturn : UInt8 := ch '\r'

/-- `at_end`, but for the NUL. -/
def IsLineEnd (c : UInt8) : Prop := c = newline ∨ c = carriageReturn

instance (c : UInt8) : Decidable (IsLineEnd c) := inferInstanceAs (Decidable (_ ∨ _))

def malformedLine : Bytes := bytes "Error: Malformed CSV line.\n"

/-- The loop of `storage_parse_csv_line`, with `in_quotes` and `current_field`. -/
def csvFields : Bool → Bytes → Bytes → Storage (List Bytes)
  | true, _, [] => .error malformedLine
  | false, field, [] => .ok [field]
  | true, field, [c] =>
    if c = quote then csvFields false field []
    else if IsLineEnd c then .error malformedLine
    else csvFields true (field ++ [c]) []
  | true, field, c :: d :: text =>
    if c = quote ∧ d = quote then csvFields true (field ++ [quote]) text
    else if c = quote then csvFields false field (d :: text)
    else if IsLineEnd c then .error malformedLine
    else csvFields true (field ++ [c]) (d :: text)
  | false, field, c :: text =>
    if c = quote then csvFields true field text
    else if c = separator then (csvFields false [] text).map (field :: ·)
    else if IsLineEnd c then .ok [field]
    else csvFields false (field ++ [c]) text

/-- `storage_parse_csv_line`. -/
def storageParseCsvLine (line : Bytes) : Storage (List Bytes) := csvFields false [] line

/-- The value needs quotes. -/
def needsQuotes (value : Bytes) : Bool :=
  value.any fun c => c == separator || c == quote || c == newline || c == carriageReturn

/-- `storage_write_csv_value`: its output calls. -/
def storageWriteCsvValue (value : Bytes) : List Bytes :=
  if needsQuotes value then
    [quote] :: ((value.flatMap fun c => if c = quote then [[quote], [quote]] else [[c]]) ++ [[quote]])
  else [value]

/-- The loop of `storage_write_csv_row`. -/
def writeCells : List Bytes → List Bytes
  | [] => []
  | [value] => storageWriteCsvValue value
  | value :: next :: values => storageWriteCsvValue value ++ [separator] :: writeCells (next :: values)

/-- `storage_write_csv_row`: its output calls. -/
def storageWriteCsvRow (values : List Bytes) : List Bytes := writeCells values ++ [[newline]]

/-! ## What is written -/

/-- The text of a cell. -/
def csvValue (value : Bytes) : Bytes := (storageWriteCsvValue value).flatten

/-- The text of a row before its newline. -/
def csvLine (values : List Bytes) : Bytes := (writeCells values).flatten

/-- The text of a row. -/
def csvRow (values : List Bytes) : Bytes := (storageWriteCsvRow values).flatten

/-- The bytes of a cell between its quotes. -/
def doubleQuotes (value : Bytes) : Bytes :=
  value.flatMap fun c => if c = quote then [quote, quote] else [c]

theorem doubleQuotes_cons (c : UInt8) (value : Bytes) :
    doubleQuotes (c :: value) =
      (if c = quote then [quote, quote] else [c]) ++ doubleQuotes value := rfl

theorem csvValue_eq (value : Bytes) :
    csvValue value =
      if needsQuotes value then quote :: (doubleQuotes value ++ [quote]) else value := by
  have hflat : (value.flatMap fun c => if c = quote then [[quote], [quote]] else [[c]]).flatten =
      doubleQuotes value := by
    induction value with
    | nil => rfl
    | cons c value ih =>
      rw [List.flatMap_cons, List.flatten_append, ih, doubleQuotes_cons]
      split <;> rfl
  unfold csvValue storageWriteCsvValue
  split
  · rw [List.flatten_cons, List.flatten_append, hflat]
    rfl
  · rw [List.flatten_singleton]

theorem csvLine_singleton (value : Bytes) : csvLine [value] = csvValue value := rfl

theorem csvLine_cons (value next : Bytes) (values : List Bytes) :
    csvLine (value :: next :: values) =
      csvValue value ++ separator :: csvLine (next :: values) := by
  unfold csvLine
  rw [writeCells, List.flatten_append, List.flatten_cons]
  rfl

theorem csvRow_eq (values : List Bytes) : csvRow values = csvLine values ++ [newline] := by
  unfold csvRow storageWriteCsvRow
  rw [List.flatten_append, List.flatten_singleton]
  rfl

theorem not_needsQuotes {value : Bytes} (h : ¬ needsQuotes value = true) :
    ∀ c ∈ value, c ≠ separator ∧ c ≠ quote ∧ ¬ IsLineEnd c := by
  intro c hc
  unfold needsQuotes at h
  rw [List.any_eq_true] at h
  simp only [Bool.or_eq_true, beq_iff_eq, not_exists, not_and, not_or] at h
  obtain ⟨⟨⟨hcomma, hquote⟩, hnewline⟩, hreturn⟩ := h c hc
  exact ⟨hcomma, hquote, not_or.mpr ⟨hnewline, hreturn⟩⟩

/-! ## Reading it back -/

/-- The cells that a line can hold. -/
def Clean (value : Bytes) : Prop := ∀ c ∈ value, ¬ IsLineEnd c

instance (value : Bytes) : Decidable (Clean value) := List.decidableBAll _ _

theorem csvFields_inside (field : Bytes) (c : UInt8) (text : Bytes) :
    csvFields true field (c :: text) =
      if c = quote then
        if text.head? = some quote then csvFields true (field ++ [quote]) text.tail
        else csvFields false field text
      else if IsLineEnd c then .error malformedLine
      else csvFields true (field ++ [c]) text := by
  cases text with
  | nil =>
    have hhead : ¬ ([] : Bytes).head? = some quote := nofun
    rw [if_neg hhead]
    show (if c = quote then _ else _) = _
    rfl
  | cons d text =>
    have hhead : (d :: text).head? = some quote ↔ d = quote := by
      rw [List.head?_cons, Option.some.injEq]
    show (if c = quote ∧ d = quote then _ else if c = quote then _ else _) = _
    by_cases hc : c = quote
    · by_cases hd : d = quote
      · rw [if_pos ⟨hc, hd⟩, if_pos hc, if_pos (hhead.mpr hd)]
        rfl
      · rw [if_neg fun h => hd h.2, if_pos hc, if_pos hc, if_neg fun h => hd (hhead.mp h)]
    · rw [if_neg fun h => hc h.1, if_neg hc, if_neg hc]

theorem csvFields_outside (field : Bytes) (c : UInt8) (text : Bytes) :
    csvFields false field (c :: text) =
      if c = quote then csvFields true field text
      else if c = separator then (csvFields false [] text).map (field :: ·)
      else if IsLineEnd c then .ok [field]
      else csvFields false (field ++ [c]) text := by
  cases text <;> rfl

/-- Inside quotes, up to a byte that is not doubled. -/
theorem csvFields_quoted {value : Bytes} (h : Clean value) (field rest : Bytes) :
    csvFields true field (doubleQuotes value ++ rest) = csvFields true (field ++ value) rest := by
  induction value generalizing field with
  | nil => rw [List.append_nil]; rfl
  | cons c value ih =>
    have hvalue : Clean value := fun d hd => h d (List.mem_cons_of_mem c hd)
    have hmore := ih hvalue (field ++ [c])
    rw [List.append_assoc, List.singleton_append] at hmore
    rw [doubleQuotes_cons, ← hmore]
    by_cases hc : c = quote
    · rw [if_pos hc, hc]
      exact (csvFields_inside field quote _).trans (if_pos rfl)
    · rw [if_neg hc, List.singleton_append, List.cons_append, csvFields_inside, if_neg hc,
        if_neg (h c List.mem_cons_self)]

/-- Outside quotes, as long as no byte is special. -/
theorem csvFields_plain {value : Bytes} (h : ¬ needsQuotes value = true) (field rest : Bytes) :
    csvFields false field (value ++ rest) = csvFields false (field ++ value) rest := by
  have hplain := not_needsQuotes h
  clear h
  induction value generalizing field with
  | nil => rw [List.append_nil]; rfl
  | cons c value ih =>
    obtain ⟨hcomma, hquote, hend⟩ := hplain c List.mem_cons_self
    have hmore := ih (field ++ [c]) fun d hd => hplain d (List.mem_cons_of_mem c hd)
    rw [List.append_assoc, List.singleton_append] at hmore
    rw [List.cons_append, csvFields_outside, if_neg hquote, if_neg hcomma, if_neg hend, hmore]

theorem csvFields_closing (field : Bytes) {rest : Bytes} (h : rest.head? ≠ some quote) :
    csvFields true field (quote :: rest) = csvFields false field rest := by
  rw [csvFields_inside, if_pos rfl, if_neg h]

/-- A cell is read back from its text. -/
theorem csvFields_csvValue {value : Bytes} (hclean : Clean value) {rest : Bytes}
    (hrest : rest.head? ≠ some quote) :
    csvFields false [] (csvValue value ++ rest) = csvFields false value rest := by
  rw [csvValue_eq]
  split
  · rw [List.cons_append, csvFields_outside, if_pos rfl, List.append_assoc,
      csvFields_quoted hclean, List.singleton_append, csvFields_closing _ hrest, List.nil_append]
  · rename_i hplain
    rw [csvFields_plain hplain, List.nil_append]

/-- A row is read back from its line, whatever is behind the line. -/
theorem csvFields_csvLine {values : List Bytes} (hne : values ≠ [])
    (hclean : ∀ value ∈ values, Clean value) {rest : Bytes} (hrest : ∀ c ∈ rest.head?, IsLineEnd c) :
    csvFields false [] (csvLine values ++ rest) = .ok values := by
  induction values with
  | nil => exact absurd rfl hne
  | cons value values ih =>
    have hvalue := hclean value List.mem_cons_self
    cases values with
    | nil =>
      have hquote : rest.head? ≠ some quote := by
        intro hhead
        exact absurd (hrest quote hhead) (by decide)
      rw [csvLine_singleton, csvFields_csvValue hvalue hquote]
      cases rest with
      | nil => rfl
      | cons c rest =>
        have hend := hrest c rfl
        have hc : c ≠ quote ∧ c ≠ separator := by
          rcases hend with rfl | rfl <;> decide
        rw [csvFields_outside, if_neg hc.1, if_neg hc.2, if_pos hend]
    | cons next values =>
      have hnext : ∀ value ∈ next :: values, Clean value :=
        fun v hv => hclean v (List.mem_cons_of_mem value hv)
      have hcomma : (separator :: (csvLine (next :: values) ++ rest)).head? ≠ some quote := by
        rw [List.head?_cons]
        decide
      rw [csvLine_cons, List.append_assoc, List.cons_append, csvFields_csvValue hvalue hcomma,
        csvFields_outside, if_neg (by decide), if_pos rfl, ih (List.cons_ne_nil next values) hnext]
      rfl

/-- A text with CR or LF inside quotes is malformed. -/
theorem csvFields_unclosed {value : Bytes} (h : Clean value) (field : Bytes) {c : UInt8}
    (hc : IsLineEnd c) (rest : Bytes) :
    csvFields true field (doubleQuotes value ++ c :: rest) = .error malformedLine := by
  have hquote : c ≠ quote := by
    rcases hc with rfl | rfl <;> decide
  rw [csvFields_quoted h, csvFields_inside, if_neg hquote, if_pos hc]

theorem doubleQuotes_append (value value' : Bytes) :
    doubleQuotes (value ++ value') = doubleQuotes value ++ doubleQuotes value' :=
  List.flatMap_append

/-! ## The end of a cell

A text determines the cells that are written in it, those with CR or LF too, whose line cannot be read
back. -/

/-- What is behind a cell: a comma, or the newline of its row. -/
def EndsCell (rest : Bytes) : Prop :=
  ∃ c text, rest = c :: text ∧ (c = separator ∨ c = newline)

theorem EndsCell.head_ne_quote {rest : Bytes} (h : EndsCell rest) : rest.head? ≠ some quote := by
  obtain ⟨c, text, rfl, rfl | rfl⟩ := h
  · rw [List.head?_cons]
    decide
  · rw [List.head?_cons]
    decide

/-- The closing quote is the first one that is not doubled. -/
theorem doubleQuotes_append_inj {value value' rest rest' : Bytes} (hrest : rest.head? ≠ some quote)
    (hrest' : rest'.head? ≠ some quote)
    (h : doubleQuotes value ++ quote :: rest = doubleQuotes value' ++ quote :: rest') :
    value = value' ∧ rest = rest' := by
  induction value generalizing value' with
  | nil =>
    cases value' with
    | nil => exact ⟨rfl, (List.cons.inj h).2⟩
    | cons d value' =>
      rw [doubleQuotes_cons] at h
      split at h
      · obtain ⟨-, rfl⟩ := List.cons.inj h
        exact absurd rfl hrest
      · rename_i hd
        exact absurd (List.cons.inj h).1.symm hd
  | cons c value ih =>
    rw [doubleQuotes_cons] at h
    cases value' with
    | nil =>
      split at h
      · obtain ⟨-, rfl⟩ := List.cons.inj h
        exact absurd rfl hrest'
      · rename_i hc
        exact absurd (List.cons.inj h).1 hc
    | cons d value' =>
      rw [doubleQuotes_cons] at h
      by_cases hc : c = quote
      · by_cases hd : d = quote
        · rw [if_pos hc, if_pos hd] at h
          obtain ⟨rfl, hsame⟩ := ih (List.cons.inj (List.cons.inj h).2).2
          exact ⟨by rw [hc, hd], hsame⟩
        · rw [if_pos hc, if_neg hd] at h
          exact absurd (List.cons.inj h).1.symm hd
      · by_cases hd : d = quote
        · rw [if_neg hc, if_pos hd] at h
          exact absurd (List.cons.inj h).1 hc
        · rw [if_neg hc, if_neg hd] at h
          obtain ⟨rfl, hmore⟩ := List.cons.inj h
          obtain ⟨rfl, hsame⟩ := ih hmore
          exact ⟨rfl, hsame⟩

/-- Nothing of a cell without quotes ends a cell. -/
theorem EndsCell.eq_nil_of_plain {value more rest : Bytes} (h : EndsCell (more ++ rest))
    (hplain : ¬ needsQuotes value = true) (hmore : more ⊆ value) : more = [] := by
  obtain ⟨c, text, htext, hc⟩ := h
  cases more with
  | nil => rfl
  | cons d more =>
    obtain ⟨rfl, -⟩ := List.cons.inj htext
    obtain ⟨hcomma, -, hend⟩ := not_needsQuotes hplain d (hmore List.mem_cons_self)
    rcases hc with rfl | rfl
    · exact absurd rfl hcomma
    · exact absurd (.inl rfl) hend

/-- A text in quotes is not one of a cell without them. -/
theorem quote_cons_ne {value rest : Bytes} (hplain : ¬ needsQuotes value = true)
    (hrest : EndsCell rest) (text : Bytes) : quote :: text ≠ value ++ rest := by
  intro h
  cases value with
  | nil =>
    have hhead := hrest.head_ne_quote
    rw [← List.nil_append rest, ← h] at hhead
    exact hhead rfl
  | cons c value =>
    obtain ⟨-, hquote, -⟩ := not_needsQuotes hplain c List.mem_cons_self
    exact hquote (List.cons.inj h).1.symm

/-- A cell without quotes ends at the first comma or newline. -/
theorem plain_append_inj {value value' rest rest' : Bytes} (hplain : ¬ needsQuotes value = true)
    (hplain' : ¬ needsQuotes value' = true) (hrest : EndsCell rest) (hrest' : EndsCell rest')
    (h : value ++ rest = value' ++ rest') : value = value' ∧ rest = rest' := by
  rcases List.append_eq_append_iff.mp h with ⟨more, rfl, rfl⟩ | ⟨more, rfl, rfl⟩
  · obtain rfl := hrest.eq_nil_of_plain hplain' (List.subset_append_right _ _)
    exact ⟨(List.append_nil _).symm, rfl⟩
  · obtain rfl := hrest'.eq_nil_of_plain hplain (List.subset_append_right _ _)
    exact ⟨List.append_nil _, rfl⟩

theorem csvValue_append_inj {value value' rest rest' : Bytes} (hrest : EndsCell rest)
    (hrest' : EndsCell rest') (h : csvValue value ++ rest = csvValue value' ++ rest') :
    value = value' ∧ rest = rest' := by
  rw [csvValue_eq, csvValue_eq] at h
  by_cases hvalue : needsQuotes value = true
  · by_cases hvalue' : needsQuotes value' = true
    · rw [if_pos hvalue, if_pos hvalue'] at h
      refine doubleQuotes_append_inj hrest.head_ne_quote hrest'.head_ne_quote ?_
      rw [List.cons_append, List.cons_append, List.append_assoc, List.append_assoc] at h
      exact (List.cons.inj h).2
    · rw [if_pos hvalue, if_neg hvalue'] at h
      exact absurd h (quote_cons_ne hvalue' hrest' _)
  · by_cases hvalue' : needsQuotes value' = true
    · rw [if_neg hvalue, if_pos hvalue'] at h
      exact absurd h.symm (quote_cons_ne hvalue hrest _)
    · rw [if_neg hvalue, if_neg hvalue'] at h
      exact plain_append_inj hvalue hvalue' hrest hrest' h

/-- A row ends at the first newline outside quotes. -/
theorem csvRow_append_inj {values values' : List Bytes} {rest rest' : Bytes} (hne : values ≠ [])
    (hne' : values' ≠ []) (h : csvRow values ++ rest = csvRow values' ++ rest') :
    values = values' ∧ rest = rest' := by
  have hcomma : ∀ text, EndsCell (separator :: text) := fun text => ⟨_, text, rfl, .inl rfl⟩
  have hnewline : ∀ text, EndsCell (newline :: text) := fun text => ⟨_, text, rfl, .inr rfl⟩
  have hdiffer : separator ≠ newline := by decide
  rw [csvRow_eq, csvRow_eq, List.append_assoc, List.append_assoc] at h
  induction values generalizing values' with
  | nil => exact absurd rfl hne
  | cons value values ih =>
    obtain ⟨value', values', rfl⟩ := List.exists_cons_of_ne_nil hne'
    cases values with
    | nil =>
      cases values' with
      | nil =>
        obtain ⟨rfl, hsame⟩ := csvValue_append_inj (hnewline rest) (hnewline rest') h
        exact ⟨rfl, (List.cons.inj hsame).2⟩
      | cons next' values' =>
        rw [csvLine_cons, List.append_assoc] at h
        obtain ⟨-, hsame⟩ := csvValue_append_inj (hnewline rest) (hcomma _) h
        exact absurd (List.cons.inj hsame).1.symm hdiffer
    | cons next values =>
      rw [csvLine_cons, List.append_assoc] at h
      cases values' with
      | nil =>
        obtain ⟨-, hsame⟩ := csvValue_append_inj (hcomma _) (hnewline rest') h
        exact absurd (List.cons.inj hsame).1 hdiffer
      | cons next' values' =>
        rw [csvLine_cons, List.append_assoc] at h
        obtain ⟨rfl, hsame⟩ := csvValue_append_inj (hcomma _) (hcomma _) h
        obtain ⟨hvalues, hrest⟩ :=
          ih (List.cons_ne_nil _ _) (List.cons_ne_nil _ _) (List.cons.inj hsame).2
        exact ⟨congrArg _ hvalues, hrest⟩

theorem csvRows_inj {rows rows' : List (List Bytes)} (hne : ∀ row ∈ rows, row ≠ [])
    (hne' : ∀ row ∈ rows', row ≠ [])
    (h : (rows.map csvRow).flatten = (rows'.map csvRow).flatten) : rows = rows' := by
  have hempty : ∀ {row : List Bytes} {rest : Bytes}, [] ≠ csvRow row ++ rest := by
    intro row rest hnil
    rw [csvRow_eq, List.append_assoc] at hnil
    exact List.append_ne_nil_of_right_ne_nil _ (List.cons_ne_nil _ _) hnil.symm
  induction rows generalizing rows' with
  | nil =>
    cases rows' with
    | nil => rfl
    | cons row' rows' => exact absurd h hempty
  | cons row rows ih =>
    cases rows' with
    | nil => exact absurd h.symm hempty
    | cons row' rows' =>
      obtain ⟨hrow, hrows⟩ := List.forall_mem_cons.mp hne
      obtain ⟨hrow', hrows'⟩ := List.forall_mem_cons.mp hne'
      obtain ⟨rfl, hmore⟩ := csvRow_append_inj hrow hrow' h
      rw [ih hrows hrows' hmore]

/-! ## The bytes of a line -/

theorem forall_mem_doubleQuotes {P : UInt8 → Prop} (hquote : P quote) {value : Bytes}
    (h : ∀ c ∈ value, P c) : ∀ c ∈ doubleQuotes value, P c := by
  intro c hc
  obtain ⟨d, hd, hmem⟩ := List.mem_flatMap.mp hc
  split at hmem
  · rcases List.mem_pair.mp hmem with rfl | rfl <;> exact hquote
  · rw [List.mem_singleton.mp hmem]
    exact h d hd

/-- A property of bytes that cells and the separators have is one of the line. -/
theorem forall_mem_csvLine {P : UInt8 → Prop} (hquote : P quote) (hcomma : P separator)
    {values : List Bytes} (h : ∀ value ∈ values, ∀ c ∈ value, P c) : ∀ c ∈ csvLine values, P c := by
  have hvalue : ∀ value, (∀ c ∈ value, P c) → ∀ c ∈ csvValue value, P c := by
    intro value hall
    rw [csvValue_eq]
    split
    · simp only [List.forall_mem_cons, List.forall_mem_append]
      exact ⟨hquote, forall_mem_doubleQuotes hquote hall, hquote, nofun⟩
    · exact hall
  induction values with
  | nil => nofun
  | cons value values ih =>
    have hfirst := hvalue value (h value List.mem_cons_self)
    cases values with
    | nil => exact hfirst
    | cons next values =>
      rw [csvLine_cons]
      simp only [List.forall_mem_append, List.forall_mem_cons]
      exact ⟨hfirst, hcomma, ih fun v hv => h v (List.mem_cons_of_mem value hv)⟩

theorem clean_csvLine {values : List Bytes} (h : ∀ value ∈ values, Clean value) :
    Clean (csvLine values) :=
  forall_mem_csvLine (by decide) (by decide) h

theorem exists_lineEnd {value : Bytes} (h : ¬ Clean value) :
    ∃ front c back, value = front ++ c :: back ∧ Clean front ∧ IsLineEnd c := by
  induction value with
  | nil => exact absurd nofun h
  | cons d value ih =>
    by_cases hd : IsLineEnd d
    · exact ⟨[], d, value, rfl, nofun, hd⟩
    · have hvalue : ¬ Clean value := fun hall => h (List.forall_mem_cons.mpr ⟨hd, hall⟩)
      obtain ⟨front, c, back, rfl, hfront, hc⟩ := ih hvalue
      exact ⟨d :: front, c, back, rfl, List.forall_mem_cons.mpr ⟨hd, hfront⟩, hc⟩

/-- The line of a row with a cell that is not clean is malformed at the first CR or LF. -/
theorem csvLine_unclean {values : List Bytes} (h : ¬ ∀ value ∈ values, Clean value) :
    ∃ front c back, csvLine values = front ++ c :: back ∧ front ≠ [] ∧ Clean front ∧ IsLineEnd c ∧
      ∀ rest, csvFields false [] (front ++ c :: rest) = .error malformedLine := by
  induction values with
  | nil => exact absurd nofun h
  | cons value values ih =>
    by_cases hvalue : Clean value
    · have hvalues : ¬ ∀ value ∈ values, Clean value := by
        intro hall
        exact h (List.forall_mem_cons.mpr ⟨hvalue, hall⟩)
      cases values with
      | nil => exact absurd nofun hvalues
      | cons next values =>
        obtain ⟨front, c, back, hline, -, hfront, hc, hfields⟩ := ih hvalues
        have hcell : Clean (csvValue value) := clean_csvLine (List.forall_mem_singleton.mpr hvalue)
        refine ⟨csvValue value ++ separator :: front, c, back, ?_, ?_, ?_, hc, ?_⟩
        · rw [csvLine_cons, hline, List.append_assoc, List.cons_append]
        · exact List.append_ne_nil_of_right_ne_nil _ (List.cons_ne_nil _ _)
        · unfold Clean
          simp only [List.forall_mem_append, List.forall_mem_cons]
          exact ⟨hcell, by decide, hfront⟩
        · intro rest
          have hcomma : (separator :: (front ++ c :: rest)).head? ≠ some quote := by
            rw [List.head?_cons]
            decide
          rw [List.append_assoc, List.cons_append, csvFields_csvValue hvalue hcomma,
            csvFields_outside, if_neg (by decide), if_pos rfl, hfields]
          rfl
    · -- the first CR or LF of the cell is inside its quotes
      obtain ⟨front, c, back, hsplit, hfront, hc⟩ := exists_lineEnd hvalue
      have hneeds : needsQuotes value = true := by
        refine List.any_eq_true.mpr ⟨c, ?_, ?_⟩
        · rw [hsplit]
          exact List.mem_append_right front List.mem_cons_self
        · rcases hc with rfl | rfl <;> decide
      have hquote : c ≠ quote := by
        rcases hc with rfl | rfl <;> decide
      have hdouble : doubleQuotes value = doubleQuotes front ++ c :: doubleQuotes back := by
        rw [hsplit, doubleQuotes_append, doubleQuotes_cons, if_neg hquote]
        rfl
      have hcell : ∃ after, csvLine (value :: values) = csvValue value ++ after := by
        cases values with
        | nil => exact ⟨[], (List.append_nil _).symm⟩
        | cons next values => exact ⟨_, csvLine_cons value next values⟩
      obtain ⟨after, hcell⟩ := hcell
      refine ⟨quote :: doubleQuotes front, c, doubleQuotes back ++ [quote] ++ after, ?_,
        List.cons_ne_nil _ _, ?_, hc, ?_⟩
      · rw [hcell, csvValue_eq, if_pos hneeds, hdouble]
        simp only [List.cons_append, List.append_assoc, List.nil_append]
      · exact List.forall_mem_cons.mpr ⟨by decide, forall_mem_doubleQuotes (by decide) hfront⟩
      · intro rest
        rw [List.cons_append, csvFields_outside, if_pos rfl, csvFields_unclosed hfront [] hc]

end JungleDb
