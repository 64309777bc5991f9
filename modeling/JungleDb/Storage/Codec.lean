import JungleDb.Storage.Csv

/-!
# The CSV parser byte by byte

`storage_parse_csv_line` walks its line by index and looks one byte ahead behind a quote. In memory
that holds a string and nothing behind its terminator, the loop ends after at most one turn for each
byte and returns what `csvFields` says. The fields that it accepts are clean and so are read back from
the line that is written for them.
-/

namespace JungleDb

open CString Stdio

/-- `at_end` -/
def AtEnd (current : UInt8) : Prop := current = 0 ∨ IsLineEnd current

instance (current : UInt8) : Decidable (AtEnd current) := inferInstanceAs (Decidable (_ ∨ _))

/-- The variables of the loop. `current_field` is NULL before the first byte of a field. -/
structure CsvLoop where
  i : Nat
  inQuotes : Bool
  currentField : Option Bytes
  fields : List Bytes
  deriving DecidableEq, Repr

namespace CsvLoop

/-- `storage_append_char`, and on to the next byte. -/
def appendChar (s : CsvLoop) (c : UInt8) : CsvLoop :=
  { s with i := s.i + 1, currentField := some (s.currentField.getD [] ++ [c]) }

/-- `storage_append_field`, and on to the next byte; the field is empty if it has no byte. -/
def appendField (s : CsvLoop) : CsvLoop :=
  { s with i := s.i + 1, currentField := none, fields := s.fields ++ [s.currentField.getD []] }

/-- The turn at the byte `line[i]`; `ahead` is `line[i + 1]`, read only behind a quote inside quotes.
`none` is a read outside the memory. -/
def turn (s : CsvLoop) (current : UInt8) (ahead : Option UInt8) :
    Option (CsvLoop ⊕ Storage (List Bytes)) :=
  if s.inQuotes then
    if current = quote then
      match ahead with
      | none => none
      | some next =>
        if next = quote then some (.inl { s.appendChar quote with i := s.i + 2 })
        else some (.inl { s with i := s.i + 1, inQuotes := false })
    else if AtEnd current then some (.inr (.error malformedLine))
    else some (.inl (s.appendChar current))
  else if current = quote then some (.inl { s with i := s.i + 1, inQuotes := true })
  else if current = separator ∨ AtEnd current then
    if AtEnd current then some (.inr (.ok s.appendField.fields))
    else some (.inl s.appendField)
  else some (.inl (s.appendChar current))

/-- So many turns of the loop; `none` also if it has not ended by then. -/
def run (memory : Bytes) : Nat → CsvLoop → Option (Storage (List Bytes))
  | 0, _ => none
  | turns + 1, s =>
    match memory[s.i]? with
    | none => none
    | some current =>
      match s.turn current memory[s.i + 1]? with
      | none => none
      | some (.inl s) => run memory turns s
      | some (.inr result) => some result

end CsvLoop

/-- `storage_parse_csv_line` on memory that can be read up to its end, with a turn for each byte. -/
def storageParseCsvLineAt (memory : Bytes) : Option (Storage (List Bytes)) :=
  CsvLoop.run memory memory.length ⟨0, false, none, []⟩

/-! ## The loop -/

namespace CsvLoop

variable {front text rest : Bytes} {fields : List Bytes} {field : Option Bytes}

theorem turn_inside {s : CsvLoop} (h : s.inQuotes = true) (current next : UInt8) :
    s.turn current (some next) =
      if current = quote then
        if next = quote then some (.inl { s.appendChar quote with i := s.i + 2 })
        else some (.inl { s with i := s.i + 1, inQuotes := false })
      else if AtEnd current then some (.inr (.error malformedLine))
      else some (.inl (s.appendChar current)) := by
  unfold turn
  rw [if_pos h]

theorem turn_outside {s : CsvLoop} (h : s.inQuotes = false) (current : UInt8)
    (ahead : Option UInt8) :
    s.turn current ahead =
      if current = quote then some (.inl { s with i := s.i + 1, inQuotes := true })
      else if current = separator ∨ AtEnd current then
        if AtEnd current then some (.inr (.ok s.appendField.fields))
        else some (.inl s.appendField)
      else some (.inl (s.appendChar current)) := by
  unfold turn
  rw [if_neg (ne_true_of_eq_false h)]

theorem run_inl {memory : Bytes} {turns : Nat} {s s' : CsvLoop} {current : UInt8}
    (hread : memory[s.i]? = some current)
    (hturn : s.turn current memory[s.i + 1]? = some (.inl s')) :
    run memory (turns + 1) s = run memory turns s' := by
  rw [run, hread]
  simp only [hturn]

theorem run_inr {memory : Bytes} {turns : Nat} {s : CsvLoop} {current : UInt8}
    {result : Storage (List Bytes)} (hread : memory[s.i]? = some current)
    (hturn : s.turn current memory[s.i + 1]? = some (.inr result)) :
    run memory (turns + 1) s = some result := by
  rw [run, hread]
  simp only [hturn]

theorem getElem?_middle (front : Bytes) (c : UInt8) (text : Bytes) :
    (front ++ c :: text)[front.length]? = some c := by
  rw [List.getElem?_append_right (Nat.le_refl _), Nat.sub_self]
  rfl

theorem getElem?_ahead (front : Bytes) (c : UInt8) (text : Bytes) :
    (front ++ c :: text)[front.length + 1]? = text.head? := by
  have hindex : front.length + 1 - front.length = 1 := by omega
  rw [List.getElem?_append_right (Nat.le_succ _), hindex, List.head?_eq_getElem?]
  rfl

/-- At the terminator. -/
theorem run_terminator (inQuotes : Bool) (turns : Nat) :
    run (front ++ 0 :: rest) (turns + 1) ⟨front.length, inQuotes, field, fields⟩ =
      some ((csvFields inQuotes (field.getD []) []).map (fields ++ ·)) := by
  have hread := getElem?_middle front 0 rest
  cases inQuotes with
  | true => exact run_inr hread rfl
  | false => exact run_inr hread rfl

/-- At a byte outside quotes, if the loop parses what is behind it. -/
theorem run_outside {c : UInt8} (hc : c ≠ 0) {turns : Nat}
    (hnext : ∀ inQuotes field fields,
      run (front ++ c :: (text ++ 0 :: rest)) turns ⟨front.length + 1, inQuotes, field, fields⟩ =
        some ((csvFields inQuotes (field.getD []) text).map (fields ++ ·))) :
    run (front ++ c :: (text ++ 0 :: rest)) (turns + 1) ⟨front.length, false, field, fields⟩ =
      some ((csvFields false (field.getD []) (c :: text)).map (fields ++ ·)) := by
  have hread := getElem?_middle front c (text ++ 0 :: rest)
  have hend : AtEnd c ↔ IsLineEnd c := or_iff_right hc
  have hturn := turn_outside (s := ⟨front.length, false, field, fields⟩) rfl c
    (front ++ c :: (text ++ 0 :: rest))[front.length + 1]?
  rw [csvFields_outside]
  by_cases hquote : c = quote
  · rw [if_pos hquote] at hturn
    rw [if_pos hquote]
    exact (run_inl hread hturn).trans (hnext true field fields)
  · rw [if_neg hquote] at hturn
    rw [if_neg hquote]
    by_cases hcomma : c = separator
    · have hgoes : ¬ AtEnd c := by
        rw [hcomma]
        decide
      rw [if_pos (.inl hcomma), if_neg hgoes] at hturn
      rw [if_pos hcomma]
      have hfields := hnext false none (fields ++ [field.getD []])
      refine (run_inl hread hturn).trans (hfields.trans ?_)
      show some (Except.map _ (csvFields false [] text)) = _
      cases csvFields false [] text with
      | error e => rfl
      | ok values =>
        show some (Except.ok (fields ++ [field.getD []] ++ values)) = _
        rw [List.append_assoc]
        rfl
    · rw [if_neg hcomma]
      by_cases hbreak : IsLineEnd c
      · have hatEnd : AtEnd c := hend.mpr hbreak
        rw [if_pos (.inr hatEnd), if_pos hatEnd] at hturn
        rw [if_pos hbreak]
        exact run_inr hread hturn
      · have hgoes : ¬ AtEnd c := mt hend.mp hbreak
        rw [if_neg (not_or.mpr ⟨hcomma, hgoes⟩)] at hturn
        rw [if_neg hbreak]
        exact (run_inl hread hturn).trans (hnext false (some (field.getD [] ++ [c])) fields)

/-- At a byte inside quotes; two quotes are passed over together. -/
theorem run_inside {c : UInt8} (hc : c ≠ 0) {turns : Nat}
    (hnext : ∀ inQuotes field fields,
      run (front ++ c :: (text ++ 0 :: rest)) turns ⟨front.length + 1, inQuotes, field, fields⟩ =
        some ((csvFields inQuotes (field.getD []) text).map (fields ++ ·)))
    (hskip : ∀ d more, text = d :: more → ∀ field fields,
      run (front ++ c :: (text ++ 0 :: rest)) turns ⟨front.length + 2, true, field, fields⟩ =
        some ((csvFields true (field.getD []) more).map (fields ++ ·))) :
    run (front ++ c :: (text ++ 0 :: rest)) (turns + 1) ⟨front.length, true, field, fields⟩ =
      some ((csvFields true (field.getD []) (c :: text)).map (fields ++ ·)) := by
  have hread := getElem?_middle front c (text ++ 0 :: rest)
  have hahead := getElem?_ahead front c (text ++ 0 :: rest)
  have hend : AtEnd c ↔ IsLineEnd c := or_iff_right hc
  obtain ⟨next, hnextByte, hdouble⟩ : ∃ next, (text ++ 0 :: rest).head? = some next ∧
      (text.head? = some quote ↔ next = quote) := by
    cases text with
    | nil => exact ⟨0, rfl, by decide⟩
    | cons d text => exact ⟨d, rfl, by rw [List.head?_cons, Option.some.injEq]⟩
  have hturn := turn_inside (s := ⟨front.length, true, field, fields⟩) rfl c next
  rw [← hnextByte, ← hahead] at hturn
  rw [csvFields_inside]
  by_cases hquote : c = quote
  · rw [if_pos hquote] at hturn
    rw [if_pos hquote]
    by_cases hnextQuote : next = quote
    · -- the quotes are one byte of the field
      rw [if_pos hnextQuote] at hturn
      rw [if_pos (hdouble.mpr hnextQuote)]
      obtain ⟨more, rfl⟩ : ∃ more, text = quote :: more :=
        List.head?_eq_some_iff.mp (hdouble.mpr hnextQuote)
      have hmore := hskip quote more rfl (some (field.getD [] ++ [quote])) fields
      exact (run_inl hread hturn).trans hmore
    · rw [if_neg hnextQuote] at hturn
      rw [if_neg (mt hdouble.mp hnextQuote)]
      exact (run_inl hread hturn).trans (hnext false field fields)
  · rw [if_neg hquote] at hturn
    rw [if_neg hquote]
    by_cases hbreak : IsLineEnd c
    · rw [if_pos (hend.mpr hbreak)] at hturn
      rw [if_pos hbreak]
      exact run_inr hread hturn
    · rw [if_neg (mt hend.mp hbreak)] at hturn
      rw [if_neg hbreak]
      exact (run_inl hread hturn).trans (hnext true (some (field.getD [] ++ [c])) fields)

/-- From any byte of the string on, the loop parses what is left of it. -/
theorem run_eq (htext : (0 : UInt8) ∉ text) (inQuotes : Bool) {turns : Nat}
    (hturns : text.length < turns) :
    run (front ++ text ++ 0 :: rest) turns ⟨front.length, inQuotes, field, fields⟩ =
      some ((csvFields inQuotes (field.getD []) text).map (fields ++ ·)) := by
  induction turns generalizing front text inQuotes field fields with
  | zero => exact absurd hturns (Nat.not_lt_zero _)
  | succ turns ih =>
    cases text with
    | nil =>
      rw [List.append_nil]
      exact run_terminator inQuotes turns
    | cons c text =>
      rw [List.mem_cons, not_or] at htext
      obtain ⟨hc, htext⟩ := htext
      rw [List.length_cons] at hturns
      have hline : front ++ c :: text ++ 0 :: rest = front ++ c :: (text ++ 0 :: rest) := by
        rw [List.append_assoc, List.cons_append]
      -- the loop on the bytes behind `c`
      have hnext : ∀ inQuotes field fields,
          run (front ++ c :: (text ++ 0 :: rest)) turns
              ⟨front.length + 1, inQuotes, field, fields⟩ =
            some ((csvFields inQuotes (field.getD []) text).map (fields ++ ·)) := by
        intro inQuotes field fields
        have hmore : run (front ++ [c] ++ text ++ 0 :: rest) turns
            ⟨(front ++ [c]).length, inQuotes, field, fields⟩ = _ := ih htext inQuotes (by omega)
        rw [List.length_append, List.append_assoc, List.append_assoc] at hmore
        exact hmore
      -- and behind the one after it
      have hskip : ∀ d more, text = d :: more → ∀ field fields,
          run (front ++ c :: (text ++ 0 :: rest)) turns
              ⟨front.length + 2, true, field, fields⟩ =
            some ((csvFields true (field.getD []) more).map (fields ++ ·)) := by
        rintro d more rfl field fields
        rw [List.length_cons] at hturns
        have hbehind : (0 : UInt8) ∉ more := fun hmem => htext (List.mem_cons_of_mem d hmem)
        have hmore : run (front ++ [c, d] ++ more ++ 0 :: rest) turns
            ⟨(front ++ [c, d]).length, true, field, fields⟩ = _ := ih hbehind true (by omega)
        rw [List.length_append, List.append_assoc, List.append_assoc] at hmore
        exact hmore
      rw [hline]
      cases inQuotes with
      | true => exact run_inside (Ne.symm hc) hnext hskip
      | false => exact run_outside (Ne.symm hc) hnext

end CsvLoop

/-- The bytes behind the terminator do not matter: there may be none. -/
theorem storageParseCsvLineAt_eq {line : Bytes} (hline : (0 : UInt8) ∉ line) (rest : Bytes) :
    storageParseCsvLineAt (line ++ 0 :: rest) = some (storageParseCsvLine line) := by
  have hturns : line.length < (line ++ 0 :: rest).length := by
    rw [List.length_append, List.length_cons]
    omega
  have hrun : CsvLoop.run ([] ++ line ++ 0 :: rest) (line ++ 0 :: rest).length
      ⟨([] : Bytes).length, false, none, []⟩ = _ := CsvLoop.run_eq hline false hturns
  refine hrun.trans ?_
  cases h : csvFields false [] line with
  | error e => exact congrArg some ((congrArg _ h).trans h.symm)
  | ok values => exact congrArg some ((congrArg _ h).trans h.symm)

/-! ## The fields that are accepted -/

/-- There is a field, and the fields hold bytes of the line but no CR and no LF. -/
theorem csvFields_ok {P : UInt8 → Prop} (hquote : P quote) {inQuotes : Bool} {field text : Bytes}
    {values : List Bytes} (hfield : ∀ c ∈ field, P c) (htext : ∀ c ∈ text, ¬ IsLineEnd c → P c)
    (h : csvFields inQuotes field text = .ok values) :
    values ≠ [] ∧ ∀ value ∈ values, ∀ c ∈ value, P c := by
  have hone : ∀ {field : Bytes}, (∀ c ∈ field, P c) →
      [field] ≠ [] ∧ ∀ value ∈ [field], ∀ c ∈ value, P c := by
    intro field hall
    exact ⟨List.cons_ne_nil _ _, List.forall_mem_singleton.mpr hall⟩
  have hmore : ∀ {field : Bytes} {c : UInt8}, (∀ d ∈ field, P d) → P c →
      ∀ d ∈ field ++ [c], P d := by
    intro field c hall hc
    exact List.forall_mem_append.mpr ⟨hall, List.forall_mem_singleton.mpr hc⟩
  fun_induction csvFields inQuotes field text generalizing values with
  | case1 | case4 | case8 => cases h
  | case2 field =>
    cases h
    exact hone hfield
  | case3 field ih => exact ih hfield nofun h
  | case5 field c hc hbreak ih =>
    exact ih (hmore hfield (htext c List.mem_cons_self hbreak)) nofun h
  | case6 field c d text hc ih =>
    have hrest : ∀ c ∈ text, ¬ IsLineEnd c → P c :=
      (List.forall_mem_cons.mp (List.forall_mem_cons.mp htext).2).2
    exact ih (hmore hfield hquote) hrest h
  | case7 field d text hd ih => exact ih hfield (List.forall_mem_cons.mp htext).2 h
  | case9 field c d text hd hc hbreak ih =>
    obtain ⟨hfirst, hrest⟩ := List.forall_mem_cons.mp htext
    exact ih (hmore hfield (hfirst hbreak)) hrest h
  | case10 field text ih => exact ih hfield (List.forall_mem_cons.mp htext).2 h
  | case11 field text hc ih =>
    obtain ⟨rest, hrest, rfl⟩ := map_eq_ok h
    obtain ⟨-, hfields⟩ := ih nofun (List.forall_mem_cons.mp htext).2 hrest
    exact ⟨List.cons_ne_nil _ _, List.forall_mem_cons.mpr ⟨hfield, hfields⟩⟩
  | case12 field c text hc hcomma hbreak =>
    cases h
    exact hone hfield
  | case13 field c text hc hcomma hbreak ih =>
    obtain ⟨hfirst, hrest⟩ := List.forall_mem_cons.mp htext
    exact ih (hmore hfield (hfirst hbreak)) hrest h

/-- The fields of an accepted line can be written and read back. -/
theorem storageParseCsvLine_clean {line : Bytes} {fields : List Bytes}
    (h : storageParseCsvLine line = .ok fields) :
    fields ≠ [] ∧ ∀ value ∈ fields, Clean value :=
  csvFields_ok (by decide) (List.forall_mem_nil _) (fun _ _ hc => hc) h

theorem storageParseCsvLine_strings {line : Bytes} {fields : List Bytes}
    (hline : (0 : UInt8) ∉ line) (h : storageParseCsvLine line = .ok fields) :
    ∀ value ∈ fields, (0 : UInt8) ∉ value := by
  have hnonzero : ∀ c ∈ line, ¬ IsLineEnd c → c ≠ 0 := by
    rintro c hc - rfl
    exact hline hc
  obtain ⟨-, hfields⟩ := csvFields_ok (P := (· ≠ 0)) (by decide) (List.forall_mem_nil _) hnonzero h
  intro value hvalue hmem
  exact hfields value hvalue 0 hmem rfl

/-! ## The codec -/

/-- A written row is read back. -/
theorem storageParseCsvLineAt_csvRow {values : List Bytes} (hne : values ≠ [])
    (hclean : ∀ value ∈ values, Clean value) (hstrings : ∀ value ∈ values, (0 : UInt8) ∉ value) :
    storageParseCsvLineAt (csvRow values ++ [0]) = some (.ok values) := by
  have hnonzero : ∀ value ∈ values, ∀ c ∈ value, c ≠ 0 := by
    rintro value hvalue c hc rfl
    exact hstrings value hvalue hc
  have hline : (0 : UInt8) ∉ csvRow values := by
    have hcells := forall_mem_csvLine (by decide) (by decide) hnonzero
    rw [csvRow_eq, List.mem_append, List.mem_singleton, not_or]
    exact ⟨fun hmem => hcells 0 hmem rfl, by decide⟩
  have hnewline : ∀ c ∈ [newline].head?, IsLineEnd c := by
    intro c hc
    cases hc
    exact .inl rfl
  rw [storageParseCsvLineAt_eq hline, csvRow_eq]
  exact congrArg some (csvFields_csvLine hne hclean hnewline)

/-- What is written is read back, and what is read back is written again as a line for the same fields;
every line can be parsed within its bytes. -/
theorem storageParseCsvLine_codec :
    (∀ values : List Bytes, values ≠ [] → (∀ value ∈ values, (0 : UInt8) ∉ value ∧ Clean value) →
      storageParseCsvLineAt (csvRow values ++ [0]) = some (.ok values) ∧
      ∀ values' : List Bytes, values' ≠ [] →
        (∀ value ∈ values', (0 : UInt8) ∉ value ∧ Clean value) →
        csvRow values = csvRow values' → values = values') ∧
    ∀ line : Bytes, (0 : UInt8) ∉ line →
      ∃ result, storageParseCsvLineAt (line ++ [0]) = some result ∧
        ∀ fields, result = .ok fields →
          storageParseCsvLineAt (csvRow fields ++ [0]) = some (.ok fields) := by
  constructor
  · intro values hne hvalues
    have hread := storageParseCsvLineAt_csvRow hne (fun value hvalue => (hvalues value hvalue).2)
      fun value hvalue => (hvalues value hvalue).1
    refine ⟨hread, ?_⟩
    intro values' hne' hvalues' hsame
    have hread' := storageParseCsvLineAt_csvRow hne' (fun value hvalue => (hvalues' value hvalue).2)
      fun value hvalue => (hvalues' value hvalue).1
    rw [← hsame, hread] at hread'
    exact Except.ok.inj (Option.some.inj hread')
  · intro line hline
    refine ⟨storageParseCsvLine line, storageParseCsvLineAt_eq hline [], ?_⟩
    intro fields hfields
    obtain ⟨hne, hclean⟩ := storageParseCsvLine_clean hfields
    exact storageParseCsvLineAt_csvRow hne hclean (storageParseCsvLine_strings hline hfields)

theorem storageParseCsvLine_codec_quoted :
    storageParseCsvLineAt (bytes "\"a,\"\"b\",\n" ++ [0]) = some (.ok [bytes "a,\"b", []]) :=
  (storageParseCsvLine_codec.1 [bytes "a,\"b", []] (List.cons_ne_nil _ _)
    (by decide +kernel)).1

end JungleDb
