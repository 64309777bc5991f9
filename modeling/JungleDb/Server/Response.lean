import JungleDb.Engine.Answer
import JungleDb.Lib.Json

/-!
# The response body

`server_build_json_response` of `server.c`, with the buffer that it writes to. A cell of the buffer
that has not been written holds nothing; allocations never fail, and sizes are not bounded. What the
server writes is one JSON text, wherever the buffer grows, and its value is the result of the
statement.
-/

namespace JungleDb

open CString Json

/-! ## The buffer -/

abbrev SERVER_RESPONSE_INITIAL_CAPACITY : Nat := 1024

/-- The cells of an allocation; one without a byte is not initialised. -/
abbrev Memory := List (Option UInt8)

/-- `realloc` to a larger size. -/
def realloc (memory : Memory) (size : Nat) : Memory :=
  memory ++ List.replicate (size - memory.length) none

/-- `memcpy(memory + start, text, length of text)`. -/
def memcpy (memory : Memory) (start : Nat) (text : Bytes) : Memory :=
  memory.take start ++ (text.map some ++ memory.drop (start + text.length))

theorem length_memcpy {memory : Memory} {start : Nat} {text : Bytes}
    (h : start + text.length ≤ memory.length) :
    (memcpy memory start text).length = memory.length := by
  simp only [memcpy, List.length_append, List.length_take, List.length_map, List.length_drop]
  omega

/-- `ServerBuffer`; its capacity is the length of `data`. -/
structure ServerBuffer where
  data : Memory
  length : Nat
  room : length < data.length

/-- `server_buffer_init`. -/
def serverBufferInit : ServerBuffer where
  data := memcpy (List.replicate SERVER_RESPONSE_INITIAL_CAPACITY none) 0 [0]
  length := 0
  room := by
    rw [length_memcpy, List.length_replicate]
    · exact Nat.zero_lt_succ 1023
    · rw [List.length_replicate]
      exact Nat.succ_le_succ (Nat.zero_le 1023)

/-- The loop of `server_buffer_reserve`. -/
def reserveLoop (newCapacity required : Nat) (h : 0 < newCapacity) : Nat :=
  if newCapacity < required then reserveLoop (newCapacity * 2) required (by omega) else newCapacity
termination_by required - newCapacity

theorem le_reserveLoop (newCapacity required : Nat) (h : 0 < newCapacity) :
    required ≤ reserveLoop newCapacity required h := by
  fun_induction reserveLoop newCapacity required h with
  | case1 _ _ _ ih => exact ih
  | case2 _ _ hle => exact Nat.le_of_not_lt hle

/-- `server_buffer_reserve`: the cells after it. -/
def serverBufferReserve (buffer : ServerBuffer) (extraLength : Nat) : Memory :=
  let required := buffer.length + extraLength + 1
  if required ≤ buffer.data.length then buffer.data
  else realloc buffer.data
    (reserveLoop buffer.data.length required (Nat.zero_lt_of_lt buffer.room))

theorem prefix_serverBufferReserve (buffer : ServerBuffer) (extraLength : Nat) :
    buffer.data <+: serverBufferReserve buffer extraLength := by
  unfold serverBufferReserve
  simp only
  split
  · exact List.prefix_rfl
  · exact List.prefix_append _ _

theorem lt_serverBufferReserve (buffer : ServerBuffer) (extraLength : Nat) :
    buffer.length + extraLength < (serverBufferReserve buffer extraLength).length := by
  unfold serverBufferReserve
  simp only
  split
  · assumption
  · have hle := le_reserveLoop buffer.data.length (buffer.length + extraLength + 1)
      (Nat.zero_lt_of_lt buffer.room)
    rw [realloc, List.length_append, List.length_replicate]
    omega

/-- `server_buffer_append_n`. -/
def serverBufferAppendN (buffer : ServerBuffer) (text : Bytes) : ServerBuffer where
  data := memcpy (memcpy (serverBufferReserve buffer text.length) buffer.length text)
    (buffer.length + text.length) [0]
  length := buffer.length + text.length
  room := by
    have hroom := lt_serverBufferReserve buffer text.length
    have hcopy := length_memcpy (Nat.le_of_lt hroom)
    rw [length_memcpy, hcopy]
    · exact hroom
    · rw [hcopy]
      exact hroom

/-- `server_buffer_append`. -/
def serverBufferAppend (buffer : ServerBuffer) (text : String) : ServerBuffer :=
  serverBufferAppendN buffer (bytes text)

/-- `server_buffer_append_char`. -/
def serverBufferAppendChar (buffer : ServerBuffer) (value : UInt8) : ServerBuffer :=
  serverBufferAppendN buffer [value]

/-- `"%04x"`. -/
def hex4 (n : Nat) : Bytes :=
  let digits := (Nat.toDigits 16 n).map ch
  List.replicate (4 - digits.length) (ch '0') ++ digits

/-- The body of the loop of `server_buffer_append_json_string`. -/
def appendJsonByte (buffer : ServerBuffer) (c : UInt8) : ServerBuffer :=
  if c = ch '"' ∨ c = ch '\\' then
    serverBufferAppendChar (serverBufferAppendChar buffer (ch '\\')) c
  else if c = 10 then serverBufferAppend buffer "\\n"
  else if c = 13 then serverBufferAppend buffer "\\r"
  else if c = 9 then serverBufferAppend buffer "\\t"
  else if c < 0x20 then serverBufferAppendN buffer (bytes "\\u" ++ hex4 c.toNat)
  else serverBufferAppendChar buffer c

/-- `server_buffer_append_json_string`. -/
def serverBufferAppendJsonString (buffer : ServerBuffer) (text : Bytes) : ServerBuffer :=
  serverBufferAppendChar (text.foldl appendJsonByte (serverBufferAppendChar buffer (ch '"')))
    (ch '"')

/-! ## The response -/

/-- `if (i > 0) server_buffer_append_char(&body, ',')` -/
def appendSeparator (buffer : ServerBuffer) (i : Nat) : ServerBuffer :=
  if 0 < i then serverBufferAppendChar buffer (ch ',') else buffer

/-- The loops over columns, rows and cells: `todo` of them are left, from index `i` on. -/
def appendEach {α : Type} (append : ServerBuffer → α → Option ServerBuffer) (items : List α) :
    Nat → Nat → ServerBuffer → Option ServerBuffer
  | 0, _, buffer => some buffer
  | todo + 1, i, buffer => do
    let item ← items[i]?
    let buffer ← append (appendSeparator buffer i) item
    appendEach append items todo (i + 1) buffer

/-- The loops over the columns and over the cells of a row. -/
def appendStrings (strings : List Bytes) (count : Nat) (buffer : ServerBuffer) :
    Option ServerBuffer :=
  appendEach (fun buffer text => some (serverBufferAppendJsonString buffer text)) strings count 0
    buffer

/-- The body of the loop over the rows. -/
def appendRow (columnCount : Nat) (buffer : ServerBuffer) (row : Row) : Option ServerBuffer := do
  let buffer ← appendStrings row columnCount (serverBufferAppendChar buffer (ch '['))
  some (serverBufferAppendChar buffer (ch ']'))

/-- The string at the beginning of the memory; none where a cell is read that is not initialised. -/
def cString : Memory → Option Bytes
  | some c :: memory => if c = 0 then some [] else (cString memory).map (c :: ·)
  | _ => none

/-- `server_build_json_response`: the string that it returns; none where a column or a cell is read
that is not there. -/
def serverBuildJsonResponse (result : QueryResult) : Option Bytes := do
  let body := serverBufferAppend serverBufferInit "\x7b\"success\":"
  let body := serverBufferAppend body (if result.success then "true" else "false")
  let body ←
    if !result.success then
      some (serverBufferAppendJsonString (serverBufferAppend body ",\"error\":") result.error.text)
    else if result.kind = .message then
      some (serverBufferAppendJsonString (serverBufferAppend body ",\"message\":")
        result.message.text)
    else do
      let body := serverBufferAppend body ",\"columns\":["
      let body ← appendStrings (result.columns.map CStr.text) result.columnCount body
      let body := serverBufferAppend body "],\"rows\":["
      let body ← appendEach (appendRow result.columnCount) result.rows result.rows.length 0 body
      some (serverBufferAppendChar body (ch ']'))
  cString (serverBufferAppendChar body (ch '\x7d')).data

/-! ## What the buffer holds -/

/-- The buffer holds the text and its terminator. -/
structure ServerBuffer.Holds (buffer : ServerBuffer) (text : Bytes) : Prop where
  length : buffer.length = text.length
  data : text.map some ++ [some 0] <+: buffer.data

theorem holds_init : serverBufferInit.Holds [] where
  length := rfl
  data := List.prefix_append [some 0] _

theorem ServerBuffer.Holds.appendN {buffer : ServerBuffer} {text : Bytes} (h : buffer.Holds text)
    (more : Bytes) : (serverBufferAppendN buffer more).Holds (text ++ more) where
  length := by
    rw [List.length_append, ← h.length]
    rfl
  data := by
    have htext : text.map some <+: serverBufferReserve buffer more.length :=
      ((List.prefix_append _ _).trans h.data).trans (prefix_serverBufferReserve buffer more.length)
    have htake : (serverBufferReserve buffer more.length).take buffer.length = text.map some := by
      rw [h.length, ← List.length_map (f := (some : UInt8 → Option UInt8))]
      exact (List.prefix_iff_eq_take.mp htext).symm
    have hboth : ((text ++ more).map some).length = buffer.length + more.length := by
      rw [List.length_map, List.length_append, h.length]
    have hcopy : memcpy (serverBufferReserve buffer more.length) buffer.length more =
        (text ++ more).map some ++
          (serverBufferReserve buffer more.length).drop (buffer.length + more.length) := by
      rw [memcpy, htake, List.map_append, List.append_assoc]
    show _ <+: memcpy (memcpy _ _ _) _ [0]
    rw [hcopy, memcpy, ← hboth, List.take_left, ← List.append_assoc]
    exact List.prefix_append _ _

theorem ServerBuffer.Holds.append {buffer : ServerBuffer} {text : Bytes} (h : buffer.Holds text)
    (more : String) : (serverBufferAppend buffer more).Holds (text ++ bytes more) :=
  h.appendN (bytes more)

theorem ServerBuffer.Holds.appendChar {buffer : ServerBuffer} {text : Bytes} (h : buffer.Holds text)
    (c : UInt8) : (serverBufferAppendChar buffer c).Holds (text ++ [c]) :=
  h.appendN [c]

theorem cString_append {text : Bytes} (h : 0 ∉ text) (memory : Memory) :
    cString (text.map some ++ some 0 :: memory) = some text := by
  induction text with
  | nil => exact if_pos rfl
  | cons c text ih =>
    have hc : c ≠ 0 := fun heq => h (heq ▸ List.mem_cons_self)
    have hrest := ih fun hmem => h (List.mem_cons_of_mem c hmem)
    rw [List.map_cons, List.cons_append, cString, if_neg hc, hrest]
    rfl

theorem ServerBuffer.Holds.cString {buffer : ServerBuffer} {text : Bytes} (h : buffer.Holds text)
    (hzero : 0 ∉ text) : cString buffer.data = some text := by
  obtain ⟨memory, hmemory⟩ := h.data
  rw [← hmemory, List.append_assoc]
  exact cString_append hzero memory

/-! ## Strings -/

/-- The digit of a number below 16. -/
def hexDigit (n : Nat) (_h : n < 16) : JsonString.HexDigit :=
  ⟨ch n.digitChar, by interval_cases n <;> rfl⟩

/-- The code unit of a control character. -/
def controlUnit (n : Nat) (h : n < 32) : JsonString.CodeUnit :=
  ⟨hexDigit 0 (by decide), hexDigit 0 (by decide), hexDigit (n / 16) (by omega),
    hexDigit (n % 16) (by omega)⟩

theorem hex4_control {n : Nat} (h : n < 32) : hex4 n = (controlUnit n h).bytes := by
  interval_cases n <;> rfl

theorem value_controlUnit {n : Nat} (h : n < 32) : (controlUnit n h).value = n := by
  interval_cases n <;> rfl

/-- How the server writes a byte of a string. -/
def itemOf (c : UInt8) : Item :=
  if hquote : c = ch '"' then .escape .quotationMark
  else if hsolidus : c = ch '\\' then .escape .reverseSolidus
  else if c = 10 then .escape .lineFeed
  else if c = 13 then .escape .carriageReturn
  else if c = 9 then .escape .tab
  else if hcontrol : c < 0x20 then .unicode (controlUnit c.toNat (UInt8.lt_iff_toNat_lt.mp hcontrol))
  else .plain c (ne_special hquote hsolidus)

theorem ServerBuffer.Holds.appendJsonByte {buffer : ServerBuffer} {text : Bytes}
    (h : buffer.Holds text) (c : UInt8) :
    (appendJsonByte buffer c).Holds (text ++ (itemOf c).bytes) := by
  unfold JungleDb.appendJsonByte itemOf
  by_cases hquote : c = ch '"'
  · have hboth := (h.appendChar (ch '\\')).appendChar c
    rw [List.append_assoc] at hboth
    rw [if_pos (.inl hquote), dif_pos hquote]
    subst hquote
    exact hboth
  by_cases hsolidus : c = ch '\\'
  · have hboth := (h.appendChar (ch '\\')).appendChar c
    rw [List.append_assoc] at hboth
    rw [if_pos (.inr hsolidus), dif_neg hquote, dif_pos hsolidus]
    subst hsolidus
    exact hboth
  rw [if_neg (not_or.mpr ⟨hquote, hsolidus⟩), dif_neg hquote, dif_neg hsolidus]
  by_cases hlf : c = 10
  · rw [if_pos hlf, if_pos hlf]
    exact h.append "\\n"
  by_cases hcr : c = 13
  · rw [if_neg hlf, if_pos hcr, if_neg hlf, if_pos hcr]
    exact h.append "\\r"
  by_cases htab : c = 9
  · rw [if_neg hlf, if_neg hcr, if_pos htab, if_neg hlf, if_neg hcr, if_pos htab]
    exact h.append "\\t"
  rw [if_neg hlf, if_neg hcr, if_neg htab, if_neg hlf, if_neg hcr, if_neg htab]
  by_cases hcontrol : c < 0x20
  · rw [if_pos hcontrol, dif_pos hcontrol, hex4_control (UInt8.lt_iff_toNat_lt.mp hcontrol)]
    exact h.appendN _
  · rw [if_neg hcontrol, dif_neg hcontrol]
    exact h.appendChar c

/-- What is written for a byte stands for it. -/
theorem decode_itemOf (c : UInt8) (items : List Item) :
    (itemOf c).Valid ∧ decode (itemOf c :: items) = (decode items).map (c :: ·) := by
  unfold itemOf
  split
  · rename_i hquote
    rw [hquote]
    exact ⟨trivial, rfl⟩
  split
  · rename_i hsolidus
    rw [hsolidus]
    exact ⟨trivial, rfl⟩
  split
  · rename_i hlf
    rw [hlf]
    exact ⟨trivial, rfl⟩
  split
  · rename_i hcr
    rw [hcr]
    exact ⟨trivial, rfl⟩
  split
  · rename_i htab
    rw [htab]
    exact ⟨trivial, rfl⟩
  split
  · rename_i hcontrol
    have hlt : c.toNat < 32 := UInt8.lt_iff_toNat_lt.mp hcontrol
    have hvalue := value_controlUnit hlt
    have hlow : (controlUnit c.toNat hlt).isLowSurrogate = false := by
      rw [JsonString.CodeUnit.isLowSurrogate, hvalue, Bool.and_eq_false_iff, decide_eq_false_iff_not]
      omega
    have hhigh : (controlUnit c.toNat hlt).isHighSurrogate = false := by
      rw [JsonString.CodeUnit.isHighSurrogate, hvalue, Bool.and_eq_false_iff,
        decide_eq_false_iff_not]
      omega
    refine ⟨trivial, ?_⟩
    have hutf8 : JsonString.utf8 (controlUnit c.toNat hlt).value = [c] := by
      rw [hvalue, JsonString.utf8_ascii (Nat.lt_trans hlt (by decide)), UInt8.ofNat_toNat]
    rw [decode.eq_def]
    simp only [hlow, hhigh, hutf8, Bool.false_eq_true, if_false, List.singleton_append]
  · rename_i hplain
    exact ⟨UInt8.not_lt.mp hplain, rfl⟩

theorem stands_itemOf (text : Bytes) : Stands (text.map itemOf) text := by
  induction text with
  | nil => exact ⟨nofun, rfl⟩
  | cons c text ih =>
    obtain ⟨hvalid, hdecode⟩ := decode_itemOf c (text.map itemOf)
    constructor
    · rw [List.map_cons, List.forall_mem_cons]
      exact ⟨hvalid, ih.1⟩
    · rw [List.map_cons, hdecode, ih.2]
      rfl

/-- The literal that the server writes for a text. -/
def jsonLiteral (text : Bytes) : Bytes := literal (text.map itemOf)

theorem ServerBuffer.Holds.appendJsonString {buffer : ServerBuffer} {text : Bytes}
    (h : buffer.Holds text) (string : Bytes) :
    (serverBufferAppendJsonString buffer string).Holds (text ++ jsonLiteral string) := by
  have hloop : ∀ (string text : Bytes) (buffer : ServerBuffer), buffer.Holds text →
      (string.foldl JungleDb.appendJsonByte buffer).Holds
        (text ++ (string.map itemOf).flatMap Item.bytes) := by
    intro string
    induction string with
    | nil =>
      intro text buffer hbuffer
      rw [List.map_nil, List.flatMap_nil, List.append_nil]
      exact hbuffer
    | cons c string ih =>
      intro text buffer hbuffer
      have hrest := ih _ _ (hbuffer.appendJsonByte c)
      rw [List.append_assoc] at hrest
      exact hrest
  have hall := (hloop string _ _ (h.appendChar (ch '"'))).appendChar (ch '"')
  rw [List.append_assoc, List.append_assoc] at hall
  exact hall

theorem derives_jsonLiteral (text : Bytes) :
    Derives (.value (.string text)) (jsonLiteral text) :=
  .string (stands_itemOf text)

/-! ## Lists -/

/-- Texts from index `i` on: a comma stands before each but the first of all. -/
def separated (i : Nat) (texts : List Bytes) : Bytes :=
  if 0 < i then texts.flatMap (ch ',' :: ·) else joined texts

theorem separated_nil (i : Nat) : separated i [] = [] := by
  unfold separated
  split <;> rfl

theorem separated_cons (i : Nat) (text : Bytes) (texts : List Bytes) :
    separated i (text :: texts) =
      (if 0 < i then [ch ','] else []) ++ (text ++ separated (i + 1) texts) := by
  unfold separated
  rw [if_pos (Nat.succ_pos i)]
  split <;> rfl

theorem ServerBuffer.Holds.appendSeparator {buffer : ServerBuffer} {text : Bytes}
    (h : buffer.Holds text) (i : Nat) :
    (appendSeparator buffer i).Holds (text ++ if 0 < i then [ch ','] else []) := by
  unfold JungleDb.appendSeparator
  split
  · exact h.appendChar (ch ',')
  · rw [List.append_nil]
    exact h

/-- The loops write the texts of the items with commas between them. -/
theorem appendEach_holds {α : Type} {append : ServerBuffer → α → Option ServerBuffer}
    {write : α → Bytes} {items : List α}
    (happend : ∀ item ∈ items, ∀ {buffer : ServerBuffer} {text : Bytes}, buffer.Holds text →
      ∃ buffer', append buffer item = some buffer' ∧ buffer'.Holds (text ++ write item)) :
    ∀ {todo i : Nat} {buffer : ServerBuffer} {text : Bytes}, i + todo = items.length →
      buffer.Holds text → ∃ buffer', appendEach append items todo i buffer = some buffer' ∧
        buffer'.Holds (text ++ separated i ((items.drop i).map write)) := by
  intro todo
  induction todo with
  | zero =>
    intro i buffer text hlen h
    have hnone : items.drop i = [] := List.drop_of_length_le (Nat.le_of_eq hlen.symm)
    refine ⟨buffer, rfl, ?_⟩
    rw [hnone, List.map_nil, separated_nil, List.append_nil]
    exact h
  | succ todo ih =>
    intro i buffer text hlen h
    have hi : i < items.length := by omega
    obtain ⟨next, hnext, hholds⟩ :=
      happend items[i] (List.getElem_mem hi) (h.appendSeparator i)
    obtain ⟨buffer', hrest, hall⟩ := ih (i := i + 1) (by omega) hholds
    refine ⟨buffer', ?_, ?_⟩
    · simp only [appendEach, List.getElem?_eq_getElem hi, hnext, hrest, Option.bind_eq_bind,
        Option.bind_some]
    · rw [List.drop_eq_getElem_cons hi, List.map_cons, separated_cons, ← List.append_assoc,
        ← List.append_assoc]
      exact hall

theorem ServerBuffer.Holds.appendStrings {buffer : ServerBuffer} {text : Bytes}
    (h : buffer.Holds text) (strings : List Bytes) :
    ∃ buffer', appendStrings strings strings.length buffer = some buffer' ∧
      buffer'.Holds (text ++ joined (strings.map jsonLiteral)) :=
  appendEach_holds (fun string _ _ _ h => ⟨_, rfl, h.appendJsonString string⟩)
    (Nat.zero_add _) h

/-- The text of a row. -/
def rowText (row : Row) : Bytes := ch '[' :: (joined (row.map jsonLiteral) ++ [ch ']'])

theorem ServerBuffer.Holds.appendRow {buffer : ServerBuffer} {text : Bytes}
    (h : buffer.Holds text) (row : Row) :
    ∃ buffer', appendRow row.length buffer row = some buffer' ∧
      buffer'.Holds (text ++ rowText row) := by
  obtain ⟨cells, hcells, hholds⟩ := (h.appendChar (ch '[')).appendStrings row
  refine ⟨serverBufferAppendChar cells (ch ']'), ?_, ?_⟩
  · rw [JungleDb.appendRow, hcells]
    rfl
  · have hall := hholds.appendChar (ch ']')
    rw [List.append_assoc, List.append_assoc] at hall
    exact hall

theorem derives_strings (strings : List Bytes) :
    Derives (.value (.array (strings.map .string)))
      (ch '[' :: (joined (strings.map jsonLiteral) ++ [ch ']'])) :=
  derives_array fun string _ => derives_jsonLiteral string

/-! ## The response is one JSON text -/

/-- The value of a result. -/
def responseValue (result : QueryResult) : Value :=
  .object <|
    if !result.success then
      [(bytes "success", .bool false), (bytes "error", .string result.error.text)]
    else if result.kind = .message then
      [(bytes "success", .bool true), (bytes "message", .string result.message.text)]
    else
      [(bytes "success", .bool true),
        (bytes "columns", .array (result.columns.map fun column => .string column.text)),
        (bytes "rows", .array (result.rows.map fun row => .array (row.map .string)))]

/-- A table has as many names as columns, and its rows have as many cells. -/
structure QueryResult.WellFormed (result : QueryResult) : Prop where
  columns : result.success = true → result.kind = .table →
    result.columns.length = result.columnCount
  rows : result.success = true → result.kind = .table →
    ∀ row ∈ result.rows, row.length = result.columnCount

/-- A member whose key is written by the server. -/
def member (key : String) (text : Bytes) : Bytes := memberText ((bytes key).map itemOf) text

theorem bytes_key (key : String) : Stands ((bytes key).map itemOf) (bytes key) :=
  stands_itemOf (bytes key)

/-- An object whose first member is `success`. -/
theorem isText_object {b : Bool} {text : Bytes} {ms : List (Bytes × Value)} {members : Bytes}
    (hb : Derives (.value (.bool b)) text) (hms : Derives (.members ms) members) :
    IsText (.object ((bytes "success", .bool b) :: ms))
      (ch '\x7b' :: (member "success" text ++ ch ',' :: members ++ [ch '\x7d'])) :=
  ⟨[], _, [], space_nil, .object (derives_member (bytes_key "success") hb hms), space_nil,
    (List.append_nil _).symm⟩

theorem holds_success (b : Bool) :
    (serverBufferAppend (serverBufferAppend serverBufferInit "\x7b\"success\":")
      (if b then "true" else "false")).Holds
      (ch '\x7b' :: member "success" (bytes (if b then "true" else "false"))) := by
  have hkey : bytes "\x7b\"success\":" = ch '\x7b' :: member "success" [] := by decide +kernel
  have hholds := (holds_init.append "\x7b\"success\":").append (if b then "true" else "false")
  rw [List.nil_append, hkey, member, memberText, List.cons_append, List.append_assoc] at hholds
  exact hholds

/-- A result with one text. -/
theorem ServerBuffer.Holds.keyed {buffer : ServerBuffer} {text : Bytes} (h : buffer.Holds text)
    (separator key : String) (hkey : bytes separator = ch ',' :: member key [])
    (string : Bytes) :
    (serverBufferAppendChar
      (serverBufferAppendJsonString (serverBufferAppend buffer separator) string)
      (ch '\x7d')).Holds
      (text ++ ch ',' :: member key (jsonLiteral string) ++ [ch '\x7d']) := by
  have hall := ((h.append separator).appendJsonString string).appendChar (ch '\x7d')
  simpa only [hkey, member, memberText, List.append_assoc, List.cons_append, List.nil_append]
    using hall

theorem derives_keyed (key : String) (string : Bytes) :
    Derives (.members [(bytes key, .string string)]) (member key (jsonLiteral string)) :=
  derives_lastMember (bytes_key key) (derives_jsonLiteral string)

/-- The members of a table. -/
def tableMembers (result : QueryResult) : Bytes :=
  member "columns"
      (ch '[' :: (joined ((result.columns.map CStr.text).map jsonLiteral) ++ [ch ']'])) ++
    ch ',' :: member "rows" (ch '[' :: (joined (result.rows.map rowText) ++ [ch ']']))

theorem derives_tableMembers (result : QueryResult) :
    Derives (.members
      [(bytes "columns", .array (result.columns.map fun column => .string column.text)),
        (bytes "rows", .array (result.rows.map fun row => .array (row.map .string)))])
      (tableMembers result) := by
  have hcolumns := derives_strings (result.columns.map CStr.text)
  rw [List.map_map] at hcolumns
  have hrows : Derives (.value (.array (result.rows.map fun row => .array (row.map .string))))
      (ch '[' :: (joined (result.rows.map rowText) ++ [ch ']'])) :=
    derives_array fun row _ => derives_strings row
  exact derives_member (bytes_key "columns") hcolumns
    (derives_lastMember (bytes_key "rows") hrows)

/-- The loops over the columns and rows of a table. -/
theorem holds_table {buffer : ServerBuffer} {text : Bytes} (h : buffer.Holds text)
    {result : QueryResult} (hcolumns : result.columns.length = result.columnCount)
    (hrows : ∀ row ∈ result.rows, row.length = result.columnCount) :
    ∃ columns rows,
      appendStrings (result.columns.map CStr.text) result.columnCount
        (serverBufferAppend buffer ",\"columns\":[") = some columns ∧
      appendEach (appendRow result.columnCount) result.rows result.rows.length 0
        (serverBufferAppend columns "],\"rows\":[") = some rows ∧
      (serverBufferAppendChar (serverBufferAppendChar rows (ch ']')) (ch '\x7d')).Holds
        (text ++ ch ',' :: tableMembers result ++ [ch '\x7d']) := by
  obtain ⟨columns, hfirst, hholds⟩ :=
    (h.append ",\"columns\":[").appendStrings (result.columns.map CStr.text)
  rw [List.length_map, hcolumns] at hfirst
  have hrow : ∀ row ∈ result.rows, ∀ {buffer : ServerBuffer} {text : Bytes}, buffer.Holds text →
      ∃ buffer', appendRow result.columnCount buffer row = some buffer' ∧
        buffer'.Holds (text ++ rowText row) := by
    intro row hmem buffer text hbuffer
    rw [← hrows row hmem]
    exact hbuffer.appendRow row
  obtain ⟨rows, hsecond, hall⟩ :=
    appendEach_holds hrow (Nat.zero_add _) (hholds.append "],\"rows\":[")
  refine ⟨columns, rows, hfirst, hsecond, ?_⟩
  have hkey : bytes ",\"columns\":[" = ch ',' :: member "columns" [ch '['] := by decide +kernel
  have hkey' : bytes "],\"rows\":[" = ch ']' :: ch ',' :: member "rows" [ch '['] := by
    decide +kernel
  have hclosed := (hall.appendChar (ch ']')).appendChar (ch '\x7d')
  simpa only [hkey, hkey', tableMembers, member, memberText, separated, Nat.lt_irrefl, if_false,
    List.drop_zero, List.append_assoc, List.cons_append, List.nil_append] using hclosed

theorem serverBuildJsonResponse_isText {result : QueryResult} (h : result.WellFormed) :
    ∃ body, serverBuildJsonResponse result = some body ∧ IsText (responseValue result) body := by
  have hstart := holds_success result.success
  unfold serverBuildJsonResponse responseValue
  cases hsuccess : result.success with
  | false =>
    rw [hsuccess] at hstart
    have hholds := hstart.keyed ",\"error\":" "error" (by decide +kernel) result.error.text
    have htext := isText_object .falseLiteral (derives_keyed "error" result.error.text)
    refine ⟨_, ?_, htext⟩
    simp only [Bool.not_false, if_true, Option.bind_eq_bind, Option.bind_some]
    exact hholds.cString htext.zero_notMem
  | true =>
    rw [hsuccess] at hstart
    cases hkind : result.kind with
    | message =>
      have hholds := hstart.keyed ",\"message\":" "message" (by decide +kernel)
        result.message.text
      have htext := isText_object .trueLiteral (derives_keyed "message" result.message.text)
      refine ⟨_, ?_, htext⟩
      simp only [Bool.not_true, Bool.false_eq_true, if_false, if_true, Option.bind_eq_bind,
        Option.bind_some]
      exact hholds.cString htext.zero_notMem
    | table =>
      obtain ⟨columns, rows, hfirst, hsecond, hholds⟩ :=
        holds_table hstart (h.columns hsuccess hkind) (h.rows hsuccess hkind)
      have htext := isText_object .trueLiteral (derives_tableMembers result)
      refine ⟨_, ?_, htext⟩
      simp only [Bool.not_true, Bool.false_eq_true, if_false, if_true, reduceCtorEq,
        Option.bind_eq_bind] at hfirst ⊢
      rw [hfirst, Option.bind_some, hsecond, Option.bind_some, Option.bind_some]
      exact hholds.cString htext.zero_notMem

/-! ## The results of the executor -/

theorem queryResultSetError_wellFormed (result : QueryResult) (error : CStr MESSAGE_LEN) :
    (queryResultSetError result error).WellFormed := ⟨nofun, nofun⟩

theorem queryResultSetMessage_wellFormed (result : QueryResult) (text : CStr MESSAGE_LEN) :
    (queryResultSetMessage result text).WellFormed := ⟨nofun, nofun⟩

theorem Relation.reply_wellFormed (R : Relation) (stmt : SelectStatement) :
    (R.reply stmt).2.WellFormed := by
  unfold Relation.reply
  simp only
  split
  · exact queryResultSetError_wellFormed _ _
  split
  · exact queryResultSetError_wellFormed _ _
  · constructor
    · intro _ _
      exact List.length_map _
    · intro _ _ row hrow
      obtain ⟨source, -, rfl⟩ := List.mem_map.mp hrow
      exact List.length_map _

/-- The results of statements in the registries that the engine reaches. -/
inductive Produced : QueryResult → Prop
  | executor {registry registry' : Registry} {statement : SqlStatement} {status : Status}
      {result : QueryResult} : EngineReachable registry →
      executorExecute registry statement = some ((status, result), registry') → Produced result
  | engine {registry registry' : Registry} {sql : Bytes} {status : Status} {result : QueryResult} :
      EngineReachable registry →
      engineExecuteSql registry sql = some ((status, result), registry') → Produced result

section Forall

variable {P : QueryResult → Prop} (herror : ∀ result error, P (queryResultSetError result error))
  (hmessage : ∀ result message, P (queryResultSetMessage result message))
  (hreply : ∀ (R : Relation) stmt, P (R.reply stmt).2)

include herror hmessage hreply

theorem Database.exec_forall (db : Database) (statement : SqlStatement) :
    P (db.exec statement).1.2 := by
  cases statement with
  | insert stmt =>
    unfold Database.exec Database.insert
    simp only
    split
    · exact herror _ _
    split
    · exact herror _ _
    split
    · exact herror _ _
    · exact hmessage _ _
  | select stmt =>
    unfold Database.exec Database.select
    simp only
    split
    · exact herror _ _
    · exact hreply _ _
  | delete _ => exact herror _ _

theorem Database.execSql_forall (db : Database) (sql : Bytes) : P (db.execSql sql).1.2 := by
  cases hparse : parsedStatement sql with
  | none =>
    obtain ⟨error, -, hexec⟩ := Database.execSql_unparsed hparse
    rw [hexec]
    exact herror _ _
  | some statement =>
    rw [Database.execSql_parsed hparse]
    exact db.exec_forall herror hmessage hreply statement

/-- Every result is an error, a message or the reply of a relation. -/
theorem Produced.elim {result : QueryResult} (h : Produced result) : P result := by
  cases h with
  | @executor registry registry' statement _ _ hreach hexec =>
    obtain ⟨db, hdb⟩ := hreach.holds
    obtain ⟨_, hrun, -⟩ := hdb.exec statement
    rw [hexec, Option.some.injEq, Prod.mk.injEq] at hrun
    have hresult := db.exec_forall herror hmessage hreply statement
    rw [← hrun.1] at hresult
    exact hresult
  | @engine registry registry' sql _ _ hreach hexec =>
    obtain ⟨db, hdb⟩ := hreach.holds
    obtain ⟨_, hrun, -⟩ := engine_simulates hdb sql
    rw [hexec, Option.some.injEq, Prod.mk.injEq] at hrun
    have hresult := db.execSql_forall herror hmessage hreply sql
    rw [← hrun.1] at hresult
    exact hresult

end Forall

theorem Produced.wellFormed {result : QueryResult} (h : Produced result) : result.WellFormed :=
  h.elim queryResultSetError_wellFormed queryResultSetMessage_wellFormed
    Relation.reply_wellFormed

/-- The response to a result is a JSON text; the parser reads all of it, and its value is the object
of the result. -/
theorem serverBuildJsonResponse_parses {result : QueryResult} (h : Produced result) :
    ∃ body, serverBuildJsonResponse result = some body ∧ IsText (responseValue result) body ∧
      Json.parse body = some (responseValue result) := by
  obtain ⟨body, hbody, htext⟩ := serverBuildJsonResponse_isText h.wellFormed
  exact ⟨body, hbody, htext, parse_of_isText htext⟩

/-- A first INSERT of a string with a quotation mark, a reverse solidus and a control character. -/
def insertEscaped : Bytes :=
  bytes "INSERT INTO t (a) VALUES ('\"\\" ++ [1] ++ bytes "')"

/-- The response to the SELECT of its row. -/
theorem serverBuildJsonResponse_parses_escaped : ∃ result : QueryResult,
    result.rows = [[bytes "1", bytes "\"\\" ++ [1]]] ∧
    ∃ body, serverBuildJsonResponse result = some body ∧ IsText (responseValue result) body ∧
      Json.parse body = some (responseValue result) := by
  have hrows : ((engineExecuteSql [] insertEscaped).bind fun r =>
      engineExecuteSql r.2 (bytes "SELECT * FROM t")).map (fun r => r.1.2.rows) =
      some [[bytes "1", bytes "\"\\" ++ [1]]] := by
    decide +kernel
  cases hinsert : engineExecuteSql [] insertEscaped with
  | none =>
    rw [hinsert] at hrows
    cases hrows
  | some r =>
    rw [hinsert, Option.bind_some] at hrows
    cases hselect : engineExecuteSql r.2 (bytes "SELECT * FROM t") with
    | none =>
      rw [hselect] at hrows
      cases hrows
    | some r' =>
      rw [hselect] at hrows
      have hproduced : Produced r'.1.2 := .engine (.step .start hinsert) hselect
      exact ⟨r'.1.2, Option.some.inj hrows, serverBuildJsonResponse_parses hproduced⟩

end JungleDb
