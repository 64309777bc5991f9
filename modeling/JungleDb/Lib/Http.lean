import JungleDb.Lib.CString

/-!
# HTTP messages

A message is a start line, fields and a body. The lines of its head end in CR LF, an empty one ends
the head, and the body has the length that the only Content-Length field gives. `readMessage` is a
recipient: it takes one message from the front of a stream and leaves the rest. It reads back what
`Message.bytes` writes. What it has read it reads again with more bytes behind, so that no proper
beginning of a message is a message.
-/

namespace Http

open CString

/-! ## Writing -/

abbrev cr : UInt8 := ch '\r'

abbrev lf : UInt8 := ch '\n'

def lineEnd : Bytes := [cr, lf]

/-- A byte that can stand in a line. -/
def Inline (c : UInt8) : Prop := c ≠ cr ∧ c ≠ lf

instance (c : UInt8) : Decidable (Inline c) := inferInstanceAs (Decidable (_ ∧ _))

def blank (c : UInt8) : Bool := c == ch ' ' || c == ch '\t'

/-- A value without the spaces and tabs around it. -/
def trim (value : Bytes) : Bytes := ((value.dropWhile blank).reverse.dropWhile blank).reverse

structure Field where
  name : Bytes
  value : Bytes
  named : name ≠ []
  inName : ∀ c ∈ name, Inline c ∧ c ≠ ch ':'
  inValue : ∀ c ∈ value, Inline c
  trimmed : trim value = value

/-- The name is Content-Length, ignoring case. -/
def IsLength (name : Bytes) : Prop := name.map tolower = bytes "content-length"

instance (name : Bytes) : Decidable (IsLength name) := inferInstanceAs (Decidable (_ = _))

def Field.line (f : Field) : Bytes := f.name ++ ch ':' :: ch ' ' :: f.value

/-- What a recipient takes from a field. -/
def Field.pair (f : Field) : Bytes × Bytes := (f.name, f.value)

/-- The values of the Content-Length fields. -/
def lengths (fields : List (Bytes × Bytes)) : List Bytes :=
  (fields.filter fun field => IsLength field.1).map Prod.snd

theorem lengths_cons (field : Bytes × Bytes) (fields : List (Bytes × Bytes)) :
    lengths (field :: fields) =
      if IsLength field.1 then field.2 :: lengths fields else lengths fields := by
  unfold lengths
  rw [List.filter_cons]
  by_cases hname : IsLength field.1
  · rw [if_pos (decide_eq_true hname), if_pos hname, List.map_cons]
  · rw [if_neg fun h => hname (of_decide_eq_true h), if_neg hname]

structure Message where
  start : Bytes
  fields : List Field
  body : Bytes
  started : start ≠ []
  inStart : ∀ c ∈ start, Inline c
  framed : lengths (fields.map Field.pair) = [decimal body.length]

/-- The lines of a head. -/
def Message.lines (m : Message) : List Bytes := m.start :: m.fields.map Field.line

/-- Lines with their ends, and the empty line. -/
def headBytes (lines : List Bytes) : Bytes := lines.flatMap (· ++ lineEnd) ++ lineEnd

def Message.bytes (m : Message) : Bytes := headBytes m.lines ++ m.body

/-! ## Reading -/

/-- The first line, and what is behind its end. -/
def readLine : Bytes → Option (Bytes × Bytes)
  | [] => none
  | c :: text =>
    if c = cr ∧ text.head? = some lf then some ([], text.tail)
    else (readLine text).map fun (line, rest) => (c :: line, rest)

theorem readLine_length {text line rest : Bytes} (h : readLine text = some (line, rest)) :
    rest.length < text.length := by
  induction text generalizing line with
  | nil => cases h
  | cons c text ih =>
    rw [readLine] at h
    split at h
    · cases h
      rw [List.length_tail, List.length_cons]
      omega
    · obtain ⟨⟨line', rest'⟩, hread, heq⟩ := Option.map_eq_some_iff.mp h
      cases heq
      exact Nat.lt_succ_of_lt (ih hread)

/-- The lines up to the first empty one, and what is behind it. -/
def readHead (text : Bytes) : Option (List Bytes × Bytes) :=
  match _hread : readLine text with
  | none => none
  | some (line, rest) =>
    if line = [] then some ([], rest)
    else (readHead rest).map fun (lines, rest) => (line :: lines, rest)
termination_by text.length
decreasing_by exact readLine_length _hread

/-- The name and the value of a field. -/
def readField (line : Bytes) : Option (Bytes × Bytes) :=
  let name := line.takeWhile (· ≠ ch ':')
  if name = [] ∨ name = line then none else some (name, trim (line.drop (name.length + 1)))

/-- The length that the fields give. -/
def bodyLength (fields : List (Bytes × Bytes)) : Option Nat :=
  match lengths fields with
  | [value] => if value ≠ [] ∧ value.all isdigit then some (digitsValue value) else none
  | _ => none

/-- A start line, fields and a body. -/
abbrev Parts := Bytes × List (Bytes × Bytes) × Bytes

/-- The fields and the body, behind the start line. -/
def readParts (start : Bytes) (lines : List Bytes) (rest : Bytes) : Option (Parts × Bytes) := do
  let fields ← lines.mapM readField
  let n ← bodyLength fields
  if rest.length < n then none else some ((start, fields, rest.take n), rest.drop n)

/-- A message at the front of a stream, and what is behind it. -/
def readMessage (text : Bytes) : Option (Parts × Bytes) :=
  match readHead text with
  | some (start :: lines, rest) => readParts start lines rest
  | _ => none

/-! ## A recipient reads what was written -/

theorem readLine_line {line : Bytes} (h : ∀ c ∈ line, Inline c) (rest : Bytes) :
    readLine (line ++ (lineEnd ++ rest)) = some (line, rest) := by
  induction line with
  | nil => rfl
  | cons c line ih =>
    obtain ⟨hc, hline⟩ := List.forall_mem_cons.mp h
    rw [List.cons_append, readLine, if_neg fun heq => hc.1 heq.1, ih hline]
    rfl

theorem readHead_lines {lines : List Bytes}
    (h : ∀ line ∈ lines, line ≠ [] ∧ ∀ c ∈ line, Inline c) (rest : Bytes) :
    readHead (headBytes lines ++ rest) = some (lines, rest) := by
  induction lines with
  | nil =>
    have hempty : readLine ([] ++ (lineEnd ++ rest)) = some ([], rest) :=
      readLine_line (List.forall_mem_nil _) rest
    rw [readHead]
    split
    · rename_i hnone
      cases hnone.symm.trans hempty
    · rename_i line rest' hsome
      cases hsome.symm.trans hempty
      rfl
  | cons line lines ih =>
    obtain ⟨⟨hne, hline⟩, hlines⟩ := List.forall_mem_cons.mp h
    have hsplit : headBytes (line :: lines) ++ rest =
        line ++ (lineEnd ++ (headBytes lines ++ rest)) := by
      simp only [headBytes, List.flatMap_cons, List.append_assoc]
    have hfirst := readLine_line hline (headBytes lines ++ rest)
    rw [hsplit, readHead]
    split
    · rename_i hnone
      cases hnone.symm.trans hfirst
    · rename_i line' rest' hsome
      cases hsome.symm.trans hfirst
      rw [if_neg hne, ih hlines]
      rfl

theorem readField_line (f : Field) : readField f.line = some f.pair := by
  have hname : f.line.takeWhile (· ≠ ch ':') = f.name := by
    rw [Field.line, List.takeWhile_append_of_pos fun c hc => decide_eq_true (f.inName c hc).2]
    exact List.append_nil _
  have hvalue : f.line.drop (f.name.length + 1) = ch ' ' :: f.value := by
    rw [Field.line, List.drop_append, List.drop_of_length_le (Nat.le_succ _), Nat.add_sub_cancel_left]
    rfl
  have hwhole : ¬ (f.name = [] ∨ f.name = f.line) := by
    rintro (hnil | heq)
    · exact f.named hnil
    · have hlength := congrArg List.length heq
      rw [Field.line, List.length_append, List.length_cons] at hlength
      omega
  have htrim : trim (ch ' ' :: f.value) = f.value := by
    have hspace : blank (ch ' ') = true := by decide
    rw [trim, List.dropWhile_cons_of_pos hspace]
    exact f.trimmed
  unfold readField
  simp only [hname, hvalue, if_neg hwhole, htrim]
  rfl

theorem Field.isLine (f : Field) : f.line ≠ [] ∧ ∀ c ∈ f.line, Inline c := by
  constructor
  · intro hnil
    exact f.named (List.append_eq_nil_iff.mp hnil).1
  · intro c hc
    rw [Field.line, List.mem_append, List.mem_cons, List.mem_cons] at hc
    rcases hc with hc | rfl | rfl | hc
    · exact (f.inName c hc).1
    · decide
    · decide
    · exact f.inValue c hc

theorem bodyLength_decimal {fields : List (Bytes × Bytes)} {n : Nat}
    (h : lengths fields = [decimal n]) : bodyLength fields = some n := by
  have hdigits : (decimal n).all isdigit = true := List.all_eq_true.mpr (isdigit_of_mem_decimal n)
  unfold bodyLength
  rw [h]
  simp only
  rw [if_pos ⟨decimal_ne_nil n, hdigits⟩, digitsValue_decimal]

/-- The message that was written is read back, and what follows it is left. -/
theorem readMessage_bytes (m : Message) (rest : Bytes) :
    readMessage (m.bytes ++ rest) = some ((m.start, m.fields.map Field.pair, m.body), rest) := by
  have hlines : ∀ line ∈ m.lines, line ≠ [] ∧ ∀ c ∈ line, Inline c := by
    refine List.forall_mem_cons.mpr ⟨⟨m.started, m.inStart⟩, fun line hline => ?_⟩
    obtain ⟨f, -, rfl⟩ := List.mem_map.mp hline
    exact f.isLine
  have hfields : (m.fields.map Field.line).mapM readField = some (m.fields.map Field.pair) := by
    induction m.fields with
    | nil => rfl
    | cons f fields ih =>
      rw [List.map_cons, List.mapM_cons, readField_line, ih]
      rfl
  unfold readMessage
  rw [Message.bytes, List.append_assoc, readHead_lines hlines]
  have hroom : ¬ (m.body ++ rest).length < m.body.length := by
    rw [List.length_append]
    omega
  simp only [Message.lines, readParts, hfields, bodyLength_decimal m.framed, if_neg hroom,
    List.take_left, List.drop_left, Option.bind_eq_bind, Option.bind_some]

/-! ## Where a message ends -/

theorem readLine_append {text line rest : Bytes} (h : readLine text = some (line, rest))
    (more : Bytes) : readLine (text ++ more) = some (line, rest ++ more) := by
  induction text generalizing line with
  | nil => cases h
  | cons c text ih =>
    rw [readLine] at h
    rw [List.cons_append, readLine]
    split at h
    · rename_i hend
      cases h
      cases text with
      | nil => cases hend.2
      | cons d text =>
        rw [if_pos ⟨hend.1, hend.2⟩]
        rfl
    · rename_i hnot
      obtain ⟨⟨line', rest'⟩, hread, heq⟩ := Option.map_eq_some_iff.mp h
      cases heq
      cases text with
      | nil => cases hread
      | cons d text =>
        have hnot' : ¬ (c = cr ∧ (d :: text ++ more).head? = some lf) := hnot
        rw [if_neg hnot', ih hread]
        rfl

theorem readHead_append {text rest : Bytes} {lines : List Bytes}
    (h : readHead text = some (lines, rest)) (more : Bytes) :
    readHead (text ++ more) = some (lines, rest ++ more) := by
  induction hlen : text.length using Nat.strong_induction_on generalizing text lines with
  | _ length ih =>
    rw [readHead] at h
    split at h
    · cases h
    rename_i line rest' hline
    have hlonger := readLine_append hline more
    rw [readHead]
    split
    · rename_i hnone
      cases hnone.symm.trans hlonger
    rename_i line'' rest'' hsome
    cases hsome.symm.trans hlonger
    split at h
    · rename_i hnil
      cases h
      rw [if_pos hnil]
    · rename_i hne
      obtain ⟨⟨lines', rest''⟩, hrest, heq⟩ := Option.map_eq_some_iff.mp h
      cases heq
      rw [if_neg hne, ih rest'.length (hlen ▸ readLine_length hline) hrest rfl]
      rfl

/-- A message is complete: more bytes behind it are left. -/
theorem readMessage_append {text rest : Bytes} {parts : Parts}
    (h : readMessage text = some (parts, rest)) (more : Bytes) :
    readMessage (text ++ more) = some (parts, rest ++ more) := by
  unfold readMessage at h ⊢
  split at h
  · rename_i start lines body hhead
    rw [readHead_append hhead more]
    simp only [readParts, Option.bind_eq_bind, Option.bind_eq_some_iff] at h ⊢
    obtain ⟨fields, hfields, n, hn, h⟩ := h
    refine ⟨fields, hfields, n, hn, ?_⟩
    split at h
    · cases h
    rename_i hroom
    cases h
    rw [if_neg (by rw [List.length_append]; omega), List.take_append_of_le_length (by omega),
      List.drop_append_of_le_length (by omega)]
  · cases h

/-- No proper beginning of a message is a message. -/
theorem readMessage_prefix {m : Message} {text : Bytes} (htext : text <+: m.bytes)
    (hne : text ≠ m.bytes) : readMessage text = none := by
  cases hread : readMessage text with
  | none => rfl
  | some r =>
    obtain ⟨parts, rest⟩ := r
    obtain ⟨more, hmore⟩ := htext
    have hwhole := readMessage_bytes m []
    rw [List.append_nil, ← hmore, readMessage_append hread more] at hwhole
    have hnil := congrArg Prod.snd (Option.some.inj hwhole)
    rw [(List.append_eq_nil_iff.mp hnil).2, List.append_nil] at hmore
    exact absurd hmore hne

end Http
