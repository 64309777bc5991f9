import JungleDb.Lib.JsonString

/-!
# JSON texts

The grammar of RFC 8259 over bytes; a byte from 0x80 on stands for itself and is not looked at. A
value holds the decoded text of its strings. `parse` is a parser, and it finds the value of every
text of the grammar; so a text has one value.
-/

namespace Json

open CString JsonString

/-- A value, its strings decoded and its numbers as they are written. -/
inductive Value
  | null
  | bool (b : Bool)
  | number (text : Bytes)
  | string (text : Bytes)
  | array (elements : List Value)
  | object (members : List (Bytes × Value))

/-! ## String literals -/

/-- One character of a literal, as it is written. -/
inductive Item
  | plain (c : UInt8) (h : c ≠ ch '"' ∧ c ≠ ch '\\')
  | escape (e : Escape)
  | unicode (u : CodeUnit)

/-- What a byte that stands for itself is not. -/
theorem ne_special {c : UInt8} (hquote : c ≠ ch '"') (hsolidus : c ≠ ch '\\') :
    c ≠ ch '"' ∧ c ≠ ch '\\' :=
  ⟨hquote, hsolidus⟩

def Item.bytes : Item → Bytes
  | plain c _ => [c]
  | escape e => [ch '\\', e.letter]
  | unicode u => ch '\\' :: ch 'u' :: u.bytes

/-- A control character has to be escaped. -/
def Item.Valid : Item → Prop
  | plain c _ => 0x20 ≤ c
  | escape _ => True
  | unicode _ => True

/-- The bytes of a literal. -/
def literal (items : List Item) : Bytes :=
  ch '"' :: (items.flatMap Item.bytes ++ [ch '"'])

/-- The text that a literal stands for; an unpaired surrogate stands for nothing. -/
def decode : List Item → Option Bytes
  | [] => some []
  | .plain c _ :: items => (decode items).map (c :: ·)
  | .escape e :: items => (decode items).map (e.meaning :: ·)
  | .unicode u :: items =>
    if u.isLowSurrogate then none
    else if u.isHighSurrogate then
      match items with
      | .unicode v :: items =>
        if v.isLowSurrogate then (decode items).map (utf8 (surrogatePair u v) ++ ·) else none
      | _ => none
    else (decode items).map (utf8 u.value ++ ·)

/-- The literal is valid and stands for the text. -/
def Stands (items : List Item) (text : Bytes) : Prop :=
  (∀ item ∈ items, item.Valid) ∧ decode items = some text

/-! ## Numbers and white space -/

/-- The bytes of numbers. -/
def isNumberByte (c : UInt8) : Bool := isdigit c || (bytes "+-.eE").contains c

/-- An optional exponent. -/
def isExponent : Bytes → Bool
  | [] => true
  | c :: text =>
    let digits := if text.head? = some (ch '+') ∨ text.head? = some (ch '-') then text.drop 1
      else text
    (c = ch 'e' || c = ch 'E') && (digits ≠ [] && digits.all isdigit)

/-- An optional fraction, and an optional exponent. -/
def isFraction : Bytes → Bool
  | [] => true
  | c :: text =>
    if c = ch '.' then text.takeWhile isdigit ≠ [] && isExponent (text.dropWhile isdigit)
    else isExponent (c :: text)

/-- A number: its integer part has no leading zero. -/
def isNumber (text : Bytes) : Bool :=
  let unsigned := if text.head? = some (ch '-') then text.drop 1 else text
  let digits := unsigned.takeWhile isdigit
  text.all isNumberByte && (digits ≠ [] && (digits = [ch '0'] || digits.head? ≠ some (ch '0'))) &&
    isFraction (unsigned.dropWhile isdigit)

/-- The white space of JSON. -/
def isJsonSpace (c : UInt8) : Bool := c == 32 || c == 9 || c == 10 || c == 13

def Space (text : Bytes) : Prop := ∀ c ∈ text, isJsonSpace c = true

/-! ## The grammar -/

/-- What a part of a text stands for. -/
inductive Part
  | value (v : Value)
  | elements (vs : List Value)
  | members (ms : List (Bytes × Value))

/-- The texts of the parts; those of elements and members come with the space around them. -/
inductive Derives : Part → Bytes → Prop
  | nullLiteral : Derives (.value .null) (bytes "null")
  | trueLiteral : Derives (.value (.bool true)) (bytes "true")
  | falseLiteral : Derives (.value (.bool false)) (bytes "false")
  | number {text : Bytes} : isNumber text = true → Derives (.value (.number text)) text
  | string {items : List Item} {s : Bytes} : Stands items s →
      Derives (.value (.string s)) (literal items)
  | emptyArray {space : Bytes} : Space space →
      Derives (.value (.array [])) (ch '[' :: (space ++ [ch ']']))
  | array {vs : List Value} {text : Bytes} : Derives (.elements vs) text →
      Derives (.value (.array vs)) (ch '[' :: (text ++ [ch ']']))
  | emptyObject {space : Bytes} : Space space →
      Derives (.value (.object [])) (ch '\x7b' :: (space ++ [ch '\x7d']))
  | object {ms : List (Bytes × Value)} {text : Bytes} : Derives (.members ms) text →
      Derives (.value (.object ms)) (ch '\x7b' :: (text ++ [ch '\x7d']))
  | lastElement {v : Value} {before text after : Bytes} : Space before →
      Derives (.value v) text → Space after →
      Derives (.elements [v]) (before ++ (text ++ after))
  | element {v : Value} {vs : List Value} {before text after rest : Bytes} : Space before →
      Derives (.value v) text → Space after → Derives (.elements vs) rest →
      Derives (.elements (v :: vs)) (before ++ (text ++ (after ++ ch ',' :: rest)))
  | lastMember {items : List Item} {key : Bytes} {v : Value}
      {before colon before' text after : Bytes} : Space before → Stands items key →
      Space colon → Space before' → Derives (.value v) text → Space after →
      Derives (.members [(key, v)])
        (before ++ (literal items ++ (colon ++ ch ':' :: (before' ++ (text ++ after)))))
  | member {items : List Item} {key : Bytes} {v : Value} {ms : List (Bytes × Value)}
      {before colon before' text after rest : Bytes} : Space before → Stands items key →
      Space colon → Space before' → Derives (.value v) text → Space after →
      Derives (.members ms) rest →
      Derives (.members ((key, v) :: ms))
        (before ++ (literal items ++
          (colon ++ ch ':' :: (before' ++ (text ++ (after ++ ch ',' :: rest))))))

/-- A whole text. -/
def IsText (v : Value) (text : Bytes) : Prop :=
  ∃ before body after, Space before ∧ Derives (.value v) body ∧ Space after ∧
    text = before ++ (body ++ after)

/-! ## A parser -/

/-- The escape with a letter. -/
def escapeOf (c : UInt8) : Option Escape :=
  [Escape.quotationMark, .reverseSolidus, .solidus, .backspace, .formFeed, .lineFeed,
    .carriageReturn, .tab].find? fun e => e.letter = c

def hexDigitOf (c : UInt8) : Option HexDigit :=
  if h : (hexValue c).isSome then some ⟨c, h⟩ else none

/-- The characters up to the closing quotation mark, and what follows it. -/
def readItems : Bytes → Option (List Item × Bytes)
  | [] => none
  | c :: text =>
    if hquote : c = ch '"' then some ([], text)
    else if hsolidus : c = ch '\\' then
      match text with
      | [] => none
      | e :: text =>
        if e = ch 'u' then
          match text with
          | c₁ :: c₂ :: c₃ :: c₄ :: text => do
            let u : CodeUnit := ⟨← hexDigitOf c₁, ← hexDigitOf c₂, ← hexDigitOf c₃, ← hexDigitOf c₄⟩
            let (items, rest) ← readItems text
            some (.unicode u :: items, rest)
          | _ => none
        else do
          let escape ← escapeOf e
          let (items, rest) ← readItems text
          some (.escape escape :: items, rest)
    else if 0x20 ≤ c then do
      let (items, rest) ← readItems text
      some (.plain c (ne_special hquote hsolidus) :: items, rest)
    else none

/-- A string literal at the beginning. -/
def parseString : Bytes → Option (Bytes × Bytes)
  | [] => none
  | c :: text =>
    if c = ch '"' then do
      let (items, rest) ← readItems text
      let s ← decode items
      some (s, rest)
    else none

/-- The text after the byte, if it stands at the beginning. -/
def expect (c : UInt8) : Bytes → Option Bytes
  | [] => none
  | d :: text => if d = c then some text else none

/-- The text after the name. -/
def expectName (name : String) (text : Bytes) : Option Bytes :=
  if (bytes name).isPrefixOf text then some (text.drop (bytes name).length) else none

/-- The text without the white space at its beginning. -/
def skipSpace (text : Bytes) : Bytes := text.dropWhile isJsonSpace

/-- A number at the beginning. -/
def parseNumber (text : Bytes) : Option (Value × Bytes) :=
  if isNumber (text.takeWhile isNumberByte) then
    some (.number (text.takeWhile isNumberByte), text.dropWhile isNumberByte)
  else none

mutual

/-- A value at the beginning. -/
def parseValue : Nat → Bytes → Option (Value × Bytes)
  | 0, _ => none
  | _ + 1, [] => none
  | fuel + 1, c :: text =>
    if c = ch '"' then (parseString (c :: text)).map fun p => (.string p.1, p.2)
    else if c = ch 'n' then (expectName "null" (c :: text)).map fun rest => (.null, rest)
    else if c = ch 't' then (expectName "true" (c :: text)).map fun rest => (.bool true, rest)
    else if c = ch 'f' then (expectName "false" (c :: text)).map fun rest => (.bool false, rest)
    else if c = ch '[' then
      match expect (ch ']') (skipSpace text) with
      | some rest => some (.array [], rest)
      | none => (parseElements fuel text).map fun p => (.array p.1, p.2)
    else if c = ch '\x7b' then
      match expect (ch '\x7d') (skipSpace text) with
      | some rest => some (.object [], rest)
      | none => (parseMembers fuel text).map fun p => (.object p.1, p.2)
    else parseNumber (c :: text)

/-- Elements up to the closing bracket. -/
def parseElements : Nat → Bytes → Option (List Value × Bytes)
  | 0, _ => none
  | fuel + 1, text => do
    let (v, rest) ← parseValue fuel (skipSpace text)
    match expect (ch ',') (skipSpace rest) with
    | some rest => do
      let (vs, rest) ← parseElements fuel rest
      some (v :: vs, rest)
    | none => do
      let rest ← expect (ch ']') (skipSpace rest)
      some ([v], rest)

/-- Members up to the closing brace. -/
def parseMembers : Nat → Bytes → Option (List (Bytes × Value) × Bytes)
  | 0, _ => none
  | fuel + 1, text => do
    let (key, rest) ← parseString (skipSpace text)
    let rest ← expect (ch ':') (skipSpace rest)
    let (v, rest) ← parseValue fuel (skipSpace rest)
    match expect (ch ',') (skipSpace rest) with
    | some rest => do
      let (ms, rest) ← parseMembers fuel rest
      some ((key, v) :: ms, rest)
    | none => do
      let rest ← expect (ch '\x7d') (skipSpace rest)
      some ([(key, v)], rest)

end

/-- The value of a text that is JSON throughout. -/
def parse (text : Bytes) : Option Value := do
  let (v, rest) ← parseValue (2 * text.length + 1) (skipSpace text)
  if skipSpace rest = [] then some v else none

/-! ## The parser finds the value of every text -/

theorem escapeOf_letter (e : Escape) : escapeOf e.letter = some e := by
  cases e <;> decide

theorem hexDigitOf_byte (d : HexDigit) : hexDigitOf d.byte = some d := dif_pos d.isHex

theorem readItems_append {items : List Item} (h : ∀ item ∈ items, item.Valid) (rest : Bytes) :
    readItems (items.flatMap Item.bytes ++ ch '"' :: rest) = some (items, rest) := by
  induction items with
  | nil =>
    rw [List.flatMap_nil, List.nil_append, readItems.eq_def]
    exact dif_pos rfl
  | cons item items ih =>
    have hrest := ih fun i hi => h i (List.mem_cons_of_mem item hi)
    rw [List.flatMap_cons, List.append_assoc]
    cases item with
    | plain c hc =>
      have hvalid : 0x20 ≤ c := h _ List.mem_cons_self
      show readItems (c :: (items.flatMap Item.bytes ++ ch '"' :: rest)) = _
      rw [readItems.eq_def]
      simp only [dif_neg hc.1, dif_neg hc.2, if_pos hvalid, hrest, Option.bind_eq_bind,
        Option.bind_some]
    | escape e =>
      have hu : e.letter ≠ ch 'u' := by cases e <;> decide
      show readItems (ch '\\' :: e.letter :: (items.flatMap Item.bytes ++ ch '"' :: rest)) = _
      rw [readItems.eq_def]
      simp only [dif_neg (show ch '\\' ≠ ch '"' by decide), if_neg hu, escapeOf_letter, hrest,
        Option.bind_eq_bind, Option.bind_some, dite_true]
    | unicode u =>
      obtain ⟨d₁, d₂, d₃, d₄⟩ := u
      show readItems (ch '\\' :: ch 'u' :: d₁.byte :: d₂.byte :: d₃.byte :: d₄.byte ::
        (items.flatMap Item.bytes ++ ch '"' :: rest)) = _
      rw [readItems.eq_def]
      simp only [dif_neg (show ch '\\' ≠ ch '"' by decide), hexDigitOf_byte, hrest,
        Option.bind_eq_bind, Option.bind_some, dite_true, if_true]

theorem parseString_literal {items : List Item} {s : Bytes} (h : Stands items s) (rest : Bytes) :
    parseString (literal items ++ rest) = some (s, rest) := by
  rw [literal, List.cons_append, List.append_assoc, List.singleton_append, parseString, if_pos rfl,
    readItems_append h.1]
  simp only [Option.bind_eq_bind, Option.bind_some, h.2]

theorem expect_cons (c : UInt8) (text : Bytes) : expect c (c :: text) = some text := if_pos rfl

theorem expect_of_ne {c : UInt8} {text : Bytes} (h : text.head? ≠ some c) :
    expect c text = none := by
  cases text with
  | nil => rfl
  | cons d text => exact if_neg fun hd => h (congrArg some hd)

/-- What comes next is not white space. -/
def Tight (text : Bytes) : Prop := ∀ c ∈ text.head?, isJsonSpace c = false

theorem skipSpace_append {space text : Bytes} (hspace : Space space) (htext : Tight text) :
    skipSpace (space ++ text) = text := by
  induction space with
  | nil =>
    cases text with
    | nil => rfl
    | cons c text =>
      rw [List.nil_append, skipSpace, List.dropWhile_cons_of_neg]
      rw [htext c rfl]
      exact Bool.false_ne_true
  | cons c space ih =>
    rw [List.cons_append, skipSpace, List.dropWhile_cons_of_pos (hspace c List.mem_cons_self)]
    exact ih fun d hd => hspace d (List.mem_cons_of_mem c hd)

/-- What comes next does not go on with a number. -/
def Follow (text : Bytes) : Prop := ∀ c ∈ text.head?, isNumberByte c = false

theorem follow_cons {c : UInt8} (h : isNumberByte c = false) (text : Bytes) :
    Follow (c :: text) := by
  intro d hd
  obtain rfl := Option.some.inj hd
  exact h

theorem follow_append {space text : Bytes} (hspace : Space space) (htext : Follow text) :
    Follow (space ++ text) := by
  cases space with
  | nil => exact htext
  | cons c space =>
    apply follow_cons
    have hc := hspace c List.mem_cons_self
    simp only [isJsonSpace, Bool.or_eq_true, beq_iff_eq] at hc
    rcases hc with ((rfl | rfl) | rfl) | rfl <;> decide

theorem tight_cons {c : UInt8} (h : isJsonSpace c = false) (text : Bytes) : Tight (c :: text) := by
  intro d hd
  obtain rfl := Option.some.inj hd
  exact h

theorem skipSpace_byte {space : Bytes} (hspace : Space space) {c : UInt8} (text : Bytes)
    (h : isJsonSpace c = false) : skipSpace (space ++ c :: text) = c :: text :=
  skipSpace_append hspace (tight_cons h text)

theorem follow_byte {space : Bytes} (hspace : Space space) (c : UInt8) (text : Bytes)
    (h : isNumberByte c = false) : Follow (space ++ c :: text) :=
  follow_append hspace (follow_cons h text)

theorem parseNumber_append {text rest : Bytes} (h : isNumber text = true) (hrest : Follow rest) :
    parseNumber (text ++ rest) = some (.number text, rest) := by
  have hall : ∀ c ∈ text, isNumberByte c = true := by
    rw [isNumber, Bool.and_eq_true, Bool.and_eq_true] at h
    exact List.all_eq_true.mp h.1.1
  have htake : (text ++ rest).takeWhile isNumberByte = text := by
    rw [List.takeWhile_append_of_pos hall]
    cases rest with
    | nil => exact List.append_nil text
    | cons c rest =>
      rw [List.takeWhile_cons_of_neg, List.append_nil]
      rw [hrest c rfl]
      exact Bool.false_ne_true
  have hdrop : (text ++ rest).dropWhile isNumberByte = rest := by
    rw [List.dropWhile_append_of_pos hall]
    cases rest with
    | nil => rfl
    | cons c rest =>
      rw [List.dropWhile_cons_of_neg]
      rw [hrest c rfl]
      exact Bool.false_ne_true
  rw [parseNumber, htake, hdrop, if_pos h]

theorem isNumber_cons {text : Bytes} (h : isNumber text = true) :
    ∃ c tail, text = c :: tail ∧ isNumberByte c = true := by
  cases text with
  | nil => exact absurd h (by decide)
  | cons c tail =>
    rw [isNumber, List.all_cons, Bool.and_eq_true, Bool.and_eq_true, Bool.and_eq_true] at h
    exact ⟨c, tail, rfl, h.1.1.1⟩

/-- A value starts with none of these. -/
theorem Derives.first {v : Value} {text : Bytes} (h : Derives (.value v) text) :
    ∃ c tail, text = c :: tail ∧ isJsonSpace c = false ∧ c ≠ ch ']' ∧ c ≠ ch '\x7d' := by
  cases h with
  | nullLiteral => exact ⟨_, _, rfl, by decide, by decide, by decide⟩
  | trueLiteral => exact ⟨_, _, rfl, by decide, by decide, by decide⟩
  | falseLiteral => exact ⟨_, _, rfl, by decide, by decide, by decide⟩
  | number hnumber =>
    obtain ⟨c, tail, rfl, hc⟩ := isNumber_cons hnumber
    have hne : ∀ d : UInt8, isNumberByte d = false → c ≠ d := by
      rintro d hd rfl
      rw [hd] at hc
      cases hc
    refine ⟨c, tail, rfl, ?_, hne _ (by decide), hne _ (by decide)⟩
    simp only [isJsonSpace, Bool.or_eq_false_iff, beq_eq_false_iff_ne]
    exact ⟨⟨⟨hne 32 (by decide), hne 9 (by decide)⟩, hne 10 (by decide)⟩, hne 13 (by decide)⟩
  | string _ => exact ⟨_, _, rfl, by decide, by decide, by decide⟩
  | emptyArray _ => exact ⟨_, _, rfl, by decide, by decide, by decide⟩
  | array _ => exact ⟨_, _, rfl, by decide, by decide, by decide⟩
  | emptyObject _ => exact ⟨_, _, rfl, by decide, by decide, by decide⟩
  | object _ => exact ⟨_, _, rfl, by decide, by decide, by decide⟩

theorem Derives.tight {v : Value} {text : Bytes} (h : Derives (.value v) text) (rest : Bytes) :
    Tight (text ++ rest) := by
  obtain ⟨c, tail, rfl, hc, -⟩ := h.first
  intro d hd
  obtain rfl := Option.some.inj hd
  exact hc

/-- The elements of an array do not start with its closing bracket. -/
theorem Derives.elements_first {vs : List Value} {text : Bytes} (h : Derives (.elements vs) text)
    (rest : Bytes) : (skipSpace (text ++ rest)).head? ≠ some (ch ']') := by
  have hvalue : ∀ {before : Bytes} {v : Value} {text : Bytes} (rest : Bytes), Space before →
      Derives (.value v) text →
      (skipSpace (before ++ (text ++ rest))).head? ≠ some (ch ']') := by
    intro before v text rest hbefore hv
    rw [skipSpace_append hbefore (hv.tight rest)]
    obtain ⟨c, tail, rfl, -, hc, -⟩ := hv.first
    exact fun heq => hc (Option.some.inj heq)
  cases h with
  | lastElement hbefore hv _ =>
    rw [List.append_assoc, List.append_assoc]
    exact hvalue _ hbefore hv
  | element hbefore hv _ _ =>
    rw [List.append_assoc, List.append_assoc]
    exact hvalue _ hbefore hv

/-- The members of an object start with a quotation mark. -/
theorem Derives.members_first {ms : List (Bytes × Value)} {text : Bytes}
    (h : Derives (.members ms) text) (rest : Bytes) :
    (skipSpace (text ++ rest)).head? ≠ some (ch '\x7d') := by
  have hkey : ∀ {before : Bytes} {items : List Item} (rest : Bytes), Space before →
      (skipSpace (before ++ (literal items ++ rest))).head? ≠ some (ch '\x7d') := by
    intro before items rest hbefore
    have hquote : Tight (literal items ++ rest) := tight_cons (by decide) _
    rw [skipSpace_append hbefore hquote]
    exact fun heq => absurd (Option.some.inj heq) (by decide)
  cases h with
  | lastMember hbefore _ _ _ _ _ =>
    rw [List.append_assoc, List.append_assoc]
    exact hkey _ hbefore
  | member hbefore _ _ _ _ _ _ =>
    rw [List.append_assoc, List.append_assoc]
    exact hkey _ hbefore

/-- The parser reads the text of a part, whatever follows. -/
def Parses : Part → Bytes → Prop
  | .value v, text => ∀ fuel rest, 2 * text.length < fuel → Follow rest →
      parseValue fuel (text ++ rest) = some (v, rest)
  | .elements vs, text => ∀ fuel rest, 2 * text.length + 1 < fuel →
      parseElements fuel (text ++ ch ']' :: rest) = some (vs, rest)
  | .members ms, text => ∀ fuel rest, 2 * text.length + 1 < fuel →
      parseMembers fuel (text ++ ch '\x7d' :: rest) = some (ms, rest)

theorem parseValue_name {fuel : Nat} {rest : Bytes} (h : 0 < fuel) :
    parseValue fuel (bytes "null" ++ rest) = some (.null, rest) ∧
      parseValue fuel (bytes "true" ++ rest) = some (.bool true, rest) ∧
      parseValue fuel (bytes "false" ++ rest) = some (.bool false, rest) := by
  obtain ⟨fuel, rfl⟩ := Nat.exists_eq_add_of_lt h
  refine ⟨?_, ?_, ?_⟩ <;> rw [Nat.zero_add] <;> rfl

/-- The first byte decides how a value is read. -/
theorem parseValue_bracket (fuel : Nat) (text : Bytes) :
    parseValue (fuel + 1) (ch '[' :: text) =
      match expect (ch ']') (skipSpace text) with
      | some rest => some (.array [], rest)
      | none => (parseElements fuel text).map fun p => (.array p.1, p.2) :=
  rfl

theorem parseValue_brace (fuel : Nat) (text : Bytes) :
    parseValue (fuel + 1) (ch '\x7b' :: text) =
      match expect (ch '\x7d') (skipSpace text) with
      | some rest => some (.object [], rest)
      | none => (parseMembers fuel text).map fun p => (.object p.1, p.2) :=
  rfl

theorem parseValue_array {fuel : Nat} (text rest : Bytes) {vs : List Value}
    (hfirst : (skipSpace text).head? ≠ some (ch ']'))
    (h : parseElements fuel text = some (vs, rest)) :
    parseValue (fuel + 1) (ch '[' :: text) = some (.array vs, rest) := by
  rw [parseValue_bracket, expect_of_ne hfirst, h]
  rfl

theorem parseValue_object {fuel : Nat} (text rest : Bytes) {ms : List (Bytes × Value)}
    (hfirst : (skipSpace text).head? ≠ some (ch '\x7d'))
    (h : parseMembers fuel text = some (ms, rest)) :
    parseValue (fuel + 1) (ch '\x7b' :: text) = some (.object ms, rest) := by
  rw [parseValue_brace, expect_of_ne hfirst, h]
  rfl

theorem parseValue_empty {fuel : Nat} {space : Bytes} (hspace : Space space) (rest : Bytes) :
    parseValue (fuel + 1) (ch '[' :: (space ++ ch ']' :: rest)) = some (.array [], rest) ∧
      parseValue (fuel + 1) (ch '\x7b' :: (space ++ ch '\x7d' :: rest)) =
        some (.object [], rest) := by
  constructor
  · rw [parseValue_bracket, skipSpace_byte hspace rest (by decide), expect_cons]
  · rw [parseValue_brace, skipSpace_byte hspace rest (by decide), expect_cons]

theorem parseValue_number {fuel : Nat} {text rest : Bytes} (h : isNumber text = true)
    (hrest : Follow rest) :
    parseValue (fuel + 1) (text ++ rest) = some (.number text, rest) := by
  obtain ⟨c, tail, rfl, hc⟩ := isNumber_cons h
  have hne : ∀ d : UInt8, isNumberByte d = false → c ≠ d := by
    rintro d hd rfl
    rw [hd] at hc
    cases hc
  rw [List.cons_append, parseValue, if_neg (hne (ch '"') rfl), if_neg (hne (ch 'n') rfl),
    if_neg (hne (ch 't') rfl), if_neg (hne (ch 'f') rfl), if_neg (hne (ch '[') rfl),
    if_neg (hne (ch '\x7b') rfl), ← List.cons_append]
  exact parseNumber_append h hrest

theorem parseValue_string {fuel : Nat} {items : List Item} {s : Bytes} (h : Stands items s)
    (rest : Bytes) : parseValue (fuel + 1) (literal items ++ rest) = some (.string s, rest) := by
  have hread := parseString_literal h rest
  rw [literal, List.cons_append] at hread ⊢
  rw [parseValue, if_pos rfl, hread]
  rfl

/-- An element, before a comma or the closing bracket. -/
theorem parseElements_value {fuel : Nat} {v : Value} {before text after rest : Bytes}
    (hbefore : Space before) (hv : Derives (.value v) text) (hafter : Space after)
    (hparse : parseValue fuel (text ++ (after ++ rest)) = some (v, after ++ rest))
    (hrest : Tight rest) :
    parseElements (fuel + 1) (before ++ (text ++ (after ++ rest))) =
      match expect (ch ',') rest with
      | some rest => (parseElements fuel rest).map fun p => (v :: p.1, p.2)
      | none => (expect (ch ']') rest).map fun rest => ([v], rest) := by
  simp only [parseElements, skipSpace_append hbefore (hv.tight _), hparse,
    skipSpace_append hafter hrest, Option.bind_eq_bind, Option.bind_some]
  cases expect (ch ',') rest with
  | some rest => exact Option.map_eq_bind.symm
  | none => exact Option.map_eq_bind.symm

/-- A member, before a comma or the closing brace. -/
theorem parseMembers_value {fuel : Nat} {items : List Item} {key : Bytes} {v : Value}
    {before colon before' text after rest : Bytes} (hbefore : Space before)
    (hkey : Stands items key) (hcolon : Space colon) (hbefore' : Space before')
    (hv : Derives (.value v) text) (hafter : Space after)
    (hparse : parseValue fuel (text ++ (after ++ rest)) = some (v, after ++ rest))
    (hrest : Tight rest) :
    parseMembers (fuel + 1) (before ++ (literal items ++
        (colon ++ ch ':' :: (before' ++ (text ++ (after ++ rest)))))) =
      match expect (ch ',') rest with
      | some rest => (parseMembers fuel rest).map fun p => ((key, v) :: p.1, p.2)
      | none => (expect (ch '\x7d') rest).map fun rest => ([(key, v)], rest) := by
  have hquote : ∀ rest, Tight (literal items ++ rest) := fun rest => tight_cons (by decide) _
  simp only [parseMembers, skipSpace_append hbefore (hquote _), parseString_literal hkey,
    skipSpace_byte hcolon (c := ch ':') _ (by decide), expect_cons,
    skipSpace_append hbefore' (hv.tight _), hparse, skipSpace_append hafter hrest,
    Option.bind_eq_bind, Option.bind_some]
  cases expect (ch ',') rest with
  | some rest => exact Option.map_eq_bind.symm
  | none => exact Option.map_eq_bind.symm

/-- One more than a bound is a successor. -/
theorem exists_succ {n fuel : Nat} (h : n < fuel) : ∃ k, fuel = k + 1 ∧ n ≤ k := by
  obtain ⟨k, rfl⟩ := Nat.exists_eq_add_one_of_ne_zero (Nat.ne_zero_of_lt h)
  exact ⟨k, rfl, Nat.le_of_lt_succ h⟩

theorem Derives.parses {part : Part} {text : Bytes} (h : Derives part text) :
    Parses part text := by
  induction h with
  | nullLiteral => exact fun fuel rest hfuel _ => (parseValue_name (Nat.zero_lt_of_lt hfuel)).1
  | trueLiteral => exact fun fuel rest hfuel _ => (parseValue_name (Nat.zero_lt_of_lt hfuel)).2.1
  | falseLiteral => exact fun fuel rest hfuel _ => (parseValue_name (Nat.zero_lt_of_lt hfuel)).2.2
  | number hnumber =>
    intro fuel rest hfuel hrest
    obtain ⟨k, rfl, -⟩ := exists_succ hfuel
    exact parseValue_number hnumber hrest
  | string hstands =>
    intro fuel rest hfuel _
    obtain ⟨k, rfl, -⟩ := exists_succ hfuel
    exact parseValue_string hstands rest
  | emptyArray hspace =>
    intro fuel rest hfuel _
    obtain ⟨k, rfl, -⟩ := exists_succ hfuel
    rw [List.cons_append, List.append_assoc]
    exact (parseValue_empty hspace rest).1
  | array hvs ih =>
    intro fuel rest hfuel _
    obtain ⟨k, rfl, hk⟩ := exists_succ hfuel
    rw [List.length_cons, List.length_append, List.length_singleton] at hk
    rw [List.cons_append, List.append_assoc]
    exact parseValue_array _ rest (hvs.elements_first _) (ih k rest (by omega))
  | emptyObject hspace =>
    intro fuel rest hfuel _
    obtain ⟨k, rfl, -⟩ := exists_succ hfuel
    rw [List.cons_append, List.append_assoc]
    exact (parseValue_empty hspace rest).2
  | object hms ih =>
    intro fuel rest hfuel _
    obtain ⟨k, rfl, hk⟩ := exists_succ hfuel
    rw [List.length_cons, List.length_append, List.length_singleton] at hk
    rw [List.cons_append, List.append_assoc]
    exact parseValue_object _ rest (hms.members_first _) (ih k rest (by omega))
  | lastElement hbefore hv hafter ih =>
    intro fuel rest hfuel
    obtain ⟨k, rfl, hk⟩ := exists_succ hfuel
    simp only [List.length_append] at hk
    have hparse := ih k _ (by omega) (follow_byte hafter (ch ']') rest (by decide))
    rw [List.append_assoc, List.append_assoc,
      parseElements_value hbefore hv hafter hparse (tight_cons (by decide) _)]
    rfl
  | @element _ _ _ _ _ following hbefore hv hafter _ ihv ihvs =>
    intro fuel rest hfuel
    obtain ⟨k, rfl, hk⟩ := exists_succ hfuel
    simp only [List.length_append, List.length_cons] at hk
    have hparse := ihv k _ (by omega)
      (follow_byte hafter (ch ',') (following ++ ch ']' :: rest) (by decide))
    rw [List.append_assoc, List.append_assoc, List.append_assoc, List.cons_append,
      parseElements_value hbefore hv hafter hparse (tight_cons (by decide) _)]
    simp only [expect_cons, ihvs k rest (by omega), Option.map_some]
  | lastMember hbefore hkey hcolon hbefore' hv hafter ih =>
    intro fuel rest hfuel
    obtain ⟨k, rfl, hk⟩ := exists_succ hfuel
    simp only [List.length_append, List.length_cons] at hk
    have hparse := ih k _ (by omega) (follow_byte hafter (ch '\x7d') rest (by decide))
    simp only [List.append_assoc, List.cons_append]
    rw [parseMembers_value hbefore hkey hcolon hbefore' hv hafter hparse (tight_cons (by decide) _)]
    rfl
  | @member _ _ _ _ _ _ _ _ _ following hbefore hkey hcolon hbefore' hv hafter _ ihv ihms =>
    intro fuel rest hfuel
    obtain ⟨k, rfl, hk⟩ := exists_succ hfuel
    simp only [List.length_append, List.length_cons] at hk
    have hparse := ihv k _ (by omega)
      (follow_byte hafter (ch ',') (following ++ ch '\x7d' :: rest) (by decide))
    simp only [List.append_assoc, List.cons_append]
    rw [parseMembers_value hbefore hkey hcolon hbefore' hv hafter hparse (tight_cons (by decide) _)]
    simp only [expect_cons, ihms k rest (by omega), Option.map_some]

/-- The parser finds the value of a text. -/
theorem parse_of_isText {v : Value} {text : Bytes} (h : IsText v text) : parse text = some v := by
  obtain ⟨before, body, after, hbefore, hbody, hafter, rfl⟩ := h
  have hfollow : Follow after := by
    have := @follow_append after [] hafter nofun
    rwa [List.append_nil] at this
  have hskip : skipSpace after = [] := by
    have := @skipSpace_append after [] hafter nofun
    rwa [List.append_nil] at this
  have hparse := hbody.parses (2 * (before ++ (body ++ after)).length + 1) after
    (by simp only [List.length_append]; omega) hfollow
  rw [parse, skipSpace_append hbefore (hbody.tight _), hparse]
  simp only [Option.bind_eq_bind, Option.bind_some, hskip, if_true]

/-- A text has one value. -/
theorem IsText.unique {v v' : Value} {text : Bytes} (h : IsText v text) (h' : IsText v' text) :
    v = v' := by
  have hparse := parse_of_isText h
  rw [parse_of_isText h'] at hparse
  exact (Option.some.inj hparse).symm

/-! ## Texts without white space -/

/-- Texts with commas between them. -/
def joined : List Bytes → Bytes
  | [] => []
  | text :: texts => text ++ texts.flatMap (ch ',' :: ·)

theorem joined_singleton (text : Bytes) : joined [text] = text := List.append_nil text

theorem space_nil : Space [] := nofun

variable {α : Type} {write : α → Bytes} {value : α → Value}

theorem derives_elements {a : α} {as : List α}
    (h : ∀ b ∈ a :: as, Derives (.value (value b)) (write b)) :
    Derives (.elements ((a :: as).map value)) (joined ((a :: as).map write)) := by
  induction as generalizing a with
  | nil =>
    have hlast := Derives.lastElement space_nil (h a List.mem_cons_self) space_nil
    rw [List.map_singleton, List.map_singleton, joined_singleton]
    simpa only [List.nil_append, List.append_nil] using hlast
  | cons b as ih =>
    have hrest := ih fun c hc => h c (List.mem_cons_of_mem a hc)
    exact Derives.element space_nil (h a List.mem_cons_self) space_nil hrest

/-- An array of values that are written one after the other. -/
theorem derives_array {as : List α} (h : ∀ a ∈ as, Derives (.value (value a)) (write a)) :
    Derives (.value (.array (as.map value)))
      (ch '[' :: (joined (as.map write) ++ [ch ']'])) := by
  cases as with
  | nil => exact .emptyArray space_nil
  | cons a as => exact .array (derives_elements h)

/-- The text of a member. -/
def memberText (key : List Item) (text : Bytes) : Bytes := literal key ++ ch ':' :: text

theorem derives_lastMember {items : List Item} {key : Bytes} {v : Value} {text : Bytes}
    (hkey : Stands items key) (hv : Derives (.value v) text) :
    Derives (.members [(key, v)]) (memberText items text) := by
  have hlast := Derives.lastMember space_nil hkey space_nil space_nil hv space_nil
  simpa only [memberText, List.nil_append, List.append_nil] using hlast

theorem derives_member {items : List Item} {key : Bytes} {v : Value} {text : Bytes}
    {ms : List (Bytes × Value)} {rest : Bytes} (hkey : Stands items key)
    (hv : Derives (.value v) text) (hms : Derives (.members ms) rest) :
    Derives (.members ((key, v) :: ms)) (memberText items text ++ ch ',' :: rest) := by
  have hmember := Derives.member space_nil hkey space_nil space_nil hv space_nil hms
  simpa only [memberText, List.nil_append, List.append_assoc, List.cons_append] using hmember

/-! ## No text has a NUL -/

theorem zero_notMem_item {item : Item} (h : item.Valid) : 0 ∉ item.bytes := by
  cases item with
  | plain c _ =>
    intro hmem
    have hc : 0 = c := List.mem_singleton.mp hmem
    subst hc
    exact absurd (show (0x20 : UInt8) ≤ 0 from h) (by decide)
  | escape e => cases e <;> decide
  | unicode u =>
    have hdigit : ∀ d : HexDigit, 0 ≠ d.byte := by
      rintro ⟨c, hc⟩ rfl
      cases hc
    simp only [Item.bytes, CodeUnit.bytes, List.mem_cons, List.not_mem_nil, or_false, not_or]
    exact ⟨by decide, by decide, hdigit _, hdigit _, hdigit _, hdigit _⟩

theorem zero_notMem_literal {items : List Item} {s : Bytes} (h : Stands items s) :
    0 ∉ literal items := by
  intro hmem
  rw [literal, List.mem_cons, List.mem_append, List.mem_flatMap, List.mem_singleton] at hmem
  rcases hmem with hquote | ⟨item, hitem, hmem⟩ | hquote
  · exact absurd hquote (by decide)
  · exact zero_notMem_item (h.1 item hitem) hmem
  · exact absurd hquote (by decide)

theorem zero_notMem_space {space : Bytes} (h : Space space) : 0 ∉ space := fun hmem =>
  absurd (h 0 hmem) (by decide)

theorem zero_notMem_number {text : Bytes} (h : isNumber text = true) : 0 ∉ text := by
  intro hmem
  rw [isNumber, Bool.and_eq_true, Bool.and_eq_true] at h
  exact absurd (List.all_eq_true.mp h.1.1 0 hmem) (by decide)

theorem Derives.zero_notMem {part : Part} {text : Bytes} (h : Derives part text) : 0 ∉ text := by
  have hpunctuation : ∀ c : Char, c ∈ ['[', ']', '\x7b', '\x7d', ':', ','] → 0 ≠ ch c := by
    intro c hc
    simp only [List.mem_cons, List.not_mem_nil, or_false] at hc
    rcases hc with rfl | rfl | rfl | rfl | rfl | rfl <;> decide
  induction h with
  | nullLiteral => decide
  | trueLiteral => decide
  | falseLiteral => decide
  | number h => exact zero_notMem_number h
  | string h => exact zero_notMem_literal h
  | emptyArray h => simp [hpunctuation, zero_notMem_space h]
  | array _ ih => simp [hpunctuation, ih]
  | emptyObject h => simp [hpunctuation, zero_notMem_space h]
  | object _ ih => simp [hpunctuation, ih]
  | lastElement h _ h' ih => simp [zero_notMem_space h, zero_notMem_space h', ih]
  | element h _ h' _ ih ih' =>
    simp [hpunctuation, zero_notMem_space h, zero_notMem_space h', ih, ih']
  | lastMember h hkey hcolon hbefore _ hafter ih =>
    simp [hpunctuation, zero_notMem_space h, zero_notMem_literal hkey, zero_notMem_space hcolon,
      zero_notMem_space hbefore, zero_notMem_space hafter, ih]
  | member h hkey hcolon hbefore _ hafter _ ih ih' =>
    simp [hpunctuation, zero_notMem_space h, zero_notMem_literal hkey, zero_notMem_space hcolon,
      zero_notMem_space hbefore, zero_notMem_space hafter, ih, ih']

theorem IsText.zero_notMem {v : Value} {text : Bytes} (h : IsText v text) : 0 ∉ text := by
  obtain ⟨before, body, after, hbefore, hbody, hafter, rfl⟩ := h
  rw [List.mem_append, List.mem_append]
  rintro (hmem | hmem | hmem)
  · exact zero_notMem_space hbefore hmem
  · exact hbody.zero_notMem hmem
  · exact zero_notMem_space hafter hmem

end Json
