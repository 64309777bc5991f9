import Mathlib.Data.List.TakeWhile
import JungleDb.Server.JsonString
import JungleDb.Server.Response

/-!
# The `sql` string of a request body

`server_extract_sql_from_json` of `server.c` goes from one string literal of the body to the next,
whatever stands around them, and reads each of them into a key of 64 bytes. The module says which
bodies give a text, and for which of them this is the member `sql` of a JSON object.
-/

namespace JungleDb

open CString Json

/-! ## The scanner -/

/-- `server_skip_json_space`. -/
def serverSkipJsonSpace (cursor : Bytes) : Bytes := cursor.dropWhile isspace

/-- The loop that looks for the next quotation mark. -/
def skipToQuote (cursor : Bytes) : Bytes := cursor.dropWhile (· ≠ ch '"')

theorem serverReadJsonLoop_length {outSize : Nat} {p cursor : Bytes} {out key : CStr outSize}
    (h : serverReadJsonLoop p out = .ok key cursor) : cursor.length < p.length := by
  fun_induction serverReadJsonLoop p out with
  | case1 => cases h
  | case2 =>
    cases h
    exact Nat.lt_succ_self _
  | case3 => cases h
  | case4 => cases h
  | case5 _ _ _ _ hescape _ _ _ ih =>
    have hlt := ih h
    have hless := serverReadJsonEscape_length hescape
    rw [List.length_cons]
    omega
  | case6 => cases h
  | case7 _ _ _ _ _ _ _ ih =>
    have hlt := ih h
    rw [List.length_cons]
    omega

theorem serverReadJsonString_length {outSize : Nat} {p cursor : Bytes} {key : CStr outSize}
    (h : serverReadJsonString p outSize = .ok key cursor) : cursor.length < p.length := by
  unfold serverReadJsonString at h
  split at h
  · cases h
  split at h
  · cases h
  split at h
  · have hlt := serverReadJsonLoop_length h
    rw [List.length_cons]
    omega
  · cases h

theorem length_dropWhile_le (p : UInt8 → Bool) (cursor : Bytes) :
    (cursor.dropWhile p).length ≤ cursor.length :=
  (List.dropWhile_sublist p).length_le

/-- `strcmp(key, "sql") == 0`, where the key may hold a NUL. -/
def isSqlKey (key : Bytes) : Bool := key.takeWhile (· ≠ 0) = bytes "sql"

/-- The loop of `server_extract_sql_from_json`. -/
def extractLoop (cursor : Bytes) (outSqlSize : Nat) : ServerJsonRead outSqlSize :=
  if skipToQuote cursor = [] then .invalid
  else
    match _h : serverReadJsonString (skipToQuote cursor) 64 with
    | .invalid => .invalid
    | .tooLong => .tooLong
    | .ok key rest =>
      let after := serverSkipJsonSpace rest
      if after.head? ≠ some (ch ':') then extractLoop after outSqlSize
      else
        let value := serverSkipJsonSpace (after.drop 1)
        if isSqlKey key.text then serverReadJsonString value outSqlSize
        else extractLoop value outSqlSize
termination_by cursor.length
decreasing_by
  · have hread := serverReadJsonString_length _h
    have hquote := length_dropWhile_le (· ≠ ch '"') cursor
    have hspace := length_dropWhile_le isspace rest
    exact Nat.lt_of_le_of_lt hspace (Nat.lt_of_lt_of_le hread hquote)
  · have hread := serverReadJsonString_length _h
    have hquote := length_dropWhile_le (· ≠ ch '"') cursor
    have hspace := length_dropWhile_le isspace rest
    have hvalue := length_dropWhile_le isspace ((serverSkipJsonSpace rest).drop 1)
    have hdrop := (List.drop_sublist 1 (serverSkipJsonSpace rest)).length_le
    exact Nat.lt_of_le_of_lt (hvalue.trans (hdrop.trans hspace)) (Nat.lt_of_lt_of_le hread hquote)

/-- `server_extract_sql_from_json`. -/
def serverExtractSqlFromJson (body : Bytes) (outSqlSize : Nat) : ServerJsonRead outSqlSize :=
  if outSqlSize = 0 then .invalid else extractLoop body outSqlSize

/-- The text that is read. -/
def ServerJsonRead.text {outSize : Nat} : ServerJsonRead outSize → Option Bytes
  | .ok out _ => some out.text
  | .invalid => none
  | .tooLong => none

/-! ## What the reader takes for a literal -/

/-- A character as the reader takes it: a byte for itself, `\` and any byte but `u`, or `\u` and any
four bytes. -/
inductive Piece
  | plain (c : UInt8) (h : c ≠ ch '"' ∧ c ≠ ch '\\')
  | escape (c : UInt8) (h : c ≠ ch 'u')
  | unicode (digits : Bytes) (h : digits.length = 4)

def Piece.bytes : Piece → Bytes
  | plain c _ => [c]
  | escape c _ => [ch '\\', c]
  | unicode digits _ => ch '\\' :: ch 'u' :: digits

/-- The byte that the reader stores for it. -/
def Piece.stored : Piece → UInt8
  | plain c _ => c
  | escape c _ => if c = ch 'n' then 10 else if c = ch 'r' then 13 else if c = ch 't' then 9 else c
  | unicode _ _ => ch '?'

/-- The bytes are a literal, and the reader stores these bytes for it. -/
def Quotes (text stored : Bytes) : Prop :=
  ∃ pieces : List Piece, text = ch '"' :: (pieces.flatMap Piece.bytes ++ [ch '"']) ∧
    stored = pieces.map Piece.stored

variable {outSize : Nat}

theorem serverReadJsonEscape_other {c : UInt8} (h : c ≠ ch 'u') (p : Bytes) :
    serverReadJsonEscape (c :: p) = some ((Piece.escape c h).stored, p) := by
  rw [serverReadJsonEscape, if_neg h, Piece.stored]
  split
  · rfl
  split
  · rfl
  split <;> rfl

theorem serverReadJsonLoop_piece (piece : Piece) (p : Bytes) (out : CStr outSize) :
    serverReadJsonLoop (piece.bytes ++ p) out =
      storeThen out [piece.stored] (serverReadJsonLoop p) := by
  cases piece with
  | plain c h => exact serverReadJsonLoop_plain h.1 h.2 p out
  | escape c h => exact serverReadJsonLoop_escape (serverReadJsonEscape_other h p) out
  | unicode digits h =>
    have hlength : ¬ (digits ++ p).length < 4 := by
      rw [List.length_append]
      omega
    have hescape : serverReadJsonEscape (ch 'u' :: (digits ++ p)) = some (ch '?', p) := by
      rw [serverReadJsonEscape, if_neg (by decide), if_neg (by decide), if_neg (by decide),
        if_pos rfl, if_neg hlength, ← h, List.drop_left]
    exact serverReadJsonLoop_escape hescape out

theorem serverReadJsonLoop_pieces (pieces : List Piece) (rest : Bytes) (out : CStr outSize) :
    serverReadJsonLoop (pieces.flatMap Piece.bytes ++ ch '"' :: rest) out =
      storeThen out (pieces.map Piece.stored) (.ok · rest) := by
  induction pieces generalizing out with
  | nil =>
    rw [List.flatMap_nil, List.map_nil, List.nil_append, serverReadJsonLoop, if_pos rfl,
      storeThen, CStr.append_nil]
  | cons piece pieces ih =>
    rw [List.flatMap_cons, List.append_assoc, serverReadJsonLoop_piece, List.map_cons,
      ← List.singleton_append (l := pieces.map Piece.stored), storeThen_append]
    exact congrArg (storeThen out _) (funext ih)

/-- A literal is read where its text and a NUL fit. -/
theorem serverReadJsonString_quotes {text stored : Bytes} (h : Quotes text stored) (rest : Bytes)
    (outSize : Nat) (hsize : 0 < outSize) :
    serverReadJsonString (text ++ rest) outSize =
      if hfits : stored.length < outSize then .ok ⟨stored, hfits⟩ rest else .tooLong := by
  obtain ⟨pieces, rfl, rfl⟩ := h
  rw [serverReadJsonString, dif_neg (Nat.ne_of_gt hsize), List.cons_append, List.append_assoc,
    List.singleton_append]
  simp only [if_true]
  rw [serverReadJsonLoop_pieces, storeThen]
  by_cases hfits : (pieces.map Piece.stored).length < outSize
  · have hout : CStr.append ⟨[], hsize⟩ (pieces.map Piece.stored) =
        some ⟨pieces.map Piece.stored, hfits⟩ := CStr.append_eq_some.mpr rfl
    rw [dif_pos hfits, hout]
  · have hout : CStr.append ⟨[], hsize⟩ (pieces.map Piece.stored) = none :=
      CStr.append_eq_none.mpr (Nat.le_of_not_lt hfits)
    rw [dif_neg hfits, hout]

/-- One more character is read before the others. -/
theorem piece_cons {p rest : Bytes} {out next key : CStr outSize} (piece : Piece)
    (hnext : out.push piece.stored = some next)
    (h : ∃ pieces : List Piece, p = pieces.flatMap Piece.bytes ++ ch '"' :: rest ∧
      key.text = next.text ++ pieces.map Piece.stored) :
    ∃ pieces : List Piece, piece.bytes ++ p = pieces.flatMap Piece.bytes ++ ch '"' :: rest ∧
      key.text = out.text ++ pieces.map Piece.stored := by
  obtain ⟨pieces, rfl, hkey⟩ := h
  refine ⟨piece :: pieces, ?_, ?_⟩
  · rw [List.flatMap_cons, List.append_assoc]
  · rw [hkey, CStr.push_eq_some.mp hnext, List.append_assoc]
    rfl

/-- What is read behind a `\`. -/
theorem exists_piece {p p' : Bytes} {c : UInt8} (h : serverReadJsonEscape p = some (c, p')) :
    ∃ piece : Piece, ch '\\' :: p = piece.bytes ++ p' ∧ piece.stored = c := by
  cases p with
  | nil => cases h
  | cons b p =>
    by_cases hu : b = ch 'u'
    · subst hu
      rw [serverReadJsonEscape, if_neg (by decide), if_neg (by decide), if_neg (by decide),
        if_pos rfl] at h
      split at h
      · cases h
      · rename_i hlength
        cases h
        refine ⟨.unicode (p.take 4) (List.length_take_of_le (Nat.le_of_not_lt hlength)), ?_, rfl⟩
        show _ = ch '\\' :: ch 'u' :: (p.take 4 ++ p.drop 4)
        rw [List.take_append_drop]
    · rw [serverReadJsonEscape_other hu] at h
      cases h
      exact ⟨.escape b hu, rfl, rfl⟩

/-- What is read is characters and a quotation mark. -/
theorem serverReadJsonLoop_ok {p rest : Bytes} {out key : CStr outSize}
    (h : serverReadJsonLoop p out = .ok key rest) :
    ∃ pieces : List Piece, p = pieces.flatMap Piece.bytes ++ ch '"' :: rest ∧
      key.text = out.text ++ pieces.map Piece.stored := by
  fun_induction serverReadJsonLoop p out with
  | case1 => cases h
  | case2 =>
    cases h
    exact ⟨[], rfl, (List.append_nil _).symm⟩
  | case3 => cases h
  | case4 => cases h
  | case5 out p c p' hread next hnext _ ih =>
    obtain ⟨piece, hpiece, rfl⟩ := exists_piece hread
    rw [hpiece]
    exact piece_cons piece hnext (ih h)
  | case6 => cases h
  | case7 out c p hquote hsolidus next hnext ih =>
    exact piece_cons (.plain c ⟨hquote, hsolidus⟩) hnext (ih h)

/-- Where the reader succeeds, a literal stands. -/
theorem serverReadJsonString_ok {p rest : Bytes} {key : CStr outSize}
    (h : serverReadJsonString p outSize = .ok key rest) :
    ∃ text, Quotes text key.text ∧ p = text ++ rest := by
  unfold serverReadJsonString at h
  split at h
  · cases h
  split at h
  · cases h
  split at h
  · rename_i hquote
    subst hquote
    obtain ⟨pieces, rfl, hkey⟩ := serverReadJsonLoop_ok h
    refine ⟨_, ⟨pieces, rfl, hkey⟩, ?_⟩
    rw [List.cons_append, List.append_assoc]
    rfl
  · cases h

/-! ## Literals with simple escapes -/

/-- The escapes `\"`, `\\`, `\/`, `\n`, `\r` and `\t`. -/
def isSimpleEscape (c : UInt8) : Bool := (bytes "\"\\/nrt").contains c

/-- Where a byte of a text stands. -/
inductive Place
  | outside
  | literal
  | escape

/-- Every escape of the literals of a text is simple. -/
def simpleEscapes : Place → Bytes → Bool
  | _, [] => true
  | .outside, c :: text => simpleEscapes (if c = ch '"' then .literal else .outside) text
  | .literal, c :: text =>
    simpleEscapes (if c = ch '"' then .outside else if c = ch '\\' then .escape else .literal) text
  | .escape, c :: text => isSimpleEscape c && simpleEscapes .literal text

/-- A character that is not a `\b`, a `\f` or a `\uXXXX`. -/
def Simple : Item → Prop
  | .plain _ _ => True
  | .escape e => isSimpleEscape e.letter = true
  | .unicode _ => False

/-- The byte that it stands for. -/
def plainByte : Item → UInt8
  | .plain c _ => c
  | .escape e => e.meaning
  | .unicode _ => ch '?'

theorem decode_simple {items : List Item} (h : ∀ item ∈ items, Simple item) :
    decode items = some (items.map plainByte) := by
  induction items with
  | nil => rfl
  | cons item items ih =>
    have hrest := ih fun i hi => h i (List.mem_cons_of_mem item hi)
    have hitem := h item List.mem_cons_self
    cases item with
    | plain c hc => exact congrArg (Option.map (c :: ·)) hrest
    | escape e => exact congrArg (Option.map (e.meaning :: ·)) hrest
    | unicode u => exact hitem.elim

theorem simpleEscapes_item {item : Item} {text : Bytes} :
    simpleEscapes .literal (item.bytes ++ text) = true ↔
      Simple item ∧ simpleEscapes .literal text = true := by
  cases item with
  | plain c hc =>
    show simpleEscapes .literal (c :: text) = true ↔ _
    rw [simpleEscapes, if_neg hc.1, if_neg hc.2]
    exact (and_iff_right trivial).symm
  | escape e =>
    show (isSimpleEscape e.letter && simpleEscapes .literal text) = true ↔ _
    rw [Bool.and_eq_true]
    rfl
  | unicode u => exact iff_of_false Bool.false_ne_true fun h => h.1

theorem simpleEscapes_literal {items : List Item} {rest : Bytes} :
    simpleEscapes .outside (literal items ++ rest) = true ↔
      (∀ item ∈ items, Simple item) ∧ simpleEscapes .outside rest = true := by
  have hloop : simpleEscapes .literal (items.flatMap Item.bytes ++ ch '"' :: rest) = true ↔
      (∀ item ∈ items, Simple item) ∧ simpleEscapes .outside rest = true := by
    induction items with
    | nil => exact (and_iff_right (List.forall_mem_nil _)).symm
    | cons item items ih =>
      rw [List.flatMap_cons, List.append_assoc, simpleEscapes_item, ih, List.forall_mem_cons,
        and_assoc]
  rw [literal, List.cons_append, List.append_assoc, List.singleton_append]
  exact hloop

/-- A simple item as the reader takes it. -/
theorem exists_simplePiece {item : Item} (h : Simple item) :
    ∃ piece : Piece, piece.bytes = item.bytes ∧ piece.stored = plainByte item := by
  cases item with
  | plain c hc => exact ⟨.plain c hc, rfl, rfl⟩
  | escape e =>
    have hletter : e.letter ≠ ch 'u' := by cases e <;> decide
    refine ⟨.escape e.letter hletter, rfl, ?_⟩
    have hsimple : isSimpleEscape e.letter = true := h
    cases e <;> first | rfl | exact absurd hsimple (by decide)
  | unicode u => exact h.elim

theorem quotes_simple {items : List Item} (h : ∀ item ∈ items, Simple item) :
    Quotes (literal items) (items.map plainByte) := by
  induction items with
  | nil => exact ⟨[], rfl, rfl⟩
  | cons item items ih =>
    obtain ⟨hitem, hitems⟩ := List.forall_mem_cons.mp h
    obtain ⟨pieces, htext, hstored⟩ := ih hitems
    obtain ⟨piece, hbytes, hbyte⟩ := exists_simplePiece hitem
    have hflat := List.append_cancel_right (List.cons.inj htext).2
    refine ⟨piece :: pieces, ?_, ?_⟩
    · rw [literal, List.flatMap_cons, List.flatMap_cons, hbytes, hflat]
    · rw [List.map_cons, List.map_cons, hbyte, hstored]

/-- Only simple escapes make a piece whose escape is simple. -/
theorem exists_simpleItem {piece : Piece} {text : Bytes}
    (h : simpleEscapes .literal (piece.bytes ++ text) = true) :
    ∃ item : Item, Simple item ∧ item.bytes = piece.bytes ∧ plainByte item = piece.stored := by
  cases piece with
  | plain c hc => exact ⟨.plain c hc, trivial, rfl, rfl⟩
  | escape c hc =>
    have hboth : isSimpleEscape c = true ∧ simpleEscapes .literal text = true :=
      (Bool.and_eq_true _ _).mp h
    have hmem : c ∈ [ch '"', ch '\\', ch '/', ch 'n', ch 'r', ch 't'] :=
      List.contains_iff_mem.mp hboth.1
    simp only [List.mem_cons, List.not_mem_nil, or_false] at hmem
    rcases hmem with rfl | rfl | rfl | rfl | rfl | rfl
    · exact ⟨.escape .quotationMark, rfl, rfl, rfl⟩
    · exact ⟨.escape .reverseSolidus, rfl, rfl, rfl⟩
    · exact ⟨.escape .solidus, rfl, rfl, rfl⟩
    · exact ⟨.escape .lineFeed, rfl, rfl, rfl⟩
    · exact ⟨.escape .carriageReturn, rfl, rfl, rfl⟩
    · exact ⟨.escape .tab, rfl, rfl, rfl⟩
  | unicode digits hdigits => cases h

/-- A literal in a text with simple escapes only. -/
theorem Quotes.simple {text stored rest : Bytes} (h : Quotes text stored)
    (hescapes : simpleEscapes .outside (text ++ rest) = true) :
    ∃ items : List Item, (∀ item ∈ items, Simple item) ∧ text = literal items ∧
      stored = items.map plainByte := by
  obtain ⟨pieces, rfl, rfl⟩ := h
  have hloop : ∀ pieces : List Piece,
      simpleEscapes .literal (pieces.flatMap Piece.bytes ++ ch '"' :: rest) = true →
      ∃ items : List Item, (∀ item ∈ items, Simple item) ∧
        items.flatMap Item.bytes = pieces.flatMap Piece.bytes ∧
        items.map plainByte = pieces.map Piece.stored := by
    intro pieces
    induction pieces with
    | nil => exact fun _ => ⟨[], List.forall_mem_nil _, rfl, rfl⟩
    | cons piece pieces ih =>
      intro h
      rw [List.flatMap_cons, List.append_assoc] at h
      obtain ⟨item, hitem, hbytes, hbyte⟩ := exists_simpleItem h
      rw [← hbytes] at h
      obtain ⟨items, hitems, hflat, hmap⟩ := ih (simpleEscapes_item.mp h).2
      refine ⟨item :: items, List.forall_mem_cons.mpr ⟨hitem, hitems⟩, ?_, ?_⟩
      · rw [List.flatMap_cons, List.flatMap_cons, hbytes, hflat]
      · rw [List.map_cons, List.map_cons, hbyte, hmap]
  rw [List.cons_append, List.append_assoc, List.singleton_append] at hescapes
  obtain ⟨items, hitems, hflat, hmap⟩ := hloop pieces hescapes
  exact ⟨items, hitems, by rw [literal, hflat], hmap.symm⟩

/-! ## The scanner goes from literal to literal -/

variable {n : Nat}

theorem skipToQuote_cons {c : UInt8} (h : c ≠ ch '"') (text : Bytes) :
    skipToQuote (c :: text) = skipToQuote text :=
  List.dropWhile_cons_of_pos (decide_eq_true h)

theorem extractLoop_nil : extractLoop [] n = .invalid := by
  rw [extractLoop]
  rfl

theorem extractLoop_congr {a b : Bytes} (h : skipToQuote a = skipToQuote b) :
    extractLoop a n = extractLoop b n := by
  rw [extractLoop.eq_def a, extractLoop.eq_def b, h]

/-- Bytes other than a quotation mark are passed over. -/
theorem extractLoop_skip {text : Bytes} (h : ch '"' ∉ text) (rest : Bytes) :
    extractLoop (text ++ rest) n = extractLoop rest n := by
  induction text with
  | nil => rfl
  | cons c text ih =>
    have hc : c ≠ ch '"' := fun heq => h (heq ▸ List.mem_cons_self)
    rw [List.cons_append, extractLoop_congr (skipToQuote_cons hc _)]
    exact ih fun hmem => h (List.mem_cons_of_mem c hmem)

theorem extractLoop_space (rest : Bytes) :
    extractLoop (serverSkipJsonSpace rest) n = extractLoop rest n := by
  have hspace : ch '"' ∉ rest.takeWhile isspace := fun hmem =>
    absurd (List.all_eq_true.mp List.all_takeWhile (ch '"') hmem) (by decide)
  have hskip := extractLoop_skip (n := n) hspace (serverSkipJsonSpace rest)
  rw [serverSkipJsonSpace, List.takeWhile_append_dropWhile] at hskip
  exact hskip.symm

/-- A key is followed by a colon. -/
def BeforeColon (rest : Bytes) : Prop := (serverSkipJsonSpace rest).head? = some (ch ':')

instance (rest : Bytes) : Decidable (BeforeColon rest) := inferInstanceAs (Decidable (_ = _))

/-- What stands behind the colon. -/
def afterColon (rest : Bytes) : Bytes := serverSkipJsonSpace ((serverSkipJsonSpace rest).drop 1)

theorem extractLoop_afterColon {rest : Bytes} (h : BeforeColon rest) :
    extractLoop (afterColon rest) n = extractLoop rest n := by
  obtain ⟨text, htext⟩ := List.head?_eq_some_iff.mp h
  have hcolon : skipToQuote (ch ':' :: text) = skipToQuote text := skipToQuote_cons (by decide) text
  rw [afterColon, htext, List.drop_one, List.tail_cons, extractLoop_space,
    ← extractLoop_congr hcolon, ← htext, extractLoop_space]

/-- One turn of the loop. -/
theorem extractLoop_eq {cursor : Bytes} (h : skipToQuote cursor ≠ []) :
    extractLoop cursor n =
      match serverReadJsonString (skipToQuote cursor) 64 with
      | .invalid => .invalid
      | .tooLong => .tooLong
      | .ok key rest =>
        if BeforeColon rest ∧ isSqlKey key.text = true then
          serverReadJsonString (afterColon rest) n
        else extractLoop rest n := by
  rw [extractLoop, if_neg h]
  split
  · rename_i hread
    rw [hread]
  · rename_i hread
    rw [hread]
  · rename_i key rest hread
    simp only [hread]
    by_cases hcolon : BeforeColon rest
    · have hnext : ¬ (serverSkipJsonSpace rest).head? ≠ some (ch ':') := not_not.mpr hcolon
      rw [if_neg hnext]
      by_cases hkey : isSqlKey key.text = true
      · rw [if_pos hkey, if_pos ⟨hcolon, hkey⟩]
        rfl
      · rw [if_neg hkey, if_neg fun h => hkey h.2]
        exact extractLoop_afterColon hcolon
    · have hnext : (serverSkipJsonSpace rest).head? ≠ some (ch ':') := hcolon
      rw [if_pos hnext, if_neg fun h => hcolon h.1]
      exact extractLoop_space rest

/-- A literal is too long for a key, or it is the key `sql`, or it is passed over. -/
theorem extractLoop_quotes {text key : Bytes} (h : Quotes text key) (rest : Bytes) :
    extractLoop (text ++ rest) n =
      if 64 ≤ key.length then .tooLong
      else if BeforeColon rest ∧ isSqlKey key = true then
        serverReadJsonString (afterColon rest) n
      else extractLoop rest n := by
  have hread := serverReadJsonString_quotes h rest 64 (by decide)
  obtain ⟨pieces, rfl, rfl⟩ := h
  rw [List.cons_append] at hread ⊢
  generalize pieces.flatMap Piece.bytes ++ [ch '"'] ++ rest = text at hread ⊢
  have hquote : skipToQuote (ch '"' :: text) = ch '"' :: text :=
    List.dropWhile_cons_of_neg (by decide)
  have hne : skipToQuote (ch '"' :: text) ≠ [] := by
    rw [hquote]
    exact List.cons_ne_nil _ _
  rw [extractLoop_eq hne, hquote, hread]
  by_cases hlen : 64 ≤ (pieces.map Piece.stored).length
  · rw [if_pos hlen, dif_neg (Nat.not_lt.mpr hlen)]
  · rw [if_neg hlen, dif_pos (Nat.lt_of_not_le hlen)]

theorem extractLoop_literal {items : List Item} (h : ∀ item ∈ items, Simple item) (rest : Bytes) :
    extractLoop (literal items ++ rest) n =
      if 64 ≤ items.length then .tooLong
      else if BeforeColon rest ∧ isSqlKey (items.map plainByte) = true then
        serverReadJsonString (afterColon rest) n
      else extractLoop rest n := by
  rw [extractLoop_quotes (quotes_simple h), List.length_map]

/-! ## The bodies that give a text -/

/-- The texts that the scanner finds: behind bytes other than a quotation mark and literals that are
short enough and are not a key `sql`, the key `sql`, a colon and a literal. -/
inductive LeadsTo : Bytes → Bytes → Prop
  | skip {c : UInt8} {body s : Bytes} : c ≠ ch '"' → LeadsTo body s → LeadsTo (c :: body) s
  | pass {items : List Item} {rest s : Bytes} : (∀ item ∈ items, Simple item) →
      items.length < 64 → ¬ (BeforeColon rest ∧ isSqlKey (items.map plainByte) = true) →
      LeadsTo rest s → LeadsTo (literal items ++ rest) s
  | found {key value : List Item} {space space' rest : Bytes} : (∀ item ∈ key, Simple item) →
      key.length < 64 → isSqlKey (key.map plainByte) = true → (∀ c ∈ space, isspace c = true) →
      (∀ c ∈ space', isspace c = true) → (∀ item ∈ value, Simple item) →
      value.length < MAX_SQL_LENGTH →
      LeadsTo (literal key ++ (space ++ ch ':' :: (space' ++ (literal value ++ rest))))
        (value.map plainByte)

/-- The text that the scanner finds. -/
def foundText (body : Bytes) : Option Bytes := (extractLoop body MAX_SQL_LENGTH).text

theorem foundText_nil : foundText [] = none := congrArg ServerJsonRead.text extractLoop_nil

theorem serverSkipJsonSpace_cons {c : UInt8} (hc : isspace c = false) (rest : Bytes) :
    serverSkipJsonSpace (c :: rest) = c :: rest := by
  apply List.dropWhile_cons_of_neg
  rw [hc]
  exact Bool.false_ne_true

theorem serverSkipJsonSpace_append {space : Bytes} (hspace : ∀ c ∈ space, isspace c = true)
    {c : UInt8} (hc : isspace c = false) (rest : Bytes) :
    serverSkipJsonSpace (space ++ c :: rest) = c :: rest := by
  rw [serverSkipJsonSpace, List.dropWhile_append_of_pos hspace]
  exact serverSkipJsonSpace_cons hc rest

/-- Space, a colon, and space before the value. -/
theorem beforeColon_append {space space' : Bytes} (hspace : ∀ c ∈ space, isspace c = true)
    (hspace' : ∀ c ∈ space', isspace c = true) {c : UInt8} (hc : isspace c = false) (rest : Bytes) :
    BeforeColon (space ++ ch ':' :: (space' ++ c :: rest)) ∧
      afterColon (space ++ ch ':' :: (space' ++ c :: rest)) = c :: rest := by
  have hcolon : serverSkipJsonSpace (space ++ ch ':' :: (space' ++ c :: rest)) =
      ch ':' :: (space' ++ c :: rest) := serverSkipJsonSpace_append hspace (by decide) _
  constructor
  · rw [BeforeColon, hcolon]
    rfl
  · rw [afterColon, hcolon, List.drop_one, List.tail_cons]
    exact serverSkipJsonSpace_append hspace' hc rest

theorem text_quotes {text stored : Bytes} (h : Quotes text stored) (rest : Bytes) :
    (serverReadJsonString (text ++ rest) MAX_SQL_LENGTH).text =
      if stored.length < MAX_SQL_LENGTH then some stored else none := by
  rw [serverReadJsonString_quotes h rest MAX_SQL_LENGTH (Nat.le_of_ble_eq_true rfl)]
  split <;> rfl

theorem text_literal {items : List Item} (h : ∀ item ∈ items, Simple item) (rest : Bytes) :
    (serverReadJsonString (literal items ++ rest) MAX_SQL_LENGTH).text =
      if items.length < MAX_SQL_LENGTH then some (items.map plainByte) else none := by
  rw [text_quotes (quotes_simple h), List.length_map]

/-- The same for literals with any escapes, as the reader takes them. -/
inductive Yields : Bytes → Bytes → Prop
  | skip {c : UInt8} {body s : Bytes} : c ≠ ch '"' → Yields body s → Yields (c :: body) s
  | pass {text key rest s : Bytes} : Quotes text key → key.length < 64 →
      ¬ (BeforeColon rest ∧ isSqlKey key = true) → Yields rest s → Yields (text ++ rest) s
  | found {text key space space' text' s rest : Bytes} : Quotes text key → key.length < 64 →
      isSqlKey key = true → (∀ c ∈ space, isspace c = true) → (∀ c ∈ space', isspace c = true) →
      Quotes text' s → s.length < MAX_SQL_LENGTH →
      Yields (text ++ (space ++ ch ':' :: (space' ++ (text' ++ rest)))) s

theorem foundText_of_yields {body s : Bytes} (h : Yields body s) : foundText body = some s := by
  unfold foundText
  induction h with
  | skip hc _ ih =>
    rw [extractLoop_congr (skipToQuote_cons hc _)]
    exact ih
  | pass htext hlen hkey _ ih =>
    rw [extractLoop_quotes htext, if_neg (Nat.not_le.mpr hlen), if_neg hkey]
    exact ih
  | @found text key space space' text' s rest htext hlen hsql hspace hspace' hvalue hfits =>
    have hread := text_quotes hvalue rest
    obtain ⟨pieces, rfl, -⟩ := hvalue
    rw [List.cons_append] at hread ⊢
    obtain ⟨hcolon, hafter⟩ := beforeColon_append hspace hspace' (by decide : isspace (ch '"') = false)
      (pieces.flatMap Piece.bytes ++ [ch '"'] ++ rest)
    rw [extractLoop_quotes htext, if_neg (Nat.not_le.mpr hlen), if_pos ⟨hcolon, hsql⟩, hafter]
    exact hread.trans (if_pos hfits)

theorem notMem_of_space {space : Bytes} (h : ∀ c ∈ space, isspace c = true) : ch '"' ∉ space :=
  fun hmem => absurd (h _ hmem) (by decide)

theorem BeforeColon.split {rest : Bytes} (h : BeforeColon rest) :
    ∃ space space', (∀ c ∈ space, isspace c = true) ∧ (∀ c ∈ space', isspace c = true) ∧
      rest = space ++ ch ':' :: (space' ++ afterColon rest) := by
  obtain ⟨text, htext⟩ := List.head?_eq_some_iff.mp h
  refine ⟨rest.takeWhile isspace, text.takeWhile isspace, ?_, ?_, ?_⟩
  · exact List.all_eq_true.mp List.all_takeWhile
  · exact List.all_eq_true.mp List.all_takeWhile
  · rw [afterColon, htext, List.drop_one, List.tail_cons, serverSkipJsonSpace,
      List.takeWhile_append_dropWhile, ← htext, serverSkipJsonSpace,
      List.takeWhile_append_dropWhile]

/-- A key with its colon, and the literal behind it. -/
theorem yields_key {text key rest s : Bytes} (htext : Quotes text key) (hlen : key.length < 64)
    (hsql : isSqlKey key = true) (hcolon : BeforeColon rest)
    (h : (serverReadJsonString (afterColon rest) MAX_SQL_LENGTH).text = some s) :
    Yields (text ++ rest) s := by
  obtain ⟨space, space', hspace, hspace', hrest⟩ := hcolon.split
  cases hread : serverReadJsonString (afterColon rest) MAX_SQL_LENGTH with
  | invalid =>
    rw [hread] at h
    cases h
  | tooLong =>
    rw [hread] at h
    cases h
  | ok out following =>
    rw [hread] at h
    obtain ⟨text', hvalue, hafter⟩ := serverReadJsonString_ok hread
    obtain rfl : out.text = s := Option.some.inj h
    rw [hrest, hafter]
    exact .found htext hlen hsql hspace hspace' hvalue out.fits

theorem yields_of_foundText {body s : Bytes} (h : foundText body = some s) : Yields body s := by
  induction hlen : body.length using Nat.strong_induction_on generalizing body with
  | _ len ih =>
    subst hlen
    cases body with
    | nil =>
      rw [foundText, extractLoop_nil] at h
      cases h
    | cons c text =>
      by_cases hc : c = ch '"'
      · have hquote : skipToQuote (c :: text) = c :: text :=
          List.dropWhile_cons_of_neg fun hne => of_decide_eq_true hne hc
        have hne : skipToQuote (c :: text) ≠ [] := by
          rw [hquote]
          exact List.cons_ne_nil c text
        have hturn := h
        rw [foundText, extractLoop_eq hne, hquote] at hturn
        cases hread : serverReadJsonString (c :: text) 64 with
        | invalid =>
          rw [hread] at hturn
          cases hturn
        | tooLong =>
          rw [hread] at hturn
          cases hturn
        | ok key rest =>
          have hshort := serverReadJsonString_length hread
          obtain ⟨literal, hliteral, hbody⟩ := serverReadJsonString_ok hread
          simp only [hread] at hturn
          rw [hbody]
          by_cases hfound : BeforeColon rest ∧ isSqlKey key.text = true
          · simp only [if_pos hfound] at hturn
            exact yields_key hliteral key.fits hfound.2 hfound.1 hturn
          · simp only [if_neg hfound] at hturn
            exact .pass hliteral key.fits hfound (ih rest.length hshort hturn rfl)
      · rw [foundText, extractLoop_congr (skipToQuote_cons hc _)] at h
        exact .skip hc (ih text.length (Nat.lt_succ_self _) h rfl)

/-- The text that is found in any body. -/
theorem foundText_yields {body s : Bytes} : foundText body = some s ↔ Yields body s :=
  ⟨yields_of_foundText, foundText_of_yields⟩

theorem simpleEscapes_skip {text : Bytes} (h : ch '"' ∉ text) (rest : Bytes) :
    simpleEscapes .outside (text ++ rest) = simpleEscapes .outside rest := by
  induction text with
  | nil => rfl
  | cons c text ih =>
    have hc : c ≠ ch '"' := fun heq => h (heq ▸ List.mem_cons_self)
    rw [List.cons_append, simpleEscapes, if_neg hc]
    exact ih fun hmem => h (List.mem_cons_of_mem c hmem)

theorem LeadsTo.yields {body s : Bytes} (h : LeadsTo body s) : Yields body s := by
  induction h with
  | skip hc _ ih => exact .skip hc ih
  | pass hitems hlen hkey _ ih =>
    exact .pass (quotes_simple hitems) (by rwa [List.length_map]) hkey ih
  | found hkey hlen hsql hspace hspace' hvalue hfits =>
    exact .found (quotes_simple hkey) (by rwa [List.length_map]) hsql hspace hspace'
      (quotes_simple hvalue) (by rwa [List.length_map])

/-- Where every escape is simple, the literals are those of a JSON text. -/
theorem Yields.leadsTo {body s : Bytes} (h : Yields body s)
    (hescapes : simpleEscapes .outside body = true) : LeadsTo body s := by
  induction h with
  | skip hc _ ih =>
    rw [simpleEscapes, if_neg hc] at hescapes
    exact .skip hc (ih hescapes)
  | pass htext hlen hkey _ ih =>
    obtain ⟨items, hitems, rfl, rfl⟩ := htext.simple hescapes
    rw [List.length_map] at hlen
    exact .pass hitems hlen hkey (ih (simpleEscapes_literal.mp hescapes).2)
  | @found _ _ space space' _ _ _ htext hlen hsql hspace hspace' hvalue hfits =>
    obtain ⟨items, hitems, rfl, rfl⟩ := htext.simple hescapes
    have hmem : ch '"' ∉ space ++ ch ':' :: space' := by
      rw [List.mem_append, List.mem_cons, not_or, not_or]
      exact ⟨notMem_of_space hspace, by decide, notMem_of_space hspace'⟩
    have hrest := (simpleEscapes_literal.mp hescapes).2
    rw [← List.cons_append, ← List.append_assoc, simpleEscapes_skip hmem] at hrest
    obtain ⟨value, hitems', rfl, rfl⟩ := hvalue.simple hrest
    rw [List.length_map] at hlen hfits
    exact .found hitems hlen hsql hspace hspace' hitems' hfits

theorem foundText_iff {body s : Bytes} (hescapes : simpleEscapes .outside body = true) :
    foundText body = some s ↔ LeadsTo body s :=
  ⟨fun h => (yields_of_foundText h).leadsTo hescapes, fun h => foundText_of_yields h.yields⟩

/-! ## The literals of a JSON value -/

/-- A string literal of a JSON text: a key, with its value where this is a string, or a value. -/
inductive StringLiteral
  | key (name : Bytes) (value : Option Bytes)
  | value (text : Bytes)

def StringLiteral.text : StringLiteral → Bytes
  | key name _ => name
  | value text => text

/-- The text of a string. -/
def stringText : Value → Option Bytes
  | .string s => some s
  | _ => none

mutual

/-- The literals of a value, in the order of its text. -/
def valueLiterals : Value → List StringLiteral
  | .string s => [.value s]
  | .array vs => elementLiterals vs
  | .object ms => memberLiterals ms
  | .null => []
  | .bool _ => []
  | .number _ => []

def elementLiterals : List Value → List StringLiteral
  | [] => []
  | v :: vs => valueLiterals v ++ elementLiterals vs

def memberLiterals : List (Bytes × Value) → List StringLiteral
  | [] => []
  | (k, v) :: ms => .key k (stringText v) :: (valueLiterals v ++ memberLiterals ms)

end

def partLiterals : Part → List StringLiteral
  | .value v => valueLiterals v
  | .elements vs => elementLiterals vs
  | .members ms => memberLiterals ms

/-- The value of the first key `sql`, if no literal before it is too long; without such a key,
`otherwise`. -/
def firstSql (otherwise : Option Bytes) : List StringLiteral → Option Bytes
  | [] => otherwise
  | .key name value :: literals =>
    if 64 ≤ name.length then none
    else if name = bytes "sql" then value.filter fun s => s.length < MAX_SQL_LENGTH
    else firstSql otherwise literals
  | .value text :: literals =>
    if 64 ≤ text.length then none else firstSql otherwise literals

theorem firstSql_append (otherwise : Option Bytes) (literals more : List StringLiteral) :
    firstSql otherwise (literals ++ more) = firstSql (firstSql otherwise more) literals := by
  induction literals with
  | nil => rfl
  | cons l literals ih =>
    cases l with
    | key name value => rw [List.cons_append, firstSql, firstSql, ih]
    | value text => rw [List.cons_append, firstSql, firstSql, ih]

/-- Behind literals that are short and are not a key `sql`, the key `sql` with the text. -/
def Finds (literals : List StringLiteral) (s : Bytes) : Prop :=
  ∃ before after, literals = before ++ .key (bytes "sql") (some s) :: after ∧
    s.length < MAX_SQL_LENGTH ∧
    ∀ l ∈ before, l.text.length < 64 ∧ ∀ value, l ≠ .key (bytes "sql") value

theorem firstSql_of_finds {literals : List StringLiteral} {s : Bytes} (h : Finds literals s) :
    firstSql none literals = some s := by
  obtain ⟨before, after, rfl, hfits, hbefore⟩ := h
  have hfound : firstSql none (.key (bytes "sql") (some s) :: after) = some s := by
    rw [firstSql, if_neg (by decide), if_pos rfl]
    exact Option.filter_some_pos (decide_eq_true hfits)
  rw [firstSql_append, hfound]
  induction before with
  | nil => rfl
  | cons l before ih =>
    obtain ⟨⟨hlen, hkey⟩, hrest⟩ := List.forall_mem_cons.mp hbefore
    cases l with
    | key name value =>
      have hshort : ¬ 64 ≤ name.length := Nat.not_le.mpr hlen
      have hname : name ≠ bytes "sql" := fun heq => hkey value (heq ▸ rfl)
      rw [firstSql, if_neg hshort, if_neg hname]
      exact ih hrest
    | value text =>
      have hshort : ¬ 64 ≤ text.length := Nat.not_le.mpr hlen
      rw [firstSql, if_neg hshort]
      exact ih hrest

theorem Finds.cons {l : StringLiteral} {literals : List StringLiteral} {s : Bytes}
    (hlen : l.text.length < 64) (hkey : ∀ value, l ≠ .key (bytes "sql") value)
    (h : Finds literals s) : Finds (l :: literals) s := by
  obtain ⟨before, after, rfl, hfits, hbefore⟩ := h
  exact ⟨l :: before, after, rfl, hfits, List.forall_mem_cons.mpr ⟨⟨hlen, hkey⟩, hbefore⟩⟩

theorem finds_of_firstSql {literals : List StringLiteral} {s : Bytes}
    (h : firstSql none literals = some s) : Finds literals s := by
  induction literals with
  | nil => cases h
  | cons l literals ih =>
    cases l with
    | key name value =>
      rw [firstSql] at h
      split at h
      · cases h
      rename_i hlen
      split at h
      · rename_i hname
        obtain ⟨hvalue, hfits⟩ := Option.filter_eq_some_iff.mp h
        rw [hname, hvalue]
        exact ⟨[], literals, rfl, of_decide_eq_true hfits, nofun⟩
      · rename_i hname
        refine (ih h).cons (Nat.lt_of_not_le hlen) ?_
        rintro value heq
        exact hname (StringLiteral.key.inj heq).1
    | value text =>
      rw [firstSql] at h
      split at h
      · cases h
      · rename_i hlen
        exact (ih h).cons (Nat.lt_of_not_le hlen) nofun

theorem firstSql_eq_some {literals : List StringLiteral} {s : Bytes} :
    firstSql none literals = some s ↔ Finds literals s :=
  ⟨finds_of_firstSql, firstSql_of_finds⟩

/-! ## The scanner reads the literals of a JSON text -/

theorem isspace_of_space {space : Bytes} (h : Space space) : ∀ c ∈ space, isspace c = true := by
  intro c hc
  have hspace := h c hc
  simp only [isJsonSpace, Bool.or_eq_true, beq_iff_eq] at hspace
  rcases hspace with ((rfl | rfl) | rfl) | rfl <;> decide

theorem beforeColon_space {space : Bytes} (h : Space space) (rest : Bytes) :
    BeforeColon (space ++ rest) ↔ BeforeColon rest := by
  rw [BeforeColon, serverSkipJsonSpace, List.dropWhile_append_of_pos (isspace_of_space h)]
  rfl

theorem foundText_skip {text : Bytes} (h : ch '"' ∉ text) (rest : Bytes) :
    foundText (text ++ rest) = foundText rest :=
  congrArg ServerJsonRead.text (extractLoop_skip h rest)

/-- The scanner finds the first key `sql` among the literals of the part, whatever follows. -/
def Scans (part : Part) (text : Bytes) : Prop :=
  ∀ rest, ¬ BeforeColon rest → simpleEscapes .outside (text ++ rest) = true →
    simpleEscapes .outside rest = true ∧
      foundText (text ++ rest) = firstSql (foundText rest) (partLiterals part)

/-- A text without quotation marks, of a part without literals. -/
theorem scans_plain {part : Part} {text : Bytes} (h : ch '"' ∉ text)
    (hpart : partLiterals part = []) : Scans part text := by
  intro rest _ hescapes
  rw [simpleEscapes_skip h] at hescapes
  rw [foundText_skip h, hpart]
  exact ⟨hescapes, rfl⟩

/-- Brackets around a part. -/
theorem Scans.bracket {part whole : Part} {text : Bytes} {first last : UInt8}
    (h : Scans part text) (hpart : partLiterals whole = partLiterals part)
    (hfirst : first ≠ ch '"') (hlast : last ≠ ch '"') (hcolon : last ≠ ch ':')
    (hspace : isspace last = false) : Scans whole (first :: (text ++ [last])) := by
  intro rest _ hescapes
  have hbefore : ¬ BeforeColon (last :: rest) := by
    intro hlast
    rw [BeforeColon, serverSkipJsonSpace_cons hspace] at hlast
    exact hcolon (Option.some.inj hlast)
  have hfirst' : ch '"' ∉ [first] := fun hmem => hfirst (List.mem_singleton.mp hmem).symm
  have hlast' : ch '"' ∉ [last] := fun hmem => hlast (List.mem_singleton.mp hmem).symm
  have htext : first :: (text ++ [last]) ++ rest = [first] ++ (text ++ last :: rest) := by
    rw [List.cons_append, List.append_assoc]
    rfl
  rw [htext, simpleEscapes_skip hfirst'] at hescapes
  obtain ⟨hrest, hfound⟩ := h (last :: rest) hbefore hescapes
  rw [htext, foundText_skip hfirst', hfound, hpart, ← List.singleton_append,
    foundText_skip hlast']
  rw [← List.singleton_append, simpleEscapes_skip hlast'] at hrest
  exact ⟨hrest, rfl⟩

/-- What a value starts with: no white space, and a quotation mark only where it is a string. -/
theorem derives_first {v : Value} {text : Bytes} (h : Derives (.value v) text) :
    ∃ c tail, text = c :: tail ∧ isspace c = false ∧ (stringText v = none → c ≠ ch '"') := by
  cases h with
  | nullLiteral => exact ⟨_, _, rfl, by decide, fun _ => by decide⟩
  | trueLiteral => exact ⟨_, _, rfl, by decide, fun _ => by decide⟩
  | falseLiteral => exact ⟨_, _, rfl, by decide, fun _ => by decide⟩
  | number hnumber =>
    obtain ⟨c, tail, rfl, hc⟩ := isNumber_cons hnumber
    refine ⟨c, tail, rfl, ?_, fun _ heq => ?_⟩
    · rw [isNumberByte, Bool.or_eq_true] at hc
      rcases hc with hdigit | hsign
      · exact isspace_eq_false_of_isdigit hdigit
      · have hmem : c ∈ [ch '+', ch '-', ch '.', ch 'e', ch 'E'] := List.contains_iff_mem.mp hsign
        simp only [List.mem_cons, List.not_mem_nil, or_false] at hmem
        rcases hmem with rfl | rfl | rfl | rfl | rfl <;> decide
    · rw [heq] at hc
      exact absurd hc (by decide)
  | string _ => exact ⟨_, _, rfl, by decide, nofun⟩
  | emptyArray _ => exact ⟨_, _, rfl, by decide, fun _ => by decide⟩
  | array _ => exact ⟨_, _, rfl, by decide, fun _ => by decide⟩
  | emptyObject _ => exact ⟨_, _, rfl, by decide, fun _ => by decide⟩
  | object _ => exact ⟨_, _, rfl, by decide, fun _ => by decide⟩

theorem stands_simple {items : List Item} {s : Bytes} (h : Stands items s)
    (hitems : ∀ item ∈ items, Simple item) : s = items.map plainByte :=
  Option.some.inj (h.2.symm.trans (decode_simple hitems))

/-- No character of a literal stands for a NUL. -/
theorem plainByte_ne_zero {item : Item} (hvalid : item.Valid) (h : Simple item) :
    plainByte item ≠ 0 := by
  cases item with
  | plain c hc =>
    rintro rfl
    exact absurd (show (0x20 : UInt8) ≤ 0 from hvalid) (by decide)
  | escape e => cases e <;> decide
  | unicode u => exact h.elim

theorem isSqlKey_iff {items : List Item} {key : Bytes} (h : Stands items key)
    (hitems : ∀ item ∈ items, Simple item) : isSqlKey key = true ↔ key = bytes "sql" := by
  have hnul : key.takeWhile (· ≠ 0) = key := by
    rw [stands_simple h hitems, List.takeWhile_eq_self_iff]
    intro c hc
    obtain ⟨item, hitem, rfl⟩ := List.mem_map.mp hc
    exact decide_eq_true (plainByte_ne_zero (h.1 item hitem) (hitems item hitem))
  rw [isSqlKey, hnul, decide_eq_true_eq]

/-- A value is read where it is a string that fits. -/
theorem text_value {v : Value} {text : Bytes} (h : Derives (.value v) text) {tail : Bytes}
    (hescapes : simpleEscapes .outside (text ++ tail) = true) :
    (serverReadJsonString (text ++ tail) MAX_SQL_LENGTH).text =
      (stringText v).filter fun s => s.length < MAX_SQL_LENGTH := by
  cases hstring : stringText v with
  | none =>
    obtain ⟨c, rest, rfl, -, hc⟩ := derives_first h
    rw [List.cons_append, serverReadJsonString, dif_neg (by decide)]
    simp only [if_neg (hc hstring)]
    rfl
  | some s =>
    cases h with
    | string hstands =>
      obtain rfl := Option.some.inj hstring
      obtain ⟨hitems, -⟩ := simpleEscapes_literal.mp hescapes
      rw [text_literal hitems, stands_simple hstands hitems, Option.filter_some, List.length_map]
      simp only [decide_eq_true_eq]
    | nullLiteral => cases hstring
    | trueLiteral => cases hstring
    | falseLiteral => cases hstring
    | number _ => cases hstring
    | emptyArray _ => cases hstring
    | array _ => cases hstring
    | emptyObject _ => cases hstring
    | object _ => cases hstring

/-- A key with its colon. -/
theorem foundText_key {items : List Item} {key : Bytes} {v : Value}
    {colon before text tail : Bytes} (hkey : Stands items key) (hcolon : Space colon)
    (hbefore : Space before) (hv : Derives (.value v) text)
    (hescapes : simpleEscapes .outside
      (literal items ++ (colon ++ ch ':' :: (before ++ (text ++ tail)))) = true) :
    simpleEscapes .outside (text ++ tail) = true ∧
      foundText (literal items ++ (colon ++ ch ':' :: (before ++ (text ++ tail)))) =
        firstSql (foundText (text ++ tail)) [.key key (stringText v)] := by
  obtain ⟨c, rest, htext, hc, -⟩ := derives_first hv
  obtain ⟨hbeforeColon, hafter⟩ := beforeColon_append (isspace_of_space hcolon)
    (isspace_of_space hbefore) hc (rest ++ tail)
  have hcons : c :: (rest ++ tail) = text ++ tail := by rw [htext, List.cons_append]
  rw [hcons] at hbeforeColon hafter
  obtain ⟨hitems, hrest⟩ := simpleEscapes_literal.mp hescapes
  have hmem : ch '"' ∉ colon ++ ch ':' :: before := by
    rw [List.mem_append, List.mem_cons, not_or, not_or]
    exact ⟨notMem_of_space (isspace_of_space hcolon), by decide,
      notMem_of_space (isspace_of_space hbefore)⟩
  have hvalue : simpleEscapes .outside (text ++ tail) = true := by
    rw [← List.cons_append, ← List.append_assoc, simpleEscapes_skip hmem] at hrest
    exact hrest
  refine ⟨hvalue, ?_⟩
  have hlen : key.length = items.length := by
    rw [stands_simple hkey hitems, List.length_map]
  have hsql : isSqlKey (items.map plainByte) = true ↔ key = bytes "sql" := by
    rw [← stands_simple hkey hitems]
    exact isSqlKey_iff hkey hitems
  rw [foundText, extractLoop_literal hitems, firstSql, hlen]
  by_cases hlong : 64 ≤ items.length
  · rw [if_pos hlong, if_pos hlong]
    rfl
  rw [if_neg hlong, if_neg hlong]
  by_cases hname : key = bytes "sql"
  · rw [if_pos ⟨hbeforeColon, hsql.mpr hname⟩, if_pos hname, hafter]
    exact text_value hv hvalue
  · rw [if_neg (fun h => hname (hsql.mp h.2)), if_neg hname]
    exact congrArg ServerJsonRead.text
      ((extractLoop_afterColon hbeforeColon).symm.trans (by rw [hafter]))

theorem notMem_of_jsonSpace {space : Bytes} (h : Space space) : ch '"' ∉ space :=
  notMem_of_space (isspace_of_space h)

theorem scans_string {items : List Item} {s : Bytes} (h : Stands items s) :
    Scans (.value (.string s)) (literal items) := by
  intro rest hcolon hescapes
  obtain ⟨hitems, hrest⟩ := simpleEscapes_literal.mp hescapes
  refine ⟨hrest, ?_⟩
  have hlen : s.length = items.length := by rw [stands_simple h hitems, List.length_map]
  have hkey : ¬ (BeforeColon rest ∧ isSqlKey (items.map plainByte) = true) := fun h => hcolon h.1
  rw [foundText, extractLoop_literal hitems, if_neg hkey]
  show _ = if 64 ≤ s.length then none else foundText rest
  rw [hlen]
  split <;> rfl

/-- A value with space around it, and what follows. -/
theorem Scans.spaced {v : Value} {before text after : Bytes} (h : Scans (.value v) text)
    (hbefore : Space before) (hafter : Space after) {rest : Bytes} (hcolon : ¬ BeforeColon rest)
    (hescapes : simpleEscapes .outside (before ++ (text ++ (after ++ rest))) = true) :
    simpleEscapes .outside rest = true ∧
      foundText (before ++ (text ++ (after ++ rest))) =
        firstSql (foundText rest) (valueLiterals v) := by
  rw [simpleEscapes_skip (notMem_of_jsonSpace hbefore)] at hescapes
  obtain ⟨hrest, hfound⟩ := h (after ++ rest) (fun h => hcolon ((beforeColon_space hafter rest).mp h))
    hescapes
  rw [simpleEscapes_skip (notMem_of_jsonSpace hafter)] at hrest
  rw [foundText_skip (notMem_of_jsonSpace hbefore), hfound,
    foundText_skip (notMem_of_jsonSpace hafter)]
  exact ⟨hrest, rfl⟩

/-- A member with space around it, and what follows. -/
theorem scans_member {items : List Item} {key : Bytes} {v : Value}
    {before colon before' text after rest : Bytes} (h : Scans (.value v) text)
    (hbefore : Space before) (hkey : Stands items key) (hcolon : Space colon)
    (hbefore' : Space before') (hv : Derives (.value v) text) (hafter : Space after)
    (hrest : ¬ BeforeColon rest)
    (hescapes : simpleEscapes .outside (before ++ (literal items ++
      (colon ++ ch ':' :: (before' ++ (text ++ (after ++ rest)))))) = true) :
    simpleEscapes .outside rest = true ∧
      foundText (before ++ (literal items ++
        (colon ++ ch ':' :: (before' ++ (text ++ (after ++ rest)))))) =
        firstSql (foundText rest) (.key key (stringText v) :: valueLiterals v) := by
  rw [simpleEscapes_skip (notMem_of_jsonSpace hbefore)] at hescapes
  obtain ⟨hvalue, hfound⟩ := foundText_key hkey hcolon hbefore' hv hescapes
  obtain ⟨hend, hall⟩ := h.spaced space_nil hafter hrest hvalue
  refine ⟨hend, ?_⟩
  rw [foundText_skip (notMem_of_jsonSpace hbefore), hfound]
  exact congrArg (firstSql · [.key key (stringText v)]) hall

theorem not_beforeColon_comma (rest : Bytes) : ¬ BeforeColon (ch ',' :: rest) := by
  intro h
  rw [BeforeColon, serverSkipJsonSpace_cons (by decide)] at h
  exact absurd (Option.some.inj h) (by decide)

theorem foundText_comma {rest : Bytes} (h : simpleEscapes .outside (ch ',' :: rest) = true) :
    simpleEscapes .outside rest = true ∧ foundText (ch ',' :: rest) = foundText rest := by
  have hcomma : ch '"' ∉ [ch ','] := by decide
  rw [← List.singleton_append, simpleEscapes_skip hcomma] at h
  rw [← List.singleton_append, foundText_skip hcomma]
  exact ⟨h, rfl⟩

/-- The scanner reads the literals of a part one after the other. -/
theorem derives_scans {part : Part} {text : Bytes} (h : Derives part text) : Scans part text := by
  induction h with
  | nullLiteral => exact scans_plain (by decide) rfl
  | trueLiteral => exact scans_plain (by decide) rfl
  | falseLiteral => exact scans_plain (by decide) rfl
  | number hnumber =>
    refine scans_plain (fun hmem => ?_) rfl
    rw [isNumber, Bool.and_eq_true, Bool.and_eq_true] at hnumber
    exact absurd (List.all_eq_true.mp hnumber.1.1 _ hmem) (by decide)
  | string hstands => exact scans_string hstands
  | emptyArray hspace =>
    have hplain := @scans_plain (.elements []) _ (notMem_of_jsonSpace hspace) rfl
    exact hplain.bracket rfl (by decide) (by decide) (by decide) (by decide)
  | array _ ih => exact ih.bracket rfl (by decide) (by decide) (by decide) (by decide)
  | emptyObject hspace =>
    have hplain := @scans_plain (.members []) _ (notMem_of_jsonSpace hspace) rfl
    exact hplain.bracket rfl (by decide) (by decide) (by decide) (by decide)
  | object _ ih => exact ih.bracket rfl (by decide) (by decide) (by decide) (by decide)
  | @lastElement v _ _ _ hbefore _ hafter ih =>
    intro rest hcolon hescapes
    rw [List.append_assoc, List.append_assoc] at hescapes ⊢
    have hall := ih.spaced hbefore hafter hcolon hescapes
    show _ ∧ _ = firstSql _ (valueLiterals v ++ [])
    rw [List.append_nil]
    exact hall
  | @element v vs _ _ _ following hbefore _ hafter _ ihv ihvs =>
    intro rest hcolon hescapes
    simp only [List.append_assoc, List.cons_append] at hescapes ⊢
    obtain ⟨hcomma, hfirst⟩ := ihv.spaced hbefore hafter (not_beforeColon_comma _) hescapes
    obtain ⟨hnext, hskip⟩ := foundText_comma hcomma
    obtain ⟨hend, hothers⟩ := ihvs rest hcolon hnext
    refine ⟨hend, ?_⟩
    show _ = firstSql _ (valueLiterals v ++ elementLiterals vs)
    rw [hfirst, hskip, hothers, firstSql_append]
    rfl
  | @lastMember _ key v _ _ _ _ _ hbefore hkey hcolon hbefore' hv hafter ih =>
    intro rest hrest hescapes
    simp only [List.append_assoc, List.cons_append] at hescapes ⊢
    have hall := scans_member ih hbefore hkey hcolon hbefore' hv hafter hrest hescapes
    show _ ∧ _ = firstSql _ (.key key (stringText v) :: (valueLiterals v ++ []))
    rw [List.append_nil]
    exact hall
  | @member _ key v ms _ _ _ _ _ following hbefore hkey hcolon hbefore' hv hafter _ ihv ihms =>
    intro rest hrest hescapes
    simp only [List.append_assoc, List.cons_append] at hescapes ⊢
    obtain ⟨hcomma, hfirst⟩ := scans_member ihv hbefore hkey hcolon hbefore' hv hafter
      (not_beforeColon_comma _) hescapes
    obtain ⟨hnext, hskip⟩ := foundText_comma hcomma
    obtain ⟨hend, hothers⟩ := ihms rest hrest hnext
    refine ⟨hend, ?_⟩
    show _ = firstSql _ ((.key key (stringText v) :: valueLiterals v) ++ memberLiterals ms)
    rw [hfirst, hskip, hothers, firstSql_append]
    rfl

/-- The scanner finds the first key `sql` of a JSON text, at any depth. -/
theorem foundText_isText {v : Value} {body : Bytes} (h : IsText v body)
    (hescapes : simpleEscapes .outside body = true) :
    foundText body = firstSql none (valueLiterals v) := by
  obtain ⟨before, text, after, hbefore, hv, hafter, rfl⟩ := h
  have hend : ¬ BeforeColon ([] : Bytes) := nofun
  have hnil : after ++ [] = after := List.append_nil after
  have hall := (derives_scans hv).spaced hbefore hafter hend (by rw [hnil]; exact hescapes)
  rw [hnil, foundText_nil] at hall
  exact hall.2

/-! ## When this is the member `sql` -/

/-- The body is a JSON object, and the value of its member `sql` (the first of this name) is a
string that fits. -/
def NamesSql (body s : Bytes) : Prop :=
  ∃ ms, IsText (.object ms) body ∧ ms.lookup (bytes "sql") = some (.string s) ∧
    s.length < MAX_SQL_LENGTH

/-- In a JSON object the first key `sql` at any depth, behind literals that are short, has the text
that the member `sql` has; a body that is no JSON object leads to no text. -/
def Unambiguous (body : Bytes) : Prop :=
  (∀ ms, IsText (.object ms) body → ∀ s, Finds (memberLiterals ms) s ↔
    ms.lookup (bytes "sql") = some (.string s) ∧ s.length < MAX_SQL_LENGTH) ∧
  ((∀ ms, ¬ IsText (.object ms) body) → ∀ s, ¬ LeadsTo body s)

/-- Of a body whose literals use the simple escapes only: the text that is read is that of the
member `sql` of a JSON object, and nothing is read from other bodies, exactly when the body is
unambiguous. -/
theorem serverExtractSqlFromJson_namesSql {body : Bytes}
    (hescapes : simpleEscapes .outside body = true) :
    (∀ s, (serverExtractSqlFromJson body MAX_SQL_LENGTH).text = some s ↔ NamesSql body s) ↔
      Unambiguous body := by
  show (∀ s, foundText body = some s ↔ NamesSql body s) ↔ Unambiguous body
  by_cases hobject : ∃ ms, IsText (.object ms) body
  · obtain ⟨ms, htext⟩ := hobject
    have hunique : ∀ ms', IsText (.object ms') body → ms' = ms := fun ms' htext' =>
      Value.object.inj (htext'.unique htext)
    have hnames : ∀ s, NamesSql body s ↔
        ms.lookup (bytes "sql") = some (.string s) ∧ s.length < MAX_SQL_LENGTH := by
      intro s
      constructor
      · rintro ⟨ms', htext', hlookup⟩
        obtain rfl := hunique ms' htext'
        exact hlookup
      · exact fun hlookup => ⟨ms, htext, hlookup⟩
    have hfound : ∀ s, foundText body = some s ↔ Finds (memberLiterals ms) s := by
      intro s
      rw [foundText_isText htext hescapes]
      exact firstSql_eq_some
    simp only [hfound, hnames]
    constructor
    · intro h
      refine ⟨fun ms' htext' => ?_, fun hnone => absurd htext (hnone ms)⟩
      obtain rfl := hunique ms' htext'
      exact h
    · exact fun h => h.1 ms htext
  · have hnone : ∀ ms, ¬ IsText (.object ms) body := not_exists.mp hobject
    have hnames : ∀ s, ¬ NamesSql body s := fun s ⟨ms, htext, _⟩ => hnone ms htext
    simp only [foundText_iff hescapes, hnames, iff_false]
    constructor
    · exact fun h => ⟨fun ms htext => absurd htext (hnone ms), fun _ => h⟩
    · exact fun h => h.2 hnone

/-- Other members before and after it. -/
def plainBody : Bytes := bytes "\x7b\"id\":[1,\"a\"],\"sql\":\"SELECT \\\"a\\\"\", \"n\":\x7b\x7d\x7d"

theorem serverExtractSqlFromJson_namesSql_plain :
    (∀ s, (serverExtractSqlFromJson plainBody MAX_SQL_LENGTH).text = some s ↔
      NamesSql plainBody s) ↔ Unambiguous plainBody :=
  serverExtractSqlFromJson_namesSql (by decide +kernel)

/-- A key `sql` that is not at the top. -/
def nestedBody : Bytes := bytes "\x7b\"a\":\x7b\"sql\":\"x\"\x7d\x7d"

/-- A member whose value is longer than a key. -/
def longBody : Bytes :=
  ch '\x7b' :: (member "note" (jsonLiteral (List.replicate 64 (ch 'a'))) ++
    ch ',' :: member "sql" (jsonLiteral (bytes "x")) ++ [ch '\x7d'])

/-- The text of the nested key is read, and the long value hides the member `sql`. -/
theorem serverExtractSqlFromJson_nested_long :
    simpleEscapes .outside nestedBody = true ∧ simpleEscapes .outside longBody = true ∧
    (serverExtractSqlFromJson nestedBody MAX_SQL_LENGTH).text = some (bytes "x") ∧
    ¬ NamesSql nestedBody (bytes "x") ∧
    serverExtractSqlFromJson longBody MAX_SQL_LENGTH = .tooLong ∧ NamesSql longBody (bytes "x") := by
  refine ⟨by decide +kernel, by decide +kernel, ?_, ?_, ?_, ?_⟩
  · decide +kernel
  · rintro ⟨ms, htext, hlookup, -⟩
    have hparse : (parse nestedBody).map (fun v => match v with
        | .object ms => (ms.lookup (bytes "sql")).isSome
        | _ => false) = some false := by
      decide +kernel
    rw [parse_of_isText htext, Option.map_some, Option.some.injEq] at hparse
    simp only [hlookup, Option.isSome_some] at hparse
    cases hparse
  · decide +kernel
  · have hms := derives_member (bytes_key "note")
      (derives_jsonLiteral (List.replicate 64 (ch 'a'))) (derives_keyed "sql" (bytes "x"))
    exact ⟨_, ⟨[], _, [], space_nil, .object hms, space_nil, (List.append_nil _).symm⟩, by rfl,
      by decide⟩

end JungleDb
