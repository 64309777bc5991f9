import JungleDb.Server.Request

/-!
# The content length of a header

What `server_parse_content_length` makes of a header line by line: it takes the first line named
Content-Length and hands everything from its value on to `strtol`, which skips white space across
line ends, reads a sign, and leaves what follows the digits alone.
-/

namespace JungleDb

open CString

/-- The end of a header line. -/
def lineEnd : Bytes := bytes "\r\n"

/-- The lines of a header, each of them ended by CR LF. -/
def headerLines : Bytes → List Bytes
  | c :: d :: rest =>
    if c = ch '\r' ∧ d = ch '\n' then [] :: headerLines rest
    else match headerLines (d :: rest) with
      | [] => []
      | line :: lines => (c :: line) :: lines
  | _ => []

/-- The bytes of header lines. -/
def joinLines (lines : List Bytes) : Bytes := (lines.map (· ++ lineEnd)).flatten

/-- The value of a header line whose name is Content-Length, ignoring case. -/
def contentLengthOf (line : Bytes) : Option Bytes :=
  let name := bytes "content-length"
  if (line.take name.length).map tolower = name ∧
    (line.drop name.length).head? = some (ch ':') then some (line.drop (name.length + 1)) else none

/-- The value of the first line named Content-Length, and the lines behind it. -/
def firstLength : List Bytes → Option (Bytes × List Bytes)
  | [] => none
  | line :: lines =>
    match contentLengthOf line with
    | some value => some (value, lines)
    | none => firstLength lines

/-- A value without the spaces and tabs around it. -/
def trimBlanks (value : Bytes) : Bytes :=
  let blank := fun c => c == ch ' ' || c == ch '\t'
  ((value.reverse.dropWhile blank).reverse).dropWhile blank

/-- The value is digits, and spaces and tabs around them. -/
def IsDigits (value : Bytes) : Prop :=
  trimBlanks value ≠ [] ∧ ∀ c ∈ trimBlanks value, isdigit c = true

/-- The content length that a header declares: none is 0, and a value has to be digits that denote a
number in the range of a `long`. -/
def Declares (header : Bytes) (n : Nat) : Prop :=
  match firstLength (headerLines header) with
  | none => n = 0
  | some (value, _) =>
    IsDigits value ∧ digitsValue (trimBlanks value) = n ∧ (n : Int) ≤ LLONG_MAX

/-- An optional sign. -/
def IsSign (sign : Bytes) : Prop := sign = [] ∨ sign = [ch '+'] ∨ sign = [ch '-']

/-- The text begins with a number that is not negative and in the range of a `long`: white space, an
optional sign and digits. -/
def ReadsNumber (text : Bytes) : Prop :=
  ∃ space sign digits rest, text = space ++ (sign ++ (digits ++ rest)) ∧
    (∀ c ∈ space, isspace c = true) ∧ IsSign sign ∧
    digits ≠ [] ∧ (∀ c ∈ digits, isdigit c = true) ∧ (∀ c ∈ rest.head?, isdigit c = false) ∧
    if sign = [ch '-'] then digitsValue digits = 0 else (digitsValue digits : Int) ≤ LLONG_MAX

/-! ## Numbers -/

/-- What comes of a text that is a sign and digits throughout. -/
theorem parsedLength_eq {text : Bytes} (hne : text.drop (signLength text) ≠ [])
    (hdigits : ∀ c ∈ text.drop (signLength text), isdigit c = true) :
    parsedLength text =
      if 0 ≤ intValue text ∧ intValue text ≤ LLONG_MAX then some (intValue text).toNat
      else none := by
  have hmin : LLONG_MIN ≤ 0 := by decide
  have hstop : (text.length == 0) = false := by
    rw [beq_eq_false_iff_ne]
    intro hlen
    rw [List.length_eq_zero_iff.mp hlen] at hne
    exact hne rfl
  unfold parsedLength
  simp only [strtoll_eq hne hdigits, hstop, Bool.or_false]
  by_cases hrange : InLongLong (intValue text)
  · have hclamp : (if intValue text < LLONG_MIN then LLONG_MIN
        else if LLONG_MAX < intValue text then LLONG_MAX else intValue text) = intValue text := by
      rw [if_neg (not_lt.mpr hrange.1), if_neg (not_lt.mpr hrange.2)]
    simp only [hclamp, hrange, decide_true, Bool.not_true, Bool.false_or, decide_eq_true_eq]
    by_cases hneg : intValue text < 0
    · rw [if_pos hneg, if_neg fun h => not_lt.mpr h.1 hneg]
    · rw [if_neg hneg, if_pos ⟨not_lt.mp hneg, hrange.2⟩]
  · have hnot : ¬ (0 ≤ intValue text ∧ intValue text ≤ LLONG_MAX) := by
      rintro ⟨hzero, hmax⟩
      exact hrange ⟨hmin.trans hzero, hmax⟩
    simp only [hrange, decide_false, Bool.not_false, Bool.true_or, if_true, if_neg hnot]

section

variable {sign digits rest : Bytes} (hsign : IsSign sign) (hne : digits ≠ [])
  (hdigits : ∀ c ∈ digits, isdigit c = true)

include hsign hne hdigits

theorem signLength_number : signLength (sign ++ digits) = sign.length := by
  obtain ⟨d, digits, rfl⟩ := List.exists_cons_of_ne_nil hne
  have hd : isdigit d = true := hdigits d List.mem_cons_self
  rcases hsign with rfl | rfl | rfl
  · rw [List.nil_append, signLength, if_neg]
    · rfl
    · rw [List.head?_cons, Option.some.injEq, Option.some.injEq]
      rintro (rfl | rfl) <;> exact absurd hd (by decide)
  · rfl
  · rfl

theorem drop_signLength_number :
    (sign ++ digits).drop (signLength (sign ++ digits)) = digits := by
  rw [signLength_number hsign hne hdigits, List.drop_left]

theorem intValue_number : intValue (sign ++ digits) =
    if sign = [ch '-'] then -(digitsValue digits : Int) else digitsValue digits := by
  rw [intValue, drop_signLength_number hsign hne hdigits]
  obtain ⟨d, digits, rfl⟩ := List.exists_cons_of_ne_nil hne
  have hd : isdigit d = true := hdigits d List.mem_cons_self
  rcases hsign with rfl | rfl | rfl
  · rw [List.nil_append, if_neg, if_neg]
    · exact List.cons_ne_nil _ _ ∘ Eq.symm
    · rw [List.head?_cons, Option.some.injEq]
      rintro rfl
      exact absurd hd (by decide)
  · rfl
  · rfl

/-- What comes of a sign and digits, whatever is behind them. -/
theorem parsedLength_number (hrest : ∀ c ∈ rest.head?, isdigit c = false) :
    parsedLength (sign ++ (digits ++ rest)) =
      if sign = [ch '-'] then if digitsValue digits = 0 then some 0 else none
      else if (digitsValue digits : Int) ≤ LLONG_MAX then some (digitsValue digits) else none := by
  -- `strtol` stops at the end of the digits
  have hstop : strtoll (sign ++ (digits ++ rest)) = strtoll (sign ++ digits) := by
    rw [← List.append_assoc]
    cases rest with
    | nil => rw [List.append_nil]
    | cons c rest =>
      obtain ⟨d, hd⟩ := List.exists_mem_of_ne_nil digits hne
      exact strtoll_append
        ⟨d, List.mem_append_right sign hd, isspace_eq_false_of_isdigit (hdigits d hd)⟩
        (hrest c rfl) rest
  have hparsed : parsedLength (sign ++ (digits ++ rest)) = parsedLength (sign ++ digits) := by
    unfold parsedLength
    rw [hstop]
  have hdrop := drop_signLength_number hsign hne hdigits
  rw [hparsed, parsedLength_eq (hdrop.symm ▸ hne) (hdrop.symm ▸ hdigits),
    intValue_number hsign hne hdigits]
  by_cases hminus : sign = [ch '-']
  · simp only [if_pos hminus]
    by_cases hzero : digitsValue digits = 0
    · rw [if_pos hzero, hzero]
      rfl
    · rw [if_neg hzero, if_neg]
      omega
  · simp only [if_neg hminus]
    by_cases hlarge : (digitsValue digits : Int) ≤ LLONG_MAX
    · rw [if_pos hlarge, if_pos ⟨Int.natCast_nonneg _, hlarge⟩, Int.toNat_natCast]
    · rw [if_neg hlarge, if_neg fun h => hlarge h.2]

theorem parsedLength_number_isSome (hrest : ∀ c ∈ rest.head?, isdigit c = false) :
    (parsedLength (sign ++ (digits ++ rest))).isSome ↔
      if sign = [ch '-'] then digitsValue digits = 0 else (digitsValue digits : Int) ≤ LLONG_MAX := by
  rw [parsedLength_number hsign hne hdigits hrest]
  by_cases hminus : sign = [ch '-']
  · rw [if_pos hminus, if_pos hminus, Option.isSome_ite]
  · rw [if_neg hminus, if_neg hminus, Option.isSome_ite]

end

/-- `server_parse_content_length` takes a value just when it begins with a number. -/
theorem parsedLength_isSome {text : Bytes} : (parsedLength text).isSome ↔ ReadsNumber text := by
  constructor
  · intro h
    let body := text.dropWhile isspace
    let digits := (body.drop (signLength body)).takeWhile isdigit
    let rest := (body.drop (signLength body)).dropWhile isdigit
    have htext : text = text.takeWhile isspace ++ (body.take (signLength body) ++ (digits ++ rest)) := by
      rw [List.takeWhile_append_dropWhile, List.take_append_drop, List.takeWhile_append_dropWhile]
    have hspace : ∀ c ∈ text.takeWhile isspace, isspace c = true := fun c => List.mem_takeWhile_imp
    have hsign : IsSign (body.take (signLength body)) := by
      unfold signLength
      split
      · rename_i hhead
        cases hbody : body with
        | nil => exact .inl rfl
        | cons c body' =>
          rw [hbody, List.head?_cons, Option.some.injEq, Option.some.injEq] at hhead
          rcases hhead with rfl | rfl
          · exact .inr (.inr rfl)
          · exact .inr (.inl rfl)
      · exact .inl rfl
    have hne : digits ≠ [] := by
      intro hnil
      have hstrtoll : strtoll text = ⟨0, 0, false⟩ := if_pos hnil
      unfold parsedLength at h
      rw [hstrtoll] at h
      cases h
    have hdigits : ∀ c ∈ digits, isdigit c = true := fun c => List.mem_takeWhile_imp
    have hrest : ∀ c ∈ rest.head?, isdigit c = false := by
      intro c hc
      have hhead := List.head?_dropWhile_not isdigit (body.drop (signLength body))
      rw [Option.mem_def.mp hc] at hhead
      exact hhead
    rw [htext, parsedLength_space hspace, parsedLength_number_isSome hsign hne hdigits hrest] at h
    exact ⟨_, _, digits, rest, htext, hspace, hsign, hne, hdigits, hrest, h⟩
  · rintro ⟨space, sign, digits, rest, rfl, hspace, hsign, hne, hdigits, hrest, hvalue⟩
    rw [parsedLength_space hspace, parsedLength_number_isSome hsign hne hdigits hrest]
    exact hvalue

/-! ## Lines -/

/-- The text is lines that are ended. -/
def Ended (text : Bytes) : Prop := text = [] ∨ ∃ front, text = front ++ lineEnd

theorem ended_blankLine (head : Bytes) : Ended (head ++ blankLine) := by
  refine .inr ⟨head ++ lineEnd, ?_⟩
  rw [List.append_assoc]
  rfl

/-- The first line of a header, and the lines behind it. -/
theorem headerLine_split (front : Bytes) :
    ∃ rest, front ++ lineEnd = headerLine (front ++ lineEnd) ++ (lineEnd ++ rest) ∧
      headerLines (front ++ lineEnd) = headerLine (front ++ lineEnd) :: headerLines rest ∧
      Ended rest := by
  induction front with
  | nil => exact ⟨[], rfl, rfl, .inl rfl⟩
  | cons c front ih =>
    obtain ⟨d, text, htext⟩ : ∃ d text, front ++ lineEnd = d :: text := by
      cases front with
      | nil => exact ⟨_, _, rfl⟩
      | cons d front => exact ⟨d, _, rfl⟩
    rw [List.cons_append, htext, headerLine, headerLines]
    rw [htext] at ih
    by_cases hend : c = ch '\r' ∧ d = ch '\n'
    · refine ⟨text, ?_, ?_, ?_⟩
      · rw [if_pos hend, hend.1, hend.2]
        rfl
      · rw [if_pos hend, if_pos hend]
      · cases front with
        | nil =>
          -- the line end is not a line feed
          cases htext
          exact absurd hend.2 (by decide)
        | cons e front =>
          cases htext
          exact .inr ⟨front, rfl⟩
    · obtain ⟨rest, hsplit, hlines, hrest⟩ := ih
      refine ⟨rest, ?_, ?_, hrest⟩
      · rw [if_neg hend, List.cons_append, ← hsplit]
      · rw [if_neg hend, if_neg hend, hlines]

theorem joinLines_cons (line : Bytes) (lines : List Bytes) :
    joinLines (line :: lines) = line ++ (lineEnd ++ joinLines lines) := by
  rw [joinLines, List.map_cons, List.flatten_cons, List.append_assoc]
  rfl

theorem joinLines_headerLines {text : Bytes} (h : Ended text) :
    joinLines (headerLines text) = text := by
  induction hlen : text.length using Nat.strong_induction_on generalizing text with
  | _ length ih =>
    rcases h with rfl | ⟨front, rfl⟩
    · rfl
    · obtain ⟨rest, hsplit, hlines, hrest⟩ := headerLine_split front
      have hshorter : rest.length < length := by
        rw [← hlen, hsplit, List.length_append, List.length_append]
        have : lineEnd.length = 2 := rfl
        omega
      rw [hlines, joinLines_cons, ih rest.length hshorter hrest rfl, ← hsplit]

/-- A line is named Content-Length just when the C code finds it so. -/
theorem contentLengthOf_eq (line : Bytes) :
    contentLengthOf line =
      if serverHeaderNameMatches line (bytes "content-length") then
        some (line.drop ((bytes "content-length").length + 1)) else none := by
  have hlower : (bytes "content-length").map tolower = bytes "content-length" := rfl
  unfold contentLengthOf serverHeaderNameMatches
  simp only [hlower, Bool.and_eq_true, decide_eq_true_eq, beq_iff_eq]
  refine ite_congr (propext ⟨?_, ?_⟩) (fun _ => rfl) (fun _ => rfl)
  · rintro ⟨hname, hcolon⟩
    refine ⟨⟨?_, hcolon⟩, hname⟩
    by_contra hshort
    rw [List.drop_of_length_le (not_lt.mp hshort)] at hcolon
    cases hcolon
  · rintro ⟨⟨_, hcolon⟩, hname⟩
    exact ⟨hname, hcolon⟩

/-- The loop over the lines finds the first one named Content-Length; it stops behind the white space
that leads its value. -/
theorem contentLengthValue_lines {header : Bytes} {lineStart : Nat}
    (h : Ended (header.drop lineStart)) :
    match firstLength (headerLines (header.drop lineStart)) with
    | none => contentLengthValue header lineStart = none
    | some (value, after) => ∃ position space, contentLengthValue header lineStart = some position ∧
        value ++ (lineEnd ++ joinLines after) = space ++ header.drop position ∧
        ∀ c ∈ space, isspace c = true := by
  rcases h with hnil | ⟨front, hfront⟩
  · have hlength := congrArg List.length hnil
    rw [List.length_drop, List.length_nil] at hlength
    rw [hnil, contentLengthValue, if_neg (by omega)]
    rfl
  · obtain ⟨rest, hsplit, hlines, hrest⟩ := headerLine_split front
    rw [← hfront] at hsplit hlines
    have hlength := congrArg List.length hsplit
    have htwo : lineEnd.length = 2 := rfl
    rw [List.length_drop, List.length_append, List.length_append, htwo] at hlength
    have hlt : lineStart + 1 < header.length := by omega
    rw [hlines, firstLength, contentLengthOf_eq, contentLengthValue, if_pos hlt]
    generalize hline : headerLine (header.drop lineStart) = line at hsplit hlength
    have hdrop : header.drop (lineStart + line.length + 2) = rest := by
      rw [Nat.add_assoc, ← List.drop_drop, hsplit, ← htwo, ← List.length_append,
        ← List.append_assoc, List.drop_left]
    simp only
    generalize hsize : (bytes "content-length").length + 1 = size
    by_cases hname : serverHeaderNameMatches line (bytes "content-length") = true
    · rw [if_pos hname, if_pos hname]
      simp only
      have hlong : size ≤ line.length := by
        unfold serverHeaderNameMatches at hname
        rw [Bool.and_eq_true, Bool.and_eq_true, decide_eq_true_eq] at hname
        omega
      generalize hspace : (line.drop size).takeWhile isspace = space
      have hvalue : line.drop size = space ++ (line.drop size).dropWhile isspace := by
        rw [← hspace, List.takeWhile_append_dropWhile]
      refine ⟨_, space, rfl, ?_, ?_⟩
      · rw [joinLines_headerLines hrest, Nat.add_assoc, ← List.drop_drop, hsplit, ← List.drop_drop,
          List.drop_append_of_le_length hlong, hvalue, List.append_assoc, List.drop_left]
      · rw [← hspace]
        exact fun c => List.mem_takeWhile_imp
    · rw [if_neg hname, if_neg hname]
      have hended : Ended (header.drop (lineStart + line.length + 2)) := hdrop.symm ▸ hrest
      have hmore := contentLengthValue_lines hended
      rw [hdrop] at hmore
      exact hmore
termination_by header.length - lineStart

/-- What `server_parse_content_length` makes of a header: `strtol` gets all bytes from the value on. -/
theorem serverParseContentLength_lines {header : Bytes} (h : Ended header) (more : Bytes) :
    serverParseContentLength (header ++ more) header.length =
      match firstLength (headerLines header) with
      | none => some 0
      | some (value, after) => parsedLength (value ++ (lineEnd ++ (joinLines after ++ more))) := by
  have hstart : Ended (header.drop 0) := h
  have hlines := contentLengthValue_lines hstart
  rw [List.drop_zero] at hlines
  unfold serverParseContentLength
  rw [List.take_left]
  cases hfirst : firstLength (headerLines header) with
  | none =>
    rw [hfirst] at hlines
    rw [hlines]
  | some found =>
    obtain ⟨value, after⟩ := found
    rw [hfirst] at hlines
    obtain ⟨position, space, hposition, hvalue, hspace⟩ := hlines
    have hlt := contentLengthValue_lt hposition
    rw [hposition]
    show parsedLength ((header ++ more).drop position) = _
    rw [List.drop_append_of_le_length (Nat.le_of_lt hlt), ← parsedLength_space hspace,
      ← List.append_assoc, ← hvalue, List.append_assoc, List.append_assoc]

/-! ## Values -/

theorem trimBlanks_split (value : Bytes) :
    ∃ front back, value = front ++ (trimBlanks value ++ back) ∧
      ∀ c ∈ front ++ back, c = ch ' ' ∨ c = ch '\t' := by
  let blank := fun c => c == ch ' ' || c == ch '\t'
  have hblank : ∀ c, blank c = true → c = ch ' ' ∨ c = ch '\t' := by
    intro c hc
    rw [Bool.or_eq_true, beq_iff_eq, beq_iff_eq] at hc
    exact hc
  let front := (value.reverse.dropWhile blank).reverse.takeWhile blank
  let back := (value.reverse.takeWhile blank).reverse
  refine ⟨front, back, ?_, ?_⟩
  · calc value = (value.reverse.takeWhile blank ++ value.reverse.dropWhile blank).reverse := by
          rw [List.takeWhile_append_dropWhile, List.reverse_reverse]
      _ = (value.reverse.dropWhile blank).reverse ++ back := List.reverse_append
      _ = (front ++ trimBlanks value) ++ back := by
          rw [trimBlanks, List.takeWhile_append_dropWhile]
      _ = front ++ (trimBlanks value ++ back) := List.append_assoc _ _ _
  · intro c hc
    rcases List.mem_append.mp hc with hc | hc
    · exact hblank c (List.mem_takeWhile_imp hc)
    · exact hblank c (List.mem_takeWhile_imp (List.mem_reverse.mp hc))

/-- A value of digits is read as the number that it denotes, if that is in range. -/
theorem parsedLength_isDigits {value : Bytes} (h : IsDigits value) (rest : Bytes) :
    parsedLength (value ++ (lineEnd ++ rest)) =
      if (digitsValue (trimBlanks value) : Int) ≤ LLONG_MAX then
        some (digitsValue (trimBlanks value)) else none := by
  obtain ⟨hne, hdigits⟩ := h
  obtain ⟨front, back, hvalue, hblank⟩ := trimBlanks_split value
  have hspace : ∀ c ∈ front, isspace c = true := by
    intro c hc
    rcases hblank c (List.mem_append_left back hc) with rfl | rfl <;> rfl
  have hrest : ∀ c ∈ (back ++ (lineEnd ++ rest)).head?, isdigit c = false := by
    cases back with
    | nil =>
      intro c hc
      cases hc
      rfl
    | cons b back =>
      intro c hc
      cases hc
      rcases hblank b (List.mem_append_right front List.mem_cons_self) with rfl | rfl <;> rfl
  have hsign : IsSign [] := .inl rfl
  have hnumber := parsedLength_number hsign hne hdigits hrest
  rw [if_neg (List.cons_ne_nil _ _ ∘ Eq.symm), List.nil_append] at hnumber
  calc parsedLength (value ++ (lineEnd ++ rest))
      = parsedLength (front ++ (trimBlanks value ++ (back ++ (lineEnd ++ rest)))) := by
        conv => lhs; rw [hvalue]
        rw [List.append_assoc, List.append_assoc]
    _ = parsedLength (trimBlanks value ++ (back ++ (lineEnd ++ rest))) :=
        parsedLength_space hspace _
    _ = _ := hnumber

/-- A value is taken for the number that it declares just when it is digits, or is refused. -/
theorem parsedLength_declares (value rest : Bytes) :
    (∀ n, parsedLength (value ++ (lineEnd ++ rest)) = some n ↔
      IsDigits value ∧ digitsValue (trimBlanks value) = n ∧ (n : Int) ≤ LLONG_MAX) ↔
    IsDigits value ∨ ¬ ReadsNumber (value ++ (lineEnd ++ rest)) := by
  constructor
  · intro h
    by_contra hnot
    obtain ⟨hdigits, hreads⟩ := not_or.mp hnot
    obtain ⟨n, hn⟩ := Option.isSome_iff_exists.mp (parsedLength_isSome.mpr (not_not.mp hreads))
    exact hdigits ((h n).mp hn).1
  · rintro (hdigits | hreads) n
    · rw [parsedLength_isDigits hdigits]
      constructor
      · intro hn
        obtain ⟨hle, hvalue⟩ := Option.ite_none_right_eq_some.mp hn
        cases hvalue
        exact ⟨hdigits, rfl, hle⟩
      · rintro ⟨_, rfl, hle⟩
        rw [if_pos hle]
    · rw [← parsedLength_isSome, Option.not_isSome_iff_eq_none] at hreads
      rw [hreads]
      refine iff_of_false nofun ?_
      rintro ⟨hdigits, rfl, hle⟩
      rw [parsedLength_isDigits hdigits, if_pos hle] at hreads
      cases hreads

/-- The content length is the one declared just when the first Content-Length has a value of digits,
or no number is to be read from its value and the bytes behind it. -/
theorem serverParseContentLength_declares (head more : Bytes) :
    (∀ n, serverParseContentLength (head ++ blankLine ++ more) (head ++ blankLine).length = some n ↔
      Declares (head ++ blankLine) n) ↔
    ∀ value after, firstLength (headerLines (head ++ blankLine)) = some (value, after) →
      IsDigits value ∨ ¬ ReadsNumber (value ++ (lineEnd ++ (joinLines after ++ more))) := by
  rw [serverParseContentLength_lines (ended_blankLine head)]
  unfold Declares
  cases hfirst : firstLength (headerLines (head ++ blankLine)) with
  | none =>
    refine iff_of_true ?_ ?_
    · intro n
      rw [Option.some.injEq, eq_comm]
    · intro value after h
      cases h
  | some found =>
    obtain ⟨value, after⟩ := found
    refine (parsedLength_declares value _).trans ⟨?_, fun h => h value after rfl⟩
    intro h value' after' hsame
    cases hsame
    exact h

/-- `Content-Length: 5abc` is taken for 5. -/
theorem serverParseContentLength_declares_trailing :
    ¬ ∀ head more n, serverParseContentLength (head ++ blankLine ++ more) (head ++ blankLine).length =
        some n ↔ Declares (head ++ blankLine) n := by
  intro h
  have hdeclares := (h (bytes "Content-Length: 5abc") [] 5).mp ?_
  · have hdigits := hdeclares.1.2 (ch 'a')
    exact absurd (hdigits (by decide)) (by decide)
  · rw [serverParseContentLength_lines (ended_blankLine _)]
    decide

end JungleDb
