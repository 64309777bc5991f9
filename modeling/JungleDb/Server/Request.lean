import JungleDb.Lib.CString

/-!
# Reading a request

`server_read_http_request` with `server_find_header_end`, `server_header_name_matches` and
`server_parse_content_length`. The buffer is the list of the bytes received so far, with a NUL behind
it; what `recv` returns, call by call, is a list of events. The client sends a stream of bytes and
closes the connection; it may arrive in any chunks that fit the buffer.
-/

namespace JungleDb

open CString

/-- The blank line behind a header. -/
def blankLine : Bytes := bytes "\r\n\r\n"

/-- `server_find_header_end`; `none` is its `(size_t)-1`. -/
def serverFindHeaderEnd : Bytes → Option Nat
  | [] => none
  | c :: buffer =>
    if (c :: buffer).take 4 = blankLine then some 4 else (serverFindHeaderEnd buffer).map (· + 1)

/-- `server_header_name_matches` -/
def serverHeaderNameMatches (line name : Bytes) : Bool :=
  name.length < line.length && (line.drop name.length).head? == some (ch ':') &&
    (line.take name.length).map tolower == name.map tolower

/-- `while (line_end + 1 < header_end && !(buffer[line_end] == '\r' && ...)) line_end++;`: the bytes
before the end of the line. -/
def headerLine : Bytes → Bytes
  | c :: d :: rest => if c = ch '\r' ∧ d = ch '\n' then [] else c :: headerLine (d :: rest)
  | _ => []

/-- The loop over the lines of the header, up to the value of the first Content-Length line behind
its leading white space; the value goes on to the end of the buffer. -/
def contentLengthValue (header : Bytes) (lineStart : Nat) : Option Nat :=
  if lineStart + 1 < header.length then
    let line := headerLine (header.drop lineStart)
    let name := bytes "content-length"
    if serverHeaderNameMatches line name then
      some (lineStart + (name.length + 1) +
        ((line.drop (name.length + 1)).takeWhile isspace).length)
    else contentLengthValue header (lineStart + line.length + 2)
  else none
termination_by header.length - lineStart

/-- What `strtol` makes of the value; `none` is FAILURE. -/
def parsedLength (value : Bytes) : Option Nat :=
  let parsed := strtoll value
  if parsed.erange || parsed.stop == 0 || parsed.value < 0 then none else some parsed.value.toNat

/-- `server_parse_content_length`; `none` is FAILURE. -/
def serverParseContentLength (buffer : Bytes) (headerEnd : Nat) : Option Nat :=
  match contentLengthValue (buffer.take headerEnd) 0 with
  | some value => parsedLength (buffer.drop value)
  | none => some 0

/-- What a call of `recv` returns: EINTR, another error, or bytes, none of them when the connection
is closed. -/
inductive Recv
  | interrupted
  | failed
  | received (chunk : Bytes)
  deriving DecidableEq, Repr

/-- `ServerReadStatus`. -/
inductive ServerReadStatus
  | ok
  | badRequest
  | tooLarge
  deriving DecidableEq, Repr

/-- The status, with the three lengths that are set for OK. -/
inductive ServerRead
  | ok (length bodyOffset bodyLength : Nat)
  | badRequest
  | tooLarge
  deriving DecidableEq, Repr

/-- `if (!have_header) { ... }`: the end of the header and the content length, as far as they are
known, or the result of the call. -/
def readHeader (bufferSize : Nat) (buffer : Bytes) :
    Option (Nat × Nat) → Except ServerRead (Option (Nat × Nat))
  | some header => .ok (some header)
  | none =>
    match serverFindHeaderEnd buffer with
    | none => .ok none
    | some headerEnd =>
      match serverParseContentLength buffer headerEnd with
      | none => .error .badRequest
      | some contentLength =>
        if bufferSize - headerEnd - 1 < contentLength then .error .tooLarge
        else .ok (some (headerEnd, contentLength))

/-- `while (length + 1 < buffer_size) { ... }`; no result where the events are used up. -/
def serverReadLoop (bufferSize : Nat) (buffer : Bytes) (header : Option (Nat × Nat)) :
    List Recv → Option ServerRead
  | [] => if buffer.length + 1 < bufferSize then none else some .tooLarge
  | event :: events =>
    if buffer.length + 1 < bufferSize then
      match event with
      | .interrupted => serverReadLoop bufferSize buffer header events
      | .failed => some .badRequest
      | .received [] => some .badRequest
      | .received chunk =>
        let buffer := buffer ++ chunk
        match readHeader bufferSize buffer header with
        | .error read => some read
        | .ok none => serverReadLoop bufferSize buffer none events
        | .ok (some (headerEnd, contentLength)) =>
          if headerEnd + contentLength ≤ buffer.length then
            some (.ok buffer.length headerEnd contentLength)
          else serverReadLoop bufferSize buffer (some (headerEnd, contentLength)) events
    else some .tooLarge

/-- `server_read_http_request` -/
def serverReadHttpRequest (bufferSize : Nat) (events : List Recv) : Option ServerRead :=
  if bufferSize = 0 then some .badRequest else serverReadLoop bufferSize [] none events

/-- The events by which a stream of bytes can arrive behind the first `length` bytes: each chunk has
at most the bytes asked for, and the connection is closed behind the last one. -/
inductive Delivers (bufferSize : Nat) : Nat → Bytes → List Recv → Prop
  | full {length : Nat} {stream : Bytes} :
    bufferSize ≤ length + 1 → Delivers bufferSize length stream []
  | closed {length : Nat} : Delivers bufferSize length [] [.received []]
  | interrupted {length : Nat} {stream : Bytes} {events : List Recv} :
    Delivers bufferSize length stream events →
    Delivers bufferSize length stream (.interrupted :: events)
  | received {length : Nat} {chunk stream : Bytes} {events : List Recv} :
    chunk ≠ [] → chunk.length ≤ bufferSize - length - 1 →
    Delivers bufferSize (length + chunk.length) stream events →
    Delivers bufferSize length (chunk ++ stream) (.received chunk :: events)

namespace ServerRead

def status : ServerRead → ServerReadStatus
  | ok _ _ _ => .ok
  | badRequest => .badRequest
  | tooLarge => .tooLarge

/-- Where the body is and how long. -/
def body : ServerRead → Option (Nat × Nat)
  | ok _ bodyOffset bodyLength => some (bodyOffset, bodyLength)
  | _ => none

/-- What a delivery leads to: all but the number of the bytes received. -/
def outcome (read : ServerRead) : ServerReadStatus × Option (Nat × Nat) := (read.status, read.body)

end ServerRead

/-! ## The end of the header -/

variable {buffer header : Bytes} {headerEnd : Nat}

theorem four_le_headerEnd (h : serverFindHeaderEnd buffer = some headerEnd) : 4 ≤ headerEnd := by
  induction buffer generalizing headerEnd with
  | nil => cases h
  | cons c buffer ih =>
    rw [serverFindHeaderEnd] at h
    split at h
    · cases h
      exact le_refl 4
    · obtain ⟨headerEnd', h', rfl⟩ := Option.map_eq_some_iff.mp h
      exact Nat.le_succ_of_le (ih h')

/-- The header goes up to the first blank line, which is its last four bytes. -/
theorem take_headerEnd (h : serverFindHeaderEnd buffer = some headerEnd) :
    headerEnd ≤ buffer.length ∧ ∃ lines, buffer.take headerEnd = lines ++ blankLine := by
  induction buffer generalizing headerEnd with
  | nil => cases h
  | cons c buffer ih =>
    rw [serverFindHeaderEnd] at h
    split at h
    · rename_i hblank
      cases h
      have hlen := congrArg List.length hblank
      rw [List.length_take] at hlen
      exact ⟨Nat.le_of_eq hlen.symm |>.trans (Nat.min_le_right _ _), [], hblank⟩
    · obtain ⟨headerEnd', h', rfl⟩ := Option.map_eq_some_iff.mp h
      obtain ⟨hle, lines, hlines⟩ := ih h'
      refine ⟨Nat.succ_le_succ hle, c :: lines, ?_⟩
      rw [List.take_succ_cons, hlines]
      rfl

theorem take_eq_blankLine (buffer : Bytes) (n : Nat) :
    (buffer.take n).take 4 = blankLine ↔ buffer.take 4 = blankLine ∧ 4 ≤ n := by
  rw [List.take_take]
  constructor
  · intro h
    have hlen : min (min 4 n) buffer.length = 4 := by
      rw [← List.length_take, h]
      rfl
    have hn : 4 ≤ n := by omega
    rw [Nat.min_eq_left hn] at h
    exact ⟨h, hn⟩
  · rintro ⟨h, hn⟩
    rw [Nat.min_eq_left hn]
    exact h

theorem headerEnd_filter_of_lt {n : Nat} (hn : n < 4) :
    (serverFindHeaderEnd buffer).filter (fun headerEnd => headerEnd ≤ n) = none := by
  rw [Option.filter_eq_none_iff]
  intro headerEnd h hle
  have hfour := four_le_headerEnd h
  have hle := of_decide_eq_true hle
  omega

/-- A part of the buffer has the same header if the header is in it, and else none. -/
theorem serverFindHeaderEnd_take (buffer : Bytes) (n : Nat) :
    serverFindHeaderEnd (buffer.take n) =
      (serverFindHeaderEnd buffer).filter (fun headerEnd => headerEnd ≤ n) := by
  induction buffer generalizing n with
  | nil =>
    rw [List.take_nil]
    rfl
  | cons c buffer ih =>
    cases n with
    | zero =>
      rw [headerEnd_filter_of_lt (Nat.succ_pos 3)]
      rfl
    | succ n =>
      have hblank := take_eq_blankLine (c :: buffer) (n + 1)
      rw [List.take_succ_cons] at hblank ⊢
      rw [serverFindHeaderEnd, serverFindHeaderEnd, ih]
      by_cases hhere : (c :: buffer).take 4 = blankLine
      · by_cases hn : 4 ≤ n + 1
        · rw [if_pos (hblank.mpr ⟨hhere, hn⟩), if_pos hhere, Option.filter_some,
            if_pos (decide_eq_true hn)]
        · rw [if_neg fun h => hn (hblank.mp h).2, if_pos hhere, Option.filter_some,
            if_neg fun h => hn (of_decide_eq_true h), headerEnd_filter_of_lt (by omega)]
          rfl
      · rw [if_neg fun h => hhere (hblank.mp h).1, if_neg hhere]
        cases serverFindHeaderEnd buffer with
        | none => rfl
        | some headerEnd =>
          simp only [Option.filter_some, Option.map_some, decide_eq_true_eq, Nat.add_le_add_iff_right]
          split <;> rfl

/-! ## The content length -/

theorem parsedLength_space {space : Bytes} (h : ∀ c ∈ space, isspace c = true) (text : Bytes) :
    parsedLength (space ++ text) = parsedLength text := by
  unfold parsedLength
  rw [strtoll_space h]
  by_cases hstop : (strtoll text).stop = 0
  · simp only [hstop, if_true]
  · have hsum : (space.length + (strtoll text).stop == 0) = ((strtoll text).stop == 0) := by
      rw [beq_eq_false_iff_ne.mpr hstop, beq_eq_false_iff_ne]
      omega
    simp only [if_neg hstop, hsum]

theorem headerLine_length {text : Bytes} (h : text ≠ []) :
    (headerLine text).length < text.length := by
  induction text with
  | nil => exact absurd rfl h
  | cons c text ih =>
    cases text with
    | nil => exact Nat.succ_pos 0
    | cons d rest =>
      rw [headerLine]
      split
      · exact Nat.succ_pos _
      · exact Nat.succ_lt_succ (ih (List.cons_ne_nil d rest))

/-- The value begins in the header, before its last byte or there. -/
theorem contentLengthValue_lt {lineStart value : Nat}
    (h : contentLengthValue header lineStart = some value) : value < header.length := by
  induction lineStart using contentLengthValue.induct header with
  | case1 lineStart hlt line name hname =>
    rw [contentLengthValue, if_pos hlt] at h
    simp only at h
    rw [if_pos hname] at h
    cases h
    show lineStart + (name.length + 1) + ((line.drop (name.length + 1)).takeWhile isspace).length <
      header.length
    have hrest : header.drop lineStart ≠ [] := by
      rw [List.ne_nil_iff_length_pos, List.length_drop]
      omega
    have hline : line.length < (header.drop lineStart).length := headerLine_length hrest
    rw [List.length_drop] at hline
    unfold serverHeaderNameMatches at hname
    rw [Bool.and_eq_true, Bool.and_eq_true, decide_eq_true_eq] at hname
    have hlonger := hname.1.1
    have hspace := (List.takeWhile_sublist (l := line.drop (name.length + 1)) isspace).length_le
    rw [List.length_drop] at hspace
    omega
  | case2 lineStart hlt line name hname ih =>
    rw [contentLengthValue, if_pos hlt] at h
    simp only at h
    rw [if_neg hname] at h
    exact ih h
  | case3 lineStart hlt =>
    rw [contentLengthValue, if_neg hlt] at h
    cases h

/-- The value of the first Content-Length line is white space, with all that follows it in the
header. -/
def BlankLength (header : Bytes) : Prop :=
  ∃ value, contentLengthValue header 0 = some value ∧ ∀ c ∈ header.drop value, isspace c = true

/-- Behind a blank Content-Length the number is read from the bytes behind the header. -/
theorem serverParseContentLength_blank (h : BlankLength header) (more : Bytes) :
    serverParseContentLength (header ++ more) header.length = parsedLength more := by
  obtain ⟨value, hvalue, hspace⟩ := h
  unfold serverParseContentLength
  rw [List.take_left, hvalue]
  show parsedLength ((header ++ more).drop value) = parsedLength more
  rw [List.drop_append_of_le_length (Nat.le_of_lt (contentLengthValue_lt hvalue)),
    parsedLength_space hspace]

/-- Otherwise the bytes behind the header do not matter. -/
theorem serverParseContentLength_append {lines : Bytes} (hend : header = lines ++ blankLine)
    (h : ¬ BlankLength header) (more : Bytes) :
    serverParseContentLength (header ++ more) header.length =
      serverParseContentLength header header.length := by
  unfold serverParseContentLength
  rw [List.take_left, List.take_length]
  cases hvalue : contentLengthValue header 0 with
  | none => rfl
  | some value =>
    have hlt := contentLengthValue_lt hvalue
    show parsedLength ((header ++ more).drop value) = parsedLength (header.drop value)
    rw [List.drop_append_of_le_length (Nat.le_of_lt hlt)]
    -- the value ends in the LF of the blank line, where `strtol` stops at the latest
    obtain ⟨text, htext⟩ : ∃ text, header.drop value = text ++ [ch '\n'] := by
      have hlast : header = (lines ++ bytes "\r\n\r") ++ [ch '\n'] := by
        rw [hend, List.append_assoc]
        rfl
      rw [hlast, List.length_append, List.length_singleton] at hlt
      refine ⟨(lines ++ bytes "\r\n\r").drop value, ?_⟩
      rw [hlast, List.drop_append_of_le_length (Nat.le_of_lt_succ hlt)]
    have hword : ∃ c ∈ text, isspace c = false := by
      by_contra hall
      refine h ⟨value, hvalue, ?_⟩
      intro c hc
      rw [htext, List.mem_append, List.mem_singleton] at hc
      rcases hc with hc | rfl
      · by_contra hspace
        exact hall ⟨c, hc, Bool.not_eq_true _ ▸ hspace⟩
      · rfl
    unfold parsedLength
    rw [htext, List.append_assoc, List.singleton_append, strtoll_append hword rfl more,
      strtoll_append hword rfl []]

section Window

variable {window : Bytes} (hfound : serverFindHeaderEnd window = some headerEnd)
include hfound

theorem length_take_headerEnd : (window.take headerEnd).length = headerEnd := by
  rw [List.length_take, Nat.min_eq_left (take_headerEnd hfound).1]

theorem serverParseContentLength_take_blank (h : BlankLength (window.take headerEnd)) (k : Nat) :
    serverParseContentLength (window.take (headerEnd + k)) headerEnd =
      parsedLength ((window.drop headerEnd).take k) := by
  have hparse := serverParseContentLength_blank h ((window.drop headerEnd).take k)
  rw [length_take_headerEnd hfound] at hparse
  rw [List.take_add]
  exact hparse

theorem serverParseContentLength_take (h : ¬ BlankLength (window.take headerEnd)) (k : Nat) :
    serverParseContentLength (window.take (headerEnd + k)) headerEnd =
      serverParseContentLength (window.take headerEnd) headerEnd := by
  obtain ⟨lines, hlines⟩ := (take_headerEnd hfound).2
  have hparse := serverParseContentLength_append hlines h ((window.drop headerEnd).take k)
  rw [length_take_headerEnd hfound] at hparse
  rw [List.take_add]
  exact hparse

end Window

/-! ## One delivery -/

section Loop

variable {bufferSize length contentLength : Nat} {chunk stream : Bytes}
  {header : Option (Nat × Nat)} {events : List Recv}

theorem serverReadLoop_full (hfull : ¬ buffer.length + 1 < bufferSize) :
    serverReadLoop bufferSize buffer header events = some .tooLarge := by
  cases events with
  | nil => exact if_neg hfull
  | cons event events => exact if_neg hfull

theorem serverReadLoop_closed (hroom : buffer.length + 1 < bufferSize) :
    serverReadLoop bufferSize buffer header (.received [] :: events) = some .badRequest :=
  if_pos hroom

theorem serverReadLoop_interrupted (hroom : buffer.length + 1 < bufferSize) :
    serverReadLoop bufferSize buffer header (.interrupted :: events) =
      serverReadLoop bufferSize buffer header events :=
  if_pos hroom

theorem serverReadLoop_received (hroom : buffer.length + 1 < bufferSize) (hchunk : chunk ≠ []) :
    serverReadLoop bufferSize buffer header (.received chunk :: events) =
      match readHeader bufferSize (buffer ++ chunk) header with
      | .error read => some read
      | .ok none => serverReadLoop bufferSize (buffer ++ chunk) none events
      | .ok (some (headerEnd, contentLength)) =>
        if headerEnd + contentLength ≤ (buffer ++ chunk).length then
          some (.ok (buffer ++ chunk).length headerEnd contentLength)
        else
          serverReadLoop bufferSize (buffer ++ chunk) (some (headerEnd, contentLength)) events := by
  cases chunk with
  | nil => exact absurd rfl hchunk
  | cons c chunk => exact if_pos hroom

/-- A stream can arrive byte by byte. -/
theorem exists_delivers (bufferSize length : Nat) (stream : Bytes) :
    ∃ events, Delivers bufferSize length stream events := by
  induction stream generalizing length with
  | nil => exact ⟨_, .closed⟩
  | cons c stream ih =>
    by_cases hfull : bufferSize ≤ length + 1
    · exact ⟨_, .full hfull⟩
    · obtain ⟨events, h⟩ := ih (length + 1)
      have hfits : [c].length ≤ bufferSize - length - 1 := by
        rw [List.length_singleton]
        omega
      exact ⟨_, .received (List.cons_ne_nil c []) hfits h⟩

/-- What comes of a content length, or of a number that is none, for a stream of some length. -/
def lengthOutcome (bufferSize headerEnd streamLength : Nat) :
    Option Nat → ServerReadStatus × Option (Nat × Nat)
  | none => (.badRequest, none)
  | some contentLength =>
    if bufferSize - headerEnd - 1 < contentLength then (.tooLarge, none)
    else if headerEnd + contentLength ≤ streamLength then
      (.ok, some (headerEnd, contentLength))
    else (.badRequest, none)

/-- The outcome is that of a bad request exactly if no number is read, or one that fits the buffer
and that the stream does not satisfy. -/
theorem lengthOutcome_eq_badRequest {streamLength : Nat} {parsed : Option Nat} :
    lengthOutcome bufferSize headerEnd streamLength parsed = (.badRequest, none) ↔
      ∀ n, parsed = some n → n ≤ bufferSize - headerEnd - 1 ∧ streamLength < headerEnd + n := by
  cases parsed with
  | none => exact ⟨fun _ => nofun, fun _ => rfl⟩
  | some contentLength =>
    rw [lengthOutcome]
    constructor
    · intro h n hn
      cases hn
      split at h
      · cases h
      · rename_i hfits
        split at h
        · cases h
        · rename_i hshort
          exact ⟨Nat.le_of_not_lt hfits, Nat.lt_of_not_le hshort⟩
    · intro h
      obtain ⟨hfits, hshort⟩ := h contentLength rfl
      rw [if_neg (Nat.not_lt_of_le hfits), if_neg (Nat.not_le_of_lt hshort)]

/-- While the body is incomplete, the loop goes on until it is complete or the stream ends. -/
theorem serverReadLoop_body (hlong : ¬ bufferSize - headerEnd - 1 < contentLength)
    (h : Delivers bufferSize length stream events) (hlen : buffer.length = length)
    (hheader : headerEnd + 1 ≤ bufferSize) (hmore : buffer.length < headerEnd + contentLength) :
    ∃ read, serverReadLoop bufferSize buffer (some (headerEnd, contentLength)) events = some read ∧
      read.outcome =
        lengthOutcome bufferSize headerEnd (buffer ++ stream).length (some contentLength) := by
  have hroom : buffer.length + 1 < bufferSize := by omega
  rw [lengthOutcome, if_neg hlong]
  induction h generalizing buffer with
  | full hfull => omega
  | closed =>
    refine ⟨_, serverReadLoop_closed hroom, ?_⟩
    rw [List.append_nil, if_neg (Nat.not_le_of_lt hmore)]
    rfl
  | interrupted _ ih =>
    rw [serverReadLoop_interrupted hroom]
    exact ih hlen hmore hroom
  | @received length chunk stream events hchunk hfits _ ih =>
    rw [serverReadLoop_received hroom hchunk, readHeader]
    simp only
    rw [← List.append_assoc]
    split
    · rename_i hdone
      refine ⟨_, rfl, ?_⟩
      rw [if_pos]
      · rfl
      · rw [List.length_append]
        exact Nat.le_add_right_of_le hdone
    · rename_i hmore'
      have hlen' : (buffer ++ chunk).length = length + chunk.length := by
        rw [List.length_append, hlen]
      exact ih hlen' (Nat.lt_of_not_le hmore') (by omega)

/-- The chunk that completes the header decides, with the bytes behind the header that it brings. -/
theorem serverReadLoop_found (hchunk : chunk ≠ [])
    (hroom : (buffer ++ chunk).length + 1 ≤ bufferSize)
    (h : Delivers bufferSize (buffer ++ chunk).length stream events)
    (hfound : serverFindHeaderEnd (buffer ++ chunk) = some headerEnd) :
    ∃ read, serverReadLoop bufferSize buffer none (.received chunk :: events) = some read ∧
      read.outcome = lengthOutcome bufferSize headerEnd (buffer ++ chunk ++ stream).length
        (serverParseContentLength (buffer ++ chunk) headerEnd) := by
  have hpos := List.length_pos_of_ne_nil hchunk
  have hle := (take_headerEnd hfound).1
  have hroom' : buffer.length + 1 < bufferSize := by
    rw [List.length_append] at hroom
    omega
  rw [serverReadLoop_received hroom' hchunk, readHeader, hfound]
  simp only
  cases hparsed : serverParseContentLength (buffer ++ chunk) headerEnd with
  | none => exact ⟨_, rfl, rfl⟩
  | some contentLength =>
    simp only
    by_cases hlong : bufferSize - headerEnd - 1 < contentLength
    · rw [if_pos hlong, lengthOutcome, if_pos hlong]
      exact ⟨_, rfl, rfl⟩
    · rw [if_neg hlong]
      simp only
      by_cases hdone : headerEnd + contentLength ≤ (buffer ++ chunk).length
      · rw [if_pos hdone, lengthOutcome, if_neg hlong, if_pos]
        · exact ⟨_, rfl, rfl⟩
        · rw [List.length_append]
          exact Nat.le_add_right_of_le hdone
      · rw [if_neg hdone]
        exact serverReadLoop_body hlong h rfl (by omega) (Nat.lt_of_not_le hdone)

/-- The outcome for a stream of which `n` bytes behind the header arrive with its end. -/
def expectedOutcome (bufferSize : Nat) (stream : Bytes) (n : Nat) :
    ServerReadStatus × Option (Nat × Nat) :=
  let window := stream.take (bufferSize - 1)
  match serverFindHeaderEnd window with
  | none => if bufferSize ≤ stream.length + 1 then (.tooLarge, none) else (.badRequest, none)
  | some headerEnd => lengthOutcome bufferSize headerEnd stream.length
      (serverParseContentLength (window.take (headerEnd + n)) headerEnd)

theorem expectedOutcome_some
    (hfound : serverFindHeaderEnd (stream.take (bufferSize - 1)) = some headerEnd) (n : Nat) :
    expectedOutcome bufferSize stream n = lengthOutcome bufferSize headerEnd stream.length
      (serverParseContentLength ((stream.take (bufferSize - 1)).take (headerEnd + n)) headerEnd) := by
  unfold expectedOutcome
  simp only [hfound]

theorem expectedOutcome_none
    (hnone : serverFindHeaderEnd (stream.take (bufferSize - 1)) = none) (n : Nat) :
    expectedOutcome bufferSize stream n =
      if bufferSize ≤ stream.length + 1 then (.tooLarge, none) else (.badRequest, none) := by
  unfold expectedOutcome
  simp only [hnone]

/-- A full buffer without a header. -/
theorem expectedOutcome_full (hfull : buffer.length + 1 = bufferSize)
    (hnone : serverFindHeaderEnd buffer = none) :
    expectedOutcome bufferSize (buffer ++ stream) 0 = (.tooLarge, none) := by
  have hwindow : (buffer ++ stream).take (bufferSize - 1) = buffer :=
    List.take_left' (by omega)
  rw [expectedOutcome_none (hwindow.symm ▸ hnone), if_pos]
  rw [List.length_append]
  omega

/-- The header is in the bytes received, and in the buffer when it is full. -/
theorem expectedOutcome_found (hfits : buffer.length + 1 ≤ bufferSize)
    (hfound : serverFindHeaderEnd buffer = some headerEnd) :
    expectedOutcome bufferSize (buffer ++ stream) (buffer.length - headerEnd) =
      lengthOutcome bufferSize headerEnd (buffer ++ stream).length
        (serverParseContentLength buffer headerEnd) := by
  have hle := (take_headerEnd hfound).1
  have hbuffer : ((buffer ++ stream).take (bufferSize - 1)).take buffer.length = buffer := by
    rw [List.take_take, Nat.min_eq_left (by omega), List.take_left]
  have hfound' : serverFindHeaderEnd ((buffer ++ stream).take (bufferSize - 1)) =
      some headerEnd := by
    have htake := serverFindHeaderEnd_take ((buffer ++ stream).take (bufferSize - 1)) buffer.length
    rw [hbuffer, hfound] at htake
    exact (Option.filter_eq_some_iff.mp htake.symm).1
  rw [expectedOutcome_some hfound', Nat.add_sub_cancel' hle, hbuffer]

/-- Until the header is complete, the loop goes on until it is complete, the stream ends or the
buffer is full. -/
theorem serverReadLoop_header (h : Delivers bufferSize length stream events)
    (hlen : buffer.length = length) (hfits : buffer.length + 1 ≤ bufferSize)
    (hnone : serverFindHeaderEnd buffer = none) :
    ∃ read n, serverReadLoop bufferSize buffer none events = some read ∧
      read.outcome = expectedOutcome bufferSize (buffer ++ stream) n := by
  by_cases hroom : buffer.length + 1 < bufferSize
  · induction h generalizing buffer with
    | full hfull => omega
    | closed =>
      refine ⟨_, 0, serverReadLoop_closed hroom, ?_⟩
      have hwindow : (buffer ++ []).take (bufferSize - 1) = buffer := by
        rw [List.append_nil]
        exact List.take_of_length_le (by omega)
      rw [expectedOutcome_none (hwindow.symm ▸ hnone), if_neg]
      · rfl
      · rw [List.append_nil]
        omega
    | interrupted _ ih =>
      rw [serverReadLoop_interrupted hroom]
      exact ih hlen hfits hnone hroom
    | @received length chunk stream events hchunk hsize h ih =>
      have hlen' : (buffer ++ chunk).length = length + chunk.length := by
        rw [List.length_append, hlen]
      have hfits' : (buffer ++ chunk).length + 1 ≤ bufferSize := by omega
      rw [← List.append_assoc]
      cases hfound : serverFindHeaderEnd (buffer ++ chunk) with
      | none =>
        rw [serverReadLoop_received hroom hchunk, readHeader, hfound]
        by_cases hroom' : (buffer ++ chunk).length + 1 < bufferSize
        · exact ih hlen' hfits' hfound hroom'
        · exact ⟨_, 0, serverReadLoop_full hroom', (expectedOutcome_full (by omega) hfound).symm⟩
      | some headerEnd =>
        obtain ⟨read, hread, houtcome⟩ := serverReadLoop_found hchunk hfits' (hlen' ▸ h) hfound
        exact ⟨read, _, hread, houtcome.trans (expectedOutcome_found hfits' hfound).symm⟩
  · exact ⟨_, 0, serverReadLoop_full hroom, (expectedOutcome_full (by omega) hnone).symm⟩

end Loop

/-! ## Every delivery -/

section Deliveries

variable {bufferSize : Nat} {stream : Bytes} {events : List Recv}

/-- Every delivery gives the outcome for some number of bytes behind the header. -/
theorem serverReadHttpRequest_outcome (hpos : bufferSize ≠ 0)
    (h : Delivers bufferSize 0 stream events) :
    ∃ read n, serverReadHttpRequest bufferSize events = some read ∧
      read.outcome = expectedOutcome bufferSize stream n := by
  unfold serverReadHttpRequest
  rw [if_neg hpos]
  exact serverReadLoop_header h rfl (Nat.one_le_iff_ne_zero.mpr hpos) rfl

/-- Every number of bytes behind the header can arrive with its end. -/
theorem exists_delivers_outcome (hpos : bufferSize ≠ 0)
    (hfound : serverFindHeaderEnd (stream.take (bufferSize - 1)) = some headerEnd) (n : Nat) :
    ∃ events read, Delivers bufferSize 0 stream events ∧
      serverReadHttpRequest bufferSize events = some read ∧
      read.outcome = expectedOutcome bufferSize stream n := by
  have hfour := four_le_headerEnd hfound
  have hle := (take_headerEnd hfound).1
  generalize hchunk : (stream.take (bufferSize - 1)).take (headerEnd + n) = chunk
  obtain ⟨rest, hrest⟩ : chunk <+: stream := by
    rw [← hchunk]
    exact (List.take_prefix _ _).trans (List.take_prefix _ _)
  have hlen : chunk.length ≤ bufferSize - 1 := by
    rw [← hchunk, List.length_take, List.length_take]
    omega
  have hfound' : serverFindHeaderEnd chunk = some headerEnd := by
    rw [← hchunk, serverFindHeaderEnd_take, hfound, Option.filter_some, if_pos]
    exact decide_eq_true (Nat.le_add_right headerEnd n)
  have hne : chunk ≠ [] := by
    rintro rfl
    cases hfound'
  obtain ⟨events, hevents⟩ := exists_delivers bufferSize chunk.length rest
  have hroom : ([] ++ chunk).length + 1 ≤ bufferSize := by
    rw [List.nil_append]
    omega
  obtain ⟨read, hread, houtcome⟩ := serverReadLoop_found hne hroom hevents hfound'
  refine ⟨.received chunk :: events, read, ?_, (if_neg hpos).trans hread, houtcome.trans ?_⟩
  · rw [← hrest]
    exact .received hne hlen ((Nat.zero_add chunk.length).symm ▸ hevents)
  · rw [expectedOutcome_some hfound, hchunk, List.nil_append, hrest]

/-- Behind a header whose content length is not blank, the outcome is the same for every number. -/
theorem expectedOutcome_of_not_blank
    (hfound : serverFindHeaderEnd (stream.take (bufferSize - 1)) = some headerEnd)
    (h : ¬ BlankLength ((stream.take (bufferSize - 1)).take headerEnd)) (m n : Nat) :
    expectedOutcome bufferSize stream m = expectedOutcome bufferSize stream n := by
  rw [expectedOutcome_some hfound, expectedOutcome_some hfound,
    serverParseContentLength_take hfound h, serverParseContentLength_take hfound h]

theorem expectedOutcome_blank
    (hfound : serverFindHeaderEnd (stream.take (bufferSize - 1)) = some headerEnd)
    (h : BlankLength ((stream.take (bufferSize - 1)).take headerEnd)) (n : Nat) :
    expectedOutcome bufferSize stream n = lengthOutcome bufferSize headerEnd stream.length
      (parsedLength (((stream.take (bufferSize - 1)).drop headerEnd).take n)) := by
  rw [expectedOutcome_some hfound, serverParseContentLength_take_blank hfound h]

end Deliveries

/-- The outcome of `server_read_http_request` depends on the bytes sent only, unless the first
Content-Length line is blank up to the end of the header: then `strtol` reads on into as much of the
body as has come with the header, and the outcome depends on that as soon as it finds a number there
that is too large or that the stream satisfies. -/
theorem serverReadHttpRequest_split (bufferSize : Nat) (stream : Bytes) :
    let window := stream.take (bufferSize - 1)
    (∀ events events', Delivers bufferSize 0 stream events → Delivers bufferSize 0 stream events' →
      ∃ read read', serverReadHttpRequest bufferSize events = some read ∧
        serverReadHttpRequest bufferSize events' = some read' ∧
        read.status = read'.status ∧ read.body = read'.body) ↔
      ∀ headerEnd, serverFindHeaderEnd window = some headerEnd →
        BlankLength (window.take headerEnd) → ∀ k n,
        parsedLength ((window.drop headerEnd).take k) = some n →
          n ≤ bufferSize - headerEnd - 1 ∧ stream.length < headerEnd + n := by
  intro window
  by_cases hpos : bufferSize = 0
  · subst hpos
    exact ⟨fun _ => nofun, fun _ _ _ _ _ => ⟨_, _, rfl, rfl, rfl, rfl⟩⟩
  constructor
  · intro h headerEnd hfound hblank k n hparsed
    obtain ⟨events, read, hdelivers, hread, houtcome⟩ := exists_delivers_outcome hpos hfound k
    obtain ⟨events₀, read₀, hdelivers₀, hread₀, houtcome₀⟩ := exists_delivers_outcome hpos hfound 0
    obtain ⟨_, _, hread', hread₀', hstatus, hbody⟩ := h events events₀ hdelivers hdelivers₀
    rw [hread] at hread'
    rw [hread₀] at hread₀'
    cases hread'
    cases hread₀'
    have hbad : expectedOutcome bufferSize stream k = (.badRequest, none) := by
      have heq : read.outcome = read₀.outcome := Prod.ext hstatus hbody
      rw [← houtcome, heq, houtcome₀, expectedOutcome_blank hfound hblank, List.take_zero]
      rfl
    rw [expectedOutcome_blank hfound hblank] at hbad
    exact lengthOutcome_eq_badRequest.mp hbad n hparsed
  · intro h events events' hevents hevents'
    obtain ⟨read, m, hread, houtcome⟩ := serverReadHttpRequest_outcome hpos hevents
    obtain ⟨read', n, hread', houtcome'⟩ := serverReadHttpRequest_outcome hpos hevents'
    have heq : read.outcome = read'.outcome := by
      rw [houtcome, houtcome']
      cases hfound : serverFindHeaderEnd window with
      | none => rw [expectedOutcome_none hfound, expectedOutcome_none hfound]
      | some headerEnd =>
        by_cases hblank : BlankLength (window.take headerEnd)
        · have hbad : ∀ k, expectedOutcome bufferSize stream k = (.badRequest, none) := by
            intro k
            rw [expectedOutcome_blank hfound hblank]
            exact lengthOutcome_eq_badRequest.mpr (h headerEnd hfound hblank k)
          rw [hbad m, hbad n]
        · exact expectedOutcome_of_not_blank hfound hblank m n
    exact ⟨read, read', hread, hread', congrArg Prod.fst heq, congrArg Prod.snd heq⟩

/-- A blank Content-Length before a body that begins with a number: the request is read when it comes
in one chunk, and bad when its header comes alone. -/
theorem serverReadHttpRequest_depends_on_split :
    ¬ ∀ (bufferSize : Nat) (stream : Bytes) (events events' : List Recv),
      Delivers bufferSize 0 stream events → Delivers bufferSize 0 stream events' →
      ∃ read read', serverReadHttpRequest bufferSize events = some read ∧
        serverReadHttpRequest bufferSize events' = some read' ∧
        read.status = read'.status ∧ read.body = read'.body := by
  intro h
  let header := bytes "POST /query HTTP/1.1\r\nContent-Length:\r\n\r\n"
  let body := bytes "5abcd"
  have hwhole : Delivers 65536 0 (header ++ body) [.received (header ++ body), .received []] := by
    rw [← List.append_nil (header ++ body)]
    exact .received (by decide) (by decide) .closed
  have hsplit : Delivers 65536 0 (header ++ body)
      [.received header, .received body, .received []] := by
    refine .received (by decide) (by decide) ?_
    rw [← List.append_nil body]
    exact .received (by decide) (by decide) .closed
  obtain ⟨read, read', hread, hread', hstatus, -⟩ := h 65536 (header ++ body) _ _ hwhole hsplit
  have hok : serverReadHttpRequest 65536 [.received (header ++ body), .received []] =
      some (.ok 46 41 5) := by decide +kernel
  have hbad : serverReadHttpRequest 65536 [.received header, .received body, .received []] =
      some .badRequest := by decide +kernel
  rw [hok] at hread
  rw [hbad] at hread'
  cases hread
  cases hread'
  cases hstatus

end JungleDb
