import JungleDb.Server.Request

/-!
# The bounds of a request

What the loop of `server_read_http_request` keeps, whatever `recv` does: the bytes received fit the
buffer, the sizes it computes with do not wrap, and a body that is accepted lies in these bytes. The
loop is taken turn by turn, so that the invariant is that of the states at its head.
-/

namespace JungleDb

open CString

/-- A call of `recv` that asks for `room` bytes delivers at most as many. -/
def Recv.Fits (room : Nat) : Recv → Prop
  | .received chunk => chunk.length ≤ room
  | _ => True

/-- The bytes that a call of `recv` stores. -/
def Recv.chunk : Recv → Bytes
  | .received chunk => chunk
  | _ => []

/-- The events can be the returns of the calls of `recv` behind `length` bytes. -/
def Arrives (bufferSize : Nat) : Nat → List Recv → Prop
  | _, [] => True
  | length, event :: events =>
    event.Fits (bufferSize - length - 1) ∧ Arrives bufferSize (length + event.chunk.length) events

/-- The body of the loop: the result of the call, or the buffer and the header for the next turn. -/
def serverReadTurn (bufferSize : Nat) (buffer : Bytes) (header : Option (Nat × Nat)) :
    Recv → Except ServerRead (Bytes × Option (Nat × Nat))
  | .interrupted => .ok (buffer, header)
  | .failed => .error .badRequest
  | .received [] => .error .badRequest
  | .received (c :: chunk) =>
    let buffer := buffer ++ c :: chunk
    match readHeader bufferSize buffer header with
    | .error read => .error read
    | .ok none => .ok (buffer, none)
    | .ok (some (headerEnd, contentLength)) =>
      if headerEnd + contentLength ≤ buffer.length then
        .error (.ok buffer.length headerEnd contentLength)
      else .ok (buffer, some (headerEnd, contentLength))

/-- The events taken bring the loop to its head with this buffer and header. -/
inductive AtHead (bufferSize : Nat) : List Recv → Bytes → Option (Nat × Nat) → Prop
  | start : AtHead bufferSize [] [] none
  | turn {taken : List Recv} {buffer buffer' : Bytes} {header header' : Option (Nat × Nat)}
    {event : Recv} : AtHead bufferSize taken buffer header → buffer.length + 1 < bufferSize →
    event.Fits (bufferSize - buffer.length - 1) →
    serverReadTurn bufferSize buffer header event = .ok (buffer', header') →
    AtHead bufferSize (taken ++ [event]) buffer' header'

/-- The text has its first blank line right before the position. -/
def FirstBlankLine (text : Bytes) (position : Nat) : Prop :=
  (∃ lines, text.take position = lines ++ blankLine) ∧
    ∀ n < position, ¬ ∃ lines, text.take n = lines ++ blankLine

variable {bufferSize headerEnd contentLength : Nat} {buffer buffer' chunk : Bytes}
  {header header' : Option (Nat × Nat)} {event : Recv} {taken events : List Recv}
  {read : ServerRead}

/-! ## The header -/

theorem serverFindHeaderEnd_ne_none (lines : Bytes) :
    serverFindHeaderEnd (lines ++ blankLine) ≠ none := by
  induction lines with
  | nil =>
    intro h
    cases h
  | cons c lines ih =>
    rw [List.cons_append, serverFindHeaderEnd]
    split
    · exact Option.some_ne_none _
    · exact fun h => ih (Option.map_eq_none_iff.mp h)

theorem serverFindHeaderEnd_first (h : serverFindHeaderEnd buffer = some headerEnd) :
    FirstBlankLine buffer headerEnd := by
  refine ⟨(take_headerEnd h).2, ?_⟩
  rintro n hn ⟨lines, hlines⟩
  have htake := serverFindHeaderEnd_take buffer n
  rw [hlines, h, Option.filter_some, if_neg] at htake
  · exact serverFindHeaderEnd_ne_none lines htake
  · exact fun hle => Nat.not_le_of_lt hn (of_decide_eq_true hle)

/-- A header stays where it was found. -/
theorem serverFindHeaderEnd_append (h : serverFindHeaderEnd buffer = some headerEnd)
    (more : Bytes) : serverFindHeaderEnd (buffer ++ more) = some headerEnd := by
  have htake := serverFindHeaderEnd_take (buffer ++ more) buffer.length
  rw [List.take_left, h] at htake
  exact (Option.filter_eq_some_iff.mp htake.symm).1

/-! ## The invariant -/

/-- What holds at the head of the loop: a byte is left for the NUL, and once a content length is
accepted the request fits the buffer and is not yet complete. -/
structure HeadInvariant (bufferSize : Nat) (buffer : Bytes) (header : Option (Nat × Nat)) :
    Prop where
  room : buffer.length + 1 ≤ bufferSize
  found : ∀ headerEnd contentLength, header = some (headerEnd, contentLength) →
    serverFindHeaderEnd buffer = some headerEnd ∧ buffer.length < headerEnd + contentLength ∧
      headerEnd + contentLength + 1 ≤ bufferSize

/-- What is known of the header when the bytes received fit the buffer. -/
theorem readHeader_ok (hroom : (buffer ++ chunk).length + 1 ≤ bufferSize)
    (hinv : HeadInvariant bufferSize buffer header)
    (h : readHeader bufferSize (buffer ++ chunk) header = .ok (some (headerEnd, contentLength))) :
    serverFindHeaderEnd (buffer ++ chunk) = some headerEnd ∧
      headerEnd + contentLength + 1 ≤ bufferSize := by
  cases header with
  | some found =>
    obtain ⟨headerEnd', contentLength'⟩ := found
    cases h
    obtain ⟨hfound, -, hfits⟩ := hinv.found _ _ rfl
    exact ⟨serverFindHeaderEnd_append hfound chunk, hfits⟩
  | none =>
    unfold readHeader at h
    cases hfound : serverFindHeaderEnd (buffer ++ chunk) with
    | none =>
      rw [hfound] at h
      cases h
    | some headerEnd' =>
      simp only [hfound] at h
      cases hparsed : serverParseContentLength (buffer ++ chunk) headerEnd' with
      | none =>
        rw [hparsed] at h
        cases h
      | some contentLength' =>
        simp only [hparsed] at h
        split at h
        · cases h
        · rename_i hshort
          cases h
          have hle := (take_headerEnd hfound).1
          exact ⟨rfl, by omega⟩

/-- Without a header there is no result OK before a header is found. -/
theorem readHeader_error (h : readHeader bufferSize buffer header = .error read) :
    header = none ∧ (read = .badRequest ∨ read = .tooLarge) := by
  cases header with
  | some found => cases h
  | none =>
    refine ⟨rfl, ?_⟩
    unfold readHeader at h
    simp only at h
    split at h
    · cases h
    · split at h
      · exact .inl (Except.error.inj h).symm
      · split at h
        · exact .inr (Except.error.inj h).symm
        · cases h

/-- What one turn of the loop keeps. -/
theorem HeadInvariant.turn (hinv : HeadInvariant bufferSize buffer header)
    (hroom : buffer.length + 1 < bufferSize) (hfits : event.Fits (bufferSize - buffer.length - 1))
    (h : serverReadTurn bufferSize buffer header event = .ok (buffer', header')) :
    HeadInvariant bufferSize buffer' header' ∧ buffer' = buffer ++ event.chunk := by
  cases event with
  | interrupted =>
    cases h
    exact ⟨hinv, (List.append_nil buffer).symm⟩
  | failed => cases h
  | received chunk =>
    cases chunk with
    | nil => cases h
    | cons c chunk =>
      have hlength : (buffer ++ c :: chunk).length + 1 ≤ bufferSize := by
        have hle : (c :: chunk).length ≤ bufferSize - buffer.length - 1 := hfits
        rw [List.length_append]
        omega
      unfold serverReadTurn at h
      simp only at h
      cases hread : readHeader bufferSize (buffer ++ c :: chunk) header with
      | error read =>
        rw [hread] at h
        cases h
      | ok found =>
        rw [hread] at h
        rcases found with _ | ⟨headerEnd, contentLength⟩
        · cases h
          exact ⟨⟨hlength, nofun⟩, rfl⟩
        · simp only at h
          split at h
          · cases h
          · rename_i hmore
            cases h
            obtain ⟨hfound, hbound⟩ := readHeader_ok hlength hinv hread
            refine ⟨⟨hlength, ?_⟩, rfl⟩
            intro _ _ heq
            cases heq
            exact ⟨hfound, Nat.lt_of_not_le hmore, hbound⟩

theorem AtHead.invariant (hpos : 0 < bufferSize) (h : AtHead bufferSize taken buffer header) :
    HeadInvariant bufferSize buffer header := by
  induction h with
  | start => exact ⟨hpos, fun _ _ => nofun⟩
  | turn _ hroom hfits hturn ih => exact (ih.turn hroom hfits hturn).1

/-! ## The end of the loop -/

/-- A turn that ends the call with OK. -/
theorem serverReadTurn_ok {length bodyOffset bodyLength : Nat}
    (hinv : HeadInvariant bufferSize buffer header) (hroom : buffer.length + 1 < bufferSize)
    (hfits : event.Fits (bufferSize - buffer.length - 1))
    (h : serverReadTurn bufferSize buffer header event =
      .error (.ok length bodyOffset bodyLength)) :
    length = (buffer ++ event.chunk).length ∧ length + 1 ≤ bufferSize ∧
      bodyOffset + bodyLength ≤ length ∧
      serverFindHeaderEnd (buffer ++ event.chunk) = some bodyOffset := by
  cases event with
  | interrupted => cases h
  | failed => cases h
  | received chunk =>
    cases chunk with
    | nil => cases h
    | cons c chunk =>
      have hlength : (buffer ++ c :: chunk).length + 1 ≤ bufferSize := by
        have hle : (c :: chunk).length ≤ bufferSize - buffer.length - 1 := hfits
        rw [List.length_append]
        omega
      unfold serverReadTurn at h
      simp only at h
      cases hread : readHeader bufferSize (buffer ++ c :: chunk) header with
      | error read =>
        rw [hread] at h
        obtain ⟨-, hread | hread⟩ := readHeader_error hread
        · rw [hread] at h
          cases h
        · rw [hread] at h
          cases h
      | ok found =>
        rw [hread] at h
        rcases found with _ | ⟨headerEnd, contentLength⟩
        · cases h
        · simp only at h
          split at h
          · rename_i hdone
            cases h
            exact ⟨rfl, hlength, hdone, (readHeader_ok hlength hinv hread).1⟩
          · cases h

/-- An accepted content length is kept. -/
theorem serverReadTurn_header
    (h : serverReadTurn bufferSize buffer (some (headerEnd, contentLength)) event =
      .ok (buffer', header')) : header' = some (headerEnd, contentLength) := by
  cases event with
  | interrupted =>
    cases h
    rfl
  | failed => cases h
  | received chunk =>
    cases chunk with
    | nil => cases h
    | cons c chunk =>
      unfold serverReadTurn readHeader at h
      simp only at h
      split at h
      · cases h
      · cases h
        rfl

/-- With an accepted content length a turn ends the call with OK, or at an error or the end of the
connection. -/
theorem serverReadTurn_accepted
    (h : serverReadTurn bufferSize buffer (some (headerEnd, contentLength)) event = .error read) :
    (∃ length, read = .ok length headerEnd contentLength) ∨
      read = .badRequest ∧ (event = .failed ∨ event = .received []) := by
  cases event with
  | interrupted => cases h
  | failed =>
    cases h
    exact .inr ⟨rfl, .inl rfl⟩
  | received chunk =>
    cases chunk with
    | nil =>
      cases h
      exact .inr ⟨rfl, .inr rfl⟩
    | cons c chunk =>
      unfold serverReadTurn readHeader at h
      simp only at h
      split at h
      · cases h
        exact .inl ⟨_, rfl⟩
      · cases h

theorem serverReadLoop_turn (hroom : buffer.length + 1 < bufferSize) :
    serverReadLoop bufferSize buffer header (event :: events) =
      match serverReadTurn bufferSize buffer header event with
      | .error read => some read
      | .ok (buffer, header) => serverReadLoop bufferSize buffer header events := by
  cases event with
  | interrupted => exact if_pos hroom
  | failed => exact if_pos hroom
  | received chunk =>
    cases chunk with
    | nil => exact if_pos hroom
    | cons c chunk =>
      rw [serverReadLoop_received hroom (List.cons_ne_nil c chunk)]
      unfold serverReadTurn
      simp only
      cases readHeader bufferSize (buffer ++ c :: chunk) header with
      | error read => rfl
      | ok found =>
        rcases found with _ | ⟨headerEnd, contentLength⟩
        · rfl
        · simp only
          split <;> rfl

/-- The call goes on from the head of the loop. -/
theorem AtHead.run (hpos : 0 < bufferSize) (h : AtHead bufferSize taken buffer header)
    (events : List Recv) :
    serverReadHttpRequest bufferSize (taken ++ events) =
      serverReadLoop bufferSize buffer header events := by
  induction h generalizing events with
  | start => exact if_neg (Nat.ne_of_gt hpos)
  | turn _ hroom _ hturn ih =>
    rw [List.append_assoc, ih, List.singleton_append, serverReadLoop_turn hroom, hturn]

/-- Once a content length is accepted the call ends with OK, or at an error or the end of the
connection. -/
theorem serverReadLoop_accepted
    (hinv : HeadInvariant bufferSize buffer (some (headerEnd, contentLength)))
    (harrives : Arrives bufferSize buffer.length events)
    (h : serverReadLoop bufferSize buffer (some (headerEnd, contentLength)) events = some read) :
    (∃ length, read = .ok length headerEnd contentLength) ∨
      read = .badRequest ∧ (.failed ∈ events ∨ .received [] ∈ events) := by
  have hroom : ∀ {buffer : Bytes},
      HeadInvariant bufferSize buffer (some (headerEnd, contentLength)) →
      buffer.length + 1 < bufferSize := by
    intro buffer hinv
    obtain ⟨-, hmore, hbound⟩ := hinv.found headerEnd contentLength rfl
    omega
  induction events generalizing buffer with
  | nil =>
    rw [serverReadLoop, if_pos (hroom hinv)] at h
    cases h
  | cons event events ih =>
    obtain ⟨hfits, harrives⟩ := harrives
    rw [serverReadLoop_turn (hroom hinv)] at h
    cases hturn : serverReadTurn bufferSize buffer (some (headerEnd, contentLength)) event with
    | error read =>
      rw [hturn] at h
      obtain rfl := Option.some.inj h
      rcases serverReadTurn_accepted hturn with hok | ⟨rfl, rfl | rfl⟩
      · exact .inl hok
      · exact .inr ⟨rfl, .inl List.mem_cons_self⟩
      · exact .inr ⟨rfl, .inr List.mem_cons_self⟩
    | ok next =>
      obtain ⟨buffer', header'⟩ := next
      rw [hturn] at h
      obtain ⟨hinv', hbuffer⟩ := hinv.turn (hroom hinv) hfits hturn
      obtain rfl := serverReadTurn_header hturn
      have hlength : Arrives bufferSize buffer'.length events := by
        rw [hbuffer, List.length_append]
        exact harrives
      rcases ih hinv' hlength h with hok | ⟨hbad, hmem | hmem⟩
      · exact .inl hok
      · exact .inr ⟨hbad, .inl (List.mem_cons_of_mem event hmem)⟩
      · exact .inr ⟨hbad, .inr (List.mem_cons_of_mem event hmem)⟩

/-- A body that the loop accepts lies in the bytes received, behind the first blank line. -/
theorem serverReadLoop_ok {length bodyOffset bodyLength : Nat}
    (hinv : HeadInvariant bufferSize buffer header)
    (harrives : Arrives bufferSize buffer.length events)
    (h : serverReadLoop bufferSize buffer header events =
      some (.ok length bodyOffset bodyLength)) :
    ∃ received, received <+: buffer ++ (events.map Recv.chunk).flatten ∧
      length = received.length ∧ length + 1 ≤ bufferSize ∧ bodyOffset + bodyLength ≤ length ∧
      FirstBlankLine received bodyOffset := by
  induction events generalizing buffer header with
  | nil =>
    rw [serverReadLoop] at h
    split at h
    · cases h
    · cases h
  | cons event events ih =>
    by_cases hroom : buffer.length + 1 < bufferSize
    · obtain ⟨hfits, harrives⟩ := harrives
      rw [serverReadLoop_turn hroom] at h
      rw [List.map_cons, List.flatten_cons, ← List.append_assoc]
      cases hturn : serverReadTurn bufferSize buffer header event with
      | error read =>
        rw [hturn] at h
        obtain rfl := Option.some.inj h
        obtain ⟨hlength, hbound, hbody, hfound⟩ := serverReadTurn_ok hinv hroom hfits hturn
        exact ⟨buffer ++ event.chunk, List.prefix_append _ _, hlength, hbound, hbody,
          serverFindHeaderEnd_first hfound⟩
      | ok next =>
        rw [hturn] at h
        obtain ⟨hinv', hbuffer⟩ := hinv.turn hroom hfits hturn
        rw [← hbuffer]
        apply ih hinv' _ h
        rw [hbuffer, List.length_append]
        exact harrives
    · rw [serverReadLoop_full hroom] at h
      cases h

/-- Whatever `recv` does, at the head of the loop the bytes received leave room for the NUL, the size
that the content length is compared with is not negative, and its sum with the end of the header does
not wrap; once a content length is accepted, the call ends with OK, or at an error or the end of the
connection. A body that is accepted lies in the bytes received, right behind the first blank line. -/
theorem serverReadHttpRequest_bounds (hpos : 0 < bufferSize) (hsize : bufferSize < 2 ^ 64) :
    (∀ taken buffer header, AtHead bufferSize taken buffer header →
      buffer.length ≤ bufferSize - 1 ∧
      (∀ chunk headerEnd, buffer.length + 1 < bufferSize →
        chunk.length ≤ bufferSize - buffer.length - 1 →
        serverFindHeaderEnd (buffer ++ chunk) = some headerEnd → headerEnd + 1 ≤ bufferSize ∧
        ∀ contentLength, readHeader bufferSize (buffer ++ chunk) header =
          .ok (some (headerEnd, contentLength)) → headerEnd + contentLength < 2 ^ 64) ∧
      ∀ headerEnd contentLength events read, header = some (headerEnd, contentLength) →
        Arrives bufferSize buffer.length events →
        serverReadHttpRequest bufferSize (taken ++ events) = some read →
        (∃ length, read = .ok length headerEnd contentLength) ∨
          read = .badRequest ∧ (.failed ∈ events ∨ .received [] ∈ events)) ∧
    ∀ events length bodyOffset bodyLength, Arrives bufferSize 0 events →
      serverReadHttpRequest bufferSize events = some (.ok length bodyOffset bodyLength) →
      ∃ received, received <+: (events.map Recv.chunk).flatten ∧
        length = received.length ∧ length ≤ bufferSize - 1 ∧ bodyOffset + bodyLength ≤ length ∧
        FirstBlankLine received bodyOffset := by
  constructor
  · intro taken buffer header hhead
    have hinv := hhead.invariant hpos
    refine ⟨Nat.le_sub_one_of_lt hinv.room, ?_, ?_⟩
    · intro chunk headerEnd hroom hfits hfound
      have hlength : (buffer ++ chunk).length + 1 ≤ bufferSize := by
        rw [List.length_append]
        omega
      refine ⟨Nat.le_trans (Nat.succ_le_succ (take_headerEnd hfound).1) hlength, ?_⟩
      intro contentLength hread
      have hbound := (readHeader_ok hlength hinv hread).2
      omega
    · rintro headerEnd contentLength events read rfl harrives h
      rw [hhead.run hpos] at h
      exact serverReadLoop_accepted hinv harrives h
  · intro events length bodyOffset bodyLength harrives h
    unfold serverReadHttpRequest at h
    rw [if_neg (Nat.ne_of_gt hpos)] at h
    have hstart : HeadInvariant bufferSize [] none := ⟨hpos, fun _ _ => nofun⟩
    obtain ⟨received, hprefix, hlength, hbound, hbody, hfirst⟩ :=
      serverReadLoop_ok hstart harrives h
    exact ⟨received, hprefix, hlength, Nat.le_sub_one_of_lt hbound, hbody, hfirst⟩

/-- A request that fills a buffer of 32 bytes. -/
theorem serverReadHttpRequest_bounds_full :
    let header := bytes "Content-Length: 8\r\n\r\n"
    let events := [.received header, .interrupted, .received (bytes "01234567ab")]
    serverReadHttpRequest 32 events = some (.ok 31 21 8) ∧
      ∃ received, received <+: (events.map Recv.chunk).flatten ∧
        31 = received.length ∧ 31 ≤ 32 - 1 ∧ 21 + 8 ≤ 31 ∧ FirstBlankLine received 21 := by
  intro header events
  have hread : serverReadHttpRequest 32 events = some (.ok 31 21 8) := by decide +kernel
  have harrives : Arrives 32 0 events := by
    refine ⟨?_, trivial, ?_, trivial⟩
    · show header.length ≤ 31
      decide
    · show (bytes "01234567ab").length ≤ 32 - header.length - 1
      decide
  exact ⟨hread,
    (serverReadHttpRequest_bounds (by decide) (by decide)).2 events 31 21 8 harrives hread⟩

end JungleDb
