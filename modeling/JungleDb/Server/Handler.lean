import Mathlib.Data.Nat.Digits.Defs
import JungleDb.Lib.Http
import JungleDb.Lib.Stdio
import JungleDb.Server.Bounds
import JungleDb.Server.Extract
import JungleDb.Server.Status

/-!
# Handling a client

`server_handle_client` with `server_send_all`, `server_send_response`, `server_send_json_error` and
`server_parse_request_line`. What `send` returns, call by call, is a list of events as for `recv`, and
where the events are used up the handler is still in the call. Whatever the client sends and however
the socket behaves, the bytes that it gets are the beginning of one HTTP response.
-/

namespace JungleDb

open CString

/-! ## Sending -/

/-- A call of `send`: EINTR, another error, or a socket with room for so many bytes. -/
inductive Send
  | interrupted
  | failed
  | takes (room : Nat)
  deriving DecidableEq, Repr

/-- A connection: the bytes that `send` has taken, and the calls of `send` still to come. -/
structure Socket where
  wire : Bytes
  sends : List Send

/-- `while (sent_total < length) { ... }`; no status where the loop is still in `send`. -/
def serverSendLoop (wire data : Bytes) (sentTotal : Nat) : List Send → Option Status × Socket
  | [] => (if sentTotal < data.length then none else some .success, ⟨wire, []⟩)
  | event :: sends =>
    if sentTotal < data.length then
      match event with
      | .interrupted => serverSendLoop wire data sentTotal sends
      | .failed => (some .failure, ⟨wire, sends⟩)
      | .takes room =>
        let sent := (data.drop sentTotal).take room
        if sent = [] then (some .failure, ⟨wire, sends⟩)
        else serverSendLoop (wire ++ sent) data (sentTotal + sent.length) sends
    else (some .success, ⟨wire, event :: sends⟩)

/-- `server_send_all` -/
def serverSendAll (socket : Socket) (data : Bytes) : Option Status × Socket :=
  serverSendLoop socket.wire data 0 socket.sends

/-- The header that `server_send_response` prints. -/
def responseHeader (statusCode : Nat) (reason : Bytes) (bodyLength : Nat) : Bytes :=
  bytes "HTTP/1.1 " ++ decimal statusCode ++ bytes " " ++ reason ++ bytes "\r\n" ++
    bytes "Content-Type: application/json\r\n" ++
    bytes "Content-Length: " ++ decimal bodyLength ++ bytes "\r\n" ++
    bytes "Connection: close\r\n" ++ bytes "\r\n"

/-- `server_send_response` -/
def serverSendResponse (socket : Socket) (statusCode : Nat) (reason body : Bytes) :
    Option Status × Socket :=
  let header := responseHeader statusCode reason body.length
  if 512 ≤ header.length then (some .failure, socket)
  else match serverSendAll socket header with
    | (some .success, socket) => serverSendAll socket body
    | sent => sent

/-- `server_send_json_error`; none where the body is none. -/
def serverSendJsonError (socket : Socket) (statusCode : Nat) (reason : Bytes)
    (error : CStr MESSAGE_LEN) : Option (Option Status × Socket) := do
  let body ← serverBuildJsonResponse (queryResultSetError queryResultInit error)
  some (serverSendResponse socket statusCode reason body)

/-! ## The request -/

/-- `%<width>s` of `sscanf`: the word behind white space, as far as it fits, and what is left. -/
def scanWord (width : Nat) (text : Bytes) : Option (Bytes × Bytes) :=
  let text := text.dropWhile isspace
  let word := (text.takeWhile fun c => !isspace c).take width
  if word = [] then none else some (word, text.drop word.length)

/-- `server_parse_request_line`: method and path. -/
def serverParseRequestLine (request : Bytes) (methodSize pathSize : Nat) :
    Option (Bytes × Bytes) := do
  let (method, rest) ← scanWord 15 request
  let (path, _) ← scanWord 127 rest
  if methodSize ≤ method.length ∨ pathSize ≤ path.length then none else some (method, path)

/-- `server_reason_phrase` -/
def serverReasonPhrase (statusCode : Nat) : Bytes :=
  match statusCode with
  | 200 => bytes "OK"
  | 400 => bytes "Bad Request"
  | 404 => bytes "Not Found"
  | 405 => bytes "Method Not Allowed"
  | 413 => bytes "Payload Too Large"
  | 503 => bytes "Service Unavailable"
  | _ => bytes "Internal Server Error"

abbrev SERVER_REQUEST_BUFFER_SIZE : Nat := 65536

/-- What a request leads to: an error response, or a call of the engine. -/
inductive ClientCall
  | reject (statusCode : Nat) (reason error : String)
  | execute (sql : Bytes)
  deriving DecidableEq, Repr

/-- `server_handle_client` from the route to the call of the engine, with the bytes in the buffer. -/
def serverRoute (buffer : Bytes) (bodyOffset bodyLength : Nat) : ClientCall :=
  match serverParseRequestLine (Stdio.cstring buffer) 16 128 with
  | none => .reject 400 "Bad Request" "Malformed request line."
  | some (method, path) =>
    if strcmp method (bytes "POST") ≠ 0 then
      .reject 405 "Method Not Allowed" "Only POST is supported."
    else if strcmp path (bytes "/query") ≠ 0 then
      .reject 404 "Not Found" "Only POST /query is supported."
    else if bodyLength = 0 then
      .reject 400 "Bad Request" "JSON body must contain a string field named sql."
    else match serverExtractSqlFromJson ((buffer.drop bodyOffset).take bodyLength)
        MAX_SQL_LENGTH with
      | .tooLong => .reject 413 "Payload Too Large" "SQL string is too long."
      | .invalid => .reject 400 "Bad Request" "JSON body must contain a string field named sql."
      | .ok sql _ => .execute (Stdio.cstring sql.text)

/-- The bytes that the calls of `recv` have stored, as many as there are. -/
def received (recvs : List Recv) (length : Nat) : Bytes :=
  (recvs.map Recv.chunk).flatten.take length

/-- `server_handle_client` up to the call of the engine; none where it is still in `recv`. -/
def serverClientCall (recvs : List Recv) : Option ClientCall :=
  (serverReadHttpRequest SERVER_REQUEST_BUFFER_SIZE recvs).map fun
    | .tooLarge => .reject 413 "Payload Too Large" "Request is too large."
    | .badRequest => .reject 400 "Bad Request" "Malformed HTTP request."
    | .ok length bodyOffset bodyLength =>
      serverRoute (received recvs length) bodyOffset bodyLength

/-- How far a handler is: the tables, the connection, and whether it has returned. -/
structure Handled where
  registry : Registry
  socket : Socket
  returned : Bool

/-- `server_handle_client`, where no allocation fails. -/
def serverHandleClient (registry : Registry) (recvs : List Recv) (socket : Socket) :
    Option Handled :=
  match serverClientCall recvs with
  | none => some ⟨registry, socket, false⟩
  | some (.reject statusCode reason error) => do
    let (status, socket) ← serverSendJsonError socket statusCode (bytes reason) (message error)
    some ⟨registry, socket, status.isSome⟩
  | some (.execute sql) => do
    let ((_, result), registry) ← engineExecuteSql registry sql
    let body ← serverBuildJsonResponse result
    let statusCode := serverStatusForResult (some result)
    let (status, socket) := serverSendResponse socket statusCode (serverReasonPhrase statusCode) body
    some ⟨registry, socket, status.isSome⟩

/-! ## What is put on the wire -/

/-- No call of `send` fails. -/
def Socket.Willing (socket : Socket) : Prop :=
  ∀ event ∈ socket.sends, event ≠ .failed ∧ event ≠ .takes 0

/-- The calls of `send` to come that take bytes. -/
def Socket.turns (socket : Socket) : Nat :=
  (socket.sends.filter fun event => event ≠ .interrupted).length

/-- From one state of the connection to the other the data is put on the wire, or a beginning of it
where the calls fail or go on. -/
structure Puts (socket : Socket) (data : Bytes) (status : Option Status) (socket' : Socket) :
    Prop where
  wire : ∃ sent, sent <+: data ∧ socket'.wire = socket.wire ++ sent ∧
    (status = some .success ↔ sent = data)
  waits : status = none → socket'.sends = []
  willing : socket.Willing → socket'.Willing ∧ status ≠ some .failure ∧
    socket.turns + socket.wire.length ≤ socket'.turns + socket'.wire.length

theorem Socket.Willing.tail {wire wire' : Bytes} {event : Send} {sends : List Send}
    (h : Socket.Willing ⟨wire, event :: sends⟩) : Socket.Willing ⟨wire', sends⟩ :=
  fun other hmem => h other (List.mem_cons_of_mem event hmem)

/-- Where the call ends without putting anything, nothing was left or a call of `send` failed. -/
theorem puts_nothing {socket socket' : Socket} {data : Bytes} {status : Status}
    (hwire : socket'.wire = socket.wire) (hwhole : status = .success ↔ data = [])
    (hwilling : socket.Willing → status = .success ∧ socket' = socket) :
    Puts socket data (some status) socket' := by
  refine ⟨⟨[], List.nil_prefix, ?_, ?_⟩, fun h => absurd h (Option.some_ne_none _), fun h => ?_⟩
  · rw [hwire, List.append_nil]
  · rw [Option.some.injEq, hwhole, eq_comm]
  · obtain ⟨rfl, rfl⟩ := hwilling h
    exact ⟨h, fun heq => absurd (Option.some.inj heq) (by decide), Nat.le_refl _⟩

theorem serverSendLoop_puts {data : Bytes} {sentTotal : Nat} (hle : sentTotal ≤ data.length)
    (wire : Bytes) (sends : List Send) :
    Puts ⟨wire, sends⟩ (data.drop sentTotal) (serverSendLoop wire data sentTotal sends).1
      (serverSendLoop wire data sentTotal sends).2 := by
  -- the induction is on the events; each call that takes bytes moves them from the data to the wire
  induction sends generalizing wire sentTotal with
  | nil =>
    rw [serverSendLoop]
    by_cases hlt : sentTotal < data.length
    · have hrest : [] ≠ data.drop sentTotal := fun heq =>
        absurd (List.drop_eq_nil_iff.mp heq.symm) (by omega)
      rw [if_pos hlt]
      refine ⟨⟨[], List.nil_prefix, (List.append_nil wire).symm, ?_⟩, fun _ => rfl, fun h => ?_⟩
      · exact iff_of_false (Option.some_ne_none _).symm hrest
      · exact ⟨h, (Option.some_ne_none _).symm, Nat.le_refl _⟩
    · rw [if_neg hlt]
      have hdone : data.drop sentTotal = [] := List.drop_of_length_le (Nat.le_of_not_lt hlt)
      exact puts_nothing rfl (iff_of_true rfl hdone) fun _ => ⟨rfl, rfl⟩
  | cons event sends ih =>
    rw [serverSendLoop.eq_def]
    simp only
    by_cases hlt : sentTotal < data.length
    · have hrest : data.drop sentTotal ≠ [] := fun heq =>
        absurd (List.drop_eq_nil_iff.mp heq) (by omega)
      rw [if_pos hlt]
      cases event with
      | interrupted =>
        obtain ⟨hwire, hwaits, hwilling⟩ := ih hle wire
        exact ⟨hwire, hwaits, fun h => hwilling h.tail⟩
      | failed =>
        exact puts_nothing rfl (iff_of_false Status.noConfusion hrest) fun h =>
          absurd rfl (h .failed List.mem_cons_self).1
      | takes room =>
        simp only
        by_cases hzero : (data.drop sentTotal).take room = []
        · rw [if_pos hzero]
          have hroom : room = 0 := (List.take_eq_nil_iff.mp hzero).resolve_right hrest
          exact puts_nothing rfl (iff_of_false Status.noConfusion hrest) fun h =>
            absurd (congrArg Send.takes hroom) (h (.takes room) List.mem_cons_self).2
        · rw [if_neg hzero]
          generalize hsent : (data.drop sentTotal).take room = sent at hzero
          have hpos := List.length_pos_iff.mpr hzero
          have hsplit : data.drop sentTotal = sent ++ data.drop (sentTotal + sent.length) := by
            rw [← List.drop_drop, ← hsent]
            exact (List.prefix_iff_eq_append.mp (List.take_prefix room _)).symm
          have hlength := congrArg List.length hsplit
          rw [List.length_append, List.length_drop, List.length_drop] at hlength
          have hmore : sentTotal + sent.length ≤ data.length := by omega
          obtain ⟨⟨more, hprefix, hwire, hwhole⟩, hwaits, hwilling⟩ := ih hmore (wire ++ sent)
          refine ⟨⟨sent ++ more, ?_, ?_, ?_⟩, hwaits, fun h => ?_⟩
          · rw [hsplit]
            exact (List.prefix_append_right_inj sent).mpr hprefix
          · rw [hwire, List.append_assoc]
          · rw [hwhole, hsplit, List.append_cancel_left_eq]
          · obtain ⟨hthen, hstatus, hturns⟩ := hwilling h.tail
            refine ⟨hthen, hstatus, Nat.le_trans ?_ hturns⟩
            have hone : Socket.turns ⟨wire, .takes room :: sends⟩ =
                Socket.turns ⟨wire ++ sent, sends⟩ + 1 := rfl
            rw [hone]
            show _ + 1 + wire.length ≤ _ + (wire ++ sent).length
            rw [List.length_append]
            omega
    · rw [if_neg hlt]
      have hdone : data.drop sentTotal = [] := List.drop_of_length_le (Nat.le_of_not_lt hlt)
      exact puts_nothing rfl (iff_of_true rfl hdone) fun _ => ⟨rfl, rfl⟩

theorem serverSendAll_puts (socket : Socket) (data : Bytes) :
    Puts socket data (serverSendAll socket data).1 (serverSendAll socket data).2 :=
  serverSendLoop_puts (Nat.zero_le _) socket.wire socket.sends

section Puts

variable {socket socket' socket'' : Socket} {first second : Bytes} {status : Option Status}

/-- Data is put behind data. -/
theorem Puts.append (h : Puts socket first (some .success) socket')
    (h' : Puts socket' second status socket'') : Puts socket (first ++ second) status socket'' := by
  obtain ⟨sent, -, hwire, hwhole⟩ := h.wire
  obtain ⟨sent', hprefix, hwire', hwhole'⟩ := h'.wire
  obtain rfl := hwhole.mp rfl
  refine ⟨⟨sent ++ sent', ?_, ?_, ?_⟩, h'.waits, fun hwilling => ?_⟩
  · exact (List.prefix_append_right_inj sent).mpr hprefix
  · rw [hwire', hwire, List.append_assoc]
  · rw [hwhole', List.append_cancel_left_eq]
  · obtain ⟨hthen, -, hturns⟩ := h.willing hwilling
    obtain ⟨hlast, hstatus, hturns'⟩ := h'.willing hthen
    exact ⟨hlast, hstatus, Nat.le_trans hturns hturns'⟩

/-- Where the first data is not put, none of the second is. -/
theorem Puts.short (h : Puts socket first status socket') (hstatus : status ≠ some .success)
    (second : Bytes) : Puts socket (first ++ second) status socket' := by
  obtain ⟨sent, hprefix, hwire, hwhole⟩ := h.wire
  refine ⟨⟨sent, hprefix.trans (List.prefix_append first second), hwire, ?_⟩, h.waits, h.willing⟩
  refine iff_of_false hstatus ?_
  rintro rfl
  have hnil : second = [] := by
    have hle := hprefix.length_le
    rw [List.length_append] at hle
    exact List.length_eq_zero_iff.mp (by omega)
  rw [hnil, List.append_nil] at hwhole
  exact hstatus (hwhole.mpr rfl)

/-- With calls of `send` enough all the data is put. -/
theorem Puts.whole (h : Puts socket first status socket') (hwilling : socket.Willing)
    (henough : first.length ≤ socket.turns) : status = some .success := by
  obtain ⟨sent, hbegins, hwire, hwhole⟩ := h.wire
  obtain ⟨-, hstatus, hturns⟩ := h.willing hwilling
  cases status with
  | some status =>
    cases status with
    | success => rfl
    | failure => exact absurd rfl hstatus
  | none =>
    have hempty : socket'.turns = 0 := by rw [Socket.turns, h.waits rfl]; rfl
    rw [hempty, hwire, List.length_append] at hturns
    have hlength : first.length ≤ sent.length := by omega
    exact hwhole.mpr (hbegins.eq_of_length_le hlength)

end Puts

/-! ## A response as a message -/

theorem inline_of_isdigit {c : UInt8} (h : isdigit c = true) : Http.Inline c := by
  constructor
  · rintro rfl
    cases h
  · rintro rfl
    cases h

theorem inline_serverReasonPhrase (statusCode : Nat) :
    ∀ c ∈ serverReasonPhrase statusCode, Http.Inline c := by
  unfold serverReasonPhrase
  split <;> decide +kernel

/-- `Content-Length: %zu`. -/
def lengthField (n : Nat) : Http.Field where
  name := bytes "Content-Length"
  value := decimal n
  named := List.cons_ne_nil _ _
  inName := by decide +kernel
  inValue := fun c hc => inline_of_isdigit (isdigit_of_mem_decimal n c hc)
  trimmed := by
    have hblank : ∀ c, isdigit c = true → Http.blank c = true → False := by
      intro c hdigit hblank
      rw [Http.blank, Bool.or_eq_true, beq_iff_eq, beq_iff_eq] at hblank
      rcases hblank with rfl | rfl <;> cases hdigit
    have hnone : ∀ text : Bytes, (∀ c ∈ text, isdigit c = true) →
        text.dropWhile Http.blank = text := by
      intro text htext
      cases text with
      | nil => rfl
      | cons c text =>
        exact List.dropWhile_cons_of_neg fun hc => hblank c (htext c List.mem_cons_self) hc
    have hdigits := isdigit_of_mem_decimal n
    rw [Http.trim, hnone _ hdigits, hnone _ fun c hc => hdigits c (List.mem_reverse.mp hc),
      List.reverse_reverse]

def contentTypeField : Http.Field where
  name := bytes "Content-Type"
  value := bytes "application/json"
  named := List.cons_ne_nil _ _
  inName := by decide +kernel
  inValue := by decide +kernel
  trimmed := by decide +kernel

def connectionField : Http.Field where
  name := bytes "Connection"
  value := bytes "close"
  named := List.cons_ne_nil _ _
  inName := by decide +kernel
  inValue := by decide +kernel
  trimmed := by decide +kernel

/-- `HTTP/1.1 %d %s`. -/
def statusLine (statusCode : Nat) : Bytes :=
  bytes "HTTP/1.1 " ++ (decimal statusCode ++ ch ' ' :: serverReasonPhrase statusCode)

theorem inline_statusLine (statusCode : Nat) : ∀ c ∈ statusLine statusCode, Http.Inline c := by
  intro c hc
  rw [statusLine, List.mem_append, List.mem_append, List.mem_cons] at hc
  rcases hc with hc | hc | rfl | hc
  · have hversion : ∀ c ∈ bytes "HTTP/1.1 ", Http.Inline c := by decide +kernel
    exact hversion c hc
  · exact inline_of_isdigit (isdigit_of_mem_decimal statusCode c hc)
  · decide
  · exact inline_serverReasonPhrase statusCode c hc

/-- The message that `server_send_response` sends with the phrase of the status. -/
def responseMessage (statusCode : Nat) (body : Bytes) : Http.Message where
  start := statusLine statusCode
  fields := [contentTypeField, lengthField body.length, connectionField]
  body := body
  started := List.cons_ne_nil _ _
  inStart := inline_statusLine statusCode
  framed := by
    have hlength : Http.IsLength (bytes "Content-Length") := by decide
    have htype : ¬ Http.IsLength (bytes "Content-Type") := by decide
    have hconnection : ¬ Http.IsLength (bytes "Connection") := by decide
    simp only [Http.lengths, List.map_cons, List.map_nil, Http.Field.pair, contentTypeField,
      lengthField, connectionField, List.filter_cons, hlength, htype, hconnection, decide_true,
      decide_false, Bool.false_eq_true, if_true, if_false, List.filter_nil]

theorem responseMessage_bytes (statusCode : Nat) (body : Bytes) :
    (responseMessage statusCode body).bytes =
      responseHeader statusCode (serverReasonPhrase statusCode) body.length ++ body := by
  have htype : bytes "Content-Type: application/json\r\n" = contentTypeField.line ++ Http.lineEnd := by
    decide +kernel
  have hconnection : bytes "Connection: close\r\n" = connectionField.line ++ Http.lineEnd := by
    decide +kernel
  have hlength : bytes "Content-Length: " ++ decimal body.length =
      (lengthField body.length).line := by
    rfl
  have hend : bytes "\r\n" = Http.lineEnd := rfl
  have hspace : bytes " " = [ch ' '] := rfl
  simp only [responseHeader, htype, hconnection, hend, hspace, Http.Message.bytes, Http.headBytes,
    Http.Message.lines, responseMessage, statusLine, ← hlength, List.flatMap_cons, List.flatMap_nil,
    List.map_cons, List.map_nil, List.append_assoc, List.cons_append, List.nil_append,
    List.append_nil]

theorem length_decimal_le {n e : Nat} (hpos : 0 < e) (h : n < 10 ^ e) : (decimal n).length ≤ e := by
  rw [decimal, List.length_map]
  exact Nat.toDigits_length 10 n e hpos h

theorem length_serverReasonPhrase (statusCode : Nat) :
    (serverReasonPhrase statusCode).length ≤ 21 := by
  unfold serverReasonPhrase
  split <;> decide

/-- The header of a status fits its array, with any length that a `size_t` can have. -/
theorem length_responseHeader {statusCode bodyLength : Nat} (hcode : statusCode < 1000)
    (hbody : bodyLength < 2 ^ 64) :
    (responseHeader statusCode (serverReasonPhrase statusCode) bodyLength).length < 512 := by
  have hstatus := length_decimal_le (n := statusCode) (e := 3) (by decide) hcode
  have hlength := length_decimal_le (n := bodyLength) (e := 20) (by decide) (by omega)
  have hreason := length_serverReasonPhrase statusCode
  have hversion : (bytes "HTTP/1.1 ").length = 9 := by decide
  have hspace : (bytes " ").length = 1 := by decide
  have hend : (bytes "\r\n").length = 2 := by decide
  have htype : (bytes "Content-Type: application/json\r\n").length = 32 := by decide
  have hname : (bytes "Content-Length: ").length = 16 := by decide
  have hconnection : (bytes "Connection: close\r\n").length = 19 := by decide
  simp only [responseHeader, List.length_append, hversion, hspace, hend, htype, hname, hconnection]
  omega

section Response

variable {statusCode : Nat} {body : Bytes}

/-- The response is put on the wire. -/
theorem serverSendResponse_puts (socket : Socket)
    (hshort : (responseHeader statusCode (serverReasonPhrase statusCode) body.length).length < 512) :
    Puts socket (responseMessage statusCode body).bytes
      (serverSendResponse socket statusCode (serverReasonPhrase statusCode) body).1
      (serverSendResponse socket statusCode (serverReasonPhrase statusCode) body).2 := by
  have hheader := serverSendAll_puts socket
    (responseHeader statusCode (serverReasonPhrase statusCode) body.length)
  rw [responseMessage_bytes]
  unfold serverSendResponse
  simp only
  rw [if_neg (Nat.not_le_of_lt hshort)]
  generalize hsent : serverSendAll socket _ = sent at hheader
  obtain ⟨status, socket'⟩ := sent
  by_cases hstatus : status = some .success
  · subst hstatus
    exact hheader.append (serverSendAll_puts socket' body)
  · have hshorter := hheader.short hstatus body
    rcases status with _ | ⟨_ | _⟩
    · exact hshorter
    · exact absurd rfl hstatus
    · exact hshorter

/-- Whatever the lengths, the wire has a beginning of the response behind what it had. -/
theorem serverSendResponse_prefix (socket : Socket) (statusCode : Nat) (body : Bytes) :
    ∃ sent, sent <+: (responseMessage statusCode body).bytes ∧
      (serverSendResponse socket statusCode (serverReasonPhrase statusCode) body).2.wire =
        socket.wire ++ sent := by
  by_cases hshort :
    (responseHeader statusCode (serverReasonPhrase statusCode) body.length).length < 512
  · obtain ⟨⟨sent, hprefix, hwire, -⟩, -, -⟩ := serverSendResponse_puts socket hshort
    exact ⟨sent, hprefix, hwire⟩
  · refine ⟨[], List.nil_prefix, ?_⟩
    unfold serverSendResponse
    simp only
    rw [if_pos (Nat.le_of_not_lt hshort), List.append_nil]

end Response

/-! ## The handler -/

/-- What a call is answered with: the status code and the result, and the tables behind it. -/
def clientAnswer (registry : Registry) : ClientCall → Option ((Nat × QueryResult) × Registry)
  | .reject statusCode _ error =>
    some ((statusCode, queryResultSetError queryResultInit (message error)), registry)
  | .execute sql => (engineExecuteSql registry sql).map fun ((_, result), registry) =>
      ((serverStatusForResult (some result), result), registry)

/-- The status codes of the handler. -/
def clientStatusCodes : List Nat := [200, 400, 404, 405, 413]

/-- A rejection has the phrase of its code. -/
def ClientCall.Phrased : ClientCall → Prop
  | .reject statusCode reason _ =>
    statusCode ∈ clientStatusCodes ∧ bytes reason = serverReasonPhrase statusCode
  | .execute _ => True

theorem serverRoute_phrased (buffer : Bytes) (bodyOffset bodyLength : Nat) :
    (serverRoute buffer bodyOffset bodyLength).Phrased := by
  unfold serverRoute
  split
  · exact ⟨by decide, rfl⟩
  split
  · exact ⟨by decide, rfl⟩
  split
  · exact ⟨by decide, rfl⟩
  split
  · exact ⟨by decide, rfl⟩
  split
  · exact ⟨by decide, rfl⟩
  · exact ⟨by decide, rfl⟩
  · trivial

theorem serverClientCall_phrased {recvs : List Recv} {call : ClientCall}
    (h : serverClientCall recvs = some call) : call.Phrased := by
  obtain ⟨read, -, rfl⟩ := Option.map_eq_some_iff.mp h
  cases read with
  | tooLarge => exact ⟨by decide, rfl⟩
  | badRequest => exact ⟨by decide, rfl⟩
  | ok length bodyOffset bodyLength => exact serverRoute_phrased _ _ _

theorem serverStatusForResult_mem (result : QueryResult) :
    serverStatusForResult (some result) ∈ clientStatusCodes := by
  unfold serverStatusForResult
  simp only
  split
  · decide
  split
  · decide
  · decide

/-- A call is answered in every registry that the engine reaches, and the handler sends the answer. -/
theorem serverHandleClient_eq {registry : Registry} (hreach : EngineReachable registry)
    {recvs : List Recv} {call : ClientCall} (hcall : serverClientCall recvs = some call)
    (socket : Socket) :
    ∃ statusCode result registry' body,
      clientAnswer registry call = some ((statusCode, result), registry') ∧
      EngineReachable registry' ∧ statusCode ∈ clientStatusCodes ∧
      serverBuildJsonResponse result = some body ∧
      Json.parse body = some (responseValue result) ∧
      ∀ status socket', serverSendResponse socket statusCode (serverReasonPhrase statusCode) body =
        (status, socket') →
        serverHandleClient registry recvs socket = some ⟨registry', socket', status.isSome⟩ := by
  have hphrased := serverClientCall_phrased hcall
  unfold serverHandleClient
  rw [hcall]
  cases call with
  | reject statusCode reason error =>
    obtain ⟨hcode, hreason⟩ := hphrased
    have hwell := queryResultSetError_wellFormed queryResultInit (message error)
    obtain ⟨body, hbody, htext⟩ := serverBuildJsonResponse_isText hwell
    refine ⟨statusCode, _, registry, body, rfl, hreach, hcode, hbody, Json.parse_of_isText htext, ?_⟩
    intro status socket' hsend
    simp only [serverSendJsonError, hbody, hreason, hsend, Option.bind_eq_bind, Option.bind_some]
  | execute sql =>
    obtain ⟨db, hdb⟩ := hreach.holds
    obtain ⟨registry', hrun, -⟩ := engine_simulates hdb sql
    have hproduced : Produced (db.execSql sql).1.2 := .engine hreach hrun
    obtain ⟨body, hbody, htext⟩ := serverBuildJsonResponse_isText hproduced.wellFormed
    refine ⟨serverStatusForResult (some (db.execSql sql).1.2), (db.execSql sql).1.2, registry', body,
      ?_, .step hreach hrun, serverStatusForResult_mem _, hbody, Json.parse_of_isText htext, ?_⟩
    · simp only [clientAnswer, hrun, Option.map_some]
    · intro status socket' hsend
      simp only [hrun, hbody, hsend, Option.bind_eq_bind, Option.bind_some]

/-- What a recipient sees of the wire: the whole response, and nothing behind it, or no message. -/
theorem readMessage_of_begins {m : Http.Message} {wire : Bytes} (h : wire <+: m.bytes)
    {parts : Http.Parts} {rest : Bytes} (hread : Http.readMessage wire = some (parts, rest)) :
    wire = m.bytes ∧ parts = (m.start, m.fields.map Http.Field.pair, m.body) ∧ rest = [] := by
  by_cases hwhole : wire = m.bytes
  · have hmessage := Http.readMessage_bytes m []
    rw [List.append_nil, ← hwhole, hread, Option.some.injEq, Prod.mk.injEq] at hmessage
    exact ⟨hwhole, hmessage⟩
  · rw [Http.readMessage_prefix h hwhole] at hread
    cases hread

/-- The wire of a handler that is behind `recv` has a beginning of one response, and all of it once
calls of `send` enough have taken bytes. -/
structure Answers (handled : Handled) (sends : List Send) (statusCode : Nat) (result : QueryResult)
    (body : Bytes) : Prop where
  code : statusCode ∈ clientStatusCodes
  json : Json.parse body = some (responseValue result)
  wire : handled.socket.wire <+: (responseMessage statusCode body).bytes
  whole : body.length < 2 ^ 64 → (∀ event ∈ sends, event ≠ .failed ∧ event ≠ .takes 0) →
    (responseMessage statusCode body).bytes.length ≤
      (sends.filter fun event => event ≠ .interrupted).length →
    handled.socket.wire = (responseMessage statusCode body).bytes ∧ handled.returned = true

theorem serverHandleClient_answers {registry : Registry} (hreach : EngineReachable registry)
    {recvs : List Recv} {call : ClientCall} (hcall : serverClientCall recvs = some call)
    (sends : List Send) :
    ∃ handled statusCode result body,
      serverHandleClient registry recvs ⟨[], sends⟩ = some handled ∧
      EngineReachable handled.registry ∧
      clientAnswer registry call = some ((statusCode, result), handled.registry) ∧
      serverBuildJsonResponse result = some body ∧
      Answers handled sends statusCode result body := by
  obtain ⟨statusCode, result, registry', body, hanswer, hreach', hcode, hbuild, hparse, hhandle⟩ :=
    serverHandleClient_eq hreach hcall ⟨[], sends⟩
  obtain ⟨⟨status, socket'⟩, hsend⟩ : ∃ sent, serverSendResponse ⟨[], sends⟩ statusCode
    (serverReasonPhrase statusCode) body = sent := ⟨_, rfl⟩
  refine ⟨_, statusCode, result, body, hhandle status socket' hsend, hreach', hanswer, hbuild, hcode,
    hparse, ?_, ?_⟩
  · obtain ⟨sent, hprefix, hwire⟩ := serverSendResponse_prefix ⟨[], sends⟩ statusCode body
    rw [hsend, List.nil_append] at hwire
    subst hwire
    exact hprefix
  · intro hbody hwilling henough
    have hthousand : ∀ code ∈ clientStatusCodes, code < 1000 := by decide
    have hputs := serverSendResponse_puts ⟨[], sends⟩
      (length_responseHeader (hthousand statusCode hcode) hbody)
    rw [hsend] at hputs
    obtain rfl : status = some .success := hputs.whole hwilling henough
    obtain ⟨sent, -, hwire, hwhole⟩ := hputs.wire
    rw [List.nil_append, hwhole.mp rfl] at hwire
    exact ⟨hwire, rfl⟩

/-- Whatever the calls of `recv` and `send` return, and at any moment: before the request is read the
wire is empty and the tables are as they were; behind it the call is answered once, and the wire is a
beginning of the one response with this answer. A recipient makes no other message of it than this
response, and gets it whole if no call of `send` fails. -/
theorem serverHandleClient_response {registry : Registry} (hreach : EngineReachable registry)
    (recvs : List Recv) (sends : List Send) :
    ∃ handled, serverHandleClient registry recvs ⟨[], sends⟩ = some handled ∧
      EngineReachable handled.registry ∧
      (serverClientCall recvs = none → handled = ⟨registry, ⟨[], sends⟩, false⟩) ∧
      ∀ call, serverClientCall recvs = some call →
        ∃ statusCode result body,
          clientAnswer registry call = some ((statusCode, result), handled.registry) ∧
          Answers handled sends statusCode result body ∧
          ∀ parts rest, Http.readMessage handled.socket.wire = some (parts, rest) →
            parts = (statusLine statusCode, (responseMessage statusCode body).fields.map
              Http.Field.pair, body) ∧ rest = [] := by
  cases hcall : serverClientCall recvs with
  | none =>
    refine ⟨⟨registry, ⟨[], sends⟩, false⟩, ?_, hreach, fun _ => rfl, ?_⟩
    · unfold serverHandleClient
      rw [hcall]
    · intro call h
      cases h
  | some call =>
    obtain ⟨handled, statusCode, result, body, hhandle, hreach', hanswer, -, hanswers⟩ :=
      serverHandleClient_answers hreach hcall sends
    refine ⟨handled, hhandle, hreach', fun h => absurd h (Option.some_ne_none call), ?_⟩
    intro call' h
    obtain rfl := Option.some.inj h
    exact ⟨statusCode, result, body, hanswer, hanswers, fun parts rest hread =>
      (readMessage_of_begins hanswers.wire hread).2⟩

/-- A SELECT on a missing table. -/
def missingRecvs : List Recv :=
  [.received (bytes "POST /query HTTP/1.1\r\nContent-Length: 26\r\n\r\n"), .interrupted,
    .received (bytes "\x7b\"sql\":\"SELECT * FROM t;\"\x7d")]

/-- Seven bytes of its response are taken, then the connection breaks; the client has no message. -/
theorem serverHandleClient_response_cut :
    ∃ handled body,
      serverHandleClient [] missingRecvs ⟨[], [.takes 7, .interrupted, .failed]⟩ = some handled ∧
      handled.socket.wire = bytes "HTTP/1." ∧ handled.returned = true ∧
      Answers handled [.takes 7, .interrupted, .failed] 404 (notFound (bytes "t")).2 body ∧
      Http.readMessage handled.socket.wire = none := by
  have hcall : serverClientCall missingRecvs = some (.execute (bytes "SELECT * FROM t;")) := by
    decide +kernel
  have hrun : (serverHandleClient [] missingRecvs ⟨[], [.takes 7, .interrupted, .failed]⟩).map
      (fun handled => (handled.socket.wire, handled.returned)) = some (bytes "HTTP/1.", true) := by
    decide +kernel
  have hreply : (clientAnswer [] (.execute (bytes "SELECT * FROM t;"))).map Prod.fst =
      some (404, (notFound (bytes "t")).2) := by
    decide +kernel
  obtain ⟨handled, hhandle, -, -, hanswers⟩ :=
    serverHandleClient_response .start missingRecvs [.takes 7, .interrupted, .failed]
  obtain ⟨statusCode, result, body, hanswer, hall, -⟩ := hanswers _ hcall
  rw [hanswer, Option.map_some, Option.some.injEq, Prod.mk.injEq] at hreply
  obtain ⟨rfl, rfl⟩ := hreply
  rw [hhandle, Option.map_some, Option.some.injEq, Prod.mk.injEq] at hrun
  refine ⟨handled, body, hhandle, hrun.1, hrun.2, hall, ?_⟩
  rw [hrun.1]
  decide +kernel

end JungleDb
