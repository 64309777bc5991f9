import JungleDb.Server.Bounds
import JungleDb.Server.ContentLength

/-!
# Complete requests

When `server_read_http_request` comes back with OK, said of the bytes that arrive: as soon as the first
blank line has come a content length has to stand in front of it that leaves room in the buffer, and the
connection has to last until as many bytes have come behind the blank line.
-/

namespace JungleDb

open CString

/-! ## What has to arrive -/

/-- The bytes that have come as soon as there are `n` of them, behind those in the buffer; none where
the connection fails or is closed before. -/
def arrivedBy (n : Nat) (buffer : Bytes) : List Recv → Option Bytes
  | [] => if n ≤ buffer.length then some buffer else none
  | event :: events =>
    if n ≤ buffer.length then some buffer
    else if event = .failed ∨ event = .received [] then none
    else arrivedBy n (buffer ++ event.chunk) events

/-- The text begins with the number: white space, an optional sign and digits, in the range of a `long`
and not negative. -/
def BeginsWith (text : Bytes) (n : Nat) : Prop :=
  ∃ space sign digits rest, text = space ++ (sign ++ (digits ++ rest)) ∧
    (∀ c ∈ space, isspace c = true) ∧ IsSign sign ∧
    digits ≠ [] ∧ (∀ c ∈ digits, isdigit c = true) ∧ (∀ c ∈ rest.head?, isdigit c = false) ∧
    digitsValue digits = n ∧ if sign = [ch '-'] then n = 0 else (n : Int) ≤ LLONG_MAX

/-- The length that a header gives the body: 0, or the number that the value of the first line named
Content-Length begins with. The bytes that came with the header follow a value that is blank. -/
def GivesLength (header more : Bytes) (n : Nat) : Prop :=
  match firstLength (headerLines header) with
  | none => n = 0
  | some (value, after) => BeginsWith (value ++ (lineEnd ++ (joinLines after ++ more))) n

/-- A request for a buffer of this size arrives: its header ends with the first blank line, the length
that it gives the body leaves room for the NUL, and the bytes of the body come. -/
structure Completes (bufferSize : Nat) (recvs : List Recv) (request : Bytes)
    (bodyOffset bodyLength : Nat) : Prop where
  head : FirstBlankLine request bodyOffset
  length : ∃ headed, arrivedBy bodyOffset [] recvs = some headed ∧
    GivesLength (headed.take bodyOffset) (headed.drop bodyOffset) bodyLength
  room : bodyOffset + bodyLength < bufferSize
  whole : arrivedBy (bodyOffset + bodyLength) [] recvs = some request

/-! ## Lengths -/

theorem parsedLength_eq_some {text : Bytes} {n : Nat} :
    parsedLength text = some n ↔ BeginsWith text n := by
  constructor
  · intro h
    have hreads := parsedLength_isSome.mp (Option.isSome_iff_exists.mpr ⟨n, h⟩)
    obtain ⟨space, sign, digits, rest, rfl, hspace, hsign, hne, hdigits, hrest, -⟩ := hreads
    refine ⟨space, sign, digits, rest, rfl, hspace, hsign, hne, hdigits, hrest, ?_⟩
    rw [parsedLength_space hspace, parsedLength_number hsign hne hdigits hrest] at h
    by_cases hminus : sign = [ch '-']
    · rw [if_pos hminus] at h ⊢
      obtain ⟨hzero, hn⟩ := Option.ite_none_right_eq_some.mp h
      cases hn
      exact ⟨hzero, rfl⟩
    · rw [if_neg hminus] at h ⊢
      obtain ⟨hle, hn⟩ := Option.ite_none_right_eq_some.mp h
      cases hn
      exact ⟨rfl, hle⟩
  · rintro ⟨space, sign, digits, rest, rfl, hspace, hsign, hne, hdigits, hrest, rfl, hvalue⟩
    rw [parsedLength_space hspace, parsedLength_number hsign hne hdigits hrest]
    by_cases hminus : sign = [ch '-']
    · rw [if_pos hminus] at hvalue ⊢
      rw [if_pos hvalue, hvalue]
    · rw [if_neg hminus] at hvalue ⊢
      rw [if_pos hvalue]

theorem serverParseContentLength_gives {header : Bytes} (h : Ended header) (more : Bytes) {n : Nat} :
    serverParseContentLength (header ++ more) header.length = some n ↔
      GivesLength header more n := by
  rw [serverParseContentLength_lines h, GivesLength]
  cases firstLength (headerLines header) with
  | none =>
    rw [Option.some.injEq]
    exact eq_comm
  | some found => exact parsedLength_eq_some

/-- A value of digits gives the length that it declares, whatever is behind it. -/
theorem givesLength_declares {header more : Bytes} {n : Nat}
    (h : ∀ value after, firstLength (headerLines header) = some (value, after) → IsDigits value) :
    GivesLength header more n ↔ Declares header n := by
  unfold GivesLength Declares
  cases hfirst : firstLength (headerLines header) with
  | none => exact Iff.rfl
  | some found =>
    obtain ⟨value, after⟩ := found
    have hdigits := h value after hfirst
    simp only
    rw [← parsedLength_eq_some, parsedLength_isDigits hdigits, Option.ite_none_right_eq_some,
      Option.some.injEq]
    constructor
    · rintro ⟨hle, rfl⟩
      exact ⟨hdigits, rfl, hle⟩
    · rintro ⟨-, rfl, hle⟩
      exact ⟨hle, rfl⟩

/-! ## Bytes that have come -/

section Arrived

variable {n m : Nat} {buffer got more : Bytes} {event : Recv} {events : List Recv}

theorem arrivedBy_of_le (h : n ≤ buffer.length) (events : List Recv) :
    arrivedBy n buffer events = some buffer := by
  cases events with
  | nil => exact if_pos h
  | cons event events => exact if_pos h

theorem arrivedBy_ended (h : ¬ n ≤ buffer.length) (hend : event = .failed ∨ event = .received []) :
    arrivedBy n buffer (event :: events) = none := by
  rw [arrivedBy, if_neg h, if_pos hend]

theorem arrivedBy_more (h : ¬ n ≤ buffer.length)
    (hmore : ¬ (event = .failed ∨ event = .received [])) :
    arrivedBy n buffer (event :: events) = arrivedBy n (buffer ++ event.chunk) events := by
  rw [arrivedBy, if_neg h, if_neg hmore]

theorem arrivedBy_interrupted (n : Nat) (buffer : Bytes) (events : List Recv) :
    arrivedBy n buffer (.interrupted :: events) = arrivedBy n buffer events := by
  by_cases h : n ≤ buffer.length
  · rw [arrivedBy_of_le h, arrivedBy_of_le h]
  · rw [arrivedBy_more h (by simp)]
    exact congrArg (arrivedBy n · events) (List.append_nil buffer)

theorem arrivedBy_grows (h : arrivedBy n buffer events = some got) :
    buffer <+: got ∧ n ≤ got.length := by
  induction events generalizing buffer with
  | nil =>
    obtain ⟨hle, rfl⟩ := Option.ite_none_right_eq_some.mp h |>.imp_right Option.some.inj
    exact ⟨List.prefix_refl _, hle⟩
  | cons event events ih =>
    by_cases hle : n ≤ buffer.length
    · rw [arrivedBy_of_le hle] at h
      cases h
      exact ⟨List.prefix_refl _, hle⟩
    by_cases hend : event = .failed ∨ event = .received []
    · rw [arrivedBy_ended hle hend] at h
      cases h
    · rw [arrivedBy_more hle hend] at h
      obtain ⟨hstart, hlength⟩ := ih h
      exact ⟨(List.prefix_append _ _).trans hstart, hlength⟩

/-- All that has come is what the calls of `recv` delivered. -/
theorem arrivedBy_received (h : arrivedBy n buffer events = some got) :
    got <+: buffer ++ (events.map Recv.chunk).flatten := by
  induction events generalizing buffer with
  | nil =>
    obtain ⟨-, rfl⟩ := Option.ite_none_right_eq_some.mp h |>.imp_right Option.some.inj
    exact List.prefix_append _ _
  | cons event events ih =>
    by_cases hle : n ≤ buffer.length
    · rw [arrivedBy_of_le hle] at h
      cases h
      exact List.prefix_append _ _
    by_cases hend : event = .failed ∨ event = .received []
    · rw [arrivedBy_ended hle hend] at h
      cases h
    · rw [arrivedBy_more hle hend] at h
      rw [List.map_cons, List.flatten_cons, ← List.append_assoc]
      exact ih h

/-- Fewer bytes have come before. -/
theorem arrivedBy_mono (hnm : n ≤ m) (h : arrivedBy m buffer events = some more) :
    ∃ got, arrivedBy n buffer events = some got ∧ got <+: more := by
  induction events generalizing buffer with
  | nil =>
    obtain ⟨hle, rfl⟩ := Option.ite_none_right_eq_some.mp h |>.imp_right Option.some.inj
    exact ⟨buffer, if_pos (hnm.trans hle), List.prefix_refl _⟩
  | cons event events ih =>
    by_cases hle : n ≤ buffer.length
    · exact ⟨buffer, arrivedBy_of_le hle _, (arrivedBy_grows h).1⟩
    have hmore : ¬ m ≤ buffer.length := fun hm => hle (hnm.trans hm)
    by_cases hend : event = .failed ∨ event = .received []
    · rw [arrivedBy_ended hmore hend] at h
      cases h
    · rw [arrivedBy_more hmore hend] at h
      rw [arrivedBy_more hle hend]
      exact ih h

/-- Nothing more comes into a full buffer. -/
theorem arrivedBy_full {bufferSize : Nat} (hfull : ¬ buffer.length + 1 < bufferSize)
    (harrives : Arrives bufferSize buffer.length events)
    (h : arrivedBy n buffer events = some got) : got = buffer := by
  induction events generalizing buffer with
  | nil =>
    obtain ⟨-, rfl⟩ := Option.ite_none_right_eq_some.mp h |>.imp_right Option.some.inj
    rfl
  | cons event events ih =>
    obtain ⟨hfits, harrives⟩ := harrives
    by_cases hle : n ≤ buffer.length
    · rw [arrivedBy_of_le hle] at h
      exact (Option.some.inj h).symm
    cases event with
    | interrupted =>
      rw [arrivedBy_interrupted] at h
      exact ih hfull harrives h
    | failed =>
      rw [arrivedBy_ended hle (.inl rfl)] at h
      cases h
    | received chunk =>
      have hnil : chunk = [] := by
        have hzero : chunk.length ≤ bufferSize - buffer.length - 1 := hfits
        exact List.length_eq_zero_iff.mp (by omega)
      rw [arrivedBy_ended hle (.inr (hnil ▸ rfl))] at h
      cases h

end Arrived

/-! ## The end of the header -/

theorem firstBlankLine_iff {text : Bytes} {position : Nat} :
    FirstBlankLine text position ↔ serverFindHeaderEnd text = some position := by
  refine ⟨?_, serverFindHeaderEnd_first⟩
  rintro ⟨⟨lines, hlines⟩, hfirst⟩
  have htake := serverFindHeaderEnd_take text position
  rw [hlines] at htake
  cases hfound : serverFindHeaderEnd text with
  | none =>
    rw [hfound] at htake
    exact absurd htake (serverFindHeaderEnd_ne_none lines)
  | some headerEnd =>
    rw [hfound] at htake
    have hle : headerEnd ≤ position := by
      by_contra hgt
      rw [Option.filter_some, if_neg (by simpa using hgt)] at htake
      exact serverFindHeaderEnd_ne_none lines htake
    rcases Nat.lt_or_eq_of_le hle with hlt | rfl
    · exact absurd (take_headerEnd hfound).2 (hfirst headerEnd hlt)
    · rfl

/-- A header that ends inside the bytes that came first ends there. -/
theorem serverFindHeaderEnd_prefix {buffer more : Bytes} {headerEnd : Nat}
    (h : buffer <+: more) (hle : headerEnd ≤ buffer.length)
    (hfound : serverFindHeaderEnd more = some headerEnd) :
    serverFindHeaderEnd buffer = some headerEnd := by
  rw [List.prefix_iff_eq_take.mp h, serverFindHeaderEnd_take, hfound, Option.filter_some,
    if_pos (decide_eq_true hle)]

/-! ## The loop -/

section Loop

variable {bufferSize bodyOffset bodyLength length headerEnd contentLength : Nat} {buffer : Bytes}
  {events : List Recv}

/-- Once a content length is accepted, the loop ends with OK just when the body comes. -/
theorem serverReadLoop_known (hmore : buffer.length < headerEnd + contentLength)
    (hfits : headerEnd + contentLength < bufferSize) :
    serverReadLoop bufferSize buffer (some (headerEnd, contentLength)) events =
        some (.ok length bodyOffset bodyLength) ↔
      (headerEnd = bodyOffset ∧ contentLength = bodyLength) ∧ ∃ request,
        arrivedBy (headerEnd + contentLength) buffer events = some request ∧
          request.length = length := by
  have hroom : buffer.length + 1 < bufferSize := by omega
  have hless := Nat.not_le.mpr hmore
  induction events generalizing buffer with
  | nil =>
    rw [serverReadLoop, if_pos hroom, arrivedBy, if_neg hless]
    simp
  | cons event events ih =>
    rw [serverReadLoop_turn hroom]
    cases event with
    | interrupted =>
      rw [arrivedBy_interrupted]
      exact ih hmore hroom hless
    | failed =>
      rw [arrivedBy_ended hless (.inl rfl)]
      simp [serverReadTurn]
    | received chunk =>
      cases chunk with
      | nil =>
        rw [arrivedBy_ended hless (.inr rfl)]
        simp [serverReadTurn]
      | cons c chunk =>
        rw [arrivedBy_more hless (by simp)]
        simp only [serverReadTurn, readHeader, Recv.chunk]
        by_cases hdone : headerEnd + contentLength ≤ (buffer ++ c :: chunk).length
        · rw [if_pos hdone, arrivedBy_of_le hdone]
          constructor
          · rintro ⟨⟩
            exact ⟨⟨rfl, rfl⟩, _, rfl, rfl⟩
          · rintro ⟨⟨rfl, rfl⟩, request, ⟨⟩, rfl⟩
            rfl
        · rw [if_neg hdone]
          exact ih (Nat.lt_of_not_le hdone) (by omega) hdone

/-- A header that is found with the bytes that come now does not end in those from before. -/
theorem header_later {got : Bytes} (hnone : serverFindHeaderEnd buffer = none)
    (hgot : arrivedBy bodyOffset buffer events = some got)
    (hfound : serverFindHeaderEnd got = some bodyOffset) : ¬ bodyOffset ≤ buffer.length := by
  intro hle
  rw [arrivedBy_of_le hle] at hgot
  cases hgot
  rw [hnone] at hfound
  cases hfound

/-- The turn that finds the end of the header. -/
theorem serverReadLoop_header_iff {chunk : Bytes} (hchunk : chunk ≠ [])
    (hroom : (buffer ++ chunk).length + 1 ≤ bufferSize)
    (hfound : serverFindHeaderEnd (buffer ++ chunk) = some headerEnd) :
    serverReadLoop bufferSize buffer none (.received chunk :: events) =
        some (.ok length bodyOffset bodyLength) ↔
      headerEnd = bodyOffset ∧
        serverParseContentLength (buffer ++ chunk) headerEnd = some bodyLength ∧
        headerEnd + bodyLength < bufferSize ∧ ∃ request,
          arrivedBy (headerEnd + bodyLength) (buffer ++ chunk) events = some request ∧
            request.length = length := by
  have hless : buffer.length + 1 < bufferSize := by
    have hpos := List.length_pos_iff.mpr hchunk
    rw [List.length_append] at hroom
    omega
  have hle := (take_headerEnd hfound).1
  rw [serverReadLoop_received hless hchunk, readHeader]
  simp only [hfound]
  cases serverParseContentLength (buffer ++ chunk) headerEnd with
  | none => simp
  | some contentLength =>
    simp only
    by_cases hlong : bufferSize - headerEnd - 1 < contentLength
    · rw [if_pos hlong]
      refine iff_of_false (by simp) ?_
      rintro ⟨-, hlength, hfits, -⟩
      cases hlength
      omega
    have hfits : headerEnd + contentLength < bufferSize := by omega
    rw [if_neg hlong]
    simp only
    by_cases hdone : headerEnd + contentLength ≤ (buffer ++ chunk).length
    · rw [if_pos hdone]
      constructor
      · rintro ⟨⟩
        exact ⟨rfl, rfl, hfits, _, arrivedBy_of_le hdone _, rfl⟩
      · rintro ⟨rfl, hlength, -, request, hrequest, rfl⟩
        cases hlength
        rw [arrivedBy_of_le hdone] at hrequest
        cases hrequest
        rfl
    · rw [if_neg hdone, serverReadLoop_known (Nat.lt_of_not_le hdone) hfits]
      constructor
      · rintro ⟨⟨rfl, rfl⟩, hrequest⟩
        exact ⟨rfl, rfl, hfits, hrequest⟩
      · rintro ⟨rfl, hlength, -, hrequest⟩
        cases hlength
        exact ⟨⟨rfl, rfl⟩, hrequest⟩

/-- Before the end of the header, the loop ends with OK just when header and body come. -/
theorem serverReadLoop_iff (hnone : serverFindHeaderEnd buffer = none)
    (hroom : buffer.length + 1 ≤ bufferSize) (harrives : Arrives bufferSize buffer.length events) :
    serverReadLoop bufferSize buffer none events = some (.ok length bodyOffset bodyLength) ↔
      ∃ headed request, arrivedBy bodyOffset buffer events = some headed ∧
        serverFindHeaderEnd headed = some bodyOffset ∧
        serverParseContentLength headed bodyOffset = some bodyLength ∧
        bodyOffset + bodyLength < bufferSize ∧
        arrivedBy (bodyOffset + bodyLength) buffer events = some request ∧
        request.length = length := by
  induction events generalizing buffer with
  | nil =>
    refine iff_of_false ?_ ?_
    · rw [serverReadLoop]
      split <;> simp
    · rintro ⟨headed, -, hheaded, hfound, -⟩
      refine header_later hnone hheaded hfound ?_
      exact (Option.ite_none_right_eq_some.mp hheaded).1
  | cons event events ih =>
    by_cases hless : buffer.length + 1 < bufferSize
    swap
    · rw [serverReadLoop_full hless]
      refine iff_of_false (by simp) ?_
      rintro ⟨headed, -, hheaded, hfound, -⟩
      rw [arrivedBy_full hless harrives hheaded, hnone] at hfound
      cases hfound
    obtain ⟨hfits, harrives⟩ := harrives
    cases event with
    | interrupted =>
      rw [serverReadLoop_interrupted hless]
      simp only [arrivedBy_interrupted]
      exact ih hnone hroom harrives
    | failed =>
      refine iff_of_false ?_ ?_
      · rw [serverReadLoop, if_pos hless]
        simp
      · rintro ⟨headed, -, hheaded, hfound, -⟩
        rw [arrivedBy_ended (header_later hnone hheaded hfound) (.inl rfl)] at hheaded
        cases hheaded
    | received chunk =>
      by_cases hchunk : chunk = []
      · subst hchunk
        rw [serverReadLoop_closed hless]
        refine iff_of_false (by simp) ?_
        rintro ⟨headed, -, hheaded, hfound, -⟩
        rw [arrivedBy_ended (header_later hnone hheaded hfound) (.inr rfl)] at hheaded
        cases hheaded
      have hroom' : (buffer ++ chunk).length + 1 ≤ bufferSize := by
        have hle : chunk.length ≤ bufferSize - buffer.length - 1 := hfits
        rw [List.length_append]
        omega
      -- beyond the bytes from before, it is the chunk and what comes behind it
      have hpass : ∀ n, ¬ n ≤ buffer.length → arrivedBy n buffer (.received chunk :: events) =
          arrivedBy n (buffer ++ chunk) events :=
        fun n hn => arrivedBy_more hn (by simpa using hchunk)
      cases hfind : serverFindHeaderEnd (buffer ++ chunk) with
      | none =>
        have hnext : serverReadLoop bufferSize buffer none (.received chunk :: events) =
            serverReadLoop bufferSize (buffer ++ chunk) none events := by
          rw [serverReadLoop_received hless hchunk, readHeader]
          simp only [hfind]
        rw [hnext, ih hfind hroom' (by rw [List.length_append]; exact harrives)]
        constructor
        · rintro ⟨headed, request, hheaded, hfound, hlength, hsize, hrequest, hcount⟩
          have hlater : ¬ bodyOffset ≤ buffer.length := by
            have hlater := header_later hfind hheaded hfound
            rw [List.length_append] at hlater
            omega
          refine ⟨headed, request, ?_, hfound, hlength, hsize, ?_, hcount⟩
          · rw [hpass _ hlater, hheaded]
          · rw [hpass _ (by omega), hrequest]
        · rintro ⟨headed, request, hheaded, hfound, hlength, hsize, hrequest, hcount⟩
          have hlater := header_later hnone hheaded hfound
          rw [hpass _ hlater] at hheaded
          rw [hpass _ (by omega)] at hrequest
          exact ⟨headed, request, hheaded, hfound, hlength, hsize, hrequest, hcount⟩
      | some headerEnd =>
        have hle := (take_headerEnd hfind).1
        have hlater : ¬ headerEnd ≤ buffer.length := by
          intro hle'
          have hfound := serverFindHeaderEnd_prefix (List.prefix_append _ _) hle' hfind
          rw [hnone] at hfound
          cases hfound
        rw [serverReadLoop_header_iff hchunk hroom' hfind]
        constructor
        · rintro ⟨rfl, hlength, hsize, request, hrequest, hcount⟩
          refine ⟨buffer ++ chunk, request, ?_, hfind, hlength, hsize, ?_, hcount⟩
          · rw [hpass _ hlater, arrivedBy_of_le hle]
          · rw [hpass _ (by omega), hrequest]
        · rintro ⟨headed, request, hheaded, hfound, hlength, hsize, hrequest, hcount⟩
          have hlater' := header_later hnone hheaded hfound
          rw [hpass _ hlater'] at hheaded
          rw [hpass _ (by omega)] at hrequest
          -- the first blank line is where the chunk has put it
          obtain ⟨more, rfl⟩ := (arrivedBy_grows hheaded).1
          rw [serverFindHeaderEnd_append hfind] at hfound
          cases hfound
          rw [arrivedBy_of_le hle, Option.some.injEq] at hheaded
          rw [← hheaded] at hlength
          exact ⟨rfl, hlength, hsize, request, hrequest, hcount⟩

end Loop

/-- `server_read_http_request` returns OK just when a complete request arrives, with its size and where
its body is. -/
theorem serverReadHttpRequest_iff {bufferSize length bodyOffset bodyLength : Nat}
    {recvs : List Recv} (hpos : 0 < bufferSize) (harrives : Arrives bufferSize 0 recvs) :
    serverReadHttpRequest bufferSize recvs = some (.ok length bodyOffset bodyLength) ↔
      ∃ request, Completes bufferSize recvs request bodyOffset bodyLength ∧
        request.length = length := by
  rw [serverReadHttpRequest, if_neg (Nat.ne_of_gt hpos), serverReadLoop_iff rfl hpos harrives]
  have hparsed : ∀ {headed : Bytes}, serverFindHeaderEnd headed = some bodyOffset →
      (serverParseContentLength headed bodyOffset = some bodyLength ↔
        GivesLength (headed.take bodyOffset) (headed.drop bodyOffset) bodyLength) := by
    intro headed hfound
    obtain ⟨hle, lines, hlines⟩ := take_headerEnd hfound
    have hended : Ended (headed.take bodyOffset) := hlines ▸ ended_blankLine lines
    have hgives := serverParseContentLength_gives hended (headed.drop bodyOffset) (n := bodyLength)
    rwa [List.take_append_drop, List.length_take_of_le hle] at hgives
  constructor
  · rintro ⟨headed, request, hheaded, hfound, hlength, hsize, hrequest, hcount⟩
    obtain ⟨got, hgot, more, rfl⟩ := arrivedBy_mono (Nat.le_add_right _ bodyLength) hrequest
    obtain rfl : headed = got := Option.some.inj (hheaded.symm.trans hgot)
    refine ⟨_, ⟨firstBlankLine_iff.mpr (serverFindHeaderEnd_append hfound more), ?_, hsize, hrequest⟩,
      hcount⟩
    exact ⟨headed, hheaded, (hparsed hfound).mp hlength⟩
  · rintro ⟨request, ⟨hhead, ⟨headed, hheaded, hgives⟩, hsize, hrequest⟩, hcount⟩
    obtain ⟨got, hgot, hstart⟩ := arrivedBy_mono (Nat.le_add_right _ bodyLength) hrequest
    obtain rfl : headed = got := Option.some.inj (hheaded.symm.trans hgot)
    have hfound := serverFindHeaderEnd_prefix hstart (arrivedBy_grows hheaded).2
      (firstBlankLine_iff.mp hhead)
    exact ⟨headed, request, hheaded, hfound, (hparsed hfound).mpr hgives, hsize, hrequest, hcount⟩

end JungleDb
