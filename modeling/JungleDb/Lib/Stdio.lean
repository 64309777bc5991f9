import JungleDb.Lib.CString

/-!
# Streams of `stdio`

Reading: the lines that successive calls of `fgets` deliver from the bytes of a file, cut where a
line does not fit the array. Writing: a stream buffers the bytes of its output calls. A call that
succeeds may hand on any part of the buffer to the file; a call that fails may lose of the buffer
what it has not handed on.
-/

namespace Stdio

open CString

/-! ## Reading -/

abbrev newline : UInt8 := ch '\n'

/-- What `fgets` reads with room for so many bytes, and what is left. -/
def readLine : Nat → Bytes → Bytes × Bytes
  | 0, input => ([], input)
  | _, [] => ([], [])
  | room + 1, c :: input =>
    if c = newline then ([c], input)
    else (c :: (readLine room input).1, (readLine room input).2)

/-- `fgets(line, size, fp)`; `none` is NULL. -/
def fgets (size : Nat) (input : Bytes) : Option (Bytes × Bytes) :=
  if input = [] then none else some (readLine (size - 1) input)

/-- The lines that calls of `fgets` deliver up to the end of the file, the first of them with less
room. -/
def linesFrom (size : Nat) : Nat → Bytes → List Bytes
  | _, [] => []
  | room, c :: input =>
    if c = newline ∨ room ≤ 1 then [c] :: linesFrom size (size - 1) input
    else match linesFrom size (room - 1) input with
      | [] => [[c]]
      | line :: lines => (c :: line) :: lines

/-- The lines that calls of `fgets` deliver up to the end of the file. -/
def fgetsLines (size : Nat) (input : Bytes) : List Bytes := linesFrom size (size - 1) input

/-- `feof(fp)` after a call that delivered the line: it met the end of the file. -/
def feof (size : Nat) (line : Bytes) : Bool :=
  line.length + 1 < size && line.getLast? != some newline

/-- The string that the array holds: it ends at the first NUL. -/
def cstring (line : Bytes) : Bytes := line.takeWhile (· ≠ 0)

theorem linesFrom_eq (size : Nat) (input : Bytes) {room : Nat} (hroom : room ≠ 0)
    (hinput : input ≠ []) :
    linesFrom size room input =
      (readLine room input).1 :: fgetsLines size (readLine room input).2 := by
  induction input generalizing room with
  | nil => exact absurd rfl hinput
  | cons c input ih =>
    obtain ⟨room, rfl⟩ := Nat.exists_eq_succ_of_ne_zero hroom
    rw [linesFrom, readLine]
    by_cases hc : c = newline
    · rw [if_pos (.inl hc), if_pos hc]
      rfl
    · rw [if_neg hc]
      cases room with
      | zero =>
        rw [if_pos (.inr (Nat.le_refl 1))]
        rfl
      | succ room =>
        rw [if_neg (not_or.mpr ⟨hc, by omega⟩)]
        cases input with
        | nil => rfl
        | cons d input =>
          have hmore := ih (Nat.succ_ne_zero room) (List.cons_ne_nil d input)
          show (match linesFrom size (room + 1) (d :: input) with
            | [] => [[c]]
            | line :: lines => (c :: line) :: lines) = _
          rw [hmore]

/-- The lines come from `fgets`, call by call. -/
theorem fgetsLines_eq {size : Nat} (hsize : 2 ≤ size) (input : Bytes) :
    fgetsLines size input = match fgets size input with
      | none => []
      | some (line, rest) => line :: fgetsLines size rest := by
  unfold fgets
  by_cases hinput : input = []
  · rw [if_pos hinput, hinput]
    rfl
  · rw [if_neg hinput]
    exact linesFrom_eq size input (by omega) hinput

/-- A line and what is left are the input. -/
theorem readLine_append (room : Nat) (input : Bytes) :
    (readLine room input).1 ++ (readLine room input).2 = input := by
  induction input generalizing room with
  | nil => cases room <;> rfl
  | cons c input ih =>
    cases room with
    | zero => rfl
    | succ room =>
      rw [readLine]
      by_cases hc : c = newline
      · rw [if_pos hc]
        rfl
      · rw [if_neg hc, List.cons_append, ih]

/-- No line is empty. -/
theorem linesFrom_ne_nil (size room : Nat) (input : Bytes) :
    ∀ line ∈ linesFrom size room input, line ≠ [] := by
  induction input generalizing room with
  | nil => nofun
  | cons c input ih =>
    rw [linesFrom]
    split
    · exact List.forall_mem_cons.mpr ⟨List.cons_ne_nil _ _, ih _⟩
    · have hmore := ih (room - 1)
      split
      · exact List.forall_mem_singleton.mpr (List.cons_ne_nil _ _)
      · rename_i line lines hlines
        rw [hlines] at hmore
        exact List.forall_mem_cons.mpr ⟨List.cons_ne_nil _ _, (List.forall_mem_cons.mp hmore).2⟩

theorem fgetsLines_ne_nil (size : Nat) (input : Bytes) :
    ∀ line ∈ fgetsLines size input, line ≠ [] :=
  linesFrom_ne_nil size (size - 1) input

/-- Behind a newline the lines begin anew. -/
theorem linesFrom_append (size room : Nat) {input : Bytes} (h : input.getLast? = some newline)
    (rest : Bytes) :
    linesFrom size room (input ++ rest) = linesFrom size room input ++ fgetsLines size rest := by
  induction input generalizing room with
  | nil => cases h
  | cons c input ih =>
    rw [List.cons_append, linesFrom, linesFrom]
    cases input with
    | nil =>
      obtain rfl : c = newline := Option.some.inj h
      rw [if_pos (.inl rfl), if_pos (.inl rfl)]
      rfl
    | cons d input =>
      rw [List.getLast?_cons_cons] at h
      split
      · rw [ih _ h]
        rfl
      · rw [ih _ h]
        cases hlines : linesFrom size (room - 1) (d :: input) with
        | nil =>
          rw [linesFrom] at hlines
          split at hlines
          · cases hlines
          · split at hlines <;> cases hlines
        | cons line lines => rfl

theorem fgetsLines_append (size : Nat) {input : Bytes} (h : input.getLast? = some newline)
    (rest : Bytes) : fgetsLines size (input ++ rest) = fgetsLines size input ++ fgetsLines size rest :=
  linesFrom_append size (size - 1) h rest

/-- The first line begins with the first byte. -/
theorem fgetsLines_cons (size : Nat) (c : UInt8) (input : Bytes) :
    ∃ line lines, fgetsLines size (c :: input) = (c :: line) :: lines := by
  unfold fgetsLines
  rw [linesFrom]
  split
  · exact ⟨_, _, rfl⟩
  · split
    · exact ⟨_, _, rfl⟩
    · exact ⟨_, _, rfl⟩

theorem linesFrom_line (size : Nat) {text : Bytes} (htext : newline ∉ text) (rest : Bytes)
    {room : Nat} (hroom : text.length < room) :
    linesFrom size room (text ++ newline :: rest) = (text ++ [newline]) :: fgetsLines size rest := by
  induction text generalizing room with
  | nil =>
    rw [List.nil_append, linesFrom, if_pos (.inl rfl)]
    rfl
  | cons c text ih =>
    rw [List.mem_cons, not_or] at htext
    obtain ⟨hc, htext⟩ := htext
    rw [List.length_cons] at hroom
    rw [List.cons_append, linesFrom, if_neg (not_or.mpr ⟨Ne.symm hc, by omega⟩),
      ih htext (by omega)]
    rfl

/-- A line that fits is delivered as a whole. -/
theorem fgetsLines_line {size : Nat} {text : Bytes} (htext : newline ∉ text)
    (hfits : text.length + 1 < size) (rest : Bytes) :
    fgetsLines size (text ++ newline :: rest) = (text ++ [newline]) :: fgetsLines size rest :=
  linesFrom_line size htext rest (by omega)

theorem readLine_long {text : Bytes} (htext : newline ∉ text) (rest : Bytes) {room : Nat}
    (hroom : room ≤ text.length) :
    readLine room (text ++ rest) = (text.take room, text.drop room ++ rest) := by
  induction text generalizing room with
  | nil =>
    rw [List.length_nil, Nat.le_zero] at hroom
    rw [hroom]
    rfl
  | cons c text ih =>
    cases room with
    | zero => rfl
    | succ room =>
      rw [List.mem_cons, not_or] at htext
      rw [List.cons_append, readLine, if_neg (Ne.symm htext.1),
        ih htext.2 (Nat.le_of_succ_le_succ hroom)]
      rfl

/-- Of a line that does not fit the array gets the first part. -/
theorem fgetsLines_long {size : Nat} {text : Bytes} (htext : newline ∉ text) (hsize : 2 ≤ size)
    (hlong : size ≤ text.length + 1) (rest : Bytes) :
    fgetsLines size (text ++ rest) =
      text.take (size - 1) :: fgetsLines size (text.drop (size - 1) ++ rest) := by
  have hne : text ++ rest ≠ [] := by
    refine List.append_ne_nil_of_left_ne_nil (List.ne_nil_of_length_pos ?_) rest
    omega
  rw [fgetsLines_eq hsize, fgets, if_neg hne, readLine_long htext rest (by omega)]

theorem cstring_eq_self {line : Bytes} (h : (0 : UInt8) ∉ line) : cstring line = line := by
  refine List.takeWhile_eq_self_iff.mpr ?_
  intro c hc
  refine decide_eq_true ?_
  rintro rfl
  exact h hc

/-! ## Writing -/

/-- How an output call goes: it succeeds and hands on the first bytes of the buffer, or it fails, and
of the bytes it has not handed on only the first are kept. -/
inductive Outcome
  | done (taken : Nat)
  | failed (taken kept : Nat)
  deriving DecidableEq, Repr

/-- The outcome of the next call and those after it; where they are used up, calls succeed. -/
def nextOutcome : List Outcome → Outcome × List Outcome
  | [] => (.done 0, [])
  | outcome :: outcomes => (outcome, outcomes)

/-- An output stream: what is in the file, and what in the buffer. -/
structure Stream where
  file : Bytes
  buffer : Bytes
  deriving DecidableEq, Repr

namespace Stream

/-- All that was written and not lost. -/
def content (s : Stream) : Bytes := s.file ++ s.buffer

/-- `fputc` or `fputs`: whether it succeeds, and the stream after it. -/
def put (s : Stream) (text : Bytes) : Outcome → Bool × Stream
  | .done taken => (true, ⟨s.file ++ (s.buffer ++ text).take taken, (s.buffer ++ text).drop taken⟩)
  | .failed taken kept =>
    (false, ⟨s.file ++ (s.buffer ++ text).take taken, ((s.buffer ++ text).drop taken).take kept⟩)

/-- Output calls one after the other, up to the first that fails. -/
def putAll (s : Stream) : List Bytes → List Outcome → Bool × Stream × List Outcome
  | [], outcomes => (true, s, outcomes)
  | text :: texts, outcomes =>
    match s.put text (nextOutcome outcomes).1 with
    | (true, s) => putAll s texts (nextOutcome outcomes).2
    | (false, s) => (false, s, (nextOutcome outcomes).2)

/-- `fflush`. -/
def flush (s : Stream) : Outcome → Stream
  | .done _ => ⟨s.content, []⟩
  | .failed taken kept => ⟨s.file ++ s.buffer.take taken, (s.buffer.drop taken).take kept⟩

/-- `fclose`: what is in the file then. -/
def close (s : Stream) : Outcome → Bytes
  | .done _ => s.content
  | .failed taken _ => s.file ++ s.buffer.take taken

theorem content_put {s s' : Stream} {text : Bytes} {outcome : Outcome}
    (h : s.put text outcome = (true, s')) : s'.content = s.content ++ text := by
  cases outcome with
  | done taken =>
    cases h
    simp only [content, List.append_assoc, List.take_append_drop]
  | failed taken kept => cases h

/-- As long as the calls succeed nothing is lost. -/
theorem content_putAll {s s' : Stream} {texts : List Bytes} {outcomes outcomes' : List Outcome}
    (h : s.putAll texts outcomes = (true, s', outcomes')) :
    s'.content = s.content ++ texts.flatten := by
  induction texts generalizing s outcomes with
  | nil =>
    cases h
    rw [List.flatten_nil, List.append_nil]
  | cons text texts ih =>
    rw [putAll] at h
    generalize hput : s.put text (nextOutcome outcomes).1 = call at h
    obtain ⟨ok, t⟩ := call
    cases ok with
    | true => rw [ih h, content_put hput, List.flatten_cons, List.append_assoc]
    | false => cases h

/-- Where no call fails, all of them succeed. -/
theorem putAll_nil (s : Stream) (texts : List Bytes) :
    ∃ s', s.putAll texts [] = (true, s', []) := by
  induction texts generalizing s with
  | nil => exact ⟨s, rfl⟩
  | cons text texts ih => exact ih _

theorem putAll_append (s : Stream) (texts texts' : List Bytes) (outcomes : List Outcome) :
    s.putAll (texts ++ texts') outcomes =
      match s.putAll texts outcomes with
      | (true, s', outcomes') => s'.putAll texts' outcomes'
      | (false, s', outcomes') => (false, s', outcomes') := by
  induction texts generalizing s outcomes with
  | nil => rfl
  | cons text texts ih =>
    rw [List.cons_append, putAll, putAll]
    generalize s.put text (nextOutcome outcomes).1 = call
    obtain ⟨ok, s'⟩ := call
    cases ok with
    | true => exact ih s' _
    | false => rfl

/-- A call that fails may lose an end of what was written. -/
theorem content_put_prefix (s : Stream) (text : Bytes) (outcome : Outcome) :
    (s.put text outcome).2.content <+: s.content ++ text := by
  cases outcome with
  | done taken =>
    simp only [put, content, List.append_assoc, List.take_append_drop]
    exact List.prefix_rfl
  | failed taken kept =>
    simp only [put, content, List.append_assoc]
    refine (List.prefix_append_right_inj _).mpr ?_
    calc (s.buffer ++ text).take taken ++ ((s.buffer ++ text).drop taken).take kept
        <+: (s.buffer ++ text).take taken ++ (s.buffer ++ text).drop taken :=
          (List.prefix_append_right_inj _).mpr (List.take_prefix _ _)
      _ = s.buffer ++ text := List.take_append_drop _ _

theorem content_putAll_prefix (s : Stream) (texts : List Bytes) (outcomes : List Outcome) :
    (s.putAll texts outcomes).2.1.content <+: s.content ++ texts.flatten := by
  induction texts generalizing s outcomes with
  | nil =>
    rw [List.flatten_nil, List.append_nil]
    exact List.prefix_rfl
  | cons text texts ih =>
    have hcontent := s.content_put_prefix text (nextOutcome outcomes).1
    rw [putAll, List.flatten_cons, ← List.append_assoc]
    generalize hput : s.put text (nextOutcome outcomes).1 = call at hcontent
    obtain ⟨ok, t⟩ := call
    cases ok with
    | true =>
      rw [← content_put hput]
      exact ih t _
    | false => exact hcontent.trans (List.prefix_append _ _)

theorem close_prefix (s : Stream) (outcome : Outcome) : s.close outcome <+: s.content := by
  cases outcome with
  | done taken => exact List.prefix_rfl
  | failed taken kept => exact (List.prefix_append_right_inj _).mpr (List.take_prefix _ _)

/-- What is in the file before the calls stays in front of what they hand on. -/
theorem putAll_file (file buffer : Bytes) (texts : List Bytes) (outcomes : List Outcome) :
    (Stream.mk file buffer).putAll texts outcomes =
      ((Stream.mk [] buffer).putAll texts outcomes).map id
        (Prod.map (fun s => ⟨file ++ s.file, s.buffer⟩) id) := by
  suffices hfront : ∀ front, (Stream.mk (file ++ front) buffer).putAll texts outcomes =
      ((Stream.mk front buffer).putAll texts outcomes).map id
        (Prod.map (fun s => ⟨file ++ s.file, s.buffer⟩) id) by
    have hnil := hfront []
    rwa [List.append_nil] at hnil
  intro front
  induction texts generalizing front buffer outcomes with
  | nil => rfl
  | cons text texts ih =>
    rw [putAll, putAll]
    cases (nextOutcome outcomes).1 with
    | done taken =>
      simp only [put, List.append_assoc]
      exact ih _ _ _
    | failed taken kept =>
      simp only [put, List.append_assoc]
      rfl

/-- How many bytes of a buffer `fflush` and then `fclose` can hand on. -/
def handedOn (size : Nat) : Outcome → Outcome → Nat
  | .done _, _ => size
  | .failed taken kept, .done _ => taken + kept
  | .failed taken kept, .failed taken' _ => taken + min taken' kept

theorem close_flush (s : Stream) (flushed closed : Outcome) :
    (s.flush flushed).close closed =
      s.file ++ s.buffer.take (handedOn s.buffer.length flushed closed) := by
  cases flushed with
  | done taken =>
    rw [handedOn, List.take_length]
    cases closed with
    | done taken' => exact List.append_nil _
    | failed taken' kept' =>
      rw [flush, close, List.take_nil]
      exact List.append_nil _
  | failed taken kept =>
    cases closed with
    | done taken' =>
      rw [handedOn, List.take_add, ← List.append_assoc]
      rfl
    | failed taken' kept' =>
      rw [handedOn, List.take_add, ← List.take_take, ← List.append_assoc]
      rfl

/-- Nothing is lost just when `fflush` and `fclose` hand on the whole buffer. -/
theorem close_flush_eq_content {s : Stream} {flushed closed : Outcome} :
    (s.flush flushed).close closed = s.content ↔
      s.buffer.length ≤ handedOn s.buffer.length flushed closed := by
  rw [close_flush, content, List.append_right_inj]
  constructor
  · intro h
    have hlength := congrArg List.length h
    rw [List.length_take] at hlength
    exact inf_eq_right.mp hlength
  · exact List.take_of_length_le

end Stream

end Stdio
