import JungleDb.Server.Complete
import JungleDb.Server.Handler

/-!
# Remote calls

A client that sends one `POST /query` and reads the response calls the engine: in whatever chunks the
request arrives and the response leaves, the answer that it reads is that of the call
`engine_execute_sql` with the same text, on the same tables. And no other request reaches the engine.
-/

namespace JungleDb

open CString Json

/-! ## The words of a request line -/

/-- The text begins with two words; white space stands around them. -/
def TwoWords (text first second : Bytes) : Prop :=
  ∃ before between after, text = before ++ (first ++ (between ++ (second ++ after))) ∧
    (∀ c ∈ before, isspace c = true) ∧ (first ≠ [] ∧ ∀ c ∈ first, isspace c = false) ∧
    (between ≠ [] ∧ ∀ c ∈ between, isspace c = true) ∧
    (second ≠ [] ∧ ∀ c ∈ second, isspace c = false) ∧ ∀ c ∈ after.head?, isspace c = true

/-- A word that fits is scanned whole. -/
theorem scanWord_word {width : Nat} {before word rest : Bytes}
    (hbefore : ∀ c ∈ before, isspace c = true)
    (hword : word ≠ [] ∧ ∀ c ∈ word, isspace c = false) (hrest : ∀ c ∈ rest.head?, isspace c = true)
    (hfits : word.length ≤ width) : scanWord width (before ++ (word ++ rest)) = some (word, rest) := by
  have hskip : (before ++ (word ++ rest)).dropWhile isspace = word ++ rest := by
    rw [List.dropWhile_append_of_pos hbefore]
    cases word with
    | nil => exact absurd rfl hword.1
    | cons c word =>
      exact List.dropWhile_cons_of_neg (Bool.eq_false_iff.mp (hword.2 c List.mem_cons_self))
  have htake : (word ++ rest).takeWhile (fun c => !isspace c) = word := by
    rw [List.takeWhile_append_of_pos fun c hc => by rw [hword.2 c hc]; rfl]
    cases rest with
    | nil => exact List.append_nil word
    | cons c rest =>
      rw [List.takeWhile_cons_of_neg (by rw [hrest c rfl]; exact Bool.false_ne_true),
        List.append_nil]
  unfold scanWord
  simp only [hskip, htake, List.take_of_length_le hfits, if_neg hword.1, List.drop_left]

/-- What is scanned is a word, or the beginning of one where the width is used up. -/
theorem scanWord_some {width : Nat} {text word rest : Bytes}
    (h : scanWord width text = some (word, rest)) :
    ∃ before, text = before ++ (word ++ rest) ∧ (∀ c ∈ before, isspace c = true) ∧
      (word ≠ [] ∧ ∀ c ∈ word, isspace c = false) ∧ word.length ≤ width ∧
      (word.length < width → ∀ c ∈ rest.head?, isspace c = true) := by
  unfold scanWord at h
  simp only at h
  split at h
  · cases h
  rename_i hne
  generalize htext : text.dropWhile isspace = skipped at h hne
  obtain ⟨hword, hrest⟩ := Prod.mk.inj (Option.some.inj h)
  have hsplit := List.takeWhile_append_dropWhile (p := isspace) (l := text)
  rw [htext] at hsplit
  have hwhole := List.takeWhile_append_dropWhile (p := fun c => !isspace c) (l := skipped)
  have hprefix : word <+: skipped := by
    rw [← hword]
    exact (List.take_prefix _ _).trans (List.takeWhile_prefix _)
  have hlength : word.length ≤ width := by
    rw [← hword]
    exact List.length_take_le _ _
  have hjoin : word ++ rest = skipped := by
    rw [← hrest, hword]
    exact List.prefix_iff_eq_append.mp hprefix
  refine ⟨text.takeWhile isspace, ?_, fun c => List.mem_takeWhile_imp, ⟨hword ▸ hne, ?_⟩, hlength, ?_⟩
  · rw [hjoin, hsplit]
  · intro c hc
    rw [← hword] at hc
    have hspace := List.mem_takeWhile_imp (List.mem_of_mem_take hc)
    exact Bool.not_eq_true' _ ▸ hspace
  · intro hshort c hc
    rw [← hword, List.length_take] at hshort
    have hall : skipped.takeWhile (fun c => !isspace c) = word := by
      rw [← hword, List.take_of_length_le (by omega)]
    have hrest' : rest = skipped.dropWhile fun c => !isspace c := by
      rw [← hrest, hword]
      conv_lhs => rw [← hwhole, hall]
      exact List.drop_left
    rw [hrest'] at hc
    have hnot := List.head?_dropWhile_not (fun c => !isspace c) skipped
    rw [Option.mem_def.mp hc] at hnot
    exact Bool.not_eq_false' _ ▸ hnot

/-- Words shorter than the widths are the ones scanned, however long those that the line has. -/
theorem serverParseRequestLine_iff {text method path : Bytes} (hmethod : method.length < 15)
    (hpath : path.length < 127) :
    serverParseRequestLine text 16 128 = some (method, path) ↔ TwoWords text method path := by
  unfold serverParseRequestLine
  constructor
  · intro h
    obtain ⟨⟨method', rest⟩, hfirst, h⟩ := Option.bind_eq_some_iff.mp h
    obtain ⟨⟨path', after⟩, hsecond, h⟩ := Option.bind_eq_some_iff.mp h
    simp only at h
    split at h
    · cases h
    obtain ⟨rfl, rfl⟩ := Prod.mk.inj (Option.some.inj h)
    obtain ⟨before, htext, hbefore, hword, -, hend⟩ := scanWord_some hfirst
    obtain ⟨between, hrest, hbetween, hword', -, hend'⟩ := scanWord_some hsecond
    have hspace := hend hmethod
    refine ⟨before, between, after, by rw [htext, hrest], hbefore, hword, ⟨?_, hbetween⟩, hword',
      hend' hpath⟩
    -- the first word ends before the width, so white space follows it
    rintro rfl
    obtain ⟨c, path, hcons⟩ := List.exists_cons_of_ne_nil hword'.1
    rw [hrest, hcons] at hspace
    have hblack := hword'.2 c (hcons ▸ List.mem_cons_self)
    rw [hspace c rfl] at hblack
    cases hblack
  · rintro ⟨before, between, after, rfl, hbefore, hword, hbetween, hword', hafter⟩
    have hfollow : ∀ c ∈ (between ++ (path ++ after)).head?, isspace c = true := by
      obtain ⟨c, space, hcons⟩ := List.exists_cons_of_ne_nil hbetween.1
      rw [hcons]
      intro d hd
      obtain rfl := Option.some.inj hd
      exact hbetween.2 c (hcons ▸ List.mem_cons_self)
    rw [scanWord_word hbefore hword hfollow (Nat.le_of_lt hmethod), Option.bind_eq_bind,
      Option.bind_some]
    simp only
    rw [scanWord_word hbetween.2 hword' hafter (Nat.le_of_lt hpath), Option.bind_some]
    simp only
    rw [if_neg (by omega)]

/-! ## What reaches the engine -/

/-- The route is the engine just for a nonempty body behind `POST /query` that has a text. -/
theorem serverRoute_execute_iff {buffer sql : Bytes} {bodyOffset bodyLength : Nat} :
    serverRoute buffer bodyOffset bodyLength = .execute sql ↔
      TwoWords (Stdio.cstring buffer) (bytes "POST") (bytes "/query") ∧ bodyLength ≠ 0 ∧
      ∃ text, (serverExtractSqlFromJson ((buffer.drop bodyOffset).take bodyLength)
        MAX_SQL_LENGTH).text = some text ∧ sql = Stdio.cstring text := by
  rw [← serverParseRequestLine_iff (by decide) (by decide)]
  unfold serverRoute
  cases serverParseRequestLine (Stdio.cstring buffer) 16 128 with
  | none => exact iff_of_false ClientCall.noConfusion fun h => Option.some_ne_none _ h.1.symm
  | some words =>
    obtain ⟨method, path⟩ := words
    simp only [Option.some.injEq, Prod.mk.injEq]
    by_cases hmethod : strcmp method (bytes "POST") = 0
    swap
    · rw [if_pos hmethod]
      exact iff_of_false ClientCall.noConfusion fun h => hmethod (strcmp_eq.mpr h.1.1)
    by_cases hpath : strcmp path (bytes "/query") = 0
    swap
    · rw [if_neg (not_not.mpr hmethod), if_pos hpath]
      exact iff_of_false ClientCall.noConfusion fun h => hpath (strcmp_eq.mpr h.1.2)
    rw [if_neg (not_not.mpr hmethod), if_neg (not_not.mpr hpath)]
    by_cases hempty : bodyLength = 0
    · rw [if_pos hempty]
      exact iff_of_false ClientCall.noConfusion fun h => h.2.1 hempty
    rw [if_neg hempty]
    cases serverExtractSqlFromJson ((buffer.drop bodyOffset).take bodyLength) MAX_SQL_LENGTH with
    | tooLong =>
      refine iff_of_false ClientCall.noConfusion ?_
      rintro ⟨-, -, text, htext, -⟩
      cases htext
    | invalid =>
      refine iff_of_false ClientCall.noConfusion ?_
      rintro ⟨-, -, text, htext, -⟩
      cases htext
    | ok out cursor =>
      constructor
      · intro h
        exact ⟨⟨strcmp_eq.mp hmethod, strcmp_eq.mp hpath⟩, hempty, out.text, rfl,
          (ClientCall.execute.inj h).symm⟩
      · rintro ⟨-, -, text, htext, rfl⟩
        cases htext
        rfl

/-- A request for the engine: `POST /query` in its first line, and a body that yields the text. -/
structure QueryRequest (request : Bytes) (bodyOffset bodyLength : Nat) (sql : Bytes) : Prop where
  line : TwoWords (Stdio.cstring request) (bytes "POST") (bytes "/query")
  body : bodyLength ≠ 0 ∧ ∃ text, Yields ((request.drop bodyOffset).take bodyLength) text ∧
    sql = Stdio.cstring text

theorem received_of_completes {recvs : List Recv} {request : Bytes}
    {bufferSize bodyOffset bodyLength : Nat}
    (h : Completes bufferSize recvs request bodyOffset bodyLength) :
    received recvs request.length = request :=
  (List.prefix_iff_eq_take.mp (arrivedBy_received h.whole)).symm

/-- The engine is called just when a complete request for it arrives, with the text of its body. -/
theorem serverClientCall_execute_iff {recvs : List Recv} {sql : Bytes}
    (harrives : Arrives SERVER_REQUEST_BUFFER_SIZE 0 recvs) :
    serverClientCall recvs = some (.execute sql) ↔
      ∃ request bodyOffset bodyLength,
        Completes SERVER_REQUEST_BUFFER_SIZE recvs request bodyOffset bodyLength ∧
        QueryRequest request bodyOffset bodyLength sql := by
  have hread : ∀ {length bodyOffset bodyLength : Nat},
      serverReadHttpRequest SERVER_REQUEST_BUFFER_SIZE recvs =
        some (.ok length bodyOffset bodyLength) ↔
      ∃ request, Completes SERVER_REQUEST_BUFFER_SIZE recvs request bodyOffset bodyLength ∧
        request.length = length := serverReadHttpRequest_iff (by decide) harrives
  have hroute : ∀ {request : Bytes} {bodyOffset bodyLength : Nat},
      serverRoute request bodyOffset bodyLength = .execute sql ↔
        QueryRequest request bodyOffset bodyLength sql := by
    intro request bodyOffset bodyLength
    rw [serverRoute_execute_iff]
    refine ⟨fun h => ⟨h.1, h.2.1, ?_⟩, fun h => ⟨h.line, h.body.1, ?_⟩⟩
    · obtain ⟨text, htext, hsql⟩ := h.2.2
      exact ⟨text, foundText_yields.mp htext, hsql⟩
    · obtain ⟨text, htext, hsql⟩ := h.body.2
      exact ⟨text, foundText_yields.mpr htext, hsql⟩
  unfold serverClientCall
  rw [Option.map_eq_some_iff]
  constructor
  · rintro ⟨read, hok, hcall⟩
    cases read with
    | tooLarge => cases hcall
    | badRequest => cases hcall
    | ok length bodyOffset bodyLength =>
      obtain ⟨request, hrequest, rfl⟩ := hread.mp hok
      have hcall : serverRoute (received recvs request.length) bodyOffset bodyLength =
        .execute sql := hcall
      rw [received_of_completes hrequest, hroute] at hcall
      exact ⟨request, bodyOffset, bodyLength, hrequest, hcall⟩
  · rintro ⟨request, bodyOffset, bodyLength, hrequest, hquery⟩
    refine ⟨_, hread.mpr ⟨request, hrequest, rfl⟩, ?_⟩
    simp only [received_of_completes hrequest]
    exact hroute.mpr hquery

theorem serverClientCall_execute_iff_missing :
    ∃ request bodyOffset bodyLength,
      Completes SERVER_REQUEST_BUFFER_SIZE missingRecvs request bodyOffset bodyLength ∧
      QueryRequest request bodyOffset bodyLength (bytes "SELECT * FROM t;") := by
  have harrives : Arrives SERVER_REQUEST_BUFFER_SIZE 0 missingRecvs := by
    refine ⟨?_, trivial, ?_, trivial⟩
    · show (bytes "POST /query HTTP/1.1\r\nContent-Length: 26\r\n\r\n").length ≤ 65536 - 0 - 1
      decide
    · show (bytes "\x7b\"sql\":\"SELECT * FROM t;\"\x7d").length ≤ 65536 - 44 - 1
      decide
  exact (serverClientCall_execute_iff harrives).mp (by decide +kernel)

/-! ## A request as a message -/

section Deliveries

variable {bufferSize length : Nat} {stream : Bytes} {events : List Recv}

theorem Delivers.arrives (h : Delivers bufferSize length stream events) :
    Arrives bufferSize length events := by
  induction h with
  | full _ => trivial
  | closed => exact ⟨Nat.zero_le _, trivial⟩
  | interrupted _ ih => exact ⟨trivial, ih⟩
  | received _ hfits _ ih => exact ⟨hfits, ih⟩

theorem Delivers.chunks (h : Delivers bufferSize length stream events) :
    (events.map Recv.chunk).flatten <+: stream := by
  induction h with
  | full _ => exact List.nil_prefix
  | closed => exact List.nil_prefix
  | interrupted _ ih => exact ih
  | @received _ chunk _ _ _ _ _ ih => exact (List.prefix_append_right_inj chunk).mpr ih

end Deliveries

/-- A line without CR does not hold the blank line, nor the end of the line if another follows. -/
theorem serverFindHeaderEnd_line {line : Bytes} (hline : ∀ c ∈ line, Http.Inline c) (rest : Bytes) :
    serverFindHeaderEnd (line ++ (lineEnd ++ rest)) =
      (serverFindHeaderEnd (lineEnd ++ rest)).map (· + line.length) := by
  induction line with
  | nil => exact (congrFun Option.map_id _).symm
  | cons c line ih =>
    obtain ⟨hc, hline⟩ := List.forall_mem_cons.mp hline
    have hnot : ¬ (c :: (line ++ (lineEnd ++ rest))).take 4 = blankLine := fun heq =>
      hc.1 (List.cons.inj heq).1
    rw [List.cons_append, serverFindHeaderEnd, if_neg hnot, ih hline, Option.map_map]
    rfl

theorem serverFindHeaderEnd_lineEnd {c : UInt8} (hc : c ≠ Http.cr) (rest : Bytes) :
    serverFindHeaderEnd (lineEnd ++ c :: rest) =
      (serverFindHeaderEnd (c :: rest)).map (· + 2) := by
  have hfirst : ¬ (ch '\r' :: ch '\n' :: c :: rest).take 4 = blankLine := fun heq =>
    hc (List.cons.inj (List.cons.inj (List.cons.inj heq).2).2).1
  have hsecond : ¬ (ch '\n' :: c :: rest).take 4 = blankLine := fun heq =>
    absurd (List.cons.inj heq).1 (by decide)
  show serverFindHeaderEnd (ch '\r' :: ch '\n' :: c :: rest) = _
  rw [serverFindHeaderEnd, if_neg hfirst, serverFindHeaderEnd, if_neg hsecond, Option.map_map]
  rfl

/-- The header of a message ends with its head. -/
theorem serverFindHeaderEnd_head {lines : List Bytes} (hne : lines ≠ [])
    (hlines : ∀ line ∈ lines, line ≠ [] ∧ ∀ c ∈ line, Http.Inline c) (rest : Bytes) :
    serverFindHeaderEnd (Http.headBytes lines ++ rest) = some (Http.headBytes lines).length := by
  induction lines with
  | nil => exact absurd rfl hne
  | cons line lines ih =>
    obtain ⟨⟨-, hline⟩, hlines⟩ := List.forall_mem_cons.mp hlines
    have hsplit : Http.headBytes (line :: lines) = line ++ (lineEnd ++ Http.headBytes lines) := by
      simp only [Http.headBytes, List.flatMap_cons, List.append_assoc]
      rfl
    rw [hsplit, List.append_assoc, List.append_assoc, serverFindHeaderEnd_line hline]
    simp only [List.length_append]
    cases lines with
    | nil =>
      have hblank : serverFindHeaderEnd (lineEnd ++ (Http.headBytes [] ++ rest)) = some 4 := rfl
      have hlength : lineEnd.length + (Http.headBytes []).length = 4 := rfl
      rw [hblank, hlength, Option.map_some, Nat.add_comm]
    | cons next lines =>
      have hrest := ih (List.cons_ne_nil next lines) hlines
      obtain ⟨c, tail, hnext⟩ := List.exists_cons_of_ne_nil (hlines next List.mem_cons_self).1
      have hc : Http.Inline c := (hlines next List.mem_cons_self).2 c (hnext ▸ List.mem_cons_self)
      have hcons : ∃ more, Http.headBytes (next :: lines) ++ rest = c :: more := by
        rw [hnext]
        exact ⟨_, rfl⟩
      obtain ⟨more, hmore⟩ := hcons
      have htwo : lineEnd.length = 2 := rfl
      rw [hmore, serverFindHeaderEnd_lineEnd hc.1, ← hmore, hrest, Option.map_some, Option.map_some,
        htwo, Option.some.injEq]
      omega

theorem headerLines_line {line : Bytes} (hline : ∀ c ∈ line, Http.Inline c) (rest : Bytes) :
    headerLines (line ++ (lineEnd ++ rest)) = line :: headerLines rest := by
  induction line with
  | nil => rfl
  | cons c line ih =>
    obtain ⟨hc, hline⟩ := List.forall_mem_cons.mp hline
    obtain ⟨d, text, htext⟩ : ∃ d text, line ++ (lineEnd ++ rest) = d :: text := by
      cases line with
      | nil => exact ⟨_, _, rfl⟩
      | cons d line => exact ⟨d, _, rfl⟩
    have hmore := ih hline
    rw [htext] at hmore
    rw [List.cons_append, htext, headerLines, if_neg fun heq => hc.1 heq.1, hmore]

/-- The lines of a head are found again, with the empty one at its end. -/
theorem headerLines_head {lines : List Bytes} (hlines : ∀ line ∈ lines, ∀ c ∈ line, Http.Inline c) :
    headerLines (Http.headBytes lines) = lines ++ [[]] := by
  induction lines with
  | nil => rfl
  | cons line lines ih =>
    obtain ⟨hline, hlines⟩ := List.forall_mem_cons.mp hlines
    have hsplit : Http.headBytes (line :: lines) = line ++ (lineEnd ++ Http.headBytes lines) := by
      simp only [Http.headBytes, List.flatMap_cons, List.append_assoc]
      rfl
    rw [hsplit, headerLines_line hline, ih hlines, List.cons_append]

/-- A field is taken for a Content-Length just when its name is that. -/
theorem contentLengthOf_line (f : Http.Field) :
    contentLengthOf f.line = if Http.IsLength f.name then some (ch ' ' :: f.value) else none := by
  have hsize : (bytes "content-length").length = 14 := by decide
  unfold contentLengthOf
  simp only [hsize]
  by_cases hname : Http.IsLength f.name
  · have hlength : f.name.length = 14 := by
      rw [← hsize, ← show f.name.map tolower = bytes "content-length" from hname, List.length_map]
    have htake : f.line.take 14 = f.name := by
      rw [Http.Field.line, ← hlength, List.take_left]
    have hdrop : f.line.drop 14 = ch ':' :: ch ' ' :: f.value := by
      rw [Http.Field.line, ← hlength, List.drop_left]
    have hvalue : f.line.drop (14 + 1) = ch ' ' :: f.value := by
      rw [← List.drop_drop, hdrop]
      rfl
    rw [if_pos hname, htake, hdrop, hvalue, if_pos ⟨hname, rfl⟩]
  · rw [if_neg hname, if_neg]
    rintro ⟨htake, hcolon⟩
    -- the first colon of the line is behind the name, and the one found is the first
    have hcolons : ∀ n, f.line[n]? = some (ch ':') → f.name.length ≤ n := by
      intro n hn
      by_contra hlt
      rw [Http.Field.line, List.getElem?_append_left (by omega)] at hn
      exact (f.inName _ (List.mem_of_getElem? hn)).2 rfl
    rw [List.head?_drop] at hcolon
    have hle := hcolons 14 hcolon
    have hge : 14 ≤ f.name.length := by
      by_contra hlt
      have hmem : ch ':' ∈ f.line.take 14 := by
        refine List.mem_of_getElem? (i := f.name.length) ?_
        rw [List.getElem?_take_of_lt (by omega), Http.Field.line,
          List.getElem?_append_right (Nat.le_refl _), Nat.sub_self]
        rfl
      have hlower := List.mem_map_of_mem (f := tolower) hmem
      rw [htake] at hlower
      exact absurd hlower (by decide)
    refine hname ?_
    have hall : f.line.take 14 = f.name := by
      rw [Http.Field.line, ← Nat.le_antisymm hle hge, List.take_left]
    rw [← hall]
    exact htake

theorem firstLength_fields {fields : List Http.Field} {value : Bytes}
    (h : Http.lengths (fields.map Http.Field.pair) = [value]) (more : List Bytes) :
    ∃ after, firstLength (fields.map Http.Field.line ++ more) = some (ch ' ' :: value, after) := by
  induction fields with
  | nil => cases h
  | cons f fields ih =>
    rw [List.map_cons, Http.lengths_cons] at h
    rw [List.map_cons, List.cons_append, firstLength, contentLengthOf_line]
    by_cases hname : Http.IsLength f.name
    · rw [if_pos (show Http.IsLength f.pair.1 from hname)] at h
      obtain ⟨hvalue, -⟩ := List.cons.inj h
      rw [if_pos hname, ← hvalue]
      exact ⟨_, rfl⟩
    · rw [if_neg (show ¬ Http.IsLength f.pair.1 from hname)] at h
      rw [if_neg hname]
      exact ih h

theorem isDigits_decimal (n : Nat) :
    IsDigits (ch ' ' :: decimal n) ∧ trimBlanks (ch ' ' :: decimal n) = decimal n := by
  have hdigits := isdigit_of_mem_decimal n
  have hblack : ∀ text : Bytes, text ≠ [] → (∀ c ∈ text.head?, isdigit c = true) →
      text.dropWhile (fun c => c == ch ' ' || c == ch '\t') = text := by
    intro text hne htext
    obtain ⟨c, text, rfl⟩ := List.exists_cons_of_ne_nil hne
    have hc := htext c rfl
    refine List.dropWhile_cons_of_neg ?_
    rw [Bool.not_eq_true, Bool.or_eq_false_iff, beq_eq_false_iff_ne, beq_eq_false_iff_ne]
    constructor
    · rintro rfl
      cases hc
    · rintro rfl
      cases hc
  have hlast : ∀ c ∈ (ch ' ' :: decimal n).reverse.head?, isdigit c = true := by
    intro c hc
    rw [List.head?_reverse, List.getLast?_cons_of_ne_nil (decimal_ne_nil n)] at hc
    exact hdigits c (List.mem_of_getLast? hc)
  have htrim : trimBlanks (ch ' ' :: decimal n) = decimal n := by
    unfold trimBlanks
    simp only
    rw [hblack _ (mt List.reverse_eq_nil_iff.mp (List.cons_ne_nil _ _)) hlast, List.reverse_reverse,
      List.dropWhile_cons_of_pos (by decide),
      hblack _ (decimal_ne_nil n) fun c hc => hdigits c (List.mem_of_mem_head? hc)]
  refine ⟨⟨?_, ?_⟩, htrim⟩
  · rw [htrim]
    exact decimal_ne_nil n
  · rw [htrim]
    exact hdigits

section Message

variable {m : Http.Message}

theorem message_lines (m : Http.Message) :
    ∀ line ∈ m.lines, line ≠ [] ∧ ∀ c ∈ line, Http.Inline c := by
  refine List.forall_mem_cons.mpr ⟨⟨m.started, m.inStart⟩, fun line hline => ?_⟩
  obtain ⟨f, -, rfl⟩ := List.mem_map.mp hline
  exact f.isLine

/-- A line that begins with two words `POST` and `/query` is not a Content-Length. -/
theorem contentLengthOf_words {line : Bytes} (h : TwoWords line (bytes "POST") (bytes "/query")) :
    contentLengthOf line = none := by
  obtain ⟨before, between, after, rfl, hbefore, -⟩ := h
  unfold contentLengthOf
  simp only
  rw [if_neg]
  rintro ⟨hname, -⟩
  cases before with
  | nil =>
    obtain ⟨hfirst, -⟩ := List.cons.inj hname
    exact absurd hfirst (by decide)
  | cons c before =>
    obtain ⟨hfirst, -⟩ := List.cons.inj hname
    have hspace := hbefore c List.mem_cons_self
    have hlower : ∀ n : Fin 256, isspace (.ofFin n) = true → tolower (.ofFin n) ≠ ch 'c' := by
      decide +kernel
    exact hlower c.toFin hspace hfirst

variable (hwords : TwoWords m.start (bytes "POST") (bytes "/query"))

include hwords

/-- The content length of a message is that of its body. -/
theorem serverParseContentLength_message (hbody : (m.body.length : Int) ≤ LLONG_MAX)
    (more : Bytes) :
    serverParseContentLength (Http.headBytes m.lines ++ more) (Http.headBytes m.lines).length =
      some m.body.length := by
  have hended : Ended (Http.headBytes m.lines) := .inr ⟨_, rfl⟩
  obtain ⟨after, hafter⟩ := firstLength_fields m.framed [[]]
  have hfirst : firstLength (headerLines (Http.headBytes m.lines)) =
      some (ch ' ' :: decimal m.body.length, after) := by
    rw [headerLines_head fun line hline => (message_lines m line hline).2, Http.Message.lines,
      List.cons_append, firstLength, contentLengthOf_words hwords]
    exact hafter
  obtain ⟨hdigits, htrim⟩ := isDigits_decimal m.body.length
  rw [serverParseContentLength_lines hended, hfirst]
  simp only
  rw [parsedLength_isDigits hdigits, htrim, digitsValue_decimal, if_pos hbody]

/-- In whatever chunks a message arrives that fits the buffer, it is read. -/
theorem serverReadHttpRequest_message {rest : Bytes} {recvs : List Recv}
    (hfits : m.bytes.length < SERVER_REQUEST_BUFFER_SIZE)
    (h : Delivers SERVER_REQUEST_BUFFER_SIZE 0 (m.bytes ++ rest) recvs) :
    ∃ more, received recvs (m.bytes ++ more).length = m.bytes ++ more ∧
      serverReadHttpRequest SERVER_REQUEST_BUFFER_SIZE recvs = some
        (.ok (m.bytes ++ more).length (Http.headBytes m.lines).length m.body.length) := by
  have hlength : m.bytes.length = (Http.headBytes m.lines).length + m.body.length :=
    List.length_append
  have hmax : SERVER_REQUEST_BUFFER_SIZE = 65536 := rfl
  have hllong : LLONG_MAX = 9223372036854775807 := by decide
  generalize hwindow : (m.bytes ++ rest).take (SERVER_REQUEST_BUFFER_SIZE - 1) = window
  obtain ⟨more, hmore⟩ : Http.headBytes m.lines <+: window := by
    rw [← hwindow, Http.Message.bytes, List.append_assoc, List.take_append,
      List.take_of_length_le (by omega)]
    exact List.prefix_append _ _
  have hfound : serverFindHeaderEnd window = some (Http.headBytes m.lines).length := by
    rw [← hmore]
    exact serverFindHeaderEnd_head (List.cons_ne_nil _ _) (message_lines m) more
  have hpos : SERVER_REQUEST_BUFFER_SIZE ≠ 0 := by decide
  obtain ⟨read, n, hread, houtcome⟩ := serverReadHttpRequest_outcome hpos h
  rw [expectedOutcome_some (hwindow.symm ▸ hfound), hwindow, ← hmore, List.take_add, List.take_left,
    serverParseContentLength_message hwords (by omega), lengthOutcome, if_neg (by omega),
    if_pos (by rw [List.length_append]; omega)] at houtcome
  cases read with
  | tooLarge => cases houtcome
  | badRequest => cases houtcome
  | ok length bodyOffset bodyLength =>
    cases houtcome
    have hstart : HeadInvariant SERVER_REQUEST_BUFFER_SIZE [] none :=
      ⟨by decide, fun _ _ h => absurd h.symm (Option.some_ne_none _)⟩
    have hloop : serverReadLoop SERVER_REQUEST_BUFFER_SIZE [] none recvs =
        some (.ok length (Http.headBytes m.lines).length m.body.length) := hread
    obtain ⟨request, hbegins, rfl, -, hwhole, -⟩ := serverReadLoop_ok hstart h.arrives hloop
    have hrequest : m.bytes <+: request := by
      refine List.prefix_of_prefix_length_le (List.prefix_append m.bytes rest)
        (hbegins.trans h.chunks) ?_
      omega
    obtain ⟨more, rfl⟩ := hrequest
    exact ⟨more, (List.prefix_iff_eq_take.mp hbegins).symm, hread⟩

end Message

/-! ## The body of a query -/

/-- A byte that the server reads back from a literal: no control character but tab, line feed and
carriage return. -/
def Readable (c : UInt8) : Prop := 0x20 ≤ c ∨ c = 9 ∨ c = 10 ∨ c = 13

instance (c : UInt8) : Decidable (Readable c) := inferInstanceAs (Decidable (_ ∨ _))

/-- The JSON object with the text as its one member `sql`. -/
def queryBody (sql : Bytes) : Bytes := ch '\x7b' :: (member "sql" (jsonLiteral sql) ++ [ch '\x7d'])

theorem queryBody_isText (sql : Bytes) : IsText (.object [(bytes "sql", .string sql)]) (queryBody sql) :=
  ⟨[], _, [], space_nil, .object (derives_keyed "sql" sql), space_nil, (List.append_nil _).symm⟩

theorem simple_itemOf {c : UInt8} (h : Readable c) : Simple (itemOf c) := by
  have hletters : isSimpleEscape (ch '"') = true ∧ isSimpleEscape (ch '\\') = true ∧
      isSimpleEscape (ch 'n') = true ∧ isSimpleEscape (ch 'r') = true ∧
      isSimpleEscape (ch 't') = true := by
    decide
  obtain ⟨hquote, hsolidus, hn, hr, ht⟩ := hletters
  unfold itemOf
  split
  · exact hquote
  split
  · exact hsolidus
  split
  · exact hn
  split
  · exact hr
  split
  · exact ht
  split
  · rename_i hlf hcr htab hcontrol
    rcases h with hle | rfl | rfl | rfl
    · exact absurd hcontrol (UInt8.not_lt.mpr hle)
    · exact absurd rfl htab
    · exact absurd rfl hlf
    · exact absurd rfl hcr
  · trivial

theorem simpleEscapes_queryBody {sql : Bytes} (h : ∀ c ∈ sql, Readable c) :
    simpleEscapes .outside (queryBody sql) = true := by
  have hkey : ∀ c ∈ bytes "sql", Readable c := by decide +kernel
  have hall : ∀ {text : Bytes}, (∀ c ∈ text, Readable c) → ∀ item ∈ text.map itemOf, Simple item := by
    intro text htext item hitem
    obtain ⟨c, hc, rfl⟩ := List.mem_map.mp hitem
    exact simple_itemOf (htext c hc)
  have hopen : ch '"' ∉ [ch '\x7b'] := by decide
  have hcolon : ch '"' ∉ [ch ':'] := by decide
  have hbody : queryBody sql = [ch '\x7b'] ++ (literal ((bytes "sql").map itemOf) ++
      ([ch ':'] ++ (literal (sql.map itemOf) ++ [ch '\x7d']))) := by
    simp only [queryBody, member, memberText, jsonLiteral, List.append_assoc, List.cons_append,
      List.nil_append]
  rw [hbody, simpleEscapes_skip hopen, simpleEscapes_literal, simpleEscapes_skip hcolon,
    simpleEscapes_literal]
  exact ⟨hall hkey, hall h, rfl⟩

/-- The server reads the text from the body. -/
theorem serverExtractSqlFromJson_queryBody {sql : Bytes} (h : ∀ c ∈ sql, Readable c)
    (hshort : sql.length < MAX_SQL_LENGTH) :
    (serverExtractSqlFromJson (queryBody sql) MAX_SQL_LENGTH).text = some sql := by
  have hfound := foundText_isText (queryBody_isText sql) (simpleEscapes_queryBody h)
  have hkey : ¬ 64 ≤ (bytes "sql").length := by decide
  have hfirst : firstSql none (valueLiterals (.object [(bytes "sql", .string sql)])) = some sql := by
    show firstSql none [.key (bytes "sql") (some sql), .value sql] = some sql
    rw [firstSql, if_neg hkey, if_pos rfl, Option.filter_some, if_pos (decide_eq_true hshort)]
  exact hfound.trans hfirst

/-! ## Answers -/

/-- What a caller wants to know of a result. -/
inductive Answer
  | error (text : Bytes)
  | message (text : Bytes)
  | table (columns : List Bytes) (rows : List (List Bytes))
  deriving DecidableEq, Repr

/-- What the result of a local call says. -/
def QueryResult.answer (result : QueryResult) : Answer :=
  if !result.success then .error result.error.text
  else if result.kind = .message then .message result.message.text
  else .table (result.columns.map CStr.text) result.rows

def arrayOf {α : Type} (element : Value → Option α) : Value → Option (List α)
  | .array vs => vs.mapM element
  | _ => none

/-- What a client takes from the value of a response body. -/
def answerOf : Value → Option Answer
  | .object ms =>
    match ms.lookup (bytes "success") with
    | some (.bool false) => (ms.lookup (bytes "error")).bind stringText |>.map .error
    | some (.bool true) =>
      match ms.lookup (bytes "message") with
      | some text => (stringText text).map .message
      | none => do
        let columns ← (ms.lookup (bytes "columns")).bind (arrayOf stringText)
        let rows ← (ms.lookup (bytes "rows")).bind (arrayOf (arrayOf stringText))
        some (.table columns rows)
    | _ => none
  | _ => none

/-- The code in a status line. -/
def statusCodeOf (start : Bytes) : Nat := digitsValue ((start.drop 9).takeWhile isdigit)

/-- What a client takes from the bytes of the connection: the status code and the answer. -/
def clientReads (wire : Bytes) : Option (Nat × Answer) := do
  let ((start, _, body), _) ← Http.readMessage wire
  let value ← Json.parse body
  let answer ← answerOf value
  some (statusCodeOf start, answer)

theorem arrayOf_map {α β : Type} {element : Value → Option β} {f : α → Value} {g : α → β}
    {items : List α} (h : ∀ item ∈ items, element (f item) = some (g item)) :
    arrayOf element (.array (items.map f)) = some (items.map g) := by
  show (items.map f).mapM element = _
  induction items with
  | nil => rfl
  | cons item items ih =>
    obtain ⟨hitem, hitems⟩ := List.forall_mem_cons.mp h
    rw [List.map_cons, List.mapM_cons, hitem, ih hitems]
    rfl

theorem answerOf_table (columns rows : Value) :
    answerOf (.object [(bytes "success", .bool true), (bytes "columns", columns),
      (bytes "rows", rows)]) =
      (arrayOf stringText columns).bind fun columns =>
        (arrayOf (arrayOf stringText) rows).bind fun rows => some (.table columns rows) := by
  have hmembers : ∀ ms : List (Bytes × Value), ms.lookup (bytes "success") = some (.bool true) →
      ms.lookup (bytes "message") = none → answerOf (.object ms) =
        ((ms.lookup (bytes "columns")).bind (arrayOf stringText)).bind fun columns =>
          ((ms.lookup (bytes "rows")).bind (arrayOf (arrayOf stringText))).bind fun rows =>
            some (.table columns rows) := by
    intro ms hsuccess hmessage
    unfold answerOf
    simp only [hsuccess, hmessage]
    rfl
  exact hmembers _ rfl rfl

/-- The body of a response says what the result says. -/
theorem answerOf_responseValue (result : QueryResult) :
    answerOf (responseValue result) = some result.answer := by
  unfold responseValue QueryResult.answer
  cases hsuccess : result.success with
  | false => rfl
  | true =>
    cases hkind : result.kind with
    | message => rfl
    | table =>
      have hcolumns : arrayOf stringText
          (.array (result.columns.map fun column : Identifier => .string column.text)) =
          some (result.columns.map CStr.text) :=
        arrayOf_map fun _ _ => rfl
      have hcells : ∀ row : Row, arrayOf stringText (.array (row.map .string)) = some (row.map id) :=
        fun row => arrayOf_map fun _ _ => rfl
      have hrows : arrayOf (arrayOf stringText)
          (.array (result.rows.map fun row : Row => .array (row.map .string))) =
          some (result.rows.map id) :=
        arrayOf_map fun row _ => (hcells row).trans (congrArg some (List.map_id row))
      rw [List.map_id] at hrows
      refine (answerOf_table _ _).trans ?_
      rw [hcolumns, Option.bind_some, hrows]
      rfl

theorem statusCodeOf_statusLine (statusCode : Nat) :
    statusCodeOf (statusLine statusCode) = statusCode := by
  have hdrop : (statusLine statusCode).drop 9 =
      decimal statusCode ++ ch ' ' :: serverReasonPhrase statusCode := rfl
  have htake : (decimal statusCode ++ ch ' ' :: serverReasonPhrase statusCode).takeWhile isdigit =
      decimal statusCode := by
    rw [List.takeWhile_append_of_pos (isdigit_of_mem_decimal statusCode),
      List.takeWhile_cons_of_neg (by decide), List.append_nil]
  rw [statusCodeOf, hdrop, htake, digitsValue_decimal]

/-- A client reads the answer off the whole response. -/
theorem clientReads_response {statusCode : Nat} {result : QueryResult} {body : Bytes}
    (hparse : Json.parse body = some (responseValue result)) :
    clientReads (responseMessage statusCode body).bytes = some (statusCode, result.answer) := by
  have hread := Http.readMessage_bytes (responseMessage statusCode body) []
  rw [List.append_nil] at hread
  unfold clientReads
  rw [hread]
  show (Json.parse body).bind _ = _
  rw [hparse, Option.bind_some, answerOf_responseValue]
  show some (statusCodeOf (statusLine statusCode), result.answer) = _
  rw [statusCodeOf_statusLine]

/-! ## A remote call is a local call -/

theorem TwoWords.append {text first second : Bytes} (h : TwoWords text first second) {more : Bytes}
    (hmore : ∀ c ∈ more.head?, isspace c = true) : TwoWords (text ++ more) first second := by
  obtain ⟨before, between, after, rfl, hbefore, hfirst, hbetween, hsecond, hafter⟩ := h
  refine ⟨before, between, after ++ more, ?_, hbefore, hfirst, hbetween, hsecond, ?_⟩
  · simp only [List.append_assoc]
  · cases after with
    | nil => exact hmore
    | cons c after => exact hafter

/-- A string without NUL goes on before the first NUL of what follows. -/
theorem cstring_append {text : Bytes} (h : 0 ∉ text) (more : Bytes) :
    Stdio.cstring (text ++ more) = text ++ Stdio.cstring more := by
  refine List.takeWhile_append_of_pos fun c hc => decide_eq_true ?_
  rintro rfl
  exact h hc

theorem cstring_self {text : Bytes} (h : 0 ∉ text) : Stdio.cstring text = text := by
  have happend := cstring_append h []
  rwa [List.append_nil, show Stdio.cstring [] = [] from rfl, List.append_nil] at happend

/-- A request for the engine, in whatever chunks it arrives, leads to the call with its text. -/
theorem serverClientCall_message {m : Http.Message} {rest sql : Bytes} {recvs : List Recv}
    (hwords : TwoWords m.start (bytes "POST") (bytes "/query")) (hstart : 0 ∉ m.start)
    (hbody : m.body = queryBody sql) (hsql : ∀ c ∈ sql, Readable c)
    (hshort : sql.length < MAX_SQL_LENGTH) (hfits : m.bytes.length < SERVER_REQUEST_BUFFER_SIZE)
    (h : Delivers SERVER_REQUEST_BUFFER_SIZE 0 (m.bytes ++ rest) recvs) :
    serverClientCall recvs = some (.execute sql) := by
  obtain ⟨more, hreceived, hread⟩ := serverReadHttpRequest_message hwords hfits h
  have hroute : serverRoute (m.bytes ++ more) (Http.headBytes m.lines).length m.body.length =
      .execute sql := by
    have hzero : 0 ∉ sql := fun hmem => absurd (hsql 0 hmem) (by decide)
    refine serverRoute_execute_iff.mpr ⟨?_, ?_, sql, ?_, (cstring_self hzero).symm⟩
    · have hfirst : m.bytes ++ more = (m.start ++ lineEnd) ++
          ((m.fields.map Http.Field.line).flatMap (· ++ Http.lineEnd) ++ Http.lineEnd ++ m.body ++
            more) := by
        simp only [Http.Message.bytes, Http.headBytes, Http.Message.lines, List.flatMap_cons,
          List.append_assoc]
        rfl
      have hline : 0 ∉ m.start ++ lineEnd := by
        rw [List.mem_append, not_or]
        exact ⟨hstart, by decide⟩
      rw [hfirst, cstring_append hline, List.append_assoc]
      refine hwords.append ?_
      intro c hc
      obtain rfl := Option.some.inj hc
      rfl
    · rw [hbody]
      exact Nat.succ_ne_zero _
    · rw [Http.Message.bytes, List.append_assoc, List.drop_left, List.take_left, hbody]
      exact serverExtractSqlFromJson_queryBody hsql hshort
  unfold serverClientCall
  rw [hread, Option.map_some]
  simp only
  rw [hreceived, hroute]

/-- What a client reads is at any moment nothing, or the answer of the reply; it is the answer once
calls of `send` enough have taken bytes. -/
structure Reply.Reaches (reply : Reply) (body : Bytes) (sends : List Send) (wire : Bytes) :
    Prop where
  built : serverBuildJsonResponse reply.2 = some body
  only : ∀ answer, clientReads wire = some answer →
    answer = (serverStatusForResult (some reply.2), reply.2.answer)
  whole : body.length < 2 ^ 64 → (∀ event ∈ sends, event ≠ .failed ∧ event ≠ .takes 0) →
    (responseMessage (serverStatusForResult (some reply.2)) body).bytes.length ≤
      (sends.filter fun event => event ≠ .interrupted).length →
    clientReads wire = some (serverStatusForResult (some reply.2), reply.2.answer)

/-- A request with the text of a statement executes it, and its reply reaches the client. -/
theorem serverHandleClient_message {registry : Registry} (hreach : EngineReachable registry)
    {m : Http.Message} {rest sql : Bytes} {recvs : List Recv}
    (hwords : TwoWords m.start (bytes "POST") (bytes "/query")) (hstart : 0 ∉ m.start)
    (hbody : m.body = queryBody sql) (hsql : ∀ c ∈ sql, Readable c)
    (hshort : sql.length < MAX_SQL_LENGTH) (hfits : m.bytes.length < SERVER_REQUEST_BUFFER_SIZE)
    (hrecvs : Delivers SERVER_REQUEST_BUFFER_SIZE 0 (m.bytes ++ rest) recvs) (sends : List Send) :
    ∃ reply handled body, engineExecuteSql registry sql = some (reply, handled.registry) ∧
      serverHandleClient registry recvs ⟨[], sends⟩ = some handled ∧
      Reply.Reaches reply body sends handled.socket.wire := by
  have hcall := serverClientCall_message hwords hstart hbody hsql hshort hfits hrecvs
  obtain ⟨handled, statusCode, result, body, hhandle, -, hanswer, hbuild, hanswers⟩ :=
    serverHandleClient_answers hreach hcall sends
  obtain ⟨⟨⟨status, result'⟩, registry'⟩, hexec, heq⟩ := Option.map_eq_some_iff.mp hanswer
  obtain ⟨hpair, rfl⟩ := Prod.mk.inj heq
  obtain ⟨rfl, rfl⟩ := Prod.mk.inj hpair
  have hwhole : clientReads
      (responseMessage (serverStatusForResult (some result')) body).bytes =
      some (serverStatusForResult (some result'), result'.answer) :=
    clientReads_response hanswers.json
  refine ⟨(status, result'), handled, body, hexec, hhandle, hbuild, ?_, ?_⟩
  · intro answer hread
    by_cases heq : handled.socket.wire =
      (responseMessage (serverStatusForResult (some result')) body).bytes
    · rw [heq, hwhole] at hread
      exact (Option.some.inj hread).symm
    · unfold clientReads at hread
      rw [Http.readMessage_prefix hanswers.wire heq] at hread
      cases hread
  · intro hlength hwilling henough
    rw [(hanswers.whole hlength hwilling henough).1, hwhole]

/-- A client sends a text in a `POST /query`, in any fields and chunks. The handler makes the call of
the engine with this text, and no other: what the client reads from the connection is at any moment
nothing, or the answer of the call; it is the answer once calls of `send` enough have taken bytes. -/
theorem remote_eq_local {registry : Registry} (hreach : EngineReachable registry)
    {m : Http.Message} {rest sql : Bytes} {recvs : List Recv}
    (hwords : TwoWords m.start (bytes "POST") (bytes "/query")) (hstart : 0 ∉ m.start)
    (hbody : m.body = queryBody sql) (hsql : ∀ c ∈ sql, Readable c)
    (hshort : sql.length < MAX_SQL_LENGTH) (hfits : m.bytes.length < SERVER_REQUEST_BUFFER_SIZE)
    (hrecvs : Delivers SERVER_REQUEST_BUFFER_SIZE 0 (m.bytes ++ rest) recvs) (sends : List Send) :
    ∃ status result registry' handled body,
      engineExecuteSql registry sql = some ((status, result), registry') ∧
      serverHandleClient registry recvs ⟨[], sends⟩ = some handled ∧
      handled.registry = registry' ∧ serverBuildJsonResponse result = some body ∧
      (∀ answer, clientReads handled.socket.wire = some answer →
        answer = (serverStatusForResult (some result), result.answer)) ∧
      (body.length < 2 ^ 64 → (∀ event ∈ sends, event ≠ .failed ∧ event ≠ .takes 0) →
        (responseMessage (serverStatusForResult (some result)) body).bytes.length ≤
          (sends.filter fun event => event ≠ .interrupted).length →
        clientReads handled.socket.wire =
          some (serverStatusForResult (some result), result.answer)) := by
  obtain ⟨⟨status, result⟩, handled, body, hexec, hhandle, hreaches⟩ :=
    serverHandleClient_message hreach hwords hstart hbody hsql hshort hfits hrecvs sends
  exact ⟨status, result, handled.registry, handled, body, hexec, hhandle, rfl, hreaches.built,
    hreaches.only, hreaches.whole⟩

def insertSql : Bytes := bytes "INSERT INTO t (a) VALUES ('x');"

/-- The request of a client for an INSERT. -/
def insertRequest : Http.Message where
  start := bytes "POST /query HTTP/1.1"
  fields := [lengthField 41]
  body := queryBody insertSql
  started := List.cons_ne_nil _ _
  inStart := by decide +kernel
  framed := by decide +kernel

theorem insertRequest_words :
    TwoWords insertRequest.start (bytes "POST") (bytes "/query") :=
  ⟨[], bytes " ", bytes " HTTP/1.1", rfl, by decide +kernel, by decide +kernel, by decide +kernel,
    by decide +kernel, by decide +kernel⟩

theorem insertRequest_delivers :
    Delivers SERVER_REQUEST_BUFFER_SIZE 0 (insertRequest.bytes ++ [])
      [.received (insertRequest.bytes.take 30), .received (insertRequest.bytes.drop 30),
        .received []] := by
  have hsplit : insertRequest.bytes ++ [] =
      insertRequest.bytes.take 30 ++ (insertRequest.bytes.drop 30 ++ []) := by
    rw [← List.append_assoc, List.take_append_drop]
  rw [hsplit]
  exact .received (by decide +kernel) (by decide +kernel)
    (.received (by decide +kernel) (by decide +kernel) .closed)

/-- It arrives in two chunks, and its response leaves byte by byte. -/
theorem remote_eq_local_insert :
    ∃ handled, serverHandleClient []
        [.received (insertRequest.bytes.take 30), .received (insertRequest.bytes.drop 30),
          .received []] ⟨[], List.replicate 600 (.takes 1)⟩ = some handled ∧
      clientReads handled.socket.wire = some (200, .message (bytes "1 row inserted into t.")) := by
  obtain ⟨status, result, registry', handled, body, hexec, hhandle, -, hbuild, -, hreads⟩ :=
    remote_eq_local .start insertRequest_words (by decide +kernel) rfl (by decide +kernel)
      (by decide +kernel) (by decide +kernel) insertRequest_delivers (List.replicate 600 (.takes 1))
  have hresult : (engineExecuteSql [] insertSql).map (fun r =>
      (serverStatusForResult (some r.1.2), r.1.2.answer,
        (serverBuildJsonResponse r.1.2).map List.length)) =
      some (200, .message (bytes "1 row inserted into t."), some 51) := by
    decide +kernel
  rw [hexec, Option.map_some, Option.some.injEq, Prod.mk.injEq, Prod.mk.injEq, hbuild,
    Option.map_some, Option.some.injEq] at hresult
  obtain ⟨hcode, hanswer, hlength⟩ := hresult
  refine ⟨handled, hhandle, ?_⟩
  rw [hcode, hanswer] at hreads
  have hsize : (responseMessage 200 body).bytes.length ≤ 600 := by
    have hcode : 200 < 1000 := by decide
    have hheader := length_responseHeader hcode (show body.length < 2 ^ 64 by omega)
    rw [responseMessage_bytes, List.length_append]
    omega
  have hwilling : ∀ event ∈ List.replicate 600 (Send.takes 1), event ≠ .failed ∧ event ≠ .takes 0 := by
    intro event hevent
    rw [List.eq_of_mem_replicate hevent]
    decide
  have henough : ((List.replicate 600 (Send.takes 1)).filter fun event => event ≠ .interrupted).length =
      600 := by
    rw [List.filter_replicate_of_pos (by decide), List.length_replicate]
  exact hreads (by omega) hwilling (by rw [henough]; exact hsize)

end JungleDb
