import JungleDb.Lib.Cut
import JungleDb.Sql.Utils

/-!
# File mode and the REPL of `main.c`

Both modes cut their input into statements with `utils_find_statement_terminator` and pass each to
`main_process_sql_statement`; here a mode is the list of the statements it passes, with its message
about a statement without an end. Strings are lists of bytes other than NUL, and positions natural
numbers: inputs of 2 GiB, whose positions do not fit an `int`, are left out. A buffer that is NULL
is the empty one, no branch tells them apart.
-/

namespace JungleDb

open CString

/-! ## Terminators -/

/-- The loop of `utils_find_statement_terminator` from `start_index` on; the position counts from
there. -/
def statementTerminator (inQuotes : Bool) : Bytes → Option Nat
  | [] => none
  | c :: text =>
    if c = ch '\'' then
      if inQuotes && text.head? = some (ch '\'') then
        (statementTerminator inQuotes (text.drop 1)).map (· + 2)
      else (statementTerminator (!inQuotes) text).map (· + 1)
    else if !inQuotes && c = ch ';' then some 0
    else (statementTerminator inQuotes text).map (· + 1)
termination_by text => text.length

/-- `utils_find_statement_terminator`; `none` is FAILURE. -/
def utilsFindStatementTerminator (text : Bytes) : Option Nat := statementTerminator false text

/-- The part of a text up to its first `;` outside quotes, and the rest. -/
abbrev firstStatement (inQuotes : Bool) (text : Bytes) : Option (Bytes × Bytes) :=
  Cut.first (ch '\'') (ch ';') inQuotes text

/-- The statements of a text, and the text left. -/
abbrev statementsOf (text : Bytes) : List Bytes × Bytes := Cut.parts (ch '\'') (ch ';') text

theorem length_first_cons (c : UInt8) (inQuotes : Bool) (text : Bytes) :
    ((firstStatement inQuotes text).map fun cut => (c :: cut.1, cut.2)).map
        (fun cut => cut.1.length - 1) =
      ((firstStatement inQuotes text).map fun cut => cut.1.length - 1).map (· + 1) := by
  cases h : firstStatement inQuotes text with
  | none => rfl
  | some cut =>
    obtain ⟨-, body, hbody⟩ := Cut.first_eq_some h
    rw [Option.map_some, Option.map_some, Option.map_some, Option.map_some, hbody]
    simp only [List.length_cons, List.length_append, List.length_nil]
    rfl

theorem firstStatement_quote (inQuotes : Bool) (text : Bytes) :
    firstStatement inQuotes (ch '\'' :: text) =
      (firstStatement (!inQuotes) text).map fun cut => (ch '\'' :: cut.1, cut.2) := by
  have hstop : ch '\'' ≠ ch ';' := by decide
  show Cut.first _ _ _ _ = _
  rw [Cut.first, if_neg fun h => hstop h.1, decide_eq_true rfl, Bool.xor_true]

/-- A doubled quote inside quotes ends them and opens them again. -/
theorem statementTerminator_eq (inQuotes : Bool) (text : Bytes) :
    statementTerminator inQuotes text =
      (firstStatement inQuotes text).map fun cut => cut.1.length - 1 := by
  induction inQuotes, text using statementTerminator.induct with
  | case1 =>
    rw [statementTerminator]
    rfl
  | case2 inQuotes text hdoubled ih =>
    rw [statementTerminator, if_pos rfl, if_pos hdoubled, ih]
    rw [Bool.and_eq_true, decide_eq_true_eq] at hdoubled
    obtain ⟨rfl, hhead⟩ := hdoubled
    obtain ⟨rest, rfl⟩ := List.head?_eq_some_iff.mp hhead
    rw [firstStatement_quote, length_first_cons, firstStatement_quote, length_first_cons,
      Option.map_map, Option.map_map, Option.map_map]
    rfl
  | case3 inQuotes text hsingle ih =>
    rw [statementTerminator, if_pos rfl, if_neg hsingle, ih, firstStatement_quote,
      length_first_cons]
  | case4 inQuotes c text hquote hstop =>
    rw [statementTerminator, if_neg hquote, if_pos hstop]
    rw [Bool.and_eq_true, decide_eq_true_eq, Bool.not_eq_true'] at hstop
    show _ = (Cut.first _ _ _ _).map _
    rw [Cut.first, if_pos ⟨hstop.2, hstop.1⟩]
    rfl
  | case5 inQuotes c text hquote hstop ih =>
    rw [statementTerminator, if_neg hquote, if_neg hstop, ih]
    rw [Bool.and_eq_true, decide_eq_true_eq, Bool.not_eq_true'] at hstop
    show _ = (Cut.first _ _ _ _).map _
    rw [Cut.first, if_neg fun h => hstop ⟨h.2, h.1⟩, decide_eq_false hquote, Bool.xor_false]
    exact (length_first_cons c inQuotes text).symm

theorem utilsFindStatementTerminator_eq_none {text : Bytes} :
    utilsFindStatementTerminator text = none ↔ firstStatement false text = none := by
  unfold utilsFindStatementTerminator
  rw [statementTerminator_eq, Option.map_eq_none_iff]

/-- The statement is the text up to the terminator. -/
theorem utilsFindStatementTerminator_eq_some {text : Bytes} {terminator : Nat}
    (h : utilsFindStatementTerminator text = some terminator) :
    firstStatement false text =
      some (text.take (terminator + 1), text.drop (terminator + 1)) := by
  unfold utilsFindStatementTerminator at h
  rw [statementTerminator_eq, Option.map_eq_some_iff] at h
  obtain ⟨⟨part, rest⟩, hcut, rfl⟩ := h
  obtain ⟨rfl, body, rfl⟩ := Cut.first_eq_some hcut
  have hlen : (body ++ [ch ';']).length - 1 + 1 = (body ++ [ch ';']).length := by
    rw [List.length_append]
    rfl
  simp only [hlen, List.take_left, List.drop_left]
  exact hcut

/-! ## File mode -/

/-- `main_trimmed_equals` -/
def mainTrimmedEquals (line keyword : Bytes) : Bool :=
  utilsEqualsIgnoreCase (utilsTrim line) keyword

/-- `while (buffer != NULL && ...) { ... }`: the statements of the buffer, and the buffer left. -/
def drainBuffer (buffer : Bytes) : List Bytes × Bytes :=
  match _hfound : utilsFindStatementTerminator buffer with
  | none => ([], buffer)
  | some terminator =>
    -- `main_replace_buffer_with_remainder` trims both ends of the remainder
    let next := drainBuffer (utilsTrim (buffer.drop (terminator + 1)))
    (buffer.take (terminator + 1) :: next.1, next.2)
termination_by buffer.length
decreasing_by
  have hlt := Cut.length_rest_lt (utilsFindStatementTerminator_eq_some _hfound)
  exact Nat.lt_of_le_of_lt (length_utilsTrim_le _) hlt

/-- A line that ends the REPL when the buffer is empty. -/
def isExitLine (line : Bytes) : Bool :=
  mainTrimmedEquals line (bytes "exit") || mainTrimmedEquals line (bytes "quit")

/-- `while (1) { ... }`, with the lines that `fgets` will store. -/
def replLoop (buffer : Bytes) : List Bytes → List Bytes × Option Bytes
  | [] =>
    ([], if buffer ≠ [] then some (bytes "Error: Incomplete SQL statement before EOF.\n") else none)
  | line :: lines =>
    if buffer = [] ∧ isExitLine line = true then ([], none)
    else
      let drained := drainBuffer (buffer ++ line)
      let next := replLoop drained.2 lines
      (drained.1 ++ next.1, next.2)

theorem plain_of_spaces {space : Bytes} (h : Spaces space) :
    ∀ c ∈ space, c ≠ ch '\'' ∧ c ≠ ch ';' := by
  intro c hc
  have hspace := h c hc
  constructor
  · rintro rfl
    cases hspace
  · rintro rfl
    cases hspace

theorem firstStatement_append_none {inQuotes : Bool} {text : Bytes}
    (h : firstStatement inQuotes text = none) (more : Bytes) :
    firstStatement inQuotes (text ++ more) =
      (firstStatement (Cut.quoted (ch '\'') inQuotes text) more).map fun cut =>
        (text ++ cut.1, cut.2) :=
  Cut.first_append_none h more

theorem firstStatement_space {space : Bytes} (h : Spaces space) (inQuotes : Bool) (text : Bytes) :
    firstStatement inQuotes (space ++ text) =
      (firstStatement inQuotes text).map fun cut => (space ++ cut.1, cut.2) := by
  obtain ⟨hnone, hquoted⟩ := Cut.first_of_plain (plain_of_spaces h) inQuotes
  rw [firstStatement_append_none hnone, hquoted]

theorem statementsOf_none {text : Bytes} (h : firstStatement false text = none) :
    statementsOf text = ([], text) := Cut.parts_of_none h

theorem statementsOf_some {text part rest : Bytes}
    (h : firstStatement false text = some (part, rest)) :
    statementsOf text = (part :: (statementsOf rest).1, (statementsOf rest).2) :=
  Cut.parts_of_some h

/-- Leading white space only goes into the first statement. -/
theorem statementsOf_space {space : Bytes} (h : Spaces space) (text : Bytes) :
    (statementsOf (space ++ text)).1.map utilsTrim = (statementsOf text).1.map utilsTrim ∧
      ((statementsOf text).1 ≠ [] → (statementsOf (space ++ text)).2 = (statementsOf text).2) := by
  have hfirst := firstStatement_space h false text
  cases hcut : firstStatement false text with
  | none =>
    rw [hcut] at hfirst
    rw [statementsOf_none hcut, statementsOf_none hfirst]
    exact ⟨rfl, fun hne => absurd rfl hne⟩
  | some cut =>
    rw [hcut] at hfirst
    rw [statementsOf_some hcut, statementsOf_some hfirst]
    refine ⟨?_, fun _ => rfl⟩
    rw [List.map_cons, List.map_cons, utilsTrim_space_left h]

/-- Trailing white space stays behind the last statement. -/
theorem statementsOf_space_right {space : Bytes} (h : Spaces space) (text : Bytes) :
    statementsOf (text ++ space) = ((statementsOf text).1, (statementsOf text).2 ++ space) := by
  have hleft : firstStatement false (statementsOf text).2 = none := Cut.first_left text
  obtain ⟨hnone, -⟩ := Cut.first_of_plain (plain_of_spaces h)
    (Cut.quoted (ch '\'') false (statementsOf text).2)
  have hfirst := Cut.first_append_none hleft space
  rw [hnone, Option.map_none] at hfirst
  rw [statementsOf, Cut.parts_append, Cut.parts_of_none hfirst, List.append_nil]

theorem statements_eq_nil_of_map {text text' : Bytes}
    (h : (statementsOf text).1.map utilsTrim = (statementsOf text').1.map utilsTrim) :
    (statementsOf text).1 = [] ↔ (statementsOf text').1 = [] := by
  rw [← List.map_eq_nil_iff (f := utilsTrim), h, List.map_eq_nil_iff]

/-- Trimming a text does not change its statements, up to white space, nor what is left. -/
theorem statementsOf_utilsTrim (text : Bytes) :
    (statementsOf (utilsTrim text)).1.map utilsTrim = (statementsOf text).1.map utilsTrim ∧
      ((statementsOf text).1 ≠ [] →
        utilsTrim (statementsOf (utilsTrim text)).2 = utilsTrim (statementsOf text).2) := by
  obtain ⟨lead, trail, hlead, htrail, htext⟩ := exists_utilsTrim text
  obtain ⟨hmap, hleft⟩ := statementsOf_space hlead (utilsTrim text ++ trail)
  have hright := statementsOf_space_right htrail (utilsTrim text)
  rw [← htext] at hmap hleft
  constructor
  · rw [hmap, hright]
  · intro hne
    rw [hleft fun hnil => hne ((statements_eq_nil_of_map hmap).mpr hnil), hright,
      utilsTrim_space_right htrail]

/-! ## The statements of file mode -/

theorem firstStatement_none_iff {text : Bytes} :
    (statementsOf text).1 = [] ↔ firstStatement false text = none := Cut.parts_eq_nil

theorem drainBuffer_none {buffer : Bytes} (h : firstStatement false buffer = none) :
    drainBuffer buffer = ([], buffer) := by
  rw [drainBuffer]
  split
  · rfl
  · rename_i hfound
    rw [utilsFindStatementTerminator_eq_none.mpr h] at hfound
    cases hfound

theorem drainBuffer_some {buffer part rest : Bytes}
    (h : firstStatement false buffer = some (part, rest)) :
    drainBuffer buffer = (part :: (drainBuffer (utilsTrim rest)).1,
      (drainBuffer (utilsTrim rest)).2) := by
  rw [drainBuffer]
  split
  · rename_i hnone
    rw [utilsFindStatementTerminator_eq_none.mp hnone] at h
    cases h
  · rename_i hfound
    rw [utilsFindStatementTerminator_eq_some hfound] at h
    cases h
    rfl

/-- Draining a buffer gives its statements, up to white space, and leaves the rest trimmed, or all of
it as it is. -/
theorem drainBuffer_statements (buffer : Bytes) :
    (drainBuffer buffer).1.map utilsTrim = (statementsOf buffer).1.map utilsTrim ∧
      (drainBuffer buffer).2 =
        if (statementsOf buffer).1 = [] then buffer else utilsTrim (statementsOf buffer).2 := by
  induction buffer using drainBuffer.induct with
  | case1 buffer hnone =>
    have hcut := utilsFindStatementTerminator_eq_none.mp hnone
    rw [drainBuffer_none hcut, if_pos (firstStatement_none_iff.mpr hcut), statementsOf_none hcut]
    exact ⟨rfl, rfl⟩
  | case2 buffer terminator hfound ih =>
    have hcut := utilsFindStatementTerminator_eq_some hfound
    generalize buffer.drop (terminator + 1) = rest at hcut ih
    obtain ⟨hmap, hleft⟩ := ih
    obtain ⟨htrim, htrimLeft⟩ := statementsOf_utilsTrim rest
    rw [drainBuffer_some hcut, statementsOf_some hcut, if_neg (List.cons_ne_nil _ _)]
    refine ⟨?_, ?_⟩
    · rw [List.map_cons, List.map_cons, hmap, htrim]
    · rw [hleft]
      split
      · rename_i hnil
        have hnone := firstStatement_none_iff.mp ((statements_eq_nil_of_map htrim).mp hnil)
        rw [statementsOf_none hnone]
      · rename_i hne
        exact htrimLeft fun hnil => hne ((statements_eq_nil_of_map htrim).mpr hnil)

/-! ## Where the modes part -/

/-- The buffer has lost white space inside the statement that is pending. -/
structure Lost (buffer pending : Bytes) : Prop where
  word : buffer.dropWhile isspace ≠ []
  shorter : (buffer.dropWhile isspace).length < (pending.dropWhile isspace).length
  quoted : Cut.quoted (ch '\'') false buffer = Cut.quoted (ch '\'') false pending
  open_buffer : firstStatement false buffer = none
  open_pending : firstStatement false pending = none

theorem dropWhile_append_of_word {text : Bytes} (h : text.dropWhile isspace ≠ []) (more : Bytes) :
    (text ++ more).dropWhile isspace = text.dropWhile isspace ++ more := by
  rw [List.dropWhile_append, if_neg]
  rw [List.isEmpty_iff]
  exact h

namespace Lost

variable {buffer pending line : Bytes} (h : Lost buffer pending)
include h

theorem word_pending : pending.dropWhile isspace ≠ [] := by
  intro hnil
  have hshorter := h.shorter
  rw [hnil] at hshorter
  exact Nat.not_lt_zero _ hshorter

theorem append (hline : firstStatement (Cut.quoted (ch '\'') false pending) line = none) :
    Lost (buffer ++ line) (pending ++ line) := by
  have hword := dropWhile_append_of_word h.word line
  have hword' := dropWhile_append_of_word h.word_pending line
  refine ⟨?_, ?_, ?_, ?_, ?_⟩
  · rw [hword]
    exact List.append_ne_nil_of_left_ne_nil h.word line
  · rw [hword, hword', List.length_append, List.length_append]
    exact Nat.add_lt_add_right h.shorter _
  · rw [Cut.quoted_append, Cut.quoted_append, h.quoted]
  · rw [firstStatement_append_none h.open_buffer, h.quoted, hline]
    rfl
  · rw [firstStatement_append_none h.open_pending, hline]
    rfl

end Lost

/-- White space around a text with no complete statement does not matter to what comes behind. -/
theorem firstStatement_utilsTrim {text : Bytes} (h : firstStatement false text = none) :
    firstStatement false (utilsTrim text) = none ∧
      Cut.quoted (ch '\'') false (utilsTrim text) = Cut.quoted (ch '\'') false text := by
  obtain ⟨lead, trail, hlead, htrail, htext⟩ := exists_utilsTrim text
  have hquoted := (Cut.first_of_plain (plain_of_spaces hlead) false).2
  constructor
  · rw [htext, firstStatement_space hlead, Option.map_eq_none_iff] at h
    cases hcut : firstStatement false (utilsTrim text) with
    | none => rfl
    | some cut =>
      have hsome : firstStatement false (utilsTrim text ++ trail) = some _ :=
        Cut.first_append_some hcut trail
      rw [h] at hsome
      cases hsome
  · have hright := (Cut.first_of_plain (plain_of_spaces htrail)
      (Cut.quoted (ch '\'') false (utilsTrim text))).2
    conv_rhs => rw [htext, Cut.quoted_append, hquoted, Cut.quoted_append, hright]

end JungleDb
