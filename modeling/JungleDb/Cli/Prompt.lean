import JungleDb.Cli.Modes
import JungleDb.Lib.Runs
import JungleDb.Lib.Stdio

/-!
# The buffer of the REPL

`main_run_repl_mode` keeps the text of an unfinished statement in a buffer with its length and its
capacity. A line that reads as exit or quit ends the session if the length is zero. The length is that
of the text, but the text is not always free of white space: what a statement leaves behind it is
trimmed, a blank line that is typed with nothing pending is kept, and an exit behind it is taken for a
part of a statement.
-/

namespace JungleDb

open CString Stdio

/-! ## The buffer -/

/-- `buffer`, `buffer_length` and `buffer_capacity`; the text is what is in front of the NUL, and `none`
is NULL. -/
structure ReplBuffer where
  text : Option Bytes
  length : Nat
  capacity : Nat
  deriving DecidableEq

namespace ReplBuffer

/-- The text; that of NULL is empty. -/
def held (b : ReplBuffer) : Bytes := b.text.getD []

/-- `buffer = NULL; buffer_length = 0; buffer_capacity = 0;` -/
def null : ReplBuffer := ⟨none, 0, 0⟩

end ReplBuffer

/-- `while (required > new_capacity) { new_capacity *= 2; }`; no buffer has the capacity 0. -/
def growCapacity (required newCapacity : Nat) : Nat :=
  if newCapacity < required ∧ 0 < newCapacity then growCapacity required (newCapacity * 2)
  else newCapacity
termination_by required - newCapacity

/-- `memcpy(*buffer + *length, suffix, suffix_length + 1)`: behind a NUL nothing is added. -/
def copyBehind (text : Bytes) (length : Nat) (suffix : Bytes) : Bytes :=
  if text.length < length then text else text.take length ++ suffix

/-- `utils_append_buffer`, memory being there. -/
def utilsAppendBuffer (b : ReplBuffer) (suffix : Bytes) : ReplBuffer :=
  let b : ReplBuffer := match b.text with
    | none => ⟨some [], 0, suffix.length + 64⟩
    | some _ => b
  let required := b.length + suffix.length + 1
  { text := b.text.map fun text => copyBehind text b.length suffix
    length := b.length + suffix.length
    capacity := if b.capacity < required then growCapacity required b.capacity else b.capacity }

/-- `main_replace_buffer_with_remainder`, memory being there. -/
def mainReplaceBufferWithRemainder (text : Bytes) (endIndex : Nat) : ReplBuffer :=
  let remainder := utilsTrim (text.drop (endIndex + 1))
  ⟨some remainder, remainder.length, remainder.length + 1⟩

/-- `while (buffer != NULL && ...) { ... }`: the statements that are passed on, and the buffer. -/
def drainTurns (b : ReplBuffer) : List Bytes × ReplBuffer :=
  match _htext : b.text with
  | none => ([], b)
  | some text =>
    match _hfound : utilsFindStatementTerminator text with
    | none => ([], b)
    | some terminator =>
      let b' := mainReplaceBufferWithRemainder text terminator
      if b'.length = 0 then ([text.take (terminator + 1)], .null)
      else
        let next := drainTurns b'
        (text.take (terminator + 1) :: next.1, next.2)
termination_by b.held.length
decreasing_by
  have hlt := Cut.length_rest_lt (utilsFindStatementTerminator_eq_some _hfound)
  have hheld : b.held = text := congrArg (Option.getD · []) _htext
  rw [hheld]
  exact Nat.lt_of_le_of_lt (length_utilsTrim_le _) hlt

/-- One turn of `while (1) { ... }` with the string in `line`; `none` is `break`. -/
def replTurn (b : ReplBuffer) (line : Bytes) : Option (List Bytes × ReplBuffer) :=
  if b.length = 0 ∧ isExitLine line = true then none
  else some (drainTurns (utilsAppendBuffer b line))

/-- What was received since the last completed statement. -/
def pendingOf (lines : List Bytes) : Bytes := (statementsOf (lines.map cstring).flatten).2

/-! ## What a turn does to the buffer -/

/-- The length is that of the text, and there is room for it. -/
structure ReplBuffer.Fits (b : ReplBuffer) : Prop where
  length : b.length = b.held.length
  capacity : ∀ text, b.text = some text → b.length < b.capacity

theorem le_growCapacity {required newCapacity : Nat} (h : 0 < newCapacity) :
    required ≤ growCapacity required newCapacity := by
  induction newCapacity using growCapacity.induct required with
  | case1 newCapacity hless ih =>
    rw [growCapacity, if_pos hless]
    exact ih (by omega)
  | case2 newCapacity hnot =>
    rw [growCapacity, if_neg hnot]
    omega

theorem copyBehind_length (text suffix : Bytes) :
    copyBehind text text.length suffix = text ++ suffix := by
  rw [copyBehind, if_neg (lt_irrefl _), List.take_length]

/-- Appending appends. -/
theorem utilsAppendBuffer_spec {b : ReplBuffer} (h : b.Fits) (suffix : Bytes) :
    (utilsAppendBuffer b suffix).text = some (b.held ++ suffix) ∧
      (utilsAppendBuffer b suffix).Fits := by
  obtain ⟨text, length, capacity⟩ := b
  cases text with
  | none =>
    refine ⟨rfl, Nat.zero_add _, fun text _ => ?_⟩
    show 0 + suffix.length < if suffix.length + 64 < 0 + suffix.length + 1 then _ else _
    rw [if_neg (by omega)]
    show 0 + suffix.length < suffix.length + 64
    omega
  | some text =>
    obtain rfl : length = text.length := h.length
    have hcapacity : text.length < capacity := h.capacity text rfl
    have htext : (utilsAppendBuffer ⟨some text, text.length, capacity⟩ suffix).text =
        some (text ++ suffix) := congrArg some (copyBehind_length text suffix)
    refine ⟨htext, ?_, fun _ _ => ?_⟩
    · rw [ReplBuffer.held, htext, Option.getD_some, List.length_append]
      rfl
    · show text.length + suffix.length < if capacity < text.length + suffix.length + 1 then
        growCapacity (text.length + suffix.length + 1) capacity else capacity
      split
      · exact le_growCapacity (by omega)
      · omega

theorem drainTurns_none {b : ReplBuffer} (h : firstStatement false b.held = none) :
    drainTurns b = ([], b) := by
  rw [drainTurns]
  split
  · rfl
  · rename_i text htext
    have hheld : b.held = text := congrArg (Option.getD · []) htext
    rw [hheld] at h
    split
    · rfl
    · rename_i hfound
      rw [utilsFindStatementTerminator_eq_none.mpr h] at hfound
      cases hfound

/-- The buffer that the rest behind a statement becomes. -/
def ReplBuffer.ofRest (rest : Bytes) : ReplBuffer :=
  ⟨some (utilsTrim rest), (utilsTrim rest).length, (utilsTrim rest).length + 1⟩

theorem drainTurns_some {b : ReplBuffer} {part rest : Bytes}
    (h : firstStatement false b.held = some (part, rest)) :
    drainTurns b =
      if utilsTrim rest = [] then ([part], .null)
      else (part :: (drainTurns (.ofRest rest)).1, (drainTurns (.ofRest rest)).2) := by
  rw [drainTurns]
  split
  · rename_i htext
    have hheld : b.held = [] := congrArg (Option.getD · []) htext
    rw [hheld] at h
    cases h
  · rename_i text htext
    have hheld : b.held = text := congrArg (Option.getD · []) htext
    rw [hheld] at h
    split
    · rename_i hnone
      rw [utilsFindStatementTerminator_eq_none.mp hnone] at h
      cases h
    · rename_i hfound
      rw [utilsFindStatementTerminator_eq_some hfound] at h
      obtain ⟨rfl, rfl⟩ := Prod.mk.inj (Option.some.inj h)
      simp only [mainReplaceBufferWithRemainder, List.length_eq_zero_iff]
      rfl

theorem ReplBuffer.fits_null : ReplBuffer.null.Fits := ⟨rfl, nofun⟩

theorem ReplBuffer.fits_ofRest (rest : Bytes) : (ReplBuffer.ofRest rest).Fits :=
  ⟨rfl, fun _ _ => Nat.lt_succ_self _⟩

/-- The loop passes on the statements of the text and keeps what `drainBuffer` keeps. -/
theorem drainTurns_spec {b : ReplBuffer} (h : b.Fits) :
    (drainTurns b).1 = (drainBuffer b.held).1 ∧ (drainTurns b).2.held = (drainBuffer b.held).2 ∧
      (drainTurns b).2.Fits := by
  induction hlen : b.held.length using Nat.strong_induction_on generalizing b with
  | _ length ih =>
    cases hcut : firstStatement false b.held with
    | none =>
      rw [drainTurns_none hcut, drainBuffer_none hcut]
      exact ⟨rfl, rfl, h⟩
    | some cut =>
      obtain ⟨part, rest⟩ := cut
      rw [drainTurns_some hcut, drainBuffer_some hcut]
      by_cases hblank : utilsTrim rest = []
      · have hnil : drainBuffer [] = ([], []) := drainBuffer_none rfl
        rw [if_pos hblank, hblank, hnil]
        exact ⟨rfl, rfl, ReplBuffer.fits_null⟩
      · have hless := Cut.length_rest_lt hcut
        have htrim := length_utilsTrim_le rest
        obtain ⟨hpassed, hkept, hfits⟩ := ih (utilsTrim rest).length (by omega)
          (ReplBuffer.fits_ofRest rest) rfl
        rw [if_neg hblank]
        exact ⟨congrArg (part :: ·) hpassed, hkept, hfits⟩

/-- A turn passes on what a turn of `replLoop` passes on. -/
theorem replTurn_spec {b b' : ReplBuffer} {line : Bytes} {passed : List Bytes} (h : b.Fits)
    (hturn : replTurn b line = some (passed, b')) :
    passed = (drainBuffer (b.held ++ line)).1 ∧ b'.held = (drainBuffer (b.held ++ line)).2 ∧
      b'.Fits := by
  unfold replTurn at hturn
  split at hturn
  · cases hturn
  · obtain ⟨htext, hfits⟩ := utilsAppendBuffer_spec h line
    have hspec := drainTurns_spec hfits
    have hheld : (utilsAppendBuffer b line).held = b.held ++ line := congrArg (Option.getD · []) htext
    rw [Option.some.inj hturn, hheld] at hspec
    exact hspec

theorem pendingOf_concat (lines : List Bytes) (stored : Bytes) :
    pendingOf (lines ++ [stored]) = (statementsOf (pendingOf lines ++ cstring stored)).2 := by
  unfold pendingOf
  rw [List.map_append, List.flatten_append, List.map_singleton, List.flatten_singleton, statementsOf,
    Cut.parts_append]

theorem firstStatement_pendingOf (lines : List Bytes) :
    firstStatement false (pendingOf lines) = none := Cut.first_left _

theorem spaces_append {text more : Bytes} : Spaces (text ++ more) ↔ Spaces text ∧ Spaces more :=
  List.forall_mem_append

theorem spaces_utilsTrim {text : Bytes} : Spaces (utilsTrim text) ↔ Spaces text := by
  constructor
  · intro h
    obtain ⟨lead, trail, hlead, htrail, htext⟩ := exists_utilsTrim text
    rw [htext]
    exact spaces_append.mpr ⟨hlead, spaces_append.mpr ⟨h, htrail⟩⟩
  · intro h
    rw [utilsTrim_eq_nil.mpr h]
    nofun

/-- The text is what was received since the last completed statement, but for white space. -/
structure Holds (before : List Bytes) (b : ReplBuffer) : Prop where
  fits : b.Fits
  incomplete : firstStatement false b.held = none
  quoted : Cut.quoted (ch '\'') false b.held = Cut.quoted (ch '\'') false (pendingOf before)
  spaces : Spaces b.held ↔ Spaces (pendingOf before)

/-- The buffer is empty where nothing but white space is pending. -/
def Idle (before : List Bytes) (b : ReplBuffer) : Prop := Spaces (pendingOf before) → b.held = []

/-- A line of white space, behind nothing but white space. -/
def BlankTyped (before : List Bytes) (stored : Bytes) : Prop :=
  Spaces (pendingOf before) ∧ Spaces (cstring stored) ∧ cstring stored ≠ []

/-- One turn: the text stays what was received, and only a blank line is kept. -/
theorem Holds.turn {before : List Bytes} {b b' : ReplBuffer} {stored : Bytes} {passed : List Bytes}
    (h : Holds before b) (hturn : replTurn b (cstring stored) = some (passed, b')) :
    Holds (before ++ [stored]) b' ∧
      (Idle before b → (Idle (before ++ [stored]) b' ↔ ¬ BlankTyped before stored)) := by
  obtain ⟨-, hheld, hfits⟩ := replTurn_spec h.fits hturn
  have hleft := (drainBuffer_statements (b.held ++ cstring stored)).2
  have hpending := pendingOf_concat before stored
  have hline := firstStatement_append_none (firstStatement_pendingOf before) (cstring stored)
  have hline' := firstStatement_append_none h.incomplete (cstring stored)
  rw [h.quoted] at hline'
  unfold Idle BlankTyped
  cases hcut : firstStatement (Cut.quoted (ch '\'') false (pendingOf before)) (cstring stored) with
  | none =>
    rw [hcut] at hline hline'
    rw [statementsOf_none hline] at hpending
    rw [← hheld, if_pos (firstStatement_none_iff.mpr hline')] at hleft
    refine ⟨⟨hfits, ?_, ?_, ?_⟩, fun hidle => ?_⟩
    · rw [hleft]
      exact hline'
    · rw [hleft, hpending, Cut.quoted_append, Cut.quoted_append, h.quoted]
    · rw [hleft, hpending, spaces_append, spaces_append, h.spaces]
    · rw [hleft, hpending, spaces_append]
      constructor
      · rintro hempty ⟨hbefore, hblank, hne⟩
        exact hne (List.append_eq_nil_iff.mp (hempty ⟨hbefore, hblank⟩)).2
      · rintro hnot ⟨hbefore, hblank⟩
        have hnil : cstring stored = [] := by
          by_contra hne
          exact hnot ⟨hbefore, hblank, hne⟩
        rw [hnil, hidle hbefore]
        rfl
  | some cut =>
    obtain ⟨part, rest⟩ := cut
    rw [hcut] at hline hline'
    have hstatements := statementsOf_some hline
    have hstatements' := statementsOf_some hline'
    rw [hstatements] at hpending
    rw [← hheld, hstatements', if_neg (List.cons_ne_nil _ _)] at hleft
    have htrimmed : b'.held = utilsTrim (pendingOf (before ++ [stored])) := by
      rw [hleft, hpending]
    obtain ⟨hopen, hquoted⟩ := firstStatement_utilsTrim (firstStatement_pendingOf (before ++ [stored]))
    refine ⟨⟨hfits, ?_, ?_, ?_⟩, fun _ => iff_of_true (fun hblank => ?_) ?_⟩
    · rw [htrimmed]
      exact hopen
    · rw [htrimmed]
      exact hquoted
    · rw [htrimmed, spaces_utilsTrim]
    · rw [htrimmed]
      exact utilsTrim_eq_nil.mpr hblank
    · -- a line of white space completes no statement
      rintro ⟨-, hblank, -⟩
      have hnone : firstStatement (Cut.quoted (ch '\'') false (pendingOf before)) (cstring stored) =
          none := (Cut.first_of_plain (plain_of_spaces hblank) _).1
      rw [hcut] at hnone
      cases hnone

/-! ## Sessions -/

end JungleDb
