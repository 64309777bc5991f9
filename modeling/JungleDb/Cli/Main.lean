import JungleDb.Cli.Prompt
import JungleDb.Cli.Table
import JungleDb.Engine.Requests
import JungleDb.Server.ContentLength
import JungleDb.Server.Remote

/-!
# The program of `main.c`

A process has the tables of the engine and writes to `stdout` and to `stderr`, each of which it only
ever appends to. File mode and the REPL are here the loops with what they execute and print; the
statements that they pass on are those of `Cli/Modes` and `Cli/Prompt`, so that a mode is a run of the
engine over the statements of its input. The outcomes of the calls that read a file are an input, and
memory is there.
-/

namespace JungleDb

open CArray CString Stdio

/-! ## Statements -/

/-- The tables of the engine, and what was written. -/
structure Process where
  registry : Registry
  out : Bytes
  err : Bytes

namespace Process

/-- Before `main`. -/
def start : Process := ⟨[], [], []⟩

def printf (p : Process) (text : Bytes) : Process := { p with out := p.out ++ text }

def complain (p : Process) (text : Bytes) : Process := { p with err := p.err ++ text }

end Process

/-- `main_process_sql_statement`; none where something outside an array is read. -/
def mainProcessSqlStatement (p : Process) (sql : Bytes) : Option (Status × Process) :=
  let workingSql := utilsTrim sql
  if workingSql = [] then some (.success, p)
  else do
    let ((status, result), registry) ← engineExecuteSql p.registry workingSql
    let (out, err) ← mainPrintQueryResult result
    some (status, ({ p with registry := registry }.printf out).complain err)

/-! ## File mode -/

namespace Process

/-- `while (buffer != NULL && ...) { ... }` -/
def drain (p : Process) (b : ReplBuffer) : Option (Process × ReplBuffer) :=
  match _htext : b.text with
  | none => some (p, b)
  | some text =>
    match _hfound : utilsFindStatementTerminator text with
    | none => some (p, b)
    | some terminator => do
      let (_, p) ← mainProcessSqlStatement p (text.take (terminator + 1))
      let b' := mainReplaceBufferWithRemainder text terminator
      if b'.length = 0 then some (p, .null) else p.drain b'
termination_by b.held.length
decreasing_by
  have hlt := Cut.length_rest_lt (utilsFindStatementTerminator_eq_some _hfound)
  have hheld : b.held = text := congrArg (Option.getD · []) _htext
  rw [hheld]
  exact Nat.lt_of_le_of_lt (length_utilsTrim_le _) hlt

end Process

/-- `buffer_length == 0 ? "SQL> " : "...> "` -/
def replPrompt (b : ReplBuffer) : Bytes := if b.length = 0 then bytes "SQL> " else bytes "...> "

namespace Process

/-- `while (1) { ... }` and what follows it, with the lines that `fgets` will store. -/
def replLoop (p : Process) (b : ReplBuffer) : List Bytes → Option (Status × Process)
  | [] =>
    let p := p.printf (replPrompt b)
    let p := if b.held ≠ [] then
      p.complain (bytes "Error: Incomplete SQL statement before EOF.\n") else p
    some (.success, p.printf (bytes "Bye.\n"))
  | stored :: lines =>
    let p := p.printf (replPrompt b)
    if b.length = 0 ∧ isExitLine (cstring stored) = true then
      some (.success, p.printf (bytes "Bye.\n"))
    else do
      let (p, b) ← p.drain (utilsAppendBuffer b (cstring stored))
      p.replLoop b lines

end Process

/-! ## Modes -/

/-- `main_parse_port`; none is FAILURE. -/
def mainParsePort (text : Bytes) : Option Int :=
  let port := strtoll text
  if port.erange = true ∨ port.stop = 0 ∨ port.stop ≠ text.length ∨
      port.value ≤ 0 ∨ 65535 < port.value then none
  else some port.value

/-- What `main` goes on with; the first two are EXIT_FAILURE after a message. -/
inductive Mode
  | usage
  | invalidPort (text : Bytes)
  | server (port : Int)
  | benchmark
  | file (path : Bytes)
  | repl

/-- The branches of `main`, with `argv` from `argv[1]` on. -/
def mainMode : List Bytes → Mode
  | [] => .repl
  | [first] =>
    if utilsEqualsIgnoreCase first (bytes "--server") then .server 8080
    else if utilsEqualsIgnoreCase first (bytes "--benchmark") ||
      utilsEqualsIgnoreCase first (bytes "benchmark") then .benchmark
    else .file first
  | [first, second] =>
    if utilsEqualsIgnoreCase first (bytes "--server") then
      match mainParsePort second with
      | none => .invalidPort second
      | some port => .server port
    else .usage
  | _ => .usage

/-! ## What a statement prints -/

/-- What is printed of a result on `stdout`. -/
def Reply.out (reply : Reply) : Bytes := ((mainPrintQueryResult reply.2).map Prod.fst).getD []

/-- What is printed of a result on `stderr`. -/
def Reply.err (reply : Reply) : Bytes := ((mainPrintQueryResult reply.2).map Prod.snd).getD []

/-- The process when the engine has gone to other tables and its replies are printed. -/
def Process.after (p : Process) (registry : Registry) (replies : List Reply) : Process where
  registry := registry
  out := p.out ++ replies.flatMap Reply.out
  err := p.err ++ replies.flatMap Reply.err

/-- A success is no output on `stderr`, a failure none on `stdout`. -/
structure Reply.Quiet (reply : Reply) : Prop where
  success : reply.1 = .success → reply.err = []
  failure : reply.1 = .failure → reply.out = []

theorem Reply.quiet {reply : Reply} (h : reply.2.success = true ↔ reply.1 = .success) :
    Reply.Quiet reply := by
  constructor
  · intro hdone
    have hsuccess := h.mpr hdone
    by_cases hmessage : reply.2.kind = .message
    · simp [Reply.err, mainPrintQueryResult, hsuccess, hmessage]
    · simp only [Reply.err, mainPrintQueryResult, hsuccess, hmessage, Bool.not_true,
        Bool.false_eq_true, if_false]
      cases mainPrintTableResult (some reply.2) <;> rfl
  · intro hfail
    have hsuccess : reply.2.success = false := by
      rw [← Bool.not_eq_true, h, hfail]
      exact Status.noConfusion
    simp [Reply.out, mainPrintQueryResult, hsuccess]

/-- The text of a port: white space, no sign or a plus, and digits. -/
def IsPort (text : Bytes) (port : Int) : Prop :=
  ∃ space sign digits, text = space ++ (sign ++ digits) ∧ Spaces space ∧
    (sign = [] ∨ sign = [ch '+']) ∧ digits ≠ [] ∧ (∀ c ∈ digits, isdigit c = true) ∧
    port = digitsValue digits ∧ 1 ≤ port ∧ port ≤ 65535

theorem strtoll_whole {text : Bytes} (hstop : (strtoll text).stop = text.length)
    (hne : text ≠ []) (hword : text.dropWhile isspace = text) :
    text.drop (signLength text) ≠ [] ∧ ∀ c ∈ text.drop (signLength text), isdigit c = true := by
  have hpos := List.length_pos_of_ne_nil hne
  have hsign : signLength text ≤ text.length := (signLength_le text).trans hpos
  have hle := (List.takeWhile_prefix isdigit : _ <+: text.drop (signLength text)).length_le
  rw [strtoll, hword] at hstop
  simp only at hstop
  split at hstop
  · exact absurd hstop hpos.ne
  · rename_i hdigits
    rw [List.length_drop] at hle
    have hlength : (text.drop (signLength text)).length ≤
        ((text.drop (signLength text)).takeWhile isdigit).length := by
      rw [List.length_drop]
      simp only at hstop
      omega
    have hall := (List.takeWhile_prefix isdigit : _ <+: text.drop (signLength text)).eq_of_length_le
      hlength
    rw [hall] at hdigits
    exact ⟨hdigits, List.takeWhile_eq_self_iff.mp hall⟩

theorem mainParsePort_space {space : Bytes} (h : Spaces space) (text : Bytes) :
    mainParsePort (space ++ text) = mainParsePort text := by
  unfold mainParsePort
  rw [strtoll_space h text]
  by_cases hzero : (strtoll text).stop = 0
  · simp [hzero]
  · have hstop : space.length + (strtoll text).stop = (space ++ text).length ↔
        (strtoll text).stop = text.length := by
      rw [List.length_append]
      omega
    simp [hzero]

theorem mainParsePort_number {text : Bytes} (hne : text.drop (signLength text) ≠ [])
    (hdigits : ∀ c ∈ text.drop (signLength text), isdigit c = true) (port : Int) :
    mainParsePort text = some port ↔ port = intValue text ∧ 1 ≤ port ∧ port ≤ 65535 := by
  have hlength : text.length ≠ 0 := by
    intro hzero
    rw [List.length_eq_zero_iff.mp hzero] at hne
    exact hne rfl
  have hmin : LLONG_MIN = -9223372036854775808 := rfl
  have hmax : LLONG_MAX = 9223372036854775807 := rfl
  unfold mainParsePort
  simp only [strtoll_eq hne hdigits]
  by_cases hrange : InLongLong (intValue text)
  · rw [if_neg (not_lt.mpr hrange.1), if_neg (not_lt.mpr hrange.2)]
    by_cases hport : 1 ≤ intValue text ∧ intValue text ≤ 65535
    · rw [if_neg (by simp [hrange, hlength]; omega), Option.some.injEq]
      constructor
      · rintro rfl
        exact ⟨rfl, hport⟩
      · exact fun h => h.1.symm
    · rw [if_pos (by simp [hrange, hlength]; omega)]
      refine ⟨nofun, ?_⟩
      rintro ⟨rfl, hbounds⟩
      exact absurd hbounds hport
  · rw [if_pos (by simp [hrange])]
    refine ⟨nofun, ?_⟩
    rintro ⟨rfl, hlow, hhigh⟩
    exact absurd ⟨by omega, by omega⟩ hrange

/-- A port is given by its digits; strings that `strtol` does not read to their ends, and numbers out of
range, are refused. -/
theorem mainParsePort_iff {text : Bytes} {port : Int} :
    mainParsePort text = some port ↔ IsPort text port := by
  constructor
  · intro h
    have hlead : Spaces (text.takeWhile isspace) := fun _ hc => List.mem_takeWhile_imp hc
    generalize hbody : text.dropWhile isspace = body
    have hsplit : text.takeWhile isspace ++ body = text := by
      rw [← hbody, List.takeWhile_append_dropWhile]
    rw [← hsplit, mainParsePort_space hlead] at h
    have hword : body.dropWhile isspace = body := by
      rw [← hbody, List.dropWhile_idempotent]
    have hparse := h
    unfold mainParsePort at h
    simp only at h
    split at h
    · cases h
    · rename_i hall
      simp only [not_or, not_not] at hall
      have hne : body ≠ [] := by
        rintro rfl
        exact hall.2.1 hall.2.2.1
      obtain ⟨hrest, hdigits⟩ := strtoll_whole hall.2.2.1 hne hword
      obtain ⟨hport, hlow, hhigh⟩ := (mainParsePort_number hrest hdigits port).mp hparse
      have hplus : body.head? ≠ some (ch '-') := by
        intro hminus
        rw [intValue, if_pos hminus] at hport
        omega
      rw [intValue, if_neg hplus] at hport
      refine ⟨text.takeWhile isspace, body.take (signLength body), body.drop (signLength body), ?_,
        hlead, ?_, hrest, hdigits, hport, hlow, hhigh⟩
      · rw [List.take_append_drop, hsplit]
      · by_cases hhead : body.head? = some (ch '+')
        · obtain ⟨rest, rfl⟩ := List.head?_eq_some_iff.mp hhead
          exact .inr rfl
        · left
          simp [signLength, hplus, hhead]
  · rintro ⟨space, sign, digits, rfl, hspace, hsign, hne, hdigits, hport, hlow, hhigh⟩
    have hsign' : IsSign sign := hsign.imp_right .inl
    have hdrop := drop_signLength_number hsign' hne hdigits
    have hnumber := intValue_number hsign' hne hdigits
    have hplus : sign ≠ [ch '-'] := by
      rcases hsign with rfl | rfl <;> decide
    rw [if_neg hplus] at hnumber
    rw [mainParsePort_space hspace, mainParsePort_number (hdrop.symm ▸ hne) (hdrop.symm ▸ hdigits)]
    exact ⟨hport.trans hnumber.symm, hlow, hhigh⟩

theorem mainMode_eq_server {args : List Bytes} {port : Int} :
    mainMode args = .server port ↔
      ∃ first, SameName first (bytes "--server") ∧
        (args = [first] ∧ port = 8080 ∨ ∃ second, args = [first, second] ∧ IsPort second port) := by
  constructor
  · intro h
    match args with
    | [] => cases h
    | [first] =>
      simp only [mainMode] at h
      split at h
      · rename_i hserver
        exact ⟨first, utilsEqualsIgnoreCase_iff.mp hserver, .inl ⟨rfl, (Mode.server.inj h).symm⟩⟩
      · split at h <;> cases h
    | [first, second] =>
      simp only [mainMode] at h
      split at h
      · rename_i hserver
        cases hparse : mainParsePort second with
        | none =>
          rw [hparse] at h
          cases h
        | some port' =>
          rw [hparse] at h
          obtain rfl := Mode.server.inj h
          exact ⟨first, utilsEqualsIgnoreCase_iff.mp hserver,
            .inr ⟨second, rfl, mainParsePort_iff.mp hparse⟩⟩
      · cases h
    | _ :: _ :: _ :: _ => cases h
  · rintro ⟨first, hsame, ⟨rfl, rfl⟩ | ⟨second, rfl, hport⟩⟩
    · simp only [mainMode, utilsEqualsIgnoreCase_iff.mpr hsame, if_true]
    · simp only [mainMode, utilsEqualsIgnoreCase_iff.mpr hsame, mainParsePort_iff.mpr hport, if_true]

/-- `--server` in any case: alone it is for port 8080, and with one argument for the port that this
gives, if it gives one; `server_run` accepts all these ports, and every port has an argument. -/
theorem mainMode_server (args : List Bytes) :
    (∀ port, mainMode args = .server port ↔
      ∃ first, SameName first (bytes "--server") ∧
        (args = [first] ∧ port = 8080 ∨ ∃ second, args = [first, second] ∧ IsPort second port)) ∧
    (∀ port, mainMode args = .server port → 1 ≤ port ∧ port ≤ 65535) ∧
    ∀ n : Nat, 1 ≤ n → n ≤ 65535 →
      mainMode [bytes "--server", decimal n] = .server n := by
  refine ⟨fun port => mainMode_eq_server, fun port hport => ?_, fun n hlow hhigh => ?_⟩
  · obtain ⟨first, -, ⟨-, rfl⟩ | ⟨second, -, hport⟩⟩ := mainMode_eq_server.mp hport
    · decide
    · obtain ⟨-, -, -, -, -, -, -, -, -, hbounds⟩ := hport
      exact hbounds
  · have hparse : mainParsePort (decimal n) = some (n : Int) := by
      rw [mainParsePort_iff]
      refine ⟨[], [], decimal n, rfl, nofun, .inl rfl, decimal_ne_nil n, isdigit_of_mem_decimal n, ?_⟩
      rw [digitsValue_decimal]
      omega
    have hserver : utilsEqualsIgnoreCase (bytes "--server") (bytes "--server") = true :=
      utilsEqualsIgnoreCase_iff.mpr rfl
    simp only [mainMode, hserver, hparse, if_true]

end JungleDb
