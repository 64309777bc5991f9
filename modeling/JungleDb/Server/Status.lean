import JungleDb.Engine.Answer
import JungleDb.Sql.Errors

/-!
# The HTTP status of a result

The server reads the status off the text of the error. The texts that a statement can fail with are
gone through here: the one of a missing table is the only one that reads as 404, whatever names the
client has put into the others.
-/

namespace JungleDb

open CString

/-- `server_status_for_result`. -/
def serverStatusForResult (result : Option QueryResult) : Nat :=
  match result with
  | none => 200
  | some result =>
    if result.success then 200
    else if strncmp result.error.text (bytes "Table '") 7 = 0 ∧
      (strstr result.error.text (bytes "not found")).isSome then 404
    else 400

/-- A failure is told apart by its text. -/
theorem serverStatusForResult_error (result : QueryResult) (error : CStr MESSAGE_LEN) :
    serverStatusForResult (some (queryResultSetError result error)) =
      if strncmp error.text (bytes "Table '") 7 = 0 ∧
        (strstr error.text (bytes "not found")).isSome then 404 else 400 :=
  rfl

/-! ## Texts -/

/-- The text does not begin as the one of a missing table. -/
def OtherText (text : Bytes) : Prop := strncmp text (bytes "Table '") 7 ≠ 0

instance (text : Bytes) : Decidable (OtherText text) := inferInstanceAs (Decidable (_ ≠ _))

/-- What follows the first bytes, such as a name, does not matter. -/
theorem OtherText.append {text : Bytes} (h : OtherText text) (hlen : 7 ≤ text.length)
    (more : Bytes) : OtherText (text ++ more) := by
  unfold OtherText at h ⊢
  rwa [strncmp_append hlen]

/-- Nor where the text is cut. -/
theorem OtherText.snprintf {text : Bytes} (h : OtherText text) :
    OtherText (snprintf MESSAGE_LEN text).text := by
  have hroom : 7 ≤ MESSAGE_LEN - 1 := by decide
  unfold OtherText at h ⊢
  rwa [CString.snprintf, strncmp_take hroom]

/-- No text of the tokenizer or the parser begins so. -/
theorem otherText_of_mem {text : String} (h : text ∈ tokenizerTexts ++ parserTexts) :
    OtherText (message text).text := by
  have hall : ∀ text ∈ tokenizerTexts ++ parserTexts, OtherText (bytes text) := by decide +kernel
  exact (hall text h).snprintf

theorem Unparsed.otherText {sql : Bytes} {error : CStr MESSAGE_LEN} (h : Unparsed sql error) :
    OtherText error.text := by
  cases h with
  | long => decide +kernel
  | tokenize htokens =>
    obtain ⟨text, htext, rfl⟩ := tokenizerTokenize_errs sql error htokens
    exact otherText_of_mem (List.mem_append_left _ htext)
  | empty => exact otherText_of_mem (by decide)
  | parse _ hparse =>
    obtain ⟨text, htext, rfl⟩ := parserParse_errs _ error hparse
    exact otherText_of_mem (List.mem_append_right _ htext)

theorem InsertError.otherText (e : InsertError) : OtherText (message e.text).text := by
  cases e <;> decide +kernel

/-! ## Replies -/

/-- The reply is a success, sent with 200, or a failure, sent with the status. -/
def Reply.SentWith (reply : Reply) (failed : Nat) : Prop :=
  reply.1 = .success ∧ serverStatusForResult (some reply.2) = 200 ∨
    reply.1 = .failure ∧ serverStatusForResult (some reply.2) = failed

theorem sentWith_success {result : QueryResult} (h : result.success = true) (failed : Nat) :
    Reply.SentWith (.success, result) failed :=
  .inl ⟨rfl, if_pos h⟩

theorem sentWith_error {error : CStr MESSAGE_LEN} (h : OtherText error.text)
    (result : QueryResult) : Reply.SentWith (.failure, queryResultSetError result error) 400 := by
  refine .inr ⟨rfl, ?_⟩
  rw [serverStatusForResult_error, if_neg fun hboth => h hboth.1]

theorem sentWith_executorFail {text : Bytes} (h : OtherText text) (result : QueryResult) :
    (executorFail result text).SentWith 400 :=
  sentWith_error h.snprintf result

/-- The text of a missing table is not cut, and says so. -/
theorem notFound_status (name : Identifier) :
    serverStatusForResult (some (notFound name.text).2) = 404 := by
  let text := bytes "Table '" ++ name.text ++ bytes "' not found."
  have hfits : text.length ≤ MESSAGE_LEN - 1 := by
    have hname := name.fits
    have hfirst : (bytes "Table '").length = 7 := by decide
    have hlast : (bytes "' not found.").length = 12 := by decide
    have hmax : MAX_IDENTIFIER_LEN = 64 := rfl
    have hroom : MESSAGE_LEN - 1 = 255 := rfl
    simp only [text, List.length_append, hfirst, hlast]
    omega
  have herror : (snprintf MESSAGE_LEN text).text = text := List.take_of_length_le hfits
  have hbegins : strncmp text (bytes "Table '") 7 = 0 := by
    rw [show text = bytes "Table '" ++ _ from List.append_assoc _ _ _, strncmp_append (by decide)]
    decide
  have hsays : bytes "not found" <:+: text := by
    refine ⟨bytes "Table '" ++ name.text ++ bytes "' ", bytes ".", ?_⟩
    rw [List.append_assoc, List.append_assoc]
    rfl
  show serverStatusForResult (some (queryResultSetError _ (snprintf MESSAGE_LEN text))) = 404
  rw [serverStatusForResult_error, herror, if_pos ⟨hbegins, strstr_isSome.mpr hsays⟩]

/-! ## Statements on a database -/

theorem Database.insert_sentWith (db : Database) (stmt : InsertStatement) :
    (db.insert stmt).1.SentWith 400 := by
  unfold Database.insert
  simp only
  split
  · exact sentWith_executorFail (by decide +kernel) _
  split
  · rw [List.append_assoc]
    exact sentWith_executorFail
      ((show OtherText (bytes "Failed to open table '") by decide).append (by decide) _) _
  split
  · rename_i e _
    exact sentWith_executorFail e.otherText _
  · exact sentWith_success rfl 400

theorem Relation.reply_sentWith (R : Relation) (stmt : SelectStatement) :
    (R.reply stmt).SentWith 400 := by
  have hcolumn : OtherText (bytes "Column '") := by decide
  unfold Relation.reply
  simp only
  split
  · rw [List.append_assoc]
    exact sentWith_executorFail (hcolumn.append (by decide) _) _
  split
  · rename_i e herror
    refine sentWith_executorFail ?_ _
    unfold Relation.whereError at herror
    split at herror
    · cases herror
    split at herror
    · rw [← Option.some.inj herror]
      decide +kernel
    split at herror
    · cases herror
    · rw [← Option.some.inj herror]
      decide +kernel
  · exact sentWith_success rfl 400

/-- The relation that a SELECT on a name reads. -/
def Database.named (db : Database) (name : Bytes) : Option Relation :=
  if name = [] then none else db (nameKey name)

/-- A text is a SELECT on a name that no relation has. -/
def Database.Missing (db : Database) (sql : Bytes) : Prop :=
  ∃ stmt : SelectStatement, parsedStatement sql = some (.select stmt) ∧
    db.named stmt.tableName.text = none

theorem Database.execSql_missing {db : Database} {sql : Bytes} (h : db.Missing sql) :
    (db.execSql sql).1.1 = .failure ∧ serverStatusForResult (some (db.execSql sql).1.2) = 404 := by
  obtain ⟨stmt, hparse, hnone⟩ := h
  have hselect : db.select stmt = notFound stmt.tableName.text := by
    rw [Database.select]
    rw [Database.named] at hnone
    rw [hnone]
  rw [Database.execSql_parsed hparse]
  show (db.select stmt).1 = _ ∧ serverStatusForResult (some (db.select stmt).2) = _
  rw [hselect]
  exact ⟨rfl, notFound_status stmt.tableName⟩

/-- Any other text is sent with 200 or 400. -/
theorem Database.execSql_sentWith {db : Database} {sql : Bytes} (h : ¬ db.Missing sql) :
    (db.execSql sql).1.SentWith 400 := by
  cases hparse : parsedStatement sql with
  | some statement =>
    rw [Database.execSql_parsed hparse]
    cases statement with
    | insert stmt => exact db.insert_sentWith stmt
    | select stmt =>
      show (db.select stmt).SentWith 400
      cases hnamed : db.named stmt.tableName.text with
      | none => exact absurd ⟨stmt, hparse, hnamed⟩ h
      | some R =>
        have hselect : db.select stmt = R.reply stmt := by
          rw [Database.select]
          rw [Database.named] at hnamed
          rw [hnamed]
        rw [hselect]
        exact R.reply_sentWith stmt
    | delete _ => exact sentWith_executorFail (by decide +kernel) _
  | none =>
    obtain ⟨error, hunparsed, hexec⟩ := Database.execSql_unparsed hparse
    rw [hexec]
    exact sentWith_error hunparsed.otherText _

/-! ## Statements on a registry -/

/-- A name has no relation where no loaded entry has the name. -/
theorem HoldsDb.named_eq_none {registry : Registry} {db : Database} (h : HoldsDb registry db)
    {name : Bytes} : db.named name = none ↔
      ∀ t ∈ registry, t.loaded = true → ¬ SameName t.tableName.text name := by
  unfold Database.named
  constructor
  · intro hnone t ht hload hsame
    obtain ⟨R, hR, -⟩ := h.shows ht hload
    rw [if_neg (h.name_ne_nil ht hsame), ← sameName_iff.mp hsame, hR] at hnone
    cases hnone
  · intro hunloaded
    split
    · rfl
    · by_contra hsome
      obtain ⟨R, hR⟩ := Option.ne_none_iff_exists'.mp hsome
      obtain ⟨t, ht, hkey, hshows⟩ := h.entry_of_some hR
      exact hunloaded t ht hshows.loaded (sameName_iff.mpr hkey)

/-- The text is a SELECT on a table that no loaded entry of the registry is of. -/
def SelectsUnloaded (registry : Registry) (sql : Bytes) : Prop :=
  ∃ stmt : SelectStatement, parsedStatement sql = some (.select stmt) ∧
    ∀ t ∈ registry, t.loaded = true → ¬ SameName t.tableName.text stmt.tableName.text

/-- In every registry that the engine reaches and for every text the engine returns a result, and its
status is 200 exactly for a success, 404 exactly for a SELECT on a table without a loaded entry, and
400 for every other failure. -/
theorem serverStatusForResult_engine {registry : Registry} (hreach : EngineReachable registry)
    (sql : Bytes) :
    ∃ status result registry',
      engineExecuteSql registry sql = some ((status, result), registry') ∧
      (serverStatusForResult (some result) = 200 ↔ status = .success) ∧
      (serverStatusForResult (some result) = 404 ↔ SelectsUnloaded registry sql) ∧
      (serverStatusForResult (some result) = 400 ↔
        status = .failure ∧ ¬ SelectsUnloaded registry sql) := by
  obtain ⟨db, h⟩ := hreach.holds
  obtain ⟨registry', hrun, -⟩ := engine_simulates h sql
  have hmissing : SelectsUnloaded registry sql ↔ db.Missing sql :=
    exists_congr fun stmt => and_congr_right fun _ => h.named_eq_none.symm
  refine ⟨_, _, registry', hrun, ?_⟩
  rw [hmissing]
  by_cases hmiss : db.Missing sql
  · obtain ⟨hfailed, hcode⟩ := Database.execSql_missing hmiss
    rw [hfailed, hcode]
    simp [hmiss]
  · rcases Database.execSql_sentWith hmiss with ⟨hdone, hcode⟩ | ⟨hfailed, hcode⟩
    · rw [hdone, hcode]
      simp [hmiss]
    · rw [hfailed, hcode]
      simp [hmiss]

/-- The entry that a rejected first INSERT leaves behind is not loaded: a SELECT on it. -/
theorem serverStatusForResult_engine_wideInsert :
    ∃ registry : Registry, registry ≠ [] ∧ ∃ status result registry',
      engineExecuteSql registry (bytes "SELECT not_found FROM t") =
        some ((status, result), registry') ∧
      (serverStatusForResult (some result) = 200 ↔ status = .success) ∧
      (serverStatusForResult (some result) = 404 ↔
        SelectsUnloaded registry (bytes "SELECT not_found FROM t")) ∧
      (serverStatusForResult (some result) = 400 ↔
        status = .failure ∧ ¬ SelectsUnloaded registry (bytes "SELECT not_found FROM t")) := by
  have hlen : (engineExecuteSql [] wideInsert).map (fun r => r.2.length) = some 1 := by
    decide +kernel
  cases h : engineExecuteSql [] wideInsert with
  | none =>
    rw [h] at hlen
    cases hlen
  | some r =>
    rw [h] at hlen
    refine ⟨r.2, fun hnil => ?_, serverStatusForResult_engine (.step .start h) _⟩
    rw [Option.map_some, hnil] at hlen
    cases hlen

end JungleDb
