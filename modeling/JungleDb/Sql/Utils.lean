import Mathlib.Data.List.DropRight
import JungleDb.Lib.CString

/-!
# The string helpers of `utils.c`

A helper that reports `FAILURE` returns `none`. The integer helpers are characterised over the
integer a text denotes: a text is parsed exactly when it is a sign and digits and its value fits a
`long long`.
-/

namespace JungleDb

open CString

abbrev MAX_SQL_LENGTH : Nat := 8192
abbrev MAX_TOKEN_VALUE : Nat := 256
abbrev MAX_IDENTIFIER_LEN : Nat := 64
abbrev MAX_COLUMNS : Nat := 32
abbrev MAX_VALUE_LEN : Nat := 256

/-- The size of the buffers that hold a message or an error text. -/
abbrev MESSAGE_LEN : Nat := 256

instance : NeZero MAX_IDENTIFIER_LEN := ⟨by decide⟩

instance : NeZero MESSAGE_LEN := ⟨by decide⟩

theorem map_eq_error {ε α β : Type} {f : α → β} {x : Except ε α} {e : ε}
    (h : x.map f = .error e) : x = .error e := by
  cases x with
  | error e' =>
    cases h
    rfl
  | ok a => cases h

theorem map_eq_ok {ε α β : Type} {f : α → β} {x : Except ε α} {b : β}
    (h : x.map f = .ok b) : ∃ a, x = .ok a ∧ f a = b := by
  cases x with
  | error e => cases h
  | ok a => exact ⟨a, rfl, Except.ok.inj h⟩

/-- `utils_safe_strcpy`: the destination, unless the copy was cut. -/
def utilsSafeStrcpy (destSize : Nat) (src : Bytes) : Option (CStr destSize) :=
  if h : src.length < destSize then some ⟨src, h⟩ else none

theorem utilsSafeStrcpy_eq_some {n : Nat} {src : Bytes} {dest : CStr n} :
    utilsSafeStrcpy n src = some dest ↔ dest.text = src := by
  unfold utilsSafeStrcpy
  split
  · rw [Option.some.injEq, CStr.ext_iff, eq_comm]
  · rename_i h
    simp only [reduceCtorEq, false_iff]
    intro ht
    exact h (ht ▸ dest.fits)

/-- A string copied between two arrays of one size is never cut. -/
theorem utilsSafeStrcpy_text {n : Nat} (s : CStr n) : utilsSafeStrcpy n s.text = some s :=
  dif_pos s.fits

/-- `utils_trim`. -/
def utilsTrim (text : Bytes) : Bytes :=
  ((text.reverse.dropWhile isspace).reverse).dropWhile isspace

/-- `utils_to_upper_copy`. -/
def utilsToUpperCopy (src : Bytes) (destSize : Nat) : Option (CStr destSize) :=
  utilsSafeStrcpy destSize (src.map toupper)

/-- `utils_equals_ignore_case`. -/
def utilsEqualsIgnoreCase : Bytes → Bytes → Bool
  | [], [] => true
  | l :: lhs, r :: rhs => toupper l == toupper r && utilsEqualsIgnoreCase lhs rhs
  | _, _ => false

/-- Two names are equal ignoring case when their upper-case forms are equal. -/
theorem utilsEqualsIgnoreCase_iff {lhs rhs : Bytes} :
    utilsEqualsIgnoreCase lhs rhs = true ↔ lhs.map toupper = rhs.map toupper := by
  induction lhs generalizing rhs with
  | nil => cases rhs <;> simp [utilsEqualsIgnoreCase]
  | cons l lhs ih =>
    cases rhs with
    | nil => simp [utilsEqualsIgnoreCase]
    | cons r rhs => simp [utilsEqualsIgnoreCase, ih]

/-- The keywords of `utils_is_sql_keyword`. -/
def keywords : List Bytes :=
  ["INSERT", "SELECT", "DELETE", "INTO", "FROM", "WHERE", "VALUES"].map bytes

/-- `utils_is_sql_keyword`. -/
def utilsIsSqlKeyword (text : Bytes) : Bool := keywords.any (utilsEqualsIgnoreCase text)

/-- `utils_is_integer`. -/
def utilsIsInteger : Bytes → Bool
  | [] => false
  | c :: text =>
    if c = ch '-' ∨ c = ch '+' then text ≠ [] && text.all isdigit
    else (c :: text).all isdigit

/-- `utils_try_parse_integer`. -/
def utilsTryParseInteger (text : Bytes) : Option Int :=
  if !utilsIsInteger text then none
  else
    let parsed := strtoll text
    if parsed.erange || parsed.stop == 0 || parsed.stop != text.length then none
    else some parsed.value

/-- `utils_compare_integer_strings`: the sign of the comparison. -/
def utilsCompareIntegerStrings (lhs rhs : Bytes) : Option Int := do
  let left ← utilsTryParseInteger lhs
  let right ← utilsTryParseInteger rhs
  some (if left < right then -1 else if right < left then 1 else 0)

/-- `utils_parse_integer`. -/
def utilsParseInteger (text : Bytes) : Int := (strtoll text).value

/-- `utils_compare_values`, by its sign. -/
def utilsCompareValues (lhs rhs : Bytes) : Int :=
  match utilsCompareIntegerStrings lhs rhs with
  | some comparison => comparison
  | none => strcmp lhs rhs

/-! ## Integer texts -/

/-- An integer text is an optional sign and at least one digit. -/
theorem utilsIsInteger_iff {text : Bytes} : utilsIsInteger text = true ↔
    text.drop (signLength text) ≠ [] ∧ ∀ c ∈ text.drop (signLength text), isdigit c = true := by
  cases text with
  | nil => simp [utilsIsInteger]
  | cons c text =>
    by_cases hc : c = ch '-' ∨ c = ch '+'
    · have hsign : signLength (c :: text) = 1 := by simp [signLength, hc]
      rw [hsign, utilsIsInteger, if_pos hc]
      simp
    · have hsign : signLength (c :: text) = 0 := by simp [signLength, hc]
      rw [hsign, utilsIsInteger, if_neg hc]
      simp

/-- The integer that a text denotes when `utils_try_parse_integer` accepts it. -/
def IntegerText (text : Bytes) : Prop := utilsIsInteger text = true ∧ InLongLong (intValue text)

instance (text : Bytes) : Decidable (IntegerText text) := inferInstanceAs (Decidable (_ ∧ _))

theorem utilsTryParseInteger_eq (text : Bytes) :
    utilsTryParseInteger text = if IntegerText text then some (intValue text) else none := by
  unfold utilsTryParseInteger IntegerText
  by_cases hint : utilsIsInteger text = true
  · obtain ⟨hne, hdigits⟩ := utilsIsInteger_iff.mp hint
    have hlen : text.length ≠ 0 := fun h => by
      rw [List.length_eq_zero_iff.mp h] at hint
      cases hint
    simp only [hint, Bool.not_true, Bool.false_eq_true, if_false, true_and, strtoll_eq hne hdigits]
    by_cases hrange : InLongLong (intValue text)
    · have hmin : ¬ intValue text < LLONG_MIN := not_lt.mpr hrange.1
      have hmax : ¬ LLONG_MAX < intValue text := not_lt.mpr hrange.2
      simp [hrange, hmin, hmax, hlen]
    · simp [hrange]
  · simp [hint]

theorem utilsCompareIntegerStrings_eq (lhs rhs : Bytes) :
    utilsCompareIntegerStrings lhs rhs =
      if IntegerText lhs ∧ IntegerText rhs then
        some (if intValue lhs < intValue rhs then -1 else if intValue rhs < intValue lhs then 1 else 0)
      else none := by
  unfold utilsCompareIntegerStrings
  rw [utilsTryParseInteger_eq, utilsTryParseInteger_eq]
  by_cases hlhs : IntegerText lhs
  · by_cases hrhs : IntegerText rhs
    · simp [hlhs, hrhs]
    · simp [hlhs, hrhs]
  · simp [hlhs]

/-- The text of a number that is not negative and fits is read back. -/
theorem integerText_decimal {n : Nat} (h : (n : Int) ≤ LLONG_MAX) : IntegerText (decimal n) := by
  refine ⟨utilsIsInteger_iff.mpr ?_, ?_⟩
  · rw [signLength_decimal, List.drop_zero]
    exact ⟨decimal_ne_nil n, isdigit_of_mem_decimal n⟩
  · rw [intValue_decimal]
    refine ⟨?_, h⟩
    have : LLONG_MIN ≤ 0 := by decide
    omega

/-! ## White space -/

/-- The text is white space. -/
def Spaces (text : Bytes) : Prop := ∀ c ∈ text, isspace c = true

theorem utilsTrim_space_right {space : Bytes} (h : Spaces space) (text : Bytes) :
    utilsTrim (text ++ space) = utilsTrim text := by
  unfold utilsTrim
  rw [List.reverse_append, List.dropWhile_append_of_pos]
  intro c hc
  exact h c (List.mem_reverse.mp hc)

theorem utilsTrim_space_left {space : Bytes} (h : Spaces space) (text : Bytes) :
    utilsTrim (space ++ text) = utilsTrim text := by
  unfold utilsTrim
  rw [List.reverse_append, List.dropWhile_append]
  split
  · rename_i hblank
    have hspace : space.reverse.dropWhile isspace = [] :=
      List.dropWhile_eq_nil_iff.mpr fun c hc => h c (List.mem_reverse.mp hc)
    rw [List.isEmpty_iff.mp hblank, hspace]
  · rw [List.reverse_append, List.reverse_reverse, List.dropWhile_append_of_pos h]

/-- What is trimmed off. -/
theorem exists_utilsTrim (text : Bytes) :
    ∃ lead trail, Spaces lead ∧ Spaces trail ∧ text = lead ++ (utilsTrim text ++ trail) := by
  have htext := List.takeWhile_append_dropWhile (p := isspace) (l := text.reverse)
  have hfront := List.takeWhile_append_dropWhile (p := isspace)
    (l := (text.reverse.dropWhile isspace).reverse)
  refine ⟨(text.reverse.dropWhile isspace).reverse.takeWhile isspace,
    (text.reverse.takeWhile isspace).reverse, ?_, ?_, ?_⟩
  · intro c hc
    exact List.mem_takeWhile_imp hc
  · intro c hc
    exact List.mem_takeWhile_imp (List.mem_reverse.mp hc)
  · unfold utilsTrim
    rw [← List.append_assoc, hfront, ← List.reverse_append, htext, List.reverse_reverse]

theorem utilsTrim_eq_nil {text : Bytes} : utilsTrim text = [] ↔ Spaces text := by
  constructor
  · intro h
    obtain ⟨lead, trail, hlead, htrail, htext⟩ := exists_utilsTrim text
    rw [h, List.nil_append] at htext
    intro c hc
    rw [htext, List.mem_append] at hc
    exact hc.elim (hlead c) (htrail c)
  · intro h
    have hspace := utilsTrim_space_left h []
    rw [List.append_nil] at hspace
    exact hspace

theorem dropWhile_utilsTrim (text : Bytes) :
    (utilsTrim text).dropWhile isspace = utilsTrim text := by
  unfold utilsTrim
  exact List.dropWhile_idempotent _ _

theorem length_utilsTrim_le (text : Bytes) : (utilsTrim text).length ≤ text.length := by
  have hlead := (List.dropWhile_sublist (l := (text.reverse.dropWhile isspace).reverse)
    isspace).length_le
  have htrail := (List.dropWhile_sublist (l := text.reverse) isspace).length_le
  rw [List.length_reverse] at hlead htrail
  exact Nat.le_trans hlead htrail

end JungleDb
