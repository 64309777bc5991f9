import Mathlib.Order.Basic
import Mathlib.Data.List.Basic
import Mathlib.Data.List.Infix
import Mathlib.Data.List.TakeWhile
import Mathlib.Tactic.IntervalCases

/-!
# C strings

A string is the list of its bytes before the terminating NUL. The character classes are those of
the C locale. `strcmp` is given by its sign, `strtoll` by the value, the end of the parsed text and
whether `errno` is set to `ERANGE`; both are characterised: `strcmp` is the lexicographic order and
`strtoll` reads back what `printf` writes.
-/

namespace CString

/-- The bytes of a string. -/
abbrev Bytes := List UInt8

/-- The byte of an ASCII character. -/
def ch (c : Char) : UInt8 := UInt8.ofNat c.toNat

/-- The bytes of an ASCII string. -/
def bytes (s : String) : Bytes := s.toList.map ch

/-- What a `char[n]` holds: a string that ends inside the array. -/
structure CStr (n : Nat) where
  text : Bytes
  fits : text.length < n
  deriving DecidableEq

/-- `snprintf(dest, n, "%s", src)`: the string is cut where the array ends. -/
def snprintf (n : Nat) [NeZero n] (src : Bytes) : CStr n :=
  ⟨src.take (n - 1), by
    have := Nat.pos_of_ne_zero (NeZero.ne n)
    rw [List.length_take]
    omega⟩

/-- A literal kept in a `char[n]`. -/
def lit (n : Nat) [NeZero n] (s : String) : CStr n := snprintf n (bytes s)

namespace CStr

variable {n : Nat}

@[ext] theorem ext {s t : CStr n} (h : s.text = t.text) : s = t := by
  cases s
  cases t
  subst h
  rfl

/-- The string with a byte appended, if the array has room for it. -/
def push (s : CStr n) (c : UInt8) : Option (CStr n) :=
  if h : (s.text ++ [c]).length < n then some ⟨s.text ++ [c], h⟩ else none

/-- The string with bytes appended, if the array has room for them. -/
def append (s : CStr n) (bs : Bytes) : Option (CStr n) :=
  if h : (s.text ++ bs).length < n then some ⟨s.text ++ bs, h⟩ else none

/-- The empty string. -/
def empty [NeZero n] : CStr n := ⟨[], Nat.pos_of_ne_zero (NeZero.ne n)⟩

instance [NeZero n] : Inhabited (CStr n) := ⟨empty⟩

@[simp] theorem text_empty [NeZero n] : (empty : CStr n).text = [] := rfl

theorem push_eq_some {s t : CStr n} {c : UInt8} : s.push c = some t ↔ t.text = s.text ++ [c] := by
  unfold push
  split
  · rw [Option.some.injEq, CStr.ext_iff, eq_comm]
  · rename_i h
    simp only [reduceCtorEq, false_iff]
    intro ht
    exact h (ht ▸ t.fits)

theorem append_eq_some {s t : CStr n} {bs : Bytes} :
    s.append bs = some t ↔ t.text = s.text ++ bs := by
  unfold append
  split
  · rw [Option.some.injEq, CStr.ext_iff, eq_comm]
  · rename_i h
    simp only [reduceCtorEq, false_iff]
    intro ht
    exact h (ht ▸ t.fits)

theorem append_eq_none {s : CStr n} {bs : Bytes} :
    s.append bs = none ↔ n ≤ (s.text ++ bs).length := by
  rw [append, dite_eq_right_iff]
  simp only [reduceCtorEq, imp_false, Nat.not_lt]

theorem append_nil (s : CStr n) : s.append [] = some s := by
  rw [append_eq_some, List.append_nil]

theorem append_singleton (s : CStr n) (c : UInt8) : s.append [c] = s.push c := rfl

/-- Appending in two parts: the second is tried where the first fits. -/
theorem append_append (s : CStr n) (as bs : Bytes) :
    s.append (as ++ bs) = (s.append as).bind (·.append bs) := by
  cases has : s.append as with
  | none =>
    rw [append_eq_none, List.length_append] at has
    rw [Option.bind_none, append_eq_none, List.length_append, List.length_append]
    omega
  | some t =>
    rw [append_eq_some] at has
    rw [Option.bind_some, append, append]
    simp only [has, List.append_assoc]

end CStr

/-! ## `<ctype.h>` -/

def isspace (c : UInt8) : Bool := c == 32 || (9 ≤ c && c ≤ 13)

def isdigit (c : UInt8) : Bool := 48 ≤ c && c ≤ 57

def isalpha (c : UInt8) : Bool := (65 ≤ c && c ≤ 90) || (97 ≤ c && c ≤ 122)

def isalnum (c : UInt8) : Bool := isalpha c || isdigit c

def toupper (c : UInt8) : UInt8 := if 97 ≤ c && c ≤ 122 then c - 32 else c

def tolower (c : UInt8) : UInt8 := if 65 ≤ c && c ≤ 90 then c + 32 else c

theorem isdigit_iff {c : UInt8} : isdigit c = true ↔ 48 ≤ c.toNat ∧ c.toNat ≤ 57 := by
  simp [isdigit, UInt8.le_iff_toNat_le]

theorem isspace_eq_false_of_isdigit {c : UInt8} (h : isdigit c = true) : isspace c = false := by
  rw [isdigit_iff] at h
  simp only [isspace, Bool.or_eq_false_iff, beq_eq_false_iff_ne, ne_eq, Bool.and_eq_false_iff,
    decide_eq_false_iff_not, UInt8.le_iff_toNat_le, ← UInt8.toNat_inj]
  refine ⟨?_, Or.inr ?_⟩
  · intro h32
    have : c.toNat = 32 := h32
    omega
  · intro h13
    have : c.toNat ≤ 13 := h13
    omega

/-! ## `strcmp` -/

/-- `strcmp`, up to the size of its result. -/
def strcmp : Bytes → Bytes → Int
  | [], [] => 0
  | [], _ :: _ => -1
  | _ :: _, [] => 1
  | a :: as, b :: bs => if a < b then -1 else if b < a then 1 else strcmp as bs

theorem strcmp_lt {a b : Bytes} : strcmp a b < 0 ↔ a < b := by
  induction a generalizing b with
  | nil =>
    cases b with
    | nil => simp [strcmp]
    | cons b bs => simp [strcmp]
  | cons a as ih =>
    cases b with
    | nil => simp [strcmp]
    | cons b bs =>
      rw [strcmp, List.cons_lt_cons_iff, ← ih]
      split
      · rename_i hab
        simp [hab]
      · rename_i hab
        split
        · rename_i hba
          have hne : a ≠ b := fun h => absurd (h ▸ hba) (UInt8.lt_irrefl _)
          simp [hab, hne]
        · rename_i hba
          have heq : a = b := UInt8.le_antisymm (UInt8.not_lt.mp hba) (UInt8.not_lt.mp hab)
          simp [heq]

theorem strcmp_eq {a b : Bytes} : strcmp a b = 0 ↔ a = b := by
  induction a generalizing b with
  | nil => cases b <;> simp [strcmp]
  | cons a as ih =>
    cases b with
    | nil => simp [strcmp]
    | cons b bs =>
      rw [strcmp, List.cons.injEq, ← ih]
      split
      · rename_i hab
        have hne : a ≠ b := fun h => absurd (h ▸ hab) (UInt8.lt_irrefl _)
        simp [hne]
      · rename_i hab
        split
        · rename_i hba
          have hne : a ≠ b := fun h => absurd (h ▸ hba) (UInt8.lt_irrefl _)
          simp [hne]
        · rename_i hba
          have heq : a = b := UInt8.le_antisymm (UInt8.not_lt.mp hba) (UInt8.not_lt.mp hab)
          simp [heq]

theorem strcmp_swap (a b : Bytes) : strcmp b a = - strcmp a b := by
  induction a generalizing b with
  | nil => cases b <;> rfl
  | cons a as ih =>
    cases b with
    | nil => rfl
    | cons b bs =>
      rw [strcmp, strcmp]
      by_cases hab : a < b
      · have hba : ¬ b < a := fun h => UInt8.lt_irrefl _ (UInt8.lt_trans hab h)
        simp [hab, hba]
      · by_cases hba : b < a
        · simp [hab, hba]
        · simp [hab, hba, ih]

/-! ## `strncmp` and `strstr` -/

/-- `strncmp(a, b, n)`, up to the size of its result. -/
def strncmp (a b : Bytes) (n : Nat) : Int := strcmp (a.take n) (b.take n)

/-- What lies past the compared bytes does not matter. -/
theorem strncmp_append {a : Bytes} {n : Nat} (h : n ≤ a.length) (more b : Bytes) :
    strncmp (a ++ more) b n = strncmp a b n := by
  rw [strncmp, List.take_append_of_le_length h, strncmp]

theorem strncmp_take {m n : Nat} (h : n ≤ m) (a b : Bytes) :
    strncmp (a.take m) b n = strncmp a b n := by
  rw [strncmp, List.take_take, Nat.min_eq_left h, strncmp]

/-- `strstr(text, part)`: the text from the first place on where the part stands. -/
def strstr (text part : Bytes) : Option Bytes := text.tails.find? part.isPrefixOf

theorem strstr_isSome {text part : Bytes} : (strstr text part).isSome = true ↔ part <:+: text := by
  rw [strstr, List.find?_isSome, List.infix_iff_prefix_suffix]
  simp only [List.mem_tails, List.isPrefixOf_iff_prefix]
  exact exists_congr fun _ => And.comm

/-! ## Decimal numbers -/

/-- `"%d"` of a number that is not negative. -/
def decimal (n : Nat) : Bytes := (Nat.toDigits 10 n).map ch

/-- `"%lld"`. -/
def lld (n : Int) : Bytes := if n < 0 then ch '-' :: decimal n.natAbs else decimal n.toNat

/-- The value of a string of digits. -/
def digitsValue (ds : Bytes) : Nat := ds.foldl (fun v c => 10 * v + (c.toNat - 48)) 0

theorem digitsValue_append_singleton (ds : Bytes) (c : UInt8) :
    digitsValue (ds ++ [c]) = 10 * digitsValue ds + (c.toNat - 48) := by
  simp [digitsValue]

theorem toNat_ch_digitChar {d : Nat} (h : d < 10) : (ch d.digitChar).toNat = 48 + d := by
  interval_cases d <;> rfl

theorem decimal_eq (n : Nat) :
    decimal n = (if n < 10 then [] else decimal (n / 10)) ++ [ch (n % 10).digitChar] := by
  unfold decimal
  rw [Nat.toDigits_eq_if (by omega)]
  split
  · rename_i h
    rw [Nat.mod_eq_of_lt h]
    rfl
  · rw [List.map_append]
    rfl

theorem decimal_ne_nil (n : Nat) : decimal n ≠ [] := by
  rw [decimal_eq]
  simp

theorem isdigit_of_mem_decimal (n : Nat) : ∀ c ∈ decimal n, isdigit c = true := by
  induction n using Nat.strong_induction_on with
  | _ n ih =>
    intro c hc
    rw [decimal_eq, List.mem_append, List.mem_singleton] at hc
    rcases hc with hc | rfl
    · split at hc
      · cases hc
      · exact ih (n / 10) (by omega) c hc
    · rw [isdigit_iff, toNat_ch_digitChar (Nat.mod_lt _ (by omega))]
      omega

theorem digitsValue_decimal (n : Nat) : digitsValue (decimal n) = n := by
  induction n using Nat.strong_induction_on with
  | _ n ih =>
    rw [decimal_eq, digitsValue_append_singleton, toNat_ch_digitChar (Nat.mod_lt _ (by omega))]
    split
    · simp only [digitsValue, List.foldl_nil]
      omega
    · rw [ih (n / 10) (by omega)]
      omega

/-! ## `strtoll` -/

def LLONG_MIN : Int := -2 ^ 63

def LLONG_MAX : Int := 2 ^ 63 - 1

/-- What `strtoll` returns, the offset it stores through `endptr`, and whether it sets `ERANGE`. -/
structure Strtoll where
  value : Int
  stop : Nat
  erange : Bool

/-- The length of an optional sign. -/
def signLength (text : Bytes) : Nat :=
  if text.head? = some (ch '-') ∨ text.head? = some (ch '+') then 1 else 0

/-- The number that a text of an optional sign and digits denotes. -/
def intValue (text : Bytes) : Int :=
  if text.head? = some (ch '-') then -(digitsValue (text.drop (signLength text)) : Int)
  else digitsValue (text.drop (signLength text))

/-- `strtoll(text, &end, 10)`. -/
def strtoll (text : Bytes) : Strtoll :=
  let body := text.dropWhile isspace
  let digits := (body.drop (signLength body)).takeWhile isdigit
  if digits = [] then ⟨0, 0, false⟩
  else
    let n := intValue (body.take (signLength body + digits.length))
    ⟨if n < LLONG_MIN then LLONG_MIN else if LLONG_MAX < n then LLONG_MAX else n,
      (text.length - body.length) + signLength body + digits.length,
      n < LLONG_MIN || LLONG_MAX < n⟩

/-- The number fits a `long long`. -/
def InLongLong (n : Int) : Prop := LLONG_MIN ≤ n ∧ n ≤ LLONG_MAX

instance (n : Int) : Decidable (InLongLong n) := inferInstanceAs (Decidable (_ ∧ _))

/-- On a text that is a sign and digits throughout, `strtoll` reads the number it denotes. -/
theorem strtoll_eq {text : Bytes} (hne : text.drop (signLength text) ≠ [])
    (hdigits : ∀ c ∈ text.drop (signLength text), isdigit c = true) :
    strtoll text = ⟨if intValue text < LLONG_MIN then LLONG_MIN
      else if LLONG_MAX < intValue text then LLONG_MAX else intValue text, text.length,
      !decide (InLongLong (intValue text))⟩ := by
  have hspace : text.dropWhile isspace = text := by
    cases text with
    | nil => rfl
    | cons c text =>
      rw [List.dropWhile_cons_of_neg]
      rw [Bool.not_eq_true]
      by_cases hm : c = ch '-'
      · subst hm; decide
      · by_cases hp : c = ch '+'
        · subst hp; decide
        · have hsign : signLength (c :: text) = 0 := by simp [signLength, hm, hp]
          rw [hsign, List.drop_zero] at hdigits
          exact isspace_eq_false_of_isdigit (hdigits c List.mem_cons_self)
  have htake : (text.drop (signLength text)).takeWhile isdigit = text.drop (signLength text) :=
    List.takeWhile_eq_self_iff.mpr hdigits
  have hlen : signLength text + (text.drop (signLength text)).length = text.length := by
    have : 0 < (text.drop (signLength text)).length := List.length_pos_of_ne_nil hne
    rw [List.length_drop] at this ⊢
    omega
  unfold strtoll
  simp only [hspace, htake, if_neg hne, hlen, List.take_length, Nat.sub_self, Nat.zero_add]
  congr 1
  rw [← Bool.decide_or, ← decide_not, decide_eq_decide, InLongLong, not_and_or, not_le, not_le]

theorem signLength_le (text : Bytes) : signLength text ≤ 1 := by
  unfold signLength
  split
  · exact le_refl 1
  · exact Nat.zero_le 1

theorem signLength_append {text : Bytes} (h : text ≠ []) (more : Bytes) :
    signLength (text ++ more) = signLength text := by
  unfold signLength
  rw [List.head?_append_of_ne_nil text h]

/-- Leading white space only moves the end of the parsed text. -/
theorem strtoll_space {space : Bytes} (h : ∀ c ∈ space, isspace c = true) (text : Bytes) :
    strtoll (space ++ text) =
      { strtoll text with
        stop := if (strtoll text).stop = 0 then 0 else space.length + (strtoll text).stop } := by
  have hbody : (text.dropWhile isspace).length ≤ text.length :=
    (List.dropWhile_sublist isspace).length_le
  unfold strtoll
  simp only [List.dropWhile_append_of_pos h, List.length_append]
  split
  · rfl
  · rename_i hdigits
    have hpos := List.length_pos_of_ne_nil hdigits
    rw [Strtoll.mk.injEq]
    refine ⟨rfl, ?_, rfl⟩
    simp only
    rw [if_neg (by omega)]
    omega

/-- After a byte that is no space, `strtoll` stops at the next one that is no digit. -/
theorem strtoll_append {text : Bytes} (h : ∃ c ∈ text, isspace c = false) {d : UInt8}
    (hd : isdigit d = false) (more : Bytes) : strtoll (text ++ d :: more) = strtoll text := by
  have hne : text.dropWhile isspace ≠ [] := by
    obtain ⟨c, hc, hspace⟩ := h
    intro hnil
    rw [List.dropWhile_eq_nil_iff.mp hnil c hc] at hspace
    cases hspace
  have hbody : (text ++ d :: more).dropWhile isspace = text.dropWhile isspace ++ d :: more := by
    rw [List.dropWhile_append, if_neg]
    rw [List.isEmpty_iff]
    exact hne
  have hlen : (text.dropWhile isspace).length ≤ text.length :=
    (List.dropWhile_sublist isspace).length_le
  have hsign : signLength (text.dropWhile isspace) ≤ (text.dropWhile isspace).length :=
    Nat.le_trans (signLength_le _) (List.length_pos_of_ne_nil hne)
  unfold strtoll
  simp only [hbody, signLength_append hne, List.drop_append_of_le_length hsign]
  generalize text.dropWhile isspace = body at *
  have hdigits : (body.drop (signLength body) ++ d :: more).takeWhile isdigit =
      (body.drop (signLength body)).takeWhile isdigit := by
    rw [List.takeWhile_append, List.takeWhile_cons_of_neg (by rw [hd]; exact Bool.false_ne_true)]
    split
    · rename_i hall
      rw [List.append_nil]
      exact ((List.takeWhile_prefix isdigit).eq_of_length hall).symm
    · rfl
  have htaken := ((List.takeWhile_prefix isdigit : _ <+: body.drop (signLength body))).length_le
  rw [List.length_drop] at htaken
  rw [hdigits, List.take_append_of_le_length (by omega), List.length_append, List.length_append]
  have hstop : text.length + (d :: more).length - (body.length + (d :: more).length) =
      text.length - body.length := by omega
  rw [hstop]

theorem signLength_decimal (n : Nat) : signLength (decimal n) = 0 := by
  unfold signLength
  rw [if_neg]
  intro h
  have hmem : ∃ c ∈ decimal n, c = ch '-' ∨ c = ch '+' := by
    cases hd : decimal n with
    | nil => rw [hd] at h; simp at h
    | cons c ds =>
      rw [hd] at h
      exact ⟨c, List.mem_cons_self, by simpa using h⟩
  obtain ⟨c, hc, hcc⟩ := hmem
  have := isdigit_of_mem_decimal n c hc
  rcases hcc with rfl | rfl
  · exact absurd this (by decide)
  · exact absurd this (by decide)

theorem intValue_decimal (n : Nat) : intValue (decimal n) = n := by
  have hsign := signLength_decimal n
  have hminus : (decimal n).head? ≠ some (ch '-') := fun h => by
    rw [signLength, if_pos (.inl h)] at hsign
    cases hsign
  rw [intValue, if_neg hminus, hsign, List.drop_zero, digitsValue_decimal]

end CString
