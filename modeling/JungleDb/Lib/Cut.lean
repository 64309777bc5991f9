import Mathlib.Data.List.Basic

/-!
# Texts cut at their stops

A text is cut behind each stop that is not in quotes. Whether a byte is in quotes is a matter of the
number of quotes before it, so the parts of a text followed by more can be read off its own parts,
the text left behind the last stop, and what follows.
-/

namespace Cut

variable {α : Type} [DecidableEq α] (quote stop : α)

/-- Inside quotes or not, behind a text. -/
def quoted (inside : Bool) : List α → Bool
  | [] => inside
  | c :: text => quoted (inside ^^ c = quote) text

/-- The text up to its first stop outside quotes, and the rest. -/
def first (inside : Bool) : List α → Option (List α × List α)
  | [] => none
  | c :: text =>
    if c = stop ∧ inside = false then some ([c], text)
    else (first (inside ^^ c = quote) text).map fun cut => (c :: cut.1, cut.2)

variable {quote stop} {inside : Bool} {text part rest : List α}

theorem first_eq_some (h : first quote stop inside text = some (part, rest)) :
    text = part ++ rest ∧ ∃ body, part = body ++ [stop] := by
  induction text generalizing inside part with
  | nil => cases h
  | cons c text ih =>
    rw [first] at h
    split at h
    · rename_i hstop
      cases h
      exact ⟨rfl, [], by rw [hstop.1]; rfl⟩
    · obtain ⟨⟨part', rest'⟩, h', heq⟩ := Option.map_eq_some_iff.mp h
      cases heq
      obtain ⟨rfl, body, rfl⟩ := ih h'
      exact ⟨rfl, c :: body, rfl⟩

theorem length_rest_lt (h : first quote stop inside text = some (part, rest)) :
    rest.length < text.length := by
  obtain ⟨rfl, body, rfl⟩ := first_eq_some h
  rw [List.length_append, List.length_append, List.length_singleton]
  omega

/-- The first part is found whatever follows. -/
theorem first_append_some (h : first quote stop inside text = some (part, rest)) (more : List α) :
    first quote stop inside (text ++ more) = some (part, rest ++ more) := by
  induction text generalizing inside part with
  | nil => cases h
  | cons c text ih =>
    rw [first] at h
    rw [List.cons_append, first]
    split at h
    · rename_i hstop
      cases h
      rw [if_pos hstop]
    · rename_i hstop
      obtain ⟨⟨part', rest'⟩, h', heq⟩ := Option.map_eq_some_iff.mp h
      cases heq
      rw [if_neg hstop, ih h']
      rfl

/-- A text without a stop is a part of the first one. -/
theorem first_append_none (h : first quote stop inside text = none) (more : List α) :
    first quote stop inside (text ++ more) =
      (first quote stop (quoted quote inside text) more).map fun cut => (text ++ cut.1, cut.2) := by
  induction text generalizing inside with
  | nil =>
    show first quote stop inside more = (first quote stop inside more).map id
    rw [Option.map_id_apply]
  | cons c text ih =>
    rw [first] at h
    split at h
    · cases h
    · rename_i hstop
      rw [List.cons_append, first, if_neg hstop, ih (Option.map_eq_none_iff.mp h), Option.map_map]
      rfl

/-- Neither quotes nor stops. -/
theorem first_of_plain (h : ∀ c ∈ text, c ≠ quote ∧ c ≠ stop) (inside : Bool) :
    first quote stop inside text = none ∧ quoted quote inside text = inside := by
  induction text with
  | nil => exact ⟨rfl, rfl⟩
  | cons c text ih =>
    obtain ⟨hquote, hstop⟩ := h c List.mem_cons_self
    have hinside : (inside ^^ decide (c = quote)) = inside := by
      rw [decide_eq_false hquote, Bool.xor_false]
    obtain ⟨hnone, hsame⟩ := ih fun d hd => h d (List.mem_cons_of_mem c hd)
    constructor
    · rw [first, if_neg fun hc => hstop hc.1, hinside, hnone]
      rfl
    · rw [quoted, hinside, hsame]

theorem quoted_append (inside : Bool) (text more : List α) :
    quoted quote inside (text ++ more) = quoted quote (quoted quote inside text) more := by
  induction text generalizing inside with
  | nil => rfl
  | cons c text ih => exact ih _

variable (quote stop)

/-- The parts that end in a stop, and the text left. -/
def parts (text : List α) : List (List α) × List α :=
  match _h : first quote stop false text with
  | none => ([], text)
  | some (part, rest) => (part :: (parts rest).1, (parts rest).2)
termination_by text.length
decreasing_by all_goals exact length_rest_lt _h

variable {quote stop}

theorem parts_of_none (h : first quote stop false text = none) :
    parts quote stop text = ([], text) := by
  rw [parts]
  split
  · rfl
  · rename_i h'
    rw [h] at h'
    cases h'

theorem parts_of_some (h : first quote stop false text = some (part, rest)) :
    parts quote stop text = (part :: (parts quote stop rest).1, (parts quote stop rest).2) := by
  rw [parts]
  split
  · rename_i h'
    rw [h] at h'
    cases h'
  · rename_i h'
    rw [h] at h'
    cases h'
    rfl

/-- No stop is left behind the last part. -/
theorem first_left (text : List α) : first quote stop false (parts quote stop text).2 = none := by
  induction text using parts.induct quote stop with
  | case1 text h =>
    rw [parts_of_none h]
    exact h
  | case2 text part rest h ih =>
    rw [parts_of_some h]
    exact ih

/-- The parts of a longer text. -/
theorem parts_append (text more : List α) :
    parts quote stop (text ++ more) =
      ((parts quote stop text).1 ++ (parts quote stop ((parts quote stop text).2 ++ more)).1,
        (parts quote stop ((parts quote stop text).2 ++ more)).2) := by
  induction text using parts.induct quote stop with
  | case1 text h =>
    rw [parts_of_none h]
    rfl
  | case2 text part rest h ih =>
    rw [parts_of_some (first_append_some h more), parts_of_some h, ih]
    rfl

theorem parts_eq_nil : (parts quote stop text).1 = [] ↔ first quote stop false text = none := by
  cases h : first quote stop false text with
  | none =>
    rw [parts_of_none h]
    exact ⟨fun _ => rfl, fun _ => rfl⟩
  | some cut =>
    rw [parts_of_some h]
    exact ⟨nofun, nofun⟩

end Cut
