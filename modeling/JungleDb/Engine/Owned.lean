import JungleDb.Engine.Memory

/-!
# Which blocks a result owns

A SELECT that succeeds hands over a result with the rows that `executorSelectBody` selects, each in
blocks of its own. One that fails leaves the blocks that were there before it, and it fails for
another reason than `executorSelectBody` does only where a request for memory was refused.
-/

namespace JungleDb

open CArray CString Heap

/-! ## Reading a table -/

theorem mem_cell {β : Type} (p : Ptr) (b : β) (frame : Multiset (Ptr × β)) :
    (p, b) ∈ cell p b + frame :=
  Multiset.mem_add.mpr (.inl (Multiset.mem_singleton_self _))

theorem RowAt.mem_owned (r : RowAt) : (r.ptr, Block.slots (r.cells.map CellAt.slot)) ∈ r.owned :=
  mem_cell _ _ _

theorem mem_cellsOwned {cells : List CellAt} {p : Ptr} {text : Bytes}
    (h : some (p, text) ∈ cells) : (p, Block.text text) ∈ cellsOwned cells := by
  obtain ⟨before, after, rfl⟩ := List.append_of_mem h
  rw [cellsOwned_append, cellsOwned_cons]
  exact Multiset.mem_add.mpr (.inr (mem_cell _ _ _))

/-- A cell of a row that is there. -/
theorem RowAt.Holds.cell {r : RowAt} {row : Row} (h : r.Holds row) {i : Nat} {text : Bytes}
    (hi : row[i]? = some text) : ∃ p, (r.cells.map CellAt.slot)[i]? = some (some (some p)) ∧
      (p, Block.text text) ∈ r.owned := by
  have hcell := congrArg (·[i]?) h
  simp only [List.getElem?_map, hi, Option.map_some] at hcell
  obtain ⟨c, hc, htext⟩ := Option.map_eq_some_iff.mp hcell
  obtain ⟨⟨p, text'⟩, rfl, rfl⟩ := Option.map_eq_some_iff.mp htext
  refine ⟨p, ?_, ?_⟩
  · rw [List.getElem?_map, hc]
    rfl
  · exact Multiset.mem_add.mpr (.inr (mem_cellsOwned (List.mem_of_getElem? hc)))

theorem owned_subset_rowsOwned {r : RowAt} {rows : List RowAt} (h : r ∈ rows) :
    r.owned ⊆ rowsOwned rows := by
  obtain ⟨before, after, rfl⟩ := List.append_of_mem h
  rw [rowsOwned_append, rowsOwned_cons]
  intro c hc
  exact Multiset.mem_add.mpr (.inr (Multiset.mem_add.mpr (.inl hc)))

theorem TableAt.nodesOwned_subset {m : TableMemory} {t : TableRuntime} {owned : Blocks}
    (hat : TableAt m t owned) : nodesOwned m.nodes ⊆ owned := by
  obtain ⟨-, -, -, -, -, -, rfl, -⟩ := hat
  exact fun c hc => Multiset.mem_add.mpr (.inl hc)

/-- A row of a table in memory. -/
theorem TableAt.row {m : TableMemory} {t : TableRuntime} {owned : Blocks} (hat : TableAt m t owned)
    {i : Nat} (hi : i < t.rowCount) : ∃ row p ps r, t.rows[i]? = some (some row) ∧
      m.rows = some p ∧ (p, Block.slots ps) ∈ owned ∧ ps[i]? = some (some (some r.ptr)) ∧
      RowAt.Holds r row ∧ r.owned ⊆ owned := by
  obtain ⟨fields, mrows, nodes⟩ := m
  obtain ⟨-, -, texts, spare, blocks, hrows, rfl, hslots, hcount, -⟩ := hat
  have hsub : ∀ {part : Blocks}, part ⊆ blocks → part ⊆ nodesOwned nodes + blocks :=
    fun hpart c hc => Multiset.mem_add.mpr (.inr (hpart hc))
  rw [← hcount] at hi
  cases hrows with
  | null => cases hi
  | @array p stored texts spare hholds =>
    have hlength := hholds.length_eq
    have hstored : i < stored.length := hlength ▸ hi
    refine ⟨texts[i], p, _, stored[i], ?_, rfl, Multiset.mem_add.mpr (.inr (mem_cell _ _ _)), ?_, ?_,
      hsub ?_⟩
    · rw [hslots, List.getElem?_append_left (by simpa using hi)]
      simp [hi]
    · rw [List.getElem?_append_left (by simpa using hstored)]
      simp [hstored, RowAt.slot]
    · exact List.forall₂_iff_get.mp hholds |>.2 i hstored hi
    · intro c hc
      exact Multiset.mem_add.mpr (.inr (owned_subset_rowsOwned (List.getElem_mem hstored) hc))

namespace Mem

theorem deref_spec {p : Ptr} {s : State Block} :
    Spec (deref (some p)) s fun p' s' => p' = p ∧ s' = s := .pure ⟨rfl, rfl⟩

theorem tableGetRowBySlot_spec {m : TableMemory} {t : TableRuntime} {owned frame : Blocks}
    {s : State Block} (hat : TableAt m t owned) (hsub : owned ⊆ frame) (h : Owns s frame)
    (rowIndex : Int) :
    Spec (tableGetRowBySlot m rowIndex) s fun r s' => s' = s ∧
      match JungleDb.tableGetRowBySlot t rowIndex with
      | none => r = none
      | some row => ∃ b : RowAt, r = some b.ptr ∧ b.Holds row ∧ b.owned ⊆ owned := by
  unfold tableGetRowBySlot JungleDb.tableGetRowBySlot
  rw [hat.fields]
  simp only
  by_cases hrange : rowIndex < 0 ∨ (t.rowCount : Int) ≤ rowIndex
  · rw [if_pos hrange, if_pos hrange]
    exact .pure ⟨rfl, rfl⟩
  · rw [if_neg hrange, if_neg hrange]
    obtain ⟨row, p, ps, r, hrow, hp, hmem, hslot, hholds, hr⟩ :=
      hat.row (i := rowIndex.toNat) (by omega)
    rw [hp, hrow]
    refine deref_spec.bind ?_
    rintro _ _ ⟨rfl, rfl⟩
    refine (loadSlot_of_mem h (hsub hmem) hslot).mono ?_
    rintro _ _ ⟨rfl, rfl⟩
    exact ⟨rfl, r, rfl, hholds, hr⟩

end Mem

/-! ## Freeing the rows of a result -/

/-- A slot of the array of rows of a result: a row, perhaps with cells that are NULL, or NULL. -/
abbrev ResultSlot := Option RowAt

def ResultSlot.slot (r : ResultSlot) : Option (Option Ptr) := some (r.map RowAt.ptr)

def slotsOwned (rs : List ResultSlot) : Blocks := (rs.map fun r => r.elim 0 RowAt.owned).sum

@[simp] theorem slotsOwned_nil : slotsOwned [] = 0 := rfl

@[simp] theorem slotsOwned_cons (r : ResultSlot) (rs : List ResultSlot) :
    slotsOwned (r :: rs) = r.elim 0 RowAt.owned + slotsOwned rs := rfl

@[simp] theorem slotsOwned_append (rs rs' : List ResultSlot) :
    slotsOwned (rs ++ rs') = slotsOwned rs + slotsOwned rs' := by
  simp [slotsOwned]

@[simp] theorem slotsOwned_replicate_none (n : Nat) : slotsOwned (List.replicate n none) = 0 := by
  induction n with
  | zero => rfl
  | succ n ih =>
    rw [List.replicate_succ, slotsOwned_cons, ih]
    rfl

/-- Each row that is there has this many cells. -/
def Wide (colCount : Nat) (rs : List ResultSlot) : Prop :=
  ∀ r ∈ rs, ∀ b ∈ r, b.cells.length = colCount

/-- An array of rows of a result. -/
def arrayOwned (p : Ptr) (rs : List ResultSlot) : Blocks :=
  cell p (.slots (rs.map ResultSlot.slot)) + slotsOwned rs

namespace Mem

theorem freeResultRows_spec {p : Ptr} {colCount : Nat} {frame : Blocks} (rs : List ResultSlot)
    {s : State Block} (done : List (Option (Option Ptr))) (hwide : Wide colCount rs)
    (h : Owns s (cell p (.slots (done ++ rs.map ResultSlot.slot)) + slotsOwned rs + frame)) :
    Spec (freeResultRows p colCount rs.length done.length) s fun _ s' => s'.grants = s.grants ∧
      ∃ ps, Owns s' (cell p (.slots ps) + frame) := by
  induction rs generalizing s done with
  | nil => exact .pure ⟨rfl, done, h.of_eq (by simp)⟩
  | cons r rs ih =>
    obtain ⟨hfirst, hothers⟩ := List.forall_mem_cons.mp hwide
    rw [List.map_cons, slotsOwned_cons] at h
    rw [List.length_cons, freeResultRows]
    refine (loadSlot_spec (h.of_eq (add_assoc _ _ _)) (getElem?_append_cons ..)).bind ?_
    rintro _ _ ⟨rfl, rfl⟩
    cases r with
    | none =>
      have hrest := ih (done ++ [some none]) hothers (h.of_eq (by
        simp [ResultSlot.slot, add_assoc]))
      rw [List.length_append] at hrest
      exact hrest
    | some b =>
      have hb : Owns _ (cell b.ptr (.slots ([] ++ b.cells.map CellAt.slot)) + cellsOwned b.cells +
          (cell p (.slots (done ++ ResultSlot.slot (some b) :: rs.map ResultSlot.slot)) +
            slotsOwned rs + frame)) := h.of_eq (by
        rw [Option.elim_some, RowAt.owned, List.nil_append]
        ac_rfl)
      have hcells := freeCells_spec b.cells [] hb
      rw [hfirst b rfl] at hcells
      refine hcells.bind ?_
      rintro _ s₁ ⟨hg₁, ps, h₁⟩
      refine h₁.free.bind ?_
      rintro _ s₂ ⟨hg₂, h₂⟩
      refine (storeSlot_spec (h₂.of_eq (add_assoc _ _ _)) (by simp) none).bind ?_
      rintro _ s₃ ⟨hg₃, h₃⟩
      rw [set_append_cons] at h₃
      have hrest := ih (done ++ [some none]) hothers (h₃.of_eq (add_assoc _ _ _).symm)
      rw [List.length_append] at hrest
      refine hrest.mono ?_
      rintro _ s₄ ⟨hg₄, hps⟩
      exact ⟨hg₄.trans (hg₃.trans (hg₂.trans hg₁)), hps⟩

theorem executorFreeRows_spec {p : Ptr} {colCount : Nat} {frame : Blocks} {rs : List ResultSlot}
    {s : State Block} (hwide : Wide colCount rs) (h : Owns s (arrayOwned p rs + frame)) :
    Spec (executorFreeRows (some p) rs.length colCount) s fun _ s' => s'.grants = s.grants ∧
      Owns s' frame := by
  refine (freeResultRows_spec rs [] hwide h).bind ?_
  rintro _ s₁ ⟨hg₁, ps, h₁⟩
  refine h₁.free.mono ?_
  rintro _ s₂ ⟨hg₂, h₂⟩
  exact ⟨hg₂.trans hg₁, h₂⟩

/-! ## Copying rows -/

theorem executorDuplicateCell_spec {q : Ptr} {text : Bytes} {owned : Blocks} {s : State Block}
    (h : Owns s owned) (hmem : (q, .text text) ∈ owned) :
    Spec (executorDuplicateCell (some q)) s fun r s' => s'.grants = (granted s.grants).2 ∧
      r.isSome = (granted s.grants).1 ∧
      Owns s' (CellAt.owned (r.map fun p => (p, text)) + owned) := by
  refine (loadText_of_mem h hmem).bind ?_
  rintro _ s ⟨rfl, rfl⟩
  exact utilsStrdup_spec h _

/-- The cells that `selected` names are copied behind those there are, until a request is refused. -/
theorem copyCells_spec {b : RowAt} {source : Row} {row : Ptr} {frame : Blocks} (hb : b.Holds source)
    (hsub : b.owned ⊆ frame) (selected : List Nat) {texts : Row} {s : State Block}
    (cells : List CellAt) (hcopy : JungleDb.executorCopyProjectedRow source selected = some texts)
    (h : Owns s (cell row (.slots (cells.map CellAt.slot ++
      List.replicate selected.length (some none))) + cellsOwned cells + frame)) :
    Spec (copyCells row b.ptr selected cells.length) s fun status s' => s'.grants <:+ s.grants ∧
      ∃ copies : List CellAt, copies.length = selected.length ∧
        Owns s' (RowAt.owned ⟨row, cells ++ copies⟩ + frame) ∧
        (status = .success → copies.map (Option.map Prod.snd) = texts.map some) ∧
        (status = .failure → false ∈ s.grants) := by
  induction selected generalizing s cells texts with
  | nil =>
    cases hcopy
    exact .pure ⟨List.suffix_refl _, [], rfl, h.of_eq (by simp [RowAt.owned]), fun _ => rfl,
      (fun hstatus => by cases hstatus)⟩
  | cons i selected ih =>
    obtain ⟨text, texts, rfl, hi, hcopy⟩ : ∃ text texts', texts = text :: texts' ∧
        source[i]? = some text ∧
        JungleDb.executorCopyProjectedRow source selected = some texts' := by
      rw [JungleDb.executorCopyProjectedRow, List.mapM_cons] at hcopy
      simp only [Option.bind_eq_bind, Option.bind_eq_some_iff] at hcopy
      obtain ⟨text, hi, texts', hrest, heq⟩ := hcopy
      exact ⟨text, texts', (Option.some.inj heq).symm, hi, hrest⟩
    obtain ⟨q, hq, htext⟩ := hb.cell hi
    have hframe : ∀ {c : Ptr × Block} {owned : Blocks}, c ∈ b.owned → c ∈ owned + frame :=
      fun hc => Multiset.mem_add.mpr (.inr (hsub hc))
    rw [List.length_cons, List.replicate_succ] at h
    rw [copyCells]
    refine (loadSlot_of_mem h (hframe b.mem_owned) hq).bind ?_
    rintro _ s ⟨rfl, rfl⟩
    refine (executorDuplicateCell_spec h (hframe htext)).bind ?_
    rintro copy s₁ ⟨hg₁, hsome, h₁⟩
    generalize hc : (copy.map fun p => (p, text) : CellAt) = c at h₁
    have hslot : CellAt.slot c = some copy := by
      rw [← hc]
      cases copy <;> rfl
    have hstored := storeSlot_spec (i := cells.length) (h₁.of_eq (m := cell row _ +
      (CellAt.owned c + cellsOwned cells + frame)) (by ac_rfl)) (by simp) copy
    refine hstored.bind ?_
    rintro _ s₂ ⟨hg₂, h₂⟩
    rw [show cells.length = (cells.map CellAt.slot).length by simp, set_append_cons, ← hslot,
      ← List.map_singleton, ← List.map_append] at h₂
    have hg : s₂.grants = (granted s.grants).2 := hg₂.trans hg₁
    have hsuffix : s₂.grants <:+ s.grants := hg ▸ granted_suffix s.grants
    cases copy with
    | none =>
      refine .pure ⟨hsuffix, c :: List.replicate selected.length none, by simp, h₂.of_eq ?_,
        (fun hstatus => by cases hstatus), fun _ => mem_of_refused hsome.symm⟩
      simp [RowAt.owned, CellAt.slot, add_assoc, add_comm]
    | some q' =>
      have hrest := ih (cells ++ [c]) hcopy (h₂.of_eq (by simp [add_assoc, add_comm]))
      rw [List.length_append] at hrest
      refine hrest.mono ?_
      rintro status s₃ ⟨hg₃, copies, hlength, h₃, hsuccess, hfailure⟩
      refine ⟨hg₃.trans hsuffix, c :: copies, by simp [hlength], h₃.of_eq (by simp), ?_, ?_⟩
      · intro hstatus
        rw [List.map_cons, hsuccess hstatus, ← hc]
        rfl
      · exact fun hstatus => hsuffix.subset (hfailure hstatus)

theorem executorCopyProjectedRow_spec {b : RowAt} {source texts : Row} {p : Ptr} {frame : Blocks}
    (hb : b.Holds source) (hsub : b.owned ⊆ frame) {selected : List Nat} {s : State Block}
    (before after : List ResultSlot)
    (hcopy : JungleDb.executorCopyProjectedRow source selected = some texts)
    (h : Owns s (arrayOwned p (before ++ none :: after) + frame)) :
    Spec (executorCopyProjectedRow p before.length b.ptr selected) s fun status s' =>
      s'.grants <:+ s.grants ∧ ∃ r : ResultSlot, Wide selected.length [r] ∧
        Owns s' (arrayOwned p (before ++ r :: after) + frame) ∧
        (status = .success → ∃ b', r = some b' ∧ b'.Holds texts) ∧
        (status = .failure → false ∈ s.grants) := by
  refine (h.alloc (.slots (List.replicate selected.length (some none)))).bind ?_
  rintro row s₁ ⟨hg₁, hsome, h₁⟩
  have hstored := storeSlot_spec (i := before.length) (h₁.of_eq (m := cell p (.slots
    (before.map ResultSlot.slot ++ some none :: after.map ResultSlot.slot)) +
    (row.elim 0 (fun q => cell q (.slots (List.replicate selected.length (some none)))) +
      slotsOwned (before ++ after) + frame)) (by
    simp [arrayOwned, ResultSlot.slot]
    ac_rfl)) (by simp) row
  refine hstored.bind ?_
  rintro _ s₂ ⟨hg₂, h₂⟩
  rw [show before.length = (before.map ResultSlot.slot).length by simp, set_append_cons] at h₂
  have hg : s₂.grants = (granted s.grants).2 := hg₂.trans hg₁
  have hsuffix : s₂.grants <:+ s.grants := hg ▸ granted_suffix s.grants
  cases row with
  | none =>
    refine .pure ⟨hsuffix, none, by simp [Wide], h₂.of_eq ?_, nofun,
      fun _ => mem_of_refused hsome.symm⟩
    simp [arrayOwned, ResultSlot.slot, add_assoc]
  | some q =>
    have hwithin : b.owned ⊆ cell p (.slots (before.map ResultSlot.slot ++ [some (some q)] ++
        after.map ResultSlot.slot)) + slotsOwned (before ++ after) + frame := fun _ hc =>
      Multiset.mem_add.mpr (.inr (hsub hc))
    refine (copyCells_spec hb hwithin selected [] hcopy (h₂.of_eq ?_)).mono ?_
    · simp
      ac_rfl
    rintro status s₃ ⟨hg₃, copies, hlength, h₃, hsuccess, hfailure⟩
    refine ⟨hg₃.trans hsuffix, some ⟨q, copies⟩, ?_, h₃.of_eq ?_, ?_, ?_⟩
    · simpa [Wide] using hlength
    · simp [arrayOwned, ResultSlot.slot]
      ac_rfl
    · exact fun hstatus => ⟨_, rfl, hsuccess hstatus⟩
    · exact fun hstatus => hsuffix.subset (hfailure hstatus)

/-! ## Collecting rows -/

/-- Where the executor reads these row indices. -/
inductive IndicesAt (frame : Blocks) : RowIndices → List Int → Prop
  | stack (values : List Int) : IndicesAt frame (.variable values) values
  | null : IndicesAt frame (.array none) []
  | array {p : Ptr} {values : List Int} (spare : List (Option Int)) :
    (p, Block.ints (values.map some ++ spare)) ∈ frame → IndicesAt frame (.array (some p)) values

theorem IndicesAt.load {frame : Blocks} {indices : RowIndices} {values : List Int}
    (hat : IndicesAt frame indices values) {owned : Blocks} (hsub : frame ⊆ owned) {s : State Block}
    (h : Owns s owned) {i : Nat} {value : Int} (hi : values[i]? = some value) :
    Spec (loadIndex indices i) s fun v s' => v = value ∧ s' = s := by
  cases hat with
  | stack =>
    simp only [loadIndex, hi]
    exact .pure ⟨rfl, rfl⟩
  | null => cases hi
  | @array p _ spare hmem =>
    refine deref_spec.bind ?_
    rintro _ s ⟨rfl, rfl⟩
    refine (h.read_of_mem (hsub hmem)).bind ?_
    rintro _ s ⟨rfl, rfl⟩
    have hread : (values.map some ++ spare)[i]? = some (some value) := by
      obtain ⟨hlt, -⟩ := List.getElem?_eq_some_iff.mp hi
      rw [List.getElem?_append_left (by simpa using hlt), List.getElem?_map, hi]
      rfl
    simp only [hread]
    exact .pure ⟨rfl, rfl⟩

/-- The rows of the indices from the `before.length`-th on are copied, until one cannot be. -/
theorem collectLoop_spec {m : TableMemory} {t : TableRuntime} {owned frame : Blocks} {p : Ptr}
    {indices : RowIndices} {values : List Int} {selected : List Nat} (hat : TableAt m t owned)
    (hsub : owned ⊆ frame) (hindices : IndicesAt frame indices values) (rest : List Int)
    {found : Option (List Row)} {s : State Block} (before : List ResultSlot)
    (hvalues : values.drop before.length = rest)
    (hcollect : JungleDb.collectLoop t selected rest = some found)
    (h : Owns s (arrayOwned p (before ++ List.replicate rest.length none) + frame)) :
    Spec (collectLoop m (some p) selected indices rest.length before.length) s fun status s' =>
      s'.grants <:+ s.grants ∧ ∃ rs : List ResultSlot, rs.length = rest.length ∧
        Wide selected.length rs ∧ Owns s' (arrayOwned p (before ++ rs) + frame) ∧
        (status = .success → ∃ bs texts, found = some texts ∧ rs = bs.map some ∧
          List.Forall₂ RowAt.Holds bs texts) ∧
        (status = .failure → found = none ∨ false ∈ s.grants) := by
  induction rest generalizing s before found with
  | nil =>
    cases hcollect
    exact .pure ⟨List.suffix_refl _, [], rfl, List.forall_mem_nil _, h,
      fun _ => ⟨[], [], rfl, rfl, .nil⟩, (fun hstatus => by cases hstatus)⟩
  | cons value rest ih =>
    have hvalue : values[before.length]? = some value := by
      rw [← List.head?_drop, hvalues, List.head?_cons]
    have hrest : values.drop (before.length + 1) = rest := by
      rw [← List.tail_drop, hvalues, List.tail_cons]
    have hframe : ∀ {blocks : Blocks}, frame ⊆ blocks + frame := fun hc =>
      Multiset.mem_add.mpr (.inr hc)
    rw [List.length_cons, collectLoop]
    rw [List.length_cons, List.replicate_succ] at h
    rw [JungleDb.collectLoop] at hcollect
    refine (hindices.load hframe h hvalue).bind ?_
    rintro value s ⟨rfl, rfl⟩
    refine (tableGetRowBySlot_spec hat (fun _ hc => hframe (hsub hc)) h value).bind ?_
    rintro source s ⟨rfl, hsource⟩
    cases hget : JungleDb.tableGetRowBySlot t value with
    | none =>
      rw [hget] at hsource hcollect
      obtain rfl : source = none := hsource
      cases hcollect
      exact .pure ⟨List.suffix_refl _, none :: List.replicate rest.length none, by simp,
        by simp [Wide], h, (fun hstatus => by cases hstatus), fun _ => .inl rfl⟩
    | some row =>
      rw [hget] at hsource hcollect
      obtain ⟨b, rfl, hb, hbsub⟩ := hsource
      simp only [Option.bind_eq_bind, Option.bind_eq_some_iff] at hcollect
      obtain ⟨texts, hcopy, found', hcollect, heq⟩ := hcollect
      obtain rfl := Option.some.inj heq
      refine deref_spec.bind ?_
      rintro p s ⟨rfl, rfl⟩
      refine (executorCopyProjectedRow_spec hb (fun _ hc => hsub (hbsub hc)) before
        (List.replicate rest.length none) hcopy h).bind ?_
      rintro status s₁ ⟨hg₁, r, hwide, h₁, hsuccess, hfailure⟩
      cases status with
      | failure =>
        refine .pure ⟨hg₁, r :: List.replicate rest.length none, by simp, ?_, h₁,
          (fun hstatus => by cases hstatus), fun _ => .inr (hfailure rfl)⟩
        exact List.forall_mem_cons.mpr ⟨hwide r (List.mem_singleton_self r), by simp⟩
      | success =>
        obtain ⟨b', rfl, hb'⟩ := hsuccess rfl
        have hloop := ih (before ++ [some b']) (by simpa using hrest) hcollect (h₁.of_eq (by simp))
        rw [List.length_append] at hloop
        refine hloop.mono ?_
        rintro status s₂ ⟨hg₂, rs, hlength, hwides, h₂, hsuccess, hfailure⟩
        refine ⟨hg₂.trans hg₁, some b' :: rs, by simp [hlength], ?_, h₂.of_eq (by simp), ?_, ?_⟩
        · exact List.forall_mem_cons.mpr ⟨hwide _ (List.mem_singleton_self _), hwides⟩
        · intro hstatus
          obtain ⟨bs, found, rfl, rfl, hall⟩ := hsuccess hstatus
          exact ⟨b' :: bs, texts :: found, rfl, rfl, .cons hb' hall⟩
        · intro hstatus
          rcases hfailure hstatus with rfl | hrefused
          · exact .inl rfl
          · exact .inr (hg₁.subset hrefused)

theorem executorAllocateRows_spec {frame : Blocks} {s : State Block} (h : Owns s frame) {n : Nat}
    (hn : n ≠ 0) :
    Spec (executorAllocateRows n) s fun rows s' => s'.grants <:+ s.grants ∧
      ((rows = none ∧ false ∈ s.grants ∧ Owns s' frame) ∨
        ∃ p, rows = some (some p) ∧ Owns s' (arrayOwned p (List.replicate n none) + frame)) := by
  rw [executorAllocateRows, if_neg hn]
  refine (h.alloc (.slots (List.replicate n (some none)))).bind ?_
  rintro rows s₁ ⟨hg₁, hsome, h₁⟩
  have hsuffix : s₁.grants <:+ s.grants := hg₁ ▸ granted_suffix s.grants
  cases rows with
  | none => exact .pure ⟨hsuffix, .inl ⟨rfl, mem_of_refused hsome.symm, h₁.of_eq (zero_add _)⟩⟩
  | some p =>
    exact .pure ⟨hsuffix, .inr ⟨p, rfl, h₁.of_eq (by simp [arrayOwned, ResultSlot.slot])⟩⟩

end Mem

/-! ## Results -/

inductive ResultRowsAt : Option Ptr → List Row → Blocks → Prop
  | null : ResultRowsAt none [] 0
  | array {p : Ptr} {bs : List RowAt} {texts : List Row} : List.Forall₂ RowAt.Holds bs texts →
    ResultRowsAt (some p) texts (arrayOwned p (bs.map some))

/-- The result is in memory, its rows in the blocks it owns. -/
structure ResultAt (r : ResultMemory) (result : QueryResult) (owned : Blocks) : Prop where
  fields : r.fields = { result with rows := [] }
  rows : ResultRowsAt r.rows result.rows owned
  rowCount : r.rowCount = result.rows.length
  width : ∀ row ∈ result.rows, row.length = result.columnCount

/-- A call replies, or it fails without rows because a request for memory was refused. -/
def ReplyAt (reply : Reply) (grants : List Bool) (frame : Blocks) (r : Status × ResultMemory)
    (s : State Block) : Prop :=
  s.grants <:+ grants ∧
    ((r.1 = reply.1 ∧ ∃ owned, ResultAt r.2 reply.2 owned ∧ Owns s (owned + frame)) ∨
      (r.1 = .failure ∧ r.2.rows = none ∧ false ∈ grants ∧ Owns s frame))

/-- A result without rows. -/
theorem resultAt_withoutRows {result : QueryResult} (hrows : result.rows = []) :
    ResultAt ⟨result, none, 0⟩ result 0 := by
  obtain ⟨success, kind, text, error, columns, columnCount, rows⟩ := result
  obtain rfl : rows = [] := hrows
  exact ⟨rfl, .null, rfl, nofun⟩

theorem replyAt_withoutRows {reply : Reply} (hrows : reply.2.rows = []) {grants : List Bool}
    {frame : Blocks} {s : State Block} (hg : s.grants <:+ grants) (h : Owns s frame) :
    ReplyAt reply grants frame reply.withoutRows s :=
  ⟨hg, .inl ⟨rfl, 0, resultAt_withoutRows hrows, h.of_eq (zero_add _).symm⟩⟩

namespace Mem

theorem executorCollectRowsByIndices_spec {m : TableMemory} {t : TableRuntime}
    {owned frame : Blocks} {indices : RowIndices} {values : List Int} {selected : List Nat}
    {result : QueryResult} {reply : Reply} {s : State Block} (hat : TableAt m t owned)
    (hsub : owned ⊆ frame) (hindices : IndicesAt frame indices values) (hrows : result.rows = [])
    (hcount : result.columnCount = selected.length)
    (hrun : JungleDb.executorCollectRowsByIndices t selected values result = some reply)
    (h : Owns s frame) :
    Spec (executorCollectRowsByIndices m selected indices values.length result) s
      (ReplyAt reply s.grants frame) := by
  rw [JungleDb.executorCollectRowsByIndices, Option.bind_eq_bind, Option.bind_eq_some_iff] at hrun
  obtain ⟨found, hcollect, hreply⟩ := hrun
  rw [executorCollectRowsByIndices]
  by_cases hzero : values = []
  · subst hzero
    cases hcollect
    cases hreply
    have halloc : Spec (executorAllocateRows ([] : List Int).length) s fun rows s' =>
        rows = some none ∧ s' = s := .pure ⟨rfl, rfl⟩
    refine halloc.bind ?_
    rintro _ s ⟨rfl, rfl⟩
    have hloop : Spec (collectLoop m none selected indices 0 0) s fun status s' =>
        status = .success ∧ s' = s := .pure ⟨rfl, rfl⟩
    refine hloop.bind ?_
    rintro _ s ⟨rfl, rfl⟩
    refine .pure ⟨List.suffix_refl _, .inl ⟨rfl, 0, ⟨?_, .null, rfl, nofun⟩,
      h.of_eq (zero_add _).symm⟩⟩
    simp only [hrows]
  · refine (executorAllocateRows_spec h (n := values.length) (by simpa using hzero)).bind ?_
    rintro _ s₁ ⟨hg₁, ⟨rfl, hrefused, h₁⟩ | ⟨p, rfl, h₁⟩⟩
    · exact .pure ⟨hg₁, .inr ⟨rfl, rfl, hrefused, h₁⟩⟩
    refine (collectLoop_spec hat hsub hindices values [] rfl hcollect h₁).bind ?_
    rintro status s₂ ⟨hg₂, rs, hlength, hwide, h₂, hsuccess, hfailure⟩
    rw [List.nil_append] at h₂
    cases status with
    | failure =>
      have hfree := executorFreeRows_spec hwide h₂
      rw [hlength] at hfree
      refine hfree.bind ?_
      rintro _ s₃ ⟨hg₃, h₃⟩
      have hsuffix : s₃.grants <:+ s.grants := hg₃ ▸ hg₂.trans hg₁
      rcases hfailure rfl with rfl | hrefused
      · cases hreply
        exact .pure (replyAt_withoutRows hrows hsuffix h₃)
      · exact .pure ⟨hsuffix, .inr ⟨rfl, rfl, hg₁.subset hrefused, h₃⟩⟩
    | success =>
      obtain ⟨bs, texts, rfl, rfl, hall⟩ := hsuccess rfl
      cases hreply
      refine .pure ⟨hg₂.trans hg₁, .inl ⟨rfl, _, ⟨?_, .array hall, ?_, ?_⟩, h₂⟩⟩
      · simp only [hrows]
      · rw [← hlength, List.length_map]
        exact hall.length_eq
      · have hcells : ∀ b ∈ bs, b.cells.length = selected.length := fun b hb =>
          hwide (some b) (List.mem_map_of_mem hb) b rfl
        exact forall_of_forall₂ hall.flip hcells fun row b hb hlength =>
          ((RowAt.Holds.length_eq hb).symm.trans hlength).trans hcount.symm

/-- `query_result_free` leaves nothing of a result. -/
theorem queryResultFree_spec {r : ResultMemory} {result : QueryResult} {owned frame : Blocks}
    {s : State Block} (hat : ResultAt r result owned) (h : Owns s (owned + frame)) :
    Spec (queryResultFree r) s fun r' s' => r' = ⟨queryResultInit, none, 0⟩ ∧ Owns s' frame := by
  obtain ⟨fields, rows, rowCount⟩ := r
  obtain ⟨rfl, hrows, hcount, hwidth⟩ := hat
  have hfree : Spec (executorFreeRows rows rowCount result.columnCount) s fun _ s' =>
      Owns s' frame := by
    generalize result.rows = texts at hrows hcount hwidth
    cases hrows with
    | null => exact .pure (h.of_eq (zero_add _))
    | @array p bs texts hall =>
      have hcells : ∀ b ∈ bs, b.cells.length = result.columnCount :=
        forall_of_forall₂ hall hwidth fun b row hb hrow => hb.length_eq.trans hrow
      have hwide : Wide result.columnCount (bs.map some) := by
        simpa [Wide] using hcells
      obtain rfl : rowCount = (bs.map some).length := by
        rw [List.length_map, hall.length_eq]
        exact hcount
      refine (executorFreeRows_spec hwide h).mono ?_
      rintro _ s₁ ⟨-, h₁⟩
      exact h₁
  refine hfree.bind ?_
  intro _ s₁ h₁
  exact .pure ⟨rfl, h₁⟩

/-! ## The scan -/

/-- Where a scan leaves the indices it found. -/
inductive FoundAt : Option Ptr → List Int → Blocks → Prop
  | null : FoundAt none [] 0
  | array {p : Ptr} {values : List Int} (spare : List (Option Int)) :
    FoundAt (some p) values (cell p (.ints (values.map some ++ spare)))

theorem FoundAt.indicesAt {p : Option Ptr} {values : List Int} {blocks : Blocks}
    (h : FoundAt p values blocks) (frame : Blocks) :
    IndicesAt (blocks + frame) (.array p) values := by
  cases h with
  | null => exact .null
  | array spare => exact .array spare (mem_cell _ _ _)

theorem FoundAt.free {p : Option Ptr} {values : List Int} {blocks frame : Blocks}
    (hat : FoundAt p values blocks) {s : State Block} (h : Owns s (blocks + frame)) :
    Spec (freeOpt p) s fun _ s' => s'.grants = s.grants ∧ Owns s' frame := by
  cases hat with
  | null => exact .pure ⟨rfl, h.of_eq (zero_add _)⟩
  | array spare => exact h.free

theorem storeInt_spec {p : Ptr} {frame : Blocks} {s : State Block} (found : List Int)
    (spare : List (Option Int)) {i : Nat} (hi : found.length = i) (value : Int) (hspare : spare ≠ [])
    (h : Owns s (cell p (.ints (found.map some ++ spare)) + frame)) :
    Spec (storeInt p i value) s fun _ s' => s'.grants = s.grants ∧
      Owns s' (cell p (.ints ((found ++ [value]).map some ++ spare.tail)) + frame) := by
  obtain ⟨first, spare, rfl⟩ := List.exists_cons_of_ne_nil hspare
  subst hi
  refine h.read.bind ?_
  rintro _ _ ⟨rfl, rfl⟩
  have hlt : found.length < (found.map some ++ first :: spare).length := by simp
  simp only [hlt, if_true]
  refine (h.write _).mono ?_
  rintro _ s' ⟨hg, h'⟩
  refine ⟨hg, h'.of_eq ?_⟩
  simp

theorem fillIndices_spec {p : Ptr} {frame : Blocks} (todo : Nat) {s : State Block} (i : Nat)
    (h : Owns s (cell p (.ints (((List.range i).map Int.ofNat).map some ++
      List.replicate todo none)) + frame)) :
    Spec (fillIndices p todo i) s fun _ s' => s'.grants = s.grants ∧
      Owns s' (cell p (.ints (((List.range (i + todo)).map Int.ofNat).map some ++ [])) + frame) := by
  induction todo generalizing s i with
  | zero => exact .pure ⟨rfl, h⟩
  | succ todo ih =>
    rw [fillIndices]
    refine (storeInt_spec _ _ (by simp) (i : Int) (by simp) h).bind ?_
    rintro _ s₁ ⟨hg₁, h₁⟩
    have hnext : ((List.range i).map Int.ofNat ++ [(i : Int)]) =
        (List.range (i + 1)).map Int.ofNat := by
      rw [List.range_succ, List.map_append]
      rfl
    rw [hnext, List.replicate_succ, List.tail_cons] at h₁
    refine (ih (i + 1) h₁).mono ?_
    rintro _ s₂ ⟨hg₂, h₂⟩
    rw [show i + 1 + todo = i + (todo + 1) by omega] at h₂
    exact ⟨hg₂.trans hg₁, h₂⟩

theorem tableCompareFieldValue_at {m : TableMemory} {t : TableRuntime} {owned : Blocks}
    (hat : TableAt m t owned) (column : Nat) (text : Bytes) (clause : WhereClause) :
    tableCompareFieldValue m.fields column text clause =
      tableCompareFieldValue t column text clause := by
  rw [hat.fields]
  rfl

/-- The indices of the matching rows from the `i`-th on are stored behind those found so far. -/
theorem scanLoop_spec {m : TableMemory} {t : TableRuntime} {owned frame : Blocks} {p : Ptr}
    {clause : WhereClause} {column : Nat} (hat : TableAt m t owned) (hsub : owned ⊆ frame)
    (todo : Nat) {i : Nat} (hi : i + todo ≤ t.rowCount) {found : List Nat}
    {scanned : Sql (List Nat)} {s : State Block} (spare : List (Option Int))
    (hspare : todo ≤ spare.length)
    (hscan : JungleDb.scanLoop t clause column todo i found = some scanned)
    (h : Owns s (cell p (.ints ((found.map Int.ofNat).map some ++ spare)) + frame)) :
    Spec (scanLoop m clause column p todo i found.length) s fun r s' => s'.grants = s.grants ∧
      match scanned with
      | .error e => r = .error e ∧ Owns s' frame
      | .ok found => r = .ok found.length ∧ ∃ spare,
        Owns s' (cell p (.ints ((found.map Int.ofNat).map some ++ spare)) + frame) := by
  induction todo generalizing s i found spare with
  | zero =>
    cases hscan
    exact .pure ⟨rfl, rfl, spare, h⟩
  | succ todo ih =>
    rw [JungleDb.scanLoop] at hscan
    simp only [Option.bind_eq_bind, Option.bind_eq_some_iff] at hscan
    obtain ⟨row, hjoin, text, hcell, hrest⟩ := hscan
    obtain ⟨row', q, ps, r, hrow, hq, hmem, hslot, hholds, hr⟩ := hat.row (i := i) (by omega)
    obtain rfl : row' = row := by
      rw [hrow] at hjoin
      exact Option.some.inj hjoin
    obtain ⟨c, hc, htext⟩ := hholds.cell hcell
    have hframe : ∀ {blocks : Blocks}, owned ⊆ blocks + frame := fun hb =>
      Multiset.mem_add.mpr (.inr (hsub hb))
    rw [scanLoop, hq]
    refine deref_spec.bind ?_
    rintro q s ⟨rfl, rfl⟩
    refine (loadSlot_of_mem h (hframe hmem) hslot).bind ?_
    rintro _ s ⟨rfl, rfl⟩
    refine deref_spec.bind ?_
    rintro _ s ⟨rfl, rfl⟩
    refine (loadSlot_of_mem h (hframe (hr r.mem_owned)) hc).bind ?_
    rintro _ s ⟨rfl, rfl⟩
    refine deref_spec.bind ?_
    rintro c s ⟨rfl, rfl⟩
    refine (loadText_of_mem h (hframe (hr htext))).bind ?_
    rintro text s ⟨rfl, rfl⟩
    rw [tableCompareFieldValue_at hat]
    cases hcompare : tableCompareFieldValue t column text clause with
    | error e =>
      rw [hcompare] at hrest
      cases hrest
      refine h.free.bind ?_
      rintro _ s₁ ⟨hg₁, h₁⟩
      exact .pure ⟨hg₁, rfl, h₁⟩
    | ok comparison =>
      rw [hcompare] at hrest
      simp only at hrest ⊢
      by_cases hmatch : tableWhereMatches comparison clause.op.text = true
      · rw [if_pos hmatch] at hrest ⊢
        have hne : spare ≠ [] := by
          rintro rfl
          cases hspare
        refine (storeInt_spec _ _ (by simp) (i : Int) hne h).bind ?_
        rintro _ s₁ ⟨hg₁, h₁⟩
        have hloop := ih (by omega) spare.tail (by rw [List.length_tail]; omega) hrest
          (h₁.of_eq (by simp))
        rw [List.length_append] at hloop
        refine hloop.mono ?_
        rintro r s₂ ⟨hg₂, h₂⟩
        exact ⟨hg₂.trans hg₁, h₂⟩
      · rw [if_neg hmatch] at hrest ⊢
        exact ih (by omega) spare (by omega) hrest h

/-- What a scan finds is left in an array, unless a request for memory is refused. -/
theorem tableLinearScanByField_spec {m : TableMemory} {t : TableRuntime} {owned frame : Blocks}
    {clause : Option WhereClause} {scanned : Sql (List Nat)} {s : State Block}
    (hat : TableAt m t owned) (hsub : owned ⊆ frame)
    (hrun : JungleDb.tableLinearScanByField t clause = some scanned) (h : Owns s frame) :
    Spec (tableLinearScanByField m clause) s fun r s' => s'.grants <:+ s.grants ∧
      match r with
      | .error e => (scanned = .error e ∨ false ∈ s.grants) ∧ Owns s' frame
      | .ok (p, count) => ∃ found blocks, scanned = .ok found ∧ count = found.length ∧
        FoundAt p (found.map Int.ofNat) blocks ∧ Owns s' (blocks + frame) := by
  have hfind : ∀ target, tableFindColumnIndex m.fields target = tableFindColumnIndex t target := by
    intro target
    rw [hat.fields]
    rfl
  have hloaded : m.fields.loaded = t.loaded := by rw [hat.fields]
  have hcount : m.fields.rowCount = t.rowCount := by rw [hat.fields]
  unfold tableLinearScanByField
  rw [hloaded, hcount]
  unfold JungleDb.tableLinearScanByField at hrun
  by_cases hempty : (!t.loaded) = true ∨ t.rowCount = 0
  · rw [if_pos hempty] at hrun ⊢
    cases hrun
    exact .pure ⟨List.suffix_refl _, [], 0, rfl, rfl, .null, h.of_eq (zero_add _).symm⟩
  rw [if_neg hempty] at hrun ⊢
  refine (h.alloc (.ints (List.replicate t.rowCount none))).bind ?_
  rintro p s₁ ⟨hg₁, hsome, h₁⟩
  have hsuffix : s₁.grants <:+ s.grants := hg₁ ▸ granted_suffix s.grants
  cases p with
  | none => exact .pure ⟨hsuffix, .inr (mem_of_refused hsome.symm), h₁.of_eq (zero_add _)⟩
  | some p =>
    rw [Option.elim_some] at h₁
    cases clause with
    | none =>
      cases hrun
      refine (fillIndices_spec t.rowCount 0 h₁).bind ?_
      rintro _ s₂ ⟨hg₂, h₂⟩
      rw [Nat.zero_add] at h₂
      exact .pure ⟨hg₂ ▸ hsuffix, List.range t.rowCount, _, rfl, by simp, .array [], h₂⟩
    | some clause =>
      simp only [hfind] at hrun ⊢
      cases hcolumn : tableFindColumnIndex t clause.column.text with
      | none =>
        rw [hcolumn] at hrun
        cases hrun
        refine h₁.free.bind ?_
        rintro _ s₂ ⟨hg₂, h₂⟩
        exact .pure ⟨hg₂ ▸ hsuffix, .inl rfl, h₂⟩
      | some column =>
        rw [hcolumn] at hrun
        have hscanned := scanLoop_spec hat hsub t.rowCount (by omega) _ (by simp) hrun h₁
        refine hscanned.bind ?_
        rintro r s₂ ⟨hg₂, h₂⟩
        cases scanned with
        | error e =>
          obtain ⟨rfl, h₂⟩ := h₂
          exact .pure ⟨hg₂ ▸ hsuffix, .inl rfl, h₂⟩
        | ok found =>
          obtain ⟨rfl, spare, h₂⟩ := h₂
          cases found with
          | nil =>
            refine h₂.free.bind ?_
            rintro _ s₃ ⟨hg₃, h₃⟩
            exact .pure ⟨hg₃ ▸ hg₂ ▸ hsuffix, [], 0, rfl, rfl, .null,
              h₃.of_eq (zero_add _).symm⟩
          | cons first found =>
            exact .pure ⟨hg₂ ▸ hsuffix, first :: found, _, rfl, rfl, .array spare, h₂⟩

/-! ## SELECT -/

theorem collectScanned_spec {m : TableMemory} {t : TableRuntime} {owned frame : Blocks}
    {clause : Option WhereClause} {selected : List Nat} {result : QueryResult} {reply : Reply}
    {s : State Block} (hat : TableAt m t owned) (hsub : owned ⊆ frame) (hrows : result.rows = [])
    (hcount : result.columnCount = selected.length)
    (hrun : JungleDb.collectScanned t clause selected result = some reply) (h : Owns s frame) :
    Spec (collectScanned m clause selected result) s (ReplyAt reply s.grants frame) := by
  rw [JungleDb.collectScanned, Option.bind_eq_bind, Option.bind_eq_some_iff] at hrun
  obtain ⟨scanned, hscan, hreply⟩ := hrun
  refine (tableLinearScanByField_spec hat hsub hscan h).bind ?_
  rintro r s₁ ⟨hg₁, hr⟩
  cases r with
  | error e =>
    obtain ⟨rfl | hrefused, h₁⟩ := hr
    · cases hreply
      exact .pure (replyAt_withoutRows hrows hg₁ h₁)
    · exact .pure ⟨hg₁, .inr ⟨rfl, rfl, hrefused, h₁⟩⟩
  | ok call =>
    obtain ⟨p, count⟩ := call
    obtain ⟨found, blocks, rfl, rfl, hfound, h₁⟩ := hr
    have hcollect := executorCollectRowsByIndices_spec hat
      (fun _ hc => Multiset.mem_add.mpr (.inr (hsub hc))) (hfound.indicesAt frame) hrows hcount
      hreply h₁
    rw [List.length_map] at hcollect
    refine hcollect.bind ?_
    rintro reply' s₂ ⟨hg₂, ⟨hstatus, rowsOwned, hresult, h₂⟩ | ⟨hstatus, hnull, hrefused, h₂⟩⟩
    · refine (hfound.free (h₂.of_eq (m := blocks + (rowsOwned + frame)) (by ac_rfl))).bind ?_
      rintro _ s₃ ⟨hg₃, h₃⟩
      exact .pure ⟨hg₃ ▸ hg₂.trans hg₁, .inl ⟨hstatus, rowsOwned, hresult, h₃⟩⟩
    · refine (hfound.free h₂).bind ?_
      rintro _ s₃ ⟨hg₃, h₃⟩
      exact .pure ⟨hg₃ ▸ hg₂.trans hg₁, .inr ⟨hstatus, hnull, hg₁.subset hrefused, h₃⟩⟩

theorem executorCollectRowsById_spec {m : TableMemory} {t : TableRuntime} {owned frame : Blocks}
    {searchKey : Int} {selected : List Nat} {result : QueryResult} {reply : Reply}
    {s : State Block} (hat : TableAt m t owned) (hsub : owned ⊆ frame) (hrows : result.rows = [])
    (hcount : result.columnCount = selected.length)
    (hrun : JungleDb.executorCollectRowsById t searchKey selected result = some reply)
    (h : Owns s frame) :
    Spec (executorCollectRowsById m searchKey selected result) s (ReplyAt reply s.grants frame) := by
  rw [JungleDb.executorCollectRowsById, Option.bind_eq_bind, Option.bind_eq_some_iff] at hrun
  obtain ⟨found, hsearch, hreply⟩ := hrun
  have hindex : m.fields.idIndex = t.idIndex := by rw [hat.fields]
  have hnodes : nodesOwned m.nodes ⊆ frame := fun c hc => hsub (hat.nodesOwned_subset hc)
  refine (bptreeSearch_spec h hnodes (hindex ▸ hsearch)).bind ?_
  rintro found s ⟨rfl, rfl⟩
  cases found with
  | none => exact executorCollectRowsByIndices_spec hat hsub .null hrows hcount hreply h
  | some rowIndex =>
    exact executorCollectRowsByIndices_spec hat hsub (.stack [rowIndex]) hrows hcount hreply h

end Mem

/-- The members of a table other than its rows decide the projection. -/
theorem prepareColumns_withoutRows (t : TableRuntime) (names : List Identifier)
    (selected : List Nat) (result : QueryResult) :
    prepareColumns { t with rows := [] } names selected result =
      prepareColumns t names selected result := by
  induction names generalizing selected result with
  | nil => rfl
  | cons name names ih =>
    have hfind : executorFindColumnIndex { t with rows := [] } name.text =
        executorFindColumnIndex t name.text := rfl
    unfold prepareColumns
    simp only [hfind, ih]

theorem prepareAll_withoutRows (t : TableRuntime) (columns : List Nat) (selected : List Nat)
    (result : QueryResult) :
    prepareAll { t with rows := [] } columns selected result =
      prepareAll t columns selected result := by
  induction columns generalizing selected result with
  | nil => rfl
  | cons i columns ih =>
    unfold prepareAll
    simp only [ih]

theorem executorPrepareProjection_withoutRows (stmt : SelectStatement) (t : TableRuntime)
    (result : QueryResult) :
    executorPrepareProjection stmt { t with rows := [] } result =
      executorPrepareProjection stmt t result := by
  simp only [executorPrepareProjection, prepareColumns_withoutRows, prepareAll_withoutRows]

/-- A projection selects columns of the table, one for each name, and copies no rows. -/
def Prepared (t : TableRuntime) (n : Nat) (rows : List Row) :
    Except Reply (List Nat × QueryResult) → Prop
  | .error reply => reply.2.rows = rows
  | .ok (selected, result) =>
    selected.length = n ∧ (∀ i ∈ selected, i < t.colCount) ∧ result.rows = rows

theorem prepareColumns_prepared {t : TableRuntime} (names : List Identifier) (selected : List Nat)
    (result : QueryResult) (hselected : ∀ i ∈ selected, i < t.colCount) :
    Prepared t (selected.length + names.length) result.rows
      (prepareColumns t names selected result) := by
  induction names generalizing selected result with
  | nil => exact ⟨rfl, hselected, rfl⟩
  | cons name names ih =>
    unfold prepareColumns
    cases hfind : executorFindColumnIndex t name.text with
    | none => exact rfl
    | some i =>
      have hi : i < t.colCount := List.mem_range.mp (List.mem_of_find?_eq_some hfind)
      simp only
      cases utilsSafeStrcpy MAX_IDENTIFIER_LEN (rd t.columns i).text with
      | none => exact rfl
      | some column =>
        have hrest := ih (selected ++ [i]) { result with columns := result.columns ++ [column] }
          (List.forall_mem_append.mpr ⟨hselected, by simpa using hi⟩)
        rw [List.length_append, List.length_singleton, add_assoc, add_comm 1] at hrest
        exact hrest

theorem prepareAll_prepared {t : TableRuntime} (columns : List Nat) (selected : List Nat)
    (result : QueryResult) (hselected : ∀ i ∈ selected, i < t.colCount)
    (hcolumns : ∀ i ∈ columns, i < t.colCount) :
    Prepared t (selected.length + columns.length) result.rows
      (prepareAll t columns selected result) := by
  induction columns generalizing selected result with
  | nil => exact ⟨rfl, hselected, rfl⟩
  | cons i columns ih =>
    obtain ⟨hi, hcolumns⟩ := List.forall_mem_cons.mp hcolumns
    unfold prepareAll
    cases utilsSafeStrcpy MAX_IDENTIFIER_LEN (rd t.columns i).text with
    | none => exact rfl
    | some column =>
      have hrest := ih (selected ++ [i]) { result with columns := result.columns ++ [column] }
        (List.forall_mem_append.mpr ⟨hselected, by simpa using hi⟩) hcolumns
      rw [List.length_append, List.length_singleton, add_assoc, add_comm 1] at hrest
      exact hrest

/-- What `executor_prepare_projection` hands on. -/
def Projected (t : TableRuntime) (rows : List Row) : Except Reply (List Nat × QueryResult) → Prop
  | .error reply => reply.2.rows = rows
  | .ok (selected, result) =>
    result.columnCount = selected.length ∧ (∀ i ∈ selected, i < t.colCount) ∧ result.rows = rows

theorem executorPrepareProjection_projected (stmt : SelectStatement) (t : TableRuntime)
    (result : QueryResult) :
    Projected t result.rows (executorPrepareProjection stmt t result) := by
  unfold executorPrepareProjection
  by_cases hall : stmt.columns.1 = []
  · have hprepared := prepareAll_prepared (t := t) (List.range t.colCount) []
      { result with kind := .table, columnCount := 0 } nofun fun i hi => List.mem_range.mp hi
    rw [if_pos hall]
    revert hprepared
    cases prepareAll t (List.range t.colCount) []
        { result with kind := .table, columnCount := 0 } with
    | error reply => exact id
    | ok call =>
      rintro ⟨hlength, hselected, hrows⟩
      exact ⟨by simpa using hlength.symm, hselected, hrows⟩
  · have hprepared := prepareColumns_prepared (t := t) stmt.columns.1 []
      { result with kind := .table, columnCount := 0 } nofun
    rw [if_neg hall]
    revert hprepared
    cases prepareColumns t stmt.columns.1 []
        { result with kind := .table, columnCount := 0 } with
    | error reply => exact id
    | ok call =>
      rintro ⟨hlength, hselected, hrows⟩
      exact ⟨by simpa using hlength.symm, hselected, hrows⟩

namespace Mem

/-- SELECT replies as on the table alone, or it fails because a request was refused. -/
theorem executorSelectBody_spec {m : TableMemory} {t : TableRuntime} {owned frame : Blocks}
    {stmt : SelectStatement} {result : QueryResult} {reply : Reply} {s : State Block}
    (hat : TableAt m t owned) (hsub : owned ⊆ frame) (hrows : result.rows = [])
    (hrun : JungleDb.executorSelectBody stmt t result = some reply) (h : Owns s frame) :
    Spec (executorSelectBody stmt m result) s (ReplyAt reply s.grants frame) := by
  have hloaded : m.fields.loaded = t.loaded := by rw [hat.fields]
  have hprojection : executorPrepareProjection stmt m.fields result =
      executorPrepareProjection stmt t result := by
    rw [hat.fields, executorPrepareProjection_withoutRows]
  have hindex : ∀ clause, executorCanUseIdIndex m.fields clause =
      executorCanUseIdIndex t clause := by
    intro clause
    rw [hat.fields]
    rfl
  unfold executorSelectBody
  rw [hloaded, hprojection]
  unfold JungleDb.executorSelectBody at hrun
  by_cases hunloaded : (!t.loaded) = true
  · rw [if_pos hunloaded] at hrun ⊢
    cases hrun
    exact .pure (replyAt_withoutRows hrows (List.suffix_refl _) h)
  rw [if_neg hunloaded] at hrun ⊢
  have hprojected := executorPrepareProjection_projected stmt t result
  cases hprepare : executorPrepareProjection stmt t result with
  | error failed =>
    rw [hprepare] at hrun hprojected
    cases hrun
    exact .pure (replyAt_withoutRows (hprojected.trans hrows) (List.suffix_refl _) h)
  | ok call =>
    obtain ⟨selected, prepared⟩ := call
    rw [hprepare] at hprojected
    obtain ⟨hcount, -, hprepared⟩ := hprojected
    have hnone := hprepared.trans hrows
    rw [hprepare] at hrun
    simp only at hrun ⊢
    cases hwhere : stmt.where with
    | none =>
      rw [hwhere] at hrun
      exact collectScanned_spec hat hsub hnone hcount hrun h
    | some clause =>
      rw [hwhere] at hrun
      simp only [hindex] at hrun ⊢
      cases hkey : executorCanUseIdIndex t clause with
      | none =>
        rw [hkey] at hrun
        exact collectScanned_spec hat hsub hnone hcount hrun h
      | some searchKey =>
        rw [hkey] at hrun
        exact executorCollectRowsById_spec hat hsub hnone hcount hrun h

end Mem

end JungleDb
