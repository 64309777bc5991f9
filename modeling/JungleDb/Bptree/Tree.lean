import Mathlib.Algebra.Group.Nat.Defs
import Mathlib.Data.Int.ConditionallyCompleteOrder
import Mathlib.Data.List.Basic
import Mathlib.Order.ConditionallyCompleteLattice.Basic
import JungleDb.Lib.Fence
import JungleDb.Bptree.Basic

/-!
# The abstract B+ tree

`Tree h` is a tree all of whose leaves are `h` levels below its root (a leaf has height 0); every
node carries the address it has in memory. `Tree.insert` is insertion by structural recursion: it
either stays within the tree, or splits it in two for the level above to link, or stops at an
allocation that fails. `Tree.WF` is the B+ tree invariant between two bounds, and `insert_spec` says
what each outcome does to it and to the list of entries.
-/

namespace JungleDb

open Fence

/-- A leaf: its address and its entries, key and row index. -/
structure Leaf where
  addr : Addr
  entries : List (Int × Int)

/-- An internal node: its address, its separator keys and its children. -/
structure Branch (α : Type) where
  addr : Addr
  keys : List Int
  children : List α

/-- A tree of height `h`. -/
@[reducible] def Tree : Nat → Type
  | 0 => Leaf
  | h + 1 => Branch (Tree h)

namespace Tree

@[match_pattern] def leaf (a : Addr) (es : List (Int × Int)) : Tree 0 := Leaf.mk a es

@[match_pattern] def node {h : Nat} (a : Addr) (ks : List Int) (cs : List (Tree h)) :
    Tree (h + 1) := Branch.mk a ks cs

/-- Structural induction: a property of leaves that passes from the children to the node. -/
@[elab_as_elim]
theorem induction {motive : (h : Nat) → Tree h → Prop}
    (leaf : ∀ a es, motive 0 (leaf a es))
    (node : ∀ h a ks (cs : List (Tree h)), (∀ c ∈ cs, motive h c) → motive (h + 1) (node a ks cs)) :
    ∀ {h : Nat} (t : Tree h), motive h t
  | 0, ⟨a, es⟩ => leaf a es
  | h + 1, ⟨a, ks, cs⟩ => node h a ks cs fun c _ => induction leaf node c

def addr : {h : Nat} → Tree h → Addr
  | 0, .leaf a _ => a
  | _ + 1, .node a _ _ => a

/-- All entries in key order. -/
def entries : {h : Nat} → Tree h → List (Int × Int)
  | 0, .leaf _ es => es
  | h + 1, .node _ _ cs => cs.flatMap (entries (h := h))

/-- All keys in order. -/
def keys {h : Nat} (t : Tree h) : List Int := t.entries.map Prod.fst

/-- The addresses of all nodes. -/
def addrs : {h : Nat} → Tree h → List Addr
  | 0, .leaf a _ => [a]
  | h + 1, .node a _ cs => a :: cs.flatMap (addrs (h := h))

/-- The leaves in order, with their entries. -/
def leaves : {h : Nat} → Tree h → List (Addr × List (Int × Int))
  | 0, .leaf a es => [(a, es)]
  | h + 1, .node _ _ cs => cs.flatMap (leaves (h := h))

/-- The address of the leaf that `key` is routed to. -/
def leafFor (key : Int) : {h : Nat} → Tree h → Option Addr
  | 0, .leaf a _ => some a
  | h + 1, .node _ ks cs => cs[route ks key]?.bind (leafFor key (h := h))

@[simp] theorem addr_leaf (a : Addr) (es : List (Int × Int)) : (leaf a es).addr = a := rfl

@[simp] theorem addr_node {h : Nat} (a : Addr) (ks : List Int) (cs : List (Tree h)) :
    (node a ks cs).addr = a := rfl

@[simp] theorem entries_leaf (a : Addr) (es : List (Int × Int)) : (leaf a es).entries = es := rfl

@[simp] theorem entries_node {h : Nat} (a : Addr) (ks : List Int) (cs : List (Tree h)) :
    (node a ks cs).entries = cs.flatMap entries := rfl

@[simp] theorem keys_leaf (a : Addr) (es : List (Int × Int)) :
    (leaf a es).keys = es.map Prod.fst := rfl

@[simp] theorem keys_node {h : Nat} (a : Addr) (ks : List Int) (cs : List (Tree h)) :
    (node a ks cs).keys = cs.flatMap keys := by
  simp [keys, List.map_flatMap]
  rfl

@[simp] theorem addrs_leaf (a : Addr) (es : List (Int × Int)) : (leaf a es).addrs = [a] := rfl

@[simp] theorem addrs_node {h : Nat} (a : Addr) (ks : List Int) (cs : List (Tree h)) :
    (node a ks cs).addrs = a :: cs.flatMap addrs := rfl

@[simp] theorem leaves_leaf (a : Addr) (es : List (Int × Int)) :
    (leaf a es).leaves = [(a, es)] := rfl

@[simp] theorem leaves_node {h : Nat} (a : Addr) (ks : List Int) (cs : List (Tree h)) :
    (node a ks cs).leaves = cs.flatMap leaves := rfl

theorem leafFor_node {h : Nat} {key : Int} {a : Addr} {ks : List Int} {ls : List (Tree h)}
    {c : Tree h} {rs : List (Tree h)} (hr : route ks key = ls.length) :
    (Tree.node a ks (ls ++ c :: rs)).leafFor key = c.leafFor key := by
  change (ls ++ c :: rs)[route ks key]?.bind (Tree.leafFor key) = _
  rw [hr, List.getElem?_append_right (le_refl _), Nat.sub_self]
  rfl

theorem addr_mem_addrs : ∀ {h : Nat} (t : Tree h), t.addr ∈ t.addrs
  | 0, .leaf _ _ => List.mem_cons_self
  | _ + 1, .node _ _ _ => List.mem_cons_self

/-- The entries are those of the leaves, in their order. -/
theorem flatMap_leaves : ∀ {h : Nat} (t : Tree h), t.leaves.flatMap Prod.snd = t.entries
  | 0, .leaf _ _ => by simp
  | h + 1, .node _ _ cs => by
    rw [leaves_node, entries_node, List.flatMap_assoc]
    exact List.flatMap_congr fun c _ => flatMap_leaves c

end Tree

/-! ## Insertion -/

/-- What the insertion into a subtree leads to. -/
inductive Outcome (h : Nat)
  /-- The entry is in; the subtree is still one. -/
  | done (t : Tree h)
  /-- The subtree is now two, for the level above to link. -/
  | split (l : Tree h) (key : Int) (r : Tree h)
  /-- An allocation failed; this is what the level above still points to. -/
  | failed (t : Tree h)

/-- An outcome, the next free address, and the allocator's coming outcomes. -/
structure Insertion (h : Nat) where
  outcome : Outcome h
  fresh : Nat
  callocs : List Bool

/-- Where `key` goes among the entries of a leaf. -/
def slot (es : List (Int × Int)) (key : Int) : Nat := es.findIdx fun e => !(e.1 < key)

/-- Insertion into a leaf. -/
def leafInsert (a : Addr) (es : List (Int × Int)) (key row : Int) (fresh : Nat)
    (callocs : List Bool) : Insertion 0 :=
  let all := es.insertIdx (slot es key) (key, row)
  if es.length < BPTREE_MAX_KEYS then ⟨.done (.leaf a all), fresh, callocs⟩
  else match calloc callocs with
    | (false, rest) => ⟨.failed (.leaf a es), fresh, rest⟩
    | (true, rest) =>
      ⟨.split (.leaf a (all.take 16)) ((all[16]?.map Prod.fst).getD 0) (.leaf fresh (all.drop 16)),
        fresh + 1, rest⟩

/-- What the outcome in child `i` of a node leads to for the node. -/
def nodeInsert {h : Nat} (a : Addr) (ks : List Int) (cs : List (Tree h)) (i : Nat) :
    Insertion h → Insertion (h + 1)
  | ⟨.done c, fresh, callocs⟩ => ⟨.done (.node a ks (cs.set i c)), fresh, callocs⟩
  | ⟨.failed c, fresh, callocs⟩ => ⟨.failed (.node a ks (cs.set i c)), fresh, callocs⟩
  | ⟨.split l k r, fresh, callocs⟩ =>
    let ks' := ks.insertIdx i k
    let cs' := (cs.set i l).insertIdx (i + 1) r
    if ks.length < BPTREE_MAX_KEYS then ⟨.done (.node a ks' cs'), fresh, callocs⟩
    else match calloc callocs with
      | (false, rest) => ⟨.failed (.node a ks (cs.set i l)), fresh, rest⟩
      | (true, rest) =>
        ⟨.split (.node a (ks'.take 16) (cs'.take 17)) (ks'[16]?.getD 0)
          (.node fresh (ks'.drop 17) (cs'.drop 17)), fresh + 1, rest⟩

/-- Insertion of an entry whose key is not in the tree. -/
def Tree.insert (key row : Int) : {h : Nat} → Tree h → Nat → List Bool → Insertion h
  | 0, .leaf a es, fresh, callocs => leafInsert a es key row fresh callocs
  | h + 1, .node a ks cs, fresh, callocs =>
    match cs[route ks key]? with
    | none => ⟨.failed (.node a ks cs), fresh, callocs⟩
    | some c => nodeInsert a ks cs (route ks key) (Tree.insert key row (h := h) c fresh callocs)

/-! ### Insertion into a node, seen from the child -/

section NodeInsert

variable {h : Nat} (a : Addr) (ks : List Int) {ls : List (Tree h)} (c : Tree h)
  {rs : List (Tree h)}

theorem set_child (c' : Tree h) : (ls ++ c :: rs).set ls.length c' = ls ++ c' :: rs := by
  simp

theorem nodeInsert_done (c' : Tree h) (fresh : Nat) (callocs : List Bool) :
    nodeInsert a ks (ls ++ c :: rs) ls.length ⟨.done c', fresh, callocs⟩ =
      ⟨.done (.node a ks (ls ++ c' :: rs)), fresh, callocs⟩ := by
  rw [nodeInsert, set_child]

theorem nodeInsert_failed (c' : Tree h) (fresh : Nat) (callocs : List Bool) :
    nodeInsert a ks (ls ++ c :: rs) ls.length ⟨.failed c', fresh, callocs⟩ =
      ⟨.failed (.node a ks (ls ++ c' :: rs)), fresh, callocs⟩ := by
  rw [nodeInsert, set_child]

theorem nodeInsert_split (l r : Tree h) (k : Int) (fresh : Nat) (callocs : List Bool) :
    nodeInsert a ks (ls ++ c :: rs) ls.length ⟨.split l k r, fresh, callocs⟩ =
      if ks.length < BPTREE_MAX_KEYS then
        ⟨.done (.node a (ks.insertIdx ls.length k) (ls ++ l :: r :: rs)), fresh, callocs⟩
      else match calloc callocs with
        | (false, rest) => ⟨.failed (.node a ks (ls ++ l :: rs)), fresh, rest⟩
        | (true, rest) =>
          ⟨.split (.node a ((ks.insertIdx ls.length k).take 16) ((ls ++ l :: r :: rs).take 17))
            ((ks.insertIdx ls.length k)[16]?.getD 0)
            (.node fresh ((ks.insertIdx ls.length k).drop 17) ((ls ++ l :: r :: rs).drop 17)),
            fresh + 1, rest⟩ := by
  have hc : ((ls ++ c :: rs).set ls.length l).insertIdx (ls.length + 1) r =
      ls ++ l :: r :: rs := by
    have := insertIdx_append_length (ls ++ [l]) rs r
    rw [List.length_append, List.length_singleton] at this
    rw [set_child, ← List.singleton_append, ← List.append_assoc, this]
    simp
  rw [nodeInsert, hc, set_child]

theorem nodeInsert_fresh_le (cs : List (Tree h)) (i : Nat) (ins : Insertion h) :
    ins.fresh ≤ (nodeInsert a ks cs i ins).fresh := by
  obtain ⟨outcome, fresh, callocs⟩ := ins
  cases outcome with
  | done c' => exact le_refl _
  | failed c' => exact le_refl _
  | split l k r =>
    unfold nodeInsert
    simp only
    split
    · exact le_refl _
    · split
      · exact le_refl _
      · exact Nat.le_succ _

end NodeInsert

theorem Tree.insert_leaf (key row : Int) (a : Addr) (es : List (Int × Int)) (fresh : Nat)
    (callocs : List Bool) :
    (Tree.leaf a es).insert key row fresh callocs = leafInsert a es key row fresh callocs := rfl

/-- Insertion into a node goes into the child that the key is routed to. -/
theorem Tree.insert_node {h : Nat} (key row : Int) (a : Addr) (ks : List Int)
    {ls : List (Tree h)} {c : Tree h} {rs : List (Tree h)} (hr : route ks key = ls.length)
    (fresh : Nat) (callocs : List Bool) :
    (Tree.node a ks (ls ++ c :: rs)).insert key row fresh callocs =
      nodeInsert a ks (ls ++ c :: rs) ls.length (c.insert key row fresh callocs) := by
  change (match (ls ++ c :: rs)[route ks key]? with
    | none => _
    | some c' => nodeInsert a ks (ls ++ c :: rs) (route ks key)
        (c'.insert key row fresh callocs)) = _
  rw [hr, List.getElem?_append_right (le_refl _), Nat.sub_self, List.getElem?_cons_zero]

/-- The child a key is routed to, with its siblings; a node without such a child has not the
shape of a B+ tree node. -/
theorem Tree.insert_node_cases {h : Nat} (key row : Int) (a : Addr) (ks : List Int)
    (cs : List (Tree h)) (fresh : Nat) (callocs : List Bool) :
    (cs.length ≤ route ks key ∧ (Tree.node a ks cs).insert key row fresh callocs =
      ⟨.failed (.node a ks cs), fresh, callocs⟩) ∨
    ∃ ls c rs, cs = ls ++ c :: rs ∧ route ks key = ls.length := by
  by_cases hlt : route ks key < cs.length
  · refine Or.inr ⟨cs.take (route ks key), cs[route ks key], cs.drop (route ks key + 1), ?_, ?_⟩
    · rw [← List.drop_eq_getElem_cons hlt, List.take_append_drop]
    · rw [List.length_take, Nat.min_eq_left hlt.le]
  · refine Or.inl ⟨Nat.le_of_not_lt hlt, ?_⟩
    change (match cs[route ks key]? with
      | none => _
      | some c' => nodeInsert a ks cs (route ks key) (c'.insert key row fresh callocs)) = _
    rw [List.getElem?_eq_none (Nat.le_of_not_lt hlt)]

/-! ## The invariant -/

namespace Tree

/-- The B+ tree invariant of a subtree with keys between `lo` and `hi`; the root of the whole tree
may be less full than the other nodes. -/
def WF : {h : Nat} → Bool → WithBot Int → WithTop Int → Tree h → Prop
  | 0, root, lo, hi, .leaf _ es =>
    Spread lo hi (es.map Prod.fst) ∧ es.length ≤ BPTREE_MAX_KEYS ∧ (root = false → 16 ≤ es.length)
  | h + 1, root, lo, hi, .node _ ks cs =>
    ks.length ≤ BPTREE_MAX_KEYS ∧ 1 ≤ ks.length ∧ (root = false → 15 ≤ ks.length) ∧
      Fenced (fun lo hi (c : Tree h) => WF false lo hi c) lo ks cs hi

theorem wf_leaf {root : Bool} {lo : WithBot Int} {hi : WithTop Int} {a : Addr}
    {es : List (Int × Int)} : (leaf a es).WF root lo hi ↔ Spread lo hi (es.map Prod.fst) ∧
      es.length ≤ BPTREE_MAX_KEYS ∧ (root = false → 16 ≤ es.length) := Iff.rfl

theorem wf_node {h : Nat} {root : Bool} {lo : WithBot Int} {hi : WithTop Int} {a : Addr}
    {ks : List Int} {cs : List (Tree h)} : (node a ks cs).WF root lo hi ↔
      ks.length ≤ BPTREE_MAX_KEYS ∧ 1 ≤ ks.length ∧ (root = false → 15 ≤ ks.length) ∧
        Fenced (fun lo hi (c : Tree h) => WF false lo hi c) lo ks cs hi := Iff.rfl

/-- The keys of a subtree are ascending and lie within its bounds. -/
theorem WF.spread : ∀ {h : Nat} {t : Tree h} {root : Bool} {lo : WithBot Int} {hi : WithTop Int},
    t.WF root lo hi → Spread lo hi t.keys
  | 0, .leaf _ _, _, _, _, hw => hw.1
  | _ + 1, .node _ _ _, _, _, _, hw => by
    rw [keys_node]
    exact Fenced.spread (fun _ _ _ hc => WF.spread hc) hw.2.2.2

theorem WF.relax : ∀ {h : Nat} {t : Tree h} {root : Bool} {lo lo' : WithBot Int}
    {hi hi' : WithTop Int}, t.WF root lo hi → lo' ≤ lo → hi ≤ hi' → t.WF root lo' hi'
  | 0, .leaf _ _, _, _, _, _, _, hw, hlo, hhi => ⟨hw.1.mono hlo hhi, hw.2⟩
  | _ + 1, .node _ _ _, _, _, _, _, _, hw, hlo, hhi =>
    ⟨hw.1, hw.2.1, hw.2.2.1, hw.2.2.2.relax (fun hc hlo hhi => hc.relax hlo hhi) hlo hhi⟩

theorem WF.root : ∀ {h : Nat} {t : Tree h} {lo : WithBot Int} {hi : WithTop Int},
    t.WF false lo hi → t.WF true lo hi
  | 0, .leaf _ _, _, _, hw => ⟨hw.1, hw.2.1, nofun⟩
  | _ + 1, .node _ _ _, _, _, hw => ⟨hw.1, hw.2.1, nofun, hw.2.2.2⟩

theorem length_flatMap_entries {h : Nat} {m : Nat} : ∀ {cs : List (Tree h)},
    (∀ c ∈ cs, m ≤ c.entries.length) → cs.length * m ≤ (cs.flatMap entries).length
  | [], _ => by simp
  | c :: cs, hc => by
    have h1 := hc c List.mem_cons_self
    have h2 := length_flatMap_entries fun d hd => hc d (List.mem_cons_of_mem c hd)
    rw [List.flatMap_cons, List.length_append, List.length_cons, Nat.succ_mul]
    omega

/-- A subtree of height `h` that is not the root holds at least `16 ^ (h + 1)` entries. -/
theorem WF.entries_length : ∀ {h : Nat} {t : Tree h} {lo : WithBot Int} {hi : WithTop Int},
    t.WF false lo hi → 16 ^ (h + 1) ≤ t.entries.length
  | 0, .leaf _ es, _, _, hw => by simpa using hw.2.2 rfl
  | h + 1, .node _ ks cs, lo, hi, hw => by
    have hlen := hw.2.2.2.length
    have hks := hw.2.2.1 rfl
    have hall : ∀ c ∈ cs, 16 ^ (h + 1) ≤ c.entries.length := by
      intro c hc
      obtain ⟨i, hi, rfl⟩ := List.getElem_of_mem hc
      exact WF.entries_length (hw.2.2.2.getElem i _ (List.getElem?_eq_getElem hi))
    rw [entries_node]
    calc 16 ^ (h + 1 + 1) = 16 * 16 ^ (h + 1) := Nat.pow_succ'
      _ ≤ cs.length * 16 ^ (h + 1) := Nat.mul_le_mul_right _ (by omega)
      _ ≤ (cs.flatMap entries).length := length_flatMap_entries hall

/-- A root that is not a leaf has at least two subtrees below it. -/
theorem WF.root_entries_length {h : Nat} {t : Tree (h + 1)} {root : Bool} {lo : WithBot Int}
    {hi : WithTop Int} (hw : t.WF root lo hi) : 2 * 16 ^ (h + 1) ≤ t.entries.length := by
  obtain ⟨a, ks, cs⟩ := t
  have hlen := hw.2.2.2.length
  have hone := hw.2.1
  have hall : ∀ c ∈ cs, 16 ^ (h + 1) ≤ c.entries.length := by
    intro c hc
    obtain ⟨i, hi, rfl⟩ := List.getElem_of_mem hc
    exact WF.entries_length (hw.2.2.2.getElem i _ (List.getElem?_eq_getElem hi))
  exact le_trans (Nat.mul_le_mul_right _ (by omega)) (length_flatMap_entries hall)

end Tree

/-! ## What insertion does -/

theorem slot_cons (e : Int × Int) (es : List (Int × Int)) (key : Int) :
    slot (e :: es) key = if e.1 < key then slot es key + 1 else 0 := by
  unfold slot
  rw [List.findIdx_cons]
  by_cases h : e.1 < key <;> simp [h]

theorem slot_le (es : List (Int × Int)) (key : Int) : slot es key ≤ es.length :=
  List.findIdx_le_length

/-- Inserting a new key at its slot keeps the keys ascending. -/
theorem sorted_insertIdx_slot {es : List (Int × Int)} {key : Int} (row : Int)
    (hs : (es.map Prod.fst).Pairwise (· < ·)) (hn : key ∉ es.map Prod.fst) :
    ((es.insertIdx (slot es key) (key, row)).map Prod.fst).Pairwise (· < ·) := by
  induction es with
  | nil => simp [slot]
  | cons e es ih =>
    rw [List.map_cons, List.pairwise_cons] at hs
    rw [List.map_cons, List.mem_cons, not_or] at hn
    rw [slot_cons]
    split
    · rename_i hlt
      rw [List.insertIdx_succ_cons, List.map_cons, List.pairwise_cons]
      refine ⟨fun k hk => ?_, ih hs.2 hn.2⟩
      obtain ⟨x, hx, rfl⟩ := List.mem_map.mp hk
      rcases (List.mem_insertIdx (slot_le es key)).mp hx with rfl | hx
      · exact hlt
      · exact hs.1 _ (List.mem_map_of_mem hx)
    · rename_i hge
      have hke : key < e.1 := lt_of_le_of_ne (le_of_not_gt hge) hn.1
      rw [List.insertIdx_zero, List.map_cons, List.map_cons, List.pairwise_cons,
        List.pairwise_cons]
      refine ⟨fun k hk => ?_, hs⟩
      rcases List.mem_cons.mp hk with rfl | hk
      · exact hke
      · exact hke.trans (hs.1 k hk)

/-- What each outcome of the insertion of `e` does to a subtree with keys between `lo` and `hi`.
When the first allocation fails the subtree stays as it was; when a later one fails it has lost a
key that was in it. -/
def InsertSpec {h : Nat} (root : Bool) (lo : WithBot Int) (hi : WithTop Int) (e : Int × Int)
    (callocs : List Bool) (t : Tree h) : Outcome h → Prop
  | .done t' => t'.WF root lo hi ∧ Inserted e t.entries t'.entries
  | .split l k r => l.WF false lo k ∧ r.WF false k hi ∧
      Inserted e t.entries (l.entries ++ r.entries) ∧ callocs.head? ≠ some false
  | .failed t' => t'.WF root lo hi ∧
      if callocs.head? = some false then t' = t else ∃ k ∈ t.keys, k ∉ t'.keys

theorem head?_of_calloc {callocs rest : List Bool} {granted : Bool}
    (h : calloc callocs = (granted, rest)) : callocs.head? = some false ↔ granted = false := by
  cases callocs with
  | nil => cases h; simp
  | cons b cs => cases h; simp

theorem leafInsert_spec {root : Bool} {lo : WithBot Int} {hi : WithTop Int} {a : Addr}
    {es : List (Int × Int)} {key : Int} (row : Int) (hw : (Tree.leaf a es).WF root lo hi)
    (hk : Within lo hi key) (hn : key ∉ (Tree.leaf a es).keys) (fresh : Nat)
    (callocs : List Bool) :
    InsertSpec root lo hi (key, row) callocs (Tree.leaf a es)
      (leafInsert a es key row fresh callocs).outcome := by
  obtain ⟨hsp, hle, hmin⟩ := Tree.wf_leaf.mp hw
  rw [Tree.keys_leaf] at hn
  have hins : Inserted (key, row) es (es.insertIdx (slot es key) (key, row)) :=
    .insertIdx _ _ (slot_le es key)
  have hlen := hins.length
  have hall : Spread lo hi ((es.insertIdx (slot es key) (key, row)).map Prod.fst) := by
    refine ⟨?_, sorted_insertIdx_slot row hsp.sorted hn, fun k hk' => ?_⟩
    · intro hnil
      have := congrArg List.length hnil
      rw [List.length_map, hlen, List.length_nil] at this
      omega
    · obtain ⟨x, hx, rfl⟩ := List.mem_map.mp hk'
      rcases (hins.mem_iff x).mp hx with rfl | hx
      · exact hk
      · exact hsp.within _ (List.mem_map_of_mem hx)
  unfold leafInsert
  generalize es.insertIdx (slot es key) (key, row) = all at hins hlen hall
  by_cases hfull : es.length < BPTREE_MAX_KEYS
  · simp only [hfull, if_true]
    refine ⟨Tree.wf_leaf.mpr ⟨hall, by omega, fun hr => ?_⟩, hins⟩
    exact le_trans (hmin hr) (by omega)
  · simp only [hfull, if_false]
    have hes : es.length = 31 := le_antisymm hle (Nat.le_of_not_lt hfull)
    cases hc : calloc callocs with
    | mk granted rest =>
      cases granted with
      | false =>
        refine ⟨⟨hsp, hle, hmin⟩, ?_⟩
        rw [if_pos ((head?_of_calloc hc).mpr rfl)]
      | true =>
        have hhead : callocs.head? ≠ some false := fun hh => by
          cases (head?_of_calloc hc).mp hh
        have h16 : 16 < all.length := by omega
        have h16' : 16 < (all.map Prod.fst).length := by simpa using h16
        have hmap : (all.map Prod.fst)[16] = all[16].1 := List.getElem_map ..
        obtain ⟨h1, h2⟩ := hall.cut (m := 16) (by omega) h16'
        rw [hmap, ← List.map_take] at h1
        rw [hmap, ← List.map_drop] at h2
        have hk16 : (all[16]?.map Prod.fst).getD 0 = all[16].1 := by
          rw [List.getElem?_eq_getElem h16]; rfl
        simp only [hk16]
        refine ⟨⟨h1, by simp; omega, fun _ => by simp; omega⟩,
          ⟨h2, by simp; omega, fun _ => by simp; omega⟩, ?_, hhead⟩
        simpa using hins

/-- A child's key is not a key of its siblings. -/
theorem not_mem_siblings {h : Nat} {ls rs : List (Tree h)} {c : Tree h} {k : Int}
    (hs : ((ls ++ c :: rs).flatMap Tree.keys).Pairwise (· < ·)) (hk : k ∈ c.keys) :
    k ∉ ls.flatMap Tree.keys ∧ k ∉ rs.flatMap Tree.keys := by
  rw [List.flatMap_append, List.flatMap_cons, List.pairwise_append, List.pairwise_append] at hs
  refine ⟨fun hl => ?_, fun hr => ?_⟩
  · exact lt_irrefl k (hs.2.2 k hl k (List.mem_append_left _ hk))
  · exact lt_irrefl k (hs.2.1.2.2 k hk k hr)

/-- Of a new right half at least one key was in the tree before. -/
theorem exists_old_key {h : Nat} {key row k : Int} {l r : Tree h} {lo : WithBot Int}
    {hi : WithTop Int} {old : List (Int × Int)} (hl : l.WF false lo k) (hr : r.WF false k hi)
    (hins : Inserted (key, row) old (l.entries ++ r.entries)) :
    ∃ x ∈ r.keys, x ∈ old.map Prod.fst ∧ x ∉ l.keys := by
  have hlen : 2 ≤ r.keys.length := by
    have := hr.entries_length
    have h16 : 16 ^ 1 ≤ 16 ^ (h + 1) := Nat.pow_le_pow_right (by omega) (by omega)
    rw [Tree.keys, List.length_map]
    omega
  have hold : ∃ x ∈ r.keys, x ≠ key := by
    by_contra hall
    simp only [not_exists, not_and, ne_eq, not_not] at hall
    have h0 := hall _ (List.getElem_mem (show 0 < r.keys.length by omega))
    have h1 := hall _ (List.getElem_mem (show 1 < r.keys.length by omega))
    have := List.pairwise_iff_getElem.mp hr.spread.sorted 0 1 (by omega) (by omega) (by omega)
    omega
  obtain ⟨x, hx, hne⟩ := hold
  refine ⟨x, hx, ?_, fun hxl => ?_⟩
  · obtain ⟨e, he, rfl⟩ := List.mem_map.mp hx
    rcases (hins.mem_iff e).mp (List.mem_append_right _ he) with rfl | he
    · exact absurd rfl hne
    · exact List.mem_map_of_mem he
  · have h1 := (within_coe_right.mp (hl.spread.within x hxl)).2
    have h2 := (within_coe_left.mp (hr.spread.within x hx)).1
    omega

/-- A key that is lost below one child is lost from the node. -/
theorem lost_in_node {h : Nat} {a a' : Addr} {ks ks' : List Int} {ls rs : List (Tree h)}
    {c c' : Tree h} (hsorted : ((ls ++ c :: rs).flatMap Tree.keys).Pairwise (· < ·)) {k : Int}
    (hk : k ∈ c.keys) (hk' : k ∉ c'.keys) :
    k ∈ (Tree.node a ks (ls ++ c :: rs)).keys ∧ k ∉ (Tree.node a' ks' (ls ++ c' :: rs)).keys := by
  obtain ⟨hkl, hkr⟩ := not_mem_siblings hsorted hk
  rw [Tree.keys_node, Tree.keys_node, List.flatMap_append, List.flatMap_cons, List.flatMap_append,
    List.flatMap_cons]
  refine ⟨List.mem_append_right _ (List.mem_append_left _ hk), ?_⟩
  simp only [List.mem_append, not_or]
  exact ⟨hkl, hk', hkr⟩

theorem insert_spec {key : Int} (row : Int) : ∀ {h : Nat} {root : Bool} {lo : WithBot Int}
    {hi : WithTop Int} {t : Tree h}, t.WF root lo hi → Within lo hi key → key ∉ t.keys →
      ∀ (fresh : Nat) (callocs : List Bool),
        InsertSpec root lo hi (key, row) callocs t (t.insert key row fresh callocs).outcome
  | 0, _, _, _, .leaf _ _, hw, hk, hn, fresh, callocs =>
    leafInsert_spec row hw hk hn fresh callocs
  | h + 1, root, lo, hi, .node a ks cs, hw, hk, hn, fresh, callocs => by
    have hsorted : (cs.flatMap Tree.keys).Pairwise (· < ·) := by
      have := hw.spread.sorted
      rwa [Tree.keys_node] at this
    obtain ⟨hmax, hmin1, hmin, hf⟩ := Tree.wf_node.mp hw
    obtain ⟨lk, rk, ls, c, rs, lo', hi', rfl, rfl, hole⟩ :=
      Fenced.hole (fun _ _ _ hc => Tree.WF.spread hc) hf hk
    have hnc : key ∉ c.keys := by
      rw [Tree.keys_node, List.flatMap_append, List.flatMap_cons] at hn
      exact fun hkc => hn (by simp [hkc])
    have ih := insert_spec row hole.child hole.within hnc fresh callocs
    rw [Tree.insert_node key row a (lk ++ rk) (hole.routed.trans hole.left.symm)]
    generalize c.insert key row fresh callocs = ins at ih
    obtain ⟨outcome, fresh', callocs'⟩ := ins
    cases outcome with
    | done c' =>
      rw [nodeInsert_done]
      refine ⟨⟨hmax, hmin1, hmin, ?_⟩, ?_⟩
      · simpa using hole.fill [] [c'] ih.1
      · simpa using ih.2.context (ls.flatMap Tree.entries) (rs.flatMap Tree.entries)
    | failed c' =>
      rw [nodeInsert_failed]
      refine ⟨⟨hmax, hmin1, hmin, ?_⟩, ?_⟩
      · simpa using hole.fill [] [c'] ih.1
      · obtain ⟨-, hlost⟩ := ih
        by_cases hhead : callocs.head? = some false
        · rw [if_pos hhead] at hlost ⊢
          rw [hlost]
        · rw [if_neg hhead] at hlost ⊢
          obtain ⟨k, hkc, hkc'⟩ := hlost
          exact ⟨k, lost_in_node hsorted hkc hkc'⟩
    | split l k r =>
      obtain ⟨hl, hr, hins, hhead⟩ := ih
      have hnew := hole.fill [k] [l, r] ⟨hl, hr⟩
      simp only [List.append_assoc, List.cons_append, List.nil_append] at hnew
      have hall : Inserted (key, row) (Tree.node a (lk ++ rk) (ls ++ c :: rs)).entries
          ((ls ++ l :: r :: rs).flatMap Tree.entries) := by
        simpa using hins.context (ls.flatMap Tree.entries) (rs.flatMap Tree.entries)
      have hkeys : (lk ++ rk).insertIdx ls.length k = lk ++ k :: rk := by
        rw [hole.left, insertIdx_append_length]
      rw [nodeInsert_split, hkeys]
      have hlk : (lk ++ k :: rk).length = (lk ++ rk).length + 1 := by simp; omega
      by_cases hfull : (lk ++ rk).length < BPTREE_MAX_KEYS
      · rw [if_pos hfull]
        refine ⟨Tree.wf_node.mpr ⟨by omega, by omega, fun hroot => ?_, hnew⟩, hall⟩
        exact le_trans (hmin hroot) (by omega)
      · rw [if_neg hfull]
        cases calloc callocs' with
        | mk granted rest =>
          cases granted with
          | false =>
            obtain ⟨x, hxr, hxc, hxl⟩ := exists_old_key hl hr hins
            refine ⟨⟨hmax, hmin1, hmin, ?_⟩, ?_⟩
            · have hlr := (hl.spread.join hr.spread).2
              simpa using hole.fill [] [l] (hl.relax (le_refl _) hlr.le)
            · rw [if_neg hhead]
              exact ⟨x, lost_in_node hsorted hxc hxl⟩
          | true =>
            have h31 : (lk ++ rk).length = 31 := le_antisymm hmax (Nat.le_of_not_lt hfull)
            have h32 : (lk ++ k :: rk).length = 32 := by omega
            have h16 : 16 < (lk ++ k :: rk).length := by omega
            have hlc := hnew.length
            obtain ⟨hleft, hright⟩ := hnew.cut h16
            rw [List.getElem?_eq_getElem h16, Option.getD_some]
            refine ⟨⟨?_, ?_, fun _ => ?_, hleft⟩, ⟨?_, ?_, fun _ => ?_, hright⟩, ?_, hhead⟩
            · rw [List.length_take]; omega
            · rw [List.length_take]; omega
            · rw [List.length_take]; omega
            · rw [List.length_drop]; omega
            · rw [List.length_drop]; omega
            · rw [List.length_drop]; omega
            · simp only [Tree.entries_node]
              rw [← List.flatMap_append, List.take_append_drop]
              exact hall

/-! ## Addresses -/

namespace Outcome

/-- The address that the level above points to. -/
def addr {h : Nat} : Outcome h → Addr
  | .done t => t.addr
  | .split l _ _ => l.addr
  | .failed t => t.addr

/-- The addresses of the nodes of the outcome. -/
def addrs {h : Nat} : Outcome h → List Addr
  | .done t => t.addrs
  | .split l _ r => l.addrs ++ r.addrs
  | .failed t => t.addrs

end Outcome

theorem insert_addr (key row : Int) : ∀ {h : Nat} (t : Tree h) (fresh : Nat)
    (callocs : List Bool), (t.insert key row fresh callocs).outcome.addr = t.addr
  | 0, .leaf a es, fresh, callocs => by
    rw [Tree.insert_leaf]
    unfold leafInsert
    split
    · rfl
    · split <;> rfl
  | h + 1, .node a ks cs, fresh, callocs => by
    rcases Tree.insert_node_cases key row a ks cs fresh callocs with
      ⟨-, heq⟩ | ⟨ls, c, rs, rfl, hr⟩
    · rw [heq]; rfl
    · rw [Tree.insert_node key row a ks hr]
      generalize c.insert key row fresh callocs = ins
      obtain ⟨outcome, fresh', callocs'⟩ := ins
      cases outcome with
      | done c' => rfl
      | failed c' => rfl
      | split l k r =>
        rw [nodeInsert_split]
        split
        · rfl
        · split <;> rfl

/-- `fresh'` is the next free address after an insertion that took `fresh` for the next free one,
and `addrs` are the addresses of its outcome: those of the tree and the new ones, save the `lost`
ones when the insertion failed. -/
def Grown (old : List Addr) (fresh fresh' : Nat) (addrs lost : List Addr) : Prop :=
  fresh ≤ fresh' ∧ (addrs ++ lost).Perm (old ++ List.range' fresh (fresh' - fresh))

theorem Grown.refl (old : List Addr) (fresh : Nat) : Grown old fresh fresh old [] :=
  ⟨le_refl _, by simp⟩

theorem range'_grow {fresh fresh' : Nat} (h : fresh ≤ fresh') :
    List.range' fresh (fresh' + 1 - fresh) = List.range' fresh (fresh' - fresh) ++ [fresh'] := by
  rw [show fresh' + 1 - fresh = (fresh' - fresh) + 1 by omega, List.range'_concat]
  congr 2
  omega

/-- The addresses around a child stay when those of the child change. -/
theorem Grown.node {a : Addr} {l r old addrs lost : List Addr} {fresh fresh' : Nat}
    (h : Grown old fresh fresh' addrs lost) :
    Grown (a :: (l ++ (old ++ r))) fresh fresh' (a :: (l ++ (addrs ++ r))) lost := by
  refine ⟨h.1, List.perm_iff_count.mpr fun x => ?_⟩
  have hx := List.perm_iff_count.mp h.2 x
  simp only [List.count_append, List.cons_append, List.count_cons] at hx ⊢
  omega

/-- An address may be lost. -/
theorem Grown.lose {old addrs lost more : List Addr} {fresh fresh' : Nat}
    (h : Grown old fresh fresh' (addrs ++ more) lost) :
    Grown old fresh fresh' addrs (more ++ lost) :=
  ⟨h.1, by simpa using h.2⟩

/-- One more node is allocated. -/
theorem Grown.alloc {old addrs addrs' : List Addr} {fresh fresh' : Nat}
    (h : Grown old fresh fresh' addrs []) (hp : addrs'.Perm (addrs ++ [fresh'])) :
    Grown old fresh (fresh' + 1) addrs' [] := by
  refine ⟨Nat.le_succ_of_le h.1, ?_⟩
  have h2 := h.2
  rw [List.append_nil] at h2 ⊢
  rw [range'_grow h.1, ← List.append_assoc]
  exact hp.trans (h2.append_right _)

/-- An insertion that fails loses nodes exactly if it was granted one. -/
theorem insert_grown (key row : Int) : ∀ {h : Nat} (t : Tree h) (fresh : Nat)
    (callocs : List Bool), ∃ lost, Grown t.addrs fresh (t.insert key row fresh callocs).fresh
      (t.insert key row fresh callocs).outcome.addrs lost ∧
      (match (t.insert key row fresh callocs).outcome with
        | .done _ => lost = []
        | .split _ _ _ => lost = [] ∧ fresh < (t.insert key row fresh callocs).fresh
        | .failed _ => lost = [] ↔ (t.insert key row fresh callocs).fresh = fresh)
  | 0, .leaf a es, fresh, callocs => by
    rw [Tree.insert_leaf]
    unfold leafInsert
    split
    · exact ⟨[], .refl _ _, rfl⟩
    · split
      · exact ⟨[], .refl _ _, iff_of_true rfl rfl⟩
      · exact ⟨[], .alloc (.refl _ _) (.refl _), rfl, Nat.lt_succ_self _⟩
  | h + 1, .node a ks cs, fresh, callocs => by
    rcases Tree.insert_node_cases key row a ks cs fresh callocs with
      ⟨-, heq⟩ | ⟨ls, c, rs, rfl, hr⟩
    · rw [heq]
      exact ⟨[], .refl _ _, iff_of_true rfl rfl⟩
    · rw [Tree.insert_node key row a ks hr]
      obtain ⟨lost, hgrown, hlost⟩ := insert_grown key row c fresh callocs
      generalize c.insert key row fresh callocs = ins at hgrown hlost
      obtain ⟨outcome, fresh', callocs'⟩ := ins
      have hold : (Tree.node a ks (ls ++ c :: rs)).addrs =
          a :: (ls.flatMap Tree.addrs ++ (c.addrs ++ rs.flatMap Tree.addrs)) := by
        simp
      have hnode := hgrown.node (a := a) (l := ls.flatMap Tree.addrs) (r := rs.flatMap Tree.addrs)
      rw [← hold] at hnode
      cases outcome with
      | done c' =>
        rw [nodeInsert_done]
        exact ⟨lost, by simpa [Outcome.addrs] using hnode, hlost⟩
      | failed c' =>
        rw [nodeInsert_failed]
        exact ⟨lost, by simpa [Outcome.addrs] using hnode, hlost⟩
      | split l k r =>
        obtain ⟨rfl, hlt⟩ : lost = [] ∧ fresh < fresh' := hlost
        rw [nodeInsert_split]
        split
        · exact ⟨[], by simpa [Outcome.addrs] using hnode, rfl⟩
        · split
          · refine ⟨r.addrs, ?_, iff_of_false ?_ (Nat.ne_of_gt hlt)⟩
            swap
            · exact List.ne_nil_of_mem (Tree.addr_mem_addrs r)
            have hall : Grown (Tree.node a ks (ls ++ c :: rs)).addrs fresh fresh'
                ((a :: (ls.flatMap Tree.addrs ++ (l.addrs ++ rs.flatMap Tree.addrs))) ++ r.addrs)
                [] := ⟨hnode.1, List.Perm.trans ?_ hnode.2⟩
            · simpa [Outcome.addrs] using hall.lose
            · refine List.perm_iff_count.mpr fun x => ?_
              simp only [Outcome.addrs, List.count_append, List.cons_append, List.count_cons]
              omega
          · refine ⟨[], .alloc hnode ?_, rfl, Nat.lt_succ_of_lt hlt⟩
            refine List.perm_iff_count.mpr fun x => ?_
            have hcut := congrArg (fun cs => (cs.flatMap Tree.addrs).count x)
              (List.take_append_drop 17 (ls ++ l :: r :: rs))
            simp only [List.flatMap_append, List.flatMap_cons, List.count_append] at hcut
            simp only [Outcome.addrs, Tree.addrs_node, List.count_append, List.cons_append,
              List.count_cons, List.count_nil]
            omega

/-! ## Allocations -/

/-- The first `m` allocations succeed. -/
def Granted (m : Nat) (callocs : List Bool) : Prop := ∀ i < m, callocs[i]? ≠ some false

/-- The number of nodes on the way up from the leaf for `key` that are full, up to the first one
that is not: the nodes that an insertion of `key` has to split. -/
def Tree.overflow (key : Int) : {h : Nat} → Tree h → Nat
  | 0, .leaf _ es => if es.length < BPTREE_MAX_KEYS then 0 else 1
  | h + 1, .node _ ks cs =>
    match cs[route ks key]? with
    | none => 0
    | some c =>
      let m := Tree.overflow key (h := h) c
      if m ≤ h then m else if ks.length < BPTREE_MAX_KEYS then m else m + 1

theorem Tree.overflow_leaf (key : Int) (a : Addr) (es : List (Int × Int)) :
    (Tree.leaf a es).overflow key = if es.length < BPTREE_MAX_KEYS then 0 else 1 := rfl

theorem Tree.overflow_node {h : Nat} {key : Int} (a : Addr) {ks : List Int} {ls : List (Tree h)}
    {c : Tree h} {rs : List (Tree h)} (hr : route ks key = ls.length) :
    (Tree.node a ks (ls ++ c :: rs)).overflow key =
      if c.overflow key ≤ h then c.overflow key
      else if ks.length < BPTREE_MAX_KEYS then c.overflow key else c.overflow key + 1 := by
  change (match (ls ++ c :: rs)[route ks key]? with | none => 0 | some c => _) = _
  rw [hr, List.getElem?_append_right (le_refl _), Nat.sub_self]
  rfl

theorem Tree.overflow_le (key : Int) : ∀ {h : Nat} (t : Tree h), t.overflow key ≤ h + 1
  | 0, .leaf a es => by
    rw [Tree.overflow_leaf]
    split <;> omega
  | h + 1, .node a ks cs => by
    change (match cs[route ks key]? with | none => 0 | some c => _) ≤ h + 1 + 1
    cases cs[route ks key]? with
    | none => exact Nat.zero_le _
    | some c =>
      have := c.overflow_le key
      simp only
      split
      · omega
      · split <;> omega

theorem Granted.of_calloc {m : Nat} {callocs rest : List Bool} (hg : Granted m callocs)
    (hc : calloc (callocs.drop m) = (true, rest)) :
    Granted (m + 1) callocs ∧ rest = callocs.drop (m + 1) := by
  have hrest : rest = (callocs.drop m).drop 1 := by
    cases hd : callocs.drop m <;> rw [hd] at hc <;> cases hc <;> rfl
  have hm : callocs[m]? ≠ some false := by
    intro hfalse
    have hhead : (callocs.drop m).head? = some false := by rw [List.head?_drop, hfalse]
    cases (head?_of_calloc hc).mp hhead
  refine ⟨fun i hi => ?_, by rw [hrest, List.drop_drop]⟩
  rcases Nat.lt_succ_iff_lt_or_eq.mp hi with hi | rfl
  · exact hg i hi
  · exact hm

theorem not_granted_of_calloc {m : Nat} {callocs rest : List Bool}
    (hc : calloc (callocs.drop m) = (false, rest)) : ¬ Granted (m + 1) callocs := fun hg => by
  have := (head?_of_calloc hc).mpr rfl
  rw [List.head?_drop] at this
  exact hg m (Nat.lt_succ_self m) this

/-- How the number `m` of splits that an insertion needs decides how it ends. -/
def Allocated {h : Nat} (m fresh : Nat) (callocs : List Bool) (ins : Insertion h) : Prop :=
  match ins.outcome with
  | .done _ => m ≤ h ∧ Granted m callocs ∧ ins.callocs = callocs.drop m ∧ ins.fresh = fresh + m
  | .split _ _ _ =>
    m = h + 1 ∧ Granted m callocs ∧ ins.callocs = callocs.drop m ∧ ins.fresh = fresh + m
  | .failed _ => ¬ Granted m callocs

theorem insert_allocated {key : Int} (row : Int) : ∀ {h : Nat} {root : Bool} {lo : WithBot Int}
    {hi : WithTop Int} {t : Tree h}, t.WF root lo hi → Within lo hi key →
      ∀ (fresh : Nat) (callocs : List Bool),
        Allocated (t.overflow key) fresh callocs (t.insert key row fresh callocs)
  | 0, _, _, _, .leaf a es, _, _, fresh, callocs => by
    have hzero : Granted 0 callocs := fun i hi => absurd hi (Nat.not_lt_zero i)
    rw [Tree.insert_leaf]
    unfold leafInsert Tree.overflow
    split
    · exact ⟨le_refl _, hzero, rfl, rfl⟩
    · cases hc : calloc callocs with
      | mk granted rest =>
        cases granted with
        | false => exact not_granted_of_calloc (m := 0) hc
        | true =>
          obtain ⟨hg, hrest⟩ := hzero.of_calloc hc
          exact ⟨rfl, hg, hrest, rfl⟩
  | h + 1, _, _, _, .node a ks cs, hw, hk, fresh, callocs => by
    obtain ⟨lk, rk, ls, c, rs, lo', hi', rfl, rfl, hole⟩ :=
      Fenced.hole (fun _ _ _ hc => Tree.WF.spread hc) (Tree.wf_node.mp hw).2.2.2 hk
    have hroute := hole.routed.trans hole.left.symm
    have ih := insert_allocated row hole.child hole.within fresh callocs
    rw [Tree.insert_node key row a (lk ++ rk) hroute, Tree.overflow_node a hroute]
    generalize c.insert key row fresh callocs = ins at ih
    obtain ⟨outcome, fresh', callocs'⟩ := ins
    cases outcome with
    | done c' =>
      obtain ⟨hm, hg, hcs, hf⟩ := ih
      rw [nodeInsert_done, if_pos hm]
      exact ⟨Nat.le_succ_of_le hm, hg, hcs, hf⟩
    | failed c' =>
      rw [nodeInsert_failed]
      refine fun hg => ih fun i hi => hg i ?_
      split
      · exact hi
      · split
        · exact hi
        · exact Nat.lt_succ_of_lt hi
    | split l k r =>
      obtain ⟨hm, hg, rfl, hf⟩ := ih
      rw [if_neg (by omega), nodeInsert_split]
      split
      · exact ⟨hm.le, hg, rfl, hf⟩
      · cases hc : calloc (callocs.drop (c.overflow key)) with
        | mk granted rest =>
          cases granted with
          | false => exact not_granted_of_calloc hc
          | true =>
            obtain ⟨hg', hrest⟩ := hg.of_calloc hc
            refine ⟨by rw [hm], hg', hrest, ?_⟩
            simp only at hf
            simp only [hf]
            omega

/-! ## The row of leaves -/

/-- The addresses of the leaves in order. -/
def Tree.leafAddrs {h : Nat} (t : Tree h) : List Addr := t.leaves.map Prod.fst

@[simp] theorem Tree.leafAddrs_leaf (a : Addr) (es : List (Int × Int)) :
    (Tree.leaf a es).leafAddrs = [a] := rfl

@[simp] theorem Tree.leafAddrs_node {h : Nat} (a : Addr) (ks : List Int) (cs : List (Tree h)) :
    (Tree.node a ks cs).leafAddrs = cs.flatMap Tree.leafAddrs := by
  simp [Tree.leafAddrs, List.map_flatMap]
  rfl

/-- The addresses of the leaves of an outcome. -/
def Outcome.leafAddrs {h : Nat} : Outcome h → List Addr
  | .done t => t.leafAddrs
  | .split l _ r => l.leafAddrs ++ r.leafAddrs
  | .failed t => t.leafAddrs

/-- An insertion puts at most one new leaf into the row: after the leaf of the key, with the first
new address. -/
def Extended {h : Nat} (leaf : Addr) (old : List Addr) (fresh : Nat) (ins : Insertion h) : Prop :=
  ∃ A B, old = A ++ leaf :: B ∧
    match ins.outcome with
    | .failed _ => True
    | outcome =>
      outcome.leafAddrs = A ++ leaf :: (if ins.fresh = fresh then B else fresh :: B)

theorem insert_extended {key : Int} (row : Int) : ∀ {h : Nat} {root : Bool} {lo : WithBot Int}
    {hi : WithTop Int} {t : Tree h}, t.WF root lo hi → Within lo hi key →
      ∀ {leaf : Addr}, t.leafFor key = some leaf → ∀ (fresh : Nat) (callocs : List Bool),
        Extended leaf t.leafAddrs fresh (t.insert key row fresh callocs)
  | 0, _, _, _, .leaf a es, _, _, leaf, hfor, fresh, callocs => by
    obtain rfl : a = leaf := Option.some.inj hfor
    refine ⟨[], [], rfl, ?_⟩
    rw [Tree.insert_leaf]
    unfold leafInsert
    by_cases hfull : es.length < BPTREE_MAX_KEYS
    · simp [hfull, Outcome.leafAddrs]
    · cases calloc callocs with
      | mk granted rest => cases granted <;> simp [hfull, Outcome.leafAddrs]
  | h + 1, _, _, _, .node a ks cs, hw, hk, leaf, hfor, fresh, callocs => by
    obtain ⟨lk, rk, ls, c, rs, lo', hi', rfl, rfl, hole⟩ :=
      Fenced.hole (fun _ _ _ hc => Tree.WF.spread hc) (Tree.wf_node.mp hw).2.2.2 hk
    have hroute := hole.routed.trans hole.left.symm
    rw [Tree.leafFor_node hroute] at hfor
    obtain ⟨A, B, hold, hnew⟩ := insert_extended row hole.child hole.within hfor fresh callocs
    have halloc := insert_allocated row hole.child hole.within fresh callocs
    rw [Tree.insert_node key row a (lk ++ rk) hroute]
    refine ⟨ls.flatMap Tree.leafAddrs ++ A, B ++ rs.flatMap Tree.leafAddrs, ?_, ?_⟩
    · simp [hold]
    generalize c.insert key row fresh callocs = ins at hnew halloc
    obtain ⟨outcome, fresh', callocs'⟩ := ins
    cases outcome with
    | failed c' => rw [nodeInsert_failed]; trivial
    | done c' =>
      rw [nodeInsert_done]
      simp only [Outcome.leafAddrs] at hnew
      simp only [Outcome.leafAddrs, Tree.leafAddrs_node, List.flatMap_append, List.flatMap_cons,
        hnew]
      split <;> simp
    | split l k r =>
      have hne : fresh' ≠ fresh := by
        obtain ⟨hm, -, -, hf⟩ := halloc
        simp only at hf
        omega
      simp only [Outcome.leafAddrs, if_neg hne] at hnew
      have hrow : (ls ++ l :: r :: rs).flatMap Tree.leafAddrs =
          (ls.flatMap Tree.leafAddrs ++ A) ++ leaf :: fresh :: (B ++ rs.flatMap Tree.leafAddrs) := by
        have : l.leafAddrs ++ (r.leafAddrs ++ rs.flatMap Tree.leafAddrs) =
            A ++ leaf :: fresh :: (B ++ rs.flatMap Tree.leafAddrs) := by
          rw [← List.append_assoc, hnew]; simp
        simp [this]
      rw [nodeInsert_split]
      by_cases hfull : (lk ++ rk).length < BPTREE_MAX_KEYS
      · rw [if_pos hfull]
        simp only [Outcome.leafAddrs, Tree.leafAddrs_node, if_neg hne]
        exact hrow
      · rw [if_neg hfull]
        cases calloc callocs' with
        | mk granted rest =>
          cases granted with
          | false => trivial
          | true =>
            have hge : fresh' + 1 ≠ fresh := by
              obtain ⟨hm, -, -, hf⟩ := halloc
              simp only at hf
              omega
            simp only [Outcome.leafAddrs, Tree.leafAddrs_node, if_neg hge]
            rw [← List.flatMap_append, List.take_append_drop]
            exact hrow

end JungleDb
