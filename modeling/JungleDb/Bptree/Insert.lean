import Mathlib.Data.List.Flatten
import JungleDb.Bptree.Refine

/-!
# `bptree_insert`

A whole call: into the NULL root, of a key that is there, of a new key with and without the
allocations it needs, up to the growth of a new root. `Whole` adds to `Stores` what holds as long
as no allocation fails: the next pointers run through the leaves in order and every node of the
memory belongs to the tree.
-/

namespace JungleDb

open CArray Fence

/-! ## The chain of leaves -/

/-- Each leaf of the row points to the next one and the last one to NULL. -/
def Chain (nodes : List BPTreeNode) : List Addr → Prop
  | [] => True
  | a :: row => nextOf nodes a = some row.head? ∧ Chain nodes row

theorem Chain.frame {nodes nodes' : List BPTreeNode} : ∀ {row : List Addr}, Chain nodes row →
    (∀ b ∈ row, nextOf nodes' b = nextOf nodes b) → Chain nodes' row
  | [], _, _ => trivial
  | a :: _, h, hf => ⟨(hf a List.mem_cons_self).trans h.1,
      h.2.frame fun b hb => hf b (List.mem_cons_of_mem _ hb)⟩

/-- Linking a new node in after `x` puts it after `x` in the row. -/
theorem Chain.link {nodes nodes' : List BPTreeNode} {x : Addr} {B : List Addr}
    (hlink : Linked nodes nodes' x) (hlen : nodes'.length ≠ nodes.length) :
    ∀ {A : List Addr}, Chain nodes (A ++ x :: B) → (A ++ x :: B).Nodup →
      (∀ b ∈ A ++ x :: B, b < nodes.length) → Chain nodes' (A ++ x :: nodes.length :: B)
  | [], h, hnd, hlt => by
    rw [Linked, if_neg hlen] at hlink
    obtain ⟨hold, hx, hnew⟩ := hlink
    refine ⟨hx, hnew.trans h.1, h.2.frame fun b hb => ?_⟩
    refine hold b (hlt b (List.mem_cons_of_mem _ hb)) fun hbx => ?_
    exact (List.nodup_cons.mp hnd).1 (hbx ▸ hb)
  | a :: A, h, hnd, hlt => by
    have hhead : (A ++ x :: B).head? = (A ++ x :: nodes.length :: B).head? := by
      cases A <;> rfl
    have ih := Chain.link hlink hlen h.2 (List.nodup_cons.mp hnd).2
      fun b hb => hlt b (List.mem_cons_of_mem _ hb)
    rw [Linked, if_neg hlen] at hlink
    refine ⟨?_, ih⟩
    rw [hlink.1 a (hlt a List.mem_cons_self) fun hax => ?_, h.1]
    · exact congrArg some hhead
    · exact (List.nodup_cons.mp hnd).1 (by rw [hax]; simp)

theorem Tree.leafAddrs_sublist : ∀ {h : Nat} (t : Tree h), t.leafAddrs.Sublist t.addrs
  | 0, .leaf _ _ => List.Sublist.refl _
  | _ + 1, .node a _ cs => by
    rw [Tree.leafAddrs_node, Tree.addrs_node]
    exact (List.Sublist.flatMap_right cs fun c _ => c.leafAddrs_sublist).cons a

/-- No node is outside the tree, and the leaves are chained. -/
structure Whole (b : Bptree) {h : Nat} (t : Tree h) : Prop where
  chain : Chain b.nodes t.leafAddrs
  all : t.addrs.Perm (List.range b.nodes.length)

/-! ## The first insertion -/

/-- The tree of one leaf that the first `bptree_insert` makes. -/
theorem bptreeInsert_empty (callocs : List Bool) (key row : Int) :
    (callocs.head? = some false ∧
      bptreeInsert .empty callocs key row = some (.noMemory, .empty)) ∨
    (callocs.head? ≠ some false ∧ ∃ b, bptreeInsert .empty callocs key row = some (.inserted, b) ∧
      Stores b (Tree.leaf 0 [(key, row)]) ∧ Whole b (Tree.leaf 0 [(key, row)])) := by
  cases hc : calloc callocs with
  | mk granted rest =>
    have hhead := head?_of_calloc hc
    cases granted with
    | false =>
      refine Or.inl ⟨hhead.mpr rfl, ?_⟩
      simp [bptreeInsert, bptreeInsertState, Bptree.empty, bptreeCreateNode, hc]
    | true =>
      refine Or.inr ⟨fun h => (by cases hhead.mp h), ?_⟩
      let n : BPTreeNode := { BPTreeNode.blank true with
        keys := wr (BPTreeNode.blank true).keys 0 key
        rowIndices := wr (BPTreeNode.blank true).rowIndices 0 row
        keyCount := 1 }
      refine ⟨⟨[n], some 0⟩, ?_, ⟨rfl, ⟨n, rfl, rfl, rfl, rfl, ?_, ?_⟩, ?_, ?_⟩, ⟨?_, ?_⟩, ?_⟩
      · simp [bptreeInsert, bptreeInsertState, Bptree.empty, bptreeCreateNode, hc,
          TreeState.modify, n]
      · intro j hj
        obtain rfl : j = 0 := by simpa using hj
        exact rd_wr_self _ _ _ (by decide)
      · intro j hj
        obtain rfl : j = 0 := by simpa using hj
        exact rd_wr_self _ _ _ (by decide)
      · refine ⟨⟨by simp, by simp, fun k _ => within_univ k⟩, ?_, fun h => by cases h⟩
        exact show 1 ≤ 31 by decide
      · simp
      · rfl
      · trivial
      · simp

/-! ## A new root -/

theorem insertIntoParent_root_refused {s : TreeState} {h : Nat} {l r : Tree h} {rest : List Bool}
    (hl : Rep s.nodes none l) (hc : calloc s.callocs = (false, rest)) (k : Int) (fuel : Nat) :
    bptreeInsertIntoParent (fuel + 1) s l.addr k r.addr =
      some (.noMemory, { s with callocs := rest }) := by
  obtain ⟨n, hn, hp⟩ := hl.top
  simp [bptreeInsertIntoParent, TreeState.load, hn, hp, bptreeCreateNode, hc]

/-- The two halves of the tree get a new root above them. -/
theorem insertIntoParent_root_granted {s : TreeState} {h : Nat} {l r : Tree h} {rest : List Bool}
    (hl : Rep s.nodes none l) (hr : Rep s.nodes none r) (hnd : (l.addrs ++ r.addrs).Nodup)
    (hc : calloc s.callocs = (true, rest)) (k : Int) (fuel : Nat) :
    ∃ s', bptreeInsertIntoParent (fuel + 1) s l.addr k r.addr = some (.inserted, s') ∧
      s'.root = some s.nodes.length ∧ s'.nodes.length = s.nodes.length + 1 ∧
      (∀ b < s.nodes.length, nextOf s'.nodes b = nextOf s.nodes b) ∧
      Rep s'.nodes none (Tree.node s.nodes.length [k] [l, r]) := by
  obtain ⟨n, hn, hp⟩ := hl.top
  have hllt := hl.lt _ (Tree.addr_mem_addrs l)
  have hrlt := hr.lt _ (Tree.addr_mem_addrs r)
  let x : BPTreeNode := { BPTreeNode.blank false with
    keys := wr (BPTreeNode.blank false).keys 0 k
    children := wr (wr (BPTreeNode.blank false).children 0 (some l.addr)) 1 (some r.addr)
    keyCount := 1 }
  have hnodes : s.nodes.set s.nodes.length x = s.nodes := List.set_eq_of_length_le (le_refl _)
  have hboth : ∀ d ∈ [l, r], Rep s.nodes none d := by simp [hl, hr]
  have hnd' : (s.nodes.length :: [l, r].flatMap Tree.addrs).Nodup := by
    rw [List.nodup_cons]
    refine ⟨fun h => ?_, by simpa using hnd⟩
    simp only [List.flatMap_cons, List.flatMap_nil, List.append_nil, List.mem_append] at h
    rcases h with h | h
    · exact Nat.lt_irrefl _ (hl.lt _ h)
    · exact Nat.lt_irrefl _ (hr.lt _ h)
  obtain ⟨-, hkids⟩ := rep_of_split (x := x) (y := x) hboth hnd' 0
  simp only [hnodes, List.drop_zero, List.take_zero, reparent_nil, List.map_cons, List.map_nil]
    at hkids
  refine ⟨⟨⟨reparent [l.addr, r.addr] s.nodes.length (s.nodes ++ [x]), some s.nodes.length⟩, rest⟩,
    ?_, rfl, by simp, fun b hb => ?_, ⟨x, ?_, rfl, rfl, rfl, rfl, ?_, ?_⟩, hkids⟩
  · simp only [bptreeInsertIntoParent, TreeState.load, hn, Option.bind_eq_bind, Option.bind_some,
      hp, bptreeCreateNode, hc]
    rw [TreeState.modify_of_lt _ (by simp), Option.bind_some]
    simp only [modify_append_length]
    rw [TreeState.modify_of_lt _ (by simpa using Nat.lt_succ_of_lt hllt), Option.bind_some,
      TreeState.modify_of_lt _ (by simpa using Nat.lt_succ_of_lt hrlt)]
    rfl
  · rw [nextOf_reparent, nextOf, nextOf, List.getElem?_append_left hb]
  · rw [getElem?_reparent, if_neg]
    · simp
    · simp only [List.mem_cons, List.not_mem_nil, or_false]
      rintro (h | h)
      · exact Nat.lt_irrefl _ (h ▸ hllt)
      · exact Nat.lt_irrefl _ (h ▸ hrlt)
  · intro j hj
    obtain rfl : j = 0 := by simpa using hj
    exact rd_wr_self _ _ _ (by decide)
  · intro j
    rw [rd_wr _ _ _ _ (by decide), rd_wr _ _ _ _ (by decide)]
    rcases j with _ | _ | j
    · rfl
    · rfl
    · exact rd_replicate (j + 2)

/-! ## A whole call -/

/-- The number of allocations that the insertion of a new key makes when all of them succeed: one
for each node it splits and one for a new root. -/
def Tree.allocations {h : Nat} (key : Int) (t : Tree h) : Nat :=
  if t.overflow key ≤ h then t.overflow key else t.overflow key + 1

theorem Granted.mono {m m' : Nat} {callocs : List Bool} (hg : Granted m callocs) (h : m' ≤ m) :
    Granted m' callocs := fun i hi => hg i (Nat.lt_of_lt_of_le hi h)

theorem Tree.overflow_le_allocations {h : Nat} (key : Int) (t : Tree h) :
    t.overflow key ≤ t.allocations key := by
  unfold Tree.allocations
  split
  · exact le_refl _
  · exact Nat.le_succ _

section Call

variable {b : Bptree} {h : Nat} {t : Tree h} {key : Int} {callocs : List Bool}

theorem Stores.insert_duplicate (hs : Stores b t) (hk : key ∈ t.keys) (callocs : List Bool)
    (row : Int) : bptreeInsert b callocs key row = some (.duplicateKey, b) := by
  have hsome := isSome_lookup.mpr hk
  unfold bptreeInsert bptreeInsertState
  simp only [hs.root, hs.search, Option.bind_eq_bind, Option.bind_some, hsome, if_true,
    Option.map_some]

/-- For a new key the call goes on at the leaf that the key is routed to. -/
theorem Stores.insert_new (hs : Stores b t) (hk : key ∉ t.keys) {leaf : Addr}
    (hleaf : t.leafFor key = some leaf) (callocs : List Bool) (row : Int) :
    bptreeInsert b callocs key row =
      (insertAtLeaf (b.nodes.length + 1) ⟨b, callocs⟩ leaf key row).map
        fun r => (r.1, r.2.toBptree) := by
  have hnone : ¬ (t.entries.lookup key).isSome := fun h => hk (isSome_lookup.mp h)
  have hfind := hs.findLeaf key
  rw [hs.root, hleaf] at hfind
  unfold bptreeInsert bptreeInsertState
  simp only [hs.root, hs.search, Option.bind_eq_bind, Option.bind_some, hnone, Bool.false_eq_true,
    if_false, hfind]
  rfl

theorem insert_nodup (hnd : t.addrs.Nodup) {fresh : Nat} (hlt : ∀ a ∈ t.addrs, a < fresh)
    (key row : Int) (callocs : List Bool) :
    (t.insert key row fresh callocs).outcome.addrs.Nodup := by
  obtain ⟨lost, hgrown, -⟩ := insert_grown key row t fresh callocs
  have := hgrown.2.nodup_iff.mpr (nodup_grow hnd hlt)
  exact (List.nodup_append.mp this).1

/-- The chain and the addresses after an insertion that did not fail. -/
theorem Whole.insert {nodes' : List BPTreeNode} {row : Int} {leaf : Addr} {outcome : Outcome h}
    {fresh' : Nat} {callocs' : List Bool} (hw : Whole b t) (hs : Stores b t)
    (hleaf : t.leafFor key = some leaf)
    (hins : t.insert key row b.nodes.length callocs = ⟨outcome, fresh', callocs'⟩)
    (hok : ∀ t', outcome ≠ .failed t') (hlen : nodes'.length = fresh')
    (hlink : Linked b.nodes nodes' leaf) :
    Chain nodes' outcome.leafAddrs ∧ outcome.addrs.Perm (List.range nodes'.length) := by
  obtain ⟨A, B, hold, hnew⟩ :=
    insert_extended row hs.wf (within_univ key) hleaf b.nodes.length callocs
  rw [hins] at hnew
  have hnew' : outcome.leafAddrs =
      A ++ leaf :: (if fresh' = b.nodes.length then B else b.nodes.length :: B) := by
    cases outcome with
    | failed t' => exact absurd rfl (hok t')
    | done t' => exact hnew
    | split l k r => exact hnew
  have hlt : ∀ a ∈ A ++ leaf :: B, a < b.nodes.length := fun a ha =>
    hs.rep.lt a (t.leafAddrs_sublist.subset (hold ▸ ha))
  have hnd : (A ++ leaf :: B).Nodup := hold ▸ t.leafAddrs_sublist.nodup hs.nodup
  have hchain := hw.chain
  rw [hold] at hchain
  have hle : b.nodes.length ≤ fresh' := by
    obtain ⟨lost, hgrown, -⟩ := insert_grown key row t b.nodes.length callocs
    rw [hins] at hgrown
    exact hgrown.1
  refine ⟨?_, ?_⟩
  · rw [hnew']
    by_cases hsame : fresh' = b.nodes.length
    · rw [if_pos hsame]
      rw [Linked, if_pos (hlen.trans hsame)] at hlink
      exact hchain.frame fun a ha => hlink a (hlt a ha)
    · rw [if_neg hsame]
      exact Chain.link hlink (by omega) hchain hnd hlt
  · refine (insert_addrs_perm hins hok).trans ((hw.all.append_right _).trans ?_)
    rw [hlen, List.range_eq_range', List.range_eq_range']
    have := List.range'_append_1 (s := 0) (m := b.nodes.length) (n := fresh' - b.nodes.length)
    rw [Nat.zero_add, Nat.add_sub_cancel' hle] at this
    rw [this]

/-- Where the call stands when the leaf-to-root work on the old tree is done. -/
theorem Stores.insert_steps (hs : Stores b t) (hk : key ∉ t.keys) (callocs : List Bool) (row : Int) :
    ∃ (leaf : Addr) (fuel : Nat) (s' : TreeState), t.leafFor key = some leaf ∧
      Stepped ⟨b, callocs⟩ s' t.addrs (t.insert key row b.nodes.length callocs) ∧
      Linked b.nodes s'.nodes leaf ∧
      ∃ run, Returns (fuel + 1) run s' none (t.insert key row b.nodes.length callocs).outcome ∧
        bptreeInsert b callocs key row = run.map fun r => (r.1, r.2.toBptree) := by
  obtain ⟨leaf, -, hleaf, -, -⟩ := hs.wf.leafFor (within_univ key)
  obtain ⟨fuel, hfuel⟩ : ∃ f, b.nodes.length + 1 = f + 1 + h :=
    ⟨b.nodes.length - h, by have := hs.height_lt; omega⟩
  obtain ⟨s', hstep, hlink, hret⟩ := insert_refines row hs.wf (within_univ key)
    (s := ⟨b, callocs⟩) hs.rep hs.nodup hleaf (fuel + 1)
  exact ⟨leaf, fuel, s', hleaf, hstep, hlink, _, hret, by rw [hs.insert_new hk hleaf, hfuel]⟩

/-- When the allocations it needs succeed, the insertion of a new key succeeds. -/
theorem Stores.insert_granted (hs : Stores b t) (hk : key ∉ t.keys)
    (hg : Granted (t.allocations key) callocs) (row : Int) :
    ∃ (b' : Bptree) (h' : Nat) (t' : Tree h'),
      bptreeInsert b callocs key row = some (.inserted, b') ∧ Stores b' t' ∧
      Inserted (key, row) t.entries t'.entries ∧ (Whole b t → Whole b' t') := by
  obtain ⟨leaf, fuel, s', hleaf, hstep, hlink, run, hret, hrun⟩ := hs.insert_steps hk callocs row
  have hspec := insert_spec row hs.wf (within_univ key) hk b.nodes.length callocs
  have halloc := insert_allocated row hs.wf (within_univ key) b.nodes.length callocs
  have haddr := insert_addr key row t b.nodes.length callocs
  have hnd := insert_nodup hs.nodup hs.rep.lt key row callocs
  generalize hins : t.insert key row b.nodes.length callocs = ins at *
  obtain ⟨outcome, fresh', callocs'⟩ := ins
  cases outcome with
  | failed t' => exact absurd (hg.mono (t.overflow_le_allocations key)) halloc
  | done t' =>
    obtain ⟨rfl, hrep⟩ := hret
    refine ⟨s'.toBptree, h, t', hrun, ⟨?_, hrep, hspec.1, hnd⟩, hspec.2, fun hw => ?_⟩
    · rw [hstep.root, hs.root, ← haddr]; rfl
    · obtain ⟨hchain, hall⟩ := hw.insert hs hleaf hins nofun hstep.fresh hlink
      exact ⟨hchain, hall⟩
  | split l k r =>
    obtain ⟨hover, hg', hcs, -⟩ := halloc
    obtain ⟨rfl, hrepl, hrepr⟩ := hret
    obtain ⟨hwl, hwr, hinserted, -⟩ := hspec
    have hneed : t.allocations key = h + 1 + 1 := by
      rw [Tree.allocations, if_neg (by omega), hover]
    cases hc : calloc s'.callocs with
    | mk granted rest =>
      have hcs' : s'.callocs = callocs.drop (t.overflow key) := hstep.callocs.trans hcs
      rw [hcs', hover] at hc
      cases granted with
      | false => exact absurd (hneed ▸ hg) (not_granted_of_calloc hc)
      | true =>
        rw [← hover, ← hcs'] at hc
        obtain ⟨s'', hrun', hroot, hlen, hnext, hrep⟩ :=
          insertIntoParent_root_granted hrepl hrepr hnd hc k fuel
        rw [hrun'] at hrun
        have hlt : ∀ a ∈ l.addrs ++ r.addrs, a < s'.nodes.length := fun a ha =>
          (List.mem_append.mp ha).elim (hrepl.lt a) (hrepr.lt a)
        refine ⟨s''.toBptree, h + 1, Tree.node s'.nodes.length [k] [l, r], hrun,
          ⟨hroot, hrep, ?_, ?_⟩, by simpa using hinserted, fun hw => ?_⟩
        · exact Tree.wf_node.mpr ⟨show 1 ≤ 31 by decide, le_refl _, nofun, hwl, hwr⟩
        · simp only [Tree.addrs_node, List.flatMap_cons, List.flatMap_nil, List.append_nil,
            List.nodup_cons]
          exact ⟨fun ha => Nat.lt_irrefl _ (hlt _ ha), hnd⟩
        · obtain ⟨hchain, hall⟩ := hw.insert hs hleaf hins nofun hstep.fresh hlink
          refine ⟨?_, ?_⟩
          · simp only [Tree.leafAddrs_node, List.flatMap_cons, List.flatMap_nil, List.append_nil]
            refine hchain.frame fun a ha => hnext a (hlt a ?_)
            rcases List.mem_append.mp ha with ha | ha
            · exact List.mem_append_left _ (l.leafAddrs_sublist.subset ha)
            · exact List.mem_append_right _ (r.leafAddrs_sublist.subset ha)
          · simp only [Tree.addrs_node, List.flatMap_cons, List.flatMap_nil, List.append_nil]
            rw [hlen, List.range_succ]
            exact (List.Perm.cons _ hall).trans (List.perm_append_singleton _ _).symm

/-- When one of them is refused, the call fails; the tree is what it was if that was the first
allocation, and has lost a key otherwise. -/
theorem Stores.insert_refused (hs : Stores b t) (hk : key ∉ t.keys)
    (hg : ¬ Granted (t.allocations key) callocs) (row : Int) :
    ∃ (b' : Bptree) (t' : Tree h), bptreeInsert b callocs key row = some (.noMemory, b') ∧
      Stores b' t' ∧
      if callocs.head? = some false then t' = t else ∃ k ∈ t.keys, k ∉ t'.keys := by
  obtain ⟨leaf, fuel, s', hleaf, hstep, -, run, hret, hrun⟩ := hs.insert_steps hk callocs row
  have hspec := insert_spec row hs.wf (within_univ key) hk b.nodes.length callocs
  have halloc := insert_allocated row hs.wf (within_univ key) b.nodes.length callocs
  have haddr := insert_addr key row t b.nodes.length callocs
  have hnd := insert_nodup hs.nodup hs.rep.lt key row callocs
  generalize hins : t.insert key row b.nodes.length callocs = ins at *
  obtain ⟨outcome, fresh', callocs'⟩ := ins
  have hroot : s'.root = some outcome.addr := by rw [hstep.root, hs.root, ← haddr]
  cases outcome with
  | failed t' =>
    obtain ⟨rfl, hrep⟩ := hret
    exact ⟨s'.toBptree, t', hrun, ⟨hroot, hrep, hspec.1, hnd⟩, hspec.2⟩
  | done t' =>
    obtain ⟨hm, hg', -⟩ := halloc
    exact absurd (by rwa [Tree.allocations, if_pos hm]) hg
  | split l k r =>
    obtain ⟨hover, hg', hcs, -⟩ := halloc
    obtain ⟨rfl, hrepl, hrepr⟩ := hret
    obtain ⟨hwl, hwr, hinserted, hhead⟩ := hspec
    have hcs' : s'.callocs = callocs.drop (t.overflow key) := hstep.callocs.trans hcs
    cases hc : calloc s'.callocs with
    | mk granted rest =>
      cases granted with
      | true =>
        rw [hcs'] at hc
        refine absurd ?_ hg
        rw [Tree.allocations, if_neg (by omega)]
        exact (hg'.of_calloc hc).1
      | false =>
        rw [insertIntoParent_root_refused hrepl hc k fuel] at hrun
        obtain ⟨x, -, hx, hxl⟩ := exists_old_key hwl hwr hinserted
        refine ⟨s'.toBptree, l, hrun, ⟨hroot, hrepl, ?_, ?_⟩, ?_⟩
        · exact (hwl.relax (le_refl _) le_top).root
        · exact (List.nodup_append.mp hnd).1
        · rw [if_neg hhead]
          exact ⟨x, hx, hxl⟩

end Call

/-! ## Runs -/

/-- A call of `bptree_insert` and the outcomes of the `calloc`s it makes. -/
structure InsertCall where
  key : Int
  rowIndex : Int
  callocs : List Bool

/-- What each call of a run returns by and the tree it leaves. -/
def insertTrace : Bptree → List InsertCall → Option (List (InsertExit × Bptree))
  | _, [] => some []
  | b, c :: cs => do
    let r ← bptreeInsert b c.callocs c.key c.rowIndex
    let rest ← insertTrace r.2 cs
    some (r :: rest)

/-- The tree `b` holds the entries `es` and nothing was ever refused to it. -/
def Built (b : Bptree) (es : List (Int × Int)) : Prop :=
  (b = .empty ∧ es = []) ∨ ∃ (h : Nat) (t : Tree h), Stores b t ∧ Whole b t ∧ t.entries = es

theorem Built.search {b : Bptree} {es : List (Int × Int)} (hb : Built b es) (key : Int) :
    bptreeSearch b key = some (es.lookup key) := by
  rcases hb with ⟨rfl, rfl⟩ | ⟨h, t, hs, -, rfl⟩
  · rfl
  · exact hs.search key

theorem granted_nil (m : Nat) : Granted m [] := fun _ _ => nofun

/-- One call with enough memory: a key that is there is refused, a new one comes in. -/
theorem Built.insert {b : Bptree} {es : List (Int × Int)} (hb : Built b es) (key row : Int) :
    ∃ b' es', bptreeInsert b [] key row =
        some (if (es.lookup key).isSome then .duplicateKey else .inserted, b') ∧ Built b' es' ∧
      ∀ k, es'.lookup k = (es.lookup k).or (if k = key then some row else none) := by
  rcases hb with ⟨rfl, rfl⟩ | ⟨h, t, hs, hw, rfl⟩
  · rcases bptreeInsert_empty [] key row with ⟨h, -⟩ | ⟨-, b', hrun, hs, hw⟩
    · cases h
    · refine ⟨b', [(key, row)], hrun, .inr ⟨0, _, hs, hw, rfl⟩, fun k => ?_⟩
      by_cases hk : k = key <;> simp [hk]
  · by_cases hk : key ∈ t.keys
    · have hsome : (t.entries.lookup key).isSome := isSome_lookup.mpr hk
      refine ⟨b, t.entries, ?_, .inr ⟨h, t, hs, hw, rfl⟩, fun k => ?_⟩
      · rw [hs.insert_duplicate hk, if_pos hsome]
      · by_cases hkk : k = key
        · subst hkk
          rw [Option.or_eq_left_of_isSome hsome]
        · rw [if_neg hkk, Option.or_none]
    · have hnone : ¬ (t.entries.lookup key).isSome := fun h => hk (isSome_lookup.mp h)
      obtain ⟨b', h', t', hrun, hs', hins, hw'⟩ := hs.insert_granted hk (granted_nil _) row
      refine ⟨b', t'.entries, by rw [hrun, if_neg hnone], .inr ⟨h', t', hs', hw' hw, rfl⟩,
        fun k => ?_⟩
      rw [lookup_inserted hins hs'.wf.spread.sorted.nodup k]
      by_cases hkk : k = key
      · subst hkk
        rw [Option.not_isSome_iff_eq_none.mp hnone, if_pos rfl]
        rfl
      · rw [if_neg hkk, if_neg hkk, Option.or_none]

/-- The calls with keys and row indices `ops`, no allocation failing. -/
def plentiful (ops : List (Int × Int)) : List InsertCall := ops.map fun op => ⟨op.1, op.2, []⟩

/-- A run from a tree that holds the entries of the calls `done` before it. -/
theorem insertTrace_built : ∀ (ops done : List (Int × Int)) {b : Bptree} {es : List (Int × Int)},
    Built b es → (∀ k, es.lookup k = done.lookup k) →
      ∃ log, insertTrace b (plentiful ops) = some log ∧ log.length = ops.length ∧
        ∀ i key row, ops[i]? = some (key, row) →
          ∃ b' es', log[i]? = some (if ((done ++ ops.take i).lookup key).isSome then .duplicateKey
              else .inserted, b') ∧ Built b' es' ∧
            ∀ k, es'.lookup k = (done ++ ops.take (i + 1)).lookup k
  | [], _, _, _, _, _ => ⟨[], rfl, rfl, fun i _ _ h => by simp at h⟩
  | (key, row) :: ops, done, b, es, hb, hes => by
    obtain ⟨b', es', hrun, hb', hes'⟩ := hb.insert key row
    have hnext : ∀ k, es'.lookup k = (done ++ [(key, row)]).lookup k := fun k => by
      rw [hes', hes, List.lookup_append, List.lookup_cons]
      by_cases hk : k = key
      · simp [hk]
      · have hbeq : (k == key) = false := by simpa using hk
        rw [if_neg hk, hbeq]
        simp
    obtain ⟨log, hlog, hlen, hspec⟩ := insertTrace_built ops (done ++ [(key, row)]) hb' hnext
    refine ⟨(if (es.lookup key).isSome then .duplicateKey else .inserted, b') :: log, ?_,
      by rw [List.length_cons, List.length_cons, hlen], ?_⟩
    · simp only [plentiful, List.map_cons, insertTrace, hrun, Option.bind_eq_bind,
        Option.bind_some]
      unfold plentiful at hlog
      rw [hlog]
      rfl
    · intro i key' row' hi
      cases i with
      | zero =>
        rw [List.getElem?_cons_zero, Option.some.injEq, Prod.mk.injEq] at hi
        obtain ⟨rfl, rfl⟩ := hi
        refine ⟨b', es', ?_, hb', hnext⟩
        rw [List.getElem?_cons_zero, hes, List.take_zero, List.append_nil]
      | succ i =>
        rw [List.getElem?_cons_succ] at hi ⊢
        have hassoc : ∀ l, done ++ [(key, row)] ++ l = done ++ (key, row) :: l := fun l => by simp
        have := hspec i key' row' hi
        simp only [hassoc] at this
        exact this

/-! ## The finite map -/

theorem lookup_take_eq_none {ops : List (Int × Int)} {n : Nat} {k : Int} :
    (ops.take n).lookup k = none ↔ ∀ j < n, ∀ r, ops[j]? ≠ some (k, r) := by
  rw [List.lookup_eq_none_iff]
  refine ⟨fun h j hj r hr => ?_, fun h op hop => ?_⟩
  · have hmem : (k, r) ∈ ops.take n :=
      List.mem_of_getElem? (i := j) (by rw [List.getElem?_take_of_lt hj, hr])
    simpa using h (k, r) hmem
  · obtain ⟨j, hj, rfl⟩ := List.getElem_of_mem hop
    rw [List.length_take] at hj
    have := h j (by omega) (ops.take n)[j].2
    rw [List.getElem_take, List.getElem?_eq_getElem (by omega)] at this
    simp only [bne_iff_ne, ne_eq, List.getElem_take]
    exact fun hk => this (by rw [hk])

/-- A lookup finds the first pair of a key. -/
theorem lookup_take_eq_some {ops : List (Int × Int)} {k r : Int} : ∀ {n : Nat},
    (ops.take n).lookup k = some r ↔
      ∃ j < n, ops[j]? = some (k, r) ∧ (ops.take j).lookup k = none
  | 0 => by simp
  | n + 1 => by
    rw [List.take_add_one, List.lookup_append, Option.or_eq_some_iff, lookup_take_eq_some]
    refine ⟨?_, ?_⟩
    · rintro (⟨j, hj, h⟩ | ⟨hnone, hlast⟩)
      · exact ⟨j, Nat.lt_succ_of_lt hj, h⟩
      · refine ⟨n, Nat.lt_succ_self n, ?_, hnone⟩
        cases hop : ops[n]? with
        | none => rw [hop] at hlast; cases hlast
        | some op =>
          rw [hop] at hlast
          obtain ⟨k', r'⟩ := op
          by_cases hk : k = k'
          · subst hk
            simpa using hlast
          · have hbeq : (k == k') = false := by simpa using hk
            simp [List.lookup_cons, hbeq] at hlast
    · rintro ⟨j, hj, hop, hnone⟩
      rcases Nat.lt_succ_iff_lt_or_eq.mp hj with hj | rfl
      · exact Or.inl ⟨j, hj, hop, hnone⟩
      · exact Or.inr ⟨hnone, by simp [hop]⟩

/-- Call `j` of a run inserted `key` with the row index `row` and returned `SUCCESS`. -/
def SucceededAt (ops : List (Int × Int)) (log : List (InsertExit × Bptree)) (j : Nat)
    (key row : Int) : Prop :=
  ops[j]? = some (key, row) ∧ ∃ exit b, log[j]? = some (exit, b) ∧ exit.status = .success

theorem status_of_lookup (found : Option Int) :
    (if found.isSome then InsertExit.duplicateKey else InsertExit.inserted).status = .success ↔
      found = none := by
  cases found <;> simp [InsertExit.status]

/-- The tree behaves as a finite map. -/
theorem bptree_finite_map (ops : List (Int × Int)) :
    ∃ log, insertTrace .empty (plentiful ops) = some log ∧ log.length = ops.length ∧
      ∀ i key row exit b, ops[i]? = some (key, row) → log[i]? = some (exit, b) →
        (exit.status = .success ↔ ¬ ∃ j < i, ∃ row', SucceededAt ops log j key row') ∧
        exit ≠ .noChildIndex ∧
        (∀ k r, bptreeSearch b k = some (some r) ↔ ∃ j ≤ i, SucceededAt ops log j k r) ∧
        ∀ k, bptreeSearch b k = some none ↔ ∀ j ≤ i, ∀ r, ops[j]? ≠ some (k, r) := by
  obtain ⟨log, hlog, hlen, hspec⟩ := insertTrace_built ops [] (.inl ⟨rfl, rfl⟩) fun _ => rfl
  simp only [List.nil_append] at hspec
  have hsucc : ∀ j k r, SucceededAt ops log j k r ↔
      ops[j]? = some (k, r) ∧ (ops.take j).lookup k = none := by
    intro j k r
    refine and_congr_right fun hop => ?_
    obtain ⟨b, es, hb, -, -⟩ := hspec j k r hop
    rw [hb, ← status_of_lookup]
    refine ⟨?_, fun h => ⟨_, _, rfl, h⟩⟩
    rintro ⟨exit, b', hexit, hstatus⟩
    obtain ⟨rfl, -⟩ := Prod.mk.inj (Option.some.inj hexit)
    exact hstatus
  refine ⟨log, hlog, hlen, fun i key row exit b hop hb => ?_⟩
  obtain ⟨b', es, hb', hbuilt, hes⟩ := hspec i key row hop
  obtain ⟨rfl, rfl⟩ := Prod.mk.inj (Option.some.inj (hb.symm.trans hb'))
  refine ⟨?_, ?_, fun k r => ?_, fun k => ?_⟩
  · have hprev : (∃ j < i, ∃ row', SucceededAt ops log j key row') ↔
        ((ops.take i).lookup key).isSome := by
      rw [Option.isSome_iff_exists]
      simp only [hsucc, lookup_take_eq_some]
      exact ⟨fun ⟨j, hj, r, h⟩ => ⟨r, j, hj, h⟩, fun ⟨r, j, hj, h⟩ => ⟨j, hj, r, h⟩⟩
    rw [hprev, status_of_lookup, Option.not_isSome_iff_eq_none]
  · split <;> nofun
  · rw [hbuilt.search, hes, Option.some.injEq, lookup_take_eq_some]
    simp only [hsucc, Nat.lt_succ_iff]
  · rw [hbuilt.search, hes, Option.some.injEq, lookup_take_eq_none]
    simp only [Nat.lt_succ_iff]

end JungleDb
