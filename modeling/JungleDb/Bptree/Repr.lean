import JungleDb.Bptree.Tree

/-!
# Trees in memory

`Rep nodes p t` says that the memory `nodes` holds the abstract tree `t` below a node whose parent
pointer is `p`: every node has the fields its shape demands and every child points back to its
parent. The functions of `bptree.c` that rewrite nodes are brought here into closed form: which
nodes they change and what those hold afterwards.
-/

namespace JungleDb

open CArray Fence

/-! ## Nodes -/

/-- `n` is a leaf with the entries `es`. -/
structure LeafNode (n : BPTreeNode) (parent : Option Addr) (es : List (Int × Int)) : Prop where
  isLeaf : n.isLeaf = true
  parent : n.parent = parent
  keyCount : n.keyCount = es.length
  keys : Holds n.keys (es.map Prod.fst)
  rowIndices : Holds n.rowIndices (es.map Prod.snd)

/-- `n` is an internal node with the separators `ks` between the children `cs`. -/
structure InternalNode (n : BPTreeNode) (parent : Option Addr) (ks : List Int) (cs : List Addr) :
    Prop where
  isLeaf : n.isLeaf = false
  parent : n.parent = parent
  keyCount : n.keyCount = ks.length
  arity : cs.length = ks.length + 1
  keys : Holds n.keys ks
  children : Slots n.children cs

/-- `n` with the parent pointer `p`. -/
def BPTreeNode.withParent (n : BPTreeNode) (p : Option Addr) : BPTreeNode := { n with parent := p }

theorem LeafNode.withParent {n : BPTreeNode} {p : Option Addr} {es : List (Int × Int)}
    (h : LeafNode n p es) (p' : Option Addr) : LeafNode (n.withParent p') p' es :=
  ⟨h.isLeaf, rfl, h.keyCount, h.keys, h.rowIndices⟩

theorem InternalNode.withParent {n : BPTreeNode} {p : Option Addr} {ks : List Int} {cs : List Addr}
    (h : InternalNode n p ks cs) (p' : Option Addr) : InternalNode (n.withParent p') p' ks cs :=
  ⟨h.isLeaf, rfl, h.keyCount, h.arity, h.keys, h.children⟩

theorem BPTreeNode.withParent_self {n : BPTreeNode} {p : Option Addr} (h : n.parent = p) :
    n.withParent p = n := by
  subst h; rfl

/-! ## Trees -/

/-- The memory holds `t`, and the node of `t` has the parent pointer `p`. -/
def Rep (nodes : List BPTreeNode) : Option Addr → {h : Nat} → Tree h → Prop
  | p, 0, .leaf a es => ∃ n, nodes[a]? = some n ∧ LeafNode n p es
  | p, h + 1, .node a ks cs =>
    (∃ n, nodes[a]? = some n ∧ InternalNode n p ks (cs.map Tree.addr)) ∧
      ∀ c ∈ cs, Rep nodes (some a) (h := h) c

section Rep

variable {nodes nodes' : List BPTreeNode} {p : Option Addr}

theorem rep_leaf {a : Addr} {es : List (Int × Int)} :
    Rep nodes p (Tree.leaf a es) ↔ ∃ n, nodes[a]? = some n ∧ LeafNode n p es := Iff.rfl

theorem rep_node {h : Nat} {a : Addr} {ks : List Int} {cs : List (Tree h)} :
    Rep nodes p (Tree.node a ks cs) ↔
      (∃ n, nodes[a]? = some n ∧ InternalNode n p ks (cs.map Tree.addr)) ∧
        ∀ c ∈ cs, Rep nodes (some a) c := Iff.rfl

/-- Only the nodes of the tree matter. -/
theorem Rep.frame : ∀ {h : Nat} {p : Option Addr} {t : Tree h}, Rep nodes p t →
    (∀ b ∈ t.addrs, nodes'[b]? = nodes[b]?) → Rep nodes' p t
  | 0, _, .leaf a _, ⟨n, hn, hleaf⟩, hf => ⟨n, (hf a (by simp)).trans hn, hleaf⟩
  | _ + 1, _, .node a _ _, ⟨⟨n, hn, hint⟩, hcs⟩, hf =>
    ⟨⟨n, (hf a (by simp)).trans hn, hint⟩, fun c hc => (hcs c hc).frame fun b hb =>
      hf b (by simp only [Tree.addrs_node, List.mem_cons, List.mem_flatMap]; exact .inr ⟨c, hc, hb⟩)⟩

/-- A subtree whose top node has got another parent. -/
theorem Rep.reparent {p' : Option Addr} : ∀ {h : Nat} {t : Tree h}, Rep nodes p t →
    t.addrs.Nodup → (∀ b ∈ t.addrs, b ≠ t.addr → nodes'[b]? = nodes[b]?) →
    nodes'[t.addr]? = nodes[t.addr]?.map (·.withParent p') → Rep nodes' p' t
  | 0, .leaf a _, ⟨n, hn, hleaf⟩, _, _, ha => by
    refine ⟨n.withParent p', ?_, hleaf.withParent p'⟩
    rw [show nodes'[a]? = _ from ha, Tree.addr_leaf, hn]
    rfl
  | h + 1, .node a ks cs, ⟨⟨n, hn, hint⟩, hcs⟩, hnd, hf, ha => by
    refine ⟨⟨n.withParent p', ?_, hint.withParent p'⟩, fun c hc => ?_⟩
    · rw [show nodes'[a]? = _ from ha, Tree.addr_node, hn]
      rfl
    · refine (hcs c hc).frame fun b hb => ?_
      have hbc : b ∈ cs.flatMap Tree.addrs := List.mem_flatMap.mpr ⟨c, hc, hb⟩
      refine hf b (List.mem_cons_of_mem _ hbc) fun hba => ?_
      rw [Tree.addrs_node, List.nodup_cons] at hnd
      exact hnd.1 (by rw [← show b = a from hba]; exact hbc)

/-- The top node of a tree in memory. -/
theorem Rep.top : ∀ {h : Nat} {t : Tree h}, Rep nodes p t →
    ∃ n, nodes[t.addr]? = some n ∧ n.parent = p
  | 0, .leaf _ _, ⟨n, hn, hleaf⟩ => ⟨n, hn, hleaf.parent⟩
  | _ + 1, .node _ _ _, ⟨⟨n, hn, hint⟩, _⟩ => ⟨n, hn, hint.parent⟩

theorem Rep.lt : ∀ {h : Nat} {p : Option Addr} {t : Tree h}, Rep nodes p t →
    ∀ b ∈ t.addrs, b < nodes.length
  | 0, _, .leaf a _, ⟨_, hn, _⟩, b, hb => by
    obtain rfl : b = a := by simpa using hb
    exact (List.getElem?_eq_some_iff.mp hn).1
  | _ + 1, _, .node a ks cs, ⟨⟨_, hn, _⟩, hcs⟩, b, hb => by
    rw [Tree.addrs_node, List.mem_cons, List.mem_flatMap] at hb
    rcases hb with rfl | ⟨c, hc, hb⟩
    · exact (List.getElem?_eq_some_iff.mp hn).1
    · exact (hcs c hc).lt b hb

/-- A leaf of a tree in memory. -/
theorem Rep.leaf_mem : ∀ {h : Nat} {p : Option Addr} {t : Tree h}, Rep nodes p t →
    ∀ {a : Addr} {es : List (Int × Int)}, (a, es) ∈ t.leaves →
      ∃ n q, nodes[a]? = some n ∧ LeafNode n q es
  | 0, p, .leaf _ _, ⟨n, hn, hleaf⟩, a, es, hmem => by
    rw [Tree.leaves_leaf, List.mem_singleton, Prod.mk.injEq] at hmem
    obtain ⟨rfl, rfl⟩ := hmem
    exact ⟨n, p, hn, hleaf⟩
  | _ + 1, _, .node _ _ cs, ⟨_, hcs⟩, a, es, hmem => by
    rw [Tree.leaves_node, List.mem_flatMap] at hmem
    obtain ⟨c, hc, hmem⟩ := hmem
    exact (hcs c hc).leaf_mem hmem

end Rep

/-! ## Memory updates -/

theorem TreeState.modify_of_lt {s : TreeState} {a : Nat} (f : BPTreeNode → BPTreeNode)
    (h : a < s.nodes.length) :
    s.modify a f = some { s with nodes := s.nodes.modify a f } := if_pos h

theorem modify_eq_set {nodes : List BPTreeNode} {a : Nat} {n : BPTreeNode}
    (f : BPTreeNode → BPTreeNode) (h : nodes[a]? = some n) :
    nodes.modify a f = nodes.set a (f n) := by
  refine List.ext_getElem? fun b => ?_
  by_cases hb : a = b
  · subst hb
    rw [List.getElem?_modify_eq, h, List.getElem?_set_self (List.getElem?_eq_some_iff.mp h).1]
    rfl
  · rw [List.getElem?_modify_ne _ _ hb, List.getElem?_set_ne hb]

theorem set_eq_self {nodes : List BPTreeNode} {a : Nat} {n : BPTreeNode} (h : nodes[a]? = some n) :
    nodes.set a n = nodes := by
  obtain ⟨_, rfl⟩ := List.getElem?_eq_some_iff.mp h
  exact List.set_getElem_self _

theorem modify_append_of_lt {nodes : List BPTreeNode} {a : Nat} (f : BPTreeNode → BPTreeNode)
    (h : a < nodes.length) (more : List BPTreeNode) :
    (nodes ++ more).modify a f = nodes.modify a f ++ more := by
  refine List.ext_getElem? fun b => ?_
  by_cases hb : b < nodes.length
  · rw [List.getElem?_append_left (by simpa using hb), List.getElem?_modify, List.getElem?_modify,
      List.getElem?_append_left hb]
  · rw [List.getElem?_append_right (by simpa using hb), List.getElem?_modify_ne _ _ (by omega),
      List.getElem?_append_right (by omega), List.length_modify]

theorem modify_append_length (nodes : List BPTreeNode) (n : BPTreeNode)
    (f : BPTreeNode → BPTreeNode) :
    (nodes ++ [n]).modify nodes.length f = nodes ++ [f n] := by
  rw [modify_eq_set f (n := n) (by simp), List.set_append_right _ _ (le_refl _), Nat.sub_self]
  rfl

/-- `c->parent = a;` for the children `cs` in turn. -/
def reparent (cs : List Addr) (a : Addr) (nodes : List BPTreeNode) : List BPTreeNode :=
  cs.foldl (fun nodes c => nodes.modify c (·.withParent (some a))) nodes

@[simp] theorem reparent_nil (a : Addr) (nodes : List BPTreeNode) : reparent [] a nodes = nodes := rfl

@[simp] theorem reparent_cons (c : Addr) (cs : List Addr) (a : Addr) (nodes : List BPTreeNode) :
    reparent (c :: cs) a nodes = reparent cs a (nodes.modify c (·.withParent (some a))) := rfl

@[simp] theorem length_reparent (cs : List Addr) (a : Addr) (nodes : List BPTreeNode) :
    (reparent cs a nodes).length = nodes.length := by
  induction cs generalizing nodes with
  | nil => rfl
  | cons c cs ih => rw [reparent_cons, ih, List.length_modify]

theorem getElem?_reparent (cs : List Addr) (a : Addr) (nodes : List BPTreeNode) (b : Nat) :
    (reparent cs a nodes)[b]? =
      if b ∈ cs then nodes[b]?.map (·.withParent (some a)) else nodes[b]? := by
  induction cs generalizing nodes with
  | nil => rw [reparent_nil, if_neg List.not_mem_nil]
  | cons c cs ih =>
    rw [reparent_cons, ih]
    by_cases hc : c = b
    · subst hc
      rw [if_pos List.mem_cons_self, List.getElem?_modify_eq]
      cases nodes[c]? <;> simp [BPTreeNode.withParent]
    · have hmem : b ∈ c :: cs ↔ b ∈ cs := by simp [Ne.symm hc]
      rw [List.getElem?_modify_ne _ _ hc]
      simp only [hmem]

theorem modify_reparent {cs : List Addr} {a b : Nat} (f : BPTreeNode → BPTreeNode)
    (nodes : List BPTreeNode) (hb : b ∉ cs) :
    (reparent cs a nodes).modify b f = reparent cs a (nodes.modify b f) := by
  induction cs generalizing nodes with
  | nil => rfl
  | cons c cs ih =>
    rw [List.mem_cons, not_or] at hb
    rw [reparent_cons, reparent_cons, ih _ hb.2, List.modify_modify_ne _ _ _ (Ne.symm hb.1)]

theorem setChild_some {s : TreeState} {owner c : Nat} (i : Nat) (ho : owner < s.nodes.length)
    (hc : c < s.nodes.length) :
    setChild s owner i (some c) = some { s with
      nodes := reparent [c] owner
        (s.nodes.modify owner fun n => { n with children := wr n.children i (some c) }) } := by
  unfold setChild
  rw [TreeState.modify_of_lt _ ho, Option.bind_eq_bind, Option.bind_some]
  exact TreeState.modify_of_lt _ (by simpa using hc)

/-- `refillLeft` copies keys and children and makes `node` the parent of each child. -/
theorem refillLeft_eq (tempKeys : Vector Int (BPTREE_MAX_KEYS + 1))
    (tempChildren : Vector (Option Addr) (BPTREE_MAX_KEYS + 2)) (node : Addr) (cs : List Addr) :
    ∀ (i : Nat) (s : TreeState), node < s.nodes.length →
      (∀ c ∈ cs, c < s.nodes.length ∧ c ≠ node) →
      (∀ (j : Nat) (h : j < cs.length), rd tempChildren (i + j) = some cs[j]) →
      refillLeft tempKeys tempChildren node cs.length i s = some { s with
        nodes := reparent cs node (s.nodes.modify node fun n => { n with
          keys := copyDown tempKeys cs.length i i n.keys
          children := copyDown tempChildren cs.length i i n.children
          keyCount := n.keyCount + cs.length }) } := by
  induction cs with
  | nil =>
    intro i s _ _ _
    have hid : (s.nodes.modify node fun n => { n with
        keys := copyDown tempKeys 0 i i n.keys
        children := copyDown tempChildren 0 i i n.children
        keyCount := n.keyCount + 0 }) = s.nodes := List.modify_id node s.nodes
    rw [List.length_nil, reparent_nil, hid]
    rfl
  | cons c cs ih =>
    intro i s hnode hcs hrd
    obtain ⟨hc, hcn⟩ := hcs c List.mem_cons_self
    have hci : rd tempChildren i = some c := hrd 0 (Nat.zero_lt_succ _)
    rw [List.length_cons, refillLeft]
    simp only [Option.bind_eq_bind]
    rw [TreeState.modify_of_lt _ hnode, Option.bind_some, hci,
      setChild_some _ (by simpa using hnode) (by simpa using hc), Option.bind_some,
      TreeState.modify_of_lt _ (by simpa using hnode), Option.bind_some,
      ih (i + 1) _ (by simpa using hnode) (fun d hd => ?_) (fun j hj => ?_)]
    · rw [reparent_cons]
      simp only [reparent_cons, reparent_nil]
      rw [List.modify_modify_ne _ _ _ hcn, List.modify_modify_ne _ _ _ hcn]
      simp only [List.modify_modify_eq]
      congr 5
      refine congrArg (s.nodes.modify _) (funext fun n => ?_)
      simp only [Function.comp, copyDown, hci]
      congr 1
      omega
    · simpa using hcs d (List.mem_cons_of_mem c hd)
    · have := hrd (j + 1) (by simpa using hj)
      rw [List.getElem_cons_succ] at this
      rw [← this]
      congr 1
      omega

/-- `fillRight` copies children and makes `newNode` the parent of each. -/
theorem fillRight_eq (tempChildren : Vector (Option Addr) (BPTREE_MAX_KEYS + 2)) (newNode : Addr)
    (cs : List Addr) : ∀ (i j : Nat) (s : TreeState), newNode < s.nodes.length →
      (∀ c ∈ cs, c < s.nodes.length ∧ c ≠ newNode) →
      (∀ (k : Nat) (h : k < cs.length), rd tempChildren (i + k) = some cs[k]) →
      fillRight tempChildren newNode cs.length i j s = some { s with
        nodes := reparent cs newNode (s.nodes.modify newNode fun n => { n with
          children := copyDown tempChildren cs.length i j n.children }) } := by
  induction cs with
  | nil =>
    intro i j s _ _ _
    have hid : (s.nodes.modify newNode fun n => { n with
        children := copyDown tempChildren 0 i j n.children }) = s.nodes :=
      List.modify_id newNode s.nodes
    rw [List.length_nil, reparent_nil, hid]
    rfl
  | cons c cs ih =>
    intro i j s hnew hcs hrd
    obtain ⟨hc, hcn⟩ := hcs c List.mem_cons_self
    have hci : rd tempChildren i = some c := hrd 0 (Nat.zero_lt_succ _)
    rw [List.length_cons, fillRight]
    simp only [Option.bind_eq_bind]
    rw [hci, setChild_some _ hnew hc, Option.bind_some,
      ih (i + 1) (j + 1) _ (by simpa using hnew) (fun d hd => ?_) (fun k hk => ?_)]
    · simp only [reparent_cons, reparent_nil]
      rw [List.modify_modify_ne _ _ _ hcn]
      simp only [List.modify_modify_eq]
      congr 5
      refine congrArg (s.nodes.modify _) (funext fun n => ?_)
      simp only [Function.comp, copyDown, hci]
    · simpa using hcs d (List.mem_cons_of_mem c hd)
    · have := hrd (k + 1) (by simpa using hk)
      rw [List.getElem_cons_succ] at this
      rw [← this]
      congr 1
      omega

/-! ### A memory with one rewritten node and one new node -/

section Pair

variable {nodes : List BPTreeNode} {a : Nat} (l r : BPTreeNode) (root : Option Addr)
  (callocs : List Bool) (f : BPTreeNode → BPTreeNode)

theorem pair_modify_old (h : a < nodes.length) :
    (nodes.set a l ++ [r]).modify a f = nodes.set a (f l) ++ [r] := by
  rw [modify_append_of_lt f (by simpa using h), modify_eq_set f (List.getElem?_set_self h),
    List.set_set]

theorem pair_modify_new :
    (nodes.set a l ++ [r]).modify nodes.length f = nodes.set a l ++ [f r] := by
  have := modify_append_length (nodes.set a l) r f
  rwa [List.length_set] at this

theorem load_old (h : a < nodes.length) : (nodes.set a l ++ [r])[a]? = some l := by
  rw [List.getElem?_append_left (by simpa using h), List.getElem?_set_self h]

theorem load_new : (nodes.set a l ++ [r])[nodes.length]? = some r := by
  rw [List.getElem?_append_right (by simp)]
  simp

theorem modify_old (h : a < nodes.length) :
    TreeState.modify ⟨⟨nodes.set a l ++ [r], root⟩, callocs⟩ a f =
      some ⟨⟨nodes.set a (f l) ++ [r], root⟩, callocs⟩ := by
  rw [TreeState.modify_of_lt _ (by simp; omega)]
  simp only [pair_modify_old l r f h]

theorem modify_new :
    TreeState.modify ⟨⟨nodes.set a l ++ [r], root⟩, callocs⟩ nodes.length f =
      some ⟨⟨nodes.set a l ++ [f r], root⟩, callocs⟩ := by
  rw [TreeState.modify_of_lt _ (by simp)]
  simp only [pair_modify_new l r f]

end Pair

/-! ## The functions of `bptree.c` on one node -/

section Updates

variable {s : TreeState} {n : BPTreeNode} {p : Option Addr}

theorem leafInsertIndex_eq {es : List (Int × Int)} (h : LeafNode n p es) (key : Int) :
    leafInsertIndex n key = slot es key := by
  unfold leafInsertIndex slot
  have := h.keys.findIdx fun k => !decide (k < key)
  rw [List.length_map, List.findIdx_map] at this
  rw [h.keyCount, this]
  rfl

theorem bptreeInsertIntoLeaf_eq {leaf : Addr} {es : List (Int × Int)}
    (hn : s.nodes[leaf]? = some n) (hl : LeafNode n p es) (hlen : es.length < BPTREE_MAX_KEYS)
    (key row : Int) :
    ∃ n', LeafNode n' p (es.insertIdx (slot es key) (key, row)) ∧ n'.next = n.next ∧
      bptreeInsertIntoLeaf s leaf key row =
        some (.inserted, { s with nodes := s.nodes.set leaf n' }) := by
  have hslot := slot_le es key
  refine ⟨{ n with
    keys := wr (shiftUp (slot es key) n.keyCount n.keys) (slot es key) key
    rowIndices := wr (shiftUp (slot es key) n.keyCount n.rowIndices) (slot es key) row
    keyCount := n.keyCount + 1 }, ⟨hl.isLeaf, hl.parent, ?_, ?_, ?_⟩, rfl, ?_⟩
  · rw [List.length_insertIdx_of_le_length hslot, ← hl.keyCount]
  · have := hl.keys.insert (slot es key) key (by simpa using hslot) (by simpa using hlen)
    rw [List.length_map, ← hl.keyCount] at this
    rw [List.map_insertIdx]
    exact this
  · have := hl.rowIndices.insert (slot es key) row (by simpa using hslot)
      (by simpa using hlen)
    rw [List.length_map, ← hl.keyCount] at this
    rw [List.map_insertIdx]
    exact this
  · unfold bptreeInsertIntoLeaf
    have hcount : ¬ BPTREE_MAX_KEYS ≤ n.keyCount := by rw [hl.keyCount]; omega
    simp only [TreeState.load, hn, Option.bind_eq_bind, Option.bind_some, hl.isLeaf, hcount,
      Bool.not_true, Bool.false_or, decide_false, Bool.false_eq_true, if_false]
    rw [TreeState.modify_of_lt _ (List.getElem?_eq_some_iff.mp hn).1, Option.bind_some,
      modify_eq_set _ hn, leafInsertIndex_eq hl]
    simp only [hl.isLeaf]

theorem bptreeSplitLeaf_refused {leaf : Addr} {es : List (Int × Int)} {rest : List Bool}
    (hn : s.nodes[leaf]? = some n) (hl : LeafNode n p es) (hc : calloc s.callocs = (false, rest))
    (fuel : Nat) (key row : Int) :
    bptreeSplitLeaf fuel s leaf key row = some (.noMemory, { s with callocs := rest }) := by
  simp [bptreeSplitLeaf, TreeState.load, hn, hl.isLeaf, bptreeCreateNode, hc]

/-- The merged arrays of `bptree_split_leaf` hold 32 entries. -/
structure MergedLeaf (tempKeys tempRows : Vector Int (BPTREE_MAX_KEYS + 1)) (es : List (Int × Int)) :
    Prop where
  keyCount : es.length = 32
  keys : Holds tempKeys (es.map Prod.fst)
  rowIndices : Holds tempRows (es.map Prod.snd)

/-- The leaf with the lower half of the merged arrays, linked to the new leaf. -/
def BPTreeNode.lowerLeaf (n : BPTreeNode) (tempKeys tempRows : Vector Int (BPTREE_MAX_KEYS + 1))
    (newLeaf : Addr) : BPTreeNode :=
  { n with
    keys := copyDown tempKeys 16 0 0 n.keys
    rowIndices := copyDown tempRows 16 0 0 n.rowIndices
    keyCount := 16
    next := some newLeaf }

/-- The new leaf, with the upper half. -/
def upperLeaf (tempKeys tempRows : Vector Int (BPTREE_MAX_KEYS + 1)) (next parent : Option Addr) :
    BPTreeNode :=
  { BPTreeNode.blank true with
    keys := copyDown tempKeys 16 16 0 (BPTreeNode.blank true).keys
    rowIndices := copyDown tempRows 16 16 0 (BPTreeNode.blank true).rowIndices
    keyCount := 16
    next := next
    parent := parent }

theorem LeafNode.merged {es : List (Int × Int)} (hl : LeafNode n p es)
    (hlen : es.length = BPTREE_MAX_KEYS) {i : Nat} (hi : i ≤ es.length) (key row : Int) :
    MergedLeaf (splice n.keys i key 32 0 0 (Vector.replicate _ 0))
      (splice n.rowIndices i row 32 0 0 (Vector.replicate _ 0)) (es.insertIdx i (key, row)) := by
  refine ⟨?_, ?_, ?_⟩
  · rw [List.length_insertIdx_of_le_length hi, hlen]
  · have := hl.keys.splice i key (by simpa using hi) (Vector.replicate (BPTREE_MAX_KEYS + 1) 0)
      (by simp [hlen])
    rw [List.length_map, hlen] at this
    rw [List.map_insertIdx]
    exact this
  · have := hl.rowIndices.splice i row (by simpa using hi)
      (Vector.replicate (BPTREE_MAX_KEYS + 1) 0) (by simp [hlen])
    rw [List.length_map, hlen] at this
    rw [List.map_insertIdx]
    exact this

section Halves

variable {tempKeys tempRows : Vector Int (BPTREE_MAX_KEYS + 1)} {es : List (Int × Int)}

theorem MergedLeaf.lowerLeaf (hm : MergedLeaf tempKeys tempRows es) (hleaf : n.isLeaf = true)
    (hparent : n.parent = p) (newLeaf : Addr) :
    LeafNode (n.lowerLeaf tempKeys tempRows newLeaf) p (es.take 16) := by
  refine ⟨hleaf, hparent, by simp [BPTreeNode.lowerLeaf, hm.keyCount], ?_, ?_⟩
  · have := hm.keys.copyDown 16 0 n.keys (by decide)
    rwa [List.drop_zero, ← List.map_take] at this
  · have := hm.rowIndices.copyDown 16 0 n.rowIndices (by decide)
    rwa [List.drop_zero, ← List.map_take] at this

theorem MergedLeaf.upperLeaf (hm : MergedLeaf tempKeys tempRows es) (next p : Option Addr) :
    LeafNode (upperLeaf tempKeys tempRows next p) p (es.drop 16) := by
  have hdrop : (es.drop 16).take 16 = es.drop 16 := List.take_of_length_le (by simp [hm.keyCount])
  refine ⟨rfl, rfl, by simp [JungleDb.upperLeaf, hm.keyCount], ?_, ?_⟩
  · have := hm.keys.copyDown 16 16 (BPTreeNode.blank true).keys (by decide)
    rwa [← List.map_drop, ← List.map_take, hdrop] at this
  · have := hm.rowIndices.copyDown 16 16 (BPTreeNode.blank true).rowIndices (by decide)
    rwa [← List.map_drop, ← List.map_take, hdrop] at this

/-- The key that is handed up is the first of the new leaf. -/
theorem MergedLeaf.separator (hm : MergedLeaf tempKeys tempRows es) (next p : Option Addr) :
    rd (JungleDb.upperLeaf tempKeys tempRows next p).keys 0 = (es[16]?.map Prod.fst).getD 0 := by
  have hlen := hm.keyCount
  rw [(hm.upperLeaf next p).keys 0 (by simp [hlen]), List.getElem?_eq_getElem (by omega)]
  simp

end Halves

/-- Splitting a full leaf leaves its lower half in place, moves the upper half to the new node
and links the new node after it. -/
theorem bptreeSplitLeaf_granted {leaf : Addr} {es : List (Int × Int)} {rest : List Bool}
    (hn : s.nodes[leaf]? = some n) (hl : LeafNode n p es) (hlen : es.length = BPTREE_MAX_KEYS)
    (hc : calloc s.callocs = (true, rest)) (fuel : Nat) (key row : Int) :
    let all := es.insertIdx (slot es key) (key, row)
    ∃ l r, LeafNode l p (all.take 16) ∧ LeafNode r p (all.drop 16) ∧
      l.next = some s.nodes.length ∧ r.next = n.next ∧
      bptreeSplitLeaf fuel s leaf key row = bptreeInsertIntoParent fuel
        { s with nodes := s.nodes.set leaf l ++ [r], callocs := rest } leaf
        ((all[16]?.map Prod.fst).getD 0) s.nodes.length := by
  intro all
  have hm := hl.merged hlen (slot_le es key) key row
  refine ⟨_, _, hm.lowerLeaf hl.isLeaf hl.parent s.nodes.length, hm.upperLeaf n.next p, rfl, rfl, ?_⟩
  have hlt : leaf < s.nodes.length := (List.getElem?_eq_some_iff.mp hn).1
  have hcount : n.keyCount = 31 := hl.keyCount.trans hlen
  have hset : s.nodes ++ [BPTreeNode.blank true] = s.nodes.set leaf n ++ [BPTreeNode.blank true] := by
    rw [set_eq_self hn]
  unfold bptreeSplitLeaf BPTreeNode.lowerLeaf
  simp only [TreeState.load, hn, Option.bind_eq_bind, Option.bind_some, hl.isLeaf,
    bptreeCreateNode, hc, Bool.not_true, Bool.false_eq_true, if_false, hcount,
    leafInsertIndex_eq hl]
  rw [hset]
  simp only [modify_old _ _ _ _ _ hlt, modify_new, load_old _ _ hlt, load_new, Option.bind_some,
    hl.isLeaf]
  rw [← hm.separator n.next p, ← hl.parent]
  rfl

theorem bptreeInsertIntoInternal_eq {a i right : Nat} {ks : List Int} {cs : List Addr}
    {m : BPTreeNode} (hn : s.nodes[a]? = some n) (hi : InternalNode n p ks cs)
    (hlen : ks.length < BPTREE_MAX_KEYS) (hik : i ≤ ks.length) (hra : right ≠ a)
    (hr : s.nodes[right]? = some m) (hm : m.parent = some a) (key : Int) :
    ∃ n', InternalNode n' p (ks.insertIdx i key) (cs.insertIdx (i + 1) right) ∧ n'.next = n.next ∧
      bptreeInsertIntoInternal s a i key right =
        some { s with nodes := s.nodes.set a n' } := by
  have hcs := hi.arity
  have hic : i + 1 ≤ cs.length := by omega
  have hlt : a < s.nodes.length := (List.getElem?_eq_some_iff.mp hn).1
  have hrlt : right < s.nodes.length := (List.getElem?_eq_some_iff.mp hr).1
  let n₁ : BPTreeNode := { n with
    keys := wr (shiftUp i n.keyCount n.keys) i key
    children := wr (shiftUp (i + 1) (n.keyCount + 1) n.children) (i + 1) (some right) }
  refine ⟨{ n₁ with keyCount := n.keyCount + 1 }, ⟨hi.isLeaf, hi.parent, ?_, ?_, ?_, ?_⟩, rfl, ?_⟩
  · rw [List.length_insertIdx_of_le_length hik, ← hi.keyCount]
  · rw [List.length_insertIdx_of_le_length hik, List.length_insertIdx_of_le_length hic, hcs]
  · have := hi.keys.insert i key hik hlen
    rwa [← hi.keyCount] at this
  · have := hi.children.insert (i + 1) right hic (by omega)
    rwa [hcs, ← hi.keyCount] at this
  · have hr' : (s.nodes.set a n₁)[right]? = some m := by rw [List.getElem?_set_ne (Ne.symm hra), hr]
    have hsame : ((s.nodes.set a n₁).modify right (·.withParent (some a))) = s.nodes.set a n₁ := by
      rw [modify_eq_set _ hr', BPTreeNode.withParent_self hm, set_eq_self hr']
    unfold bptreeInsertIntoInternal
    simp only [Option.bind_eq_bind]
    rw [TreeState.modify_of_lt _ hlt, Option.bind_some, modify_eq_set _ hn,
      TreeState.modify_of_lt _ (by simpa using hrlt), Option.bind_some]
    change TreeState.modify { s with
      nodes := (s.nodes.set a n₁).modify right (·.withParent (some a)) } a _ = _
    rw [hsame, TreeState.modify_of_lt _ (by simpa using hlt),
      modify_eq_set _ (List.getElem?_set_self hlt)]
    simp only [List.set_set]
    rfl

theorem bptreeSplitInternal_refused {a i right : Nat} {ks : List Int} {cs : List Addr}
    {rest : List Bool} (hn : s.nodes[a]? = some n) (hi : InternalNode n p ks cs)
    (hc : calloc s.callocs = (false, rest)) (key : Int)
    (f : TreeState → Addr → Int → Addr → Option (InsertExit × TreeState)) :
    bptreeSplitInternal f s a i key right = some (.noMemory, { s with callocs := rest }) := by
  simp [bptreeSplitInternal, TreeState.load, hn, hi.isLeaf, bptreeCreateNode, hc]

end Updates

/-! ## The split of an internal node -/

section Split

variable {s : TreeState} {n : BPTreeNode} {p : Option Addr} {a : Nat} {ks : List Int} {cs : List Addr}
  {tempKeys : Vector Int (BPTREE_MAX_KEYS + 1)}
  {tempChildren : Vector (Option Addr) (BPTREE_MAX_KEYS + 2)}

/-- The merged arrays of `bptree_split_internal` hold 32 keys and 33 children. -/
structure Merged (tempKeys : Vector Int (BPTREE_MAX_KEYS + 1))
    (tempChildren : Vector (Option Addr) (BPTREE_MAX_KEYS + 2)) (ks : List Int) (cs : List Addr) :
    Prop where
  keyCount : ks.length = 32
  arity : cs.length = 33
  keys : Holds tempKeys ks
  children : ∀ j, j < 33 → rd tempChildren j = cs[j]?

/-- The node with the lower half of the merged arrays. -/
def BPTreeNode.lowerHalf (n : BPTreeNode) (tempKeys : Vector Int (BPTREE_MAX_KEYS + 1))
    (tempChildren : Vector (Option Addr) (BPTREE_MAX_KEYS + 2)) : BPTreeNode :=
  { n with
    keys := copyDown tempKeys 16 0 0 n.keys
    children := wr (copyDown tempChildren 16 0 0 (Vector.replicate _ none)) 16 (rd tempChildren 16)
    keyCount := 16 }

/-- The new node, with the upper half. -/
def upperHalf (tempKeys : Vector Int (BPTREE_MAX_KEYS + 1))
    (tempChildren : Vector (Option Addr) (BPTREE_MAX_KEYS + 2)) (parent : Option Addr) : BPTreeNode :=
  { BPTreeNode.blank false with
    keys := copyDown tempKeys 15 17 0 (BPTreeNode.blank false).keys
    children := copyDown tempChildren 16 17 0 (BPTreeNode.blank false).children
    keyCount := 15
    parent := parent }

theorem InternalNode.merged {i : Nat} (hi : InternalNode n p ks cs)
    (hlen : ks.length = BPTREE_MAX_KEYS) (hik : i ≤ ks.length) (key : Int) (right : Nat) :
    Merged (splice n.keys i key 32 0 0 (Vector.replicate _ 0))
      (splice n.children (i + 1) (some right) 33 0 0 (Vector.replicate _ none))
      (ks.insertIdx i key) (cs.insertIdx (i + 1) right) := by
  have hic : i + 1 ≤ cs.length := by
    have := hi.arity
    omega
  have hcs : (cs.insertIdx (i + 1) right).length = 33 := by
    rw [List.length_insertIdx_of_le_length hic, hi.arity, hlen]
  refine ⟨?_, hcs, ?_, fun j hj => ?_⟩
  · rw [List.length_insertIdx_of_le_length hik, hlen]
  · have := hi.keys.splice i key hik (Vector.replicate (BPTREE_MAX_KEYS + 1) 0) (by simp [hlen])
    rw [hlen] at this
    exact this
  · have := hi.children.holds.splice (i + 1) (some right) (by simpa using hic)
      (Vector.replicate (BPTREE_MAX_KEYS + 2) none) (by simp [hi.arity, hlen])
    rw [List.length_map, hi.arity, hlen] at this
    have hj' := this j (by
      rw [← List.map_insertIdx, List.length_map]
      exact hj.trans_eq hcs.symm)
    rw [hj', List.getElem?_eq_getElem (by omega)]
    simp only [← List.map_insertIdx, List.getElem_map]

/-- The key that is handed up. -/
theorem Merged.promoted (hm : Merged tempKeys tempChildren ks cs) :
    rd tempKeys 16 = ks[16]?.getD 0 := by
  have hks : 16 < ks.length := by
    rw [hm.keyCount]
    decide
  rw [hm.keys 16 hks, List.getElem?_eq_getElem hks, Option.getD_some]

theorem Merged.lowerHalf (hm : Merged tempKeys tempChildren ks cs) (hleaf : n.isLeaf = false)
    (hparent : n.parent = p) :
    InternalNode (n.lowerHalf tempKeys tempChildren) p (ks.take 16) (cs.take 17) := by
  have hks := hm.keyCount
  have hcs := hm.arity
  refine ⟨hleaf, hparent, by simp [BPTreeNode.lowerHalf, hks], by simp [hks, hcs],
    hm.keys.copyDown 16 0 n.keys (by decide), fun j => ?_⟩
  unfold BPTreeNode.lowerHalf
  rw [rd_wr _ _ _ _ (by decide), rd_copyDown _ _ _ _ _ _ (by decide), List.getElem?_take]
  by_cases hj : j = 16
  · subst hj
    rw [if_pos rfl, if_pos (by omega), hm.children 16 (by omega)]
  · rw [if_neg hj]
    by_cases hj' : j < 16
    · rw [if_pos (by omega), if_pos (by omega), Nat.sub_zero, Nat.zero_add, hm.children j (by omega)]
    · rw [if_neg (by omega), if_neg (by omega)]
      exact rd_replicate j

theorem Merged.upperHalf (hm : Merged tempKeys tempChildren ks cs) (p : Option Addr) :
    InternalNode (upperHalf tempKeys tempChildren p) p (ks.drop 17) (cs.drop 17) := by
  have hks := hm.keyCount
  have hcs := hm.arity
  refine ⟨rfl, rfl, by simp [JungleDb.upperHalf, hks], by simp [hks, hcs], ?_, fun j => ?_⟩
  · have := hm.keys.copyDown 15 17 (BPTreeNode.blank false).keys (by decide)
    rwa [List.take_of_length_le (by simp [hks])] at this
  · unfold JungleDb.upperHalf
    rw [rd_copyDown _ _ _ _ _ _ (by decide), List.getElem?_drop]
    by_cases hj : j < 16
    · rw [if_pos (by omega), Nat.sub_zero, hm.children _ (by omega)]
    · rw [if_neg (by omega), List.getElem?_eq_none (by omega)]
      exact rd_replicate j

/-- Addresses of nodes that are there and are not the node that is split. -/
def Apart (s : TreeState) (a : Addr) (cs : List Addr) : Prop :=
  ∀ c ∈ cs, c < s.nodes.length ∧ c ≠ a

theorem Apart.old (h : Apart s a cs) : a ∉ cs := fun hmem => (h a hmem).2 rfl

theorem Apart.new (h : Apart s a cs) : s.nodes.length ∉ cs := fun hmem =>
  Nat.lt_irrefl _ (h _ hmem).1

theorem Apart.nil : Apart s a [] := nofun

/-- The memory in the course of the split: the nodes are `l` and `r`, the children `lc` have been
pointed to the first and `rc` to the second. -/
def splitState (s : TreeState) (a : Addr) (lc rc : List Addr) (l r : BPTreeNode) : TreeState :=
  { s with nodes := reparent rc s.nodes.length (reparent lc a (s.nodes.set a l ++ [r])) }

section State

variable {lc rc : List Addr} (l r : BPTreeNode) (f : BPTreeNode → BPTreeNode)

theorem length_splitState : (splitState s a lc rc l r).nodes.length = s.nodes.length + 1 := by
  simp [splitState]

theorem splitState_start (hn : s.nodes[a]? = some n) :
    TreeState.modify { s with nodes := s.nodes ++ [r] } a f =
      some (splitState s a [] [] (f n) r) := by
  have hset : s.nodes ++ [r] = s.nodes.set a n ++ [r] := by rw [set_eq_self hn]
  rw [hset, modify_old _ _ _ _ _ (List.getElem?_eq_some_iff.mp hn).1]
  rfl

theorem splitState_modify_old (ha : a < s.nodes.length) (hlc : Apart s a lc) :
    (splitState s a lc [] l r).nodes.modify a f = (splitState s a lc [] (f l) r).nodes := by
  simp only [splitState, reparent_nil, modify_reparent _ _ hlc.old, pair_modify_old _ _ _ ha]

theorem splitState_modify_new (hlc : Apart s a lc) (hrc : Apart s a rc) :
    (splitState s a lc rc l r).modify s.nodes.length f = some (splitState s a lc rc l (f r)) := by
  rw [TreeState.modify_of_lt _ (by rw [length_splitState]; exact Nat.lt_succ_self _)]
  simp only [splitState, modify_reparent _ _ hlc.new, modify_reparent _ _ hrc.new, pair_modify_new]

theorem splitState_load (ha : a < s.nodes.length) (hlc : Apart s a lc) (hrc : Apart s a rc) :
    (splitState s a lc rc l r).load a = some l := by
  simp only [TreeState.load, splitState, getElem?_reparent, if_neg hlc.old, if_neg hrc.old]
  exact load_old _ _ ha

theorem splitState_refillLeft {k : Nat} (ha : a < s.nodes.length) (hlc : Apart s a lc)
    (hk : lc.length = k)
    (hrd : ∀ (j : Nat) (h : j < lc.length), rd tempChildren (0 + j) = some lc[j]) :
    refillLeft tempKeys tempChildren a k 0 (splitState s a [] [] l r) =
      some (splitState s a lc [] { l with
        keys := copyDown tempKeys k 0 0 l.keys
        children := copyDown tempChildren k 0 0 l.children
        keyCount := l.keyCount + k } r) := by
  subst hk
  have hsize : s.nodes.length < (splitState s a [] [] l r).nodes.length := by
    rw [length_splitState]
    exact Nat.lt_succ_self _
  rw [refillLeft_eq _ _ _ lc 0 _ (ha.trans hsize) (fun d hd => ⟨(hlc d hd).1.trans hsize, (hlc d hd).2⟩)
    hrd, splitState_modify_old _ _ _ ha .nil]
  rfl

theorem splitState_setChild (ha : a < s.nodes.length) (hlc : Apart s a lc) {c : Addr}
    (hc : c < s.nodes.length) (i : Nat) :
    setChild (splitState s a lc [] l r) a i (some c) =
      some (splitState s a (lc ++ [c]) [] { l with children := wr l.children i (some c) } r) := by
  have hsize : s.nodes.length < (splitState s a lc [] l r).nodes.length := by
    rw [length_splitState]
    exact Nat.lt_succ_self _
  rw [setChild_some _ (ha.trans hsize) (hc.trans hsize), splitState_modify_old _ _ _ ha hlc]
  simp only [splitState, reparent, List.foldl_append]
  rfl

theorem splitState_fillRight {k i : Nat} (hlc : Apart s a lc) (hrc : Apart s a rc)
    (hk : rc.length = k)
    (hrd : ∀ (j : Nat) (h : j < rc.length), rd tempChildren (i + j) = some rc[j]) :
    fillRight tempChildren s.nodes.length k i 0 (splitState s a lc [] l r) =
      some (splitState s a lc rc l { r with
        children := copyDown tempChildren k i 0 r.children }) := by
  subst hk
  have hsize : s.nodes.length < (splitState s a lc [] l r).nodes.length := by
    rw [length_splitState]
    exact Nat.lt_succ_self _
  rw [fillRight_eq _ _ rc i 0 _ hsize
    (fun d hd => ⟨(hrc d hd).1.trans hsize, Nat.ne_of_lt (hrc d hd).1⟩) hrd]
  simp only [splitState, reparent_nil, modify_reparent _ _ hlc.new, pair_modify_new]

end State

/-- The steps of `bptree_split_internal` on the two nodes, once the merged arrays are there. -/
theorem splitInternal_halves (hm : Merged tempKeys tempChildren ks cs) (hn : s.nodes[a]? = some n)
    (hcs : Apart s a cs) :
    (do
      let t ← TreeState.modify { s with nodes := s.nodes ++ [.blank false] } a fun n => { n with
        keyCount := 0, children := Vector.replicate _ none }
      let t ← refillLeft tempKeys tempChildren a 16 0 t
      let t ← setChild t a 16 (rd tempChildren 16)
      let t ← t.modify s.nodes.length fun n => { n with
        keys := copyDown tempKeys 15 17 0 n.keys
        keyCount := n.keyCount + 15 }
      let t ← fillRight tempChildren s.nodes.length 16 17 0 t
      let l ← t.load a
      t.modify s.nodes.length fun r => { r with parent := l.parent }) =
    some (splitState s a (cs.take 17) (cs.drop 17) (n.lowerHalf tempKeys tempChildren)
      (upperHalf tempKeys tempChildren n.parent)) := by
  have ha : a < s.nodes.length := (List.getElem?_eq_some_iff.mp hn).1
  have harity := hm.arity
  obtain ⟨c, hc⟩ : ∃ c, cs[16]? = some c := ⟨_, List.getElem?_eq_getElem (by omega)⟩
  have hsixteen : cs.take 17 = cs.take 16 ++ [c] := by
    rw [List.take_add_one, hc]
    rfl
  have hlower : (cs.take 16).length = 16 := by
    rw [List.length_take, harity]
    rfl
  have hupper : (cs.drop 17).length = 16 := by
    rw [List.length_drop, harity]
  have hlc : Apart s a (cs.take 17) := fun d hd => hcs d (List.mem_of_mem_take hd)
  have hlc' : Apart s a (cs.take 16) := fun d hd => hcs d (List.mem_of_mem_take hd)
  have hrc : Apart s a (cs.drop 17) := fun d hd => hcs d (List.mem_of_mem_drop hd)
  have hlast : c < s.nodes.length := (hcs c (List.mem_of_getElem? hc)).1
  simp only [Option.bind_eq_bind]
  rw [splitState_start _ _ hn, Option.bind_some,
    splitState_refillLeft _ _ ha hlc' hlower fun j hj => ?_, Option.bind_some,
    hm.children 16 (by decide), hc, splitState_setChild _ _ ha hlc' hlast, Option.bind_some,
    ← hsixteen, splitState_modify_new _ _ _ hlc .nil, Option.bind_some,
    splitState_fillRight _ _ hlc hrc hupper fun j hj => ?_, Option.bind_some,
    splitState_load _ _ ha hlc hrc, Option.bind_some, splitState_modify_new _ _ _ hlc hrc]
  · unfold BPTreeNode.lowerHalf upperHalf
    rw [hm.children 16 (by decide), hc]
    rfl
  · rw [hm.children _ (by omega), ← List.getElem?_eq_getElem hj, List.getElem?_drop]
  · rw [Nat.zero_add, hm.children j (by omega), ← List.getElem?_eq_getElem hj,
      List.getElem?_take_of_lt (by omega)]

/-- Splitting a full internal node leaves its lower half in place, moves the upper half to the new
node, points the children of each half to it and hands the key between them up. -/
theorem bptreeSplitInternal_granted {i right : Nat} {rest : List Bool} (hn : s.nodes[a]? = some n)
    (hi : InternalNode n p ks cs) (hlen : ks.length = BPTREE_MAX_KEYS) (hik : i ≤ ks.length)
    (hlt : ∀ c ∈ cs.insertIdx (i + 1) right, c < s.nodes.length ∧ c ≠ a)
    (hc : calloc s.callocs = (true, rest)) (key : Int)
    (f : TreeState → Addr → Int → Addr → Option (InsertExit × TreeState)) :
    let ks' := ks.insertIdx i key
    let cs' := cs.insertIdx (i + 1) right
    ∃ l r, InternalNode l p (ks'.take 16) (cs'.take 17) ∧
      InternalNode r p (ks'.drop 17) (cs'.drop 17) ∧ l.next = n.next ∧
      bptreeSplitInternal f s a i key right = f
        { s with
          nodes := reparent (cs'.drop 17) s.nodes.length
            (reparent (cs'.take 17) a (s.nodes.set a l ++ [r]))
          callocs := rest }
        a (ks'[16]?.getD 0) s.nodes.length := by
  intro ks' cs'
  have hm := hi.merged hlen hik key right
  refine ⟨_, _, hm.lowerHalf hi.isLeaf hi.parent, hm.upperHalf p, rfl, ?_⟩
  have hcount : n.keyCount = 31 := hi.keyCount.trans hlen
  have hload : s.load a = some n := hn
  have hhalves := splitInternal_halves (s := { s with callocs := rest }) hm hn hlt
  have hrun := congrArg
    (fun halves => Option.bind halves fun t => f t a (ks'[16]?.getD 0) s.nodes.length) hhalves
  simp only [Option.bind_eq_bind, Option.bind_assoc, Option.bind_some] at hrun
  unfold bptreeSplitInternal
  simp only [hload, Option.bind_eq_bind, Option.bind_some, hi.isLeaf, bptreeCreateNode, hc,
    Bool.false_eq_true, if_false, hcount, Nat.reduceAdd, Nat.reduceDiv, Nat.reduceSub]
  rw [hi.parent] at hrun
  rw [hm.promoted]
  exact hrun

end Split

end JungleDb
