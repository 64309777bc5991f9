import Mathlib.Data.List.Nodup
import Mathlib.Data.List.Perm.Subperm
import JungleDb.Bptree.Repr

/-!
# `bptree.c` refines the abstract tree

On a memory that holds an abstract tree, `bptree_find_leaf` and `bptree_search` find what is in
the tree, and the work that `bptree_insert` does from the leaf up is `Tree.insert`: level by level
the call either returns, or goes on as the call of `bptree_insert_into_parent` that links the two
halves of the subtree.
-/

namespace JungleDb

open CArray Fence

/-! ## Finding a key -/

/-- The leaf that a key is routed to decides about the key. -/
theorem Tree.WF.leafFor {key : Int} : ∀ {h : Nat} {root : Bool} {lo : WithBot Int}
    {hi : WithTop Int} {t : Tree h}, t.WF root lo hi → Within lo hi key →
      ∃ a es, t.leafFor key = some a ∧ (a, es) ∈ t.leaves ∧ es.lookup key = t.entries.lookup key
  | 0, _, _, _, .leaf a es, _, _ => ⟨a, es, rfl, List.mem_cons_self, rfl⟩
  | h + 1, _, _, _, .node a ks cs, hw, hk => by
    obtain ⟨lk, rk, ls, c, rs, lo', hi', rfl, rfl, hole⟩ :=
      Fenced.hole (fun _ _ _ hc => Tree.WF.spread hc) (Tree.wf_node.mp hw).2.2.2 hk
    obtain ⟨a', es, hfor, hmem, hlook⟩ := hole.child.leafFor hole.within
    have hne : ∀ {cs : List (Tree h)}, key ∉ cs.flatMap Tree.keys →
        (cs.flatMap Tree.entries).lookup key = none := fun {cs} hn => by
      refine lookup_eq_none_of_forall_ne fun e he hek => hn ?_
      obtain ⟨d, hd, he⟩ := List.mem_flatMap.mp he
      exact List.mem_flatMap.mpr ⟨d, hd, hek ▸ List.mem_map_of_mem he⟩
    refine ⟨a', es, ?_, ?_, ?_⟩
    · rw [Tree.leafFor_node (hole.routed.trans hole.left.symm), hfor]
    · rw [Tree.leaves_node, List.flatMap_append, List.flatMap_cons]
      exact List.mem_append_right _ (List.mem_append_left _ hmem)
    · rw [Tree.entries_node, List.flatMap_append, List.flatMap_cons, List.lookup_append,
        List.lookup_append, hne fun hx => lt_irrefl key (hole.before key hx),
        hne fun hx => lt_irrefl key (hole.after key hx), hlook]
      cases c.entries.lookup key <;> rfl

section Find

variable {nodes : List BPTreeNode} {key : Int}

theorem bptreeFindLeaf_eq : ∀ {h : Nat} {root : Bool} {lo : WithBot Int} {hi : WithTop Int}
    {p : Option Addr} {t : Tree h}, t.WF root lo hi → Within lo hi key → Rep nodes p t →
      ∀ {fuel : Nat}, h ≤ fuel → bptreeFindLeaf nodes fuel (some t.addr) key = some (t.leafFor key)
  | 0, _, _, _, _, .leaf a es, _, _, ⟨n, hn, hleaf⟩, fuel, _ => by
    rw [bptreeFindLeaf.eq_def]
    simp only [Tree.addr_leaf, hn, Option.bind_eq_bind, Option.bind_some, hleaf.isLeaf, if_true]
    rfl
  | h + 1, _, _, _, _, .node a ks cs, hw, hk, ⟨⟨n, hn, hint⟩, hcs⟩, fuel, hf => by
    obtain ⟨lk, rk, ls, c, rs, lo', hi', rfl, rfl, hole⟩ :=
      Fenced.hole (fun _ _ _ hc => Tree.WF.spread hc) (Tree.wf_node.mp hw).2.2.2 hk
    have hroute := hole.routed.trans hole.left.symm
    obtain ⟨fuel, rfl⟩ : ∃ f, fuel = f + 1 := ⟨fuel - 1, by omega⟩
    have hidx : (List.range n.keyCount).findIdx (fun i => decide (key < rd n.keys i)) =
        ls.length := by
      rw [hint.keyCount, hint.keys.findIdx fun k => decide (key < k)]
      exact hroute
    have hchild : rd n.children ls.length = some c.addr := by
      rw [hint.children, List.map_append, List.getElem?_append_right (by simp)]
      simp
    rw [bptreeFindLeaf.eq_def]
    simp only [Tree.addr_node, hn, Option.bind_eq_bind, Option.bind_some, hint.isLeaf,
      Bool.false_eq_true, if_false, hidx, hchild]
    rw [bptreeFindLeaf_eq hole.child hole.within (hcs c (by simp)) (by omega),
      Tree.leafFor_node hroute]

end Find

/-! ## Whole trees -/

/-- The tree `b` in memory is the well-formed abstract tree `t`. -/
structure Stores (b : Bptree) {h : Nat} (t : Tree h) : Prop where
  root : b.root = some t.addr
  rep : Rep b.nodes none t
  wf : t.WF true ⊥ ⊤
  nodup : t.addrs.Nodup

theorem Tree.WF.height_lt : ∀ {h : Nat} {root : Bool} {lo : WithBot Int} {hi : WithTop Int}
    {t : Tree h}, t.WF root lo hi → h < t.addrs.length
  | 0, _, _, _, .leaf _ _, _ => Nat.one_pos
  | h + 1, _, _, _, .node a ks cs, hw => by
    have hf := (Tree.wf_node.mp hw).2.2.2
    have hlen := hf.length
    obtain ⟨c, cs, rfl⟩ := List.exists_cons_of_length_eq_add_one hlen
    have hc := (hf.getElem 0 c rfl).height_lt
    rw [Tree.addrs_node, List.length_cons, List.flatMap_cons, List.length_append]
    omega

/-- There are at most as many levels as nodes. -/
theorem Stores.height_lt {b : Bptree} {h : Nat} {t : Tree h} (hs : Stores b t) :
    h < b.nodes.length := by
  have hsub : t.addrs ⊆ List.range b.nodes.length := fun a ha =>
    List.mem_range.mpr (hs.rep.lt a ha)
  have hle := (List.subperm_of_subset hs.nodup hsub).length_le
  rw [List.length_range] at hle
  exact Nat.lt_of_lt_of_le hs.wf.height_lt hle

theorem Stores.findLeaf {b : Bptree} {h : Nat} {t : Tree h} (hs : Stores b t) (key : Int) :
    bptreeFindLeaf b.nodes b.nodes.length b.root key = some (t.leafFor key) := by
  rw [hs.root]
  exact bptreeFindLeaf_eq hs.wf (within_univ key) hs.rep hs.height_lt.le

/-- `bptree_search` looks the key up among the entries. -/
theorem Stores.search {b : Bptree} {h : Nat} {t : Tree h} (hs : Stores b t) (key : Int) :
    bptreeSearch b key = some (t.entries.lookup key) := by
  obtain ⟨a, es, hfor, hmem, hlook⟩ := hs.wf.leafFor (within_univ key)
  obtain ⟨n, q, hn, hleaf⟩ := hs.rep.leaf_mem hmem
  unfold bptreeSearch
  rw [hs.findLeaf, hfor, ← hlook, ← hleaf.keys.lookup hleaf.rowIndices key]
  simp only [Option.bind_eq_bind, Option.bind_some, hn, hleaf.keyCount]
  split <;> rename_i heq <;> rw [heq] <;> rfl

/-! ## From the leaf up -/

/-- What `bptree_insert` does once it has found the leaf. -/
def insertAtLeaf (fuel : Nat) (s : TreeState) (leaf : Addr) (key row : Int) :
    Option (InsertExit × TreeState) := do
  let n ← s.load leaf
  if n.keyCount < BPTREE_MAX_KEYS then bptreeInsertIntoLeaf s leaf key row
  else bptreeSplitLeaf fuel s leaf key row

/-- The next pointer of a node. -/
def nextOf (nodes : List BPTreeNode) (a : Nat) : Option (Option Addr) := nodes[a]?.map (·.next)

/-- Writing a node back with its next pointer keeps all of them. -/
theorem nextOf_set {nodes : List BPTreeNode} {a : Nat} {n n' : BPTreeNode} (hn : nodes[a]? = some n)
    (hnext : n'.next = n.next) (b : Nat) : nextOf (nodes.set a n') b = nextOf nodes b := by
  have hlt : a < nodes.length := (List.getElem?_eq_some_iff.mp hn).1
  by_cases hb : a = b
  · subst hb
    rw [nextOf, nextOf, List.getElem?_set_self hlt, hn, Option.map_some, Option.map_some, hnext]
  · rw [nextOf, nextOf, List.getElem?_set_ne hb]

/-- The next pointers are as they were, or a new node is linked in after `leaf`. -/
def Linked (nodes nodes' : List BPTreeNode) (leaf : Nat) : Prop :=
  if nodes'.length = nodes.length then ∀ b < nodes.length, nextOf nodes' b = nextOf nodes b
  else (∀ b < nodes.length, b ≠ leaf → nextOf nodes' b = nextOf nodes b) ∧
    nextOf nodes' leaf = some (some nodes.length) ∧
    nextOf nodes' nodes.length = nextOf nodes leaf

/-- `run` is what is left to do after the outcome of an insertion into a subtree: nothing, or
linking its two halves. The subtree is in the memory of `s` below `p`. -/
def Returns (fuel : Nat) (run : Option (InsertExit × TreeState)) (s : TreeState)
    (p : Option Addr) {h : Nat} : Outcome h → Prop
  | .done t => run = some (.inserted, s) ∧ Rep s.nodes p t
  | .failed t => run = some (.noMemory, s) ∧ Rep s.nodes p t
  | .split l k r => run = bptreeInsertIntoParent fuel s l.addr k r.addr ∧
      Rep s.nodes p l ∧ Rep s.nodes p r

/-- The state `s'` is `s` after an insertion into the nodes `addrs`: it has the memory, the
allocator and the untouched nodes that the insertion leaves. -/
structure Stepped {h : Nat} (s s' : TreeState) (addrs : List Addr) (ins : Insertion h) : Prop where
  fresh : s'.nodes.length = ins.fresh
  callocs : s'.callocs = ins.callocs
  root : s'.root = s.root
  frame : ∀ b < s.nodes.length, b ∉ addrs → s'.nodes[b]? = s.nodes[b]?

/-! ### At the leaf -/

theorem insertAtLeaf_refines {s : TreeState} {p : Option Addr} {a : Addr} {es : List (Int × Int)}
    (hle : es.length ≤ BPTREE_MAX_KEYS) (hrep : Rep s.nodes p (Tree.leaf a es))
    (key row : Int) (fuel : Nat) :
    let ins := leafInsert a es key row s.nodes.length s.callocs
    ∃ s', Stepped s s' [a] ins ∧ Linked s.nodes s'.nodes a ∧
      Returns fuel (insertAtLeaf fuel s a key row) s' p ins.outcome := by
  obtain ⟨n, hn, hleaf⟩ := rep_leaf.mp hrep
  have hlt : a < s.nodes.length := (List.getElem?_eq_some_iff.mp hn).1
  unfold insertAtLeaf leafInsert
  simp only [TreeState.load, hn, Option.bind_eq_bind, Option.bind_some, hleaf.keyCount]
  by_cases hfull : es.length < BPTREE_MAX_KEYS
  · simp only [hfull, if_true]
    obtain ⟨n', hleaf', hnext, hrun⟩ := bptreeInsertIntoLeaf_eq hn hleaf hfull key row
    refine ⟨{ s with nodes := s.nodes.set a n' }, ⟨by simp, rfl, rfl, fun b hb hba => ?_⟩, ?_,
      hrun, ?_⟩
    · exact List.getElem?_set_ne (fun hab => hba (List.mem_singleton.mpr hab.symm))
    · rw [Linked, if_pos (List.length_set ..)]
      exact fun b _ => nextOf_set hn hnext b
    · exact ⟨n', List.getElem?_set_self hlt, hleaf'⟩
  · simp only [hfull, if_false]
    cases hc : calloc s.callocs with
    | mk granted rest =>
      cases granted with
      | false =>
        refine ⟨{ s with callocs := rest }, ⟨rfl, rfl, rfl, fun _ _ _ => rfl⟩, ?_,
          bptreeSplitLeaf_refused hn hleaf hc fuel key row, hrep⟩
        rw [Linked, if_pos rfl]
        exact fun _ _ => rfl
      | true =>
        obtain ⟨l, r, hl, hr, hlnext, hrnext, hrun⟩ := bptreeSplitLeaf_granted hn hleaf
          (le_antisymm hle (Nat.le_of_not_lt hfull)) hc fuel key row
        refine ⟨{ s with nodes := s.nodes.set a l ++ [r], callocs := rest },
          ⟨by simp, rfl, rfl, fun b hb hba => ?_⟩, ?_, hrun, ?_, ?_⟩
        · rw [List.getElem?_append_left (by simpa using hb)]
          exact List.getElem?_set_ne (fun hab => hba (List.mem_singleton.mpr hab.symm))
        · rw [Linked, if_neg (by simp)]
          refine ⟨fun b hb hba => ?_, ?_, ?_⟩
          · rw [nextOf, nextOf, List.getElem?_append_left (by simpa using hb),
              List.getElem?_set_ne (Ne.symm hba)]
          · rw [nextOf, load_old _ _ hlt, Option.map_some, hlnext]
          · rw [nextOf, nextOf, load_new, hn, Option.map_some, Option.map_some, hrnext]
        · exact ⟨l, load_old _ _ hlt, hl⟩
        · exact ⟨r, load_new _ _, hr⟩

/-! ### At an internal node -/

section Node

variable {h : Nat} {s : TreeState} {p : Option Addr} {a : Addr} {n : BPTreeNode} {ks : List Int}
  {ls rs : List (Tree h)} {c l r : Tree h}

theorem map_addr_insertIdx (hca : l.addr = c.addr) :
    ((ls ++ c :: rs).map Tree.addr).insertIdx (ls.length + 1) r.addr =
      (ls ++ l :: r :: rs).map Tree.addr := by
  have := insertIdx_append_length ((ls ++ [c]).map Tree.addr) (rs.map Tree.addr) r.addr
  rw [List.length_map, List.length_append, List.length_singleton] at this
  simpa [hca] using this

theorem bptreeFindChildIndex_eq (hint : InternalNode n p ks ((ls ++ c :: rs).map Tree.addr))
    (hls : c.addr ∉ ls.flatMap Tree.addrs) :
    bptreeFindChildIndex n c.addr = some ls.length := by
  have hlen := hint.arity
  simp only [List.length_map, List.length_append, List.length_cons] at hlen
  unfold bptreeFindChildIndex
  rw [List.find?_range_eq_some]
  refine ⟨?_, List.mem_range.mpr (by rw [hint.keyCount]; omega), fun j hj => ?_⟩
  · rw [hint.children, List.map_append, List.getElem?_append_right (by simp)]
    simp
  · rw [hint.children, List.map_append, List.getElem?_append_left (by simpa using hj),
      List.getElem?_map, List.getElem?_eq_getElem hj]
    simp only [Option.map_some, Bool.not_eq_eq_eq_not, Bool.not_true, beq_eq_false_iff_ne, ne_eq,
      Option.some.injEq]
    intro heq
    exact hls (List.mem_flatMap.mpr ⟨ls[j], List.getElem_mem hj, heq ▸ Tree.addr_mem_addrs _⟩)

/-- A node is in one of two disjoint lists of subtrees only. -/
theorem not_mem_of_mem_flatMap {cs ds : List (Tree h)} (hnd : ((cs ++ ds).flatMap Tree.addrs).Nodup)
    {b : Addr} (hb : b ∈ cs.flatMap Tree.addrs) : b ∉ ds.flatMap Tree.addrs := by
  rw [List.flatMap_append] at hnd
  exact fun hb' => (List.nodup_append.mp hnd).2.2 b hb b hb' rfl

theorem mem_flatMap_of_mem_map_addr {cs : List (Tree h)} {b : Addr} (hb : b ∈ cs.map Tree.addr) :
    b ∈ cs.flatMap Tree.addrs := by
  obtain ⟨c, hc, rfl⟩ := List.mem_map.mp hb
  exact List.mem_flatMap.mpr ⟨c, hc, Tree.addr_mem_addrs c⟩

/-- The subtree that a node belongs to is the only one whose top it can be. -/
theorem addr_eq_of_mem {cs : List (Tree h)} (hnd : (cs.flatMap Tree.addrs).Nodup) {c : Tree h}
    (hc : c ∈ cs) {b : Addr} (hb : b ∈ c.addrs) (hb' : b ∈ cs.map Tree.addr) : b = c.addr := by
  obtain ⟨d, hd, rfl⟩ := List.mem_map.mp hb'
  by_contra hne
  have hcd : d ≠ c := fun hdc => hne (by rw [hdc])
  have : Std.Symm (Function.onFun List.Disjoint (Tree.addrs (h := h))) :=
    ⟨fun _ _ hd _ hx hy => hd hy hx⟩
  exact (List.nodup_flatMap.mp hnd).2.forall hd hc hcd (Tree.addr_mem_addrs d) hb

/-- Children whose top nodes are given a parent, and no others of their nodes, are children of it. -/
theorem rep_reparented {nodes nodes' : List BPTreeNode} {cs : List (Tree h)} {parent : Addr}
    (hrep : ∀ d ∈ cs, Rep nodes p d) (hnd : (cs.flatMap Tree.addrs).Nodup)
    (hread : ∀ b ∈ cs.flatMap Tree.addrs, nodes'[b]? = if b ∈ cs.map Tree.addr then
      nodes[b]?.map (·.withParent (some parent)) else nodes[b]?) :
    ∀ d ∈ cs, Rep nodes' (some parent) d := by
  intro d hd
  have hmem : ∀ b ∈ d.addrs, b ∈ cs.flatMap Tree.addrs := fun b hb =>
    List.mem_flatMap.mpr ⟨d, hd, hb⟩
  refine (hrep d hd).reparent ((List.nodup_flatMap.mp hnd).1 d hd) (fun b hb hne => ?_) ?_
  · rw [hread b (hmem b hb), if_neg fun hb' => hne (addr_eq_of_mem hnd hd hb hb')]
  · rw [hread _ (hmem _ (Tree.addr_mem_addrs d)), if_pos (List.mem_map_of_mem hd)]

/-- Below a split node the children of each half are children of their own node. -/
theorem rep_of_split {nodes : List BPTreeNode} {cs : List (Tree h)} {x y : BPTreeNode}
    (hrep : ∀ d ∈ cs, Rep nodes p d) (hnd : (a :: cs.flatMap Tree.addrs).Nodup) (m : Nat) :
    let nodes' := reparent ((cs.map Tree.addr).drop m) nodes.length
      (reparent ((cs.map Tree.addr).take m) a (nodes.set a x ++ [y]))
    (∀ d ∈ cs.take m, Rep nodes' (some a) d) ∧
      (∀ d ∈ cs.drop m, Rep nodes' (some nodes.length) d) := by
  intro nodes'
  obtain ⟨hna, hnd⟩ := List.nodup_cons.mp hnd
  have hread : ∀ b ∈ cs.flatMap Tree.addrs, (nodes.set a x ++ [y])[b]? = nodes[b]? := by
    intro b hb
    obtain ⟨d, hd, hbd⟩ := List.mem_flatMap.mp hb
    rw [List.getElem?_append_left (by simpa using (hrep d hd).lt b hbd),
      List.getElem?_set_ne (fun hab => hna (by rw [hab]; exact hb))]
  -- a node below one half is not the top of a child in the other
  have hcut : ((cs.take m ++ cs.drop m).flatMap Tree.addrs).Nodup := by
    rwa [List.take_append_drop]
  have hcut' : ((cs.drop m ++ cs.take m).flatMap Tree.addrs).Nodup := by
    rw [List.flatMap_append] at hcut ⊢
    exact (List.perm_append_comm.nodup_iff).mp hcut
  have hboth := hcut
  rw [List.flatMap_append, List.nodup_append] at hboth
  constructor
  · refine rep_reparented (fun d hd => hrep d (List.mem_of_mem_take hd)) hboth.1 fun b hb => ?_
    have hother : b ∉ (cs.map Tree.addr).drop m := by
      rw [← List.map_drop]
      exact fun hb' => not_mem_of_mem_flatMap hcut hb (mem_flatMap_of_mem_map_addr hb')
    have hmem : b ∈ cs.flatMap Tree.addrs := by
      rw [← List.take_append_drop m cs, List.flatMap_append]
      exact List.mem_append_left _ hb
    rw [getElem?_reparent, if_neg hother, getElem?_reparent, hread b hmem, List.map_take]
  · refine rep_reparented (fun d hd => hrep d (List.mem_of_mem_drop hd)) hboth.2.1 fun b hb => ?_
    have hother : b ∉ (cs.map Tree.addr).take m := by
      rw [← List.map_take]
      exact fun hb' => not_mem_of_mem_flatMap hcut' hb (mem_flatMap_of_mem_map_addr hb')
    have hmem : b ∈ cs.flatMap Tree.addrs := by
      rw [← List.take_append_drop m cs, List.flatMap_append]
      exact List.mem_append_right _ hb
    rw [getElem?_reparent, getElem?_reparent, if_neg hother, hread b hmem, List.map_drop]

theorem nextOf_reparent (cs : List Addr) (a : Addr) (nodes : List BPTreeNode) (b : Nat) :
    nextOf (reparent cs a nodes) b = nextOf nodes b := by
  unfold nextOf
  rw [getElem?_reparent]
  split
  · rw [Option.map_map]
    rfl
  · rfl

/-- The memory after `bptree_insert_into_internal` has written the node back with one more child. -/
theorem insertInternal_stepped {kids : List (Tree h)} {n' : BPTreeNode} {ks' : List Int}
    (hn : s.nodes[a]? = some n) (hkids : ∀ d ∈ kids, Rep s.nodes (some a) d)
    (hna : a ∉ kids.flatMap Tree.addrs) (hint' : InternalNode n' p ks' (kids.map Tree.addr))
    (hnext : n'.next = n.next) :
    let s' : TreeState := { s with nodes := s.nodes.set a n' }
    (∀ b < s.nodes.length, b ∉ a :: kids.flatMap Tree.addrs → s'.nodes[b]? = s.nodes[b]?) ∧
      (∀ b < s.nodes.length, nextOf s'.nodes b = nextOf s.nodes b) ∧
      Rep s'.nodes p (Tree.node a ks' kids) := by
  have hlt : a < s.nodes.length := (List.getElem?_eq_some_iff.mp hn).1
  refine ⟨fun b _ hb => ?_, fun b _ => nextOf_set hn hnext b,
    ⟨n', List.getElem?_set_self hlt, hint'⟩, fun d hd => ?_⟩
  · exact List.getElem?_set_ne fun hab => hb (by rw [hab]; exact List.mem_cons_self)
  · refine (hkids d hd).frame fun b hb => List.getElem?_set_ne fun hab => hna ?_
    rw [hab]
    exact List.mem_flatMap.mpr ⟨d, hd, hb⟩

/-- The memory after `bptree_split_internal` has dealt the children `kids` out to the two nodes. -/
theorem splitInternal_stepped {kids : List (Tree h)} {x y : BPTreeNode} {ks₁ ks₂ : List Int}
    (rest : List Bool) (hn : s.nodes[a]? = some n) (hkids : ∀ d ∈ kids, Rep s.nodes (some a) d)
    (hnd : (a :: kids.flatMap Tree.addrs).Nodup)
    (hx : InternalNode x p ks₁ ((kids.map Tree.addr).take 17))
    (hy : InternalNode y p ks₂ ((kids.map Tree.addr).drop 17)) (hnext : x.next = n.next) :
    let s' : TreeState := { s with
      nodes := reparent ((kids.map Tree.addr).drop 17) s.nodes.length
        (reparent ((kids.map Tree.addr).take 17) a (s.nodes.set a x ++ [y]))
      callocs := rest }
    (∀ b < s.nodes.length, b ∉ a :: kids.flatMap Tree.addrs → s'.nodes[b]? = s.nodes[b]?) ∧
      (∀ b < s.nodes.length, nextOf s'.nodes b = nextOf s.nodes b) ∧
      Rep s'.nodes p (Tree.node a ks₁ (kids.take 17)) ∧
      Rep s'.nodes p (Tree.node s.nodes.length ks₂ (kids.drop 17)) := by
  intro s'
  have hlt : a < s.nodes.length := (List.getElem?_eq_some_iff.mp hn).1
  have hread : ∀ b, b ∉ kids.map Tree.addr → s'.nodes[b]? = (s.nodes.set a x ++ [y])[b]? :=
    fun b hb => by
      simp only [s', getElem?_reparent, if_neg fun h => hb (List.mem_of_mem_take h),
        if_neg fun h => hb (List.mem_of_mem_drop h)]
  have hold : ∀ b < s.nodes.length, b ≠ a → (s.nodes.set a x ++ [y])[b]? = s.nodes[b]? :=
    fun b hb hba => by
      rw [List.getElem?_append_left (by simpa using hb), List.getElem?_set_ne (Ne.symm hba)]
  have ha : a ∉ kids.map Tree.addr := fun h =>
    (List.nodup_cons.mp hnd).1 (mem_flatMap_of_mem_map_addr h)
  have hlen : s.nodes.length ∉ kids.map Tree.addr := fun h => by
    obtain ⟨d, hd, hda⟩ := List.mem_map.mp h
    exact Nat.lt_irrefl _ (hda ▸ (hkids d hd).lt _ (Tree.addr_mem_addrs d))
  obtain ⟨hleft, hright⟩ := rep_of_split (x := x) (y := y) hkids hnd 17
  refine ⟨fun b hb hbn => ?_, fun b hb => ?_, ⟨⟨x, ?_, ?_⟩, hleft⟩, ⟨⟨y, ?_, ?_⟩, hright⟩⟩
  · rw [List.mem_cons, not_or] at hbn
    rw [hread b fun h => hbn.2 (mem_flatMap_of_mem_map_addr h), hold b hb hbn.1]
  · simp only [s', nextOf_reparent]
    by_cases hba : b = a
    · subst hba
      rw [nextOf, nextOf, load_old _ _ hlt, hn, Option.map_some, Option.map_some, hnext]
    · rw [nextOf, nextOf, hold b hb hba]
  · rw [hread a ha, load_old _ _ hlt]
  · rwa [List.map_take]
  · rw [hread _ hlen, load_new]
  · rwa [List.map_drop]

theorem insertIntoParent_refines (hn : s.nodes[a]? = some n)
    (hint : InternalNode n p ks ((ls ++ c :: rs).map Tree.addr)) (hca : l.addr = c.addr)
    (hkids : ∀ d ∈ ls ++ l :: r :: rs, Rep s.nodes (some a) d)
    (hnd : (a :: (ls ++ l :: r :: rs).flatMap Tree.addrs).Nodup) (k : Int) (fuel : Nat) :
    let ins := nodeInsert a ks (ls ++ c :: rs) ls.length ⟨.split l k r, s.nodes.length, s.callocs⟩
    ∃ s', Stepped s s' (a :: (ls ++ l :: r :: rs).flatMap Tree.addrs) ins ∧
      (∀ b < s.nodes.length, nextOf s'.nodes b = nextOf s.nodes b) ∧
      Returns fuel (bptreeInsertIntoParent (fuel + 1) s l.addr k r.addr) s' p ins.outcome := by
  intro ins
  have hins : ins = _ := nodeInsert_split a ks c l r k s.nodes.length s.callocs
  have hik : ls.length ≤ ks.length := by
    have := hint.arity
    simp only [List.length_map, List.length_append, List.length_cons] at this
    omega
  obtain ⟨hna, hnd'⟩ := List.nodup_cons.mp hnd
  have hl : l ∈ ls ++ l :: r :: rs := by simp
  have hr : r ∈ ls ++ l :: r :: rs := by simp
  have haddr : ∀ d ∈ ls ++ l :: r :: rs, d.addr ≠ a := fun d hd hda =>
    hna (hda ▸ List.mem_flatMap.mpr ⟨d, hd, Tree.addr_mem_addrs d⟩)
  obtain ⟨nl, hnl, hnlp⟩ := (hkids l hl).top
  rw [hca] at hnl
  obtain ⟨nr, hnr, hnrp⟩ := (hkids r hr).top
  have hls : c.addr ∉ ls.flatMap Tree.addrs := fun hc => by
    have hmem : c.addr ∈ (l :: r :: rs).flatMap Tree.addrs := by
      rw [← hca]
      exact List.mem_flatMap.mpr ⟨l, List.mem_cons_self, Tree.addr_mem_addrs l⟩
    exact not_mem_of_mem_flatMap hnd' hc hmem
  -- the call reaches the node `a` and finds the slot of the split child in it
  have hrun : bptreeInsertIntoParent (fuel + 1) s l.addr k r.addr =
      if ks.length < BPTREE_MAX_KEYS then
        (bptreeInsertIntoInternal s a ls.length k r.addr).bind fun s => some (.inserted, s)
      else bptreeSplitInternal (bptreeInsertIntoParent fuel) s a ls.length k r.addr := by
    rw [bptreeInsertIntoParent]
    simp only [TreeState.load, hnl, Option.bind_eq_bind, Option.bind_some, hnlp, hn, hca,
      bptreeFindChildIndex_eq hint hls, hint.keyCount]
  rw [hrun]
  by_cases hfull : ks.length < BPTREE_MAX_KEYS
  · rw [if_pos hfull] at hins ⊢
    obtain ⟨n', hint', hnext, hrun'⟩ :=
      bptreeInsertIntoInternal_eq hn hint hfull hik (haddr r hr) hnr hnrp k
    rw [map_addr_insertIdx hca] at hint'
    obtain ⟨hframe, hnexts, hrep⟩ := insertInternal_stepped hn hkids hna hint' hnext
    rw [hins, hrun', Option.bind_some]
    exact ⟨{ s with nodes := s.nodes.set a n' }, ⟨List.length_set, rfl, rfl, hframe⟩, hnexts, rfl,
      hrep⟩
  · rw [if_neg hfull] at hins ⊢
    cases hc : calloc s.callocs with
    | mk granted rest =>
      rw [hc] at hins
      cases granted with
      | false =>
        rw [hins, bptreeSplitInternal_refused hn hint hc]
        have hmap : (ls ++ l :: rs).map Tree.addr = (ls ++ c :: rs).map Tree.addr := by simp [hca]
        refine ⟨{ s with callocs := rest }, ⟨rfl, rfl, rfl, fun _ _ _ => rfl⟩, fun _ _ => rfl,
          rfl, ⟨n, hn, hmap ▸ hint⟩, fun d hd => hkids d ?_⟩
        simp only [List.mem_append, List.mem_cons] at hd ⊢
        tauto
      | true =>
        have hlen : ks.length = BPTREE_MAX_KEYS := by
          have h1 := hint.arity
          have h2 := hint.children.length_le
          omega
        have hkidaddr : ((ls ++ c :: rs).map Tree.addr).insertIdx (ls.length + 1) r.addr =
            (ls ++ l :: r :: rs).map Tree.addr := map_addr_insertIdx hca
        have hcut : ∀ b ∈ ((ls ++ c :: rs).map Tree.addr).insertIdx (ls.length + 1) r.addr,
            b < s.nodes.length ∧ b ≠ a := by
          rw [hkidaddr]
          intro b hb
          obtain ⟨d, hd, rfl⟩ := List.mem_map.mp hb
          exact ⟨(hkids d hd).lt _ (Tree.addr_mem_addrs d), haddr d hd⟩
        obtain ⟨x, y, hx, hy, hnext, hrun'⟩ := bptreeSplitInternal_granted hn hint hlen hik hcut hc
          k (bptreeInsertIntoParent fuel)
        rw [hkidaddr] at hx hy hrun'
        rw [hins, hrun']
        obtain ⟨hframe, hnexts, hleft, hright⟩ :=
          splitInternal_stepped rest hn hkids hnd hx hy hnext
        refine ⟨_, ⟨?_, ?_, ?_, hframe⟩, hnexts, rfl, hleft, hright⟩
        · simp
        · rfl
        · rfl

end Node

/-! ### The whole way up -/

/-- The nodes of an outcome that is not a failure are those of the tree and the new ones. -/
theorem insert_addrs_perm {h : Nat} {t : Tree h} {key row : Int} {fresh fresh' : Nat}
    {callocs callocs' : List Bool} {outcome : Outcome h}
    (hins : t.insert key row fresh callocs = ⟨outcome, fresh', callocs'⟩)
    (hok : ∀ t', outcome ≠ .failed t') :
    outcome.addrs.Perm (t.addrs ++ List.range' fresh (fresh' - fresh)) := by
  obtain ⟨lost, hgrown, hlost⟩ := insert_grown key row t fresh callocs
  rw [hins] at hgrown hlost
  have hnil : lost = [] := by
    cases outcome with
    | failed t' => exact absurd rfl (hok t')
    | done t' => exact hlost
    | split l k r => exact hlost.1
  have := hgrown.2
  rwa [hnil, List.append_nil] at this

/-- Linking survives work that keeps the next pointers of the nodes there are. -/
theorem Linked.trans {nodes₁ nodes₂ nodes₃ : List BPTreeNode} {leaf : Nat}
    (h : Linked nodes₁ nodes₂ leaf) (hlt : nodes₁.length < nodes₂.length)
    (hle : nodes₂.length ≤ nodes₃.length) (hleaf : leaf < nodes₁.length)
    (hkeep : ∀ b < nodes₂.length, nextOf nodes₃ b = nextOf nodes₂ b) :
    Linked nodes₁ nodes₃ leaf := by
  rw [Linked, if_neg (by omega)] at h ⊢
  obtain ⟨hold, hleaf', hnew⟩ := h
  refine ⟨fun b hb hne => ?_, ?_, ?_⟩
  · rw [hkeep b (by omega), hold b hb hne]
  · rw [hkeep leaf (by omega), hleaf']
  · rw [hkeep _ hlt, hnew]

theorem nodup_grow {addrs : List Addr} {fresh n : Nat} (hnd : addrs.Nodup)
    (hlt : ∀ b ∈ addrs, b < fresh) : (addrs ++ List.range' fresh n).Nodup := by
  rw [List.nodup_append]
  refine ⟨hnd, List.nodup_range', fun a ha b hb hab => ?_⟩
  have h1 := hlt a ha
  have h2 := (List.mem_range'_1.mp hb).1
  rw [hab] at h1
  exact Nat.lt_irrefl _ (Nat.lt_of_lt_of_le h1 h2)

section Split

variable {h : Nat} {a : Addr} {ls rs : List (Tree h)} {c l r : Tree h} {fresh n : Nat}
  (hperm : (l.addrs ++ r.addrs).Perm (c.addrs ++ List.range' fresh n))

include hperm

/-- The halves of a child bring new addresses only. -/
theorem nodup_split
    (hnd : (a :: (ls.flatMap Tree.addrs ++ (c.addrs ++ rs.flatMap Tree.addrs))).Nodup)
    (hlt : ∀ b ∈ a :: (ls.flatMap Tree.addrs ++ (c.addrs ++ rs.flatMap Tree.addrs)), b < fresh) :
    (a :: (ls ++ l :: r :: rs).flatMap Tree.addrs).Nodup := by
  refine (List.Perm.nodup_iff (List.perm_iff_count.mpr fun x => ?_)).mpr (nodup_grow (n := n) hnd hlt)
  have hx := List.perm_iff_count.mp hperm x
  simp only [List.flatMap_append, List.flatMap_cons, List.count_cons, List.count_append] at hx ⊢
  omega

theorem mem_of_mem_split {b : Addr} (hb : b < fresh)
    (hmem : b ∈ a :: (ls ++ l :: r :: rs).flatMap Tree.addrs) :
    b ∈ a :: (ls.flatMap Tree.addrs ++ (c.addrs ++ rs.flatMap Tree.addrs)) := by
  have hlr : b ∈ l.addrs ++ r.addrs → b ∈ c.addrs := by
    intro hboth
    rcases List.mem_append.mp (hperm.mem_iff.mp hboth) with hc | hr
    · exact hc
    · exact absurd (List.mem_range'_1.mp hr).1 (Nat.not_le_of_lt hb)
  simp only [List.flatMap_append, List.flatMap_cons, List.mem_cons, List.mem_append] at hmem hlr ⊢
  tauto

end Split

/-- The leaf to which a key leads is a node of the tree. -/
theorem Rep.leafFor_lt {h : Nat} {root : Bool} {lo : WithBot Int} {hi : WithTop Int} {t : Tree h}
    {nodes : List BPTreeNode} {p : Option Addr} (hrep : Rep nodes p t) (hw : t.WF root lo hi) {key : Int}
    (hk : Within lo hi key) {leaf : Addr} (hfor : t.leafFor key = some leaf) :
    leaf < nodes.length := by
  obtain ⟨leaf', es, hfor', hmem, -⟩ := hw.leafFor hk
  obtain rfl : leaf' = leaf := Option.some.inj (hfor'.symm.trans hfor)
  obtain ⟨n, _, hn, -⟩ := hrep.leaf_mem hmem
  exact (List.getElem?_eq_some_iff.mp hn).1

/-- From the leaf on, `bptree_insert` does what `Tree.insert` does: induction on the height, one
call of `bptree_insert_into_parent` for each level that the insertion reaches. -/
theorem insert_refines {key : Int} (row : Int) : ∀ {h : Nat} {root : Bool} {lo : WithBot Int}
    {hi : WithTop Int} {t : Tree h}, t.WF root lo hi → Within lo hi key →
      ∀ {s : TreeState} {p : Option Addr}, Rep s.nodes p t → t.addrs.Nodup →
        ∀ {leaf : Addr}, t.leafFor key = some leaf → ∀ fuel : Nat,
          let ins := t.insert key row s.nodes.length s.callocs
          ∃ s', Stepped s s' t.addrs ins ∧ Linked s.nodes s'.nodes leaf ∧
            Returns fuel (insertAtLeaf (fuel + h) s leaf key row) s' p ins.outcome
  | 0, _, _, _, .leaf a es, hw, _, s, p, hrep, _, leaf, hfor, fuel => by
    obtain rfl : a = leaf := Option.some.inj hfor
    exact insertAtLeaf_refines (Tree.wf_leaf.mp hw).2.1 hrep key row fuel
  | h + 1, _, _, _, .node a ks cs, hw, hk, s, p, hrep, hnd, leaf, hfor, fuel => by
    obtain ⟨⟨n, hn, hint⟩, hcs⟩ := rep_node.mp hrep
    have hltall := hrep.lt
    obtain ⟨lk, rk, ls, c, rs, lo', hi', rfl, rfl, hole⟩ :=
      Fenced.hole (fun _ _ _ hc => Tree.WF.spread hc) (Tree.wf_node.mp hw).2.2.2 hk
    have hroute := hole.routed.trans hole.left.symm
    rw [Tree.leafFor_node hroute] at hfor
    have haddrs : (Tree.node a (lk ++ rk) (ls ++ c :: rs)).addrs =
        a :: (ls.flatMap Tree.addrs ++ (c.addrs ++ rs.flatMap Tree.addrs)) := by simp
    rw [haddrs] at hnd hltall ⊢
    have hcmem : ∀ b ∈ c.addrs,
        b ∈ a :: (ls.flatMap Tree.addrs ++ (c.addrs ++ rs.flatMap Tree.addrs)) := fun b hb => by
      simp [hb]
    have hcnd : c.addrs.Nodup := by
      rw [List.nodup_cons, List.nodup_append, List.nodup_append] at hnd
      exact hnd.2.2.1.1
    -- a node that is not below the child is not touched by the work in the child
    have hout : ∀ b ∈ a :: (ls.flatMap Tree.addrs ++ rs.flatMap Tree.addrs), b ∉ c.addrs := by
      intro b hb hbc
      have hcount := List.nodup_iff_count_le_one.mp hnd b
      have h1 := List.one_le_count_iff.mpr hb
      have h2 := List.one_le_count_iff.mpr hbc
      simp only [List.count_cons, List.count_append] at hcount h1
      omega
    obtain ⟨s₁, hstep, hlink, hret⟩ :=
      insert_refines row hole.child hole.within (hcs c (by simp)) hcnd hfor (fuel + 1)
    have hfuel : fuel + (h + 1) = fuel + 1 + h := by omega
    rw [Tree.insert_node key row a (lk ++ rk) hroute, hfuel]
    have haddr := insert_addr key row c s.nodes.length s.callocs
    have hkeep : ∀ b ∈ a :: (ls.flatMap Tree.addrs ++ rs.flatMap Tree.addrs),
        s₁.nodes[b]? = s.nodes[b]? := fun b hb => by
      refine hstep.frame b (hltall b ?_) (hout b hb)
      simp only [List.mem_cons, List.mem_append] at hb ⊢
      tauto
    have hn₁ : s₁.nodes[a]? = some n := (hkeep a List.mem_cons_self).trans hn
    have hsib : ∀ d, d ∈ ls ∨ d ∈ rs → Rep s₁.nodes (some a) d := fun d hd => by
      refine (hcs d (by simp; tauto)).frame fun b hb => hkeep b ?_
      rw [List.mem_cons, List.mem_append, List.mem_flatMap, List.mem_flatMap]
      exact Or.inr (hd.imp (fun h => ⟨d, h, hb⟩) fun h => ⟨d, h, hb⟩)
    have hframe : ∀ b < s.nodes.length,
        b ∉ a :: (ls.flatMap Tree.addrs ++ (c.addrs ++ rs.flatMap Tree.addrs)) →
        s₁.nodes[b]? = s.nodes[b]? := fun b hb hbn =>
      hstep.frame b hb fun h => hbn (hcmem b h)
    have hstay : ∀ c' : Tree h, c'.addr = c.addr → Rep s₁.nodes (some a) c' →
        Rep s₁.nodes p (Tree.node a (lk ++ rk) (ls ++ c' :: rs)) := fun c' hc' hrep' => by
      have hmap : (ls ++ c' :: rs).map Tree.addr = (ls ++ c :: rs).map Tree.addr := by simp [hc']
      refine ⟨⟨n, hn₁, hmap ▸ hint⟩, fun d hd => ?_⟩
      rcases List.mem_append.mp hd with hd | hd
      · exact hsib d (.inl hd)
      · rcases List.mem_cons.mp hd with rfl | hd
        · exact hrep'
        · exact hsib d (.inr hd)
    generalize hins : c.insert key row s.nodes.length s.callocs = ins at hstep hret haddr
    obtain ⟨outcome, fresh', callocs'⟩ := ins
    cases outcome with
    | done c' =>
      rw [nodeInsert_done]
      exact ⟨s₁, ⟨hstep.fresh, hstep.callocs, hstep.root, hframe⟩, hlink, hret.1,
        hstay c' haddr hret.2⟩
    | failed c' =>
      rw [nodeInsert_failed]
      exact ⟨s₁, ⟨hstep.fresh, hstep.callocs, hstep.root, hframe⟩, hlink, hret.1,
        hstay c' haddr hret.2⟩
    | split l k r =>
      obtain ⟨hrun, hrepl, hrepr⟩ := hret
      have hlen : s₁.nodes.length = fresh' := hstep.fresh
      have hcallocs : s₁.callocs = callocs' := hstep.callocs
      have hperm : (l.addrs ++ r.addrs).Perm
          (c.addrs ++ List.range' s.nodes.length (fresh' - s.nodes.length)) :=
        insert_addrs_perm hins nofun
      have hgrow : s.nodes.length < s₁.nodes.length := by
        have := insert_allocated row hole.child hole.within s.nodes.length s.callocs
        rw [hins] at this
        obtain ⟨hm, -, -, hf⟩ := this
        simp only at hf
        omega
      have hkids : ∀ d ∈ ls ++ l :: r :: rs, Rep s₁.nodes (some a) d := fun d hd => by
        simp only [List.mem_append, List.mem_cons] at hd
        rcases hd with hd | rfl | rfl | hd
        · exact hsib d (.inl hd)
        · exact hrepl
        · exact hrepr
        · exact hsib d (.inr hd)
      obtain ⟨s₂, hstep₂, hnext₂, hret₂⟩ :=
        insertIntoParent_refines hn₁ hint haddr hkids (nodup_split hperm hnd hltall) k fuel
      rw [hlen, hcallocs] at hstep₂ hret₂
      refine ⟨s₂, ⟨hstep₂.fresh, hstep₂.callocs, hstep₂.root.trans hstep.root, fun b hb hbn => ?_⟩,
        hlink.trans hgrow ?_ ?_ hnext₂, hrun ▸ hret₂⟩
      · rw [hstep₂.frame b (by omega) fun hmem => hbn (mem_of_mem_split hperm hb hmem),
          hframe b hb hbn]
      · rw [hlen, hstep₂.fresh]
        exact nodeInsert_fresh_le a (lk ++ rk) (ls ++ c :: rs) ls.length
          ⟨.split l k r, fresh', callocs'⟩
      · exact (hcs c (by simp)).leafFor_lt hole.child hole.within hfor

end JungleDb
