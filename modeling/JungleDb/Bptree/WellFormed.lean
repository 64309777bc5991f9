import JungleDb.Bptree.Insert

/-!
# The shape of the tree in memory

`WellFormed` states the B+ tree invariant on the nodes themselves, with the paths that lead down
from the root; every tree that `bptree_insert` builds has it.
-/

namespace JungleDb

open CArray Fence

/-! ## Paths -/

/-- The node reached from `a` through the children with the given indices. -/
def follow (nodes : List BPTreeNode) : Addr → List Nat → Option Addr
  | a, [] => if a < nodes.length then some a else none
  | a, i :: path =>
    match nodes[a]? with
    | none => none
    | some n =>
      if n.isLeaf || n.keyCount < i then none
      else match rd n.children i with
        | none => none
        | some c => follow nodes c path

/-- `path` leads from the root to the node at `a`, which is `n`. -/
def PathTo (b : Bptree) (path : List Nat) (a : Addr) (n : BPTreeNode) : Prop :=
  b.root.bind (fun root => follow b.nodes root path) = some a ∧ b.nodes[a]? = some n

/-- The leaves met by following `next` from `a` to its end. -/
def leafWalk (nodes : List BPTreeNode) : Nat → Option Addr → Option (List Addr)
  | _, none => some []
  | 0, some _ => none
  | fuel + 1, some a => do
    let n ← nodes[a]?
    let rest ← leafWalk nodes fuel n.next
    some (a :: rest)

/-- The keys of a node. -/
def BPTreeNode.keyList (n : BPTreeNode) : List Int := (List.range n.keyCount).map (rd n.keys)

/-- The keys of the node at `a`. -/
def keysAt (nodes : List BPTreeNode) (a : Addr) : List Int := ((nodes[a]?).map (·.keyList)).getD []

/-- The B+ tree invariant of a tree with a root, all of whose leaves are `depth` below it. -/
structure WellFormed (b : Bptree) (depth : Nat) : Prop where
  /-- All leaves are at the same depth. -/
  leaf_depth : ∀ path a n, PathTo b path a n → (n.isLeaf = true ↔ path.length = depth)
  /-- How many keys a node holds. -/
  leaf_keys : ∀ path a n, PathTo b path a n → n.isLeaf = true →
    1 ≤ n.keyCount ∧ n.keyCount ≤ 31 ∧ (path ≠ [] → 16 ≤ n.keyCount)
  internal_keys : ∀ path a n, PathTo b path a n → n.isLeaf = false →
    1 ≤ n.keyCount ∧ n.keyCount ≤ 31 ∧ (path ≠ [] → 15 ≤ n.keyCount)
  /-- An internal node has exactly `key_count + 1` children. -/
  children : ∀ path a n, PathTo b path a n → n.isLeaf = false →
    ∀ i < 32, (rd n.children i).isSome ↔ i ≤ n.keyCount
  /-- Keys are strictly ascending. -/
  ascending : ∀ path a n, PathTo b path a n → n.keyList.Pairwise (· < ·)
  /-- The separators of a node bound the keys below its children. -/
  separated : ∀ path a n i below c m, PathTo b path a n →
    PathTo b (path ++ i :: below) c m → ∀ k ∈ m.keyList,
      (0 < i → rd n.keys (i - 1) ≤ k) ∧ (i < n.keyCount → k < rd n.keys i)
  /-- Parent pointers point to the parent. -/
  root_parent : ∀ a n, PathTo b [] a n → n.parent = none
  parent : ∀ path a n i c m, PathTo b path a n → PathTo b (path ++ [i]) c m → m.parent = some a
  /-- The chain of leaves, from the leftmost one on, visits every leaf once and their keys in
  ascending order. -/
  chain : ∃ first n walk, PathTo b (List.replicate depth 0) first n ∧
    leafWalk b.nodes b.nodes.length (some first) = some walk ∧ walk.Nodup ∧
    (∀ a, a ∈ walk ↔ ∃ path n, PathTo b path a n ∧ n.isLeaf = true) ∧
    (walk.flatMap (keysAt b.nodes)).Pairwise (· < ·) ∧
    (1 ≤ depth → 2 * 16 ^ depth ≤ (walk.flatMap (keysAt b.nodes)).length)
  /-- Every node there is has exactly one path to it, and `bptree_free` frees each once. -/
  unique_path : ∀ a < b.nodes.length, ∃! path, ∃ n, PathTo b path a n
  freed : ∃ freed, bptreeFree b.nodes b.nodes.length b.root = some freed ∧
    freed.Perm (List.range b.nodes.length)

/-! ## Paths in a tree -/

section Paths

variable {nodes : List BPTreeNode}

theorem LeafNode.keyList {n : BPTreeNode} {p : Option Addr} {es : List (Int × Int)}
    (h : LeafNode n p es) : n.keyList = es.map Prod.fst := by
  have := h.keys.map_rd
  rwa [List.length_map, ← h.keyCount] at this

theorem InternalNode.keyList {n : BPTreeNode} {p : Option Addr} {ks : List Int} {cs : List Addr}
    (h : InternalNode n p ks cs) : n.keyList = ks := by
  have := h.keys.map_rd
  rwa [← h.keyCount] at this

theorem follow_nil {a : Addr} {n : BPTreeNode} (hn : nodes[a]? = some n) :
    follow nodes a [] = some a := if_pos (List.getElem?_eq_some_iff.mp hn).1

theorem follow_leaf {p : Option Addr} {a : Addr} {es : List (Int × Int)}
    (hrep : Rep nodes p (Tree.leaf a es)) (i : Nat) (path : List Nat) :
    follow nodes a (i :: path) = none := by
  obtain ⟨n, hn, hleaf⟩ := hrep
  rw [follow, hn]
  simp [hleaf.isLeaf]

theorem follow_node {h : Nat} {p : Option Addr} {a : Addr} {ks : List Int} {cs : List (Tree h)}
    (hrep : Rep nodes p (Tree.node a ks cs)) (i : Nat) (path : List Nat) :
    follow nodes a (i :: path) = (cs[i]?).bind fun c => follow nodes c.addr path := by
  obtain ⟨⟨n, hn, hint⟩, -⟩ := rep_node.mp hrep
  have harity := hint.arity
  rw [List.length_map] at harity
  rw [follow, hn]
  simp only [hint.isLeaf, Bool.false_or, hint.keyCount, decide_eq_true_eq, hint.children i,
    List.getElem?_map]
  by_cases hi : i < cs.length
  · rw [if_neg (by omega), List.getElem?_eq_getElem hi]
    rfl
  · rw [if_pos (by omega), List.getElem?_eq_none (by omega)]
    rfl

theorem follow_append (a : Addr) (path rest : List Nat) :
    follow nodes a (path ++ rest) = (follow nodes a path).bind fun c => follow nodes c rest := by
  induction path generalizing a with
  | nil =>
    rw [List.nil_append, follow]
    split
    · rfl
    · rename_i hlt
      cases rest with
      | nil => rw [follow, if_neg hlt]; rfl
      | cons i rest => rw [follow, List.getElem?_eq_none (Nat.le_of_not_lt hlt)]; rfl
  | cons i path ih =>
    rw [List.cons_append, follow, follow]
    cases nodes[a]? with
    | none => rfl
    | some n =>
      simp only
      split
      · rfl
      · cases rd n.children i with
        | none => rfl
        | some c => exact ih c

/-- The keys of the top node lie within the bounds of its tree. -/
theorem keyList_within {h : Nat} {p : Option Addr} {t : Tree h} {root : Bool} {lo : WithBot Int}
    {hi : WithTop Int} (hrep : Rep nodes p t) (hw : t.WF root lo hi) {n : BPTreeNode}
    (hn : nodes[t.addr]? = some n) : n.keyList.Pairwise (· < ·) ∧ ∀ k ∈ n.keyList, Within lo hi k := by
  match h, t with
  | 0, .leaf a es =>
    obtain ⟨n', hn', hleaf⟩ := rep_leaf.mp hrep
    obtain rfl := Option.some.inj (hn.symm.trans hn')
    rw [hleaf.keyList]
    exact ⟨(Tree.wf_leaf.mp hw).1.sorted, (Tree.wf_leaf.mp hw).1.within⟩
  | h + 1, .node a ks cs =>
    obtain ⟨⟨n', hn', hint⟩, -⟩ := rep_node.mp hrep
    obtain rfl := Option.some.inj (hn.symm.trans hn')
    obtain ⟨hsorted, hbounds⟩ :=
      Fenced.seps (fun _ _ _ hc => Tree.WF.spread hc) (Tree.wf_node.mp hw).2.2.2
    rw [hint.keyList]
    exact ⟨hsorted, fun k hk => ⟨(hbounds k hk).1.le, (hbounds k hk).2⟩⟩

/-- What a path down a tree leads to. -/
structure Reaches (nodes : List BPTreeNode) {h : Nat} (t : Tree h) (lo : WithBot Int)
    (hi : WithTop Int) (path : List Nat) {h' : Nat} (t' : Tree h') (p' : Option Addr)
    (root' : Bool) (lo' : WithBot Int) (hi' : WithTop Int) : Prop where
  depth : path.length + h' = h
  rep : Rep nodes p' t'
  wf : t'.WF root' lo' hi'
  root : path ≠ [] → root' = false
  lower : lo ≤ lo'
  upper : hi' ≤ hi
  leaves : t'.leafAddrs ⊆ t.leafAddrs

theorem follow_reaches : ∀ {h : Nat} {t : Tree h} {p : Option Addr} {root : Bool}
    {lo : WithBot Int} {hi : WithTop Int}, Rep nodes p t → t.WF root lo hi →
      ∀ (path : List Nat) {a : Addr}, follow nodes t.addr path = some a →
        ∃ (h' : Nat) (t' : Tree h') (p' : Option Addr) (root' : Bool) (lo' : WithBot Int)
          (hi' : WithTop Int), t'.addr = a ∧ Reaches nodes t lo hi path t' p' root' lo' hi' ∧
          (path = [] → p' = p ∧ root' = root)
  | h, t, p, root, lo, hi, hrep, hw, [], a, hf => by
    have ha : t.addr = a := by
      rw [follow] at hf
      split at hf
      · exact Option.some.inj hf
      · cases hf
    exact ⟨h, t, p, root, lo, hi, ha, ⟨by simp, hrep, hw, fun h => absurd rfl h, le_refl _, le_refl _,
      List.Subset.refl _⟩, fun _ => ⟨rfl, rfl⟩⟩
  | 0, .leaf b es, p, root, lo, hi, hrep, hw, i :: path, a, hf => by
    rw [Tree.addr_leaf, follow_leaf hrep] at hf
    cases hf
  | h + 1, .node b ks cs, p, root, lo, hi, hrep, hw, i :: path, a, hf => by
    rw [Tree.addr_node, follow_node hrep] at hf
    obtain ⟨c, hc, hf⟩ := Option.bind_eq_some_iff.mp hf
    have hmem := List.mem_of_getElem? hc
    have hfenced := (Tree.wf_node.mp hw).2.2.2
    obtain ⟨hsorted, hbounds⟩ := Fenced.seps (fun _ _ _ hc => Tree.WF.spread hc) hfenced
    obtain ⟨h', t', p', root', lo', hi', ha, hreach, htop⟩ :=
      follow_reaches ((rep_node.mp hrep).2 c hmem) (hfenced.getElem i c hc) path hf
    refine ⟨h', t', p', root', lo', hi', ha, ⟨?_, hreach.rep, hreach.wf, fun _ => ?_, ?_, ?_, ?_⟩,
      nofun⟩
    · rw [List.length_cons, ← hreach.depth]; omega
    · by_cases hp : path = []
      · exact (htop hp).2
      · exact hreach.root hp
    · refine le_trans ?_ hreach.lower
      split
      · exact (hbounds _ (List.getElem_mem _)).1.le
      · exact le_refl _
    · refine le_trans hreach.upper ?_
      split
      · exact (hbounds _ (List.getElem_mem _)).2.le
      · exact le_refl _
    · rw [Tree.leafAddrs_node]
      exact fun x hx => List.mem_flatMap.mpr ⟨c, hmem, hreach.leaves hx⟩

theorem exists_path : ∀ {h : Nat} {t : Tree h} {p : Option Addr}, Rep nodes p t →
    ∀ a ∈ t.addrs, ∃ path, follow nodes t.addr path = some a
  | 0, .leaf b es, p, hrep, a, ha => by
    obtain rfl : a = b := by simpa using ha
    obtain ⟨n, hn, -⟩ := rep_leaf.mp hrep
    exact ⟨[], follow_nil hn⟩
  | h + 1, .node b ks cs, p, hrep, a, ha => by
    obtain ⟨⟨n, hn, -⟩, hcs⟩ := rep_node.mp hrep
    rw [Tree.addrs_node, List.mem_cons, List.mem_flatMap] at ha
    rcases ha with rfl | ⟨c, hc, ha⟩
    · exact ⟨[], follow_nil hn⟩
    · obtain ⟨i, hi, rfl⟩ := List.getElem_of_mem hc
      obtain ⟨path, hpath⟩ := exists_path (hcs _ hc) a ha
      refine ⟨i :: path, ?_⟩
      rw [Tree.addr_node, follow_node hrep, List.getElem?_eq_getElem hi]
      exact hpath

theorem follow_mem : ∀ {h : Nat} {t : Tree h} {p : Option Addr}, Rep nodes p t →
    ∀ (path : List Nat) {a : Addr}, follow nodes t.addr path = some a → a ∈ t.addrs
  | _, t, _, _, [], a, hf => by
    rw [follow] at hf
    split at hf
    · cases hf; exact t.addr_mem_addrs
    · cases hf
  | 0, .leaf b es, p, hrep, i :: path, a, hf => by
    rw [Tree.addr_leaf, follow_leaf hrep] at hf
    cases hf
  | h + 1, .node b ks cs, p, hrep, i :: path, a, hf => by
    rw [Tree.addr_node, follow_node hrep] at hf
    obtain ⟨c, hc, hf⟩ := Option.bind_eq_some_iff.mp hf
    have hmem := List.mem_of_getElem? hc
    rw [Tree.addrs_node]
    exact List.mem_cons_of_mem _
      (List.mem_flatMap.mpr ⟨c, hmem, follow_mem ((rep_node.mp hrep).2 c hmem) path hf⟩)

/-- A longer path leads to a node of the child it enters, never to the top. -/
theorem follow_child {h : Nat} {p : Option Addr} {b : Addr} {ks : List Int} {cs : List (Tree h)}
    (hrep : Rep nodes p (Tree.node b ks cs)) (hnd : (Tree.node b ks cs).addrs.Nodup) {i : Nat}
    {path : List Nat} {a : Addr} (hf : follow nodes b (i :: path) = some a) :
    a ≠ b ∧ ∃ c, cs[i]? = some c ∧ follow nodes c.addr path = some a ∧ a ∈ c.addrs := by
  rw [follow_node hrep] at hf
  obtain ⟨c, hc, hf⟩ := Option.bind_eq_some_iff.mp hf
  have hmem := List.mem_of_getElem? hc
  have ha := follow_mem ((rep_node.mp hrep).2 c hmem) path hf
  refine ⟨fun hab => ?_, c, hc, hf, ha⟩
  rw [Tree.addrs_node, List.nodup_cons] at hnd
  exact hnd.1 (hab ▸ List.mem_flatMap.mpr ⟨c, hmem, ha⟩)

/-- Two children that share a node are the same child. -/
theorem child_index_unique {h : Nat} {cs : List (Tree h)} (hnd : (cs.flatMap Tree.addrs).Nodup)
    {i j : Nat} {c d : Tree h} (hc : cs[i]? = some c) (hd : cs[j]? = some d) {a : Addr}
    (hac : a ∈ c.addrs) (had : a ∈ d.addrs) : i = j := by
  obtain ⟨hi, rfl⟩ := List.getElem?_eq_some_iff.mp hc
  obtain ⟨hj, rfl⟩ := List.getElem?_eq_some_iff.mp hd
  have hdisj := List.pairwise_iff_getElem.mp (List.nodup_flatMap.mp hnd).2
  rcases Nat.lt_trichotomy i j with hlt | heq | hlt
  · exact absurd had (hdisj i j hi hj hlt hac)
  · exact heq
  · exact absurd hac (hdisj j i hj hi hlt had)

/-- No two paths lead to the same node. -/
theorem path_unique : ∀ {h : Nat} {t : Tree h} {p : Option Addr}, Rep nodes p t → t.addrs.Nodup →
    ∀ (path path' : List Nat) {a : Addr}, follow nodes t.addr path = some a →
      follow nodes t.addr path' = some a → path = path'
  | _, _, _, _, _, [], [], _, _, _ => rfl
  | 0, .leaf b es, p, hrep, _, i :: path, _, a, hf, _ => by
    rw [Tree.addr_leaf, follow_leaf hrep] at hf
    cases hf
  | 0, .leaf b es, p, hrep, _, _, i :: path, a, _, hf => by
    rw [Tree.addr_leaf, follow_leaf hrep] at hf
    cases hf
  | h + 1, .node b ks cs, p, hrep, hnd, [], j :: path', a, hf, hf' => by
    obtain ⟨⟨n, hn, -⟩, -⟩ := rep_node.mp hrep
    rw [Tree.addr_node, follow_nil hn] at hf
    exact absurd (Option.some.inj hf).symm (follow_child hrep hnd hf').1
  | h + 1, .node b ks cs, p, hrep, hnd, i :: path, [], a, hf, hf' => by
    obtain ⟨⟨n, hn, -⟩, -⟩ := rep_node.mp hrep
    rw [Tree.addr_node, follow_nil hn] at hf'
    exact absurd (Option.some.inj hf').symm (follow_child hrep hnd hf).1
  | h + 1, .node b ks cs, p, hrep, hnd, i :: path, j :: path', a, hf, hf' => by
    obtain ⟨-, c, hc, hfc, hac⟩ := follow_child hrep hnd hf
    obtain ⟨-, d, hd, hfd, had⟩ := follow_child hrep hnd hf'
    rw [Tree.addrs_node, List.nodup_cons] at hnd
    obtain rfl := child_index_unique hnd.2 hc hd hac had
    obtain rfl := Option.some.inj (hc.symm.trans hd)
    have hmem := List.mem_of_getElem? hc
    rw [path_unique ((rep_node.mp hrep).2 c hmem) ((List.nodup_flatMap.mp hnd.2).1 c hmem) path
      path' hfc hfd]

/-! ## The chain of leaves and `bptree_free` -/

/-- The leftmost path leads to the first leaf. -/
theorem follow_leftmost : ∀ {h : Nat} {t : Tree h} {p : Option Addr} {root : Bool}
    {lo : WithBot Int} {hi : WithTop Int}, Rep nodes p t → t.WF root lo hi →
      ∃ first row, t.leafAddrs = first :: row ∧
        follow nodes t.addr (List.replicate h 0) = some first
  | 0, .leaf a es, _, _, _, _, hrep, _ => by
    obtain ⟨n, hn, -⟩ := rep_leaf.mp hrep
    exact ⟨a, [], rfl, follow_nil hn⟩
  | h + 1, .node a ks cs, _, _, _, _, hrep, hw => by
    have hf := (Tree.wf_node.mp hw).2.2.2
    obtain ⟨c, cs, rfl⟩ := List.exists_cons_of_length_eq_add_one hf.length
    obtain ⟨first, row, hrow, hfirst⟩ :=
      follow_leftmost ((rep_node.mp hrep).2 c List.mem_cons_self) (hf.getElem 0 c rfl)
    refine ⟨first, row ++ cs.flatMap Tree.leafAddrs, ?_, ?_⟩
    · rw [Tree.leafAddrs_node, List.flatMap_cons, hrow, List.cons_append]
    · rw [List.replicate_succ, Tree.addr_node, follow_node hrep]
      exact hfirst

theorem leafWalk_eq : ∀ {row : List Addr} {fuel : Nat}, Chain nodes row → row.length ≤ fuel →
    leafWalk nodes fuel row.head? = some row
  | [], fuel, _, _ => by cases fuel <;> rfl
  | a :: row, 0, _, hle => absurd hle (Nat.not_succ_le_zero _)
  | a :: row, fuel + 1, hchain, hle => by
    obtain ⟨hnext, hrest⟩ := hchain
    obtain ⟨n, hn, hnn⟩ := Option.map_eq_some_iff.mp hnext
    rw [List.head?_cons, leafWalk, hn]
    simp only [Option.bind_eq_bind, Option.bind_some, hnn]
    rw [leafWalk_eq hrest (Nat.le_of_succ_le_succ hle)]
    rfl

/-- The keys met along the leaves are those of the tree. -/
theorem leafAddrs_keysAt {h : Nat} {t : Tree h} {p : Option Addr} (hrep : Rep nodes p t) :
    t.leafAddrs.flatMap (keysAt nodes) = t.keys := by
  have hkeys : ∀ l ∈ t.leaves, keysAt nodes l.1 = l.2.map Prod.fst := by
    rintro ⟨a, es⟩ hl
    obtain ⟨n, q, hn, hleaf⟩ := hrep.leaf_mem hl
    rw [keysAt, hn]
    exact hleaf.keyList
  rw [Tree.leafAddrs, List.flatMap_map, Tree.keys, ← Tree.flatMap_leaves, List.map_flatMap]
  exact List.flatMap_congr hkeys

/-- The nodes in the order in which `bptree_free` frees them: children first. -/
def Tree.freed : {h : Nat} → Tree h → List Addr
  | 0, .leaf a _ => [a]
  | h + 1, .node a _ cs => cs.flatMap (Tree.freed (h := h)) ++ [a]

theorem Tree.freed_node {h : Nat} (a : Addr) (ks : List Int) (cs : List (Tree h)) :
    (Tree.node a ks cs).freed = cs.flatMap Tree.freed ++ [a] := rfl

theorem Tree.freed_perm : ∀ {h : Nat} (t : Tree h), t.freed.Perm t.addrs
  | 0, .leaf _ _ => List.Perm.refl _
  | _ + 1, .node a _ cs => by
    rw [Tree.freed_node, Tree.addrs_node]
    exact (List.perm_append_singleton _ _).trans
      ((List.Perm.flatMap_left cs fun c _ => c.freed_perm).cons a)

theorem bptreeFree_eq : ∀ {h : Nat} {t : Tree h} {p : Option Addr}, Rep nodes p t →
    ∀ {fuel : Nat}, h < fuel → bptreeFree nodes fuel (some t.addr) = some t.freed
  | 0, .leaf a es, _, hrep, fuel + 1, _ => by
    obtain ⟨n, hn, hleaf⟩ := rep_leaf.mp hrep
    simp [bptreeFree, hn, hleaf.isLeaf]
    rfl
  | h + 1, .node a ks cs, _, hrep, fuel + 1, hfuel => by
    obtain ⟨⟨n, hn, hint⟩, hcs⟩ := rep_node.mp hrep
    have hcount : n.keyCount + 1 = cs.length := by
      rw [hint.keyCount, ← hint.arity, List.length_map]
    have hkids : (List.range (n.keyCount + 1)).mapM (fun i =>
        bptreeFree nodes fuel (rd n.children i)) = some (cs.map Tree.freed) := by
      rw [mapM_eq_some (g := fun i => (cs[i]?.map Tree.freed).getD []) fun i hi => ?_]
      · rw [hcount, Option.some.injEq]
        refine List.ext_getElem (by simp) fun i h₁ h₂ => ?_
        rw [List.length_map] at h₂
        simp [List.getElem?_eq_getElem h₂]
      · rw [List.mem_range, hcount] at hi
        rw [hint.children, List.getElem?_map, List.getElem?_eq_getElem hi, Option.map_some,
          bptreeFree_eq (hcs _ (List.getElem_mem hi)) (by omega)]
        rfl
    rw [Tree.addr_node, bptreeFree, hn]
    simp only [Option.bind_eq_bind, Option.bind_some, hint.isLeaf, Bool.false_eq_true, if_false,
      hkids]
    rw [Tree.freed_node, List.flatMap_def]

end Paths

/-! ## Every tree that is built is well-formed -/

theorem Stores.pathTo {b : Bptree} {h : Nat} {t : Tree h} (hs : Stores b t) {path : List Nat}
    {a : Addr} {n : BPTreeNode} :
    PathTo b path a n ↔ follow b.nodes t.addr path = some a ∧ b.nodes[a]? = some n := by
  rw [PathTo, hs.root]
  rfl

/-- The subtree that a path leads to. -/
theorem Stores.reaches {b : Bptree} {h : Nat} {t : Tree h} (hs : Stores b t) {path : List Nat}
    {a : Addr} {n : BPTreeNode} (hp : PathTo b path a n) :
    ∃ (h' : Nat) (t' : Tree h') (p' : Option Addr) (root' : Bool) (lo' : WithBot Int)
      (hi' : WithTop Int), t'.addr = a ∧ Reaches b.nodes t ⊥ ⊤ path t' p' root' lo' hi' ∧
      (path = [] → p' = none) ∧ n.parent = p' := by
  obtain ⟨hf, hn⟩ := hs.pathTo.mp hp
  obtain ⟨h', t', p', root', lo', hi', rfl, hreach, htop⟩ := follow_reaches hs.rep hs.wf path hf
  obtain ⟨n', hn', hparent⟩ := hreach.rep.top
  obtain rfl := Option.some.inj (hn.symm.trans hn')
  exact ⟨h', t', p', root', lo', hi', rfl, hreach, fun h => (htop h).1, hparent⟩

/-- A path leads to a leaf at full depth or to an internal node above it. -/
theorem Stores.node_cases {b : Bptree} {h : Nat} {t : Tree h} (hs : Stores b t) {path : List Nat}
    {a : Addr} {n : BPTreeNode} (hp : PathTo b path a n) :
    (path.length = h ∧ a ∈ t.leafAddrs ∧ ∃ p' root lo hi es, LeafNode n p' es ∧
      (Tree.leaf a es).WF root lo hi ∧ (path ≠ [] → root = false)) ∨
    ∃ (h' : Nat) (p' : Option Addr) (root : Bool) (lo : WithBot Int) (hi : WithTop Int)
      (ks : List Int) (cs : List (Tree h')), path.length + (h' + 1) = h ∧
      Rep b.nodes p' (Tree.node a ks cs) ∧ InternalNode n p' ks (cs.map Tree.addr) ∧
      (Tree.node a ks cs).WF root lo hi ∧ (path ≠ [] → root = false) := by
  obtain ⟨h', t', p', root', lo', hi', rfl, hreach, -, -⟩ := hs.reaches hp
  obtain ⟨-, hn⟩ := hs.pathTo.mp hp
  match h', t' with
  | 0, .leaf a es =>
    obtain ⟨n', hn', hleaf⟩ := rep_leaf.mp hreach.rep
    obtain rfl := Option.some.inj (hn.symm.trans hn')
    exact .inl ⟨hreach.depth, hreach.leaves List.mem_cons_self, p', root', lo', hi', es, hleaf,
      hreach.wf, hreach.root⟩
  | h' + 1, .node a ks cs =>
    obtain ⟨⟨n', hn', hint⟩, -⟩ := rep_node.mp hreach.rep
    obtain rfl := Option.some.inj (hn.symm.trans hn')
    exact .inr ⟨h', p', root', lo', hi', ks, cs, hreach.depth, hreach.rep, hint, hreach.wf,
      hreach.root⟩

/-- A path that goes on from a node goes through one of its children. -/
theorem Stores.child {b : Bptree} {h : Nat} {t : Tree h} (hs : Stores b t) {path below : List Nat}
    {i : Nat} {a c : Addr} {n m : BPTreeNode} (hp : PathTo b path a n)
    (hpc : PathTo b (path ++ i :: below) c m) :
    ∃ (h' : Nat) (p' : Option Addr) (root : Bool) (lo : WithBot Int) (hi : WithTop Int)
      (ks : List Int) (cs : List (Tree h')) (d : Tree h'),
      InternalNode n p' ks (cs.map Tree.addr) ∧ (Tree.node a ks cs).WF root lo hi ∧
      Rep b.nodes (some a) d ∧ cs[i]? = some d ∧ follow b.nodes d.addr below = some c := by
  obtain ⟨hf, hn⟩ := hs.pathTo.mp hp
  obtain ⟨hfc, -⟩ := hs.pathTo.mp hpc
  rw [follow_append, hf, Option.bind_some] at hfc
  obtain ⟨h', t', p', root', lo', hi', rfl, hreach, -, -⟩ := hs.reaches hp
  match h', t' with
  | 0, .leaf a es =>
    rw [Tree.addr_leaf, follow_leaf hreach.rep] at hfc
    cases hfc
  | h' + 1, .node a ks cs =>
    obtain ⟨⟨n', hn', hint⟩, hcs⟩ := rep_node.mp hreach.rep
    obtain rfl := Option.some.inj (hn.symm.trans hn')
    rw [Tree.addr_node, follow_node hreach.rep] at hfc
    obtain ⟨d, hd, hfd⟩ := Option.bind_eq_some_iff.mp hfc
    exact ⟨h', p', root', lo', hi', ks, cs, d, hint, hreach.wf, hcs d (List.mem_of_getElem? hd), hd,
      hfd⟩

/-- The leaves of the tree are those that paths lead to. -/
theorem Stores.mem_leafAddrs {b : Bptree} {h : Nat} {t : Tree h} (hs : Stores b t) {a : Addr} :
    a ∈ t.leafAddrs ↔ ∃ path n, PathTo b path a n ∧ n.isLeaf = true := by
  constructor
  · intro ha
    obtain ⟨path, hpath⟩ := exists_path hs.rep a (t.leafAddrs_sublist.subset ha)
    obtain ⟨l, hl, rfl⟩ := List.mem_map.mp ha
    have hleaves : (l.1, l.2) ∈ t.leaves := hl
    obtain ⟨m, q, hm, hleaf⟩ := hs.rep.leaf_mem hleaves
    exact ⟨path, m, hs.pathTo.mpr ⟨hpath, hm⟩, hleaf.isLeaf⟩
  · rintro ⟨path, m, hp, hl⟩
    rcases hs.node_cases hp with ⟨-, ha, -⟩ | ⟨h', p', root, lo, hi, ks, cs, -, -, hint, -⟩
    · exact ha
    · rw [hint.isLeaf] at hl
      cases hl

theorem Stores.wellFormed {b : Bptree} {h : Nat} {t : Tree h} (hs : Stores b t) (hw : Whole b t) :
    WellFormed b h where
  leaf_depth path a n hp := by
    rcases hs.node_cases hp with ⟨hlen, -, p', root, lo, hi, es, hleaf, -⟩ |
      ⟨h', p', root, lo, hi, ks, cs, hlen, -, hint, -⟩
    · exact ⟨fun _ => hlen, fun _ => hleaf.isLeaf⟩
    · refine ⟨fun hl => ?_, fun hl => by omega⟩
      rw [hint.isLeaf] at hl
      cases hl
  leaf_keys path a n hp hl := by
    rcases hs.node_cases hp with ⟨hlen, -, p', root, lo, hi, es, hleaf, hwf, hroot⟩ |
      ⟨h', p', root, lo, hi, ks, cs, hlen, -, hint, -⟩
    · obtain ⟨hspread, hmax, hmin⟩ := Tree.wf_leaf.mp hwf
      rw [hleaf.keyCount]
      refine ⟨?_, hmax, fun hne => hmin (hroot hne)⟩
      exact Nat.pos_of_ne_zero fun h0 => hspread.ne_nil (by
        rw [List.length_eq_zero_iff.mp h0, List.map_nil])
    · rw [hint.isLeaf] at hl
      cases hl
  internal_keys path a n hp hl := by
    rcases hs.node_cases hp with ⟨hlen, -, p', root, lo, hi, es, hleaf, -⟩ |
      ⟨h', p', root, lo, hi, ks, cs, hlen, -, hint, hwf, hroot⟩
    · rw [hleaf.isLeaf] at hl
      cases hl
    · obtain ⟨hmax, hone, hmin, -⟩ := Tree.wf_node.mp hwf
      rw [hint.keyCount]
      exact ⟨hone, hmax, fun hne => hmin (hroot hne)⟩
  children path a n hp hl i hi := by
    rcases hs.node_cases hp with ⟨hlen, -, p', root, lo, hi, es, hleaf, -⟩ |
      ⟨h', p', root, lo, hi, ks, cs, hlen, -, hint, -⟩
    · rw [hleaf.isLeaf] at hl
      cases hl
    · have harity := hint.arity
      rw [hint.children, isSome_getElem?, hint.keyCount]
      omega
  ascending path a n hp := by
    obtain ⟨h', t', p', root', lo', hi', rfl, hreach, -, -⟩ := hs.reaches hp
    exact (keyList_within hreach.rep hreach.wf (hs.pathTo.mp hp).2).1
  separated path a n i below c m hp hpc k hk := by
    obtain ⟨h', p', root', lo', hi', ks, cs, d, hint, hwf, hrep, hd, hfd⟩ := hs.child hp hpc
    have hfenced := (Tree.wf_node.mp hwf).2.2.2
    have hlen := hfenced.length
    have hi := (List.getElem?_eq_some_iff.mp hd).1
    obtain ⟨h'', t'', p'', root'', lo'', hi'', rfl, hreach, -⟩ :=
      follow_reaches hrep (hfenced.getElem i d hd) below hfd
    have hwithin := (keyList_within hreach.rep hreach.wf (hs.pathTo.mp hpc).2).2 k hk
    refine ⟨fun hpos => ?_, fun hlt => ?_⟩
    · have := hreach.lower
      rw [dif_pos ⟨hpos, by omega⟩] at this
      rw [hint.keys (i - 1) (by omega)]
      exact WithBot.coe_le_coe.mp (le_trans this hwithin.1)
    · have := hreach.upper
      rw [hint.keyCount] at hlt
      rw [dif_pos hlt] at this
      rw [hint.keys i hlt]
      exact WithTop.coe_lt_coe.mp (lt_of_lt_of_le hwithin.2 this)
  root_parent a n hp := by
    obtain ⟨h', t', p', root', lo', hi', rfl, hreach, htop, hparent⟩ := hs.reaches hp
    rw [hparent, htop rfl]
  parent path a n i c m hp hpc := by
    obtain ⟨h', p', root', lo', hi', ks, cs, d, -, -, hrep, -, hfd⟩ := hs.child hp hpc
    obtain ⟨m', hm', hparent⟩ := hrep.top
    rw [follow_nil hm', Option.some.injEq] at hfd
    subst hfd
    obtain rfl := Option.some.inj ((hs.pathTo.mp hpc).2.symm.trans hm')
    exact hparent
  chain := by
    obtain ⟨first, row, hrow, hfirst⟩ := follow_leftmost hs.rep hs.wf
    have hnd : t.leafAddrs.Nodup := t.leafAddrs_sublist.nodup hs.nodup
    have hmem : first ∈ t.addrs := t.leafAddrs_sublist.subset (hrow ▸ List.mem_cons_self)
    obtain ⟨n, hn⟩ : ∃ n, b.nodes[first]? = some n :=
      ⟨_, List.getElem?_eq_getElem (hs.rep.lt first hmem)⟩
    have hlen : t.leafAddrs.length ≤ b.nodes.length := by
      refine le_trans t.leafAddrs_sublist.length_le ?_
      rw [hw.all.length_eq, List.length_range]
    have hwalk : leafWalk b.nodes b.nodes.length (some first) = some t.leafAddrs := by
      have := leafWalk_eq hw.chain hlen
      rwa [hrow, List.head?_cons, ← hrow] at this
    have hkeys := leafAddrs_keysAt hs.rep
    refine ⟨first, n, t.leafAddrs, hs.pathTo.mpr ⟨hfirst, hn⟩, hwalk, hnd,
      fun a => hs.mem_leafAddrs, ?_, ?_⟩
    · rw [hkeys]
      exact hs.wf.spread.sorted
    · intro hdepth
      rw [hkeys, Tree.keys, List.length_map]
      obtain ⟨h, rfl⟩ : ∃ h', h = h' + 1 := ⟨h - 1, by omega⟩
      exact hs.wf.root_entries_length
  unique_path a ha := by
    have hmem : a ∈ t.addrs := hw.all.mem_iff.mpr (List.mem_range.mpr ha)
    obtain ⟨path, hpath⟩ := exists_path hs.rep a hmem
    refine ⟨path, ⟨_, hs.pathTo.mpr ⟨hpath, List.getElem?_eq_getElem ha⟩⟩, ?_⟩
    rintro path' ⟨n, hp⟩
    exact path_unique hs.rep hs.nodup path' path (hs.pathTo.mp hp).1 hpath
  freed := by
    refine ⟨t.freed, ?_, t.freed_perm.trans hw.all⟩
    rw [hs.root]
    exact bptreeFree_eq hs.rep hs.height_lt

/-- After every call of a run without a failed allocation the tree is well-formed. That there is
a log at all says that every call returns: the climb through `bptree_insert_into_parent` and
`bptree_split_internal` ends within as many levels as there are nodes. -/
theorem bptree_wellFormed (ops : List (Int × Int)) :
    ∃ log, insertTrace .empty (plentiful ops) = some log ∧ log.length = ops.length ∧
      ∀ exit b, (exit, b) ∈ log → ∃ depth, WellFormed b depth := by
  obtain ⟨log, hlog, hlen, hspec⟩ := insertTrace_built ops [] (.inl ⟨rfl, rfl⟩) fun _ => rfl
  refine ⟨log, hlog, hlen, fun exit b hmem => ?_⟩
  obtain ⟨i, hi, heq⟩ := List.getElem_of_mem hmem
  obtain ⟨op, hop⟩ : ∃ op, ops[i]? = some op := ⟨_, List.getElem?_eq_getElem (hlen ▸ hi)⟩
  obtain ⟨b', es, hb', hbuilt, hes⟩ := hspec i _ _ hop
  rw [List.getElem?_eq_getElem hi, heq, Option.some.injEq, Prod.mk.injEq] at hb'
  obtain ⟨-, rfl⟩ := hb'
  rcases hbuilt with ⟨rfl, rfl⟩ | ⟨h, t, hs, hw, -⟩
  · exact absurd hop (lookup_take_eq_none.mp (hes _).symm i (Nat.lt_succ_self i) _)
  · exact ⟨h, hs.wellFormed hw⟩

end JungleDb
