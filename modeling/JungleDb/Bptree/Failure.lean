import JungleDb.Bptree.Insert

/-!
# `bptree_insert` when an allocation fails

A split rewrites a node before the level above has got the memory it needs, so a refusal there
leaves the upper half of the node out of the tree. `allocationsNeeded` reads off the nodes how many
allocations a call makes; the map a failing call leaves is the old one exactly when the very first
of them is refused.
-/

namespace JungleDb

/-- A tree that calls of `bptree_insert` lead to, whatever becomes of their allocations. -/
inductive Reachable : Bptree → Prop
  | empty : Reachable .empty
  | insert {b b' : Bptree} {callocs : List Bool} {key row : Int} {exit : InsertExit} :
    Reachable b → bptreeInsert b callocs key row = some (exit, b') → Reachable b'

/-- The allocations that an insertion below the node at `a` makes from that node up: one for each
full node on the way and one for a new root. -/
def allocationsFrom (nodes : List BPTreeNode) : Nat → Addr → Nat
  | 0, _ => 0
  | fuel + 1, a =>
    match nodes[a]? with
    | none => 0
    | some n =>
      if n.keyCount < BPTREE_MAX_KEYS then 0
      else match n.parent with
        | none => 2
        | some parent => 1 + allocationsFrom nodes fuel parent

/-- The allocations that the insertion of a new key makes when all of them succeed. -/
def allocationsNeeded (b : Bptree) (key : Int) : Nat :=
  match bptreeFindLeaf b.nodes b.nodes.length b.root key with
  | some (some leaf) => allocationsFrom b.nodes b.nodes.length leaf
  | _ => 1

/-- The allocations at and above the parent `p`. -/
def allocationsAbove (nodes : List BPTreeNode) (fuel : Nat) : Option Addr → Nat
  | none => 1
  | some parent => allocationsFrom nodes fuel parent

theorem allocationsFrom_succ {nodes : List BPTreeNode} {a : Addr} {n : BPTreeNode}
    (hn : nodes[a]? = some n) (fuel : Nat) :
    allocationsFrom nodes (fuel + 1) a =
      if n.keyCount < BPTREE_MAX_KEYS then 0 else 1 + allocationsAbove nodes fuel n.parent := by
  rw [allocationsFrom, hn]
  cases hp : n.parent <;> simp [allocationsAbove, hp]

/-- The climb over the parent pointers counts the full nodes of the abstract tree. -/
theorem allocationsFrom_eq {nodes : List BPTreeNode} {key : Int} : ∀ {h : Nat} {root : Bool}
    {lo : WithBot Int} {hi : WithTop Int} {p : Option Addr} {t : Tree h}, t.WF root lo hi →
      Fence.Within lo hi key → Rep nodes p t → ∀ {leaf : Addr}, t.leafFor key = some leaf →
        ∀ fuel : Nat, allocationsFrom nodes (fuel + (h + 1)) leaf =
          if t.overflow key ≤ h then t.overflow key else h + 1 + allocationsAbove nodes fuel p
  | 0, _, _, _, p, .leaf a es, _, _, hrep, leaf, hfor, fuel => by
    obtain rfl : a = leaf := Option.some.inj hfor
    obtain ⟨n, hn, hleaf⟩ := rep_leaf.mp hrep
    rw [allocationsFrom_succ hn, hleaf.keyCount, hleaf.parent, Tree.overflow_leaf]
    by_cases hfull : es.length < BPTREE_MAX_KEYS
    · simp [hfull]
    · simp [hfull]
  | h + 1, _, _, _, p, .node a ks cs, hw, hk, hrep, leaf, hfor, fuel => by
    obtain ⟨⟨n, hn, hint⟩, hcs⟩ := rep_node.mp hrep
    obtain ⟨lk, rk, ls, c, rs, lo', hi', rfl, rfl, hole⟩ :=
      Fence.Fenced.hole (fun _ _ _ hc => Tree.WF.spread hc) (Tree.wf_node.mp hw).2.2.2 hk
    have hroute := hole.routed.trans hole.left.symm
    rw [Tree.leafFor_node hroute] at hfor
    have ih := allocationsFrom_eq hole.child hole.within (hcs c (by simp)) hfor (fuel + 1)
    rw [show fuel + (h + 1 + 1) = fuel + 1 + (h + 1) by omega, ih, Tree.overflow_node a hroute]
    by_cases hm : c.overflow key ≤ h
    · simp only [hm, if_true]
      rw [if_pos (Nat.le_succ_of_le hm)]
    · have hle : c.overflow key = h + 1 := by
        have := c.overflow_le key
        omega
      simp only [hm, if_false]
      rw [show allocationsAbove nodes (fuel + 1) (some a) = allocationsFrom nodes (fuel + 1) a from rfl,
        allocationsFrom_succ hn, hint.keyCount, hint.parent]
      by_cases hfull : (lk ++ rk).length < BPTREE_MAX_KEYS
      · simp only [hfull, if_true]
        rw [if_pos hle.le, hle]
      · simp only [hfull, if_false]
        rw [if_neg (by omega)]
        omega

theorem Stores.allocationsNeeded {b : Bptree} {h : Nat} {t : Tree h} (hs : Stores b t) (key : Int) :
    allocationsNeeded b key = t.allocations key := by
  obtain ⟨leaf, -, hleaf, -, -⟩ := hs.wf.leafFor (Fence.within_univ key)
  have hlt := hs.height_lt
  have hle := t.overflow_le key
  have hfrom := allocationsFrom_eq hs.wf (Fence.within_univ key) hs.rep hleaf
    (b.nodes.length - (h + 1))
  rw [Nat.sub_add_cancel hlt] at hfrom
  rw [JungleDb.allocationsNeeded, hs.findLeaf, hleaf]
  simp only [hfrom, Tree.allocations, allocationsAbove]
  split
  · rfl
  · omega

/-- A reachable tree is NULL or holds a well-formed tree, perhaps next to nodes it has lost. -/
theorem Reachable.stores {b : Bptree} (hr : Reachable b) :
    b = .empty ∨ ∃ (h : Nat) (t : Tree h), Stores b t := by
  induction hr with
  | empty => exact .inl rfl
  | @insert b b' callocs key row exit _ hrun ih =>
    rcases ih with rfl | ⟨h, t, hs⟩
    · rcases bptreeInsert_empty callocs key row with ⟨-, h⟩ | ⟨-, b'', h, hs, -⟩
      · rw [h, Option.some.injEq, Prod.mk.injEq] at hrun
        exact .inl hrun.2.symm
      · rw [h, Option.some.injEq, Prod.mk.injEq] at hrun
        obtain ⟨-, rfl⟩ := hrun
        exact .inr ⟨0, _, hs⟩
    · by_cases hk : key ∈ t.keys
      · rw [hs.insert_duplicate hk, Option.some.injEq, Prod.mk.injEq] at hrun
        obtain ⟨-, rfl⟩ := hrun
        exact .inr ⟨h, t, hs⟩
      · by_cases hg : Granted (t.allocations key) callocs
        · obtain ⟨b'', h', t', h, hs', -, -⟩ := hs.insert_granted hk hg row
          rw [h, Option.some.injEq, Prod.mk.injEq] at hrun
          obtain ⟨-, rfl⟩ := hrun
          exact .inr ⟨h', t', hs'⟩
        · obtain ⟨b'', t', h, hs', -⟩ := hs.insert_refused hk hg row
          rw [h, Option.some.injEq, Prod.mk.injEq] at hrun
          obtain ⟨-, rfl⟩ := hrun
          exact .inr ⟨_, t', hs'⟩

/-- A call that fails leaves the map as it was exactly when there is nothing to split, the first
allocation is refused, or no allocation is. -/
theorem bptree_failure_keeps_map {b : Bptree} (hr : Reachable b) (callocs : List Bool)
    (key row : Int) :
    (∃ exit b', bptreeInsert b callocs key row = some (exit, b') ∧
      (exit.status = .failure → ∀ k, bptreeSearch b' k = bptreeSearch b k)) ↔
    (b.root = none ∨ (∃ r, bptreeSearch b key = some (some r)) ∨ callocs.head? = some false ∨
      ∀ i < allocationsNeeded b key, callocs[i]? ≠ some false) := by
  rcases hr.stores with rfl | ⟨h, t, hs⟩
  · refine ⟨fun _ => .inl rfl, fun _ => ?_⟩
    rcases bptreeInsert_empty callocs key row with ⟨-, h⟩ | ⟨-, b', h, -, -⟩
    · exact ⟨_, _, h, fun _ _ => rfl⟩
    · exact ⟨_, _, h, nofun⟩
  · have hroot : b.root ≠ none := by rw [hs.root]; nofun
    rw [hs.allocationsNeeded, hs.search key]
    by_cases hk : key ∈ t.keys
    · obtain ⟨r, hlook⟩ := Option.isSome_iff_exists.mp (Fence.isSome_lookup.mpr hk)
      refine ⟨fun _ => .inr (.inl ⟨r, by rw [hlook]⟩), fun _ => ?_⟩
      exact ⟨_, _, hs.insert_duplicate hk callocs row, fun _ _ => rfl⟩
    · by_cases hg : Granted (t.allocations key) callocs
      · obtain ⟨b', h', t', hrun, -, -, -⟩ := hs.insert_granted hk hg row
        exact ⟨fun _ => .inr (.inr (.inr hg)), fun _ => ⟨_, b', hrun, nofun⟩⟩
      · obtain ⟨b', t', hrun, hs', hlost⟩ := hs.insert_refused hk hg row
        by_cases hhead : callocs.head? = some false
        · rw [if_pos hhead] at hlost
          subst hlost
          refine ⟨fun _ => .inr (.inr (.inl hhead)), fun _ => ⟨_, b', hrun, fun _ k => ?_⟩⟩
          rw [hs'.search, hs.search]
        · rw [if_neg hhead] at hlost
          obtain ⟨k, hkt, hkt'⟩ := hlost
          refine ⟨?_, ?_⟩
          · rintro ⟨exit, b'', hrun', hsame⟩
            rw [hrun, Option.some.injEq, Prod.mk.injEq] at hrun'
            obtain ⟨rfl, rfl⟩ := hrun'
            have := hsame rfl k
            rw [hs'.search, hs.search, Option.some.injEq] at this
            exact absurd (Fence.isSome_lookup.mp (this ▸ Fence.isSome_lookup.mpr hkt)) hkt'
          · rintro (h | ⟨r, h⟩ | h | h)
            · exact absurd h hroot
            · rw [Option.some.injEq] at h
              exact absurd (Fence.isSome_lookup.mp (h ▸ rfl)) hk
            · exact absurd h hhead
            · exact absurd h hg

/-! ## A full leaf and a refused second allocation -/

theorem Reachable.of_trace : ∀ {calls : List InsertCall} {b : Bptree}
    {log : List (InsertExit × Bptree)}, Reachable b → insertTrace b calls = some log →
      ∀ r ∈ log, Reachable r.2
  | [], _, _, _, hlog, r, hr => by
    rw [insertTrace, Option.some.injEq] at hlog
    subst hlog
    cases hr
  | c :: calls, b, log, hb, hlog, r, hr => by
    simp only [insertTrace, Option.bind_eq_bind, Option.bind_eq_some_iff, Option.some.injEq] at hlog
    obtain ⟨⟨exit, b'⟩, hrun, rest, hrest, rfl⟩ := hlog
    have hb' : Reachable b' := .insert hb hrun
    rcases List.mem_cons.mp hr with rfl | hr
    · exact hb'
    · exact hb'.of_trace hrest r hr

/-- The tree after a run in which no allocation fails. -/
def treeAfter (ops : List (Int × Int)) : Bptree :=
  (((insertTrace .empty (plentiful ops)).bind (·.getLast?)).map Prod.snd).getD .empty

theorem reachable_treeAfter (ops : List (Int × Int)) : Reachable (treeAfter ops) := by
  unfold treeAfter
  cases hlog : insertTrace .empty (plentiful ops) with
  | none => exact .empty
  | some log =>
    rw [Option.bind_some]
    cases hlast : log.getLast? with
    | none => exact .empty
    | some r => exact Reachable.empty.of_trace hlog r (List.mem_of_getLast? hlast)

/-- The keys 1 to 31 with the row indices 0 to 30: one full leaf. -/
def fullLeaf : Bptree := treeAfter ((List.range 31).map fun (i : Nat) => ((i : Int) + 1, (i : Int)))

theorem bptree_failure_keeps_map_fullLeaf :
    (∃ exit b', bptreeInsert fullLeaf [false] 32 31 = some (exit, b') ∧
      (exit.status = .failure → ∀ k, bptreeSearch b' k = bptreeSearch fullLeaf k)) ↔
    (fullLeaf.root = none ∨ (∃ r, bptreeSearch fullLeaf 32 = some (some r)) ∨
      [false].head? = some false ∨ ∀ i < allocationsNeeded fullLeaf 32, [false][i]? ≠ some false) :=
  bptree_failure_keeps_map (reachable_treeAfter _) [false] 32 31

/-- The new leaf is granted, the new root refused: the call fails and key 31 is gone. -/
theorem bptree_failure_loses_key :
    ∃ b b', Reachable b ∧ bptreeInsert b [true, false] 32 31 = some (.noMemory, b') ∧
      bptreeSearch b 31 = some (some 30) ∧ bptreeSearch b' 31 = some none := by
  have hrun : (bptreeInsert fullLeaf [true, false] 32 31).map
      (fun r => (r.1, bptreeSearch r.2 31)) = some (.noMemory, some none) := by decide +kernel
  obtain ⟨⟨exit, b'⟩, hinsert, hsearch⟩ := Option.map_eq_some_iff.mp hrun
  obtain ⟨rfl, hsearch⟩ := Prod.mk.inj hsearch
  exact ⟨fullLeaf, b', reachable_treeAfter _, hinsert, by decide +kernel, hsearch⟩

end JungleDb
