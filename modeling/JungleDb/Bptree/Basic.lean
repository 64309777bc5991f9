import JungleDb.Lib.CArray

/-!
# The B+ tree of `bptree.c`

The nodes live in a memory that grows by one node per successful `bptree_create_node`; an address
is the index of a node in it and NULL is `none`. A step that C leaves undefined (a dereference of
NULL or of no node, a loop that never ends) is `none` in the outer `Option`; that none of them
happens is part of what is proved. The allocator is a list of outcomes, read one per `calloc`; when
the list is used up every further `calloc` succeeds.
-/

namespace JungleDb

open CArray

/-- `SUCCESS` and `FAILURE`. -/
inductive Status
  | success
  | failure
  deriving DecidableEq, Repr

/-- `BPTREE_MAX_KEYS`. -/
abbrev BPTREE_MAX_KEYS : Nat := 31

/-- The address of a node. -/
abbrev Addr := Nat

/-- `BPTreeNode`. -/
structure BPTreeNode where
  isLeaf : Bool
  keyCount : Nat
  keys : Vector Int BPTREE_MAX_KEYS
  parent : Option Addr
  children : Vector (Option Addr) (BPTREE_MAX_KEYS + 1)
  rowIndices : Vector Int BPTREE_MAX_KEYS
  next : Option Addr
  deriving DecidableEq, Repr

/-- A tree: its nodes and the root pointer of its owner. -/
structure Bptree where
  nodes : List BPTreeNode
  root : Option Addr
  deriving DecidableEq, Repr

/-- The NULL root. -/
def Bptree.empty : Bptree := ⟨[], none⟩

/-- A tree together with the outcomes of the coming `calloc`s. -/
structure TreeState extends Bptree where
  callocs : List Bool
  deriving DecidableEq, Repr

namespace TreeState

/-- `*a`. -/
def load (s : TreeState) (a : Addr) : Option BPTreeNode := s.nodes[a]?

/-- An update of the fields of `*a`. -/
def modify (s : TreeState) (a : Addr) (f : BPTreeNode → BPTreeNode) : Option TreeState :=
  if a < s.nodes.length then some { s with nodes := s.nodes.modify a f } else none

end TreeState

/-- The outcome of the next `calloc` and the outcomes after it. -/
def calloc : List Bool → Bool × List Bool
  | [] => (true, [])
  | granted :: rest => (granted, rest)

/-- The `return` statement that a call of `bptree_insert` leaves by. -/
inductive InsertExit
  /-- `return SUCCESS;` -/
  | inserted
  /-- `bptree_create_node` returned NULL. -/
  | noMemory
  /-- `bptree_search` found the key. -/
  | duplicateKey
  /-- `bptree_find_child_index` returned `FAILURE`. -/
  | noChildIndex
  /-- A guard on the node arguments failed. -/
  | badNode
  deriving DecidableEq, Repr

/-- The value returned. -/
def InsertExit.status : InsertExit → Status
  | .inserted => .success
  | _ => .failure

/-- A node as `calloc` leaves it, with its `is_leaf` set. -/
def BPTreeNode.blank (isLeaf : Bool) : BPTreeNode where
  isLeaf := isLeaf
  keyCount := 0
  keys := Vector.replicate _ 0
  parent := none
  children := Vector.replicate _ none
  rowIndices := Vector.replicate _ 0
  next := none

/-- `bptree_create_node`. -/
def bptreeCreateNode (s : TreeState) (isLeaf : Bool) : Option Addr × TreeState :=
  match calloc s.callocs with
  | (false, rest) => (none, { s with callocs := rest })
  | (true, rest) => (some s.nodes.length,
      { s with nodes := s.nodes ++ [BPTreeNode.blank isLeaf], callocs := rest })

/-- `bptree_find_child_index`: the index, or `none` for `FAILURE`. -/
def bptreeFindChildIndex (parent : BPTreeNode) (child : Addr) : Option Nat :=
  (List.range (parent.keyCount + 1)).find? fun i => rd parent.children i == some child

/-- `bptree_insert_into_internal`. -/
def bptreeInsertIntoInternal (s : TreeState) (node : Addr) (childIndex : Nat) (key : Int)
    (rightChild : Addr) : Option TreeState := do
  let s ← s.modify node fun n => { n with
    keys := wr (shiftUp childIndex n.keyCount n.keys) childIndex key
    children := wr (shiftUp (childIndex + 1) (n.keyCount + 1) n.children) (childIndex + 1)
      (some rightChild) }
  let s ← s.modify rightChild fun r => { r with parent := some node }
  s.modify node fun n => { n with keyCount := n.keyCount + 1 }

/-- `bptree_find_leaf`; `fuel` bounds the number of internal nodes on the way down. -/
def bptreeFindLeaf (nodes : List BPTreeNode) : Nat → Option Addr → Int → Option (Option Addr)
  | _, none, _ => some none
  | fuel, some current, key => do
    let n ← nodes[current]?
    if n.isLeaf then some (some current)
    else match fuel with
      | 0 => none
      | fuel + 1 =>
        let i := (List.range n.keyCount).findIdx fun i => key < rd n.keys i
        bptreeFindLeaf nodes fuel (rd n.children i) key

/-- `bptree_search`: the row index, or `none` for `FAILURE`. -/
def bptreeSearch (t : Bptree) (key : Int) : Option (Option Int) := do
  let leaf ← bptreeFindLeaf t.nodes t.nodes.length t.root key
  match leaf with
  | none => some none
  | some leaf =>
    let n ← t.nodes[leaf]?
    match (List.range n.keyCount).find? fun i => rd n.keys i == key with
    | some i => some (some (rd n.rowIndices i))
    | none => some none

/-- The slot of `key` in a leaf: `while (i < leaf->key_count && leaf->keys[i] < key) i++;` -/
def leafInsertIndex (leaf : BPTreeNode) (key : Int) : Nat :=
  (List.range leaf.keyCount).findIdx fun i => !(rd leaf.keys i < key)

/-- `bptree_insert_into_leaf`. -/
def bptreeInsertIntoLeaf (s : TreeState) (leaf : Addr) (key rowIndex : Int) :
    Option (InsertExit × TreeState) := do
  let n ← s.load leaf
  if !n.isLeaf || BPTREE_MAX_KEYS ≤ n.keyCount then some (.badNode, s)
  else
    let insertIndex := leafInsertIndex n key
    let s ← s.modify leaf fun n => { n with
      keys := wr (shiftUp insertIndex n.keyCount n.keys) insertIndex key
      rowIndices := wr (shiftUp insertIndex n.keyCount n.rowIndices) insertIndex rowIndex
      keyCount := n.keyCount + 1 }
    some (.inserted, s)

/-- `owner->children[i] = child; if (child != NULL) child->parent = owner;` -/
def setChild (s : TreeState) (owner : Addr) (i : Nat) (child : Option Addr) :
    Option TreeState := do
  let s ← s.modify owner fun n => { n with children := wr n.children i child }
  match child with
  | none => some s
  | some c => s.modify c fun n => { n with parent := some owner }

/-- The loop of `bptree_split_internal` that refills the old node from the merged arrays. -/
def refillLeft (tempKeys : Vector Int (BPTREE_MAX_KEYS + 1))
    (tempChildren : Vector (Option Addr) (BPTREE_MAX_KEYS + 2)) (node : Addr) :
    Nat → Nat → TreeState → Option TreeState
  | 0, _, s => some s
  | todo + 1, i, s => do
    let s ← s.modify node fun n => { n with keys := wr n.keys i (rd tempKeys i) }
    let s ← setChild s node i (rd tempChildren i)
    let s ← s.modify node fun n => { n with keyCount := n.keyCount + 1 }
    refillLeft tempKeys tempChildren node todo (i + 1) s

/-- The loop of `bptree_split_internal` that moves the upper children to the new node. -/
def fillRight (tempChildren : Vector (Option Addr) (BPTREE_MAX_KEYS + 2)) (newNode : Addr) :
    Nat → Nat → Nat → TreeState → Option TreeState
  | 0, _, _, s => some s
  | todo + 1, i, j, s => do
    let s ← setChild s newNode j (rd tempChildren i)
    fillRight tempChildren newNode todo (i + 1) (j + 1) s

/-- `bptree_split_internal`; `insertIntoParent` is the function it calls back at its end. -/
def bptreeSplitInternal
    (insertIntoParent : TreeState → Addr → Int → Addr → Option (InsertExit × TreeState))
    (s : TreeState) (node : Addr) (leftChildIndex : Nat) (key : Int) (rightChild : Addr) :
    Option (InsertExit × TreeState) := do
  let n ← s.load node
  if n.isLeaf then some (.badNode, s)
  else match bptreeCreateNode s false with
    | (none, s) => some (.noMemory, s)
    | (some newNode, s) =>
      let totalKeys := n.keyCount + 1
      let tempKeys : Vector Int (BPTREE_MAX_KEYS + 1) :=
        splice n.keys leftChildIndex key totalKeys 0 0 (Vector.replicate _ 0)
      let tempChildren : Vector (Option Addr) (BPTREE_MAX_KEYS + 2) :=
        splice n.children (leftChildIndex + 1) (some rightChild) (totalKeys + 1) 0 0
          (Vector.replicate _ none)
      let promoteIndex := totalKeys / 2
      let promoteKey := rd tempKeys promoteIndex
      let s ← s.modify node fun n => { n with keyCount := 0, children := Vector.replicate _ none }
      let s ← refillLeft tempKeys tempChildren node promoteIndex 0 s
      let s ← setChild s node promoteIndex (rd tempChildren promoteIndex)
      let moved := totalKeys - (promoteIndex + 1)
      let s ← s.modify newNode fun n => { n with
        keys := copyDown tempKeys moved (promoteIndex + 1) 0 n.keys
        keyCount := n.keyCount + moved }
      let s ← fillRight tempChildren newNode (moved + 1) (promoteIndex + 1) 0 s
      let n ← s.load node
      let s ← s.modify newNode fun r => { r with parent := n.parent }
      insertIntoParent s node promoteKey newNode

/-- `bptree_insert_into_parent`; `fuel` bounds the number of levels it climbs. -/
def bptreeInsertIntoParent : Nat → TreeState → Addr → Int → Addr → Option (InsertExit × TreeState)
  | 0, _, _, _, _ => none
  | fuel + 1, s, left, key, right => do
    let l ← s.load left
    match l.parent with
    | none =>
      match bptreeCreateNode s false with
      | (none, s) => some (.noMemory, s)
      | (some newRoot, s) =>
        let s ← s.modify newRoot fun n => { n with
          keys := wr n.keys 0 key
          children := wr (wr n.children 0 (some left)) 1 (some right)
          keyCount := 1 }
        let s ← s.modify left fun n => { n with parent := some newRoot }
        let s ← s.modify right fun n => { n with parent := some newRoot }
        some (.inserted, { s with root := some newRoot })
    | some parent =>
      let p ← s.load parent
      match bptreeFindChildIndex p left with
      | none => some (.noChildIndex, s)
      | some childIndex =>
        if p.keyCount < BPTREE_MAX_KEYS then
          let s ← bptreeInsertIntoInternal s parent childIndex key right
          some (.inserted, s)
        else bptreeSplitInternal (bptreeInsertIntoParent fuel) s parent childIndex key right

/-- `bptree_split_leaf`. -/
def bptreeSplitLeaf (fuel : Nat) (s : TreeState) (leaf : Addr) (key rowIndex : Int) :
    Option (InsertExit × TreeState) := do
  let n ← s.load leaf
  if !n.isLeaf then some (.badNode, s)
  else match bptreeCreateNode s true with
    | (none, s) => some (.noMemory, s)
    | (some newLeaf, s) =>
      let totalKeys := n.keyCount + 1
      let insertIndex := leafInsertIndex n key
      let tempKeys : Vector Int (BPTREE_MAX_KEYS + 1) :=
        splice n.keys insertIndex key totalKeys 0 0 (Vector.replicate _ 0)
      let tempRowIndices : Vector Int (BPTREE_MAX_KEYS + 1) :=
        splice n.rowIndices insertIndex rowIndex totalKeys 0 0 (Vector.replicate _ 0)
      let splitIndex := totalKeys / 2
      let s ← s.modify leaf fun n => { n with
        keys := copyDown tempKeys splitIndex 0 0 n.keys
        rowIndices := copyDown tempRowIndices splitIndex 0 0 n.rowIndices
        keyCount := splitIndex }
      let moved := totalKeys - splitIndex
      let s ← s.modify newLeaf fun n => { n with
        keys := copyDown tempKeys moved splitIndex 0 n.keys
        rowIndices := copyDown tempRowIndices moved splitIndex 0 n.rowIndices
        keyCount := n.keyCount + moved }
      let n ← s.load leaf
      let s ← s.modify newLeaf fun r => { r with next := n.next }
      let s ← s.modify leaf fun n => { n with next := some newLeaf }
      let s ← s.modify newLeaf fun r => { r with parent := n.parent }
      let r ← s.load newLeaf
      bptreeInsertIntoParent fuel s leaf (rd r.keys 0) newLeaf

/-- `bptree_insert` on a state of the tree and the allocator. -/
def bptreeInsertState (s : TreeState) (key rowIndex : Int) : Option (InsertExit × TreeState) :=
  match s.root with
  | none =>
    match bptreeCreateNode s true with
    | (none, s) => some (.noMemory, s)
    | (some root, s) => do
      let s ← s.modify root fun n => { n with
        keys := wr n.keys 0 key, rowIndices := wr n.rowIndices 0 rowIndex, keyCount := 1 }
      some (.inserted, { s with root := some root })
  | some root => do
    let found ← bptreeSearch s.toBptree key
    if found.isSome then some (.duplicateKey, s)
    else
      let leaf ← bptreeFindLeaf s.nodes s.nodes.length (some root) key
      match leaf with
      | none => some (.badNode, s)
      | some leaf =>
        let n ← s.load leaf
        if n.keyCount < BPTREE_MAX_KEYS then bptreeInsertIntoLeaf s leaf key rowIndex
        else bptreeSplitLeaf (s.nodes.length + 1) s leaf key rowIndex

/-- `bptree_insert`: what it returns by and the tree it leaves, when the `calloc`s of the call
have the outcomes `callocs`. -/
def bptreeInsert (t : Bptree) (callocs : List Bool) (key rowIndex : Int) :
    Option (InsertExit × Bptree) :=
  (bptreeInsertState ⟨t, callocs⟩ key rowIndex).map fun r => (r.1, r.2.toBptree)

/-- `bptree_free`: the addresses passed to `free`, in order. -/
def bptreeFree (nodes : List BPTreeNode) : Nat → Option Addr → Option (List Addr)
  | _, none => some []
  | 0, some _ => none
  | fuel + 1, some a => do
    let n ← nodes[a]?
    if n.isLeaf then some [a]
    else do
      let freed ← (List.range (n.keyCount + 1)).mapM fun i => bptreeFree nodes fuel (rd n.children i)
      some (freed.flatten ++ [a])

end JungleDb
