import JungleDb.Lib.CArray

/-!
# Chained hash tables

A table is an array of buckets, a bucket a chain of nodes, a node a key with the items that were
added under it. An item goes to the first node with its key, or to a new node at the head of the
chain. The hash decides only which bucket is looked at: whatever it is, the items under a key are
those that were added with it, in order.
-/

namespace HashChain

open CArray

variable {κ ν : Type}

/-- A node of a chain. -/
structure Node (κ ν : Type) where
  key : κ
  items : List ν
  deriving DecidableEq, Repr

/-- The buckets. -/
abbrev Table (κ ν : Type) (n : Nat) : Type := Vector (List (Node κ ν)) n

def empty (n : Nat) : Table κ ν n := Vector.replicate n []

variable [DecidableEq κ]

/-- Append the item to the first node with the key. -/
def append (key : κ) (item : ν) : List (Node κ ν) → Option (List (Node κ ν))
  | [] => none
  | node :: next =>
    if node.key = key then some ({ node with items := node.items ++ [item] } :: next)
    else (append key item next).map (node :: ·)

/-- Append the item, or put a new node at the head. -/
def push (key : κ) (item : ν) (chain : List (Node κ ν)) : List (Node κ ν) :=
  match append key item chain with
  | some chain => chain
  | none => ⟨key, [item]⟩ :: chain

/-- The first node with the key. -/
def find (key : κ) (chain : List (Node κ ν)) : Option (Node κ ν) :=
  chain.find? fun node => node.key = key

/-- The items under the key in a chain. -/
def itemsOf (key : κ) (chain : List (Node κ ν)) : List ν := ((find key chain).map Node.items).getD []

variable {n : Nat} (hash : κ → Nat)

/-- The bucket of a key. -/
def bucket (n : Nat) (key : κ) : Nat := hash key % n

def add (table : Table κ ν n) (key : κ) (item : ν) : Table κ ν n :=
  wr table (bucket hash n key) (push key item (rd table (bucket hash n key)))

/-- The node of the key in its bucket. -/
def lookup (table : Table κ ν n) (key : κ) : Option (Node κ ν) :=
  find key (rd table (bucket hash n key))

/-- The items under the key. -/
def items (table : Table κ ν n) (key : κ) : List ν := itemsOf key (rd table (bucket hash n key))

/-! ## One item more -/

theorem itemsOf_cons (key : κ) (node : Node κ ν) (chain : List (Node κ ν)) :
    itemsOf key (node :: chain) = if node.key = key then node.items else itemsOf key chain := by
  unfold itemsOf find
  by_cases h : node.key = key
  · rw [List.find?_cons_of_pos (by simpa using h), if_pos h]
    rfl
  · rw [List.find?_cons_of_neg (by simpa using h), if_neg h]

theorem itemsOf_append {key : κ} {item : ν} {chain chain' : List (Node κ ν)}
    (h : append key item chain = some chain') (key' : κ) :
    itemsOf key' chain' = itemsOf key' chain ++ if key = key' then [item] else [] := by
  induction chain generalizing chain' with
  | nil => cases h
  | cons node chain ih =>
    rw [append] at h
    by_cases hnode : node.key = key
    · rw [if_pos hnode] at h
      cases h
      rw [itemsOf_cons, itemsOf_cons]
      by_cases hkey : key = key'
      · rw [if_pos (hnode.trans hkey), if_pos (hnode.trans hkey), if_pos hkey]
      · have hother : node.key ≠ key' := fun hsame => hkey (hnode.symm.trans hsame)
        rw [if_neg hother, if_neg hother, if_neg hkey, List.append_nil]
    · rw [if_neg hnode] at h
      obtain ⟨more, hmore, rfl⟩ := Option.map_eq_some_iff.mp h
      rw [itemsOf_cons, itemsOf_cons, ih hmore]
      by_cases hkey : node.key = key'
      · have hother : key ≠ key' := fun hsame => hnode (hkey.trans hsame.symm)
        rw [if_pos hkey, if_pos hkey, if_neg hother, List.append_nil]
      · rw [if_neg hkey, if_neg hkey]

theorem itemsOf_of_append_none {key : κ} {item : ν} {chain : List (Node κ ν)}
    (h : append key item chain = none) : itemsOf key chain = [] := by
  induction chain with
  | nil => rfl
  | cons node chain ih =>
    rw [append] at h
    by_cases hnode : node.key = key
    · rw [if_pos hnode] at h
      cases h
    · rw [if_neg hnode] at h
      rw [itemsOf_cons, if_neg hnode]
      exact ih (Option.map_eq_none_iff.mp h)

theorem itemsOf_push (key : κ) (item : ν) (chain : List (Node κ ν)) (key' : κ) :
    itemsOf key' (push key item chain) =
      itemsOf key' chain ++ if key = key' then [item] else [] := by
  unfold push
  cases h : append key item chain with
  | some chain' => exact itemsOf_append h key'
  | none =>
    show itemsOf key' (⟨key, [item]⟩ :: chain) = _
    rw [itemsOf_cons]
    by_cases hkey : key = key'
    · rw [if_pos hkey, if_pos hkey, ← hkey, itemsOf_of_append_none h]
      rfl
    · rw [if_neg hkey, if_neg hkey, List.append_nil]

/-- The item comes last under its key, and nothing changes under the others, those of the same bucket
too. -/
theorem items_add (hn : 0 < n) (table : Table κ ν n) (key : κ) (item : ν) (key' : κ) :
    items hash (add hash table key item) key' =
      items hash table key' ++ if key = key' then [item] else [] := by
  unfold items add
  have hbound : bucket hash n key < n := Nat.mod_lt _ hn
  rw [rd_wr _ _ _ _ hbound]
  by_cases hbucket : bucket hash n key' = bucket hash n key
  · rw [if_pos hbucket, itemsOf_push, hbucket]
  · have hkey : key ≠ key' := fun hsame => hbucket (congrArg _ hsame.symm)
    rw [if_neg hbucket, if_neg hkey, List.append_nil]

theorem items_empty (key : κ) : items hash (empty n : Table κ ν n) key = [] := by
  unfold items empty
  rw [show ([] : List (Node κ ν)) = default from rfl, rd_replicate]
  rfl

/-- Under a key are the items added with it, in order. -/
theorem items_foldl_add (hn : 0 < n) (entries : List (κ × ν)) (table : Table κ ν n) (key : κ) :
    items hash (entries.foldl (fun table entry => add hash table entry.1 entry.2) table) key =
      items hash table key ++ (entries.filter fun entry => entry.1 = key).map Prod.snd := by
  induction entries generalizing table with
  | nil => exact (List.append_nil _).symm
  | cons entry entries ih =>
    rw [List.foldl_cons, ih, items_add hash hn, List.append_assoc]
    by_cases hkey : entry.1 = key
    · rw [if_pos hkey, List.filter_cons_of_pos (by simpa using hkey)]
      rfl
    · rw [if_neg hkey, List.filter_cons_of_neg (by simpa using hkey)]
      rfl

end HashChain
