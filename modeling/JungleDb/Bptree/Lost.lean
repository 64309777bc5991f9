import JungleDb.Bptree.Failure
import JungleDb.Bptree.WellFormed

/-!
# The nodes that a tree has lost

A split links its new node before the level above has got the memory it needs. Where that is refused the
call fails, and the nodes of the upper half stay allocated although no child pointer leads to them:
`bptree_free` does not come to them. Every tree that calls lead to consists of the nodes that
`bptree_free` frees, each of them once, and the nodes that are lost; a call loses nodes exactly if it
fails after it was granted one.
-/

namespace JungleDb

open Fence

/-- The nodes that `bptree_free` does not come to. -/
def Bptree.lost (b : Bptree) : List Addr :=
  (List.range b.nodes.length).filter fun a =>
    a ∉ (bptreeFree b.nodes b.nodes.length b.root).getD []

/-- The nodes of the tree and the lost ones are all nodes there are. -/
theorem Rep.addrs_lost_perm {b : Bptree} {h : Nat} {t : Tree h} (hrep : Rep b.nodes none t)
    (hroot : b.root = some t.addr) (hnd : t.addrs.Nodup) (hlt : h < b.nodes.length) :
    (t.addrs ++ b.lost).Perm (List.range b.nodes.length) := by
  have hfree : bptreeFree b.nodes b.nodes.length b.root = some t.freed := by
    rw [hroot]
    exact bptreeFree_eq hrep hlt
  have hreached : t.addrs.Perm ((List.range b.nodes.length).filter fun a => a ∈ t.freed) := by
    refine (List.perm_ext_iff_of_nodup hnd (List.nodup_range.filter _)).mpr fun a => ?_
    rw [List.mem_filter, List.mem_range, decide_eq_true_iff, t.freed_perm.mem_iff]
    exact ⟨fun ha => ⟨hrep.lt a ha, ha⟩, fun ha => ha.2⟩
  have hlost : b.lost = (List.range b.nodes.length).filter fun a => !decide (a ∈ t.freed) := by
    rw [Bptree.lost, hfree]
    simp
  rw [hlost]
  exact (hreached.append_right _).trans (List.filter_append_perm _ _)

theorem Stores.addrs_lost_perm {b : Bptree} {h : Nat} {t : Tree h} (hs : Stores b t) :
    (t.addrs ++ b.lost).Perm (List.range b.nodes.length) :=
  hs.rep.addrs_lost_perm hs.root hs.nodup hs.height_lt

/-- `bptree_free` frees no node twice, and it frees all but the lost ones. -/
theorem Reachable.freed_lost_perm {b : Bptree} (hr : Reachable b) :
    ∃ freed, bptreeFree b.nodes b.nodes.length b.root = some freed ∧
      (freed ++ b.lost).Perm (List.range b.nodes.length) := by
  rcases hr.stores with rfl | ⟨h, t, hs⟩
  · exact ⟨[], rfl, .nil⟩
  · refine ⟨t.freed, ?_, (t.freed_perm.append_right _).trans hs.addrs_lost_perm⟩
    rw [hs.root]
    exact bptreeFree_eq hs.rep hs.height_lt

/-! ## What a call loses -/

/-- A call that leaves by `status` makes `b'` of `b`: it loses nodes exactly if it fails after it was
granted one. -/
structure Loses (status : Status) (b b' : Bptree) : Prop where
  length_le : b.nodes.length ≤ b'.nodes.length
  lost : ∃ more, b'.lost.Perm (b.lost ++ more) ∧
    (more = [] ↔ status = .success ∨ b'.nodes.length = b.nodes.length)

theorem Loses.refl (b : Bptree) (status : Status) : Loses status b b :=
  ⟨le_refl _, [], by simp, iff_of_true rfl (.inr rfl)⟩

theorem Loses.lost_nil {status : Status} {b b' : Bptree} (h : Loses status b b') :
    b'.lost = [] ↔ b.lost = [] ∧ (status = .success ∨ b'.nodes.length = b.nodes.length) := by
  obtain ⟨more, hperm, hmore⟩ := h.lost
  rw [← hmore, ← List.append_eq_nil_iff]
  exact ⟨fun hnil => List.perm_nil.mp (hnil ▸ hperm).symm, fun hnil => List.perm_nil.mp (hnil ▸ hperm)⟩

theorem loses_of_grown {b b' : Bptree} {h h' : Nat} {t : Tree h} {t' : Tree h'} {more : List Addr}
    {status : Status} (hold : (t.addrs ++ b.lost).Perm (List.range b.nodes.length))
    (hnew : (t'.addrs ++ b'.lost).Perm (List.range b'.nodes.length))
    (hgrown : Grown t.addrs b.nodes.length b'.nodes.length t'.addrs more)
    (hmore : more = [] ↔ status = .success ∨ b'.nodes.length = b.nodes.length) :
    Loses status b b' := by
  obtain ⟨hle, hgrown⟩ := hgrown
  refine ⟨hle, more, List.perm_iff_count.mpr fun x => ?_, hmore⟩
  have hrange : List.range b'.nodes.length = List.range b.nodes.length ++
      List.range' b.nodes.length (b'.nodes.length - b.nodes.length) := by
    have happend := List.range'_append_1 (s := 0) (m := b.nodes.length)
      (n := b'.nodes.length - b.nodes.length)
    rw [Nat.zero_add, Nat.add_sub_cancel' hle] at happend
    rw [List.range_eq_range', List.range_eq_range', happend]
  rw [hrange] at hnew
  have h₁ := List.perm_iff_count.mp hold x
  have h₂ := List.perm_iff_count.mp hnew x
  have h₃ := List.perm_iff_count.mp hgrown x
  simp only [List.count_append] at h₁ h₂ h₃ ⊢
  omega

section Call

variable {b : Bptree} {h : Nat} {t : Tree h} {key : Int}

/-- The insertion of a new key: what is lost is what the failing level does not link. -/
theorem Stores.insert_loses (hs : Stores b t) (hk : key ∉ t.keys) (callocs : List Bool) (row : Int) :
    ∃ exit b', bptreeInsert b callocs key row = some (exit, b') ∧ Loses exit.status b b' := by
  obtain ⟨leaf, fuel, s', -, hstep, -, run, hret, hrun⟩ := hs.insert_steps hk callocs row
  have haddr := insert_addr key row t b.nodes.length callocs
  have hnd := insert_nodup hs.nodup hs.rep.lt key row callocs
  obtain ⟨lost, hgrown, hlost⟩ := insert_grown key row t b.nodes.length callocs
  generalize hins : t.insert key row b.nodes.length callocs = ins at *
  obtain ⟨outcome, fresh', callocs'⟩ := ins
  obtain rfl : s'.nodes.length = fresh' := hstep.fresh
  have hroot : s'.root = some outcome.addr := by rw [hstep.root, hs.root, ← haddr]
  have hlt : h < s'.nodes.length := Nat.lt_of_lt_of_le hs.height_lt hgrown.1
  cases outcome with
  | done t' =>
    obtain ⟨rfl, hrep⟩ := hret
    exact ⟨_, _, hrun, loses_of_grown hs.addrs_lost_perm
      (hrep.addrs_lost_perm (b := s'.toBptree) hroot hnd hlt) hgrown (iff_of_true hlost (.inl rfl))⟩
  | failed t' =>
    obtain ⟨rfl, hrep⟩ := hret
    exact ⟨_, _, hrun, loses_of_grown hs.addrs_lost_perm
      (hrep.addrs_lost_perm (b := s'.toBptree) hroot hnd hlt) hgrown
      (hlost.trans (or_iff_right fun h => by cases h).symm)⟩
  | split l k r =>
    obtain ⟨rfl, hrepl, hrepr⟩ := hret
    obtain ⟨rfl, hfresh⟩ : lost = [] ∧ b.nodes.length < s'.nodes.length := hlost
    have hnd : (l.addrs ++ r.addrs).Nodup := hnd
    cases hc : calloc s'.callocs with
    | mk granted rest =>
      cases granted with
      | true =>
        obtain ⟨s'', hrun', hroot', hlen, -, hrep⟩ :=
          insertIntoParent_root_granted hrepl hrepr hnd hc k fuel
        rw [hrun'] at hrun
        have hnd' : (Tree.node s'.nodes.length [k] [l, r]).addrs.Nodup := by
          rw [Tree.addrs_node, List.nodup_cons]
          refine ⟨fun hmem => ?_, by simpa using hnd⟩
          have hmem : s'.nodes.length ∈ l.addrs ++ r.addrs := by simpa using hmem
          exact Nat.lt_irrefl _ ((List.mem_append.mp hmem).elim (hrepl.lt _) (hrepr.lt _))
        have hgrown' : Grown t.addrs b.nodes.length s''.nodes.length
            (Tree.node s'.nodes.length [k] [l, r]).addrs [] := by
          rw [hlen]
          refine hgrown.alloc (List.perm_iff_count.mpr fun x => ?_)
          simp only [Outcome.addrs, Tree.addrs_node, List.flatMap_cons, List.flatMap_nil,
            List.append_nil, List.count_cons, List.count_append, List.count_nil]
          omega
        exact ⟨_, _, hrun, loses_of_grown hs.addrs_lost_perm
          (hrep.addrs_lost_perm (b := s''.toBptree) hroot' hnd' (hlen ▸ Nat.succ_lt_succ hlt)) hgrown'
          (iff_of_true rfl (.inl rfl))⟩
      | false =>
        rw [insertIntoParent_root_refused hrepl hc k fuel] at hrun
        refine ⟨_, _, hrun, loses_of_grown hs.addrs_lost_perm (hrepl.addrs_lost_perm
          (b := { s' with callocs := rest }.toBptree) hroot (List.nodup_append.mp hnd).1 hlt)
          hgrown.lose ?_⟩
        rw [List.append_nil]
        refine iff_of_false (List.ne_nil_of_mem (Tree.addr_mem_addrs r)) ?_
        rintro (hstatus | hsame)
        · cases hstatus
        · exact absurd hsame (Nat.ne_of_gt hfresh)

end Call

/-- `bptree_insert` returns on every tree that calls lead to, whatever its requests meet with, and
loses nodes only if one was granted and a later one was not. -/
theorem Reachable.insert_loses {b : Bptree} (hr : Reachable b) (callocs : List Bool)
    (key row : Int) :
    ∃ exit b', bptreeInsert b callocs key row = some (exit, b') ∧ Loses exit.status b b' := by
  rcases hr.stores with rfl | ⟨h, t, hs⟩
  · rcases bptreeInsert_empty callocs key row with ⟨-, hrun⟩ | ⟨-, b', hrun, hs, hwhole⟩
    · exact ⟨_, _, hrun, .refl _ _⟩
    · refine ⟨_, _, hrun, Nat.zero_le _, [], ?_, iff_of_true rfl (.inl rfl)⟩
      have hsame := hs.addrs_lost_perm.trans hwhole.all.symm
      rw [List.perm_nil.mp ((List.perm_append_left_iff _).mp
        (hsame.trans (by rw [List.append_nil])))]
      exact .nil
  · by_cases hk : key ∈ t.keys
    · exact ⟨_, _, hs.insert_duplicate hk callocs row, .refl _ _⟩
    · exact hs.insert_loses hk callocs row

/-- The new leaf is granted, the new root refused: the leaf is not freed with the tree. -/
example : (bptreeInsert fullLeaf [true, false] 32 31).map (fun r => (r.1, r.2.lost)) =
    some (.noMemory, [1]) := by
  decide +kernel

end JungleDb
