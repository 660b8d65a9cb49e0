import Virtio9P.Lib.Hoare

/-!
# The fid pool (`fid_pool.c`)

A stack of freed fids over a counter. Growing a list takes memory, and whether there is any is decided outside:
`allocVec` asks for a number of bytes, from a state `W` of the surroundings. Where a list cannot grow, the fid is
dropped. A pool has with each list the size of the block that it lies in. The entries are kept also where they do not
lie in the block: whether they do is a question of its own (`Virtio9P.Pool`).
-/

namespace Virtio9P

open Lib

/-- `FID_POOL_INITIAL_CAPACITY`. -/
def fidPoolInitialCapacity : UInt32 := 64

/-- `struct FidPool`. The lists are stacks with the last entry first; `free_count` and `orphan_count` are their
lengths, and `orphanList` is `none` while the pointer is `NULL`. -/
structure FidPool where
  nextFid : UInt32
  freeList : List UInt32
  freeCapacity : UInt32
  /-- the bytes of the block at `free_list` -/
  freeBytes : UInt32
  orphanList : Option (List UInt32)
  orphanCapacity : UInt32
  /-- the bytes of the block at `orphan_list` -/
  orphanBytes : UInt32
  deriving DecidableEq

/-- `sizeof(struct FidPool)`. -/
def sizeofFidPool : UInt32 := 28

/-- `sizeof(uint32) * capacity`: the bytes that are asked for a list, in 32 bits. -/
def listBytes (capacity : UInt32) : UInt32 := 4 * capacity

/-- The pool that `FidPool_Create` returns when it has memory. -/
def freshPool : FidPool where
  nextFid := 1
  freeList := []
  freeCapacity := fidPoolInitialCapacity
  freeBytes := listBytes fidPoolInitialCapacity
  orphanList := none
  orphanCapacity := 0
  orphanBytes := 0

/-- `FidPool_Alloc`. -/
def fidPoolAlloc (pool : FidPool) : UInt32 × FidPool :=
  match pool.freeList with
  | fid :: rest => (fid, { pool with freeList := rest })
  | [] => (pool.nextFid, { pool with nextFid := pool.nextFid + 1 })

section Memory

variable {W : Type} (allocVec : UInt32 → StateM W Bool)

/-- `FidPool_Create`: the pool, then its free list. -/
def fidPoolCreate : StateM W (Option FidPool) := do
  if ← allocVec sizeofFidPool then
    if ← allocVec (listBytes fidPoolInitialCapacity) then pure (some freshPool) else pure none
  else pure none

/-- `FidPool_Free`. -/
def fidPoolFree (pool : FidPool) (fid : UInt32) : StateM W FidPool := do
  if pool.freeCapacity.toNat ≤ pool.freeList.length then
    let newCap := pool.freeCapacity * 2
    if ← allocVec (listBytes newCap) then
      pure { pool with freeList := fid :: pool.freeList, freeCapacity := newCap, freeBytes := listBytes newCap }
    else pure pool
  else pure { pool with freeList := fid :: pool.freeList }

/-- The list part of `FidPool_MarkOrphan`, once there is a list. -/
def pushOrphan (pool : FidPool) (orphans : List UInt32) (fid : UInt32) : StateM W FidPool := do
  if pool.orphanCapacity.toNat ≤ orphans.length then
    let newCap := pool.orphanCapacity * 2
    if ← allocVec (listBytes newCap) then
      pure { pool with
        orphanList := some (fid :: orphans), orphanCapacity := newCap, orphanBytes := listBytes newCap }
    else pure pool
  else pure { pool with orphanList := some (fid :: orphans) }

/-- `FidPool_MarkOrphan`. -/
def fidPoolMarkOrphan (pool : FidPool) (fid : UInt32) : StateM W FidPool := do
  match pool.orphanList with
  | some orphans => pushOrphan allocVec pool orphans fid
  | none =>
    if ← allocVec (listBytes fidPoolInitialCapacity) then
      pushOrphan allocVec { pool with
        orphanList := some [], orphanCapacity := fidPoolInitialCapacity,
        orphanBytes := listBytes fidPoolInitialCapacity } [] fid
    else pure pool

end Memory

/-! ## What the operations do to the counter and the free list -/

/-- A fid that `FidPool_Alloc` can hand out, now or after more calls. -/
def FidPool.Available (pool : FidPool) (fid : UInt32) : Prop := fid ∈ pool.freeList ∨ pool.nextFid ≤ fid

/-- `FidPool_Alloc` hands out the top of the free list, or the counter. -/
theorem fidPoolAlloc_cases (pool : FidPool) :
    (∃ fid rest, pool.freeList = fid :: rest ∧ fidPoolAlloc pool = (fid, { pool with freeList := rest })) ∨
    (pool.freeList = [] ∧ fidPoolAlloc pool = (pool.nextFid, { pool with nextFid := pool.nextFid + 1 })) := by
  unfold fidPoolAlloc
  cases h : pool.freeList with
  | nil => exact .inr ⟨rfl, rfl⟩
  | cons fid rest => exact .inl ⟨fid, rest, rfl, rfl⟩

/-- How many fids can be drawn before the counter runs over. -/
def FidPool.left (pool : FidPool) : Nat := pool.freeList.length + (4294967295 - pool.nextFid.toNat)

/-- As long as there are some left, one less is left after `FidPool_Alloc`, and the counter has not run over. -/
theorem left_fidPoolAlloc {pool : FidPool} (hleft : 0 < pool.left) (hnext : 0 < pool.nextFid.toNat) :
    (fidPoolAlloc pool).2.left + 1 = pool.left ∧ 0 < (fidPoolAlloc pool).2.nextFid.toNat := by
  unfold FidPool.left at hleft ⊢
  rcases fidPoolAlloc_cases pool with ⟨fid, rest, hfree, halloc⟩ | ⟨hfree, halloc⟩
  · rw [halloc, hfree, List.length_cons]
    refine ⟨?_, hnext⟩
    simp only
    omega
  · rw [hfree, List.length_nil] at hleft
    have hsucc : (pool.nextFid + 1).toNat = pool.nextFid.toNat + 1 := by
      rw [UInt32.toNat_add, UInt32.toNat_one, Nat.mod_eq_of_lt (by omega)]
    rw [halloc, hfree]
    simp only [hsucc]
    omega

/-- With none left, the counter runs over. -/
theorem fidPoolAlloc_of_none_left {pool : FidPool} (hleft : pool.left = 0) : (fidPoolAlloc pool).2.nextFid = 0 := by
  unfold FidPool.left at hleft
  have hlt := pool.nextFid.toNat_lt
  rcases fidPoolAlloc_cases pool with ⟨fid, rest, hfree, -⟩ | ⟨-, halloc⟩
  · rw [hfree, List.length_cons] at hleft
    omega
  · rw [halloc, show pool.nextFid = 4294967295 from UInt32.toNat_inj.mp (by simp only [UInt32.reduceToNat]; omega)]
    rfl

section Memory

variable {W : Type} (allocVec : UInt32 → StateM W Bool)

/-- `FidPool_Create` gives a fresh pool or none. -/
theorem fidPoolCreate_cases (w : W) :
    (fidPoolCreate allocVec w).1 = some freshPool ∨ (fidPoolCreate allocVec w).1 = none := by
  simp only [fidPoolCreate, bind, StateT.bind]
  rcases allocVec _ w with ⟨_ | _, w₁⟩
  · exact .inr rfl
  · simp only [if_true, StateT.bind, bind]
    rcases allocVec _ w₁ with ⟨_ | _, w₂⟩
    · exact .inr rfl
    · exact .inl rfl

/-- `FidPool_Free` pushes the fid or drops it; the counter and the orphans stay. -/
theorem fidPoolFree_cases (pool : FidPool) (fid : UInt32) (w : W) :
    let pool' := (fidPoolFree allocVec pool fid w).1
    pool'.nextFid = pool.nextFid ∧ pool'.orphanList = pool.orphanList ∧
      (pool'.freeList = fid :: pool.freeList ∨ pool'.freeList = pool.freeList) := by
  unfold fidPoolFree
  split
  · simp only [bind, StateT.bind]
    rcases allocVec _ w with ⟨_ | _, w'⟩
    · exact ⟨rfl, rfl, .inr rfl⟩
    · exact ⟨rfl, rfl, .inl rfl⟩
  · exact ⟨rfl, rfl, .inl rfl⟩

theorem pushOrphan_kept (pool : FidPool) (orphans : List UInt32) (fid : UInt32) (w : W) :
    let pool' := (pushOrphan allocVec pool orphans fid w).1
    pool'.nextFid = pool.nextFid ∧ pool'.freeList = pool.freeList := by
  unfold pushOrphan
  split
  · simp only [bind, StateT.bind]
    rcases allocVec _ w with ⟨_ | _, w'⟩
    · exact ⟨rfl, rfl⟩
    · exact ⟨rfl, rfl⟩
  · exact ⟨rfl, rfl⟩

/-- `FidPool_MarkOrphan` touches neither the counter nor the free list. -/
theorem fidPoolMarkOrphan_kept (pool : FidPool) (fid : UInt32) (w : W) :
    let pool' := (fidPoolMarkOrphan allocVec pool fid w).1
    pool'.nextFid = pool.nextFid ∧ pool'.freeList = pool.freeList := by
  unfold fidPoolMarkOrphan
  cases pool.orphanList with
  | some orphans => exact pushOrphan_kept allocVec pool orphans fid w
  | none =>
    simp only [bind, StateT.bind]
    rcases allocVec _ w with ⟨_ | _, w'⟩
    · exact ⟨rfl, rfl⟩
    · exact pushOrphan_kept allocVec { pool with
        orphanList := some [], orphanCapacity := fidPoolInitialCapacity,
        orphanBytes := listBytes fidPoolInitialCapacity } [] fid w'

section Keeps

variable {allocVec} {P : W → Prop} (hP : ∀ bytes, Ends P (allocVec bytes) fun _ => P)

include hP

/-- What memory keeps, the pool keeps. -/
theorem fidPoolCreate_keeps : Ends P (fidPoolCreate allocVec) fun _ => P := by
  refine (hP _).bind fun _ => Ends.ite (fun _ => ?_) fun _ => Ends.ret
  exact (hP _).bind fun _ => Ends.ite (fun _ => Ends.ret) fun _ => Ends.ret

theorem fidPoolFree_keeps (pool : FidPool) (fid : UInt32) : Ends P (fidPoolFree allocVec pool fid) fun _ => P := by
  refine Ends.ite (fun _ => ?_) fun _ => Ends.ret
  exact (hP _).bind fun _ => Ends.ite (fun _ => Ends.ret) fun _ => Ends.ret

theorem pushOrphan_keeps (pool : FidPool) (orphans : List UInt32) (fid : UInt32) :
    Ends P (pushOrphan allocVec pool orphans fid) fun _ => P := by
  refine Ends.ite (fun _ => ?_) fun _ => Ends.ret
  exact (hP _).bind fun _ => Ends.ite (fun _ => Ends.ret) fun _ => Ends.ret

theorem fidPoolMarkOrphan_keeps (pool : FidPool) (fid : UInt32) :
    Ends P (fidPoolMarkOrphan allocVec pool fid) fun _ => P := by
  unfold fidPoolMarkOrphan
  cases pool.orphanList with
  | some orphans => exact pushOrphan_keeps hP pool orphans fid
  | none => exact (hP _).bind fun _ => Ends.ite (fun _ => pushOrphan_keeps hP _ _ _) fun _ => Ends.ret

end Keeps

section Frame

variable {allocVec} {γ : Type} {f : W → γ} (hf : ∀ bytes w, f (allocVec bytes w).2 = f w)

include hf

/-- What memory does not touch, the pool does not touch. -/
theorem fidPoolCreate_frame (w : W) : f (fidPoolCreate allocVec w).2 = f w :=
  fidPoolCreate_keeps (P := fun w' => f w' = f w) (fun bytes w' h => (hf bytes w').trans h) w rfl

theorem fidPoolFree_frame (pool : FidPool) (fid : UInt32) (w : W) : f (fidPoolFree allocVec pool fid w).2 = f w :=
  fidPoolFree_keeps (P := fun w' => f w' = f w) (fun bytes w' h => (hf bytes w').trans h) pool fid w rfl

theorem fidPoolMarkOrphan_frame (pool : FidPool) (fid : UInt32) (w : W) :
    f (fidPoolMarkOrphan allocVec pool fid w).2 = f w :=
  fidPoolMarkOrphan_keeps (P := fun w' => f w' = f w) (fun bytes w' h => (hf bytes w').trans h) pool fid w rfl

end Frame

end Memory

/-! ## Fids in use -/

/-- The fids `fids` are in use: they and the free ones are all different, below the counter, and not the root's. -/
structure FidPool.InUse (pool : FidPool) (fids : List UInt32) : Prop where
  nodup : (fids ++ pool.freeList).Nodup
  below : ∀ fid ∈ fids ++ pool.freeList, fid ≠ 0 ∧ fid < pool.nextFid

namespace FidPool.InUse

variable {pool pool' : FidPool} {fids fids' : List UInt32} {fid : UInt32}

theorem perm (h : pool.InUse fids) (hp : fids.Perm fids') : pool.InUse fids' := by
  have hp' := hp.append_right pool.freeList
  exact ⟨hp'.nodup_iff.mp h.nodup, fun fid hfid => h.below fid (hp'.mem_iff.mpr hfid)⟩

theorem distinct (h : pool.InUse fids) : fids.Nodup := (List.nodup_append.mp h.nodup).1

theorem fresh : freshPool.InUse [] := ⟨List.nodup_nil, fun _ h => absurd h List.not_mem_nil⟩

/-- Fewer are in use. -/
theorem sublist (h : pool.InUse fids) (hs : fids'.Sublist fids) : pool.InUse fids' := by
  have hs' : (fids' ++ pool.freeList).Sublist (fids ++ pool.freeList) := hs.append (List.Sublist.refl _)
  exact ⟨h.nodup.sublist hs', fun fid hfid => h.below fid (hs'.subset hfid)⟩

/-- A pool with the same counter and free list. -/
theorem same (h : pool.InUse fids) (hnext : pool'.nextFid = pool.nextFid) (hfree : pool'.freeList = pool.freeList) :
    pool'.InUse fids := by
  refine ⟨hfree ▸ h.nodup, fun fid hfid => ?_⟩
  rw [hfree] at hfid
  rw [hnext]
  exact h.below fid hfid

theorem not_available (h : pool.InUse fids) (hfid : fid ∈ fids) : ¬ pool.Available fid := by
  rintro (hfree | hnext)
  · exact (List.disjoint_of_nodup_append h.nodup) hfid hfree
  · have := (h.below fid (List.mem_append_left _ hfid)).2
    exact absurd hnext (UInt32.not_le.mpr this)

/-- `FidPool_Alloc` hands out a fid that was available, as long as the counter does not wrap. -/
theorem alloc (h : pool.InUse fids) (hwrap : (fidPoolAlloc pool).2.nextFid ≠ 0) (hnext : pool.nextFid ≠ 0) :
    (fidPoolAlloc pool).2.InUse ((fidPoolAlloc pool).1 :: fids) ∧ pool.Available (fidPoolAlloc pool).1 ∧
      ∀ fid, (fidPoolAlloc pool).2.Available fid → pool.Available fid := by
  rcases fidPoolAlloc_cases pool with ⟨fid, rest, hfree, halloc⟩ | ⟨hfree, halloc⟩
  · rw [halloc]
    have hperm : (fids ++ pool.freeList).Perm (fid :: fids ++ rest) := by
      rw [hfree]
      exact List.perm_middle
    refine ⟨⟨hperm.nodup_iff.mp h.nodup, fun g hg => h.below g (hperm.mem_iff.mpr hg)⟩, .inl (by simp [hfree]), ?_⟩
    rintro g (hg | hg)
    · exact .inl (hfree ▸ List.mem_cons_of_mem fid hg)
    · exact .inr hg
  · rw [halloc] at hwrap ⊢
    simp only at hwrap ⊢
    have hsucc : (pool.nextFid + 1).toNat = pool.nextFid.toNat + 1 := by
      have hlt := pool.nextFid.toNat_lt
      have hne : (pool.nextFid + 1).toNat ≠ 0 := fun h0 => hwrap (UInt32.toNat_inj.mp (by simpa using h0))
      rw [UInt32.toNat_add] at hne ⊢
      simp at hne ⊢
      omega
    have hnil : fids ++ pool.freeList = fids := by rw [hfree, List.append_nil]
    have hbelow := hnil ▸ h.below
    refine ⟨⟨?_, ?_⟩, .inr (UInt32.le_refl _), ?_⟩
    · simp only [hfree, List.append_nil, List.nodup_cons]
      exact ⟨fun hmem => absurd (hbelow _ hmem).2 (UInt32.lt_irrefl _), hnil ▸ h.nodup⟩
    · intro g hg
      simp only [hfree, List.append_nil, List.mem_cons] at hg
      rcases hg with rfl | hg
      · exact ⟨hnext, UInt32.lt_iff_toNat_lt.mpr (hsucc ▸ Nat.lt_succ_self _)⟩
      · have hg := hbelow g hg
        exact ⟨hg.1, UInt32.lt_iff_toNat_lt.mpr (hsucc ▸ (UInt32.lt_iff_toNat_lt.mp hg.2).trans (Nat.lt_succ_self _))⟩
    · rintro g (hg | hg)
      · exact .inl hg
      · refine .inr (UInt32.le_iff_toNat_le.mpr ?_)
        have := UInt32.le_iff_toNat_le.mp hg
        simp only at this
        omega

/-- A fid in use is given back, or dropped. -/
theorem free (h : pool.InUse (fid :: fids)) (hnext : pool'.nextFid = pool.nextFid)
    (hfree : pool'.freeList = fid :: pool.freeList ∨ pool'.freeList = pool.freeList) :
    pool'.InUse fids ∧ ∀ g, pool'.Available g → g = fid ∨ pool.Available g := by
  constructor
  · rcases hfree with hfree | hfree
    · have hperm : (fid :: fids ++ pool.freeList).Perm (fids ++ pool'.freeList) := by
        rw [hfree]
        exact List.perm_middle.symm
      exact ⟨hperm.nodup_iff.mp h.nodup, fun g hg => hnext ▸ h.below g (hperm.mem_iff.mpr hg)⟩
    · exact (h.sublist (List.sublist_cons_self fid fids)).same hnext hfree
  · rintro g (hg | hg)
    · rcases hfree with hfree | hfree
      · rw [hfree] at hg
        rcases List.mem_cons.mp hg with rfl | hg
        · exact .inl rfl
        · exact .inr (.inl hg)
      · exact .inr (.inl (hfree ▸ hg))
    · exact .inr (.inr (hnext ▸ hg))

end FidPool.InUse

end Virtio9P
