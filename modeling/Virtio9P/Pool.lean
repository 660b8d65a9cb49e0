import Virtio9P.FidPool
import Virtio9P.Marshal

/-!
# The fid pool over whole runs

`PoolRun` is a pool with what its callers did: which fids they hold, which they marked as orphans and which were ever
drawn. Fids are given back only by those who hold them (`PoolCall.Proper`). Then no fid is in two places, all are below
the counter, and `FidPool_Alloc` hands out neither the root's fid nor `P9_NOFID` nor one that is held or an orphan; the
entries of a list lie in its block, the counts stay within the capacities, and a list that cannot grow drops one fid and
nothing else (`pool_sound`).

There is one condition on the surroundings (`NoEmptyGrant`): a request for no bytes at all is refused. The source
doubles the capacity and multiplies it by four without a check, so a list of `2 ^ 29` fids asks for a block of `2 ^ 32`
bytes, and that is a request for none. Where it is granted, the list is copied to where there is no block
(`empty_block`). Up to `2 ^ 29` fids there is no such request (`PoolReached.of_few`).
-/

namespace Virtio9P

open Lib

variable {W : Type} (allocVec : UInt32 → StateM W Bool)

/-! ## Lists that grow -/

/-- A list in its block. -/
structure Row where
  capacity : UInt32
  bytes : UInt32
  entries : List UInt32

/-- One more entry for a list, when there is a block for `next` entries or not (`ok`): it is stored, and the list grows
if it has to; if it cannot, the entry is dropped. -/
inductive Pushes (ok : Bool) (next fid : UInt32) (row : Row) : Row → Prop
  | push : row.entries.length < row.capacity.toNat → Pushes ok next fid row { row with entries := fid :: row.entries }
  | grow : ok = true → row.capacity.toNat ≤ row.entries.length →
      Pushes ok next fid row ⟨next, listBytes next, fid :: row.entries⟩
  | drop : ok = false → row.capacity.toNat ≤ row.entries.length → Pushes ok next fid row row

namespace FidPool

variable (pool : FidPool)

/-- The free list. -/
def freeRow : Row := ⟨pool.freeCapacity, pool.freeBytes, pool.freeList⟩

/-- The orphans that are on the list. -/
def orphans : List UInt32 := pool.orphanList.getD []

/-- The list of orphans. -/
def orphanRow : Row := ⟨pool.orphanCapacity, pool.orphanBytes, pool.orphans⟩

/-- The capacity that the free list grows to. -/
def freeNext : UInt32 := pool.freeCapacity * 2

/-- The capacity that the list of orphans grows to. -/
def orphanNext : UInt32 := if pool.orphanList.isSome then pool.orphanCapacity * 2 else fidPoolInitialCapacity

end FidPool

section Growing

variable (pool : FidPool) (fid : UInt32) (w : W)

/-- `FidPool_Free` works on the free list. -/
theorem fidPoolFree_pushes :
    let pool' := (fidPoolFree allocVec pool fid w).1
    Pushes (allocVec (listBytes pool.freeNext) w).1 pool.freeNext fid pool.freeRow pool'.freeRow ∧
      pool'.orphanRow = pool.orphanRow ∧ (pool'.freeList = pool.freeList → pool' = pool) := by
  unfold fidPoolFree FidPool.freeNext
  by_cases hfull : pool.freeCapacity.toNat ≤ pool.freeList.length
  · rw [if_pos hfull]
    simp only [bind, StateT.bind]
    rcases allocVec (listBytes (pool.freeCapacity * 2)) w with ⟨_ | _, w'⟩
    · exact ⟨.drop rfl hfull, rfl, fun _ => rfl⟩
    · exact ⟨.grow rfl hfull, rfl, fun h => absurd h (List.cons_ne_self _ _)⟩
  · rw [if_neg hfull]
    exact ⟨.push (Nat.lt_of_not_le hfull), rfl, fun h => absurd h (List.cons_ne_self _ _)⟩

/-- `FidPool_MarkOrphan` works on the list of orphans; the first time, it makes one. -/
theorem fidPoolMarkOrphan_pushes (hnone : pool.orphanList = none → pool.orphanCapacity = 0) :
    let pool' := (fidPoolMarkOrphan allocVec pool fid w).1
    Pushes (allocVec (listBytes pool.orphanNext) w).1 pool.orphanNext fid pool.orphanRow pool'.orphanRow ∧
      pool'.freeRow = pool.freeRow ∧ (pool'.orphans = pool.orphans → pool' = pool) := by
  unfold fidPoolMarkOrphan FidPool.orphanNext
  cases ho : pool.orphanList with
  | none =>
    have hfull : pool.orphanRow.capacity.toNat ≤ pool.orphanRow.entries.length := by
      show pool.orphanCapacity.toNat ≤ _
      rw [hnone ho]
      exact Nat.zero_le _
    have hnil : pool.orphans = [] := by rw [FidPool.orphans, ho]; rfl
    simp only [Option.isSome_none, Bool.false_eq_true, if_false, bind, StateT.bind]
    rcases allocVec (listBytes fidPoolInitialCapacity) w with ⟨_ | _, w'⟩
    · exact ⟨.drop rfl hfull, rfl, fun _ => rfl⟩
    · refine ⟨?_, rfl, fun h => ?_⟩
      · have hgrow : Pushes true fidPoolInitialCapacity fid pool.orphanRow _ := .grow rfl hfull
        rwa [show pool.orphanRow.entries = [] from hnil] at hgrow
      · exact absurd (h.trans hnil) (List.cons_ne_nil _ _)
  | some orphans =>
    have horphans : pool.orphans = orphans := by rw [FidPool.orphans, ho]; rfl
    simp only [Option.isSome_some, if_true, pushOrphan]
    by_cases hfull : pool.orphanCapacity.toNat ≤ orphans.length
    · have hfull' : pool.orphanRow.capacity.toNat ≤ pool.orphanRow.entries.length := by
        show pool.orphanCapacity.toNat ≤ pool.orphans.length
        rwa [horphans]
      simp only [if_pos hfull, bind, StateT.bind]
      rcases allocVec (listBytes (pool.orphanCapacity * 2)) w with ⟨_ | _, w'⟩
      · exact ⟨.drop rfl hfull', rfl, fun _ => rfl⟩
      · refine ⟨?_, rfl, fun h => absurd (h.trans horphans) (List.cons_ne_self _ _)⟩
        have hgrow : Pushes true (pool.orphanCapacity * 2) fid pool.orphanRow _ := .grow rfl hfull'
        rwa [show pool.orphanRow.entries = orphans from horphans] at hgrow
    · simp only [if_neg hfull]
      refine ⟨?_, rfl, fun h => absurd (h.trans horphans) (List.cons_ne_self _ _)⟩
      have hroom : pool.orphans.length < pool.orphanCapacity.toNat := by rw [horphans]; exact Nat.lt_of_not_le hfull
      have hpush : Pushes (allocVec (listBytes (pool.orphanCapacity * 2)) w).1 (pool.orphanCapacity * 2) fid
          pool.orphanRow _ := .push hroom
      rwa [show pool.orphanRow.entries = orphans from horphans] at hpush

end Growing

namespace Pushes

variable {ok : Bool} {next fid : UInt32} {row row' : Row}

/-- The entries before are kept, and the new one is on top or was dropped. -/
theorem kept (h : Pushes ok next fid row row') :
    row'.entries = fid :: row.entries ∨ row' = row ∧ ok = false ∧ row.capacity.toNat ≤ row.entries.length := by
  cases h with
  | push _ => exact .inl rfl
  | grow _ _ => exact .inl rfl
  | drop hok hfull => exact .inr ⟨rfl, hok, hfull⟩

/-- With memory, the entry is stored. -/
theorem stored (h : Pushes true next fid row row') : row'.entries = fid :: row.entries ∧
    (row.entries.length < row.capacity.toNat ∧ row'.capacity = row.capacity ∧ row'.bytes = row.bytes ∨
      row.capacity.toNat ≤ row.entries.length ∧ row'.capacity = next ∧ row'.bytes = listBytes next) := by
  cases h with
  | push hroom => exact ⟨rfl, .inl ⟨hroom, rfl, rfl⟩⟩
  | grow _ hfull => exact ⟨rfl, .inr ⟨hfull, rfl, rfl⟩⟩
  | drop hok _ => cases hok

end Pushes

/-! ## Capacities -/

/-- The capacity is the first one, doubled some times, and `2 ^ 29` at most. -/
def Doubled (capacity : UInt32) : Prop := ∃ i ≤ 23, capacity.toNat = 64 * 2 ^ i

theorem Doubled.initial : Doubled fidPoolInitialCapacity := ⟨0, Nat.zero_le _, rfl⟩

theorem Doubled.le {capacity : UInt32} (h : Doubled capacity) : capacity.toNat ≤ 536870912 := by
  obtain ⟨i, hi, heq⟩ := h
  rw [heq]
  exact Nat.mul_le_mul_left 64 (Nat.pow_le_pow_right (by decide) hi)

theorem toNat_double {capacity : UInt32} (h : capacity.toNat ≤ 536870912) :
    (capacity * 2).toNat = 2 * capacity.toNat := by
  rw [UInt32.toNat_mul, Nat.mod_eq_of_lt (by simp only [UInt32.reduceToNat]; omega), Nat.mul_comm]
  rfl

theorem toNat_listBytes {capacity : UInt32} (h : capacity.toNat ≤ 536870912) :
    (listBytes capacity).toNat = 4 * capacity.toNat := by
  rw [listBytes, UInt32.toNat_mul, Nat.mod_eq_of_lt (by simp only [UInt32.reduceToNat]; omega)]
  rfl

/-- Below `2 ^ 29` entries, twice as many is a capacity again. -/
theorem Doubled.double {capacity : UInt32} (h : Doubled capacity) (hlt : capacity.toNat < 536870912) :
    Doubled (capacity * 2) := by
  obtain ⟨i, hi, heq⟩ := h
  have hi' : i ≠ 23 := by
    rintro rfl
    rw [heq] at hlt
    exact absurd hlt (by decide)
  exact ⟨i + 1, by omega, by rw [toNat_double (by omega), heq, Nat.pow_succ]; omega⟩

theorem Doubled.pos {capacity : UInt32} (h : Doubled capacity) : 0 < capacity.toNat := by
  obtain ⟨i, -, heq⟩ := h
  have := Nat.two_pow_pos i
  omega

/-- Twice as many entries as `2 ^ 29` take no bytes, and only these. -/
theorem Doubled.listBytes_double {capacity : UInt32} (h : Doubled capacity) :
    listBytes (capacity * 2) = 0 ↔ capacity.toNat = 536870912 := by
  constructor
  · intro h0
    by_contra hne
    have hle := h.le
    have hpos := h.pos
    have hbytes := toNat_listBytes (h.double (by omega)).le
    rw [h0, toNat_double hle, UInt32.toNat_zero] at hbytes
    omega
  · intro heq
    rw [show capacity = 536870912 from UInt32.toNat_inj.mp heq]
    rfl

/-- The entries are within the capacity, the block has room for them all, and the capacity was got by doubling. -/
structure Row.Sound (row : Row) : Prop where
  fits : row.entries.length ≤ row.capacity.toNat
  inside : row.bytes.toNat = 4 * row.capacity.toNat
  doubled : row.capacity ≠ 0 → Doubled row.capacity

/-- A list that grows to a capacity that can be counted in bytes is sound again. -/
theorem Pushes.sound {ok : Bool} {next fid : UInt32} {row row' : Row} (h : Pushes ok next fid row row')
    (hsound : row.Sound) (hnext : ok = true → row.capacity.toNat ≤ row.entries.length →
      Doubled next ∧ row.capacity.toNat < next.toNat) : row'.Sound := by
  cases h with
  | push hroom => exact ⟨hroom, hsound.inside, hsound.doubled⟩
  | grow hok hfull =>
    obtain ⟨hdoubled, hlt⟩ := hnext hok hfull
    have hfits := hsound.fits
    refine ⟨?_, toNat_listBytes hdoubled.le, fun _ => hdoubled⟩
    rw [List.length_cons]
    show _ + 1 ≤ next.toNat
    omega
  | drop _ _ => exact hsound

/-- All entries lie in the block. -/
theorem Row.Sound.holds {row : Row} (h : row.Sound) : 4 * row.entries.length ≤ row.bytes.toNat := by
  rw [h.inside]
  exact Nat.mul_le_mul_left 4 h.fits

/-- Where there is an entry, there is a capacity. -/
theorem Row.Sound.ne_zero {row : Row} (h : row.Sound) {fid : UInt32} {l : List UInt32} (hl : row.entries = fid :: l) :
    row.capacity ≠ 0 := by
  intro h0
  have hfits := h.fits
  rw [hl, h0, List.length_cons] at hfits
  exact absurd hfits (Nat.not_succ_le_zero _)

/-! ## Runs -/

/-- What can be called on a pool. -/
inductive PoolCall where
  | alloc
  | free (fid : UInt32)
  | markOrphan (fid : UInt32)

/-- A pool with its surroundings, and what its callers did: the fids they hold, those they marked as orphans, and all
that were ever drawn. -/
structure PoolRun (W : Type) where
  pool : FidPool
  w : W
  held : List UInt32
  orphaned : List UInt32
  drawn : List UInt32

/-- One call. -/
def PoolRun.call (r : PoolRun W) : PoolCall → PoolRun W
  | .alloc =>
    let a := fidPoolAlloc r.pool
    { r with pool := a.2, held := a.1 :: r.held, drawn := a.1 :: r.drawn }
  | .free fid =>
    let p := fidPoolFree allocVec r.pool fid r.w
    { r with pool := p.1, w := p.2, held := r.held.erase fid }
  | .markOrphan fid =>
    let p := fidPoolMarkOrphan allocVec r.pool fid r.w
    { r with pool := p.1, w := p.2, held := r.held.erase fid, orphaned := fid :: r.orphaned }

/-- A fid is given back only by who holds it. -/
def PoolCall.Proper (r : PoolRun W) : PoolCall → Prop
  | .alloc => True
  | .free fid => fid ∈ r.held
  | .markOrphan fid => fid ∈ r.held

/-- The runs of a pool, with a condition on their calls. -/
inductive PoolReached (Cond : PoolRun W → PoolCall → Prop) : PoolRun W → Prop
  | create {w w' : W} {pool : FidPool} :
      fidPoolCreate allocVec w = (some pool, w') → PoolReached Cond ⟨pool, w', [], [], []⟩
  | call {r : PoolRun W} (c : PoolCall) :
      PoolReached Cond r → c.Proper r → Cond r c → PoolReached Cond (r.call allocVec c)

/-- The bytes that a call asks for. -/
def PoolCall.asks (r : PoolRun W) : PoolCall → Option UInt32
  | .alloc => none
  | .free _ => if r.pool.freeCapacity.toNat ≤ r.pool.freeList.length then some (listBytes r.pool.freeNext) else none
  | .markOrphan _ =>
    if r.pool.orphanCapacity.toNat ≤ r.pool.orphans.length then some (listBytes r.pool.orphanNext) else none

/-- A request for no bytes is refused. -/
def NoEmptyGrant (r : PoolRun W) (c : PoolCall) : Prop := c.asks r = some 0 → (allocVec 0 r.w).1 = false

section

variable {allocVec} {r : PoolRun W} {fid : UInt32}

theorem NoEmptyGrant.free (h : NoEmptyGrant allocVec r (.free fid))
    (hfull : r.pool.freeCapacity.toNat ≤ r.pool.freeList.length)
    (hok : (allocVec (listBytes r.pool.freeNext) r.w).1 = true) : listBytes r.pool.freeNext ≠ 0 := by
  intro h0
  have hrefused := h (by rw [PoolCall.asks, if_pos hfull, h0])
  rw [h0, hrefused] at hok
  cases hok

theorem NoEmptyGrant.markOrphan (h : NoEmptyGrant allocVec r (.markOrphan fid))
    (hfull : r.pool.orphanCapacity.toNat ≤ r.pool.orphans.length)
    (hok : (allocVec (listBytes r.pool.orphanNext) r.w).1 = true) : listBytes r.pool.orphanNext ≠ 0 := by
  intro h0
  have hrefused := h (by rw [PoolCall.asks, if_pos hfull, h0])
  rw [h0, hrefused] at hok
  cases hok

end

/-- No fid is in two places, all are below the counter, and the lists are within their capacities and their blocks. -/
structure PoolSound (r : PoolRun W) : Prop where
  apart : (r.held ++ r.orphaned ++ r.pool.freeList).Nodup
  below : ∀ fid ∈ r.held ++ r.orphaned ++ r.pool.freeList, 1 ≤ fid.toNat ∧ fid.toNat < r.pool.nextFid.toNat
  orphans : r.pool.orphans.Sublist r.orphaned
  freeFits : r.pool.freeList.length ≤ r.pool.freeCapacity.toNat
  freeInside : 4 * r.pool.freeList.length ≤ r.pool.freeBytes.toNat
  orphansFit : r.pool.orphans.length ≤ r.pool.orphanCapacity.toNat
  orphansInside : 4 * r.pool.orphans.length ≤ r.pool.orphanBytes.toNat

/-- What a call may do: a fid that is drawn is new to all who know one; a fid that is given back goes on top of its
list, or the list is full and cannot grow, and the pool is as before. -/
def PoolCall.Sound (r : PoolRun W) : PoolCall → Prop
  | .alloc =>
    let fid := (fidPoolAlloc r.pool).1
    fid ≠ 0 ∧ fid ≠ p9NoFid ∧ fid ∉ r.held ∧ fid ∉ r.orphaned ∧ fid ∉ r.pool.orphans
  | .free fid =>
    let pool' := (fidPoolFree allocVec r.pool fid r.w).1
    (pool'.freeList = fid :: r.pool.freeList ∧ pool'.nextFid = r.pool.nextFid ∧ pool'.orphanList = r.pool.orphanList ∧
      pool'.orphanCapacity = r.pool.orphanCapacity) ∨
    (r.pool.freeCapacity.toNat ≤ r.pool.freeList.length ∧ (allocVec (listBytes r.pool.freeNext) r.w).1 = false ∧
      pool' = r.pool)
  | .markOrphan fid =>
    let pool' := (fidPoolMarkOrphan allocVec r.pool fid r.w).1
    (pool'.orphans = fid :: r.pool.orphans ∧ pool'.nextFid = r.pool.nextFid ∧ pool'.freeList = r.pool.freeList ∧
      pool'.freeCapacity = r.pool.freeCapacity) ∨
    (r.pool.orphanCapacity.toNat ≤ r.pool.orphans.length ∧ (allocVec (listBytes r.pool.orphanNext) r.w).1 = false ∧
      pool' = r.pool)

/-! ## The invariant -/

/-- The lists of a pool are sound; there may be no list of orphans yet. -/
structure FidPool.Fits (pool : FidPool) : Prop where
  free : pool.freeRow.Sound
  freeMade : pool.freeCapacity ≠ 0
  orphans : pool.orphanRow.Sound
  orphanMade : pool.orphanList.isSome → pool.orphanCapacity ≠ 0
  unmade : pool.orphanList = none → pool.orphanCapacity = 0

/-- What holds in every state of a run: no fid is in two places, and what was drawn is what lies below the counter. -/
structure PoolInv (r : PoolRun W) : Prop where
  inUse : r.pool.InUse (r.held ++ r.orphaned)
  drawn : ∀ fid, fid ∈ r.drawn ↔ fid ≠ 0 ∧ fid < r.pool.nextFid
  next : r.pool.nextFid ≠ 0
  orphans : r.pool.orphans.Sublist r.orphaned
  fits : r.pool.Fits

section Fits

variable {allocVec} {pool : FidPool} {fid : UInt32} {w : W}

/-- A block of twice the capacity that is not for no bytes has room for a capacity. -/
theorem Doubled.grown {capacity : UInt32} (h : Doubled capacity) (hne : listBytes (capacity * 2) ≠ 0) :
    Doubled (capacity * 2) ∧ capacity.toNat < (capacity * 2).toNat := by
  have hle := h.le
  have hpos := h.pos
  have hmax : capacity.toNat ≠ 536870912 := fun heq => hne (h.listBytes_double.mpr heq)
  exact ⟨h.double (by omega), by rw [toNat_double hle]; omega⟩

theorem FidPool.Fits.fresh : freshPool.Fits :=
  ⟨⟨by decide, rfl, fun _ => Doubled.initial⟩, by decide, ⟨by decide, rfl, fun h => absurd rfl h⟩,
    fun h => absurd h (by decide), fun _ => rfl⟩

theorem FidPool.Fits.alloc (h : pool.Fits) : (fidPoolAlloc pool).2.Fits := by
  rcases fidPoolAlloc_cases pool with ⟨fid, rest, hfree, halloc⟩ | ⟨-, halloc⟩
  · rw [halloc]
    have hfits : pool.freeList.length ≤ pool.freeCapacity.toNat := h.free.fits
    rw [hfree] at hfits
    have hrow := h.free
    exact ⟨⟨(Nat.le_succ _).trans hfits, hrow.inside, hrow.doubled⟩, h.freeMade, h.orphans, h.orphanMade, h.unmade⟩
  · rw [halloc]
    exact ⟨h.free, h.freeMade, h.orphans, h.orphanMade, h.unmade⟩

theorem FidPool.Fits.push (h : pool.Fits) (hgrant : pool.freeCapacity.toNat ≤ pool.freeList.length →
    (allocVec (listBytes pool.freeNext) w).1 = true → listBytes pool.freeNext ≠ 0) :
    (fidPoolFree allocVec pool fid w).1.Fits := by
  obtain ⟨hpushes, hrow, hsame⟩ := fidPoolFree_pushes allocVec pool fid w
  obtain ⟨-, hlist, -⟩ := fidPoolFree_cases allocVec pool fid w
  have hcap : (fidPoolFree allocVec pool fid w).1.orphanCapacity = pool.orphanCapacity := congrArg Row.capacity hrow
  have hsound := hpushes.sound h.free fun hok hfull => (h.free.doubled h.freeMade).grown (hgrant hfull hok)
  rcases hpushes.kept with hpushed | ⟨hdropped, -⟩
  · refine ⟨hsound, hsound.ne_zero hpushed, hrow ▸ h.orphans, ?_, ?_⟩
    · rw [hlist, hcap]
      exact h.orphanMade
    · rw [hlist, hcap]
      exact h.unmade
  · rw [hsame (congrArg Row.entries hdropped)]
    exact h

/-- The list of orphans asks for no bytes when it is full with `2 ^ 29`. -/
theorem FidPool.Fits.orphanNext_zero (h : pool.Fits) (h0 : listBytes pool.orphanNext = 0) :
    pool.orphanCapacity.toNat = 536870912 := by
  unfold FidPool.orphanNext at h0
  split at h0
  · next hsome => exact (h.orphans.doubled (h.orphanMade hsome)).listBytes_double.mp h0
  · exact absurd h0 (by decide)

/-- What the list of orphans grows to. -/
theorem FidPool.Fits.grown (h : pool.Fits) (hne : listBytes pool.orphanNext ≠ 0) :
    Doubled pool.orphanNext ∧ pool.orphanCapacity.toNat < pool.orphanNext.toNat := by
  unfold FidPool.orphanNext at hne ⊢
  cases ho : pool.orphanList with
  | none =>
    rw [h.unmade ho]
    exact ⟨Doubled.initial, by decide⟩
  | some orphans =>
    rw [ho] at hne
    exact (h.orphans.doubled (h.orphanMade (by rw [ho]; rfl))).grown hne

theorem FidPool.Fits.markOrphan (h : pool.Fits) (hgrant : pool.orphanCapacity.toNat ≤ pool.orphans.length →
    (allocVec (listBytes pool.orphanNext) w).1 = true → listBytes pool.orphanNext ≠ 0) :
    (fidPoolMarkOrphan allocVec pool fid w).1.Fits := by
  obtain ⟨hpushes, hrow, hsame⟩ := fidPoolMarkOrphan_pushes allocVec pool fid w h.unmade
  have hcap : (fidPoolMarkOrphan allocVec pool fid w).1.freeCapacity = pool.freeCapacity := congrArg Row.capacity hrow
  have hsound := hpushes.sound h.orphans fun hok hfull => h.grown (hgrant hfull hok)
  rcases hpushes.kept with hpushed | ⟨hdropped, -⟩
  · -- there is an orphan, so there is a list
    refine ⟨hrow ▸ h.free, hcap ▸ h.freeMade, hsound, fun _ => hsound.ne_zero hpushed, fun hnone => ?_⟩
    have hentries : (fidPoolMarkOrphan allocVec pool fid w).1.orphans = fid :: pool.orphans := hpushed
    rw [FidPool.orphans, hnone] at hentries
    cases hentries
  · rw [hsame (congrArg Row.entries hdropped)]
    exact h

end Fits

section Inv

variable {allocVec} {r : PoolRun W}

theorem PoolInv.create {w w' : W} {pool : FidPool} (h : fidPoolCreate allocVec w = (some pool, w')) :
    PoolInv (⟨pool, w', [], [], []⟩ : PoolRun W) := by
  have hpool : pool = freshPool := by
    rcases fidPoolCreate_cases allocVec w with hsome | hnone
    · rw [h] at hsome
      exact Option.some.inj hsome
    · rw [h] at hnone
      cases hnone
  subst hpool
  refine ⟨FidPool.InUse.fresh, fun fid => ⟨fun h => absurd h List.not_mem_nil, fun h => ?_⟩,
    show (1 : UInt32) ≠ 0 by decide, List.Sublist.slnil, FidPool.Fits.fresh⟩
  have hlt : fid.toNat < 1 := UInt32.lt_iff_toNat_lt.mp h.2
  exact absurd (UInt32.toNat_inj.mp (show fid.toNat = (0 : UInt32).toNat from Nat.lt_one_iff.mp hlt)) h.1

/-- The counter, from the number of fids that were drawn. -/
theorem PoolInv.nextFid_le (h : PoolInv r) : r.pool.nextFid.toNat ≤ r.drawn.toFinset.card + 1 := by
  have hsub : Finset.Ico 1 r.pool.nextFid.toNat ⊆ r.drawn.toFinset.image UInt32.toNat := by
    intro i hi
    obtain ⟨hpos, hlt⟩ := Finset.mem_Ico.mp hi
    have hnat : (UInt32.ofNat i).toNat = i := by
      have := r.pool.nextFid.toNat_lt
      rw [UInt32.toNat_ofNat', Nat.mod_eq_of_lt (by omega)]
    refine Finset.mem_image.mpr ⟨UInt32.ofNat i, List.mem_toFinset.mpr ((h.drawn _).mpr ⟨?_, ?_⟩), hnat⟩
    · intro h0
      rw [h0, UInt32.toNat_zero] at hnat
      omega
    · exact UInt32.lt_iff_toNat_lt.mpr (by omega)
  have hcard := (Finset.card_le_card hsub).trans Finset.card_image_le
  rw [Nat.card_Ico] at hcard
  omega

/-- The counter does not wrap. -/
theorem PoolInv.succ_nextFid (h : PoolInv r) (hdrawn : r.drawn.toFinset.card < 4294967294) :
    (r.pool.nextFid + 1).toNat = r.pool.nextFid.toNat + 1 := by
  have hle := h.nextFid_le
  rw [UInt32.toNat_add, UInt32.toNat_one, Nat.mod_eq_of_lt (by omega)]

theorem PoolInv.alloc_nextFid (h : PoolInv r) (hdrawn : r.drawn.toFinset.card < 4294967294) :
    (fidPoolAlloc r.pool).2.nextFid ≠ 0 := by
  rcases fidPoolAlloc_cases r.pool with ⟨fid, rest, -, halloc⟩ | ⟨-, halloc⟩
  · rw [halloc]
    exact h.next
  · rw [halloc]
    intro h0
    have hsucc := h.succ_nextFid hdrawn
    rw [show r.pool.nextFid + 1 = 0 from h0, UInt32.toNat_zero] at hsucc
    omega

theorem PoolInv.alloc (h : PoolInv r) (hdrawn : r.drawn.toFinset.card < 4294967294) :
    PoolInv (r.call allocVec .alloc) := by
  have hsucc := h.succ_nextFid hdrawn
  have hwrap := h.alloc_nextFid hdrawn
  refine ⟨(h.inUse.alloc hwrap h.next).1, fun g => ?_, hwrap, ?_, h.fits.alloc⟩
  · show g ∈ (fidPoolAlloc r.pool).1 :: r.drawn ↔ g ≠ 0 ∧ g < (fidPoolAlloc r.pool).2.nextFid
    rw [List.mem_cons, h.drawn]
    rcases fidPoolAlloc_cases r.pool with ⟨fid, rest, hfree, halloc⟩ | ⟨-, halloc⟩
    · have hbelow := h.inUse.below fid (List.mem_append_right _ (hfree ▸ List.mem_cons_self ..))
      rw [halloc]
      exact ⟨fun hg => hg.elim (fun heq => heq ▸ hbelow) id, .inr⟩
    · rw [halloc, UInt32.lt_iff_toNat_lt, UInt32.lt_iff_toNat_lt, hsucc]
      constructor
      · rintro (rfl | ⟨hg, hlt⟩)
        · exact ⟨h.next, Nat.lt_succ_self _⟩
        · exact ⟨hg, hlt.trans (Nat.lt_succ_self _)⟩
      · rintro ⟨hg, hlt⟩
        by_cases heq : g = r.pool.nextFid
        · exact .inl heq
        · have hnat : g.toNat ≠ r.pool.nextFid.toNat := fun hg => heq (UInt32.toNat_inj.mp hg)
          exact .inr ⟨hg, by omega⟩
  · have hsame : (fidPoolAlloc r.pool).2.orphans = r.pool.orphans := by
      rcases fidPoolAlloc_cases r.pool with ⟨fid, rest, -, halloc⟩ | ⟨-, halloc⟩
      · rw [halloc]
        rfl
      · rw [halloc]
        rfl
    show (fidPoolAlloc r.pool).2.orphans.Sublist r.orphaned
    rw [hsame]
    exact h.orphans

/-- Who holds a fid can give it away. -/
theorem perm_held {held orphaned : List UInt32} {fid : UInt32} (hfid : fid ∈ held) :
    (held ++ orphaned).Perm (fid :: (held.erase fid ++ orphaned)) :=
  (List.perm_cons_erase hfid).append_right orphaned

theorem PoolInv.free (h : PoolInv r) {fid : UInt32} (hfid : fid ∈ r.held)
    (hgrant : NoEmptyGrant allocVec r (.free fid)) : PoolInv (r.call allocVec (.free fid)) := by
  obtain ⟨hnext, hlist, hfree⟩ := fidPoolFree_cases allocVec r.pool fid r.w
  refine ⟨((h.inUse.perm (perm_held hfid)).free hnext hfree).1, fun g => ?_, ?_, ?_, h.fits.push hgrant.free⟩
  · show g ∈ r.drawn ↔ g ≠ 0 ∧ g < (fidPoolFree allocVec r.pool fid r.w).1.nextFid
    rw [hnext]
    exact h.drawn g
  · show (fidPoolFree allocVec r.pool fid r.w).1.nextFid ≠ 0
    rw [hnext]
    exact h.next
  · show List.Sublist ((fidPoolFree allocVec r.pool fid r.w).1.orphanList.getD []) r.orphaned
    rw [hlist]
    exact h.orphans

theorem PoolInv.markOrphan (h : PoolInv r) {fid : UInt32} (hfid : fid ∈ r.held)
    (hgrant : NoEmptyGrant allocVec r (.markOrphan fid)) : PoolInv (r.call allocVec (.markOrphan fid)) := by
  obtain ⟨hnext, hfree⟩ := fidPoolMarkOrphan_kept allocVec r.pool fid r.w
  obtain ⟨htakes, -, -⟩ := fidPoolMarkOrphan_pushes allocVec r.pool fid r.w h.fits.unmade
  have hperm : (r.held ++ r.orphaned).Perm (r.held.erase fid ++ fid :: r.orphaned) :=
    (perm_held hfid).trans List.perm_middle.symm
  refine ⟨(h.inUse.perm hperm).same hnext hfree, fun g => ?_, ?_, ?_, h.fits.markOrphan hgrant.markOrphan⟩
  · show g ∈ r.drawn ↔ g ≠ 0 ∧ g < (fidPoolMarkOrphan allocVec r.pool fid r.w).1.nextFid
    rw [hnext]
    exact h.drawn g
  · show (fidPoolMarkOrphan allocVec r.pool fid r.w).1.nextFid ≠ 0
    rw [hnext]
    exact h.next
  · show (fidPoolMarkOrphan allocVec r.pool fid r.w).1.orphanRow.entries.Sublist (fid :: r.orphaned)
    rcases htakes.kept with hpushed | ⟨hdropped, -⟩
    · rw [hpushed]
      exact h.orphans.cons_cons fid
    · rw [hdropped]
      exact h.orphans.cons fid

/-- Fids that were drawn stay drawn. -/
theorem drawn_call (r : PoolRun W) (c : PoolCall) : r.drawn.toFinset ⊆ (r.call allocVec c).drawn.toFinset := by
  cases c with
  | alloc =>
    intro g hg
    exact List.mem_toFinset.mpr (List.mem_cons_of_mem _ (List.mem_toFinset.mp hg))
  | free fid => exact Finset.Subset.refl _
  | markOrphan fid => exact Finset.Subset.refl _

/-- **The invariant holds in every state of a run.** -/
theorem PoolReached.inv (h : PoolReached allocVec (NoEmptyGrant allocVec) r)
    (hdrawn : r.drawn.toFinset.card < 4294967294) : PoolInv r := by
  induction h with
  | create hcreate => exact PoolInv.create hcreate
  | call c _ hproper hgrant ih =>
    have hbefore := lt_of_le_of_lt (Finset.card_le_card (drawn_call _ c)) hdrawn
    cases c with
    | alloc => exact (ih hbefore).alloc hbefore
    | free fid => exact (ih hbefore).free hproper hgrant
    | markOrphan fid => exact (ih hbefore).markOrphan hproper hgrant

theorem PoolInv.sound (h : PoolInv r) : PoolSound r := by
  refine ⟨h.inUse.nodup, fun fid hfid => ?_, h.orphans, h.fits.free.fits, h.fits.free.holds, h.fits.orphans.fits,
    h.fits.orphans.holds⟩
  obtain ⟨hne, hlt⟩ := h.inUse.below fid hfid
  have hnat : fid.toNat ≠ 0 := fun h0 => hne (UInt32.toNat_inj.mp h0)
  exact ⟨by omega, UInt32.lt_iff_toNat_lt.mp hlt⟩

/-- What `FidPool_Alloc` hands out is known to nobody. -/
theorem PoolInv.alloc_sound (h : PoolInv r) (hdrawn : r.drawn.toFinset.card < 4294967294) :
    PoolCall.Sound allocVec r .alloc := by
  have hle := h.nextFid_le
  have hnew := (h.inUse.alloc (h.alloc_nextFid hdrawn) h.next).1
  obtain ⟨hne, hlt⟩ := hnew.below (fidPoolAlloc r.pool).1 (List.mem_cons_self ..)
  have hnot : (fidPoolAlloc r.pool).1 ∉ r.held ++ r.orphaned := (List.nodup_cons.mp hnew.distinct).1
  have hnoFid : (fidPoolAlloc r.pool).1 ≠ p9NoFid := by
    intro heq
    have hlt' := UInt32.lt_iff_toNat_lt.mp hlt
    have hmax := (fidPoolAlloc r.pool).2.nextFid.toNat_lt
    rw [heq, show p9NoFid.toNat = 4294967295 from rfl] at hlt'
    omega
  have horphaned : (fidPoolAlloc r.pool).1 ∉ r.orphaned := fun hmem => hnot (List.mem_append_right _ hmem)
  exact ⟨hne, hnoFid, fun hmem => hnot (List.mem_append_left _ hmem), horphaned,
    fun hmem => horphaned (h.orphans.subset hmem)⟩

theorem free_sound (r : PoolRun W) (fid : UInt32) : PoolCall.Sound allocVec r (.free fid) := by
  obtain ⟨htakes, hrow, hsame⟩ := fidPoolFree_pushes allocVec r.pool fid r.w
  obtain ⟨hnext, hlist, -⟩ := fidPoolFree_cases allocVec r.pool fid r.w
  rcases htakes.kept with hpushed | ⟨hdropped, hok, hfull⟩
  · exact .inl ⟨hpushed, hnext, hlist, congrArg Row.capacity hrow⟩
  · exact .inr ⟨hfull, hok, hsame (congrArg Row.entries hdropped)⟩

theorem PoolInv.markOrphan_sound (h : PoolInv r) (fid : UInt32) : PoolCall.Sound allocVec r (.markOrphan fid) := by
  obtain ⟨htakes, hrow, hsame⟩ := fidPoolMarkOrphan_pushes allocVec r.pool fid r.w h.fits.unmade
  obtain ⟨hnext, hfree⟩ := fidPoolMarkOrphan_kept allocVec r.pool fid r.w
  rcases htakes.kept with hpushed | ⟨hdropped, hok, hfull⟩
  · exact .inl ⟨hpushed, hnext, hfree, congrArg Row.capacity hrow⟩
  · exact .inr ⟨hfull, hok, hsame (congrArg Row.entries hdropped)⟩

/-- All fids that somebody knows were drawn. -/
theorem PoolInv.length_le (h : PoolInv r) :
    (r.held ++ r.orphaned ++ r.pool.freeList).length ≤ r.drawn.toFinset.card := by
  rw [← List.toFinset_card_of_nodup h.inUse.nodup]
  refine Finset.card_le_card fun fid hfid => List.mem_toFinset.mpr ((h.drawn fid).mpr ?_)
  exact h.inUse.below fid (List.mem_toFinset.mp hfid)

/-- Up to `2 ^ 29` fids, no request is for no bytes. -/
theorem PoolInv.asks_ne_zero (h : PoolInv r) (hfew : r.drawn.toFinset.card ≤ 536870912) {c : PoolCall}
    (hproper : c.Proper r) : c.asks r ≠ some 0 := by
  have hlength := h.length_le
  rw [List.length_append, List.length_append] at hlength
  intro hasks
  cases c with
  | alloc => cases hasks
  | free fid =>
    have hheld := List.length_pos_of_mem hproper
    rw [PoolCall.asks, Option.ite_none_right_eq_some] at hasks
    have heq := (h.fits.free.doubled h.fits.freeMade).listBytes_double.mp (Option.some.inj hasks.2)
    have hfull := hasks.1
    rw [show r.pool.freeCapacity.toNat = _ from heq] at hfull
    omega
  | markOrphan fid =>
    have hheld := List.length_pos_of_mem hproper
    have hsub := h.orphans.length_le
    rw [PoolCall.asks, Option.ite_none_right_eq_some] at hasks
    have hfull := hasks.1
    rw [h.fits.orphanNext_zero (Option.some.inj hasks.2)] at hfull
    omega

/-- So the runs with that few fids need no condition. -/
theorem PoolReached.of_few (h : PoolReached allocVec (fun _ _ => True) r)
    (hfew : r.drawn.toFinset.card ≤ 536870912) : PoolReached allocVec (NoEmptyGrant allocVec) r := by
  induction h with
  | create hcreate => exact .create hcreate
  | call c _ hproper _ ih =>
    have hbefore := (Finset.card_le_card (drawn_call _ c)).trans hfew
    refine .call c (ih hbefore) hproper fun hasks => ?_
    exact absurd hasks (((ih hbefore).inv (by omega)).asks_ne_zero hbefore hproper)

end Inv

/-- **The pool keeps its fids apart**, in every run in which no request for no bytes is granted: what is free, held or
an orphan is in one place, below the counter, within the capacities and in the blocks, and each further call is sound.
Every run with at most `2 ^ 29` different fids is such a run. -/
theorem pool_sound {r : PoolRun W} (hdrawn : r.drawn.toFinset.card < 4294967294)
    (h : PoolReached allocVec (NoEmptyGrant allocVec) r ∨
      PoolReached allocVec (fun _ _ => True) r ∧ r.drawn.toFinset.card ≤ 536870912) :
    PoolSound r ∧ ∀ c : PoolCall, c.Sound allocVec r := by
  have hinv : PoolInv r := (h.elim id fun hfew => hfew.1.of_few hfew.2).inv hdrawn
  refine ⟨hinv.sound, fun c => ?_⟩
  cases c with
  | alloc => exact hinv.alloc_sound hdrawn
  | free fid => exact free_sound r fid
  | markOrphan fid => exact hinv.markOrphan_sound fid

/-- Memory that is always there. -/
def plenty : UInt32 → StateM Unit Bool := fun _ => pure true

/-- Two fids are drawn, the first is given back and the second is marked as an orphan. -/
def twoDrawn : PoolRun Unit :=
  ((((⟨freshPool, (), [], [], []⟩ : PoolRun Unit).call plenty .alloc).call plenty .alloc).call plenty (.free 1)).call
    plenty (.markOrphan 2)

theorem pool_sound_twoDrawn : PoolSound twoDrawn ∧ PoolCall.alloc.Sound plenty twoDrawn := by
  have hreached : PoolReached plenty (fun _ _ => True) twoDrawn :=
    .call _ (.call _ (.call _ (.call _ (.create (w := ()) rfl) trivial trivial) trivial trivial)
      (show (1 : UInt32) ∈ _ by decide) trivial) (show (2 : UInt32) ∈ _ by decide) trivial
  obtain ⟨hsound, hcalls⟩ := pool_sound plenty (by decide) (.inr ⟨hreached, by decide⟩)
  exact ⟨hsound, hcalls .alloc⟩

/-! ## A list that grows too far -/

/-- One more fid is drawn and marked as an orphan. -/
theorem PoolReached.orphan {r : PoolRun Unit} (hr : PoolReached plenty (fun _ _ => True) r)
    (hfree : r.pool.freeList = []) (hheld : r.held = []) : ∃ r' fid, PoolReached plenty (fun _ _ => True) r' ∧
      r'.pool.freeList = [] ∧ r'.held = [] ∧ r'.drawn = fid :: r.drawn ∧
      r'.pool = (fidPoolMarkOrphan plenty { r.pool with nextFid := r.pool.nextFid + 1 } fid ()).1 := by
  have halloc : fidPoolAlloc r.pool = (r.pool.nextFid, { r.pool with nextFid := r.pool.nextFid + 1 }) := by
    rcases fidPoolAlloc_cases r.pool with ⟨_, _, hcons, -⟩ | ⟨-, halloc⟩
    · rw [hfree] at hcons
      cases hcons
    · exact halloc
  have hr₁ := hr.call .alloc trivial trivial
  have hcall : r.call plenty .alloc = { r with
      pool := { r.pool with nextFid := r.pool.nextFid + 1 }
      held := [r.pool.nextFid]
      drawn := r.pool.nextFid :: r.drawn } := by
    rw [PoolRun.call, halloc, hheld]
  rw [hcall] at hr₁
  refine ⟨_, r.pool.nextFid, hr₁.call (.markOrphan r.pool.nextFid) (List.mem_cons_self ..) trivial, ?_, ?_, rfl, rfl⟩
  · exact (fidPoolMarkOrphan_kept plenty _ _ _).2.trans hfree
  · show [r.pool.nextFid].erase r.pool.nextFid = []
    rw [List.erase_cons_head]

/-- As many orphans as wanted, up to `2 ^ 29`. -/
theorem exists_orphans (k : Nat) (hk : k ≤ 536870912) : ∃ r : PoolRun Unit, PoolReached plenty (fun _ _ => True) r ∧
    r.pool.freeList = [] ∧ r.held = [] ∧ r.drawn.length = k ∧ r.pool.orphans.length = k ∧ r.pool.Fits := by
  induction k with
  | zero => exact ⟨_, .create (w := ()) rfl, rfl, rfl, rfl, rfl, FidPool.Fits.fresh⟩
  | succ k ih =>
    obtain ⟨r, hr, hfree, hheld, hdrawn, horphans, hfits⟩ := ih (by omega)
    obtain ⟨r', fid, hr', hfree', hheld', hdrawn', hpool⟩ := hr.orphan hfree hheld
    have hfits' : FidPool.Fits { r.pool with nextFid := r.pool.nextFid + 1 } :=
      ⟨hfits.free, hfits.freeMade, hfits.orphans, hfits.orphanMade, hfits.unmade⟩
    obtain ⟨hpushes, -, -⟩ := fidPoolMarkOrphan_pushes plenty _ fid () hfits'.unmade
    refine ⟨r', hr', hfree', hheld', by rw [hdrawn', List.length_cons, hdrawn], ?_, ?_⟩
    · rw [hpool]
      have hentries := congrArg List.length hpushes.stored.1
      rw [List.length_cons] at hentries
      exact hentries.trans (congrArg Nat.succ horphans)
    · rw [hpool]
      refine hfits'.markOrphan fun hfull _ hzero => ?_
      have hfull' : r.pool.orphanCapacity.toNat ≤ r.pool.orphans.length := hfull
      rw [show r.pool.orphanCapacity.toNat = _ from hfits'.orphanNext_zero hzero, horphans] at hfull'
      omega

/-- **A list loses its block**: the orphan after `2 ^ 29` others makes the list ask for no bytes, and where that is
granted its entries lie in no block. -/
theorem empty_block : ∃ r : PoolRun Unit, PoolReached plenty (fun _ _ => True) r ∧
    r.drawn.toFinset.card < 4294967294 ∧ r.pool.orphans.length = 536870913 ∧ r.pool.orphanBytes = 0 ∧
    ¬ PoolSound r := by
  obtain ⟨r, hr, hfree, hheld, hdrawn, horphans, hfits⟩ := exists_orphans 536870912 (Nat.le_refl _)
  obtain ⟨r', fid, hr', -, -, hdrawn', hpool⟩ := hr.orphan hfree hheld
  obtain ⟨hpushes, -, -⟩ := fidPoolMarkOrphan_pushes plenty { r.pool with nextFid := r.pool.nextFid + 1 } fid ()
    hfits.unmade
  have hsome : r.pool.orphanList.isSome := by
    cases ho : r.pool.orphanList with
    | none =>
      rw [FidPool.orphans, ho] at horphans
      exact absurd horphans (by decide)
    | some _ => rfl
  have hdoubled := hfits.orphans.doubled (hfits.orphanMade hsome)
  have hcap : r.pool.orphanCapacity.toNat = 536870912 :=
    Nat.le_antisymm hdoubled.le (horphans ▸ hfits.orphans.fits)
  have hlength : r'.pool.orphans.length = 536870913 := by
    rw [hpool]
    have hentries := congrArg List.length hpushes.stored.1
    rw [List.length_cons] at hentries
    exact hentries.trans (congrArg Nat.succ horphans)
  have hbytes : r'.pool.orphanBytes = 0 := by
    rw [hpool]
    rcases hpushes.stored.2 with ⟨hroom, -⟩ | ⟨-, -, hbytes⟩
    · have hroom' : r.pool.orphans.length < r.pool.orphanCapacity.toNat := hroom
      omega
    · refine hbytes.trans ?_
      rw [FidPool.orphanNext, if_pos hsome]
      exact hdoubled.listBytes_double.mpr hcap
  refine ⟨r', hr', ?_, hlength, hbytes, fun hsound => ?_⟩
  · refine lt_of_le_of_lt (List.toFinset_card_le r'.drawn) ?_
    rw [hdrawn', List.length_cons, hdrawn]
    decide
  · have hinside := hsound.orphansInside
    rw [hlength, hbytes] at hinside
    exact absurd hinside (by decide)

end Virtio9P
