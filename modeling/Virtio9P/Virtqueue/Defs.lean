import Virtio9P.Lib.Bytes

/-!
# The virtqueue (`virtqueue.c`, `virtqueue.h`)

`virtQueueAllocate`, `virtQueueAddBuf` and `virtQueueGetBuf` as the code computes them. The arrays `desc[]`,
`cookies[]` and `indirect_tables[]` have `num` entries; an access outside them is a fault (`VqFault`), and so is a
chain walk that does not end. The used ring is written by the device, so it is part of the record and nothing here
writes it. Barriers, cache operations and the doorbell (`VirtQueue_Kick`) have no effect on these values and are left
out.
-/

namespace Virtio9P

open Lib

/-! ## Ring fields -/

/-- `vr16`: the value of a 16-bit ring field, swapped when the queue is modern. -/
def vr16 (modern : Bool) (v : UInt16) : UInt16 := if modern then UInt16.ofNat (swapBytes 2 v.toNat) else v

/-- `vr32`. -/
def vr32 (modern : Bool) (v : UInt32) : UInt32 := if modern then UInt32.ofNat (swapBytes 4 v.toNat) else v

/-- `vr64`. -/
def vr64 (modern : Bool) (v : UInt64) : UInt64 := if modern then UInt64.ofNat (swapBytes 8 v.toNat) else v

@[simp] theorem vr16_vr16 (modern : Bool) (v : UInt16) : vr16 modern (vr16 modern v) = v := by
  cases modern with
  | false => rfl
  | true =>
    have hlt : swapBytes 2 v.toNat < 65536 := swapBytes_lt 2 v.toNat
    have hv : swapBytes 2 (swapBytes 2 v.toNat) = v.toNat := swapBytes_swapBytes (k := 2) v.toNat_lt
    simp only [vr16, if_true, UInt16.toNat_ofNat', Nat.mod_eq_of_lt hlt, hv, UInt16.ofNat_toNat]

@[simp] theorem vr32_vr32 (modern : Bool) (v : UInt32) : vr32 modern (vr32 modern v) = v := by
  cases modern with
  | false => rfl
  | true =>
    have hlt : swapBytes 4 v.toNat < 4294967296 := swapBytes_lt 4 v.toNat
    have hv : swapBytes 4 (swapBytes 4 v.toNat) = v.toNat := swapBytes_swapBytes (k := 4) v.toNat_lt
    simp only [vr32, if_true, UInt32.toNat_ofNat', Nat.mod_eq_of_lt hlt, hv, UInt32.ofNat_toNat]

@[simp] theorem vr64_vr64 (modern : Bool) (v : UInt64) : vr64 modern (vr64 modern v) = v := by
  cases modern with
  | false => rfl
  | true =>
    have hlt : swapBytes 8 v.toNat < 18446744073709551616 := swapBytes_lt 8 v.toNat
    have hv : swapBytes 8 (swapBytes 8 v.toNat) = v.toNat := swapBytes_swapBytes (k := 8) v.toNat_lt
    simp only [vr64, if_true, UInt64.toNat_ofNat', Nat.mod_eq_of_lt hlt, hv, UInt64.ofNat_toNat]

@[simp] theorem vr16_zero (modern : Bool) : vr16 modern 0 = 0 := by cases modern <;> rfl

/-! ## The queue -/

/-- `VRING_DESC_F_NEXT`. -/
def vringDescFNext : UInt16 := 1

/-- `VRING_DESC_F_WRITE`. -/
def vringDescFWrite : UInt16 := 2

/-- `struct vring_desc`. -/
structure VringDesc where
  addr : UInt64
  len : UInt32
  flags : UInt16
  next : UInt16
  deriving DecidableEq

/-- `struct vring_used_elem`. -/
structure VringUsedElem where
  id : UInt32
  len : UInt32
  deriving DecidableEq

/-- `struct vring_sg`. -/
structure VringSg where
  addr : UInt32
  len : UInt32
  deriving DecidableEq

/-- `struct virtqueue` with the memory it points to. `κ` is the type of the cookies; `none` is `NULL`. -/
structure Virtqueue (κ : Type) where
  num : Nat
  desc : Nat → VringDesc
  /-- `avail->idx` -/
  availIdx : UInt16
  /-- `avail->ring[]`, whose entry `num` is the `used_event` slot -/
  availRing : Nat → UInt16
  /-- `used->idx` -/
  usedIdx : UInt16
  /-- `used->ring[]` -/
  usedRing : Nat → VringUsedElem
  freeHead : UInt16
  numFree : UInt16
  lastUsedIdx : UInt16
  cookies : Nat → Option κ
  indirectTables : Nat → Option UInt32
  modern : Bool
  useEventIdx : Bool

/-- What the C code would do wrong: an index outside an array of `num` entries, or a walk without an end. -/
inductive VqFault where
  | desc (i : Nat)
  | cookie (i : Nat)
  | endless
  deriving DecidableEq

variable {κ : Type}

namespace Virtqueue

/-- `desc[i]`. -/
def descAt (vq : Virtqueue κ) (i : Nat) : Except VqFault VringDesc :=
  if i < vq.num then .ok (vq.desc i) else .error (.desc i)

/-- `desc[i] = d`. -/
def setDesc (vq : Virtqueue κ) (i : Nat) (d : VringDesc) : Virtqueue κ :=
  { vq with desc := Function.update vq.desc i d }

/-- `cookies[i] = c; indirect_tables[i] = NULL`, which the code always stores together. -/
def setCookie (vq : Virtqueue κ) (i : Nat) (c : Option κ) : Except VqFault (Virtqueue κ) :=
  if i < vq.num then
    .ok { vq with
      cookies := Function.update vq.cookies i c
      indirectTables := Function.update vq.indirectTables i none }
  else .error (.cookie i)

end Virtqueue

/-- `VirtQueue_Allocate`: all memory is cleared, then the free list runs through the whole table. -/
def virtQueueAllocate (queueSize : Nat) : Virtqueue κ where
  num := queueSize
  desc := fun j =>
    { addr := 0, len := 0, flags := 0, next := if j < queueSize - 1 then UInt16.ofNat (j + 1) else 0 }
  availIdx := 0
  availRing := fun _ => 0
  usedIdx := 0
  usedRing := fun _ => { id := 0, len := 0 }
  freeHead := 0
  numFree := UInt16.ofNat queueSize
  lastUsedIdx := 0
  cookies := fun _ => none
  indirectTables := fun _ => none
  modern := false
  useEventIdx := false

/-- The queue as `V9P_InitVirtIO` hands it to the handler: the mode set, `EVENT_IDX` not negotiated. -/
def initQueue (queueSize : Nat) (modern : Bool) : Virtqueue κ :=
  { virtQueueAllocate queueSize with modern := modern, useEventIdx := false }

/-! ## `VirtQueue_AddBuf` -/

/-- `desc_flags` of entry `n` of a request. -/
def descFlags (outNum total n : Nat) : UInt16 :=
  (if outNum ≤ n then vringDescFWrite else 0) ||| (if n < total - 1 then vringDescFNext else 0)

/-- The `for` loop of `VirtQueue_AddBuf` with `k` rounds to go, at entry `n` and descriptor `idx`. The link of the
last descriptor is not written. -/
def addBufLoop (sg : Nat → VringSg) (outNum total : Nat) :
    Nat → Nat → UInt16 → Virtqueue κ → Except VqFault (Virtqueue κ)
  | 0, _, _, vq => .ok vq
  | k + 1, n, idx, vq => do
    let d ← vq.descAt idx.toNat
    let nextIdx := d.next
    let d' : VringDesc :=
      { addr := vr64 vq.modern (sg n).addr.toUInt64
        len := vr32 vq.modern (sg n).len
        flags := vr16 vq.modern (descFlags outNum total n)
        next := if n < total - 1 then vr16 vq.modern nextIdx else d.next }
    let vq := vq.setDesc idx.toNat d'
    if n < total - 1 then addBufLoop sg outNum total k (n + 1) nextIdx vq
    else addBufLoop sg outNum total k (n + 1) idx { vq with freeHead := nextIdx }

section AddRound

variable {sg : Nat → VringSg} {outNum total k n : Nat} {idx : UInt16} {vq : Virtqueue κ}

theorem addBufLoop_fault (h : ¬ idx.toNat < vq.num) :
    addBufLoop sg outNum total (k + 1) n idx vq = .error (.desc idx.toNat) := by
  simp only [addBufLoop, Virtqueue.descAt, h, if_false, bind, Except.bind]

/-- A round that links its descriptor to the next one. -/
theorem addBufLoop_link (h : idx.toNat < vq.num) (hn : n < total - 1) :
    addBufLoop sg outNum total (k + 1) n idx vq =
      addBufLoop sg outNum total k (n + 1) (vq.desc idx.toNat).next (vq.setDesc idx.toNat
        ⟨vr64 vq.modern (sg n).addr.toUInt64, vr32 vq.modern (sg n).len, vr16 vq.modern (descFlags outNum total n),
          vr16 vq.modern (vq.desc idx.toNat).next⟩) := by
  simp only [addBufLoop, Virtqueue.descAt, h, hn, if_true, bind, Except.bind]

/-- The round of the last entry. -/
theorem addBufLoop_last (h : idx.toNat < vq.num) (hn : ¬ n < total - 1) :
    addBufLoop sg outNum total (k + 1) n idx vq =
      addBufLoop sg outNum total k (n + 1) idx { vq.setDesc idx.toNat
        ⟨vr64 vq.modern (sg n).addr.toUInt64, vr32 vq.modern (sg n).len, vr16 vq.modern (descFlags outNum total n),
          (vq.desc idx.toNat).next⟩ with freeHead := (vq.desc idx.toNat).next } := by
  simp only [addBufLoop, Virtqueue.descAt, h, hn, if_true, if_false, bind, Except.bind]

end AddRound

/-- `VirtQueue_AddBuf`: the return code and the queue after the call. -/
def virtQueueAddBuf (vq : Virtqueue κ) (sg : Nat → VringSg) (outNum inNum : UInt32) (cookie : Option κ) :
    Except VqFault (Int × Virtqueue κ) :=
  let total := outNum + inNum
  if vq.numFree.toNat < total.toNat then .ok (-1, vq)
  else do
    let head := vq.freeHead
    let vq ← addBufLoop sg outNum.toNat total.toNat total.toNat 0 head vq
    let vq ← { vq with numFree := vq.numFree - total.toUInt16 }.setCookie head.toNat cookie
    let availIdx := vr16 vq.modern vq.availIdx
    .ok (0, { vq with
      availRing := Function.update vq.availRing (availIdx.toNat % vq.num) (vr16 vq.modern head)
      availIdx := vr16 vq.modern (availIdx + 1) })

/-! ## `VirtQueue_GetBuf` -/

/-- Put descriptor `i` in front of the free list. -/
def Virtqueue.pushFree (vq : Virtqueue κ) (i : UInt16) : Virtqueue κ :=
  { vq.setDesc i.toNat { addr := 0, len := 0, flags := 0, next := vq.freeHead } with freeHead := i }

/-- The `while (1)` of `VirtQueue_GetBuf`: free the chain from `idx` on; `freed` descriptors so far. -/
def freeChain : Nat → UInt16 → Nat → Virtqueue κ → Except VqFault (Nat × Virtqueue κ)
  | 0, _, _, _ => .error .endless
  | fuel + 1, idx, freed, vq => do
    let d ← vq.descAt idx.toNat
    let next := vr16 vq.modern d.next
    let hasNext := vr16 vq.modern d.flags &&& vringDescFNext
    let vq := vq.pushFree idx
    if hasNext = 0 then .ok (freed + 1, vq) else freeChain fuel next (freed + 1) vq

section FreeRound

variable {fuel freed : Nat} {idx : UInt16} {vq : Virtqueue κ}

theorem freeChain_fault (h : ¬ idx.toNat < vq.num) : freeChain (fuel + 1) idx freed vq = .error (.desc idx.toNat) := by
  simp only [freeChain, Virtqueue.descAt, h, if_false, bind, Except.bind]

theorem freeChain_round (h : idx.toNat < vq.num) :
    freeChain (fuel + 1) idx freed vq =
      if vr16 vq.modern (vq.desc idx.toNat).flags &&& vringDescFNext = 0 then .ok (freed + 1, vq.pushFree idx)
      else freeChain fuel (vr16 vq.modern (vq.desc idx.toNat).next) (freed + 1) (vq.pushFree idx) := by
  simp only [freeChain, Virtqueue.descAt, h, if_true, bind, Except.bind]

end FreeRound

/-- Free the descriptors of a finished request. An indirect table's memory goes back to the system; only its one
descriptor is in the ring. -/
def freeRequest (vq : Virtqueue κ) (itblVirt : Option UInt32) (idx : UInt16) : Except VqFault (Nat × Virtqueue κ) :=
  match itblVirt with
  | some _ => do
    let _ ← vq.descAt idx.toNat
    .ok (1, vq.pushFree idx)
  -- a walk clears the `NEXT` flags it follows, so `num + 1` rounds are enough
  | none => freeChain (vq.num + 1) idx 0 vq

/-- The counters after a request of `freed` descriptors. -/
def Virtqueue.retire (vq : Virtqueue κ) (freed : Nat) : Virtqueue κ :=
  let vq := { vq with numFree := vq.numFree + UInt16.ofNat freed, lastUsedIdx := vq.lastUsedIdx + 1 }
  if vq.useEventIdx then
    { vq with availRing := Function.update vq.availRing vq.num (vr16 vq.modern vq.lastUsedIdx) }
  else vq

/-- What `VirtQueue_GetBuf` returns: the cookie (`none` is `NULL`) and what it stored through `len_out`, if it did. -/
structure Got (κ : Type) where
  cookie : Option κ
  len : Option UInt32

/-- `VirtQueue_GetBuf`. -/
def virtQueueGetBuf (vq : Virtqueue κ) : Except VqFault (Got κ × Virtqueue κ) :=
  if vq.lastUsedIdx = vr16 vq.modern vq.usedIdx then .ok (⟨none, none⟩, vq)
  else
    let e := vq.usedRing (vq.lastUsedIdx.toNat % vq.num)
    let descId := vr32 vq.modern e.id
    let written := vr32 vq.modern e.len
    if vq.num ≤ descId.toNat then .ok (⟨none, none⟩, vq)
    else do
      let cookie := vq.cookies descId.toNat
      let itblVirt := vq.indirectTables descId.toNat
      let vq ← vq.setCookie descId.toNat none
      let (freed, vq) ← freeRequest vq itblVirt descId.toUInt16
      .ok (⟨cookie, some written⟩, vq.retire freed)

end Virtio9P
