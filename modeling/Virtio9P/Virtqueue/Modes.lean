import Virtio9P.Virtqueue.Hostile

/-!
# Legacy and modern queues

A modern queue keeps its ring fields in little-endian order, a legacy one in the order of the machine. The two tables
are not byte swaps of each other: the link of a descriptor is swapped only while its `NEXT` flag is set, since the free
list and the end of a chain are kept in the order of the machine. `Virtqueue.toModern` is the modern queue in the place
of a legacy one. `VirtQueue_GetBuf` commutes with it on every queue (`getBuf_toModern`), `VirtQueue_AddBuf` where the
descriptors it takes are distinct and carry no `NEXT` flag (`addBuf_toModern`).

So the two queues go in lockstep through every sequence of calls with a device that completes each outstanding chain
at most once (`lockstep`). A request without buffers has no chain of its own: it publishes the head of the free list,
and when that is completed, the free list becomes a cycle and the modes part (`empty_parts`).
-/

namespace Virtio9P

variable {κ : Type}

/-! ## The modern queue in the place of a legacy one -/

/-- A descriptor as the modern queue keeps it. -/
def VringDesc.toModern (d : VringDesc) : VringDesc where
  addr := vr64 true d.addr
  len := vr32 true d.len
  flags := vr16 true d.flags
  next := if d.flags &&& vringDescFNext = 0 then d.next else vr16 true d.next

/-- A used entry as the device writes it for a modern queue. -/
def VringUsedElem.toModern (e : VringUsedElem) : VringUsedElem := ⟨vr32 true e.id, vr32 true e.len⟩

/-- The modern queue in the place of a legacy one. -/
def Virtqueue.toModern (vq : Virtqueue κ) : Virtqueue κ :=
  { vq with
    desc := fun i => (vq.desc i).toModern
    availIdx := vr16 true vq.availIdx
    availRing := fun i => vr16 true (vq.availRing i)
    usedIdx := vr16 true vq.usedIdx
    usedRing := fun i => (vq.usedRing i).toModern
    modern := true }

section Fields

variable (vq : Virtqueue κ)

@[simp] theorem toModern_num : vq.toModern.num = vq.num := by rw [Virtqueue.toModern]

@[simp] theorem toModern_desc (i : Nat) : vq.toModern.desc i = (vq.desc i).toModern := rfl

@[simp] theorem toModern_availIdx : vq.toModern.availIdx = vr16 true vq.availIdx := rfl

@[simp] theorem toModern_usedIdx : vq.toModern.usedIdx = vr16 true vq.usedIdx := rfl

@[simp] theorem toModern_usedRing (i : Nat) : vq.toModern.usedRing i = (vq.usedRing i).toModern := rfl

@[simp] theorem toModern_freeHead : vq.toModern.freeHead = vq.freeHead := by rw [Virtqueue.toModern]

@[simp] theorem toModern_numFree : vq.toModern.numFree = vq.numFree := by rw [Virtqueue.toModern]

@[simp] theorem toModern_lastUsedIdx : vq.toModern.lastUsedIdx = vq.lastUsedIdx := by rw [Virtqueue.toModern]

@[simp] theorem toModern_cookies : vq.toModern.cookies = vq.cookies := by rw [Virtqueue.toModern]

@[simp] theorem toModern_indirectTables : vq.toModern.indirectTables = vq.indirectTables := by rw [Virtqueue.toModern]

@[simp] theorem toModern_modern : vq.toModern.modern = true := rfl

end Fields

@[simp] theorem vr32_zero (modern : Bool) : vr32 modern 0 = 0 := by cases modern <;> rfl

@[simp] theorem vr64_zero (modern : Bool) : vr64 modern 0 = 0 := by cases modern <;> rfl

@[simp] theorem vr16_false (v : UInt16) : vr16 false v = v := rfl

@[simp] theorem vr32_false (v : UInt32) : vr32 false v = v := rfl

@[simp] theorem vr64_false (v : UInt64) : vr64 false v = v := rfl

@[simp] theorem toModern_flags (d : VringDesc) : d.toModern.flags = vr16 true d.flags := rfl

theorem toModern_plain {d : VringDesc} (h : d.flags &&& vringDescFNext = 0) : d.toModern.next = d.next := if_pos h

theorem toModern_mk_plain {addr : UInt64} {len : UInt32} {flags next : UInt16} (h : flags &&& vringDescFNext = 0) :
    (VringDesc.mk addr len flags next).toModern = ⟨vr64 true addr, vr32 true len, vr16 true flags, next⟩ := by
  simp only [VringDesc.toModern, h, if_true]

theorem toModern_mk_link {addr : UInt64} {len : UInt32} {flags next : UInt16} (h : flags &&& vringDescFNext ≠ 0) :
    (VringDesc.mk addr len flags next).toModern = ⟨vr64 true addr, vr32 true len, vr16 true flags, vr16 true next⟩ := by
  simp only [VringDesc.toModern, h, if_false]

theorem toModern_linking {d : VringDesc} (h : d.flags &&& vringDescFNext ≠ 0) : d.toModern.next = vr16 true d.next :=
  if_neg h

/-- A cleared descriptor is the same in both modes. -/
theorem toModern_clear (next : UInt16) : (VringDesc.mk 0 0 0 next).toModern = ⟨0, 0, 0, next⟩ := by
  simp [VringDesc.toModern]

theorem init_toModern (num : Nat) : (initQueue (κ := κ) num false).toModern = initQueue num true := by
  simp [Virtqueue.toModern, initQueue, virtQueueAllocate, toModern_clear, VringUsedElem.toModern]

theorem setDesc_toModern (vq : Virtqueue κ) (i : Nat) (d : VringDesc) :
    (vq.setDesc i d).toModern = vq.toModern.setDesc i d.toModern := by
  simp only [Virtqueue.toModern, Virtqueue.setDesc, Virtqueue.mk.injEq, true_and, and_true]
  funext j
  by_cases hj : j = i
  · rw [hj, Function.update_self, Function.update_self]
  · rw [Function.update_of_ne hj, Function.update_of_ne hj]

theorem pushFree_toModern (vq : Virtqueue κ) (i : UInt16) : (vq.pushFree i).toModern = vq.toModern.pushFree i := by
  have h := setDesc_toModern vq i.toNat ⟨0, 0, 0, vq.freeHead⟩
  rw [toModern_clear] at h
  rw [Virtqueue.pushFree, Virtqueue.pushFree, toModern_freeHead, ← h]
  simp only [Virtqueue.toModern]

theorem descAt_toModern (vq : Virtqueue κ) (i : Nat) :
    vq.toModern.descAt i = (vq.descAt i).map VringDesc.toModern := by
  unfold Virtqueue.descAt
  by_cases hlt : i < vq.num
  · rw [if_pos hlt, if_pos (by rwa [toModern_num])]
    rfl
  · rw [if_neg hlt, if_neg (by rwa [toModern_num])]
    rfl

/-! ## `VirtQueue_GetBuf` -/

theorem freeChain_toModern (fuel : Nat) : ∀ (idx : UInt16) (freed : Nat) (vq : Virtqueue κ), vq.modern = false →
    freeChain fuel idx freed vq.toModern = (freeChain fuel idx freed vq).map fun r => (r.1, r.2.toModern) := by
  induction fuel with
  | zero => exact fun _ _ _ _ => rfl
  | succ fuel ih =>
    intro idx freed vq hm
    by_cases hlt : idx.toNat < vq.num
    · rw [freeChain_round (by rwa [toModern_num]), freeChain_round hlt, ← pushFree_toModern vq idx]
      simp only [toModern_desc, toModern_modern, toModern_flags, vr16_vr16, hm, vr16_false]
      by_cases hend : (vq.desc idx.toNat).flags &&& vringDescFNext = 0
      · rw [if_pos hend, if_pos hend]
        rfl
      · rw [if_neg hend, if_neg hend, toModern_linking hend, vr16_vr16]
        exact ih _ _ (vq.pushFree idx) hm
    · rw [freeChain_fault (by rwa [toModern_num]), freeChain_fault hlt]
      rfl

theorem freeRequest_toModern (itbl : Option UInt32) (idx : UInt16) {vq : Virtqueue κ} (hm : vq.modern = false) :
    freeRequest vq.toModern itbl idx = (freeRequest vq itbl idx).map fun r => (r.1, r.2.toModern) := by
  cases itbl with
  | none =>
    unfold freeRequest
    rw [toModern_num]
    exact freeChain_toModern _ idx 0 vq hm
  | some p =>
    unfold freeRequest
    rw [descAt_toModern]
    cases vq.descAt idx.toNat with
    | error e => rfl
    | ok d => simp only [Except.map, bind, Except.bind, pushFree_toModern]

theorem update_vr16 (f : Nat → UInt16) (i : Nat) (v : UInt16) :
    (fun j => vr16 true (Function.update f i v j)) = Function.update (fun j => vr16 true (f j)) i (vr16 true v) := by
  funext j
  by_cases hj : j = i
  · rw [hj, Function.update_self, Function.update_self]
  · rw [Function.update_of_ne hj, Function.update_of_ne hj]

theorem retire_toModern {vq : Virtqueue κ} (hm : vq.modern = false) (freed : Nat) :
    vq.toModern.retire freed = (vq.retire freed).toModern := by
  cases he : vq.useEventIdx with
  | false => simp only [Virtqueue.retire, Virtqueue.toModern, he, Bool.false_eq_true, if_false]
  | true => simp only [Virtqueue.retire, Virtqueue.toModern, he, if_true, hm, vr16_false, update_vr16]

theorem freeChain_modern (fuel : Nat) : ∀ (idx : UInt16) (freed : Nat) (vq : Virtqueue κ) (r : Nat × Virtqueue κ),
    freeChain fuel idx freed vq = .ok r → r.2.modern = vq.modern := by
  induction fuel with
  | zero => intro idx freed vq r h; cases h
  | succ fuel ih =>
    intro idx freed vq r h
    by_cases hlt : idx.toNat < vq.num
    · rw [freeChain_round hlt] at h
      split_ifs at h with hend
      · cases h
        rfl
      · exact ih _ _ (vq.pushFree idx) r h
    · rw [freeChain_fault hlt] at h
      cases h

theorem freeRequest_modern {itbl : Option UInt32} {idx : UInt16} {vq : Virtqueue κ} {r : Nat × Virtqueue κ}
    (h : freeRequest vq itbl idx = .ok r) : r.2.modern = vq.modern := by
  cases itbl with
  | none => exact freeChain_modern _ _ _ _ r h
  | some p =>
    simp only [freeRequest, Virtqueue.descAt] at h
    split_ifs at h with hlt
    · cases h
      rfl
    · cases h

theorem setCookie_toModern (vq : Virtqueue κ) (i : Nat) (c : Option κ) :
    vq.toModern.setCookie i c = (vq.setCookie i c).map Virtqueue.toModern := by
  unfold Virtqueue.setCookie
  rw [toModern_num]
  by_cases hlt : i < vq.num
  · rw [if_pos hlt, if_pos hlt]
    rfl
  · rw [if_neg hlt, if_neg hlt]
    rfl

theorem setCookie_modern {vq vq' : Virtqueue κ} {i : Nat} {c : Option κ} (h : vq.setCookie i c = .ok vq') :
    vq'.modern = vq.modern := by
  unfold Virtqueue.setCookie at h
  split_ifs at h
  cases h
  rfl

/-- **`VirtQueue_GetBuf` does the same in both modes**, whatever the device wrote. -/
theorem getBuf_toModern {vq : Virtqueue κ} (hm : vq.modern = false) :
    virtQueueGetBuf vq.toModern = (virtQueueGetBuf vq).map fun r => (r.1, r.2.toModern) := by
  unfold virtQueueGetBuf
  simp only [hm, vr16_false, vr32_false, toModern_lastUsedIdx, toModern_modern, toModern_usedIdx, vr16_vr16,
    toModern_num,
    toModern_usedRing, VringUsedElem.toModern, vr32_vr32, toModern_cookies, toModern_indirectTables, setCookie_toModern]
  by_cases hidle : vq.lastUsedIdx = vq.usedIdx
  · rw [if_pos hidle, if_pos hidle]
    rfl
  rw [if_neg hidle, if_neg hidle]
  set descId := (vq.usedRing (vq.lastUsedIdx.toNat % vq.num)).id
  by_cases hbig : vq.num ≤ descId.toNat
  · rw [if_pos hbig, if_pos hbig]
    rfl
  rw [if_neg hbig, if_neg hbig]
  cases hset : vq.setCookie descId.toNat none with
  | error e => rfl
  | ok vq₁ =>
    have hm₁ : vq₁.modern = false := (setCookie_modern hset).trans hm
    have hfree := freeRequest_toModern (vq.indirectTables descId.toNat) descId.toUInt16 hm₁
    simp only [Except.map, bind, Except.bind]
    rw [hfree]
    cases hr : freeRequest vq₁ (vq.indirectTables descId.toNat) descId.toUInt16 with
    | error e => rfl
    | ok r =>
      have hm' : r.2.modern = false := (freeRequest_modern hr).trans hm₁
      simp only [Except.map, retire_toModern hm']

/-! ## `VirtQueue_AddBuf` -/

theorem descFlags_next (outNum total n : Nat) : descFlags outNum total n &&& vringDescFNext = 0 ↔ ¬ n < total - 1 := by
  have h := requestBuf_hasNext (fun _ => ⟨0, 0⟩) outNum total n
  rw [← h]
  exact not_not.symm

/-- The loop takes distinct descriptors without a `NEXT` flag in the same way in both modes. -/
theorem addBufLoop_toModern (sg : Nat → VringSg) (outNum total k : Nat) : ∀ (n : Nat) (idx : UInt16)
    (vq : Virtqueue κ), vq.modern = false → n + k = total → (follow vq.desc idx k).Nodup →
    (∀ j ∈ follow vq.desc idx k, (vq.desc j).flags &&& vringDescFNext = 0) →
    addBufLoop sg outNum total k n idx vq.toModern =
      (addBufLoop sg outNum total k n idx vq).map Virtqueue.toModern := by
  induction k with
  | zero => exact fun _ _ _ _ _ _ _ => rfl
  | succ k ih =>
    intro n idx vq hm hn hnd hplain
    have hnext : (vq.desc idx.toNat).toModern.next = (vq.desc idx.toNat).next :=
      toModern_plain (hplain _ List.mem_cons_self)
    by_cases hlt : idx.toNat < vq.num
    swap
    · rw [addBufLoop_fault (by rwa [toModern_num]), addBufLoop_fault hlt]
      rfl
    let d₀ : VringDesc := ⟨(sg n).addr.toUInt64, (sg n).len, descFlags outNum total n, (vq.desc idx.toNat).next⟩
    by_cases hmid : n < total - 1
    · have hflag : descFlags outNum total n &&& vringDescFNext ≠ 0 := fun h => (descFlags_next ..).mp h hmid
      refine Eq.trans (addBufLoop_link (by rwa [toModern_num]) hmid) ?_
      refine Eq.trans ?_ (congrArg (Except.map Virtqueue.toModern) (addBufLoop_link hlt hmid)).symm
      simp only [toModern_desc, toModern_modern, hnext, hm, vr16_false, vr32_false, vr64_false]
      rw [show VringDesc.mk _ _ _ _ = d₀.toModern from (toModern_mk_link hflag).symm,
        ← setDesc_toModern vq idx.toNat d₀]
      -- the descriptors that are left were not touched
      have hleft : ∀ j ∈ follow vq.desc (vq.desc idx.toNat).next k, (vq.setDesc idx.toNat d₀).desc j = vq.desc j := by
        intro j hj
        have hne : j ≠ idx.toNat := fun e => (List.nodup_cons.mp hnd).1 (e ▸ hj)
        exact Function.update_of_ne hne ..
      have hfol := (follow_congr vq.desc (vq.setDesc idx.toNat d₀).desc k _ hleft).1
      refine ih (n + 1) _ (vq.setDesc idx.toNat d₀) hm (by omega) (hfol ▸ (List.nodup_cons.mp hnd).2) fun j hj => ?_
      rw [hfol] at hj
      rw [hleft j hj]
      exact hplain j (List.mem_cons_of_mem _ hj)
    · have hflag : descFlags outNum total n &&& vringDescFNext = 0 := (descFlags_next ..).mpr hmid
      obtain rfl : k = 0 := by omega
      refine Eq.trans (addBufLoop_last (by rwa [toModern_num]) hmid) ?_
      refine Eq.trans ?_ (congrArg (Except.map Virtqueue.toModern) (addBufLoop_last hlt hmid)).symm
      simp only [toModern_desc, toModern_modern, hnext, hm, vr16_false, vr32_false, vr64_false]
      rw [show VringDesc.mk _ _ _ _ = d₀.toModern from (toModern_mk_plain hflag).symm,
        ← setDesc_toModern vq idx.toNat d₀]
      rfl

theorem addBufLoop_modern (sg : Nat → VringSg) (outNum total k : Nat) : ∀ (n : Nat) (idx : UInt16) (vq r : Virtqueue κ),
    addBufLoop sg outNum total k n idx vq = .ok r → r.modern = vq.modern := by
  induction k with
  | zero => intro n idx vq r h; cases h; rfl
  | succ k ih =>
    intro n idx vq r h
    by_cases hlt : idx.toNat < vq.num
    · by_cases hmid : n < total - 1
      · rw [addBufLoop_link hlt hmid] at h
        exact ih _ _ (vq.setDesc idx.toNat _) r h
      · rw [addBufLoop_last hlt hmid] at h
        exact ih _ _ { vq.setDesc idx.toNat _ with freeHead := (vq.desc idx.toNat).next } r h
    · rw [addBufLoop_fault hlt] at h
      cases h

/-- **`VirtQueue_AddBuf` does the same in both modes** when the free list has no cycle and no `NEXT` flag. -/
theorem addBuf_toModern {vq : Virtqueue κ} (hm : vq.modern = false) (sg : Nat → VringSg) (outNum inNum : UInt32)
    (cookie : Option κ) (hnd : vq.freeList.Nodup)
    (hplain : ∀ j ∈ vq.freeList, (vq.desc j).flags &&& vringDescFNext = 0) :
    virtQueueAddBuf vq.toModern sg outNum inNum cookie =
      (virtQueueAddBuf vq sg outNum inNum cookie).map fun r => (r.1, r.2.toModern) := by
  set total := outNum + inNum with htotal
  by_cases hlt : vq.numFree.toNat < total.toNat
  · rw [addBuf_refuse sg cookie hlt, addBuf_refuse sg cookie (by rwa [toModern_numFree])]
    rfl
  obtain ⟨m, hfit⟩ := Nat.exists_eq_add_of_le (not_lt.mp hlt)
  have htake : follow vq.desc vq.freeHead total.toNat = vq.freeList.take total.toNat := by
    rw [Virtqueue.freeList, hfit, take_follow]
  have hloop := addBufLoop_toModern sg outNum.toNat total.toNat total.toNat 0 vq.freeHead vq hm (by omega)
    (htake ▸ hnd.sublist (List.take_sublist ..)) fun j hj => hplain j (List.mem_of_mem_take (htake ▸ hj))
  unfold virtQueueAddBuf
  simp only [← htotal, toModern_numFree, toModern_freeHead]
  rw [if_neg hlt, if_neg hlt, hloop]
  cases hr : addBufLoop sg outNum.toNat total.toNat total.toNat 0 vq.freeHead vq with
  | error e => rfl
  | ok r =>
    have hm₁ : r.modern = false := (addBufLoop_modern _ _ _ _ _ _ _ r hr).trans hm
    let r' : Virtqueue κ := { r with numFree := r.numFree - total.toUInt16 }
    have hset := setCookie_toModern r' vq.freeHead.toNat cookie
    simp only [Except.map, bind, Except.bind]
    rw [show ({ r.toModern with numFree := r.toModern.numFree - total.toUInt16 } : Virtqueue κ) = r'.toModern by
      simp only [Virtqueue.toModern, r'], hset]
    cases hr₂ : r'.setCookie vq.freeHead.toNat cookie with
    | error e => rfl
    | ok vq₂ =>
      have hm₂ : vq₂.modern = false := (setCookie_modern hr₂).trans hm₁
      simp only [Except.map, hm₂, vr16_false, toModern_modern, toModern_availIdx, toModern_num, vr16_vr16]
      simp only [Virtqueue.toModern, update_vr16]

/-! ## Runs -/

/-- What a call returns. -/
inductive Returned (κ : Type) where
  | code (r : Int)
  | buffer (g : Got κ)

/-- A call, with what it returns. -/
def QueueCall.call (vq : Virtqueue κ) : QueueCall κ → Except VqFault (Returned κ × Virtqueue κ)
  | .add sg outNum inNum cookie => (virtQueueAddBuf vq sg outNum inNum cookie).map fun r => (.code r.1, r.2)
  | .get usedIdx usedRing =>
    (virtQueueGetBuf { vq with usedIdx := usedIdx, usedRing := usedRing }).map fun r => (.buffer r.1, r.2)

/-- The same call on a modern queue, whose device writes its ring in little-endian order. -/
def QueueCall.toModern : QueueCall κ → QueueCall κ
  | .add sg outNum inNum cookie => .add sg outNum inNum cookie
  | .get usedIdx usedRing => .get (vr16 true usedIdx) fun i => (usedRing i).toModern

/-- The legacy queue `l` and the modern queue `m` are the same to a caller, and to a device that reads each in its own
byte order. -/
structure Alike (l m : Virtqueue κ) : Prop where
  freeHead : m.freeHead = l.freeHead
  numFree : m.numFree = l.numFree
  lastUsedIdx : m.lastUsedIdx = l.lastUsedIdx
  cookies : m.cookies = l.cookies
  availIdx : vr16 true m.availIdx = vr16 false l.availIdx
  availRing : ∀ i, vr16 true (m.availRing i) = vr16 false (l.availRing i)
  chains : ∀ n i, walkChain true m.desc n i = walkChain false l.desc n i

/-- The queues `l` and `m` stay alike through the calls, which return the same values. -/
def Lockstep : Virtqueue κ → Virtqueue κ → List (QueueCall κ) → Prop
  | l, m, [] => Alike l m
  | l, m, c :: calls =>
    Alike l m ∧ ∃ r l' m', c.call l = .ok (r, l') ∧ c.toModern.call m = .ok (r, m') ∧ Lockstep l' m' calls

theorem buf_toModern (d : VringDesc) : d.toModern.buf true = d.buf false := by
  simp only [VringDesc.buf, VringDesc.toModern, vr64_vr64, vr32_vr32, vr16_vr16, vr64_false, vr32_false, vr16_false]

/-- A device reads the same chains from both tables. -/
theorem walkChain_toModern (vq : Virtqueue κ) (n : Nat) : ∀ i,
    walkChain true vq.toModern.desc n i = walkChain false vq.desc n i := by
  induction n with
  | zero => exact fun _ => rfl
  | succ n ih =>
    intro i
    simp only [walkChain, toModern_desc, buf_toModern]
    by_cases hnext : ((vq.desc i).buf false).hasNext
    · rw [if_pos hnext, if_pos hnext, toModern_linking hnext, vr16_vr16, ih]
      rfl
    · rw [if_neg hnext, if_neg hnext]

theorem alike_toModern (vq : Virtqueue κ) : Alike vq vq.toModern :=
  ⟨toModern_freeHead vq, toModern_numFree vq, toModern_lastUsedIdx vq, toModern_cookies vq, vr16_vr16 true _,
    fun _ => vr16_vr16 true _, walkChain_toModern vq⟩

section Lockstep

variable {vq : Virtqueue κ} {out : List (Chain κ)}

theorem device_toModern (vq : Virtqueue κ) (usedIdx : UInt16) (usedRing : Nat → VringUsedElem) :
    ({ vq with usedIdx := usedIdx, usedRing := usedRing } : Virtqueue κ).toModern =
      { vq.toModern with usedIdx := vr16 true usedIdx, usedRing := fun i => (usedRing i).toModern } := by
  simp only [Virtqueue.toModern]

theorem call_toModern (hm : vq.modern = false) (htidy : Tidy vq out) (c : QueueCall κ) :
    c.toModern.call vq.toModern = (c.call vq).map fun r => (r.1, r.2.toModern) := by
  cases c with
  | add sg outNum inNum cookie =>
    have hplain : ∀ j ∈ vq.freeList, (vq.desc j).flags &&& vringDescFNext = 0 := by
      intro j hj
      have h := htidy.plain j hj
      rw [hm] at h
      exact not_not.mp h
    simp only [QueueCall.toModern, QueueCall.call]
    rw [addBuf_toModern hm sg outNum inNum cookie htidy.free_nodup hplain]
    cases virtQueueAddBuf vq sg outNum inNum cookie <;> rfl
  | get usedIdx usedRing =>
    simp only [QueueCall.toModern, QueueCall.call]
    let vq₁ : Virtqueue κ := { vq with usedIdx := usedIdx, usedRing := usedRing }
    rw [← device_toModern, getBuf_toModern (show vq₁.modern = false from hm)]
    cases virtQueueGetBuf vq₁ <;> rfl

theorem run_eq_call (c : QueueCall κ) (vq : Virtqueue κ) : c.run vq = (c.call vq).map Prod.snd := by
  cases c with
  | add sg outNum inNum cookie =>
    simp only [QueueCall.run, QueueCall.call]
    cases virtQueueAddBuf vq sg outNum inNum cookie <;> rfl
  | get usedIdx usedRing =>
    simp only [QueueCall.run, QueueCall.call]
    cases virtQueueGetBuf { vq with usedIdx := usedIdx, usedRing := usedRing } <;> rfl

/-- From a tidy legacy queue, the calls go in lockstep. -/
theorem lockstep_of_tidy : ∀ (calls : List (QueueCall κ)) {vq : Virtqueue κ} {out : List (Chain κ)}, vq.modern = false →
    Tidy vq out → HonestRun vq (out.map Chain.head) calls → Lockstep vq vq.toModern calls
  | [], vq, _, _, _, _ => alike_toModern vq
  | c :: calls, vq, out, hm, htidy, hon => by
    obtain ⟨vq', out', hrun, hm', htidy', hon'⟩ := honest_call htidy hon
    have hcall := call_toModern hm htidy c
    rw [run_eq_call] at hrun
    cases hr : c.call vq with
    | error e =>
      rw [hr] at hrun
      cases hrun
    | ok r =>
      rw [hr] at hrun hcall
      cases hrun
      exact ⟨alike_toModern vq, r.1, r.2, r.2.toModern, hr, hcall, lockstep_of_tidy calls (hm'.trans hm) htidy' hon'⟩

end Lockstep

/-- **Legacy and modern queues behave the same** when the device completes each outstanding chain at most once. -/
theorem lockstep {num : Nat} (hnum : 1 ≤ num) (calls : List (QueueCall κ))
    (h : HonestRun (initQueue num false) [] calls) : Lockstep (initQueue num false) (initQueue num true) calls := by
  rw [← init_toModern]
  exact lockstep_of_tidy calls rfl (tidy_init false hnum) h

/-- A request of two buffers on queues of two, its completion, and another request. -/
theorem lockstep_two :
    let calls : List (QueueCall Unit) :=
      [.add (fun _ => ⟨0, 0⟩) 1 1 (some ()), .get 1 (fun _ => ⟨0, 64⟩), .add (fun _ => ⟨0, 0⟩) 1 0 (some ())]
    HonestRun (initQueue 2 false) [] calls ∧ Lockstep (initQueue 2 false) (initQueue 2 true) calls := by
  have hon : HonestRun (initQueue 2 false) []
      [.add (fun _ => ⟨0, 0⟩) 1 1 (some ()), .get 1 (fun _ => ⟨0, 64⟩), .add (fun _ => ⟨0, 0⟩) 1 0 (some ())] := by
    refine ⟨trivial, fun vq h => ?_⟩
    cases h
    refine ⟨.inr (.inr (by decide)), fun vq h => ?_⟩
    cases h
    exact ⟨trivial, fun _ _ => trivial⟩
  exact ⟨hon, lockstep (by decide) _ hon⟩

/-- On queues of two, a request of one buffer publishes descriptor 0, and then one without buffers publishes
descriptor 1, which stays on the free list. The device completes it, once. The next request of two buffers takes
descriptor 1 twice, reads its own link back, and leaves `free_head` at 1 in a legacy queue and at 256 in a
modern one. -/
theorem empty_parts :
    let calls : List (QueueCall Unit) :=
      [.add (fun _ => ⟨0, 0⟩) 1 0 (some ()), .add (fun _ => ⟨0, 0⟩) 0 0 (some ()), .get 1 (fun _ => ⟨1, 0⟩),
        .add (fun _ => ⟨0, 0⟩) 1 1 (some ())]
    (∃ vq, (calls.take 2).foldlM QueueCall.run (initQueue 2 false) = .ok vq ∧
      vq.availIdx = 2 ∧ vq.availRing 0 = 0 ∧ vq.availRing 1 = 1) ∧
    (∃ l m, calls.foldlM QueueCall.run (initQueue 2 false) = .ok l ∧
      (calls.map QueueCall.toModern).foldlM QueueCall.run (initQueue 2 true) = .ok m ∧
      l.freeHead = 1 ∧ m.freeHead = 256) ∧
    ¬ Lockstep (initQueue 2 false) (initQueue 2 true) calls := by
  refine ⟨⟨_, rfl, by decide, by decide, by decide⟩, ⟨_, _, rfl, rfl, by decide, by decide⟩, ?_⟩
  rintro ⟨-, _, _, _, h₁, h₁', -, _, _, _, h₂, h₂', -, _, _, _, h₃, h₃', -, _, _, _, h₄, h₄', hend⟩
  cases h₁
  cases h₁'
  cases h₂
  cases h₂'
  cases h₃
  cases h₃'
  cases h₄
  cases h₄'
  exact absurd hend.freeHead (by decide)

end Virtio9P
