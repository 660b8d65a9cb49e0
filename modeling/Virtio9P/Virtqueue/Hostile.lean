import Virtio9P.Virtqueue.Rep

/-!
# The virtqueue with a device that writes anything

The used ring is whatever the device wrote, also ids of descriptors that head no outstanding chain. The only check is
`desc_id >= num`, which does not exclude them: `hostile_ring` is a run of three calls in which `num_free` passes
`num` and `desc[]` is then indexed at 256, because a descriptor was put on the free list twice and its link read back
in the wrong byte order. As long as every id read is out of range (and dropped) or heads an outstanding chain, all
indices stay in range (`honest_safe`).
-/

namespace Virtio9P

variable {κ : Type}

/-! ## Runs -/

/-- A call; before `VirtQueue_GetBuf` the device has left `usedIdx` and `usedRing` in its ring. -/
inductive QueueCall (κ : Type) where
  | add (sg : Nat → VringSg) (outNum inNum : UInt32) (cookie : Option κ)
  | get (usedIdx : UInt16) (usedRing : Nat → VringUsedElem)

/-- The queue after a call. -/
def QueueCall.run (vq : Virtqueue κ) : QueueCall κ → Except VqFault (Virtqueue κ)
  | .add sg outNum inNum cookie => (·.2) <$> virtQueueAddBuf vq sg outNum inNum cookie
  | .get usedIdx usedRing => (·.2) <$> virtQueueGetBuf { vq with usedIdx := usedIdx, usedRing := usedRing }

/-- All calls return without an index out of range or an endless walk, and `num_free` never exceeds `num`. -/
def SafeRun : Virtqueue κ → List (QueueCall κ) → Prop
  | vq, [] => vq.numFree.toNat ≤ vq.num
  | vq, call :: calls => vq.numFree.toNat ≤ vq.num ∧ ∃ vq', call.run vq = .ok vq' ∧ SafeRun vq' calls

/-- The id of the used entry that `VirtQueue_GetBuf` looks at next. -/
def Virtqueue.nextId (vq : Virtqueue κ) : Nat :=
  (vr32 vq.modern (vq.usedRing (vq.lastUsedIdx.toNat % vq.num)).id).toNat

/-- The heads of the chains outstanding after a call. -/
def QueueCall.heads (vq : Virtqueue κ) (heads : List Nat) : QueueCall κ → List Nat
  | .add _ outNum inNum _ =>
    if vq.numFree.toNat < (outNum + inNum).toNat ∨ (outNum + inNum).toNat = 0 then heads
    else heads ++ [vq.freeHead.toNat]
  | .get usedIdx usedRing =>
    if vq.lastUsedIdx = vr16 vq.modern usedIdx ∨ vq.num ≤ { vq with usedRing := usedRing }.nextId then heads
    else heads.erase { vq with usedRing := usedRing }.nextId

/-- Every new used entry that is read has an id outside the table or heads one of the chains outstanding. -/
def HonestRun : Virtqueue κ → List Nat → List (QueueCall κ) → Prop
  | _, _, [] => True
  | vq, heads, call :: calls =>
    (match call with
      | .add .. => True
      | .get usedIdx usedRing =>
        vq.lastUsedIdx = vr16 vq.modern usedIdx ∨ vq.num ≤ { vq with usedRing := usedRing }.nextId ∨
          { vq with usedRing := usedRing }.nextId ∈ heads) ∧
    ∀ vq', call.run vq = .ok vq' → HonestRun vq' (call.heads vq heads) calls

/-! ## A hostile device -/

/-- A used ring whose every entry has this id, in modern byte order. -/
def ringOf (id : UInt32) : Nat → VringUsedElem := fun _ => { id := vr32 true id, len := 0 }

/-- Descriptor 1 of a fresh modern queue of two is reported twice, though nothing was posted, and then a request of
three buffers is posted: `num_free` is 4, and the third descriptor of the request is taken at index 256. -/
theorem hostile_ring :
    let calls : List (QueueCall Unit) :=
      [.get (vr16 true 1) (ringOf 1), .get (vr16 true 2) (ringOf 1), .add (fun _ => ⟨0, 0⟩) 1 2 (some ())]
    ¬ SafeRun (initQueue 2 true) calls ∧
      (∃ vq, calls.dropLast.foldlM QueueCall.run (initQueue 2 true) = .ok vq ∧ vq.numFree = 4) ∧
      calls.foldlM QueueCall.run (initQueue 2 true) = .error (.desc 256) := by
  refine ⟨?_, ⟨_, rfl, by decide⟩, rfl⟩
  rintro ⟨-, vq, hrun, hsafe⟩
  cases hrun
  exact absurd hsafe.1 (by decide)

/-! ## An honest device -/

/-- The invariant of a queue of any size with an honest device. Free descriptors carry no `NEXT` flag. -/
structure Tidy (vq : Virtqueue κ) (out : List (Chain κ)) : Prop extends Laid vq out where
  count : vq.numFree.toNat + (out.map (·.idxs.length)).sum < 65536
  tail : (link vq.desc vq.freeHead vq.numFree.toNat).toNat < vq.num
  plain : ∀ j ∈ vq.freeList, ¬ ((vq.desc j).buf vq.modern).hasNext

section Honest

variable {vq : Virtqueue κ} {out : List (Chain κ)}

theorem Laid.numFree_le (h : Laid vq out) : vq.numFree.toNat ≤ vq.num := by
  have := h.length_le
  omega

theorem Tidy.freeHead_lt (h : Tidy vq out) : vq.freeHead.toNat < vq.num := by
  cases hn : vq.numFree.toNat with
  | zero => simpa [hn, link] using h.tail
  | succ n => exact (h.free_lt (by simp [Virtqueue.freeList, hn, follow])).1

theorem tidy_init {num : Nat} (modern : Bool) (hpos : 0 < num) : Tidy (initQueue (κ := κ) num modern) [] := by
  have hfree : (initQueue (κ := κ) num modern).numFree.toNat = num % 65536 := by
    simp [initQueue, virtQueueAllocate, UInt16.toNat_ofNat']
  have hmod : num % 65536 < 65536 := Nat.mod_lt _ (by decide)
  have hle : num % 65536 ≤ num := Nat.mod_le _ _
  have hlist : (initQueue (κ := κ) num modern).freeList = List.range' 0 (num % 65536) := by
    rw [Virtqueue.freeList, hfree]
    exact follow_init (κ := κ) modern num _ 0 (by omega) (by omega)
  refine ⟨⟨?_, ?_, by simp, fun _ => rfl, rfl⟩, ?_, ?_, ?_⟩
  · rw [hlist, List.flatMap_nil, List.append_nil]
    exact List.nodup_range'
  · rw [hlist, List.flatMap_nil, List.append_nil]
    intro j hj
    obtain ⟨-, hj⟩ := List.mem_range'_1.mp hj
    exact ⟨show j < num by omega, by omega⟩
  · rw [hfree]
    simpa using hmod
  · by_cases hsmall : num < 65536
    · exact (inv_init (κ := κ) modern hpos hsmall).tail
    · exact lt_of_lt_of_le (UInt16.toNat_lt _) (not_lt.mp hsmall)
  · intro j _
    cases modern <;> simp [initQueue, virtQueueAllocate, VringDesc.buf, Buf.hasNext]

/-- A request without buffers posts the head of the free list but takes nothing off it. -/
theorem addBuf_empty (h : Tidy vq out) (sg : Nat → VringSg) {outNum inNum : UInt32} (cookie : Option κ)
    (hzero : (outNum + inNum).toNat = 0) :
    ∃ vq', virtQueueAddBuf vq sg outNum inNum cookie = .ok (0, vq') ∧ vq'.modern = vq.modern ∧ Tidy vq' out := by
  have htotal : outNum + inNum = 0 := UInt32.toNat_inj.mp hzero
  simp only [virtQueueAddBuf, htotal, UInt32.toNat_zero, Nat.not_lt_zero, if_false, addBufLoop, bind, Except.bind,
    Virtqueue.setCookie, h.freeHead_lt, if_true]
  refine ⟨_, rfl, rfl, ⟨?_, ?_, h.linked, ?_, h.noEvent⟩, ?_, ?_, ?_⟩
  · simpa [Virtqueue.freeList] using h.nodup
  · simpa [Virtqueue.freeList] using h.lt
  · intro i
    show Function.update vq.indirectTables vq.freeHead.toNat none i = none
    by_cases he : i = vq.freeHead.toNat
    · rw [he, Function.update_self]
    · rw [Function.update_of_ne he, h.direct]
  · simpa using h.count
  · simpa using h.tail
  · simpa [Virtqueue.freeList] using h.plain

theorem addBuf_tidy (h : Tidy vq out) (sg : Nat → VringSg) {outNum inNum : UInt32} (cookie : Option κ)
    (hpos : 0 < (outNum + inNum).toNat) (hfit : (outNum + inNum).toNat ≤ vq.numFree.toNat) :
    ∃ vq', virtQueueAddBuf vq sg outNum inNum cookie = .ok (0, vq') ∧ vq'.modern = vq.modern ∧
      Tidy vq' (out ++ [vq.newChain sg outNum.toNat (outNum + inNum).toNat cookie]) := by
  obtain ⟨d', hrun, hlaid, hsame, hperm, hfree, htail⟩ := addBuf_laid sg cookie h.toLaid hpos hfit
  refine ⟨_, hrun, rfl, hlaid, ?_, htail ▸ h.tail, fun j hj => ?_⟩
  · have hlen := hperm.length_eq
    have hcount := h.count
    simp only [List.length_append, List.length_flatMap, Virtqueue.freeList, length_follow] at hlen
    omega
  · rw [hfree] at hj
    have hnot : j ∉ vq.freeList.take (outNum + inNum).toNat := fun hj' =>
      List.disjoint_take_drop h.free_nodup (le_refl _) hj' hj
    show ¬ ((d' j).buf vq.modern).hasNext
    rw [hsame j hnot]
    exact h.plain j (List.mem_of_mem_drop hj)

theorem getBuf_tidy {l₁ l₂ : List (Chain κ)} {c : Chain κ} {len : UInt32} (h : Tidy vq (l₁ ++ c :: l₂))
    (hrep : vq.Reports c.head len) :
    ∃ vq', virtQueueGetBuf vq = .ok (⟨vq.cookies c.head, some len⟩, vq') ∧ vq'.modern = vq.modern ∧
      Tidy vq' (l₁ ++ l₂) := by
  have hc : c ∈ l₁ ++ c :: l₂ := by simp
  have hcount := h.count
  have hle : c.idxs.length ≤ ((l₁ ++ c :: l₂).map (·.idxs.length)).sum :=
    List.single_le_sum (by simp) _ (List.mem_map.mpr ⟨c, hc, rfl⟩)
  obtain ⟨d', h', hrun, hlaid, hsame, hclear, hperm, hfree, htail⟩ := getBuf_laid h.toLaid (by omega) hrep
  refine ⟨_, hrun, rfl, hlaid, ?_, htail ▸ h.tail, fun j hj => ?_⟩
  · have hlen := hperm.length_eq
    simp only [List.length_append, List.length_flatMap, Virtqueue.freeList, length_follow] at hlen
    omega
  · show ¬ ((d' j).buf vq.modern).hasNext
    rw [hfree] at hj
    rcases List.mem_append.mp hj with hj | hj
    · simp [VringDesc.buf, Buf.hasNext, hclear j (List.mem_reverse.mp hj)]
    · rw [hsame j fun hj' => h.free_notin hc hj' hj]
      exact h.plain j hj

/-- Taking the chain at a head off the chains takes the head off the heads. -/
theorem Laid.erase_head {l₁ l₂ : List (Chain κ)} {c : Chain κ} (h : Laid vq (l₁ ++ c :: l₂)) :
    ((l₁ ++ c :: l₂).map Chain.head).erase c.head = (l₁ ++ l₂).map Chain.head := by
  have hnot : c.head ∉ l₁.map Chain.head := by
    intro hmem
    obtain ⟨c', hc', he⟩ := List.mem_map.mp hmem
    have hc : c ∈ l₁ ++ c :: l₂ := by simp
    have hin : c'.head ∈ c'.idxs := h.head_mem (List.mem_append_left _ hc')
    exact h.apart (List.mem_append_left l₂ hc') (h.head_mem hc) (he ▸ hin)
  rw [List.map_append, List.map_cons, List.erase_append_right _ hnot, List.erase_cons_head, List.map_append]

/-- One honest call keeps the invariant, with the chains whose heads are expected. -/
theorem honest_call (h : Tidy vq out) {call : QueueCall κ} {calls : List (QueueCall κ)}
    (hon : HonestRun vq (out.map Chain.head) (call :: calls)) :
    ∃ vq' out', call.run vq = .ok vq' ∧ vq'.modern = vq.modern ∧ Tidy vq' out' ∧
      HonestRun vq' (out'.map Chain.head) calls := by
  obtain ⟨hcall, hnext⟩ := hon
  cases call with
  | add sg outNum inNum cookie =>
    by_cases hlt : vq.numFree.toNat < (outNum + inNum).toNat
    · have hrun : QueueCall.run vq (.add sg outNum inNum cookie) = .ok vq := by
        simp only [QueueCall.run, addBuf_refuse sg cookie hlt]; rfl
      have hkeep := hnext vq hrun
      simp only [QueueCall.heads, hlt, true_or, if_true] at hkeep
      exact ⟨vq, out, hrun, rfl, h, hkeep⟩
    by_cases hzero : (outNum + inNum).toNat = 0
    · obtain ⟨vq', hadd, hm, htidy⟩ := addBuf_empty h sg cookie hzero
      have hrun : QueueCall.run vq (.add sg outNum inNum cookie) = .ok vq' := by
        simp only [QueueCall.run, hadd]; rfl
      have hkeep := hnext vq' hrun
      simp only [QueueCall.heads, hzero, or_true, if_true] at hkeep
      exact ⟨vq', out, hrun, hm, htidy, hkeep⟩
    · obtain ⟨vq', hadd, hm, htidy⟩ := addBuf_tidy h sg cookie (Nat.pos_of_ne_zero hzero) (not_lt.mp hlt)
      have hrun : QueueCall.run vq (.add sg outNum inNum cookie) = .ok vq' := by
        simp only [QueueCall.run, hadd]; rfl
      have hkeep := hnext vq' hrun
      simp only [QueueCall.heads, hlt, hzero, or_self, if_false] at hkeep
      refine ⟨vq', _, hrun, hm, htidy, ?_⟩
      rw [List.map_append, List.map_singleton,
        newChain_head sg cookie (Nat.pos_of_ne_zero hzero) (not_lt.mp hlt)]
      exact hkeep
  | get usedIdx usedRing =>
    have hdev : Tidy { vq with usedIdx := usedIdx, usedRing := usedRing } out :=
      ⟨h.toLaid.device usedIdx usedRing, h.count, h.tail, h.plain⟩
    set vq₁ : Virtqueue κ := { vq with usedIdx := usedIdx, usedRing := usedRing } with hvq₁
    by_cases hidle : vq.lastUsedIdx = vr16 vq.modern usedIdx
    · have hrun : QueueCall.run vq (.get usedIdx usedRing) = .ok vq₁ := by
        simp only [QueueCall.run, ← hvq₁, getBuf_idle (show vq₁.lastUsedIdx = vr16 vq₁.modern vq₁.usedIdx from hidle)]
        rfl
      have hkeep := hnext vq₁ hrun
      simp only [QueueCall.heads, hidle, true_or, if_true] at hkeep
      exact ⟨vq₁, out, hrun, rfl, hdev, hkeep⟩
    by_cases hbig : vq.num ≤ vq₁.nextId
    · have hrun : QueueCall.run vq (.get usedIdx usedRing) = .ok vq₁ := by
        simp only [QueueCall.run, ← hvq₁, virtQueueGetBuf]
        rw [if_neg hidle, if_pos (show vq.num ≤ (vr32 vq.modern _).toNat from hbig)]
        rfl
      have hkeep := hnext vq₁ hrun
      have hbig' : vq.num ≤ { vq with usedRing := usedRing }.nextId := hbig
      simp only [QueueCall.heads, hbig', or_true, if_true] at hkeep
      exact ⟨vq₁, out, hrun, rfl, hdev, hkeep⟩
    · -- the entry names an outstanding chain
      have hmem : vq₁.nextId ∈ out.map Chain.head := by
        rcases hcall with hc | hc | hc
        · exact absurd hc hidle
        · exact absurd hc hbig
        · exact hc
      obtain ⟨c, hc, hhead⟩ := List.mem_map.mp hmem
      obtain ⟨l₁, l₂, rfl⟩ := List.append_of_mem hc
      obtain ⟨vq', hget, hm, htidy⟩ := getBuf_tidy hdev (show vq₁.Reports c.head _ from ⟨hidle, hhead.symm, rfl⟩)
      have hrun : QueueCall.run vq (.get usedIdx usedRing) = .ok vq' := by
        simp only [QueueCall.run, ← hvq₁, hget]; rfl
      have hkeep := hnext vq' hrun
      have hid : { vq with usedRing := usedRing }.nextId = c.head := hhead.symm
      have hlt : ¬ vq.num ≤ c.head := hhead ▸ hbig
      simp only [QueueCall.heads, hidle, hid, hlt, or_self, if_false, h.erase_head] at hkeep
      exact ⟨vq', _, hrun, hm, htidy, hkeep⟩

theorem safe_of_tidy : ∀ (calls : List (QueueCall κ)) {vq : Virtqueue κ} {out : List (Chain κ)}, Tidy vq out →
    HonestRun vq (out.map Chain.head) calls → SafeRun vq calls
  | [], _, _, h, _ => h.numFree_le
  | _ :: calls, _, _, h, hon => by
    obtain ⟨vq', out', hrun, -, htidy, hnext⟩ := honest_call h hon
    exact ⟨h.numFree_le, vq', hrun, safe_of_tidy calls htidy hnext⟩

end Honest

/-- **Indices stay in range as long as the device reports outstanding chains.** -/
theorem honest_safe {num : Nat} (hnum : 2 ≤ num) (modern : Bool) (calls : List (QueueCall κ))
    (h : HonestRun (initQueue num modern) [] calls) : SafeRun (initQueue num modern) calls :=
  safe_of_tidy calls (tidy_init modern (by omega)) h

/-- A request of two buffers on a modern queue of two, its completion, and an id outside the table. -/
theorem honest_safe_two :
    let calls : List (QueueCall Unit) :=
      [.add (fun _ => ⟨0, 0⟩) 1 1 (some ()), .get (vr16 true 1) (ringOf 0), .get (vr16 true 2) (ringOf 9)]
    HonestRun (initQueue 2 true) [] calls ∧ SafeRun (initQueue 2 true) calls := by
  have hon : HonestRun (initQueue 2 true) []
      [.add (fun _ => ⟨0, 0⟩) 1 1 (some ()), .get (vr16 true 1) (ringOf 0), .get (vr16 true 2) (ringOf 9)] := by
    refine ⟨trivial, fun vq h => ?_⟩
    cases h
    refine ⟨.inr (.inr (by decide)), fun vq h => ?_⟩
    cases h
    exact ⟨.inr (.inl (by decide)), fun _ _ => trivial⟩
  exact ⟨hon, honest_safe (by decide) true _ hon⟩

end Virtio9P
