import Virtio9P.Virtqueue.Links

/-!
# The representation invariant of the virtqueue

`Shape vq out`: the descriptors `0 … num-1` are the free list of `vq` and the chains of the outstanding requests
`out`, each descriptor once. `addBuf_run` and `getBuf_run` say what queue `VirtQueue_AddBuf` and `VirtQueue_GetBuf`
leave: the one takes descriptors off the free list and links them, the other puts the chain that the device reports
back. With the cookies the shape is `Inv`, and a queue with the invariant represents its outstanding requests (`Rep`).
-/

namespace Virtio9P

variable {κ : Type}

/-! ## Outstanding requests -/

/-- A request in flight: its descriptors, the buffers it was given and its cookie. -/
structure Chain (κ : Type) where
  idxs : List Nat
  bufs : List Buf
  cookie : Option κ

/-- The descriptor that names the chain in the rings. -/
def Chain.head (c : Chain κ) : Nat := c.idxs.headD 0

/-- The chain `VirtQueue_AddBuf` makes of the request: it takes the first descriptors of the free list. -/
def Virtqueue.newChain (vq : Virtqueue κ) (sg : Nat → VringSg) (outNum total : Nat) (cookie : Option κ) : Chain κ :=
  { idxs := vq.freeList.take total, bufs := requestBufs sg outNum total, cookie := cookie }

/-- The next used entry is there and says that the chain at `head` is done, with length `len`. -/
def Virtqueue.Reports (vq : Virtqueue κ) (head : Nat) (len : UInt32) : Prop :=
  vq.lastUsedIdx ≠ vr16 vq.modern vq.usedIdx ∧
    (vr32 vq.modern (vq.usedRing (vq.lastUsedIdx.toNat % vq.num)).id).toNat = head ∧
    vr32 vq.modern (vq.usedRing (vq.lastUsedIdx.toNat % vq.num)).len = len

/-- The queue when a request of `total` buffers was posted, with the descriptor table `desc`. -/
def Virtqueue.posted (vq : Virtqueue κ) (desc : Nat → VringDesc) (total : UInt32) (cookie : Option κ) : Virtqueue κ :=
  { vq with
    desc := desc
    freeHead := link vq.desc vq.freeHead total.toNat
    numFree := vq.numFree - total.toUInt16
    cookies := Function.update vq.cookies vq.freeHead.toNat cookie
    indirectTables := Function.update vq.indirectTables vq.freeHead.toNat none
    availRing := Function.update vq.availRing ((vr16 vq.modern vq.availIdx).toNat % vq.num)
      (vr16 vq.modern vq.freeHead)
    availIdx := vr16 vq.modern (vr16 vq.modern vq.availIdx + 1) }

/-- The queue when the chain `idxs` was returned, with the descriptor table `desc` and the free list from `freeHead`
on. -/
def Virtqueue.retired (vq : Virtqueue κ) (desc : Nat → VringDesc) (freeHead : UInt16) (idxs : List Nat) : Virtqueue κ :=
  { vq with
    desc := desc
    freeHead := freeHead
    numFree := vq.numFree + UInt16.ofNat idxs.length
    lastUsedIdx := vq.lastUsedIdx + 1
    cookies := Function.update vq.cookies (idxs.headD 0) none
    indirectTables := Function.update vq.indirectTables (idxs.headD 0) none }

/-- **The shape of the descriptor table.** `tail` is about the link behind the last free descriptor, which the code
reads into `free_head` when the list runs empty. -/
structure Shape (vq : Virtqueue κ) (out : List (Chain κ)) : Prop where
  pos : 0 < vq.num
  small : vq.num < 65536
  part : (vq.freeList ++ out.flatMap (·.idxs)).Perm (List.range vq.num)
  tail : (link vq.desc vq.freeHead vq.numFree.toNat).toNat < vq.num
  linked : ∀ c ∈ out, Linked vq.modern vq.desc c.idxs c.bufs
  direct : ∀ i, vq.indirectTables i = none
  noEvent : vq.useEventIdx = false

/-- **The invariant**: the shape, and every outstanding chain has its cookie. -/
structure Inv (vq : Virtqueue κ) (out : List (Chain κ)) : Prop extends Shape vq out where
  cookie : ∀ c ∈ out, vq.cookies c.head = c.cookie

/-- The free list and the chains share no descriptor, and the chains are linked: the part of the shape that does not
depend on the size of the queue. -/
structure Laid (vq : Virtqueue κ) (out : List (Chain κ)) : Prop where
  nodup : (vq.freeList ++ out.flatMap (·.idxs)).Nodup
  lt : ∀ j ∈ vq.freeList ++ out.flatMap (·.idxs), j < vq.num ∧ j < 65536
  linked : ∀ c ∈ out, Linked vq.modern vq.desc c.idxs c.bufs
  direct : ∀ i, vq.indirectTables i = none
  noEvent : vq.useEventIdx = false

section Facts

variable {vq : Virtqueue κ} {out : List (Chain κ)}

theorem Shape.laid (h : Shape vq out) : Laid vq out := by
  refine ⟨h.part.nodup_iff.mpr List.nodup_range, fun j hj => ?_, h.linked, h.direct, h.noEvent⟩
  have hlt := List.mem_range.mp (h.part.mem_iff.mp hj)
  exact ⟨hlt, hlt.trans h.small⟩

namespace Laid

theorem free_nodup (h : Laid vq out) : vq.freeList.Nodup := (List.nodup_append.mp h.nodup).1

theorem free_lt (h : Laid vq out) {j : Nat} (hj : j ∈ vq.freeList) : j < vq.num ∧ j < 65536 :=
  h.lt j (List.mem_append_left _ hj)

theorem chain_lt (h : Laid vq out) {c : Chain κ} (hc : c ∈ out) {j : Nat} (hj : j ∈ c.idxs) : j < vq.num ∧ j < 65536 :=
  h.lt j (List.mem_append_right _ (List.mem_flatMap.mpr ⟨c, hc, hj⟩))

theorem free_notin (h : Laid vq out) {c : Chain κ} (hc : c ∈ out) {j : Nat} (hj : j ∈ c.idxs) : j ∉ vq.freeList :=
  fun hf => (List.nodup_append.mp h.nodup).2.2 j hf j (List.mem_flatMap.mpr ⟨c, hc, hj⟩) rfl

theorem head_mem (h : Laid vq out) {c : Chain κ} (hc : c ∈ out) : c.head ∈ c.idxs := by
  have hne := (h.linked c hc).ne_nil
  cases hi : c.idxs with
  | nil => exact absurd hi hne
  | cons i is => simp [Chain.head, hi]

theorem chain_nodup (h : Laid vq out) {c : Chain κ} (hc : c ∈ out) : c.idxs.Nodup :=
  (List.nodup_flatMap.mp (List.nodup_append.mp h.nodup).2.1).1 c hc

/-- No descriptor is in use twice, so there are at most `num` of them. -/
theorem length_le (h : Laid vq out) : vq.numFree.toNat + (out.map (·.idxs.length)).sum ≤ vq.num := by
  have hsub : vq.freeList ++ out.flatMap (·.idxs) ⊆ List.range vq.num := fun j hj => List.mem_range.mpr (h.lt j hj).1
  have hle := (List.subperm_of_subset h.nodup hsub).length_le
  simpa [Virtqueue.freeList, List.length_flatMap] using hle

/-- The chains before and after `c` share no descriptor with it. -/
theorem apart {l₁ l₂ : List (Chain κ)} {c c' : Chain κ} (h : Laid vq (l₁ ++ c :: l₂)) (hc : c' ∈ l₁ ++ l₂)
    {j : Nat} (hj : j ∈ c.idxs) : j ∉ c'.idxs := by
  intro hj'
  have hp : (l₁ ++ c :: l₂).Perm (c :: (l₁ ++ l₂)) := List.perm_middle
  have hnd := ((hp.flatMap_right (·.idxs)).nodup_iff.mp (List.nodup_append.mp h.nodup).2.1)
  rw [List.flatMap_cons] at hnd
  exact (List.nodup_append.mp hnd).2.2 j hj j (List.mem_flatMap.mpr ⟨c', hc, hj'⟩) rfl

/-- The device may write its ring as it likes. -/
theorem device (h : Laid vq out) (usedIdx : UInt16) (usedRing : Nat → VringUsedElem) :
    Laid { vq with usedIdx := usedIdx, usedRing := usedRing } out := ⟨h.nodup, h.lt, h.linked, h.direct, h.noEvent⟩

end Laid

theorem Shape.count (h : Shape vq out) : vq.numFree.toNat + (out.map (·.idxs.length)).sum = vq.num := by
  have := h.part.length_eq
  simpa [Virtqueue.freeList, List.length_flatMap] using this

@[inherit_doc Laid.device]
theorem Inv.device (h : Inv vq out) (usedIdx : UInt16) (usedRing : Nat → VringUsedElem) :
    Inv { vq with usedIdx := usedIdx, usedRing := usedRing } out :=
  ⟨⟨h.pos, h.small, h.part, h.tail, h.linked, h.direct, h.noEvent⟩, h.cookie⟩

end Facts

/-! ## The fresh queue -/

theorem follow_init (modern : Bool) (num : Nat) : ∀ (n j : Nat), j + n ≤ num → j + n ≤ 65536 →
    follow (initQueue (κ := κ) num modern).desc (UInt16.ofNat j) n = List.range' j n
  | 0, _, _, _ => rfl
  | n + 1, j, hnum, h16 => by
    have hj : (UInt16.ofNat j).toNat = j := by rw [UInt16.toNat_ofNat', Nat.mod_eq_of_lt (by omega)]
    simp only [follow, hj, List.range'_succ, List.cons.injEq, true_and]
    cases n with
    | zero => rfl
    | succ n =>
      have hlast : j < num - 1 := by omega
      simp only [initQueue, virtQueueAllocate, hlast, if_true]
      exact follow_init modern num (n + 1) (j + 1) (by omega) (by omega)

/-- The last link of the fresh queue is 0. -/
theorem link_init (modern : Bool) {num : Nat} (hnum : num < 65536) : ∀ (n j : Nat), j + (n + 1) = num →
    link (initQueue (κ := κ) num modern).desc (UInt16.ofNat j) (n + 1) = 0
  | 0, j, h => by
    have hj : (UInt16.ofNat j).toNat = j := by rw [UInt16.toNat_ofNat', Nat.mod_eq_of_lt (by omega)]
    have hlast : ¬ j < num - 1 := by omega
    simp only [link, hj, initQueue, virtQueueAllocate, hlast, if_false]
  | n + 1, j, h => by
    have hj : (UInt16.ofNat j).toNat = j := by rw [UInt16.toNat_ofNat', Nat.mod_eq_of_lt (by omega)]
    have hlast : j < num - 1 := by omega
    have hlink : ((initQueue (κ := κ) num modern).desc j).next = UInt16.ofNat (j + 1) := by
      simp only [initQueue, virtQueueAllocate, hlast, if_true]
    rw [link, hj, hlink]
    exact link_init modern hnum n (j + 1) (by omega)

theorem inv_init {num : Nat} (modern : Bool) (hpos : 0 < num) (hnum : num < 65536) :
    Inv (initQueue (κ := κ) num modern) [] := by
  have hfree : (initQueue (κ := κ) num modern).numFree.toNat = num := by
    simp [initQueue, virtQueueAllocate, UInt16.toNat_ofNat', Nat.mod_eq_of_lt hnum]
  refine ⟨⟨hpos, hnum, ?_, ?_, by simp, fun _ => rfl, rfl⟩, by simp⟩
  · have hf := follow_init (κ := κ) modern num num 0 (by omega) (by omega)
    rw [Virtqueue.freeList, hfree, List.flatMap_nil, List.append_nil]
    rw [show (initQueue (κ := κ) num modern).freeHead = UInt16.ofNat 0 from rfl, hf, ← List.range_eq_range']
    exact List.Perm.refl _
  · obtain ⟨n, rfl⟩ : ∃ n, num = n + 1 := ⟨num - 1, by omega⟩
    rw [hfree, show (initQueue (κ := κ) (n + 1) modern).freeHead = UInt16.ofNat 0 from rfl,
      link_init (κ := κ) modern hnum n 0 (by omega)]
    exact hpos

/-! ## `VirtQueue_AddBuf` -/

section AddBuf

variable {vq : Virtqueue κ} {out : List (Chain κ)} (sg : Nat → VringSg) {outNum inNum : UInt32} (cookie : Option κ)

/-- A request that does not fit is refused and nothing changes. -/
theorem addBuf_refuse (h : vq.numFree.toNat < (outNum + inNum).toNat) :
    virtQueueAddBuf vq sg outNum inNum cookie = .ok (-1, vq) := by
  simp only [virtQueueAddBuf, h, if_true]

/-- A request that fits takes the first descriptors of the free list and links them. -/
theorem addBuf_run (hpos : 0 < (outNum + inNum).toNat) (hfit : (outNum + inNum).toNat ≤ vq.numFree.toNat)
    (hnd : vq.freeList.Nodup) (hlt : ∀ j ∈ vq.freeList, j < vq.num) :
    ∃ d', virtQueueAddBuf vq sg outNum inNum cookie = .ok (0, vq.posted d' (outNum + inNum) cookie) ∧
      (∀ j ∉ vq.freeList.take (outNum + inNum).toNat, d' j = vq.desc j) ∧
      Linked vq.modern d' (vq.freeList.take (outNum + inNum).toNat)
        (requestBufs sg outNum.toNat (outNum + inNum).toNat) ∧
      (vq.posted d' (outNum + inNum) cookie).freeList = vq.freeList.drop (outNum + inNum).toNat ∧
      link d' (vq.posted d' (outNum + inNum) cookie).freeHead (vq.posted d' (outNum + inNum) cookie).numFree.toNat =
        link vq.desc vq.freeHead vq.numFree.toNat := by
  set total := outNum + inNum with htotal
  obtain ⟨k, hk⟩ : ∃ k, total.toNat = k + 1 := ⟨total.toNat - 1, by omega⟩
  obtain ⟨m, hm⟩ : ∃ m, vq.numFree.toNat = (k + 1) + m := ⟨vq.numFree.toNat - (k + 1), by omega⟩
  -- the free list is what the request takes, then the rest
  set taken := follow vq.desc vq.freeHead (k + 1) with htaken
  set rest := follow vq.desc (link vq.desc vq.freeHead (k + 1)) m with hrest
  have hfl : vq.freeList = taken ++ rest := by rw [Virtqueue.freeList, hm, follow_add]
  have htake : vq.freeList.take total.toNat = taken := by rw [Virtqueue.freeList, hm, hk, take_follow]
  have hdrop : vq.freeList.drop total.toNat = rest := by
    rw [hfl, hk]
    exact List.drop_left' (length_follow ..)
  rw [hfl] at hnd hlt
  obtain ⟨d', hrun, hsame, hlink⟩ := addBufLoop_spec sg outNum.toNat total.toNat k 0 vq.freeHead vq (by omega)
    (List.nodup_append.mp hnd).1 fun j hj => hlt j (List.mem_append_left _ hj)
  have hhead : vq.freeHead.toNat < vq.num := hlt _ (List.mem_append_left _ List.mem_cons_self)
  have hnum16 : (vq.numFree - total.toUInt16).toNat = m := by
    have h16 : total.toUInt16.toNat = k + 1 := by
      rw [UInt32.toNat_toUInt16, hk]; exact Nat.mod_eq_of_lt (by have := vq.numFree.toNat_lt; omega)
    rw [UInt16.toNat_sub_of_le _ _ (by rw [UInt16.le_iff_toNat_le]; omega)]
    omega
  have hcong := follow_congr vq.desc d' m (link vq.desc vq.freeHead (k + 1)) fun j hj =>
    hsame j fun hj' => (List.nodup_append.mp hnd).2.2 j hj' j hj rfl
  refine ⟨d', ?_, htake ▸ hsame, ?_, ?_, ?_⟩
  · unfold virtQueueAddBuf
    simp only [← htotal, show ¬ vq.numFree.toNat < total.toNat by omega, if_false]
    rw [hk] at hrun ⊢
    simp only [bind, Except.bind, hrun, Virtqueue.setCookie, hhead, if_true, Virtqueue.posted, hk]
  · rw [htake, requestBufs, List.range_eq_range', hk]
    simpa only [hk] using hlink
  · show follow d' (link vq.desc vq.freeHead total.toNat) (vq.numFree - total.toUInt16).toNat = _
    rw [hdrop, hnum16, hk, hcong.1]
  · show link d' (link vq.desc vq.freeHead total.toNat) (vq.numFree - total.toUInt16).toNat = _
    rw [hnum16, hk, hcong.2, ← link_add, ← hm]

/-- A request that fits becomes a chain. -/
theorem addBuf_laid (hl : Laid vq out) (hpos : 0 < (outNum + inNum).toNat)
    (hfit : (outNum + inNum).toNat ≤ vq.numFree.toNat) :
    ∃ d', virtQueueAddBuf vq sg outNum inNum cookie = .ok (0, vq.posted d' (outNum + inNum) cookie) ∧
      Laid (vq.posted d' (outNum + inNum) cookie) (out ++ [vq.newChain sg outNum.toNat (outNum + inNum).toNat cookie]) ∧
      (∀ j ∉ vq.freeList.take (outNum + inNum).toNat, d' j = vq.desc j) ∧
      ((vq.posted d' (outNum + inNum) cookie).freeList ++
        (out ++ [vq.newChain sg outNum.toNat (outNum + inNum).toNat cookie]).flatMap (·.idxs)).Perm
          (vq.freeList ++ out.flatMap (·.idxs)) ∧
      (vq.posted d' (outNum + inNum) cookie).freeList = vq.freeList.drop (outNum + inNum).toNat ∧
      link d' (vq.posted d' (outNum + inNum) cookie).freeHead (vq.posted d' (outNum + inNum) cookie).numFree.toNat =
        link vq.desc vq.freeHead vq.numFree.toNat := by
  set total := outNum + inNum
  obtain ⟨d', hrun, hsame, hlink, hfree, htail⟩ := addBuf_run sg cookie hpos hfit hl.free_nodup
    fun j hj => (hl.free_lt hj).1
  -- the same descriptors, the taken ones moved to the end
  have hperm : (vq.freeList.drop total.toNat ++
      (out ++ [vq.newChain sg outNum.toNat total.toNat cookie]).flatMap (·.idxs)).Perm
        (vq.freeList ++ out.flatMap (·.idxs)) := by
    rw [List.flatMap_append, List.flatMap_singleton, ← List.append_assoc]
    refine List.perm_append_comm.trans ?_
    rw [← List.append_assoc, Virtqueue.newChain, List.take_append_drop]
  refine ⟨d', hrun, ⟨?_, ?_, ?_, ?_, hl.noEvent⟩, hsame, hfree ▸ hperm, hfree, htail⟩
  · rw [hfree]
    exact hperm.nodup_iff.mpr hl.nodup
  · rw [hfree]
    exact fun j hj => hl.lt j (hperm.mem_iff.mp hj)
  · intro c hc
    rcases List.mem_append.mp hc with hc | hc
    · refine (hl.linked c hc).congr fun j hj => hsame j fun hj' => ?_
      exact hl.free_notin hc hj (List.mem_of_mem_take hj')
    · rw [List.mem_singleton.mp hc]
      exact hlink
  · intro i
    show Function.update vq.indirectTables vq.freeHead.toNat none i = none
    by_cases he : i = vq.freeHead.toNat
    · rw [he, Function.update_self]
    · rw [Function.update_of_ne he, hl.direct]

/-- The new chain is named by the old head of the free list. -/
theorem newChain_head {total outNum : Nat} (hpos : 0 < total) (hfit : total ≤ vq.numFree.toNat) :
    (vq.newChain sg outNum total cookie).head = vq.freeHead.toNat := by
  obtain ⟨t, rfl⟩ : ∃ t, total = t + 1 := ⟨total - 1, by omega⟩
  obtain ⟨m, hm⟩ : ∃ m, vq.numFree.toNat = (t + 1) + m := ⟨vq.numFree.toNat - (t + 1), by omega⟩
  rw [Chain.head, Virtqueue.newChain, Virtqueue.freeList, hm, take_follow]
  rfl

theorem addBuf_inv (hi : Inv vq out) (hpos : 0 < (outNum + inNum).toNat)
    (hfit : (outNum + inNum).toNat ≤ vq.numFree.toNat) :
    ∃ d', virtQueueAddBuf vq sg outNum inNum cookie = .ok (0, vq.posted d' (outNum + inNum) cookie) ∧
      Inv (vq.posted d' (outNum + inNum) cookie)
        (out ++ [vq.newChain sg outNum.toNat (outNum + inNum).toNat cookie]) := by
  obtain ⟨d', hres, hlaid, -, hperm, -, htail⟩ := addBuf_laid sg cookie hi.laid hpos hfit
  refine ⟨d', hres, ⟨hi.pos, hi.small, hperm.trans hi.part, htail ▸ hi.tail, hlaid.linked, hlaid.direct, hi.noEvent⟩,
    ?_⟩
  have hnew : (vq.newChain sg outNum.toNat (outNum + inNum).toNat cookie).head = vq.freeHead.toNat :=
    newChain_head sg cookie hpos hfit
  intro c hc
  show Function.update vq.cookies vq.freeHead.toNat cookie c.head = c.cookie
  rcases List.mem_append.mp hc with hc | hc
  · -- the head of an older chain is not the head of the new one
    have hne : c.head ≠ vq.freeHead.toNat := by
      rw [← hnew]
      exact fun e => hlaid.apart (show c ∈ out ++ [] by simpa using hc) (hlaid.head_mem (by simp))
        (e ▸ hi.laid.head_mem hc)
    rw [Function.update_of_ne hne, hi.cookie c hc]
  · rw [List.mem_singleton] at hc
    subst hc
    rw [hnew, Function.update_self]
    rfl

end AddBuf

/-! ## `VirtQueue_GetBuf` -/

section GetBuf

variable {vq : Virtqueue κ} {out : List (Chain κ)}

/-- Nothing new: `NULL`, and nothing changes. -/
theorem getBuf_idle (h : vq.lastUsedIdx = vr16 vq.modern vq.usedIdx) :
    virtQueueGetBuf vq = .ok (⟨none, none⟩, vq) := by
  simp [virtQueueGetBuf, h]

/-- The chain the device reports is cleared, and its descriptors go back to the free list. -/
theorem getBuf_run {c : Chain κ} {len : UInt32} (hrep : vq.Reports c.head len)
    (hlinked : Linked vq.modern vq.desc c.idxs c.bufs) (hnd : c.idxs.Nodup)
    (hlt : ∀ j ∈ c.idxs, j < vq.num ∧ j < 65536 ∧ j ∉ vq.freeList)
    (hcount : vq.numFree.toNat + c.idxs.length < 65536) (hlen : c.idxs.length ≤ vq.num)
    (hdirect : vq.indirectTables c.head = none) (hevent : vq.useEventIdx = false) :
    ∃ d' h', virtQueueGetBuf vq = .ok (⟨vq.cookies c.head, some len⟩, vq.retired d' h' c.idxs) ∧
      (∀ j ∉ c.idxs, d' j = vq.desc j) ∧ (∀ j ∈ c.idxs, (d' j).flags = 0) ∧
      (vq.retired d' h' c.idxs).freeList = c.idxs.reverse ++ vq.freeList ∧
      link d' h' (vq.retired d' h' c.idxs).numFree.toNat = link vq.desc vq.freeHead vq.numFree.toNat := by
  obtain ⟨hnew, hid, hwritten⟩ := hrep
  have hmem : c.head ∈ c.idxs := by
    unfold Chain.head
    obtain ⟨i, is, hi⟩ := List.exists_cons_of_ne_nil hlinked.ne_nil
    rw [hi]
    exact List.mem_cons_self
  obtain ⟨hhead, hsmall, -⟩ := hlt _ hmem
  set descId := vr32 vq.modern (vq.usedRing (vq.lastUsedIdx.toNat % vq.num)).id with hdesc
  have hidx : descId.toUInt16.toNat = c.head := by
    rw [UInt32.toNat_toUInt16, hid]
    exact Nat.mod_eq_of_lt hsmall
  -- the cookie slot is cleared first, then the chain is walked
  let vq₁ : Virtqueue κ :=
    { vq with
      cookies := Function.update vq.cookies c.head none
      indirectTables := Function.update vq.indirectTables c.head none }
  obtain ⟨d', h', hrun, hsame, hclear, hfol⟩ := freeChain_spec c.idxs c.bufs (vq.num + 1) descId.toUInt16 0 vq₁
    hlinked hnd (fun j hj => (hlt j hj).1) hidx.symm (by omega)
  obtain ⟨hfree, hlink⟩ := hfol vq.numFree.toNat fun j hj => (hlt j hj).2.2
  have hnum16 : (vq.numFree + UInt16.ofNat c.idxs.length).toNat = vq.numFree.toNat + c.idxs.length := by
    rw [UInt16.toNat_add, UInt16.toNat_ofNat', Nat.mod_eq_of_lt (show c.idxs.length < 2 ^ 16 by omega)]
    exact Nat.mod_eq_of_lt (by omega)
  refine ⟨d', h', ?_, hsame, hclear, ?_, ?_⟩
  · unfold virtQueueGetBuf
    simp only [hnew, if_false, ← hdesc, hid, show ¬ vq.num ≤ c.head by omega, hdirect,
      Virtqueue.setCookie, hhead, if_true, bind, Except.bind, freeRequest]
    rw [hrun]
    simp only [Virtqueue.retire, hevent, hwritten, Nat.zero_add, vq₁, Virtqueue.retired]
    rfl
  · show follow d' h' (vq.numFree + UInt16.ofNat c.idxs.length).toNat = _
    rw [hnum16, hfree]
    rfl
  · show link d' h' (vq.numFree + UInt16.ofNat c.idxs.length).toNat = _
    rw [hnum16, hlink]

/-- The chain the device reports is taken off and its descriptors are free again. -/
theorem getBuf_laid {l₁ l₂ : List (Chain κ)} {c : Chain κ} {len : UInt32} (hl : Laid vq (l₁ ++ c :: l₂))
    (hcount : vq.numFree.toNat + c.idxs.length < 65536) (hrep : vq.Reports c.head len) :
    ∃ d' h', virtQueueGetBuf vq = .ok (⟨vq.cookies c.head, some len⟩, vq.retired d' h' c.idxs) ∧
      Laid (vq.retired d' h' c.idxs) (l₁ ++ l₂) ∧
      (∀ j ∉ c.idxs, d' j = vq.desc j) ∧ (∀ j ∈ c.idxs, (d' j).flags = 0) ∧
      ((vq.retired d' h' c.idxs).freeList ++ (l₁ ++ l₂).flatMap (·.idxs)).Perm
        (vq.freeList ++ (l₁ ++ c :: l₂).flatMap (·.idxs)) ∧
      (vq.retired d' h' c.idxs).freeList = c.idxs.reverse ++ vq.freeList ∧
      link d' h' (vq.retired d' h' c.idxs).numFree.toNat = link vq.desc vq.freeHead vq.numFree.toNat := by
  have hc : c ∈ l₁ ++ c :: l₂ := by simp
  have hlen : c.idxs.length ≤ vq.num := by
    have hle := hl.length_le
    have hsingle : c.idxs.length ≤ ((l₁ ++ c :: l₂).map (·.idxs.length)).sum :=
      List.single_le_sum (by simp) _ (List.mem_map.mpr ⟨c, hc, rfl⟩)
    omega
  obtain ⟨d', h', hrun, hsame, hclear, hfree, htail⟩ := getBuf_run hrep (hl.linked c hc) (hl.chain_nodup hc)
    (fun j hj => ⟨(hl.chain_lt hc hj).1, (hl.chain_lt hc hj).2, hl.free_notin hc hj⟩) hcount hlen
    (hl.direct _) hl.noEvent
  have hsub : ∀ c' ∈ l₁ ++ l₂, c' ∈ l₁ ++ c :: l₂ := by
    intro c' hc'
    simp only [List.mem_append, List.mem_cons] at hc' ⊢
    tauto
  have hperm : ((c.idxs.reverse ++ vq.freeList) ++ (l₁ ++ l₂).flatMap (·.idxs)).Perm
      (vq.freeList ++ (l₁ ++ c :: l₂).flatMap (·.idxs)) := by
    have hp : (l₁ ++ c :: l₂).Perm (c :: (l₁ ++ l₂)) := List.perm_middle
    have hpf := hp.flatMap_right (·.idxs)
    rw [List.flatMap_cons] at hpf
    refine List.Perm.trans ?_ (hpf.symm.append_left vq.freeList)
    calc (c.idxs.reverse ++ vq.freeList) ++ (l₁ ++ l₂).flatMap (·.idxs)
        |>.Perm ((c.idxs ++ vq.freeList) ++ (l₁ ++ l₂).flatMap (·.idxs)) :=
          ((List.reverse_perm c.idxs).append_right _).append_right _
      _ |>.Perm ((vq.freeList ++ c.idxs) ++ (l₁ ++ l₂).flatMap (·.idxs)) :=
          List.perm_append_comm.append_right _
      _ |>.Perm (vq.freeList ++ (c.idxs ++ (l₁ ++ l₂).flatMap (·.idxs))) := by rw [List.append_assoc]
  refine ⟨d', h', hrun, ⟨?_, ?_, ?_, ?_, hl.noEvent⟩, hsame, hclear, hfree ▸ hperm, hfree, htail⟩
  · rw [hfree]
    exact hperm.nodup_iff.mpr hl.nodup
  · rw [hfree]
    exact fun j hj => hl.lt j (hperm.mem_iff.mp hj)
  · intro c' hc'
    exact (hl.linked c' (hsub c' hc')).congr fun j hj => hsame j fun hj' => hl.apart hc' hj' hj
  · intro i
    show Function.update vq.indirectTables c.head none i = none
    by_cases he : i = c.head
    · rw [he, Function.update_self]
    · rw [Function.update_of_ne he, hl.direct]

theorem getBuf_inv {l₁ l₂ : List (Chain κ)} {c : Chain κ} {len : UInt32} (hi : Inv vq (l₁ ++ c :: l₂))
    (hrep : vq.Reports c.head len) :
    ∃ d' h', virtQueueGetBuf vq = .ok (⟨c.cookie, some len⟩, vq.retired d' h' c.idxs) ∧
      Inv (vq.retired d' h' c.idxs) (l₁ ++ l₂) := by
  have hc : c ∈ l₁ ++ c :: l₂ := by simp
  have hcount : vq.numFree.toNat + c.idxs.length < 65536 := by
    have hsum := hi.count
    have hsmall := hi.small
    have hle : c.idxs.length ≤ ((l₁ ++ c :: l₂).map (·.idxs.length)).sum :=
      List.single_le_sum (by simp) _ (List.mem_map.mpr ⟨c, hc, rfl⟩)
    omega
  obtain ⟨d', h', hres, hlaid, -, -, hperm, -, htail⟩ := getBuf_laid hi.laid hcount hrep
  rw [hi.cookie c hc] at hres
  refine ⟨d', h', hres,
    ⟨hi.pos, hi.small, hperm.trans hi.part, htail ▸ hi.tail, hlaid.linked, hlaid.direct, hi.noEvent⟩, fun c' hc' => ?_⟩
  have hc'' : c' ∈ l₁ ++ c :: l₂ := by
    simp only [List.mem_append, List.mem_cons] at hc' ⊢
    tauto
  have hne : c'.head ≠ c.head := fun e => hi.laid.apart hc' (hi.laid.head_mem hc) (e ▸ hi.laid.head_mem hc'')
  show Function.update vq.cookies c.head none c'.head = c'.cookie
  rw [Function.update_of_ne hne, hi.cookie c' hc'']

end GetBuf

/-! ## What it represents -/

/-- What the queue represents: the free list visits the free descriptors once each, the device reads every
outstanding request as it was posted, and its cookie is kept. -/
structure Rep (vq : Virtqueue κ) (out : List (Chain κ)) : Prop where
  partition : (vq.freeList ++ out.flatMap (·.idxs)).Perm (List.range vq.num)
  freeNodup : vq.freeList.Nodup
  numFree : vq.numFree.toNat + (out.map (·.bufs.length)).sum = vq.num
  chains : ∀ c ∈ out, walkChain vq.modern vq.desc vq.num c.head = c.idxs.zip c.bufs ∧ c.idxs.length = c.bufs.length
  cookies : ∀ c ∈ out, vq.cookies c.head = c.cookie

section Represents

variable {num : Nat} {modern : Bool} {vq vq' : Virtqueue κ} {out : List (Chain κ)} {sg : Nat → VringSg}
  {outNum inNum : UInt32} {cookie : Option κ}

theorem toNat_total (h : outNum.toNat + inNum.toNat < 65536) :
    (outNum + inNum).toNat = outNum.toNat + inNum.toNat := by
  rw [UInt32.toNat_add]; exact Nat.mod_eq_of_lt (by omega)

theorem Inv.rep (h : Inv vq out) : Rep vq out := by
  have hlen : ∀ c ∈ out, c.idxs.length = c.bufs.length := fun c hc => (h.linked c hc).length_eq
  refine ⟨h.part, h.laid.free_nodup, ?_, fun c hc => ⟨?_, hlen c hc⟩, h.cookie⟩
  · rw [← h.count, List.map_congr_left hlen]
  · refine (h.linked c hc).walkChain ?_
    have hle : c.idxs.length ≤ (out.map (·.idxs.length)).sum :=
      List.single_le_sum (by simp) _ (List.mem_map.mpr ⟨c, hc, rfl⟩)
    have := h.count
    omega

end Represents

end Virtio9P
