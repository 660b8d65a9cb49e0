import Virtio9P.Lib.Ram
import Virtio9P.Transport.Machine

/-!
# Where the rings are (`virtqueue.c`, `virtio_init.c`)

The addresses of the descriptor table, the avail ring and the used ring are computed three times: by
`VirtQueue_Allocate` from the address it allocated, by `V9P_InitVirtIO_Modern` from the physical address of the table,
and by a legacy device from the page frame number it is given. The first two are `uint32` arithmetic as in the source;
the third is the layout that the head of `virtqueue.c` describes: the table at the start of the page frame, the avail
ring (with its `used_event` slot) right behind it, and the used ring at the next multiple of 4096.

**`vring_layout_sound`**: for every queue size the three agree, the rings are apart and inside the block that was
allocated, and no sum or product leaves 32 bits.
-/

namespace Virtio9P

open Lib

/-! ## The computations -/

/-- `VIRTIO_PCI_VRING_ALIGN`. -/
def virtioPciVringAlign : UInt32 := 4096

/-- The sizes and offsets of `VirtQueue_Allocate`. -/
structure VringLayout where
  descSize : UInt32
  availSize : UInt32
  usedOffset : UInt32
  usedSize : UInt32
  totalMem : UInt32
  allocSize : UInt32

/-- The first lines of `VirtQueue_Allocate`. -/
def vringLayout (queueSize : UInt32) : VringLayout :=
  let descSize := 16 * queueSize
  let availSize := 2 * (3 + queueSize)
  let availEnd := descSize + availSize
  let usedOffset := (availEnd + virtioPciVringAlign - 1) &&& ~~~(virtioPciVringAlign - 1)
  let usedSize := 2 * 3 + 8 * queueSize
  let totalMem := usedOffset + usedSize
  { descSize, availSize, usedOffset, usedSize, totalMem, allocSize := totalMem + virtioPciVringAlign }

/-- Where the table and the rings are. -/
structure VringAddrs where
  desc : UInt32
  avail : UInt32
  used : UInt32

/-- `vq->desc`, `vq->avail` and `vq->used` in the block at `raw`. -/
def virtQueueAddrs (queueSize raw : UInt32) : VringAddrs :=
  let base := (raw + virtioPciVringAlign - 1) &&& ~~~(virtioPciVringAlign - 1)
  { desc := base, avail := base + (vringLayout queueSize).descSize, used := base + (vringLayout queueSize).usedOffset }

/-- What `V9P_InitVirtIO_Modern` tells the device, from the physical address of the table. -/
def modernAddrs (descPhys : UInt32) (qMax : UInt16) : VringAddrs :=
  let descSize := 16 * qMax.toUInt32
  let availSize := 2 * (3 + qMax.toUInt32)
  let usedOffset := (descSize + availSize + 4095) &&& ~~~4095
  { desc := descPhys, avail := descPhys + descSize, used := descPhys + usedOffset }

/-- The page frame number that `V9P_InitVirtIO` writes for a legacy device. -/
def queuePfn (physAddr : UInt32) : UInt32 := physAddr / 4096

/-- The table of a legacy device. -/
def deviceDesc (pfn : UInt32) : Nat := pfn.toNat * 4096

/-- Its avail ring. -/
def deviceAvail (pfn : UInt32) (num : Nat) : Nat := deviceDesc pfn + 16 * num

/-- Its used ring: behind `flags`, `idx`, `num` entries and `used_event`, at the next multiple of 4096. -/
def deviceUsed (pfn : UInt32) (num : Nat) : Nat := (deviceAvail pfn num + (2 + 2 + 2 * num + 2) + 4095) / 4096 * 4096

/-! ## Without a machine word -/

/-- The next multiple of 4096. -/
def roundUp (x : Nat) : Nat := (x + 4095) / 4096 * 4096

theorem toNat_and_not_4095 (x : UInt32) : (x &&& ~~~4095).toNat = x.toNat / 4096 * 4096 := by
  rw [UInt32.toNat_and, show (~~~(4095 : UInt32)).toNat = (2 ^ 20 - 1) * 2 ^ 12 from rfl,
    show (4096 : Nat) = 2 ^ 12 from rfl]
  apply Nat.eq_of_testBit_eq
  intro i
  have hx : x.toNat < 2 ^ 32 := x.toNat_lt
  rw [Nat.testBit_and, Nat.testBit_mul_two_pow, Nat.testBit_mul_two_pow, Nat.testBit_two_pow_sub_one,
    Nat.testBit_div_two_pow]
  by_cases hi : 12 ≤ i
  · by_cases hbig : 32 ≤ i
    · have hzero : x.toNat.testBit i = false :=
        Nat.testBit_lt_two_pow (Nat.lt_of_lt_of_le hx (Nat.pow_le_pow_right (by decide) hbig))
      simp [hi, hzero]
    · simp [hi, show i - 12 < 20 by omega]
  · simp [hi]

theorem roundUp_spec (x : Nat) : x ≤ roundUp x ∧ roundUp x < x + 4096 ∧ roundUp x % 4096 = 0 := by
  unfold roundUp
  omega

/-- A whole page more is a whole page more. -/
theorem roundUp_page (p x : Nat) : roundUp (p * 4096 + x) = p * 4096 + roundUp x := by
  unfold roundUp
  omega

theorem toNat_roundUp {x : UInt32} (h : x.toNat + 4096 < 4294967296) :
    ((x + virtioPciVringAlign - 1) &&& ~~~(virtioPciVringAlign - 1)).toNat = roundUp x.toNat := by
  have hsum : (x + virtioPciVringAlign - 1).toNat = x.toNat + 4095 := by
    have hadd : (x + virtioPciVringAlign).toNat = x.toNat + 4096 := by
      rw [UInt32.toNat_add, show virtioPciVringAlign.toNat = 4096 from rfl]
      omega
    rw [UInt32.toNat_sub_of_le _ _ (by rw [UInt32.le_iff_toNat_le, hadd]; exact Nat.le_add_left 1 _), hadd]
    rfl
  rw [show virtioPciVringAlign - 1 = 4095 from rfl, toNat_and_not_4095, hsum, roundUp]

section

variable (q : UInt16)

theorem toNat_queueSize : q.toUInt32.toNat = q.toNat := UInt16.toNat_toUInt32 q

theorem toNat_descSize : (vringLayout q.toUInt32).descSize.toNat = 16 * q.toNat := by
  have hq := q.toNat_lt
  show (16 * q.toUInt32).toNat = _
  rw [UInt32.toNat_mul, toNat_queueSize, show (16 : UInt32).toNat = 16 from rfl]
  omega

theorem toNat_availSize : (vringLayout q.toUInt32).availSize.toNat = 2 * (3 + q.toNat) := by
  have hq := q.toNat_lt
  show (2 * (3 + q.toUInt32)).toNat = _
  rw [UInt32.toNat_mul, UInt32.toNat_add, toNat_queueSize, show (2 : UInt32).toNat = 2 from rfl,
    show (3 : UInt32).toNat = 3 from rfl]
  omega

theorem toNat_availEnd : (16 * q.toUInt32 + 2 * (3 + q.toUInt32)).toNat = 16 * q.toNat + 2 * (3 + q.toNat) := by
  have hq := q.toNat_lt
  show ((vringLayout q.toUInt32).descSize + (vringLayout q.toUInt32).availSize).toNat = _
  rw [UInt32.toNat_add, toNat_descSize, toNat_availSize]
  omega

theorem toNat_usedOffset :
    (vringLayout q.toUInt32).usedOffset.toNat = roundUp (16 * q.toNat + 2 * (3 + q.toNat)) := by
  have hq := q.toNat_lt
  rw [← toNat_availEnd q]
  exact toNat_roundUp (by rw [toNat_availEnd q]; omega)

theorem toNat_usedSize : (vringLayout q.toUInt32).usedSize.toNat = 6 + 8 * q.toNat := by
  have hq := q.toNat_lt
  show (2 * 3 + 8 * q.toUInt32).toNat = _
  rw [UInt32.toNat_add, UInt32.toNat_mul, UInt32.toNat_mul, toNat_queueSize, show (2 : UInt32).toNat = 2 from rfl,
    show (3 : UInt32).toNat = 3 from rfl, show (8 : UInt32).toNat = 8 from rfl]
  omega

/-- `mem_size` is the size of the block of memory in `Virtio9P.Transport.Machine`. -/
theorem toNat_totalMem : (vringLayout q.toUInt32).totalMem.toNat = vringSize q.toNat := by
  have hq := q.toNat_lt
  have hround := roundUp_spec (16 * q.toNat + 2 * (3 + q.toNat))
  show ((vringLayout q.toUInt32).usedOffset + (vringLayout q.toUInt32).usedSize).toNat = _
  rw [UInt32.toNat_add, toNat_usedOffset, toNat_usedSize]
  exact Nat.mod_eq_of_lt (by omega)

theorem vringSize_eq (n : Nat) : vringSize n = roundUp (16 * n + 2 * (3 + n)) + (6 + 8 * n) := rfl

theorem vringSize_lt : vringSize q.toNat < 4294963200 := by
  have hq := q.toNat_lt
  have hround := roundUp_spec (16 * q.toNat + 2 * (3 + q.toNat))
  rw [vringSize_eq]
  omega

theorem toNat_allocSize : (vringLayout q.toUInt32).allocSize.toNat = vringSize q.toNat + 4096 := by
  have hlt := vringSize_lt q
  show ((vringLayout q.toUInt32).totalMem + virtioPciVringAlign).toNat = _
  rw [UInt32.toNat_add, toNat_totalMem]
  exact Nat.mod_eq_of_lt (by rw [show virtioPciVringAlign.toNat = 4096 from rfl]; omega)

/-- The offset of the used ring, as the two functions compute it. -/
theorem modern_usedOffset (descPhys : UInt32) :
    (modernAddrs descPhys q).used = descPhys + (vringLayout q.toUInt32).usedOffset := by
  have hend : ∀ x : UInt32, x + virtioPciVringAlign - 1 = x + 4095 := fun x => by
    rw [UInt32.sub_eq_add_neg, UInt32.add_assoc]
    rfl
  show descPhys + ((16 * q.toUInt32 + 2 * (3 + q.toUInt32) + 4095) &&& ~~~4095) = descPhys +
    ((16 * q.toUInt32 + 2 * (3 + q.toUInt32) + virtioPciVringAlign - 1) &&& ~~~(virtioPciVringAlign - 1))
  rw [hend]
  rfl

end

/-! ## The block and its regions -/

/-- The table, the avail ring and the used ring, each with its size: `flags`, `idx`, the entries and the event slot. -/
def VringAddrs.regions (v : VringAddrs) (num : Nat) : List (UInt32 × Nat) :=
  [(v.desc, 16 * num), (v.avail, 2 + 2 + 2 * num + 2), (v.used, 2 + 2 + 8 * num + 2)]

/-- The exact value of each sum and product of `VirtQueue_Allocate`, in the order of the source. -/
def allocateSums (num raw : Nat) : List Nat :=
  let descSize := 16 * num
  let availEnd := descSize + 2 * (3 + num)
  let usedOffset := roundUp availEnd
  let usedSize := 2 * 3 + 8 * num
  let base := roundUp raw
  [descSize, 3 + num, 2 * (3 + num), availEnd, availEnd + 4096, 2 * 3, 8 * num, usedSize, usedOffset + usedSize,
    usedOffset + usedSize + 4096, raw + 4096, 4 * num, base + descSize, base + usedOffset]

/-- The same for the ring addresses of `V9P_InitVirtIO_Modern`. -/
def modernSums (num phys : Nat) : List Nat :=
  let descSize := 16 * num
  let availEnd := descSize + 2 * (3 + num)
  [descSize, 3 + num, 2 * (3 + num), availEnd, availEnd + 4095, phys + descSize, phys + roundUp availEnd]

/-- What is right about a queue of size `q` in the block at `raw`, with the table at the physical address `phys`. -/
structure LayoutSound (q : UInt16) (raw phys : UInt32) : Prop where
  aligned : (virtQueueAddrs q.toUInt32 raw).desc.toNat % 4096 = 0
  disjoint : ((virtQueueAddrs q.toUInt32 raw).regions q.toNat).Pairwise fun r s => Apart r.1 r.2 s.1 s.2
  inRaw : ∀ r ∈ (virtQueueAddrs q.toUInt32 raw).regions q.toNat,
    Within r.1 r.2 raw (vringLayout q.toUInt32).allocSize.toNat
  inMem : ∀ r ∈ (virtQueueAddrs q.toUInt32 raw).regions q.toNat,
    Within r.1 r.2 (virtQueueAddrs q.toUInt32 raw).desc (vringLayout q.toUInt32).totalMem.toNat
  /-- the offsets for a modern device -/
  modernAvail : (modernAddrs phys q).avail - (modernAddrs phys q).desc =
    (virtQueueAddrs q.toUInt32 raw).avail - (virtQueueAddrs q.toUInt32 raw).desc
  modernUsed : (modernAddrs phys q).used - (modernAddrs phys q).desc =
    (virtQueueAddrs q.toUInt32 raw).used - (virtQueueAddrs q.toUInt32 raw).desc
  /-- the offsets of a legacy device -/
  legacyAvail : deviceAvail (queuePfn phys) q.toNat = deviceDesc (queuePfn phys) +
    ((virtQueueAddrs q.toUInt32 raw).avail - (virtQueueAddrs q.toUInt32 raw).desc).toNat
  legacyUsed : deviceUsed (queuePfn phys) q.toNat = deviceDesc (queuePfn phys) +
    ((virtQueueAddrs q.toUInt32 raw).used - (virtQueueAddrs q.toUInt32 raw).desc).toNat
  /-- a legacy device starts at the table if that is at the start of a page, as `desc` is -/
  legacyDesc : phys.toNat % 4096 = 0 → deviceDesc (queuePfn phys) = phys.toNat
  exactAlloc : ∀ v ∈ allocateSums q.toNat raw.toNat, v < 4294967296
  /-- if the table and the rings are in physical memory below 4 GB -/
  exactModern : phys.toNat + (vringLayout q.toUInt32).totalMem.toNat ≤ 4294967296 →
    ∀ v ∈ modernSums q.toNat phys.toNat, v < 4294967296

section

variable {q : UInt16} {raw : UInt32}

/-- The addresses in a block that does not wrap, as numbers. -/
theorem toNat_virtQueueAddrs (hraw : InSpace raw (vringLayout q.toUInt32).allocSize.toNat) :
    (virtQueueAddrs q.toUInt32 raw).desc.toNat = roundUp raw.toNat ∧
    (virtQueueAddrs q.toUInt32 raw).avail.toNat = roundUp raw.toNat + 16 * q.toNat ∧
    (virtQueueAddrs q.toUInt32 raw).used.toNat =
      roundUp raw.toNat + roundUp (16 * q.toNat + 2 * (3 + q.toNat)) := by
  unfold InSpace at hraw
  rw [toNat_allocSize, vringSize_eq] at hraw
  have hround := roundUp_spec raw.toNat
  have hused := roundUp_spec (16 * q.toNat + 2 * (3 + q.toNat))
  have hbase : (virtQueueAddrs q.toUInt32 raw).desc.toNat = roundUp raw.toNat := toNat_roundUp (by omega)
  refine ⟨hbase, ?_, ?_⟩
  · show ((virtQueueAddrs q.toUInt32 raw).desc + (vringLayout q.toUInt32).descSize).toNat = _
    rw [UInt32.toNat_add, hbase, toNat_descSize]
    omega
  · show ((virtQueueAddrs q.toUInt32 raw).desc + (vringLayout q.toUInt32).usedOffset).toNat = _
    rw [UInt32.toNat_add, hbase, toNat_usedOffset]
    omega

theorem avail_sub_desc : (virtQueueAddrs q.toUInt32 raw).avail - (virtQueueAddrs q.toUInt32 raw).desc =
    (vringLayout q.toUInt32).descSize := by
  show (virtQueueAddrs q.toUInt32 raw).desc + _ - _ = _
  rw [UInt32.add_comm, UInt32.add_sub_cancel]

theorem used_sub_desc : (virtQueueAddrs q.toUInt32 raw).used - (virtQueueAddrs q.toUInt32 raw).desc =
    (vringLayout q.toUInt32).usedOffset := by
  show (virtQueueAddrs q.toUInt32 raw).desc + _ - _ = _
  rw [UInt32.add_comm, UInt32.add_sub_cancel]

/-- The table and the rings lie one behind the other, from the start of the used memory to its end. -/
theorem regions_ordered (hraw : InSpace raw (vringLayout q.toUInt32).allocSize.toNat) :
    ∀ r ∈ (virtQueueAddrs q.toUInt32 raw).regions q.toNat, (virtQueueAddrs q.toUInt32 raw).desc.toNat ≤ r.1.toNat ∧
      r.1.toNat + r.2 ≤ (virtQueueAddrs q.toUInt32 raw).desc.toNat + (vringLayout q.toUInt32).totalMem.toNat := by
  obtain ⟨hdesc, havail, hused⟩ := toNat_virtQueueAddrs hraw
  have hround := roundUp_spec (16 * q.toNat + 2 * (3 + q.toNat))
  intro r hr
  rw [toNat_totalMem, vringSize_eq, hdesc]
  simp only [VringAddrs.regions, List.mem_cons, List.not_mem_nil, or_false] at hr
  rcases hr with rfl | rfl | rfl
  · simp only [hdesc]; omega
  · simp only [havail]; omega
  · simp only [hused]; omega

theorem regions_apart (hraw : InSpace raw (vringLayout q.toUInt32).allocSize.toNat) :
    ((virtQueueAddrs q.toUInt32 raw).regions q.toNat).Pairwise fun r s => Apart r.1 r.2 s.1 s.2 := by
  obtain ⟨hdesc, havail, hused⟩ := toNat_virtQueueAddrs hraw
  have hround := roundUp_spec (16 * q.toNat + 2 * (3 + q.toNat))
  have hbase := roundUp_spec raw.toNat
  unfold InSpace at hraw
  rw [toNat_allocSize, vringSize_eq] at hraw
  have hspace : ∀ (a : UInt32) (n : Nat), a.toNat + n ≤ 4294967296 → InSpace a n := fun a n h => h
  simp only [VringAddrs.regions, List.pairwise_cons, List.mem_cons, List.not_mem_nil, or_false, forall_eq_or_imp,
    forall_eq, IsEmpty.forall_iff, implies_true, List.Pairwise.nil, and_true]
  refine ⟨⟨?_, ?_⟩, ?_⟩
  · exact apart_of_le (by omega) (hspace _ _ (by omega))
  · exact apart_of_le (by omega) (hspace _ _ (by omega))
  · exact apart_of_le (by omega) (hspace _ _ (by omega))

end

/-- **The three computations of the rings agree**, the table and the rings are apart and inside what was allocated, and
nothing overflows: for every queue size and every block that does not run over the end of the address space. -/
theorem vring_layout_sound (q : UInt16) (raw phys : UInt32)
    (hraw : InSpace raw (vringLayout q.toUInt32).allocSize.toNat) : LayoutSound q raw phys := by
  have hq := q.toNat_lt
  have hordered := regions_ordered hraw
  obtain ⟨hdesc, -, -⟩ := toNat_virtQueueAddrs hraw
  have hround := roundUp_spec (16 * q.toNat + 2 * (3 + q.toNat))
  have hbase := roundUp_spec raw.toNat
  have hnum : raw.toNat + (vringSize q.toNat + 4096) ≤ 4294967296 := by
    rw [← toNat_allocSize]
    exact hraw
  have hmem : InSpace (virtQueueAddrs q.toUInt32 raw).desc (vringLayout q.toUInt32).totalMem.toNat := by
    unfold InSpace
    rw [hdesc, toNat_totalMem]
    omega
  rw [vringSize_eq] at hnum
  refine
    { aligned := by rw [hdesc]; exact hbase.2.2
      disjoint := regions_apart hraw
      inRaw := fun r hr => ?_
      inMem := fun r hr => within_of_le hmem (hordered r hr).1 (hordered r hr).2
      modernAvail := ?_
      modernUsed := ?_
      legacyAvail := ?_
      legacyUsed := ?_
      legacyDesc := fun hpage => ?_
      exactAlloc := ?_
      exactModern := fun hphys => ?_ }
  · obtain ⟨hstart, hend⟩ := hordered r hr
    refine within_of_le hraw (by omega) ?_
    rw [toNat_allocSize, ← toNat_totalMem]
    omega
  · rw [avail_sub_desc]
    show phys + _ - phys = _
    rw [UInt32.add_comm, UInt32.add_sub_cancel]
    rfl
  · rw [used_sub_desc, modern_usedOffset]
    show phys + _ - phys = _
    rw [UInt32.add_comm, UInt32.add_sub_cancel]
  · rw [avail_sub_desc, toNat_descSize]
    rfl
  · rw [used_sub_desc, toNat_usedOffset, deviceUsed, deviceAvail, deviceDesc, ← roundUp_page]
    unfold roundUp
    omega
  · unfold deviceDesc queuePfn
    rw [UInt32.toNat_div]
    show phys.toNat / 4096 * 4096 = phys.toNat
    omega
  · simp only [allocateSums, List.mem_cons, List.not_mem_nil, or_false, forall_eq_or_imp, forall_eq]
    omega
  · rw [toNat_totalMem, vringSize_eq] at hphys
    simp only [modernSums, List.mem_cons, List.not_mem_nil, or_false, forall_eq_or_imp, forall_eq]
    omega

theorem vring_layout_sound_128 : LayoutSound 128 0x10000010 0x30001000 :=
  vring_layout_sound 128 0x10000010 0x30001000 (by unfold InSpace; decide)

end Virtio9P
