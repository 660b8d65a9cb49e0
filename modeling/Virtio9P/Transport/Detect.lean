import Mathlib

/-!
# Finding the modern registers (`pci_modern_detect.c`)

`V9P_DetectModern` walks the capability list of the PCI device. Each vendor capability names a kind of register region,
a BAR and an offset; the last one of a kind whose BAR is available gives the address of that region (`foldl_fields`). A
list can have any length and can run into itself, and the walk is cut off after 32 capabilities (`length_visited_le`).

A `COMMON_CFG` region alone is enough for modern mode, if its `STATUS` register works. So modern mode comes with all
four regions exactly when the other three were found as well (`modern_known_iff`), and else the doorbell, the mount tag
or the interrupt register is looked for at an address that no capability gave (`lone_common`).
-/

namespace Virtio9P

/-! ## The PCI device -/

/-- `cfg_type` of a capability: the kinds of region that are looked for. -/
inductive CfgType where
  | common
  | notify
  | isr
  | device
  deriving DecidableEq

/-- `VIRTIO_PCI_CAP_COMMON_CFG`, `_NOTIFY_CFG`, `_ISR_CFG` and `_DEVICE_CFG`. -/
def CfgType.ofByte (b : UInt8) : Option CfgType :=
  if b = 1 then some .common
  else if b = 2 then some .notify
  else if b = 3 then some .isr
  else if b = 4 then some .device
  else none

/-- `PCI_CAPABILITYID_VENDOR`. -/
def pciCapabilityIdVendor : UInt16 := 0x09

/-- `VIRTIO_CAP_OFF_CFG_TYPE`, `_BAR`, `_OFFSET`, `_LENGTH` and `_NOTIFY_MULT`. -/
def virtioCapOffCfgType : UInt32 := 3
def virtioCapOffBar : UInt32 := 4
def virtioCapOffOffset : UInt32 := 8
def virtioCapOffLength : UInt32 := 12
def virtioCapOffNotifyMult : UInt32 := 16

/-- `VIRTIO_PCI_COMMON_STATUS`. -/
def virtioPciCommonStatus : UInt32 := 0x14

/-- What is asked of the PCI device. A capability is known by its pointer. -/
structure PciDevice (κ : Type) where
  /-- `GetFirstCapability` -/
  firstCapability : Option κ
  /-- `GetNextCapability` -/
  nextCapability : κ → Option κ
  /-- `cap->Type` -/
  capType : κ → UInt16
  /-- `cap->CapOffset` -/
  capOffset : κ → UInt32
  readConfigByte : UInt32 → UInt8
  readConfigLong : UInt32 → UInt32
  /-- `GetResourceRange`: the `BaseAddress` of a BAR, if it is available -/
  resourceRange : UInt8 → Option UInt32
  /-- what a register reads after `VIRTIO_STATUS_ACKNOWLEDGE` was written to it -/
  probe : UInt32 → UInt8

/-- The modern part of `struct V9PHandler`. -/
structure ModernCfg where
  modernMode : Bool
  commonCfgBase : UInt32
  notifyCfgBase : UInt32
  notifyOffMult : UInt32
  isrCfgBase : UInt32
  deviceCfgBase : UInt32
  deriving DecidableEq

/-- The address of a region. -/
def ModernCfg.base (r : ModernCfg) : CfgType → UInt32
  | .common => r.commonCfgBase
  | .notify => r.notifyCfgBase
  | .isr => r.isrCfgBase
  | .device => r.deviceCfgBase

/-- The registers that the probe accesses, in order. -/
inductive MmioAccess where
  | w8 (addr : UInt32) (v : UInt8)
  | r8 (addr : UInt32)
  deriving DecidableEq

def MmioAccess.addr : MmioAccess → UInt32
  | .w8 addr _ => addr
  | .r8 addr => addr

/-! ## `V9P_DetectModern` -/

section Detect

variable {κ : Type} (d : PciDevice κ)

/-- `bar_num` of a capability. -/
def PciDevice.barNum (cap : κ) : UInt8 := d.readConfigByte (d.capOffset cap + virtioCapOffBar)

/-- The address that a capability stands for, unless it is of another vendor or its BAR is not available. -/
def PciDevice.address (cap : κ) : Option UInt32 :=
  if d.capType cap ≠ pciCapabilityIdVendor then none
  else (d.resourceRange (d.barNum cap)).map (· + d.readConfigLong (d.capOffset cap + virtioCapOffOffset))

/-- The kind of region that a capability stands for. -/
def PciDevice.cfgType (cap : κ) : Option CfgType :=
  CfgType.ofByte (d.readConfigByte (d.capOffset cap + virtioCapOffCfgType))

/-- One round of the loop over the capabilities. -/
def PciDevice.visit (r : ModernCfg) (cap : κ) : ModernCfg :=
  match d.address cap with
  | none => r
  | some addr =>
    match d.cfgType cap with
    | some .common => { r with commonCfgBase := addr, modernMode := true }
    | some .notify =>
      { r with
        notifyCfgBase := addr
        notifyOffMult := d.readConfigLong (d.capOffset cap + virtioCapOffNotifyMult) }
    | some .isr => { r with isrCfgBase := addr }
    | some .device => { r with deviceCfgBase := addr }
    | none => r

/-- The loop over the capabilities, with this many rounds left to `guard`. -/
def PciDevice.walk : Nat → Option κ → ModernCfg → ModernCfg
  | 0, _, r => r
  | _ + 1, none, r => r
  | guard + 1, some cap, r => walk guard (d.nextCapability cap) (d.visit r cap)

/-- The fields as `V9P_DetectModern` clears them. -/
def ModernCfg.cleared : ModernCfg := ⟨false, 0, 0, 0, 0, 0⟩

/-- The probe: do writes get through to the `STATUS` register? -/
def PciDevice.probeStatus (r : ModernCfg) : ModernCfg × List MmioAccess :=
  if r.modernMode = true ∧ r.commonCfgBase ≠ 0 then
    let status := r.commonCfgBase + virtioPciCommonStatus
    ({ r with modernMode := d.probe status = 1 }, [.w8 status 0, .w8 status 1, .r8 status, .w8 status 0])
  else (r, [])

/-- `V9P_DetectModern`: the fields that it fills in, and what it does to the registers. It returns `modern_mode`. -/
def v9pDetectModern : Option (PciDevice κ) → ModernCfg × List MmioAccess
  | none => (.cleared, [])
  | some d => d.probeStatus (d.walk 32 d.firstCapability .cleared)

/-- `vq->notify_addr`, to which `VirtQueue_Kick` writes. -/
def ModernCfg.notifyAddr (r : ModernCfg) (qNoff : UInt16) : UInt32 :=
  r.notifyCfgBase + if r.notifyOffMult ≠ 0 then qNoff.toUInt32 * r.notifyOffMult else 0

/-! ## What the walk finds -/

/-- The capabilities that are visited in so many rounds. -/
def PciDevice.visited : Nat → Option κ → List κ
  | 0, _ => []
  | _ + 1, none => []
  | guard + 1, some cap => cap :: visited guard (d.nextCapability cap)

/-- The capabilities that `V9P_DetectModern` visits. -/
def PciDevice.capabilities : List κ := d.visited 32 d.firstCapability

/-- The BARs of which `V9P_DetectModern` takes the resource range: one for each capability that gives an address. -/
def PciDevice.ranges : List UInt8 := (d.capabilities.filter fun cap => (d.address cap).isSome).map d.barNum

/-- The capability gives the region of the kind `t` at the address `addr`. -/
def PciDevice.Gives (t : CfgType) (addr : UInt32) (cap : κ) : Prop :=
  d.address cap = some addr ∧ d.cfgType cap = some t

/-- There is a region of the kind. -/
def PciDevice.Has (t : CfgType) : Prop := ∃ cap ∈ d.capabilities, ∃ addr, d.Gives t addr cap

/-- The address of the `COMMON_CFG` region that a capability gives. -/
def PciDevice.commonAddress (cap : κ) : Option UInt32 := if d.cfgType cap = some .common then d.address cap else none

/-- There is a `COMMON_CFG` region, and `STATUS` in the last one reads what was written to it, or that one is at 0. -/
def PciDevice.SpeaksModern : Prop :=
  ∃ addr, (d.capabilities.filterMap d.commonAddress).getLast? = some addr ∧
    (addr ≠ 0 → d.probe (addr + virtioPciCommonStatus) = 1)

/-- The size of the region that a capability gives. The code does not read it. -/
def PciDevice.regionLength (cap : κ) : Nat := (d.readConfigLong (d.capOffset cap + virtioCapOffLength)).toNat

/-- The address is in the region that a capability gives. -/
def PciDevice.InRegion (cap : κ) (a : UInt32) : Prop :=
  ∃ addr, d.address cap = some addr ∧ ∃ i < d.regionLength cap, a = addr + UInt32.ofNat i

/-- `queue_notify_off * notify_off_mult` of a capability, and `i` bytes more. -/
def PciDevice.doorbellAt (cap : κ) (qNoff : UInt16) (i : Nat) : Nat :=
  qNoff.toNat * (d.readConfigLong (d.capOffset cap + virtioCapOffNotifyMult)).toNat + i

/-- **All regions are known**: each address was given by a capability of the kind, whose BAR is available, and what is
accessed from there on is in its region, as far as the region goes. -/
structure PciDevice.Known (r : ModernCfg) : Prop where
  given : ∀ t, ∃ cap ∈ d.capabilities, d.Gives t (r.base t) cap
  /-- what `V9P_ReadMountTag` reads -/
  tag : ∃ cap ∈ d.capabilities, d.cfgType cap = some .device ∧
    ∀ i < d.regionLength cap, d.InRegion cap (r.deviceCfgBase + UInt32.ofNat i)
  /-- what the interrupt handler reads -/
  interrupt : ∃ cap ∈ d.capabilities, d.cfgType cap = some .isr ∧ (0 < d.regionLength cap → d.InRegion cap r.isrCfgBase)
  /-- what `VirtQueue_Kick` writes -/
  doorbell : ∃ cap ∈ d.capabilities, d.cfgType cap = some .notify ∧ ∀ qNoff, ∀ i < 2,
    d.doorbellAt cap qNoff i < d.regionLength cap → d.InRegion cap (r.notifyAddr qNoff + UInt32.ofNat i)

theorem PciDevice.walk_eq : ∀ (guard : Nat) (cap : Option κ) (r : ModernCfg),
    d.walk guard cap r = (d.visited guard cap).foldl d.visit r
  | 0, _, _ => rfl
  | _ + 1, none, _ => rfl
  | guard + 1, some cap, r => walk_eq guard (d.nextCapability cap) (d.visit r cap)

/-- **The walk is cut off.** -/
theorem PciDevice.length_visited_le : ∀ (guard : Nat) (cap : Option κ), (d.visited guard cap).length ≤ guard
  | 0, _ => le_rfl
  | _ + 1, none => Nat.zero_le _
  | guard + 1, some cap => Nat.succ_le_succ (length_visited_le guard (d.nextCapability cap))

variable {d}

/-- The fields of the kind `t` are as the capability says. -/
def PciDevice.SetBy (d : PciDevice κ) (t : CfgType) (r : ModernCfg) (cap : κ) : Prop :=
  d.Gives t (r.base t) cap ∧
    (t = .notify → r.notifyOffMult = d.readConfigLong (d.capOffset cap + virtioCapOffNotifyMult))

/-- The fields of the kind `t` are the same. -/
def SameFor (t : CfgType) (r r' : ModernCfg) : Prop :=
  r'.base t = r.base t ∧ (t = .notify → r'.notifyOffMult = r.notifyOffMult)

/-- One capability sets the fields of its kind, and leaves those of the other kinds alone. -/
theorem PciDevice.visit_fields (r : ModernCfg) (cap : κ) (t : CfgType) :
    d.SetBy t (d.visit r cap) cap ∨ (∀ addr, ¬ d.Gives t addr cap) ∧ SameFor t r (d.visit r cap) := by
  unfold PciDevice.SetBy PciDevice.Gives PciDevice.visit
  cases haddr : d.address cap with
  | none => exact .inr ⟨fun addr h => absurd h.1 (by simp), rfl, fun _ => rfl⟩
  | some addr =>
    cases htype : d.cfgType cap with
    | none => exact .inr ⟨fun addr h => absurd h.2 (by simp), rfl, fun _ => rfl⟩
    | some u =>
      by_cases hu : u = t
      · subst hu
        left
        cases u <;> simp [ModernCfg.base]
      · right
        refine ⟨fun addr h => hu (Option.some.inj h.2), ?_⟩
        cases u <;> cases t <;> simp_all [SameFor, ModernCfg.base]

/-- **The last capability of a kind gives its fields**, if there is one. -/
theorem PciDevice.foldl_fields (t : CfgType) : ∀ (caps : List κ) (r : ModernCfg),
    (∃ cap ∈ caps, d.SetBy t (caps.foldl d.visit r) cap) ∨
      (∀ cap ∈ caps, ∀ addr, ¬ d.Gives t addr cap) ∧ SameFor t r (caps.foldl d.visit r)
  | [], r => .inr ⟨fun cap h => absurd h List.not_mem_nil, rfl, fun _ => rfl⟩
  | cap :: caps, r => by
    rw [List.foldl_cons]
    rcases foldl_fields t caps (d.visit r cap) with ⟨cap', hmem, hset⟩ | ⟨hnone, hsame⟩
    · exact .inl ⟨cap', List.mem_cons_of_mem cap hmem, hset⟩
    · generalize caps.foldl d.visit (d.visit r cap) = r' at hsame
      rcases d.visit_fields r cap t with ⟨hgives, hmult⟩ | ⟨hno, hkept⟩
      · refine .inl ⟨cap, List.mem_cons_self, ?_, fun ht => (hsame.2 ht).trans (hmult ht)⟩
        rw [hsame.1]
        exact hgives
      · refine .inr ⟨List.forall_mem_cons.mpr ⟨hno, hnone⟩, hsame.1.trans hkept.1, fun ht => ?_⟩
        exact (hsame.2 ht).trans (hkept.2 ht)

/-- One capability and the `COMMON_CFG` region. -/
theorem PciDevice.visit_common (r : ModernCfg) (cap : κ) :
    ((d.visit r cap).commonCfgBase, (d.visit r cap).modernMode) =
      match d.commonAddress cap with
      | some addr => (addr, true)
      | none => (r.commonCfgBase, r.modernMode) := by
  unfold PciDevice.visit PciDevice.commonAddress
  cases d.address cap with
  | none => simp
  | some addr =>
    cases d.cfgType cap with
    | none => rfl
    | some u => cases u <;> rfl

/-- **Modern mode is chosen for a `COMMON_CFG` region**, and the last one counts. -/
theorem PciDevice.foldl_common : ∀ (caps : List κ) (r : ModernCfg),
    ((caps.foldl d.visit r).commonCfgBase, (caps.foldl d.visit r).modernMode) =
      match (caps.filterMap d.commonAddress).getLast? with
      | some addr => (addr, true)
      | none => (r.commonCfgBase, r.modernMode)
  | [], _ => rfl
  | cap :: caps, r => by
    have hvisit := d.visit_common r cap
    rw [List.foldl_cons, foldl_common caps]
    cases haddr : d.commonAddress cap with
    | none =>
      rw [haddr] at hvisit
      rw [List.filterMap_cons_none haddr, hvisit]
    | some addr =>
      rw [haddr] at hvisit
      rw [List.filterMap_cons_some haddr, List.getLast?_cons, hvisit]
      cases (caps.filterMap d.commonAddress).getLast? <;> rfl

/-- The doorbell. -/
theorem ModernCfg.notifyAddr_eq (r : ModernCfg) (qNoff : UInt16) :
    r.notifyAddr qNoff = r.notifyCfgBase + qNoff.toUInt32 * r.notifyOffMult := by
  unfold ModernCfg.notifyAddr
  split
  · rfl
  · rename_i h
    rw [not_not.mp h, UInt32.mul_zero]

/-- The fields when the walk has ended. -/
def PciDevice.found (d : PciDevice κ) : ModernCfg := d.capabilities.foldl d.visit .cleared

theorem detect_eq (d : PciDevice κ) : v9pDetectModern (some d) = d.probeStatus d.found :=
  congrArg d.probeStatus (d.walk_eq 32 d.firstCapability .cleared)

/-- The probe changes nothing but the mode. -/
theorem PciDevice.probeStatus_fields (r : ModernCfg) (t : CfgType) : SameFor t r (d.probeStatus r).1 := by
  unfold PciDevice.probeStatus
  split
  · exact ⟨by cases t <;> rfl, fun _ => rfl⟩
  · exact ⟨rfl, fun _ => rfl⟩

/-- It accesses the `STATUS` register only. -/
theorem PciDevice.probeStatus_accesses {r : ModernCfg} {a : MmioAccess} (h : a ∈ (d.probeStatus r).2) :
    r.modernMode = true ∧ a.addr = r.commonCfgBase + virtioPciCommonStatus := by
  unfold PciDevice.probeStatus at h
  split at h
  · rename_i hfound
    refine ⟨hfound.1, ?_⟩
    simp only [List.mem_cons, List.not_mem_nil, or_false] at h
    rcases h with rfl | rfl | rfl | rfl <;> rfl
  · cases h

/-- A region is there exactly when the fields of the kind were set from a capability. -/
theorem has_iff (d : PciDevice κ) (t : CfgType) :
    d.Has t ↔ ∃ cap ∈ d.capabilities, d.SetBy t (v9pDetectModern (some d)).1 cap := by
  obtain ⟨hbase, hmult⟩ := d.probeStatus_fields d.found t
  rw [← detect_eq] at hbase hmult
  constructor
  · rintro ⟨cap, hmem, addr, hgives⟩
    rcases d.foldl_fields t d.capabilities .cleared with ⟨cap', hmem', hset⟩ | ⟨hnone, -⟩
    · refine ⟨cap', hmem', ?_, fun ht => (hmult ht).trans (hset.2 ht)⟩
      rw [hbase]
      exact hset.1
    · exact absurd hgives (hnone cap hmem addr)
  · rintro ⟨cap, hmem, hset⟩
    exact ⟨cap, hmem, _, hset.1⟩

/-- Modern mode needs a `COMMON_CFG` region. -/
theorem has_common {d : PciDevice κ} {addr : UInt32}
    (h : (d.capabilities.filterMap d.commonAddress).getLast? = some addr) : d.Has .common := by
  obtain ⟨cap, hmem, hcap⟩ := List.mem_filterMap.mp (List.mem_of_getLast? h)
  unfold PciDevice.commonAddress at hcap
  split at hcap
  · rename_i htype
    exact ⟨cap, hmem, addr, hcap, htype⟩
  · cases hcap

theorem found_common (d : PciDevice κ) : (d.found.commonCfgBase, d.found.modernMode) =
    match (d.capabilities.filterMap d.commonAddress).getLast? with
    | some addr => (addr, true)
    | none => (0, false) := PciDevice.foldl_common _ _

/-- **What decides the mode.** -/
theorem modernMode_iff (d : PciDevice κ) : (v9pDetectModern (some d)).1.modernMode = true ↔ d.SpeaksModern := by
  have hfound := found_common d
  rw [detect_eq]
  unfold PciDevice.probeStatus PciDevice.SpeaksModern
  cases hlast : (d.capabilities.filterMap d.commonAddress).getLast? with
  | none =>
    rw [hlast] at hfound
    obtain ⟨-, hmode⟩ := Prod.mk.injEq .. ▸ hfound
    rw [if_neg fun h => absurd (hmode.symm.trans h.1) (by decide), hmode]
    simp
  | some addr =>
    rw [hlast] at hfound
    obtain ⟨hbase, hmode⟩ := Prod.mk.injEq .. ▸ hfound
    simp only [hbase, hmode, true_and, Option.some.injEq, exists_eq_left']
    by_cases hzero : addr = 0
    · rw [if_neg (not_not.mpr hzero), hmode]
      exact ⟨fun _ hne => absurd hzero hne, fun _ => rfl⟩
    · rw [if_pos hzero]
      exact ⟨fun h _ => of_decide_eq_true h, fun h => decide_eq_true (h hzero)⟩

theorem ofNat_doorbellAt (cap : κ) (qNoff : UInt16) (i : Nat) : UInt32.ofNat (d.doorbellAt cap qNoff i) =
    qNoff.toUInt32 * d.readConfigLong (d.capOffset cap + virtioCapOffNotifyMult) + UInt32.ofNat i := by
  have hwiden : UInt32.ofNat qNoff.toNat = qNoff.toUInt32 := UInt32.toNat_inj.mp (by simp)
  unfold PciDevice.doorbellAt
  rw [UInt32.ofNat_add, UInt32.ofNat_mul, UInt32.ofNat_toNat, hwiden]

/-- The regions that are needed. -/
theorem known_iff (d : PciDevice κ) :
    d.Known (v9pDetectModern (some d)).1 ↔ ∀ t, d.Has t := by
  constructor
  · intro hknown t
    obtain ⟨cap, hmem, hgives⟩ := hknown.given t
    exact ⟨cap, hmem, _, hgives⟩
  · intro hhas
    have hset : ∀ t, ∃ cap ∈ d.capabilities, d.SetBy t (v9pDetectModern (some d)).1 cap :=
      fun t => (has_iff d t).mp (hhas t)
    refine ⟨fun t => ?_, ?_, ?_, ?_⟩
    · obtain ⟨cap, hmem, hgives, -⟩ := hset t
      exact ⟨cap, hmem, hgives⟩
    · obtain ⟨cap, hmem, hgives, -⟩ := hset .device
      exact ⟨cap, hmem, hgives.2, fun i hi => ⟨_, hgives.1, i, hi, rfl⟩⟩
    · obtain ⟨cap, hmem, hgives, -⟩ := hset .isr
      exact ⟨cap, hmem, hgives.2, fun hpos => ⟨_, hgives.1, 0, hpos, (UInt32.add_zero _).symm⟩⟩
    · obtain ⟨cap, hmem, hgives, hmult⟩ := hset .notify
      refine ⟨cap, hmem, hgives.2, fun qNoff i _ hin => ⟨_, hgives.1, _, hin, ?_⟩⟩
      rw [ModernCfg.notifyAddr_eq, hmult rfl, ofNat_doorbellAt, UInt32.add_assoc]
      rfl

end Detect

/-- **Modern mode comes with all its regions exactly when the doorbell, the interrupt register and the device registers
were found**, or the device does not speak it. The walk visits 32 capabilities at most, and without a PCI device the
mode is not modern. The probe only accesses the `COMMON_CFG` region. -/
theorem modern_known_iff {κ : Type} (d : PciDevice κ) :
    (((v9pDetectModern (some d)).1.modernMode = true → d.Known (v9pDetectModern (some d)).1) ↔
      (d.SpeaksModern → d.Has .notify ∧ d.Has .isr ∧ d.Has .device)) ∧
    d.capabilities.length ≤ 32 ∧ (v9pDetectModern (none : Option (PciDevice κ))).1.modernMode = false ∧
    ∀ a ∈ (v9pDetectModern (some d)).2, ∃ cap ∈ d.capabilities, ∃ addr, d.Gives .common addr cap ∧
      a.addr = addr + virtioPciCommonStatus := by
  refine ⟨?_, d.length_visited_le 32 _, rfl, fun a ha => ?_⟩
  · rw [modernMode_iff, known_iff]
    constructor
    · intro h hspeaks
      exact ⟨h hspeaks .notify, h hspeaks .isr, h hspeaks .device⟩
    · intro h hspeaks t
      obtain ⟨hnotify, hisr, hdevice⟩ := h hspeaks
      obtain ⟨addr, hlast, -⟩ := hspeaks
      cases t with
      | common => exact has_common hlast
      | notify => exact hnotify
      | isr => exact hisr
      | device => exact hdevice
  · rw [detect_eq] at ha
    obtain ⟨hmode, haddr⟩ := PciDevice.probeStatus_accesses ha
    have hfound := found_common d
    cases hlast : (d.capabilities.filterMap d.commonAddress).getLast? with
    | none =>
      rw [hlast, hmode] at hfound
      cases congrArg Prod.snd hfound
    | some addr =>
      obtain ⟨cap, hmem, hset⟩ := (has_iff d .common).mp (has_common hlast)
      refine ⟨cap, hmem, _, hset.1, ?_⟩
      rw [detect_eq, (d.probeStatus_fields d.found .common).1]
      exact haddr

/-- A device with the given kinds of capabilities, all in one BAR. -/
def listedDevice (kinds : List UInt8) : PciDevice Nat where
  firstCapability := if 0 < kinds.length then some 0 else none
  nextCapability := fun n => if n + 1 < kinds.length then some (n + 1) else none
  capType := fun _ => 0x09
  capOffset := fun n => UInt32.ofNat (32 * n)
  readConfigByte := fun a => if a % 32 = 3 then kinds.getD (a / 32).toNat 0 else 0
  readConfigLong := fun a => a / 32 * 4096
  resourceRange := fun bar => if bar = 0 then some 0x80000000 else none
  probe := fun _ => 1

/-- A device with all four regions. -/
theorem modern_known_four : (v9pDetectModern (some (listedDevice [1, 3, 4, 2]))).1.modernMode = true ∧
    (listedDevice [1, 3, 4, 2]).Known (v9pDetectModern (some (listedDevice [1, 3, 4, 2]))).1 := by
  have hmode : (v9pDetectModern (some (listedDevice [1, 3, 4, 2]))).1.modernMode = true := by decide
  refine ⟨hmode, (modern_known_iff (listedDevice [1, 3, 4, 2])).1.mpr (fun _ => ⟨?_, ?_, ?_⟩) hmode⟩
  · exact ⟨3, by decide, 0x80003000, by decide, by decide⟩
  · exact ⟨1, by decide, 0x80001000, by decide, by decide⟩
  · exact ⟨2, by decide, 0x80002000, by decide, by decide⟩

/-- A `COMMON_CFG` region and no other: the mode is modern, and the doorbell is at address 0, as are the interrupt
register and the mount tag. -/
theorem lone_common : (v9pDetectModern (some (listedDevice [1]))).1 = ⟨true, 0x80000000, 0, 0, 0, 0⟩ ∧
    (v9pDetectModern (some (listedDevice [1]))).1.notifyAddr 0 = 0 ∧
    ¬ (listedDevice [1]).Known (v9pDetectModern (some (listedDevice [1]))).1 := by
  refine ⟨by decide, by decide, fun hknown => ?_⟩
  obtain ⟨cap, hmem, hgives⟩ := hknown.given .notify
  have hcap : cap = 0 := by simpa using (show cap ∈ [0] from hmem)
  rw [hcap] at hgives
  exact absurd hgives.2 (by decide)

end Virtio9P
