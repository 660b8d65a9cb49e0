import Virtio9P.Lib.History
import Virtio9P.Transport.Frame
import Virtio9P.Virtqueue.Layout

/-!
# The registers of the device (`virtio_init.c`, `virtio_irq.c`)

`Virtio9P.Transport.Machine` says what set-up and clean-up do to the driver. Here they are run against the registers:
every access goes to an offset of a region with a width and a value, and is recorded. `Device` is what a device makes of
such a record, and `Device.Allows` is when the VirtIO specification lets a driver make an access: the order of the
`STATUS` bits, features only before they are fixed, rings only before `DRIVER_OK`.

Whatever set-up and clean-up are run in whatever order, every access is allowed but one: to a device that refused the
features `FAILED` is written alone, which takes back the bits that were set. The driver's side is that of
`Virtio9P.Transport.Machine`, and a device that was given a vring knows its table and its rings where they are
(`registers_lawful`).
-/

namespace Virtio9P

open Lib

/-! ## Registers and accesses -/

/-- The I/O ports of a legacy device, the common configuration and the ISR of a modern one. -/
inductive Region where
  | ports
  | commonCfg
  | isrCfg
  deriving DecidableEq

/-- The registers that the driver uses: those of `virtio_pci.h`, then those of `virtio_pci_modern.h`. -/
inductive Register where
  | hostFeatures
  | guestFeatures
  | queuePfn
  | queueNum
  | queueSel
  | status
  | isr
  | commonDfSelect
  | commonDf
  | commonDfSelectG
  | commonDfG
  | commonStatus
  | commonQSelect
  | commonQSize
  | commonQEnable
  | commonQNoff
  | commonQDescLo
  | commonQDescHi
  | commonQAvailLo
  | commonQAvailHi
  | commonQUsedLo
  | commonQUsedHi
  | isrCfg
  deriving DecidableEq

namespace Register

/-- The region of a register, its offset there and its width in bytes. -/
def place : Register → Region × UInt32 × Nat
  | hostFeatures => (.ports, 0x00, 4)
  | guestFeatures => (.ports, 0x04, 4)
  | queuePfn => (.ports, 0x08, 4)
  | queueNum => (.ports, 0x0C, 2)
  | queueSel => (.ports, 0x0E, 2)
  | status => (.ports, 0x12, 1)
  | isr => (.ports, 0x13, 1)
  | commonDfSelect => (.commonCfg, 0x00, 4)
  | commonDf => (.commonCfg, 0x04, 4)
  | commonDfSelectG => (.commonCfg, 0x08, 4)
  | commonDfG => (.commonCfg, 0x0C, 4)
  | commonStatus => (.commonCfg, 0x14, 1)
  | commonQSelect => (.commonCfg, 0x16, 2)
  | commonQSize => (.commonCfg, 0x18, 2)
  | commonQEnable => (.commonCfg, 0x1C, 2)
  | commonQNoff => (.commonCfg, 0x1E, 2)
  | commonQDescLo => (.commonCfg, 0x20, 4)
  | commonQDescHi => (.commonCfg, 0x24, 4)
  | commonQAvailLo => (.commonCfg, 0x28, 4)
  | commonQAvailHi => (.commonCfg, 0x2C, 4)
  | commonQUsedLo => (.commonCfg, 0x30, 4)
  | commonQUsedHi => (.commonCfg, 0x34, 4)
  | isrCfg => (.isrCfg, 0x00, 1)

def all : List Register :=
  [hostFeatures, guestFeatures, queuePfn, queueNum, queueSel, status, isr, commonDfSelect, commonDf, commonDfSelectG,
    commonDfG, commonStatus, commonQSelect, commonQSize, commonQEnable, commonQNoff, commonQDescLo, commonQDescHi,
    commonQAvailLo, commonQAvailHi, commonQUsedLo, commonQUsedHi, isrCfg]

/-- The register at a place. -/
def at? (place : Region × UInt32 × Nat) : Option Register := all.find? fun r => r.place = place

@[simp]
theorem at_place (r : Register) : at? r.place = some r := by cases r <;> rfl

end Register

/-- An access to the device: `mmio_w8` and so on, or `OutByte` and so on. -/
inductive Access where
  | write (place : Region × UInt32 × Nat) (value : UInt32)
  | read (place : Region × UInt32 × Nat) (value : UInt32)
  deriving DecidableEq

/-! ## The device's side -/

/-- What a device makes of the accesses: what it was told, and what it has shown to the driver. -/
structure Device where
  status : UInt8 := 0
  /-- the word of its own features that it shows -/
  featureSelect : UInt32 := 0
  /-- the word of the driver's features that is written -/
  driverSelect : UInt32 := 0
  offeredLo : UInt32 := 0
  offeredHi : UInt32 := 0
  acceptedLo : UInt32 := 0
  acceptedHi : UInt32 := 0
  queueSelect : UInt32 := 0
  /-- the size of queue 0 -/
  size : UInt16 := 0
  pfn : UInt32 := 0
  descLo : UInt32 := 0
  descHi : UInt32 := 0
  availLo : UInt32 := 0
  availHi : UInt32 := 0
  usedLo : UInt32 := 0
  usedHi : UInt32 := 0
  /-- queue 0 is enabled -/
  enabled : Bool := false
  deriving DecidableEq

namespace Device

/-- The bit of `STATUS` is set. -/
def Has (d : Device) (bit : UInt8) : Prop := d.status &&& bit ≠ 0

instance (d : Device) (bit : UInt8) : Decidable (d.Has bit) := inferInstanceAs (Decidable (_ ≠ _))

/-- The registers of a queue are those of the queue that is selected; only queue 0 is used. -/
def onQueue0 (d : Device) (f : Device → Device) : Device := if d.queueSelect = 0 then f d else d

/-- The driver writes a register. The value 0 in `STATUS` resets the device; a page frame number enables the queue of a
legacy device. -/
def put (d : Device) (v : UInt32) : Register → Device
  | .status | .commonStatus => if v = 0 then {} else { d with status := v.toUInt8 }
  | .guestFeatures => { d with acceptedLo := v }
  | .commonDfSelect => { d with featureSelect := v }
  | .commonDfSelectG => { d with driverSelect := v }
  | .commonDfG =>
    if d.driverSelect = 0 then { d with acceptedLo := v }
    else if d.driverSelect = 1 then { d with acceptedHi := v }
    else d
  | .queueSel | .commonQSelect => { d with queueSelect := v }
  | .queuePfn => d.onQueue0 fun d => { d with pfn := v, enabled := v ≠ 0 }
  | .commonQDescLo => d.onQueue0 fun d => { d with descLo := v }
  | .commonQDescHi => d.onQueue0 fun d => { d with descHi := v }
  | .commonQAvailLo => d.onQueue0 fun d => { d with availLo := v }
  | .commonQAvailHi => d.onQueue0 fun d => { d with availHi := v }
  | .commonQUsedLo => d.onQueue0 fun d => { d with usedLo := v }
  | .commonQUsedHi => d.onQueue0 fun d => { d with usedHi := v }
  | .commonQEnable => d.onQueue0 fun d => { d with enabled := v = 1 }
  | .hostFeatures | .queueNum | .isr | .commonDf | .commonQSize | .commonQNoff | .isrCfg => d

/-- The driver reads a register. -/
def shown (d : Device) (v : UInt32) : Register → Device
  | .hostFeatures => { d with offeredLo := v }
  | .commonDf =>
    if d.featureSelect = 0 then { d with offeredLo := v }
    else if d.featureSelect = 1 then { d with offeredHi := v }
    else d
  | .queueNum | .commonQSize => d.onQueue0 fun d => { d with size := v.toUInt16 }
  | _ => d

/-- One access; at a place where there is no register nothing happens. -/
def step (d : Device) : Access → Device
  | .write place v => ((Register.at? place).map (d.put v)).getD d
  | .read place v => ((Register.at? place).map (d.shown v)).getD d

/-- May `STATUS` be written? 0 always; otherwise no bit is taken back, and `DRIVER_OK` needs the queue. -/
def MayChangeStatus (d : Device) (v : UInt8) : Prop :=
  v = 0 ∨ d.status &&& v = d.status ∧ (v &&& virtioStatusDriverOk ≠ 0 → d.enabled = true)

/-- May the driver write the register? -/
def MayWrite (d : Device) (v : UInt32) : Register → Prop
  | .status => d.MayChangeStatus v.toUInt8
  | .commonStatus => d.MayChangeStatus v.toUInt8 ∧
      (v.toUInt8 &&& virtioStatusFeaturesOk ≠ 0 → d.Has virtioStatusDriver) ∧
      (v.toUInt8 &&& virtioStatusDriverOk ≠ 0 → d.Has virtioStatusFeaturesOk)
  | .guestFeatures => d.Has virtioStatusDriver ∧ ¬ d.Has virtioStatusDriverOk ∧ v &&& d.offeredLo = v
  | .commonDfSelect | .commonDfSelectG => d.Has virtioStatusDriver ∧ v ≤ 1
  | .commonDfG => d.Has virtioStatusDriver ∧ ¬ d.Has virtioStatusFeaturesOk ∧
      v &&& (if d.driverSelect = 0 then d.offeredLo else d.offeredHi) = v
  | .queueSel => d.Has virtioStatusDriver
  | .commonQSelect => d.Has virtioStatusFeaturesOk
  | .queuePfn => d.Has virtioStatusDriver ∧ ¬ d.Has virtioStatusDriverOk ∧ d.queueSelect = 0 ∧ d.size ≠ 0
  | .commonQDescLo | .commonQDescHi | .commonQAvailLo | .commonQAvailHi | .commonQUsedLo | .commonQUsedHi =>
      d.Has virtioStatusFeaturesOk ∧ ¬ d.Has virtioStatusDriverOk ∧ d.queueSelect = 0 ∧ d.size ≠ 0 ∧ d.enabled = false
  | .commonQEnable => d.Has virtioStatusFeaturesOk ∧ ¬ d.Has virtioStatusDriverOk ∧ d.queueSelect = 0 ∧ d.size ≠ 0 ∧
      v = 1
  | .hostFeatures | .queueNum | .isr | .commonDf | .commonQSize | .commonQNoff | .isrCfg => False

/-- May the driver read the register? -/
def MayRead (d : Device) : Register → Prop
  | .hostFeatures | .commonDf => d.Has virtioStatusDriver
  | .queueNum | .commonQSize | .commonQNoff => d.Has virtioStatusDriver ∧ d.queueSelect = 0
  | .status | .isr | .commonStatus | .isrCfg => True
  | _ => False

/-- The access is to a register, with a value that fits, at a time when it may be made. -/
def Allows (d : Device) : Access → Prop
  | .write place v => ∃ r, Register.at? place = some r ∧ v.toNat < 2 ^ (8 * place.2.2) ∧ d.MayWrite v r
  | .read place v => ∃ r, Register.at? place = some r ∧ v.toNat < 2 ^ (8 * place.2.2) ∧ d.MayRead r

/-- The device after a record of accesses, the newest first. -/
def after : List Access → Device
  | [] => {}
  | a :: past => (after past).step a

/-- Where the device has the table and the two rings of queue 0. -/
def rings (d : Device) (modern : Bool) : Nat × Nat × Nat :=
  if modern then
    (d.descLo.toNat + 2 ^ 32 * d.descHi.toNat, d.availLo.toNat + 2 ^ 32 * d.availHi.toNat,
      d.usedLo.toNat + 2 ^ 32 * d.usedHi.toNat)
  else (deviceDesc d.pfn, deviceAvail d.pfn d.size.toNat, deviceUsed d.pfn d.size.toNat)

/-- Queue 0 is in use, in the block at `phys`: the table at its start, the avail ring behind it, and the used ring at
the next page. The features are those of `MOUNT_TAG` and `VERSION_1` that are offered. -/
structure Serves (d : Device) (modern : Bool) (phys : UInt32) : Prop where
  running : d.Has virtioStatusDriverOk
  enabled : d.enabled = true
  size : d.size ≠ 0
  rings : d.rings modern = (phys.toNat, phys.toNat + 16 * d.size.toNat,
    phys.toNat + roundUp (16 * d.size.toNat + 2 * (3 + d.size.toNat)))
  lo : d.acceptedLo = d.offeredLo &&& 1
  hi : d.acceptedHi = d.offeredHi &&& 1

end Device

/-- `STATUS` was read without `FEATURES_OK`, and the driver gives up: it writes `FAILED` alone. -/
structure GivesUp (a : Access) (past : List Access) : Prop where
  failed : a = .write Register.commonStatus.place virtioStatusFailed.toUInt32
  driver : (Device.after past).Has virtioStatusDriver
  refused : ∃ v : UInt8, v &&& virtioStatusFeaturesOk = 0 ∧
    past.head? = some (.read Register.commonStatus.place v.toUInt32)

/-- Every access was allowed when it was made, unless it gives up. -/
def Lawful (trace : List Access) : Prop := Always (fun a past => ¬ (Device.after past).Allows a ↔ GivesUp a past) trace

/-! ## The driver's side -/

/-- The machine, with a record of the accesses, the newest first. -/
structure Bus where
  m : Machine
  trace : List Access

def Bus.boot : Bus := ⟨.boot, []⟩

/-- What the registers hold that `World` does not say, by the time. -/
structure Panel where
  hostFeatures : Nat → UInt32
  /-- the two words of features of a modern device -/
  devFeatLo : Nat → UInt32
  devFeatHi : Nat → UInt32
  qNoff : Nat → UInt16
  finalStatus : Nat → UInt8
  isr : Nat → UInt8
  /-- is there an `isr_cfg_base`? -/
  isrCfg : Bool

/-- What only the driver does. -/
def onDriver {α : Type} (x : StateM Machine α) : StateM Bus α := fun b => ((x b.m).1, { b with m := (x b.m).2 })

/-- Write a register. -/
def regWrite (r : Register) (v : UInt32) : StateM Bus Unit :=
  modify fun b => { b with trace := .write r.place v :: b.trace }

/-- Read a register that holds the value. -/
def regRead (r : Register) (v : UInt32) : StateM Bus Unit :=
  modify fun b => { b with trace := .read r.place v :: b.trace }

/-- The `STATUS` register of the mode. -/
def statusRegister (modern : Bool) : Register := if modern then .commonStatus else .status

/-- Write `STATUS`. -/
def regWriteStatus (modern : Bool) (v : UInt8) : StateM Bus Unit := do
  regWrite (statusRegister modern) v.toUInt32
  onDriver (writeStatus v)

section Driver

variable (world : World) (panel : Panel)

/-- Read `STATUS`. -/
def regReadStatus (modern : Bool) : StateM Bus UInt8 := do
  let v := world.readStatus (← onDriver tick)
  regRead (statusRegister modern) v.toUInt32
  pure v

/-- Poll until `STATUS` reads 0, this many times at most. -/
def regAwaitReset (modern : Bool) : Nat → StateM Bus Bool
  | 0 => pure false
  | tries + 1 => do
    if (← regReadStatus world modern) = 0 then pure true else regAwaitReset modern tries

/-- Read a register with a value by the time; the value. -/
def regAsk (r : Register) (answer : Nat → UInt32) : StateM Bus UInt32 := do
  let v := answer (← get).m.now
  regRead r v
  pure v

/-- The features, in the legacy path of `V9P_InitVirtIO`. -/
def negotiateLegacy : StateM Bus Unit := do
  let hostFeatures ← regAsk .hostFeatures panel.hostFeatures
  regWrite .guestFeatures (hostFeatures &&& 1)

/-- The features, in `V9P_InitVirtIO_Modern`. -/
def negotiateModern : StateM Bus Unit := do
  regWrite .commonDfSelect 0
  let devFeatLo ← regAsk .commonDf panel.devFeatLo
  regWrite .commonDfSelect 1
  let devFeatHi ← regAsk .commonDf panel.devFeatHi
  regWrite .commonDfSelectG 0
  regWrite .commonDfG (devFeatLo &&& 1)
  regWrite .commonDfSelectG 1
  regWrite .commonDfG (devFeatHi &&& 1)

/-- Where the table and the rings are, for a legacy device. -/
def tellPfn (block : Nat) : StateM Bus Unit := regWrite .queuePfn (queuePfn (world.phys (.vring block)))

/-- Where they are, for a modern one. -/
def tellAddrs (qMax : UInt16) (block : Nat) : StateM Bus Unit := do
  let addrs := modernAddrs (world.phys (.vring block)) qMax
  regWrite .commonQDescLo addrs.desc
  regWrite .commonQDescHi 0
  regWrite .commonQAvailLo addrs.avail
  regWrite .commonQAvailHi 0
  regWrite .commonQUsedLo addrs.used
  regWrite .commonQUsedHi 0
  regWrite .commonQEnable 1
  let _ ← regAsk .commonQNoff fun t => (panel.qNoff t).toUInt32

def tellRings (modern : Bool) (qMax : UInt16) (block : Nat) : StateM Bus Unit :=
  if modern then tellAddrs world panel qMax block else tellPfn world block

/-- Select queue 0 and read its size. -/
def regQueueSize (modern : Bool) : StateM Bus UInt16 := do
  regWrite (if modern then .commonQSelect else .queueSel) 0
  let qMax := world.queueSize (← onDriver tick)
  regRead (if modern then .commonQSize else .queueNum) qMax.toUInt32
  pure qMax

/-- The part of `V9P_InitVirtIO` from the size of the queue on. -/
def regSetupQueue (modern : Bool) (driverOk : UInt8) : StateM Bus Bool := do
  let qMax ← regQueueSize world modern
  if qMax = 0 then pure false
  else
    match ← onDriver (allocateQueue world qMax.toNat) with
    | none => pure false
    | some q => do
      let vringEntries ← onDriver (startDMA world (.vring q.block) q.memSize)
      if vringEntries = 0 then do
        onDriver (virtQueueFree q)
        pure false
      else if 1 < vringEntries then do
        onDriver (noteMemory (.endDMA (.vring q.block) q.memSize))
        onDriver (virtQueueFree q)
        pure false
      else if ← onDriver (grant world) then do
        tellRings world panel modern qMax q.block
        onDriver (modify fun m =>
          { m with
            programmed := some q.block
            vq := some { q with dmaEntries := vringEntries, traffic := .init qMax.toNat modern } })
        regWriteStatus modern driverOk
        let _ ← regAsk (statusRegister modern) fun t => (panel.finalStatus t).toUInt32
        pure true
      else do
        onDriver (noteMemory (.endDMA (.vring q.block) q.memSize))
        onDriver (virtQueueFree q)
        pure false

/-- `V9P_InitVirtIO_Modern`. -/
def regInitModern : StateM Bus Bool := do
  regWriteStatus true 0
  if ← regAwaitReset world true 1000 then do
    regWriteStatus true virtioStatusAcknowledge
    regWriteStatus true (virtioStatusAcknowledge ||| virtioStatusDriver)
    negotiateModern panel
    regWriteStatus true (virtioStatusAcknowledge ||| virtioStatusDriver ||| virtioStatusFeaturesOk)
    if (← regReadStatus world true) &&& virtioStatusFeaturesOk = 0 then do
      regWriteStatus true virtioStatusFailed
      pure false
    else
      regSetupQueue world panel true
        (virtioStatusAcknowledge ||| virtioStatusDriver ||| virtioStatusFeaturesOk ||| virtioStatusDriverOk)
  else pure false

/-- The legacy path of `V9P_InitVirtIO`, which reads the ISR once to clear an interrupt that is pending. -/
def regInitLegacy : StateM Bus Bool := do
  if world.bar0 then do
    regWriteStatus false 0
    if ← regAwaitReset world false 1000 then do
      let _ ← regAsk .isr fun t => (panel.isr t).toUInt32
      regWriteStatus false virtioStatusAcknowledge
      regWriteStatus false (virtioStatusAcknowledge ||| virtioStatusDriver)
      negotiateLegacy panel
      regSetupQueue world panel false (virtioStatusAcknowledge ||| virtioStatusDriver ||| virtioStatusDriverOk)
    else pure false
  else pure false

/-- `V9P_InitVirtIO`. -/
def regInit : StateM Bus Bool := do
  let ok ← if world.modern then regInitModern world panel else regInitLegacy world panel
  onDriver (noteTransport (.init ok))
  pure ok

/-- The device is reset by `V9P_CleanupVirtIO`. -/
def regQuiesce : StateM Bus Unit :=
  if world.modern then regWriteStatus true 0 else if world.bar0 then regWriteStatus false 0 else pure ()

/-- `V9P_CleanupVirtIO`. -/
def regCleanup : StateM Bus Unit := do
  regQuiesce world
  onDriver do
    match (← get).vq with
    | none => pure ()
    | some q => do
      virtQueueFree q
      modify fun m => { m with vq := none }
    noteTransport .cleanup

/-- The ISR is read by `V9P_RemoveInterrupt`. -/
def regIsr : StateM Bus Unit := do
  if world.modern then
    if panel.isrCfg then
      let _ ← regAsk .isrCfg fun t => (panel.isr t).toUInt32
  else if world.bar0 then
    let _ ← regAsk .isr fun t => (panel.isr t).toUInt32

/-- `V9P_RemoveInterrupt`. -/
def regRemoveInterrupt : StateM Bus Unit := do
  if (← get).m.irqInstalled then do
    regIsr world panel
    regQuiesce world
    onDriver do
      modify fun m => { m with irqInstalled := false }
      noteTransport .removeInterrupt

/-- What the handler does to the device. -/
inductive Errand where
  | init
  | cleanup
  | installInterrupt
  | removeInterrupt
  deriving DecidableEq

def Errand.onBus : Errand → StateM Bus Unit
  | .init => do let _ ← regInit world panel
  | .cleanup => regCleanup world
  | .installInterrupt => do let _ ← onDriver (v9pInstallInterrupt world)
  | .removeInterrupt => regRemoveInterrupt world panel

def Errand.onMachine : Errand → StateM Machine Unit
  | .init => do let _ ← (v9pInitVirtio world)
  | .cleanup => v9pCleanupVirtio world
  | .installInterrupt => do let _ ← v9pInstallInterrupt world
  | .removeInterrupt => v9pRemoveInterrupt world

/-- One after the other. -/
def errandsOnBus : List Errand → StateM Bus Unit
  | [] => pure ()
  | e :: es => do
    e.onBus world panel
    errandsOnBus es

def errandsOnMachine : List Errand → StateM Machine Unit
  | [] => pure ()
  | e :: es => do
    e.onMachine world
    errandsOnMachine es

end Driver

/-! ## The driver's side is the machine -/

/-- Without the registers, `x` is `y`. -/
def Projects {α : Type} (x : StateM Bus α) (y : StateM Machine α) : Prop :=
  ∀ b, (x b).1 = (y b.m).1 ∧ (x b).2.m = (y b.m).2

section Projects

variable {α β : Type} {x : StateM Bus α} {y : StateM Machine α} {world : World} {panel : Panel}

theorem Projects.bind {f : α → StateM Bus β} {g : α → StateM Machine β} (hx : Projects x y)
    (hf : ∀ a, Projects (f a) (g a)) : Projects (x >>= f) (y >>= g) := by
  intro b
  obtain ⟨hval, hm⟩ := hx b
  have h := hf (x b).1 (x b).2
  rw [hm, hval] at h
  show (f (x b).1 (x b).2).1 = (g (y b.m).1 (y b.m).2).1 ∧ (f (x b).1 (x b).2).2.m = (g (y b.m).1 (y b.m).2).2
  rw [hval]
  exact h

theorem Projects.bindAnswer {γ : Type} {x : StateM Bus β} {y : StateM Machine γ} {answer : γ → β}
    {f : β → StateM Bus α} {g : γ → StateM Machine α} (hx : Projects x (do return answer (← y)))
    (hf : ∀ c, Projects (f (answer c)) (g c)) : Projects (x >>= f) (y >>= g) := by
  intro b
  obtain ⟨hval, hm⟩ := hx b
  have h := hf (y b.m).1 (x b).2
  rw [hm] at h
  show (f (x b).1 (x b).2).1 = _ ∧ (f (x b).1 (x b).2).2.m = _
  rw [hval]
  exact h

theorem Projects.ite {c : Prop} [Decidable c] {x' : StateM Bus α} {y' : StateM Machine α} (hx : Projects x y)
    (hx' : Projects x' y') : Projects (if c then x else x') (if c then y else y') := by
  split
  · exact hx
  · exact hx'

theorem projects_pure (a : α) : Projects (pure a : StateM Bus α) (pure a) := fun _ => ⟨rfl, rfl⟩

theorem projects_onDriver (y : StateM Machine α) : Projects (onDriver y) y := fun _ => ⟨rfl, rfl⟩

/-- What only concerns the registers is not seen. -/
theorem Projects.after {x : StateM Bus β} {b : β} {f : β → StateM Bus α} (hx : Projects x (pure b))
    (hf : Projects (f b) y) : Projects (x >>= f) y := by
  intro s
  obtain ⟨hval, hm⟩ := hx s
  have h := hf (x s).2
  rw [hm] at h
  show (f (x s).1 (x s).2).1 = _ ∧ (f (x s).1 (x s).2).2.m = _
  rw [hval]
  exact h

theorem projects_regWrite (r : Register) (v : UInt32) : Projects (regWrite r v) (pure ()) := fun _ => ⟨rfl, rfl⟩

theorem projects_regRead (r : Register) (v : UInt32) : Projects (regRead r v) (pure ()) := fun _ => ⟨rfl, rfl⟩

/-- A question that nothing depends on. -/
theorem Projects.afterAsk {r : Register} {answer : Nat → UInt32} {f : UInt32 → StateM Bus α}
    (hf : ∀ v, Projects (f v) y) : Projects (regAsk r answer >>= f) y := fun b => hf (answer b.m.now) _

theorem projects_regWriteStatus (modern : Bool) (v : UInt8) : Projects (regWriteStatus modern v) (writeStatus v) :=
  (projects_regWrite _ _).after (projects_onDriver _)

theorem projects_regReadStatus (modern : Bool) :
    Projects (regReadStatus world modern) (do return world.readStatus (← tick)) :=
  (projects_onDriver tick).bind fun _ => (projects_regRead _ _).after (projects_pure _)

theorem projects_regAwaitReset (modern : Bool) :
    ∀ tries, Projects (regAwaitReset world modern tries) (awaitReset world tries)
  | 0 => projects_pure _
  | tries + 1 => (projects_regReadStatus modern).bind fun _ =>
    .ite (projects_pure _) (projects_regAwaitReset modern tries)

theorem projects_negotiateLegacy : Projects (negotiateLegacy panel) (pure ()) :=
  .afterAsk fun _ => projects_regWrite _ _

theorem projects_negotiateModern : Projects (negotiateModern panel) (pure ()) := by
  refine (projects_regWrite _ _).after <| .afterAsk fun _ => ?_
  refine (projects_regWrite _ _).after <| .afterAsk fun _ => ?_
  exact (projects_regWrite _ _).after <| (projects_regWrite _ _).after <| (projects_regWrite _ _).after <|
    projects_regWrite _ _

theorem projects_tellAddrs (qMax : UInt16) (block : Nat) : Projects (tellAddrs world panel qMax block) (pure ()) := by
  iterate 7 refine (projects_regWrite _ _).after ?_
  exact .afterAsk fun _ => projects_pure _

theorem projects_tellRings (modern : Bool) (qMax : UInt16) (block : Nat) :
    Projects (tellRings world panel modern qMax block) (pure ()) := by
  cases modern with
  | true => exact projects_tellAddrs qMax block
  | false => exact projects_regWrite _ _

theorem projects_regQueueSize (modern : Bool) :
    Projects (regQueueSize world modern) (do return world.queueSize (← tick)) :=
  (projects_regWrite _ _).after <| (projects_onDriver tick).bind fun _ =>
    (projects_regRead _ _).after (projects_pure _)

theorem projects_regSetupQueue (modern : Bool) (driverOk : UInt8) :
    Projects (regSetupQueue world panel modern driverOk) (setupQueue world modern driverOk) := by
  refine (projects_regQueueSize modern).bindAnswer fun t => .ite (projects_pure _) ?_
  refine (projects_onDriver _).bind fun got => ?_
  cases got with
  | none => exact projects_pure _
  | some q =>
    have hgive : ∀ op, Projects (do onDriver (noteMemory op); onDriver (virtQueueFree q); pure false)
        (do noteMemory op; virtQueueFree q; pure false) := fun op =>
      (projects_onDriver _).bind fun _ => (projects_onDriver _).bind fun _ => projects_pure _
    refine (projects_onDriver _).bind fun n => .ite ?_ <| .ite (hgive _) ?_
    · exact (projects_onDriver _).bind fun _ => projects_pure _
    · refine (projects_onDriver _).bind fun _ => .ite ?_ (hgive _)
      exact (projects_tellRings _ _ _).after <| (projects_onDriver _).bind fun _ =>
        (projects_regWriteStatus _ _).bind fun _ => .afterAsk fun _ => projects_pure _

theorem projects_regInitModern : Projects (regInitModern world panel) (v9pInitVirtioModern world) := by
  refine (projects_regWriteStatus _ _).bind fun _ => ?_
  refine (projects_regAwaitReset _ _).bind fun _ => .ite ?_ (projects_pure _)
  refine (projects_regWriteStatus _ _).bind fun _ => (projects_regWriteStatus _ _).bind fun _ => ?_
  refine projects_negotiateModern.after <| (projects_regWriteStatus _ _).bind fun _ => ?_
  refine (projects_regReadStatus _).bind fun _ => .ite ?_ (projects_regSetupQueue _ _)
  exact (projects_regWriteStatus _ _).bind fun _ => projects_pure _

theorem projects_regInitLegacy : Projects (regInitLegacy world panel) (v9pInitVirtioLegacy world) := by
  refine .ite ?_ (projects_pure _)
  refine (projects_regWriteStatus _ _).bind fun _ => ?_
  refine (projects_regAwaitReset _ _).bind fun _ => .ite ?_ (projects_pure _)
  refine .afterAsk fun _ => ?_
  refine (projects_regWriteStatus _ _).bind fun _ => (projects_regWriteStatus _ _).bind fun _ => ?_
  exact projects_negotiateLegacy.after <| projects_regSetupQueue _ _

theorem projects_regInit : Projects (regInit world panel) (v9pInitVirtio world) := by
  have hnote : ∀ ok, Projects (do onDriver (noteTransport (.init ok)); pure ok)
      (do noteTransport (.init ok); pure ok) := fun _ =>
    (projects_onDriver _).bind fun _ => projects_pure _
  unfold regInit v9pInitVirtio
  exact .ite (projects_regInitModern.bind hnote) (projects_regInitLegacy.bind hnote)

theorem projects_regQuiesce : Projects (regQuiesce world) (quiesce world) := by
  unfold regQuiesce quiesce
  cases world.modern with
  | true => exact projects_regWriteStatus _ _
  | false =>
    cases world.bar0 with
    | true => exact projects_regWriteStatus _ _
    | false => exact projects_pure _

theorem projects_regIsr : Projects (regIsr world panel) (pure ()) := by
  unfold regIsr
  split
  · split
    · exact .afterAsk fun _ => projects_pure _
    · exact projects_pure _
  · split
    · exact .afterAsk fun _ => projects_pure _
    · exact projects_pure _

theorem projects_regRemoveInterrupt :
    Projects (regRemoveInterrupt world panel) (v9pRemoveInterrupt world) := by
  have hget : Projects (do return (← get).m) (get : StateM Machine Machine) := fun _ => ⟨rfl, rfl⟩
  change Projects ((do return (← get).m) >>= fun m => if m.irqInstalled then _ else pure ()) _
  refine hget.bind fun _ => .ite ?_ (projects_pure _)
  exact projects_regIsr.after (projects_regQuiesce.bind fun _ => projects_onDriver _)

/-- **Run against the registers, set-up and clean-up do to the driver what they do without them.** -/
theorem projects_errands : ∀ es, Projects (errandsOnBus world panel es) (errandsOnMachine world es)
  | [] => projects_pure _
  | e :: es => by
    refine Projects.bind ?_ fun _ => projects_errands es
    cases e with
    | init => exact projects_regInit.bind fun _ => projects_pure _
    | cleanup => exact projects_regQuiesce.bind fun _ => projects_onDriver _
    | installInterrupt => exact (projects_onDriver _).bind fun _ => projects_pure _
    | removeInterrupt => exact projects_regRemoveInterrupt

end Projects

/-! ## Every access but one is allowed -/

/-- To give up is not allowed: `DRIVER` is taken back. -/
theorem GivesUp.not_allowed {a : Access} {past : List Access} (h : GivesUp a past) :
    ¬ (Device.after past).Allows a := by
  obtain ⟨rfl, hdriver, -⟩ := h
  rintro ⟨r, hr, -, hmay⟩
  obtain rfl : Register.commonStatus = r := Option.some.inj ((Register.at_place _).symm.trans hr)
  rcases hmay.1 with hzero | ⟨hkeep, -⟩
  · exact absurd hzero (by decide)
  · refine hdriver ?_
    rw [← hkeep, UInt8.and_assoc]
    exact UInt8.and_zero

theorem Lawful.allowed {a : Access} {past : List Access} (h : (Device.after past).Allows a) (hpast : Lawful past) :
    Lawful (a :: past) := ⟨⟨fun hno => absurd h hno, GivesUp.not_allowed⟩, hpast⟩

theorem Lawful.givesUp {a : Access} {past : List Access} (h : GivesUp a past) (hpast : Lawful past) :
    Lawful (a :: past) := ⟨⟨fun _ => h, fun _ => h.not_allowed⟩, hpast⟩

/-- The record is lawful and has led the device to `d`; the driver knows its status, and that it has the vring `p`. -/
structure Bus.Stands (d : Device) (p : Option Nat) (b : Bus) : Prop where
  lawful : Lawful b.trace
  device : Device.after b.trace = d
  status : b.m.status = d.status
  programmed : b.m.programmed = p

/-- The driver has given the device a vring, or has not. -/
structure Device.Mirrors (d : Device) (world : World) (p : Option Nat) : Prop where
  without : p = none → d.enabled = false ∧ ¬ d.Has virtioStatusDriverOk
  given : ∀ n, p = some n → d.Serves world.modern (world.phys (.vring n))

/-- Every access was allowed, and the device is as the driver has it: it has the status that the driver wrote last, and
it runs on the vring that the driver gave it, or has none and does not run. -/
structure Bus.Sound (world : World) (b : Bus) : Prop where
  lawful : Lawful b.trace
  status : (Device.after b.trace).status = b.m.status
  mirrors : (Device.after b.trace).Mirrors world b.m.programmed

theorem Bus.Stands.sound {world : World} {d : Device} {p : Option Nat} {b : Bus} (hb : b.Stands d p)
    (hm : d.Mirrors world p) : b.Sound world := by
  obtain ⟨hlaw, rfl, hs, rfl⟩ := hb
  exact ⟨hlaw, hs.symm, hm⟩

section Rules

variable {α : Type} {d d' : Device} {p : Option Nat} {modern : Bool} {v : UInt8} {world : World} {panel : Panel}

/-- `x` leaves what the driver knows of the device. -/
def Aside (x : StateM Machine α) : Prop := ∀ m, (x m).2.status = m.status ∧ (x m).2.programmed = m.programmed

theorem Aside.bind {β : Type} {x : StateM Machine α} {f : α → StateM Machine β} (hx : Aside x)
    (hf : ∀ a, Aside (f a)) : Aside (x >>= f) := fun m => ⟨(hf _ _).1.trans (hx m).1, (hf _ _).2.trans (hx m).2⟩

theorem Offline.aside {x : StateM Machine α} (hx : Offline x) : Aside x := fun m => by
  have h := hx m
  simp only [Machine.bus, Prod.mk.injEq] at h
  exact ⟨h.1, h.2.1⟩

theorem sound_onDriver {x : StateM Machine α} (hx : Aside x) :
    Ends (Bus.Sound world) (onDriver x) fun _ => Bus.Sound world := by
  rintro b ⟨hlaw, hstatus, hm⟩
  refine ⟨hlaw, hstatus.trans (hx b.m).1.symm, ?_⟩
  show (Device.after b.trace).Mirrors world (x b.m).2.programmed
  rw [(hx b.m).2]
  exact hm

theorem stands_regWrite {r : Register} {v : UInt32} (hfit : v.toNat < 2 ^ (8 * r.place.2.2)) (hmay : d.MayWrite v r)
    (hput : d.put v r = d') (hstatus : d'.status = d.status) :
    Ends (Bus.Stands d p) (regWrite r v) fun _ => Bus.Stands d' p := by
  rintro b ⟨hlaw, rfl, hs, hp⟩
  refine ⟨.allowed ⟨r, r.at_place, hfit, hmay⟩ hlaw, ?_, hs.trans hstatus.symm, hp⟩
  show ((Register.at? r.place).map _).getD _ = _
  rw [Register.at_place, ← hput]
  rfl

theorem stands_regRead {r : Register} {v : UInt32} (hfit : v.toNat < 2 ^ (8 * r.place.2.2)) (hmay : d.MayRead r)
    (hshown : d.shown v r = d') (hstatus : d'.status = d.status) :
    Ends (Bus.Stands d p) (regRead r v) fun _ => Bus.Stands d' p := by
  rintro b ⟨hlaw, rfl, hs, hp⟩
  refine ⟨.allowed ⟨r, r.at_place, hfit, hmay⟩ hlaw, ?_, hs.trans hstatus.symm, hp⟩
  show ((Register.at? r.place).map _).getD _ = _
  rw [Register.at_place, ← hshown]
  rfl

theorem stands_onDriver {x : StateM Machine α} (hx : Offline x) :
    Ends (Bus.Stands d p) (onDriver x) fun _ => Bus.Stands d p := by
  rintro b ⟨hlaw, hd, hs, hp⟩
  obtain ⟨hstatus, hprogrammed⟩ := hx.aside b.m
  exact ⟨hlaw, hd, hstatus.trans hs, hprogrammed.trans hp⟩

/-- A question, and what the device has shown with the answer. -/
theorem stands_regAsk {r : Register} {answer : Nat → UInt32} (hfit : ∀ t, (answer t).toNat < 2 ^ (8 * r.place.2.2))
    (hmay : d.MayRead r) {f : UInt32 → Device} (hshown : ∀ v, d.shown v r = f v)
    (hstatus : ∀ v, (f v).status = d.status) :
    Ends (Bus.Stands d p) (regAsk r answer) fun v => Bus.Stands (f v) p := by
  intro b hb
  exact stands_regRead (hfit b.m.now) hmay (hshown _) (hstatus _) b hb

theorem toNat_byte_lt (v : UInt8) : v.toUInt32.toNat < 2 ^ 8 := by
  rw [UInt8.toNat_toUInt32]
  exact v.toNat_lt

theorem toNat_word_lt (v : UInt16) : v.toUInt32.toNat < 2 ^ 16 := by
  rw [UInt16.toNat_toUInt32]
  exact v.toNat_lt

theorem stands_askIsr {r : Register} (hr : r = .isr ∨ r = .isrCfg) : Ends (Bus.Stands d p)
    (regAsk r fun t => (panel.isr t).toUInt32) fun _ => Bus.Stands d p := by
  have hmay : d.MayRead .isr ∧ d.MayRead .isrCfg := ⟨trivial, trivial⟩
  rcases hr with rfl | rfl
  · exact stands_regAsk (fun _ => toNat_byte_lt _) hmay.1 (fun _ => rfl) fun _ => rfl
  · exact stands_regAsk (fun _ => toNat_byte_lt _) hmay.2 (fun _ => rfl) fun _ => rfl

theorem Device.put_status (hv : v ≠ 0) : d.put v.toUInt32 (statusRegister modern) = { d with status := v } := by
  have hwide : v.toUInt32.toUInt8 = v := UInt8.toUInt8_toUInt32 v
  have hnonzero : v.toUInt32 ≠ 0 := fun h => hv (hwide.symm.trans (congrArg UInt32.toUInt8 h))
  cases modern <;> simp [statusRegister, Device.put, hnonzero, hwide]

theorem Device.mayWrite_status (hmay : d.MayChangeStatus v)
    (hmodern : modern = true → (v &&& virtioStatusFeaturesOk ≠ 0 → d.Has virtioStatusDriver) ∧
      (v &&& virtioStatusDriverOk ≠ 0 → d.Has virtioStatusFeaturesOk)) :
    d.MayWrite v.toUInt32 (statusRegister modern) := by
  cases modern with
  | true => simpa only [statusRegister, if_true, Device.MayWrite, UInt8.toUInt8_toUInt32] using ⟨hmay, hmodern rfl⟩
  | false => simpa [statusRegister, Device.MayWrite, UInt8.toUInt8_toUInt32] using hmay

theorem statusRegister_width : (statusRegister modern).place.2.2 = 1 := by cases modern <;> rfl

/-- `STATUS` is written. -/
theorem Bus.Stands.wroteStatus {b : Bus} (hb : b.Stands d p) (hv : v ≠ 0)
    (hlaw : Lawful (.write (statusRegister modern).place v.toUInt32 :: b.trace)) :
    (regWriteStatus modern v b).2.Stands { d with status := v } p := by
  obtain ⟨-, rfl, -, hp⟩ := hb
  have hm : (writeStatus v b.m).2 = { b.m with status := v } := if_neg hv
  refine ⟨hlaw, ?_, congrArg Machine.status hm, (congrArg Machine.programmed hm).trans hp⟩
  show ((Register.at? _).map _).getD _ = _
  rw [Register.at_place]
  exact Device.put_status hv

/-- A change of `STATUS`. -/
theorem stands_regWriteStatus (hv : v ≠ 0) (hmay : d.MayChangeStatus v)
    (hmodern : modern = true → (v &&& virtioStatusFeaturesOk ≠ 0 → d.Has virtioStatusDriver) ∧
      (v &&& virtioStatusDriverOk ≠ 0 → d.Has virtioStatusFeaturesOk)) :
    Ends (Bus.Stands d p) (regWriteStatus modern v) fun _ => Bus.Stands { d with status := v } p := by
  intro b hb
  have hfit : v.toUInt32.toNat < 2 ^ (8 * (statusRegister modern).place.2.2) := by
    rw [statusRegister_width]
    exact toNat_byte_lt v
  refine hb.wroteStatus hv (.allowed ⟨_, Register.at_place _, hfit, ?_⟩ hb.lawful)
  rw [hb.device]
  exact Device.mayWrite_status hmay hmodern

/-- The reset of the device. -/
theorem stands_reset : Ends (Bus.Stands d p) (regWriteStatus modern 0) fun _ => Bus.Stands {} none := by
  rintro b ⟨hlaw, rfl, -, -⟩
  have hmay : (Device.after b.trace).MayWrite (0 : UInt8).toUInt32 (statusRegister modern) :=
    Device.mayWrite_status (.inl rfl) fun _ => ⟨fun h => absurd rfl h, fun h => absurd rfl h⟩
  refine ⟨.allowed ⟨_, Register.at_place _, ?_, hmay⟩ hlaw, ?_, rfl, rfl⟩
  · rw [statusRegister_width]
    decide
  · cases modern <;> rfl

/-- Reading `STATUS`, which the device lets the driver do at any time. -/
theorem stands_readStatus (v : UInt8) :
    Ends (Bus.Stands d p) (regRead (statusRegister modern) v.toUInt32) fun _ => Bus.Stands d p := by
  refine stands_regRead ?_ ?_ ?_ rfl
  · rw [statusRegister_width]
    exact toNat_byte_lt v
  · cases modern <;> trivial
  · cases modern <;> rfl

theorem stands_askStatus (answer : Nat → UInt8) :
    Ends (Bus.Stands d p) (regAsk (statusRegister modern) fun t => (answer t).toUInt32) fun _ => Bus.Stands d p :=
  fun b hb => stands_readStatus (answer b.m.now) b hb

theorem stands_regReadStatus : Ends (Bus.Stands d p) (regReadStatus world modern) fun _ => Bus.Stands d p :=
  (stands_onDriver offline_tick).bind fun _ => (stands_readStatus _).bind fun _ => Ends.ret

/-- The driver gives up on a device that refused the features. -/
theorem stands_failed (hd : d.Has virtioStatusDriver) (hv : v &&& virtioStatusFeaturesOk = 0) :
    Ends (fun b => b.Stands d p ∧ b.trace.head? = some (.read Register.commonStatus.place v.toUInt32))
      (regWriteStatus true virtioStatusFailed) fun _ => Bus.Stands { d with status := virtioStatusFailed } p := by
  rintro b ⟨hb, hread⟩
  refine hb.wroteStatus (by decide) (.givesUp ⟨rfl, ?_, v, hv, hread⟩ hb.lawful)
  rw [hb.device]
  exact hd

/-- The test of `FEATURES_OK`. -/
theorem stands_testFeatures (hd : d.Has virtioStatusDriver) {x : StateM Bus Bool} {R : Bool → Bus → Prop}
    (hfailed : ∀ b, b.Stands { d with status := virtioStatusFailed } p → R false b) (hx : Ends (Bus.Stands d p) x R) :
    Ends (Bus.Stands d p) (do
      if (← regReadStatus world true) &&& virtioStatusFeaturesOk = 0 then do
        regWriteStatus true virtioStatusFailed
        pure false
      else x) R := by
  have hread : Ends (Bus.Stands d p) (regReadStatus world true) fun v b =>
      b.Stands d p ∧ b.trace.head? = some (.read Register.commonStatus.place v.toUInt32) :=
    fun b hb => ⟨stands_regReadStatus b hb, rfl⟩
  refine hread.bind fun v => Ends.ite (fun hv => ?_) fun _ => hx.pre fun _ hb => hb.1
  exact (stands_failed hd hv).bind fun _ => Ends.pure hfailed

theorem stands_regAwaitReset : ∀ tries,
    Ends (Bus.Stands d p) (regAwaitReset world modern tries) fun _ => Bus.Stands d p
  | 0 => Ends.ret
  | tries + 1 => stands_regReadStatus.bind fun _ => Ends.ite (fun _ => Ends.ret) fun _ => stands_regAwaitReset tries

end Rules

/-! ## The features -/

/-- The driver has taken what it wants of the features, and the queue is still to be set up. -/
structure Device.Chosen (d : Device) (modern : Bool) : Prop where
  driver : d.Has virtioStatusDriver
  notRunning : ¬ d.Has virtioStatusDriverOk
  features : modern = true → d.Has virtioStatusFeaturesOk
  idle : d.enabled = false
  lo : d.acceptedLo = d.offeredLo &&& 1
  hi : d.acceptedHi = d.offeredHi &&& 1

section Features

variable {p : Option Nat} {world : World} {panel : Panel}

theorem and_and_self (v w : UInt32) : v &&& w &&& v = v &&& w := by
  rw [UInt32.and_comm, ← UInt32.and_assoc, UInt32.and_self]

/-- The status of a driver that is about to choose. -/
theorem Device.choosing {d : Device} (h : d.status = 3) :
    d.Has virtioStatusDriver ∧ ¬ d.Has virtioStatusFeaturesOk ∧ ¬ d.Has virtioStatusDriverOk := by
  unfold Device.Has
  rw [h]
  decide

theorem stands_negotiateLegacy : Ends (Bus.Stands { status := 3 } p) (negotiateLegacy panel)
    fun _ b => ∃ lo, Bus.Stands { status := 3, offeredLo := lo, acceptedLo := lo &&& 1 } p b := by
  have hask : ∀ d : Device, d.status = 3 → d.MayRead .hostFeatures := fun d h => (Device.choosing h).1
  unfold negotiateLegacy
  refine Ends.bind (stands_regAsk (fun _ => UInt32.toNat_lt _) (hask _ rfl) (fun _ => rfl) fun _ => rfl) fun lo => ?_
  refine Ends.post (stands_regWrite (UInt32.toNat_lt _) ?_ rfl rfl) fun _ _ h => ⟨lo, h⟩
  exact ⟨(Device.choosing rfl).1, (Device.choosing rfl).2.2, and_and_self _ _⟩

theorem stands_negotiateModern : Ends (Bus.Stands { status := 3 } p) (negotiateModern panel)
    fun _ b => ∃ lo hi, Bus.Stands
      { status := 3, featureSelect := 1, driverSelect := 1, offeredLo := lo, offeredHi := hi, acceptedLo := lo &&& 1,
        acceptedHi := hi &&& 1 } p b := by
  have hask : ∀ d : Device, d.status = 3 → d.MayRead .commonDf := fun d h => (Device.choosing h).1
  have hselect : ∀ d : Device, d.status = 3 → ∀ v ≤ 1, d.MayWrite v .commonDfSelect ∧ d.MayWrite v .commonDfSelectG :=
    fun d h v hv => ⟨⟨(Device.choosing h).1, hv⟩, (Device.choosing h).1, hv⟩
  have hchoose : ∀ d : Device, d.status = 3 →
      ∀ v, v &&& (if d.driverSelect = 0 then d.offeredLo else d.offeredHi) = v → d.MayWrite v .commonDfG :=
    fun d h v hv => ⟨(Device.choosing h).1, (Device.choosing h).2.1, hv⟩
  unfold negotiateModern
  refine Ends.bind (stands_regWrite (by decide) (hselect _ rfl 0 (by decide)).1 rfl rfl) fun _ => ?_
  refine Ends.bind (stands_regAsk (fun _ => UInt32.toNat_lt _) (hask _ rfl) (fun _ => rfl) fun _ => rfl) fun lo => ?_
  refine Ends.bind (stands_regWrite (by decide) (hselect _ rfl 1 (by decide)).1 rfl rfl) fun _ => ?_
  refine Ends.bind (stands_regAsk (fun _ => UInt32.toNat_lt _) (hask _ rfl) (fun _ => rfl) fun _ => rfl) fun hi => ?_
  refine Ends.bind (stands_regWrite (by decide) (hselect _ rfl 0 (by decide)).2 rfl rfl) fun _ => ?_
  refine Ends.bind (stands_regWrite (UInt32.toNat_lt _) (hchoose _ rfl _ (and_and_self _ _)) rfl rfl) fun _ => ?_
  refine Ends.bind (stands_regWrite (by decide) (hselect _ rfl 1 (by decide)).2 rfl rfl) fun _ => ?_
  exact Ends.post (stands_regWrite (UInt32.toNat_lt _) (hchoose _ rfl _ (and_and_self _ _)) rfl rfl)
    fun _ _ h => ⟨lo, hi, h⟩

end Features

/-! ## The queue -/

/-- The device has been told where the table and the rings are. -/
def Device.told (d : Device) (modern : Bool) (phys : UInt32) : Device :=
  if modern then
    { d with
      descLo := (modernAddrs phys d.size).desc
      descHi := 0
      availLo := (modernAddrs phys d.size).avail
      availHi := 0
      usedLo := (modernAddrs phys d.size).used
      usedHi := 0
      enabled := true }
  else { d with pfn := queuePfn phys, enabled := true }

/-- A block for a queue of any size starts at a page other than the first, and is below 4 GB. -/
def FitBlock (phys : UInt32) : Prop :=
  4096 ≤ phys.toNat ∧ phys.toNat % 4096 = 0 ∧ phys.toNat + vringSize 65535 ≤ 4294967296

instance (phys : UInt32) : Decidable (FitBlock phys) := inferInstanceAs (Decidable (_ ∧ _))

/-- Every vring is at such a place. -/
def World.Placed (world : World) : Prop := ∀ n, FitBlock (world.phys (.vring n))

section Queue

variable {d : Device} {p : Option Nat} {modern : Bool} {world : World} {panel : Panel}

theorem vringSize_mono {m n : Nat} (h : m ≤ n) : vringSize m ≤ vringSize n := by
  have hpages : (16 * m + 2 * (3 + m) + 4095) / 4096 ≤ (16 * n + 2 * (3 + n) + 4095) / 4096 :=
    Nat.div_le_div_right (by omega)
  rw [vringSize_eq, vringSize_eq]
  unfold roundUp
  omega

theorem FitBlock.space {phys : UInt32} (h : FitBlock phys) (q : UInt16) :
    phys.toNat + vringSize q.toNat ≤ 4294967296 := by
  have hq := q.toNat_lt
  have hle := vringSize_mono (show q.toNat ≤ 65535 by omega)
  have hspace := h.2.2
  omega

theorem queuePfn_ne_zero {phys : UInt32} (h : FitBlock phys) : queuePfn phys ≠ 0 := by
  intro hzero
  have hnat := congrArg UInt32.toNat hzero
  unfold queuePfn at hnat
  rw [UInt32.toNat_div] at hnat
  have hpage := h.1
  change phys.toNat / 4096 = 0 at hnat
  omega

/-- The device has the table and the rings where they are. -/
theorem told_rings {phys : UInt32} (h : FitBlock phys) : (d.told modern phys).rings modern =
    (phys.toNat, phys.toNat + 16 * d.size.toNat,
      phys.toNat + roundUp (16 * d.size.toNat + 2 * (3 + d.size.toNat))) := by
  have hspace := h.space d.size
  rw [vringSize_eq] at hspace
  have hround := roundUp_spec (16 * d.size.toNat + 2 * (3 + d.size.toNat))
  cases modern with
  | true =>
    have havail : (modernAddrs phys d.size).avail.toNat = phys.toNat + 16 * d.size.toNat := by
      show (phys + (vringLayout d.size.toUInt32).descSize).toNat = _
      rw [UInt32.toNat_add, toNat_descSize]
      omega
    have hused : (modernAddrs phys d.size).used.toNat =
        phys.toNat + roundUp (16 * d.size.toNat + 2 * (3 + d.size.toNat)) := by
      rw [modern_usedOffset, UInt32.toNat_add, toNat_usedOffset]
      omega
    show (phys.toNat + 2 ^ 32 * 0, (modernAddrs phys d.size).avail.toNat + 2 ^ 32 * 0,
      (modernAddrs phys d.size).used.toNat + 2 ^ 32 * 0) = _
    rw [havail, hused]
    rfl
  | false =>
    have hdesc : deviceDesc (queuePfn phys) = phys.toNat := by
      unfold deviceDesc queuePfn
      rw [UInt32.toNat_div]
      show phys.toNat / 4096 * 4096 = phys.toNat
      have hpage := h.2.1
      omega
    have hused : deviceUsed (queuePfn phys) d.size.toNat =
        phys.toNat + roundUp (16 * d.size.toNat + 2 * (3 + d.size.toNat)) := by
      have hpage := h.2.1
      unfold deviceUsed deviceAvail
      rw [hdesc]
      unfold roundUp
      omega
    show (deviceDesc (queuePfn phys), deviceAvail (queuePfn phys) d.size.toNat,
      deviceUsed (queuePfn phys) d.size.toNat) = _
    rw [hused, deviceAvail, hdesc]

theorem stands_regQueueSize (hd : d.Chosen modern) : Ends (Bus.Stands d p) (regQueueSize world modern)
    fun q => Bus.Stands { d with queueSelect := 0, size := q } p := by
  unfold regQueueSize
  have hwide : ∀ q : UInt16, q.toUInt32.toUInt16 = q := UInt16.toUInt16_toUInt32
  refine Ends.bind (Q := fun _ => Bus.Stands { d with queueSelect := 0 } p) ?_ fun _ => ?_
  · cases modern with
    | true => exact stands_regWrite (by decide) (hd.features rfl) rfl rfl
    | false => exact stands_regWrite (by decide) hd.driver rfl rfl
  refine (stands_onDriver offline_tick).bind fun t => Ends.bind ?_ fun _ => Ends.pure fun _ h => h
  have hshown : Device.onQueue0 { d with queueSelect := 0 }
      (fun d => { d with size := (world.queueSize t).toUInt32.toUInt16 }) =
      { d with queueSelect := 0, size := world.queueSize t } := by
    rw [hwide]
    rfl
  cases modern with
  | true => exact stands_regRead (toNat_word_lt _) ⟨hd.driver, rfl⟩ hshown rfl
  | false => exact stands_regRead (toNat_word_lt _) ⟨hd.driver, rfl⟩ hshown rfl

theorem stands_queueWrite {r : Register} {v : UInt32} {f : Device → Device}
    (hput : ∀ d : Device, d.put v r = d.onQueue0 f) (hsel : d.queueSelect = 0)
    (hfit : v.toNat < 2 ^ (8 * r.place.2.2)) (hmay : d.MayWrite v r) (hstatus : (f d).status = d.status) :
    Ends (Bus.Stands d p) (regWrite r v) fun _ => Bus.Stands (f d) p :=
  stands_regWrite hfit hmay ((hput d).trans (if_pos hsel)) hstatus

theorem stands_tellRings (hd : d.Chosen modern) (hsel : d.queueSelect = 0) (hsize : d.size ≠ 0) {block : Nat}
    (hfit : FitBlock (world.phys (.vring block))) :
    Ends (Bus.Stands d p) (tellRings world panel modern d.size block)
      fun _ => Bus.Stands (d.told modern (world.phys (.vring block))) p := by
  cases modern with
  | false =>
    have hpfn := queuePfn_ne_zero hfit
    refine Ends.post (stands_queueWrite (fun _ => rfl) hsel (UInt32.toNat_lt _) ⟨hd.driver, hd.notRunning, hsel, hsize⟩
      rfl) fun _ b hb => ?_
    simpa only [Device.told, ne_eq, hpfn, not_false_iff, decide_true, Bool.false_eq_true, if_false] using hb
  | true =>
    have hmay : ∀ d' : Device, d'.status = d.status → d'.queueSelect = 0 → d'.size = d.size → d'.enabled = false →
        d'.Has virtioStatusFeaturesOk ∧ ¬ d'.Has virtioStatusDriverOk ∧ d'.queueSelect = 0 ∧ d'.size ≠ 0 ∧
          d'.enabled = false := fun d' hs hq hn hi => by
      unfold Device.Has
      rw [hs, hn]
      exact ⟨hd.features rfl, hd.notRunning, hq, hsize, hi⟩
    unfold tellRings tellAddrs
    -- the six halves of the addresses
    iterate 6
      refine Ends.bind (stands_queueWrite (fun _ => rfl) hsel (UInt32.toNat_lt _) (hmay _ rfl hsel rfl hd.idle) rfl)
        fun _ => ?_
    have henable : ∀ d' : Device, d'.status = d.status → d'.queueSelect = 0 → d'.size = d.size → d'.enabled = false →
        d'.MayWrite 1 .commonQEnable := fun d' hs hq hn hi => by
      obtain ⟨hf, hr, hq, hn, -⟩ := hmay d' hs hq hn hi
      exact ⟨hf, hr, hq, hn, rfl⟩
    refine Ends.bind (stands_queueWrite (fun _ => rfl) hsel (by decide) (henable _ rfl hsel rfl hd.idle) rfl)
      fun _ => ?_
    refine Ends.bind (stands_regAsk (fun _ => toNat_word_lt _) ?_ (fun _ => rfl) fun _ => rfl) fun _ => Ends.ret
    exact ⟨hd.driver, hsel⟩

/-- What telling the device about the rings leaves as it is. -/
theorem told_frame (d : Device) (modern : Bool) (phys : UInt32) :
    (d.told modern phys).status = d.status ∧ (d.told modern phys).size = d.size ∧
    (d.told modern phys).offeredLo = d.offeredLo ∧ (d.told modern phys).offeredHi = d.offeredHi ∧
    (d.told modern phys).acceptedLo = d.acceptedLo ∧ (d.told modern phys).acceptedHi = d.acceptedHi ∧
    (d.told modern phys).enabled = true := by
  cases modern <;> exact ⟨rfl, rfl, rfl, rfl, rfl, rfl, rfl⟩

/-- `DRIVER_OK` is the last step. -/
theorem told_serves (hd : d.Chosen modern) (hsize : d.size ≠ 0) {phys : UInt32} (hfit : FitBlock phys) {v : UInt8}
    (hv : v &&& virtioStatusDriverOk ≠ 0) : Device.Serves { d.told modern phys with status := v } modern phys := by
  obtain ⟨-, hn, holo, hohi, halo, hahi, hon⟩ := told_frame d modern phys
  refine ⟨hv, hon, ?_, ?_, ?_, ?_⟩
  · show (d.told modern phys).size ≠ 0
    rwa [hn]
  · show (d.told modern phys).rings modern = (_, _ + 16 * (d.told modern phys).size.toNat, _)
    rw [hn]
    exact told_rings hfit
  · show (d.told modern phys).acceptedLo = (d.told modern phys).offeredLo &&& 1
    rw [halo, holo, hd.lo]
  · show (d.told modern phys).acceptedHi = (d.told modern phys).offeredHi &&& 1
    rw [hahi, hohi, hd.hi]

theorem Device.Chosen.mirrors (hd : d.Chosen modern) : d.Mirrors world none :=
  ⟨fun _ => ⟨hd.idle, hd.notRunning⟩, fun _ h => by cases h⟩

theorem stands_regSetupQueue (hworld : world.Placed) (hmode : world.modern = modern) (hd : d.Chosen modern)
    {driverOk : UInt8} (hkeep : d.status &&& driverOk = d.status) (hok : driverOk &&& virtioStatusDriverOk ≠ 0) :
    Ends (Bus.Stands d none) (regSetupQueue world panel modern driverOk)
      fun _ => Bus.Sound world := by
  subst hmode
  have hfail : ∀ {d' : Device}, d'.Chosen world.modern → ∀ {α : Type} (a : α), Ends (Bus.Stands d' none)
      (pure a : StateM Bus α) fun _ => Bus.Sound world :=
    fun hd' _ _ => Ends.pure fun _ hb => hb.sound hd'.mirrors
  unfold regSetupQueue
  refine (stands_regQueueSize hd).bind fun qMax => ?_
  have hd₁ : Device.Chosen { d with queueSelect := 0, size := qMax } world.modern :=
    ⟨hd.driver, hd.notRunning, hd.features, hd.idle, hd.lo, hd.hi⟩
  refine Ends.ite (fun _ => hfail hd₁ _) fun hq => ?_
  refine (stands_onDriver (offline_allocateQueue _)).bind fun got => ?_
  cases got with
  | none => exact hfail hd₁ _
  | some q =>
    have hfree : ∀ op, Ends (Bus.Stands { d with queueSelect := 0, size := qMax } none)
        (do onDriver (noteMemory op); onDriver (virtQueueFree q); pure false)
        fun _ => Bus.Sound world := fun op =>
      (stands_onDriver (offline_noteMemory op)).bind fun _ => (stands_onDriver (offline_virtQueueFree q)).bind
        fun _ => hfail hd₁ _
    refine (stands_onDriver (offline_startDMA _ _)).bind fun n => Ends.ite (fun _ => ?_) fun _ =>
      Ends.ite (fun _ => hfree _) fun _ => ?_
    · exact (stands_onDriver (offline_virtQueueFree q)).bind fun _ => hfail hd₁ _
    refine (stands_onDriver offline_grant).bind fun _ => Ends.ite (fun _ => ?_) fun _ => hfree _
    obtain ⟨hstatus, -, -, -, -, -, hon⟩ := told_frame { d with queueSelect := 0, size := qMax } world.modern
      (world.phys (.vring q.block))
    refine (stands_tellRings hd₁ rfl hq (hworld q.block)).bind fun _ => ?_
    refine Ends.bind (Q := fun _ => Bus.Stands _ (some q.block)) (fun b hb => ⟨hb.lawful, hb.device, hb.status, rfl⟩)
      fun _ => ?_
    refine Ends.bind (stands_regWriteStatus ?_ ?_ fun hm => ?_) fun _ => ?_
    · rintro rfl
      exact hok rfl
    · exact .inr ⟨by rw [hstatus]; exact hkeep, fun _ => hon⟩
    · unfold Device.Has
      rw [hstatus]
      exact ⟨fun _ => hd.driver, fun _ => hd.features hm⟩
    refine Ends.bind (stands_askStatus _) fun _ => Ends.pure fun _ hb => hb.sound ⟨?_, ?_⟩
    · intro h
      cases h
    · rintro n ⟨⟩
      exact told_serves hd₁ hq (hworld q.block) hok

theorem reset_mirrors : Device.Mirrors {} world none := by
  refine ⟨fun _ => ⟨rfl, fun h => h rfl⟩, ?_⟩
  rintro n ⟨⟩

/-- From the reset to `DRIVER`. -/
theorem stands_acknowledge {R : Bool → Bus → Prop} {x : StateM Bus Bool}
    (hx : Ends (Bus.Stands { status := 3 } none) x R) : Ends (Bus.Stands {} none) (do
      regWriteStatus modern virtioStatusAcknowledge
      regWriteStatus modern (virtioStatusAcknowledge ||| virtioStatusDriver)
      x) R := by
  have hearly : ∀ v : UInt8, v &&& virtioStatusFeaturesOk = 0 → v &&& virtioStatusDriverOk = 0 → ∀ d : Device,
      modern = true → (v &&& virtioStatusFeaturesOk ≠ 0 → d.Has virtioStatusDriver) ∧
        (v &&& virtioStatusDriverOk ≠ 0 → d.Has virtioStatusFeaturesOk) :=
    fun _ hf ho _ _ => ⟨fun h => absurd hf h, fun h => absurd ho h⟩
  refine (stands_regWriteStatus (by decide) ?_ (hearly _ rfl rfl _)).bind fun _ =>
    (stands_regWriteStatus (by decide) ?_ (hearly _ rfl rfl _)).bind fun _ => hx
  · exact .inr ⟨rfl, fun h => absurd rfl h⟩
  · exact .inr ⟨rfl, fun h => absurd rfl h⟩

theorem stands_regInitLegacy (hworld : world.Placed) (hmode : world.modern = false) (hd : d.Mirrors world p) :
    Ends (Bus.Stands d p) (regInitLegacy world panel) fun _ => Bus.Sound world := by
  unfold regInitLegacy
  refine Ends.ite (fun _ => ?_) fun _ => Ends.pure fun _ hb => hb.sound hd
  refine stands_reset.bind fun _ => (stands_regAwaitReset _).bind fun _ => Ends.ite (fun _ => ?_) fun _ =>
    Ends.pure fun _ hb => hb.sound reset_mirrors
  refine (stands_askIsr (.inl rfl)).bind fun _ => ?_
  refine stands_acknowledge (stands_negotiateLegacy.bind fun _ => Ends.some fun lo => ?_)
  have hchosen : Device.Chosen { status := 3, offeredLo := lo, acceptedLo := lo &&& 1 } false := by
    refine ⟨(Device.choosing rfl).1, (Device.choosing rfl).2.2, fun h => absurd h Bool.false_ne_true, rfl, rfl, ?_⟩
    exact show (0 : UInt32) = 0 &&& 1 by decide
  refine stands_regSetupQueue hworld hmode hchosen ?_ (by decide)
  exact show (3 : UInt8) &&& 7 = 3 by decide

theorem stands_regInitModern (hworld : world.Placed) (hmode : world.modern = true) :
    Ends (Bus.Stands d p) (regInitModern world panel) fun _ => Bus.Sound world := by
  unfold regInitModern
  refine stands_reset.bind fun _ => (stands_regAwaitReset _).bind fun _ => Ends.ite (fun _ => ?_) fun _ =>
    Ends.pure fun _ hb => hb.sound reset_mirrors
  refine stands_acknowledge (stands_negotiateModern.bind fun _ => Ends.some fun lo => Ends.some fun hi => ?_)
  -- the features are fixed, unless the device refuses them
  refine Ends.bind (stands_regWriteStatus (by decide) ?_ fun _ => ⟨fun _ => (Device.choosing rfl).1, ?_⟩)
    fun _ => stands_testFeatures ?_ (fun b hb => ?_) ?_
  · exact .inr ⟨show (3 : UInt8) &&& _ = 3 by decide, fun h => absurd (by decide) h⟩
  · exact fun h => absurd (by decide) h
  · exact show (11 : UInt8) &&& 2 ≠ 0 by decide
  · have hfailed : virtioStatusFailed &&& virtioStatusDriverOk = 0 := by decide
    refine hb.sound ⟨fun _ => ⟨rfl, fun h => h hfailed⟩, ?_⟩
    rintro n ⟨⟩
  · refine stands_regSetupQueue hworld hmode ⟨?_, ?_, fun _ => ?_, rfl, rfl, rfl⟩ ?_ (by decide)
    · exact show (11 : UInt8) &&& 2 ≠ 0 by decide
    · exact show ¬ ((11 : UInt8) &&& 4 ≠ 0) by decide
    · exact show (11 : UInt8) &&& 8 ≠ 0 by decide
    · exact show (11 : UInt8) &&& 15 = 11 by decide

/-- `V9P_InitVirtIO`. -/
theorem stands_regInit (hworld : world.Placed) (hd : d.Mirrors world p) :
    Ends (Bus.Stands d p) (regInit world panel) fun _ => Bus.Sound world := by
  have hnote : ∀ ok, Ends (Bus.Sound world) (do onDriver (noteTransport (.init ok)); pure ok : StateM Bus Bool)
      fun _ => Bus.Sound world := fun _ =>
    (sound_onDriver fun _ => ⟨rfl, rfl⟩).bind fun _ => Ends.ret
  unfold regInit
  refine Ends.ite (fun hmode => ?_) fun hmode => ?_
  · exact (stands_regInitModern hworld hmode).bind hnote
  · exact (stands_regInitLegacy hworld (Bool.eq_false_of_not_eq_true hmode) hd).bind hnote

theorem stands_regQuiesce (hd : d.Mirrors world p) : Ends (Bus.Stands d p) (regQuiesce world)
    fun _ => Bus.Sound world := by
  have hreset : ∀ mode, Ends (Bus.Stands d p) (regWriteStatus mode 0)
      fun _ => Bus.Sound world := fun _ =>
    stands_reset.post fun _ _ hb => hb.sound reset_mirrors
  exact Ends.ite (fun _ => hreset _) fun _ => Ends.ite (fun _ => hreset _) fun _ =>
    Ends.pure fun _ hb => hb.sound hd

theorem stands_regIsr : Ends (Bus.Stands d p) (regIsr world panel) fun _ => Bus.Stands d p := by
  have hask : ∀ r, r = .isr ∨ r = .isrCfg → Ends (Bus.Stands d p)
      (do let _ ← regAsk r fun t => (panel.isr t).toUInt32) fun _ => Bus.Stands d p :=
    fun _ hr => (stands_askIsr hr).bind fun _ => Ends.ret
  exact Ends.ite (fun _ => Ends.ite (fun _ => hask _ (.inr rfl)) fun _ => Ends.ret) fun _ =>
    Ends.ite (fun _ => hask _ (.inl rfl)) fun _ => Ends.ret

theorem stands_regRemoveInterrupt (hd : d.Mirrors world p) :
    Ends (Bus.Stands d p) (regRemoveInterrupt world panel) fun _ => Bus.Sound world := by
  unfold regRemoveInterrupt
  refine Ends.getBind fun b => Ends.ite (fun _ => ?_) fun _ => Ends.pure fun _ hb => hb.2.sound hd
  exact (stands_regIsr.bind fun _ => (stands_regQuiesce hd).bind fun _ => sound_onDriver fun _ => ⟨rfl, rfl⟩).pre
    fun _ hb => hb.2

end Queue

/-! ## Any order of set-up and clean-up -/

section Errands

variable {world : World} {panel : Panel}

/-- Each of them keeps the two sides together. -/
theorem sound_errand (hworld : world.Placed) (e : Errand) :
    Ends (Bus.Sound world) (e.onBus world panel) fun _ => Bus.Sound world := by
  rintro b ⟨hlaw, hstatus, hm⟩
  have hb : b.Stands (Device.after b.trace) b.m.programmed := ⟨hlaw, rfl, hstatus.symm, rfl⟩
  cases e with
  | init => exact ((stands_regInit hworld hm).bind fun _ => Ends.ret) b hb
  | cleanup =>
    refine ((stands_regQuiesce hm).bind fun _ => sound_onDriver ?_) b hb
    refine Aside.bind (x := get) (fun _ => ⟨rfl, rfl⟩) fun m => ?_
    cases m.vq with
    | none => exact fun _ => ⟨rfl, rfl⟩
    | some q => exact (offline_virtQueueFree q).aside.bind fun _ _ => ⟨rfl, rfl⟩
  | installInterrupt =>
    exact (Ends.bind (sound_onDriver offline_installInterrupt.aside) fun _ => Ends.ret) b ⟨hlaw, hstatus, hm⟩
  | removeInterrupt => exact stands_regRemoveInterrupt hm b hb

theorem sound_errands (hworld : world.Placed) : ∀ es,
    Ends (Bus.Sound world) (errandsOnBus world panel es) fun _ => Bus.Sound world
  | [] => Ends.ret
  | e :: es => (sound_errand hworld e).bind fun _ => sound_errands hworld es

theorem sound_boot : Bus.boot.Sound world := ⟨trivial, rfl, reset_mirrors⟩

end Errands

/-- A modern device that refuses the features once, with a queue of 128 entries and memory from 1 MB on. -/
def waveringWorld : World where
  modern := true
  bar0 := true
  phys := fun
    | .vring n => UInt32.ofNat (0x100000 + 0x10000 * (n % 16))
    | _ => 0
  acts := fun _ => []
  checks := fun _ => 0
  readStatus := fun t => if t = 0 ∨ t = 2 then 0 else if t = 1 then 3 else 11
  queueSize := fun _ => 128
  dmaEntries := fun _ => 1
  grants := fun _ => true

def waveringPanel : Panel := ⟨fun _ => 0, fun _ => 0x30000001, fun _ => 1, fun _ => 0, fun _ => 15, fun _ => 0, true⟩

theorem wavering_placed : waveringWorld.Placed := by
  intro n
  have hlt : n % 16 < 16 := Nat.mod_lt n (by decide)
  show FitBlock (UInt32.ofNat (0x100000 + 0x10000 * (n % 16)))
  generalize n % 16 = k at hlt
  revert k
  decide

theorem wavering_failed : .write Register.commonStatus.place virtioStatusFailed.toUInt32 ∈
    (errandsOnBus waveringWorld waveringPanel [.init, .init, .installInterrupt] .boot).2.trace := by decide +kernel

theorem wavering_programmed :
    (errandsOnMachine waveringWorld [.init, .init, .installInterrupt] .boot).2.programmed = some 0 := by decide +kernel

end Virtio9P
