import Virtio9P.Lib.History
import Virtio9P.Lifetime
import Virtio9P.Transport.Detect

/-!
# What `_start` takes and gives back (`main.c`, `pci_discovery.c`)

`Virtio9P.Start` has the life of the handler without what the system lends it. Here `_start` is run with that as well:
the libraries, their interfaces, the device and its resource ranges, and the startup message that DOS waits for. Each
pointer is tested where the source tests it, and everything taken, given back or answered is recorded, with the state
of the transport at that time.

Whatever fails, a run that returns has given back what it has a pointer to in the opposite order, has answered the
message once if there was one, and has let go of the device only when it was quiet. What `V9P_DetectModern` took is
never given back: it asks for a resource range for every capability and forgets it (`launch_tidy`). Without the record,
the run is the one of `Virtio9P.Start`.
-/

namespace Virtio9P

open Lib

/-! ## The record -/

/-- What the system lends. -/
inductive Loan where
  /-- `IExec->Obtain` -/
  | exec
  | fileSysBoxBase
  | iFileSysBox
  | expansionBase
  | iPCI
  | pciDevice
  | bar0
  | bar4
  /-- `dosbase` and `idos` of `V9P_DeclineMount` -/
  | dosBase
  | iDOS
  deriving DecidableEq

/-- The device or a part of it. -/
def Loan.OfDevice (l : Loan) : Prop := l = .pciDevice ∨ l = .bar0 ∨ l = .bar4

instance (l : Loan) : Decidable l.OfDevice := inferInstanceAs (Decidable (_ ∨ _))

inductive Dealing where
  | take (l : Loan)
  /-- `GetResourceRange` of `V9P_DetectModern`, to which no pointer is kept -/
  | takeRange (bar : UInt8)
  | giveBack (l : Loan)
  /-- `GetMsg` returned the startup message -/
  | receive
  /-- it was answered, with `FbxReturnMountMsg` or else by hand -/
  | reply (byHand : Bool)
  /-- `FbxSetupFS` has it, and answers it -/
  | handOver
  /-- `NonBlockingModifyDosEntry` -/
  | removeNode
  deriving DecidableEq

/-- The transport is quiet: the device does not run and there is no interrupt server. -/
def Machine.Quiet (m : Machine) : Prop := m.irqInstalled = false ∧ m.status &&& virtioStatusDriverOk = 0

instance (m : Machine) : Decidable m.Quiet := inferInstanceAs (Decidable (_ ∧ _))

structure Deal where
  what : Dealing
  quiet : Bool
  deriving DecidableEq

/-- The run, the pointers that are not `NULL`, and the record, newest first. -/
structure Office where
  s : St Machine
  pointer : Loan → Bool
  deals : List Deal

/-- The answers of the system that the world does not have, by the time. -/
structure Lobby (world : World) where
  /-- `pr_CLI != 0` -/
  cli : Bool
  /-- the device, with capabilities known by a number -/
  pci : PciDevice Nat
  bar0_eq : (pci.resourceRange 0).isSome = world.bar0
  modern_eq : (v9pDetectModern (some pci)).1.modernMode = world.modern
  /-- does the packet name a device node? -/
  deviceNode : Bool
  dosBase : Nat → Bool
  iDOS : Nat → Bool

/-! ## The source -/

abbrev Launching := EStateM Fault Office

/-- What goes on in `Virtio9P.Start`. -/
def inside {α : Type} (x : Client Machine α) : Launching α := fun o =>
  match x o.s with
  | .ok a s => .ok a { o with s := s }
  | .error e s => .error e { o with s := s }

def deal (d : Dealing) : Launching Unit :=
  modify fun o => { o with deals := ⟨d, o.s.w.Quiet⟩ :: o.deals }

/-- A pointer is set. -/
def keep (l : Loan) : Launching Unit := do
  deal (.take l)
  modify fun o => { o with pointer := Function.update o.pointer l true }

/-- `if (pointer) …` at a label. -/
def letGo (l : Loan) : Launching Unit := do
  if (← get).pointer l then deal (.giveBack l)

section Source

variable (world : World) (lobby : Lobby world) (calls lateCalls : List Callback)

/-- Ask for a library, an interface or the device. -/
def ask (l : Loan) : Launching Bool := do
  if ← inside (onLink (grant world)) then do
    keep l
    pure true
  else pure false

/-- `V9P_DeclineMount`: the answer comes first, and then the device node is removed. -/
def v9pDeclineMount : Launching Unit := do
  let o ← get
  deal (.reply !o.pointer .iFileSysBox)
  if lobby.deviceNode then
    if lobby.dosBase o.s.w.now then do
      deal (.take .dosBase)
      if lobby.iDOS o.s.w.now then do
        deal (.take .iDOS)
        deal .removeNode
        deal (.giveBack .iDOS)
      deal (.giveBack .dosBase)

/-- The mount is declined and `_start` goes on to the label. -/
def declined : Launching Int32 := do
  v9pDeclineMount world lobby
  pure returnOk

/-- Step 13 on. -/
def launchServe : Launching Int32 := do
  deal .handOver
  inside (serve world calls lateCalls)

/-- Steps 9b to 14, and `cleanup_bufs`. -/
def launchBuffers : Launching Int32 := do
  let ret ← do
    if ← inside (onLink (mapBuffers world)) then
      if ← inside (mount (busLink world)) then launchServe world calls lateCalls else declined world lobby
    else declined world lobby
  inside (onLink cleanupBufs)
  pure ret

/-- From step 9 on, and `cleanup_irq`. -/
def launchIrq : Launching Int32 := do
  let ret ← do
    if ← inside (onLink (allocBuffers world)) then launchBuffers world lobby calls lateCalls else declined world lobby
  inside (onLink (v9pRemoveInterrupt world))
  pure ret

/-- From step 8 on, and `cleanup_virtio`. -/
def launchVirtio : Launching Int32 := do
  let ret ← do
    if ← inside (onLink (v9pInstallInterrupt world)) then launchIrq world lobby calls lateCalls
    else declined world lobby
  inside (onLink (v9pCleanupVirtio world))
  pure ret

/-- The loop of `V9P_DetectModern`, by what it takes. What it finds out is `world.modern`. -/
def detectModern : Launching Unit := lobby.pci.ranges.forM fun bar => deal (.takeRange bar)

/-- `V9P_DiscoverDevice`. -/
def v9pDiscoverDevice : Launching Bool := do
  if ← ask world .pciDevice then do
    if (lobby.pci.resourceRange 0).isSome then keep .bar0
    if (lobby.pci.resourceRange 4).isSome then keep .bar4
    detectModern world lobby
    pure true
  else pure false

/-- `cleanup_pci`. -/
def cleanupPci : Launching Unit := do
  if (← get).pointer .pciDevice then do
    letGo .bar4
    letGo .bar0
    deal (.giveBack .pciDevice)
  letGo .iPCI

/-- From step 5 on, and `cleanup_pci`. -/
def launchPci : Launching Int32 := do
  let ret ← do
    if ← v9pDiscoverDevice world lobby then
      if ← inside (onLink (v9pInitVirtio world)) then launchVirtio world lobby calls lateCalls else declined world lobby
    else declined world lobby
  cleanupPci
  pure ret

/-- From step 4 on, and `cleanup_expansion`. -/
def launchExpansion : Launching Int32 := do
  let ret ← do
    if ← ask world .iPCI then launchPci world lobby calls lateCalls else declined world lobby
  letGo .expansionBase
  pure ret

/-- Steps 2 and 3, and `cleanup_fbx`. -/
def launchFbx : Launching Int32 := do
  if ← ask world .fileSysBoxBase then do
    let ret ← do
      if ← ask world .iFileSysBox then
        if ← ask world .expansionBase then launchExpansion world lobby calls lateCalls else declined world lobby
      else declined world lobby
    letGo .iFileSysBox
    letGo .fileSysBoxBase
    pure ret
  else declined world lobby

/-- Steps 1 on: the startup message. -/
def launchHandler : Launching Int32 := do
  if ← inside (onLink (grant world)) then do
    deal .receive
    launchFbx world lobby calls lateCalls
  else pure returnFail

/-- `_start`. -/
def launch : Launching Int32 := do
  keep .exec
  let ret ← do
    if lobby.cli then pure returnFail else launchHandler world lobby calls lateCalls
  deal (.giveBack .exec)
  pure ret

end Source

/-! ## Without the record -/

section Erased

variable {α β : Type} {world : World} {lobby : Lobby world} {calls lateCalls : List Callback}

/-- The end of a run, without the record. -/
def erased : EStateM.Result Fault Office α → EStateM.Result Fault (St Machine) α
  | .ok a o => .ok a o.s
  | .error e o => .error e o.s

/-- Without the record, `x` is `y`. -/
def Erases (x : Launching α) (y : Client Machine α) : Prop := ∀ o, erased (x o) = y o.s

theorem Erases.bind {x : Launching α} {y : Client Machine α} {f : α → Launching β} {g : α → Client Machine β}
    (hx : Erases x y) (hf : ∀ a, Erases (f a) (g a)) : Erases (x >>= f) (y >>= g) := by
  intro o
  have h := hx o
  cases hrun : x o with
  | ok a o' =>
    rw [hrun] at h
    rw [run_bind_ok hrun, run_bind_ok h.symm]
    exact hf a o'
  | error e o' =>
    rw [hrun] at h
    rw [run_bind_error hrun, run_bind_error h.symm]
    rfl

theorem erases_pure (a : α) : Erases (pure a) (pure a) := fun _ => rfl

theorem erases_inside (x : Client Machine α) : Erases (inside x) x := by
  intro o
  unfold inside
  cases x o.s <;> rfl

theorem erases_deal (d : Dealing) : Erases (deal d) (pure ()) := fun _ => rfl

/-- A step that only the record shows. -/
theorem Erases.after {x : Launching β} {b : β} {f : β → Launching α} {y : Client Machine α} (hx : Erases x (pure b))
    (hf : Erases (f b) y) : Erases (x >>= f) y := by
  intro o
  have hrun := hx o
  cases hr : x o with
  | ok a o' =>
    rw [hr] at hrun
    have hpair : a = b ∧ o'.s = o.s := by
      have h' : EStateM.Result.ok a o'.s = EStateM.Result.ok b o.s := hrun
      exact ⟨(EStateM.Result.ok.inj h').1, (EStateM.Result.ok.inj h').2⟩
    rw [run_bind_ok hr, hpair.1, ← hpair.2]
    exact hf o'
  | error e o' =>
    rw [hr] at hrun
    cases hrun

/-- Such a step at the end. -/
theorem Erases.before {x : Launching α} {y : Client Machine α} {f : α → Launching α} (hx : Erases x y)
    (hf : ∀ a, Erases (f a) (pure a)) : Erases (x >>= f) y := by
  have h := hx.bind hf
  rwa [bind_pure] at h

theorem erases_keep (l : Loan) : Erases (keep l) (pure ()) := fun _ => rfl

theorem erases_letGo (l : Loan) : Erases (letGo l) (pure ()) := by
  intro o
  unfold letGo
  rw [get_bind]
  split
  · rfl
  · rfl

theorem erases_ask (l : Loan) : Erases (ask world l) (onLink (grant world)) := by
  refine (erases_inside _).before fun ok => ?_
  cases ok with
  | true => exact (erases_keep l).after (erases_pure _)
  | false => exact erases_pure _

theorem erases_v9pDeclineMount : Erases (v9pDeclineMount world lobby) (pure ()) := by
  intro o
  unfold v9pDeclineMount
  rw [get_bind]
  refine (erases_deal _).after ?_ o
  split
  · split
    · refine (erases_deal _).after ?_
      split
      · exact (erases_deal _).after <| (erases_deal _).after <| (erases_deal _).after <| erases_deal _
      · exact erases_deal _
    · exact erases_pure _
  · exact erases_pure _

theorem erases_declined : Erases (declined world lobby) (pure returnOk) :=
  erases_v9pDeclineMount.after (erases_pure _)

/-- The clean-up at a label, and the return. -/
theorem erases_label (x : StateM Machine Unit) (ret : Int32) :
    Erases (do inside (onLink x); pure ret) (do onLink x; pure ret) :=
  (erases_inside _).bind fun _ => erases_pure _

theorem erases_launchBuffers :
    Erases (launchBuffers world lobby calls lateCalls) (startBuffers world calls lateCalls) := by
  have hend := erases_label cleanupBufs
  unfold launchBuffers startBuffers
  refine (erases_inside _).bind fun ok => ?_
  cases ok with
  | false => exact erases_declined.after (hend returnOk)
  | true =>
    refine (erases_inside _).bind fun ok => ?_
    cases ok with
    | false => exact erases_declined.after (hend returnOk)
    | true => exact Erases.bind ((erases_deal _).after (erases_inside _)) hend

theorem erases_launchIrq : Erases (launchIrq world lobby calls lateCalls) (startIrq world calls lateCalls) := by
  have hend := erases_label (v9pRemoveInterrupt world)
  unfold launchIrq startIrq
  refine (erases_inside _).bind fun ok => ?_
  cases ok with
  | false => exact erases_declined.after (hend returnOk)
  | true => exact erases_launchBuffers.bind hend

theorem erases_launchVirtio :
    Erases (launchVirtio world lobby calls lateCalls) (startVirtio world calls lateCalls) := by
  have hend := erases_label (v9pCleanupVirtio world)
  unfold launchVirtio startVirtio
  refine (erases_inside _).bind fun ok => ?_
  cases ok with
  | false => exact erases_declined.after (hend returnOk)
  | true => exact erases_launchIrq.bind hend

/-- What is left of `_start` when `n` answers of the system are still to come. -/
def startFrom (world : World) (calls lateCalls : List Callback) (n : Nat) : Client Machine Int32 := do
  if ← onLink (findDevice world n) then
    if ← onLink (v9pInitVirtio world) then startVirtio world calls lateCalls else pure returnOk
  else pure returnOk

theorem startFrom_zero : startFrom world calls lateCalls 0 = (do
    if ← onLink (v9pInitVirtio world) then startVirtio world calls lateCalls else pure returnOk) := rfl

theorem startFrom_succ (n : Nat) : startFrom world calls lateCalls (n + 1) = (do
    if ← onLink (grant world) then startFrom world calls lateCalls n else pure returnOk) := by
  funext s
  have hfind : findDevice world (n + 1) s.w =
      if (grant world s.w).1 = true then findDevice world n (grant world s.w).2 else (false, (grant world s.w).2) := by
    show (if (grant world s.w).1 = true then findDevice world n else pure false : StateM Machine Bool) _ = _
    split
    · rfl
    · rfl
  show (if (findDevice world (n + 1) s.w).1 = true then _ else _ : Client Machine Int32)
      { s with w := (findDevice world (n + 1) s.w).2 } =
    (if (grant world s.w).1 = true then _ else _ : Client Machine Int32) { s with w := (grant world s.w).2 }
  rw [hfind]
  by_cases hok : (grant world s.w).1 = true
  · rw [if_pos hok, if_pos hok]
    rfl
  · rw [if_neg hok, if_neg hok]
    rfl

theorem erases_takeRanges (bars : List UInt8) :
    Erases (bars.forM fun bar => deal (.takeRange bar)) (pure ()) := by
  induction bars with
  | nil => exact erases_pure _
  | cons bar bars ih => exact (erases_deal _).after ih

theorem erases_v9pDiscoverDevice : Erases (v9pDiscoverDevice world lobby) (onLink (grant world)) := by
  unfold v9pDiscoverDevice
  refine (erases_ask _).before fun ok => ?_
  have hrest : Erases (do detectModern world lobby; pure true) (pure true) :=
    (erases_takeRanges _).after (erases_pure _)
  have hbar4 : Erases (do
      if (lobby.pci.resourceRange 4).isSome then keep .bar4
      detectModern world lobby
      pure true) (pure true) := by
    split
    · exact (erases_keep _).after hrest
    · exact hrest
  cases ok with
  | false => exact erases_pure _
  | true =>
    show Erases (if (lobby.pci.resourceRange 0).isSome = true then _ else _) _
    split
    · exact (erases_keep _).after hbar4
    · exact hbar4

theorem erases_cleanupPci : Erases cleanupPci (pure ()) := by
  intro o
  unfold cleanupPci
  rw [get_bind]
  split
  · exact ((erases_letGo _).after <| (erases_letGo _).after <| (erases_deal _).after <| erases_letGo _) o
  · exact erases_letGo _ o

theorem erases_launchPci : Erases (launchPci world lobby calls lateCalls) (startFrom world calls lateCalls 1) := by
  have hend : ∀ ret : Int32, Erases (do cleanupPci; pure ret) (pure ret) :=
    fun _ => erases_cleanupPci.after (erases_pure _)
  rw [startFrom_succ]
  unfold launchPci
  refine erases_v9pDiscoverDevice.bind fun ok => ?_
  cases ok with
  | false => exact erases_declined.after (hend _)
  | true =>
    show Erases _ (startFrom world calls lateCalls 0)
    rw [startFrom_zero]
    refine (erases_inside _).bind fun ok => ?_
    cases ok with
    | false => exact erases_declined.after (hend _)
    | true => exact erases_launchVirtio.before hend

theorem erases_launchExpansion :
    Erases (launchExpansion world lobby calls lateCalls) (startFrom world calls lateCalls 2) := by
  have hend : ∀ ret : Int32, Erases (do letGo .expansionBase; pure ret) (pure ret) :=
    fun _ => (erases_letGo _).after (erases_pure _)
  rw [startFrom_succ]
  unfold launchExpansion
  refine (erases_ask _).bind fun ok => ?_
  cases ok with
  | false => exact erases_declined.after (hend _)
  | true => exact erases_launchPci.before hend

theorem erases_launchFbx :
    Erases (launchFbx world lobby calls lateCalls) (startFrom world calls lateCalls 5) := by
  have hend : ∀ ret : Int32, Erases (do letGo .iFileSysBox; letGo .fileSysBoxBase; pure ret) (pure ret) :=
    fun _ => (erases_letGo _).after <| (erases_letGo _).after (erases_pure _)
  rw [startFrom_succ, startFrom_succ, startFrom_succ]
  unfold launchFbx
  refine (erases_ask _).bind fun ok => ?_
  cases ok with
  | false => exact erases_declined
  | true =>
    refine (erases_ask _).bind fun ok => ?_
    cases ok with
    | false => exact erases_declined.after (hend _)
    | true =>
      refine (erases_ask _).bind fun ok => ?_
      cases ok with
      | false => exact erases_declined.after (hend _)
      | true => exact erases_launchExpansion.before hend

/-- **Without the record, `launch` is `start`**, when it was not called from a shell. -/
theorem erases_launch (hcli : lobby.cli = false) :
    Erases (launch world lobby calls lateCalls) (start world calls lateCalls) := by
  have hend : ∀ ret : Int32, Erases (do deal (.giveBack .exec); pure ret) (pure ret) :=
    fun _ => (erases_deal _).after (erases_pure _)
  have hhandler : Erases (launchHandler world lobby calls lateCalls) (start world calls lateCalls) := by
    unfold launchHandler
    refine (erases_inside _).bind fun ok => ?_
    cases ok with
    | false => exact erases_pure _
    | true => exact (erases_deal _).after erases_launchFbx
  unfold launch
  rw [hcli]
  exact (erases_keep _).after (hhandler.before hend)

end Erased

/-! ## The accounts -/

/-- What it does to the loans that are out, the last one first; `none` if one is given back that is not the last. -/
def Dealing.effect : Dealing → List Loan → Option (List Loan)
  | .take l, loans => some (l :: loans)
  | .giveBack _, [] => none
  | .giveBack l, top :: rest => if top = l then some rest else none
  | _, loans => some loans

/-- The loans that are out. -/
def openLoans : List Deal → Option (List Loan)
  | [] => some []
  | d :: past => (openLoans past).bind d.what.effect

/-- The resource range that it takes without a pointer. -/
def Dealing.ranges : Dealing → List UInt8
  | .takeRange bar => [bar]
  | _ => []

/-- The resource ranges that were taken without a pointer and so stay out, the last one first. -/
def forgotten : List Deal → List UInt8
  | [] => []
  | d :: past => d.what.ranges ++ forgotten past

/-- Is it a startup message? -/
def Dealing.messages : Dealing → Nat
  | .receive => 1
  | _ => 0

/-- Is it an answer to the startup message? -/
def Dealing.answers : Dealing → Nat
  | .reply _ | .handOver => 1
  | _ => 0

/-- How many startup messages came. -/
def received : List Deal → Nat
  | [] => 0
  | d :: past => received past + d.what.messages

/-- How many answers were given. -/
def answered : List Deal → Nat
  | [] => 0
  | d :: past => answered past + d.what.answers

/-- The device and its ranges are given back when it is quiet, and the device node is removed after the answer. -/
structure Deal.Orderly (d : Deal) (past : List Deal) : Prop where
  quiet : ∀ l, d.what = .giveBack l → l.OfDevice → d.quiet = true
  answered : d.what = .removeNode → 0 < answered past

/-- The record so far: the loans that are out, the pointers, the ranges that are forgotten, and the numbers of messages
and answers. -/
structure Office.Holds (loans : List Loan) (p : Loan → Bool) (r : List UInt8) (n k : Nat) (o : Office) : Prop where
  loans : openLoans o.deals = some loans
  pointers : o.pointer = p
  ranges : forgotten o.deals = r
  received : received o.deals = n
  answered : answered o.deals = k
  orderly : Always Deal.Orderly o.deals

section Accounts

variable {α : Type} {world : World} {lobby : Lobby world} {calls lateCalls : List Callback} {loans loans' : List Loan}
  {p : Loan → Bool} {r : List UInt8} {n k : Nat} {P : St Machine → Prop} {E : Fault → Office → Prop}

/-- What goes on inside does not touch the record. -/
theorem holds_inside {x : Client Machine α} {Q : α → St Machine → Prop} (h : Triple P x Q fun _ _ => True) :
    Triple (fun o => o.Holds loans p r n k ∧ P o.s) (inside x) (fun a o => o.Holds loans p r n k ∧ Q a o.s)
      fun _ _ => True := by
  rintro o ⟨⟨hl, hp, hr, hn, hk, ho⟩, hs⟩
  have hx := h o.s hs
  unfold inside
  cases hrun : x o.s with
  | ok a s =>
    rw [hrun] at hx
    exact ⟨⟨hl, hp, hr, hn, hk, ho⟩, hx⟩
  | error e s => trivial

theorem holds_deal {d : Dealing} (heffect : d.effect loans = some loans')
    (hquiet : ∀ l, d = .giveBack l → l.OfDevice → ∀ s, P s → s.w.Quiet) (hans : d = .removeNode → 0 < k) :
    Triple (fun o => o.Holds loans p r n k ∧ P o.s) (deal d)
      (fun _ o => o.Holds loans' p (d.ranges ++ r) (n + d.messages) (k + d.answers) ∧ P o.s) E := by
  rintro o ⟨⟨hl, hp, hr, hn, hk, ho⟩, hs⟩
  refine ⟨⟨?_, hp, congrArg (d.ranges ++ ·) hr, congrArg (· + d.messages) hn, congrArg (· + d.answers) hk,
    ⟨fun l h hl => ?_, fun h => ?_⟩, ho⟩, hs⟩
  · show (openLoans o.deals).bind d.effect = _
    rw [hl]
    exact heffect
  · exact decide_eq_true (hquiet l h hl o.s hs)
  · rw [hk]
    exact hans h

/-- A loan is taken. -/
theorem holds_take (l : Loan) : Triple (fun o => o.Holds loans p r n k ∧ P o.s) (deal (.take l))
    (fun _ o => o.Holds (l :: loans) p r n k ∧ P o.s) E :=
  holds_deal (d := .take l) rfl (fun _ h => by cases h) fun h => by cases h

/-- Ranges are taken, and no pointer kept. -/
theorem holds_takeRanges (bars : List UInt8) : Triple (fun o => o.Holds loans p r n k ∧ P o.s)
    (bars.forM fun bar => deal (.takeRange bar)) (fun _ o => o.Holds loans p (bars.reverse ++ r) n k ∧ P o.s) E := by
  induction bars generalizing r with
  | nil => exact Triple.ret
  | cons bar bars ih =>
    rw [List.reverse_cons, List.append_assoc]
    refine Triple.bind (holds_deal (d := .takeRange bar) rfl (fun _ h => by cases h) fun h => by cases h) fun _ => ih

/-- The last one is given back. -/
theorem holds_giveBack {l : Loan} (hquiet : l.OfDevice → ∀ s, P s → s.w.Quiet) :
    Triple (fun o => o.Holds (l :: loans) p r n k ∧ P o.s) (deal (.giveBack l))
      (fun _ o => o.Holds loans p r n k ∧ P o.s) E :=
  holds_deal (d := .giveBack l) (if_pos rfl) (fun l' h hl => by cases h; exact hquiet hl) fun h => by cases h

theorem holds_reply (byHand : Bool) : Triple (fun o => o.Holds loans p r n k ∧ P o.s) (deal (.reply byHand))
    (fun _ o => o.Holds loans p r n (k + 1) ∧ P o.s) E :=
  holds_deal (d := .reply byHand) rfl (fun _ h => by cases h) fun h => by cases h

theorem holds_handOver : Triple (fun o => o.Holds loans p r n k ∧ P o.s) (deal .handOver)
    (fun _ o => o.Holds loans p r n (k + 1) ∧ P o.s) E :=
  holds_deal (d := .handOver) rfl (fun _ h => by cases h) fun h => by cases h

theorem holds_receive : Triple (fun o => o.Holds loans p r n k ∧ P o.s) (deal .receive)
    (fun _ o => o.Holds loans p r (n + 1) k ∧ P o.s) E :=
  holds_deal (d := .receive) rfl (fun _ h => by cases h) fun h => by cases h

theorem holds_removeNode : Triple (fun o => o.Holds loans p r n (k + 1) ∧ P o.s) (deal .removeNode)
    (fun _ o => o.Holds loans p r n (k + 1) ∧ P o.s) E :=
  holds_deal (d := .removeNode) rfl (fun _ h => by cases h) fun _ => Nat.succ_pos k

/-- A pointer is set. -/
theorem holds_keep (l : Loan) : Triple (fun o => o.Holds loans p r n k ∧ P o.s) (keep l)
    (fun _ o => o.Holds (l :: loans) (Function.update p l true) r n k ∧ P o.s) E := by
  refine (holds_take l).bind fun _ => Triple.modify ?_
  rintro o ⟨⟨hl, rfl, hr, hn, hk, ho⟩, hs⟩
  exact ⟨⟨hl, rfl, hr, hn, hk, ho⟩, hs⟩

/-- The test at a label: what is out goes back, and a pointer that was not set does no harm. -/
theorem holds_letGo {l : Loan} (hloans : loans = if p l then l :: loans' else loans')
    (hquiet : l.OfDevice → ∀ s, P s → s.w.Quiet) :
    Triple (fun o => o.Holds loans p r n k ∧ P o.s) (letGo l) (fun _ o => o.Holds loans' p r n k ∧ P o.s) E := by
  rintro o ⟨ho, hs⟩
  unfold letGo
  rw [get_bind]
  by_cases hset : p l = true
  · rw [hloans, if_pos hset] at ho
    rw [if_pos ((congrFun ho.pointers l).trans hset)]
    exact holds_giveBack (E := E) hquiet o ⟨ho, hs⟩
  · rw [hloans, if_neg hset] at ho
    rw [if_neg (by rw [ho.pointers]; exact hset)]
    exact ⟨ho, hs⟩

/-- The answer of `V9P_DeclineMount`, whatever becomes of the device node. -/
theorem holds_v9pDeclineMount : Triple (fun o => o.Holds loans p r n k ∧ P o.s) (v9pDeclineMount world lobby)
    (fun _ o => o.Holds loans p r n (k + 1) ∧ P o.s) E := by
  have hdos : ∀ l : Loan, l = .dosBase ∨ l = .iDOS → l.OfDevice → ∀ s, P s → s.w.Quiet := by
    rintro l (rfl | rfl) h
    · exact absurd h (by decide)
    · exact absurd h (by decide)
  intro o ho
  unfold v9pDeclineMount
  rw [get_bind]
  refine Triple.bind (holds_reply _) (fun _ => ?_) o ho
  split
  · split
    · refine (holds_take .dosBase).bind fun _ => ?_
      split
      · refine (holds_take .iDOS).bind fun _ => holds_removeNode.bind fun _ => ?_
        exact (holds_giveBack (hdos _ (.inr rfl))).bind fun _ => holds_giveBack (hdos _ (.inl rfl))
      · exact holds_giveBack (hdos _ (.inl rfl))
    · exact Triple.ret
  · exact Triple.ret

theorem holds_declined (lobby : Lobby world) : Triple (fun o => o.Holds loans p r n k ∧ P o.s) (declined world lobby)
    (fun _ o => o.Holds loans p r n (k + 1) ∧ P o.s) E :=
  holds_v9pDeclineMount.bind fun _ => Triple.ret

/-- A request to the system. -/
theorem holds_ask (l : Loan) (hgrant : Triple P (onLink (grant world)) (fun _ => P) fun _ _ => True) :
    Triple (fun o => o.Holds loans p r n k ∧ P o.s) (ask world l)
      (fun ok o => (if ok then o.Holds (l :: loans) (Function.update p l true) r n k else o.Holds loans p r n k) ∧
        P o.s) fun _ _ => True := by
  refine (holds_inside hgrant).bind fun ok => ?_
  cases ok with
  | true => exact Triple.bind (holds_keep l) fun _ => Triple.pure fun _ h => h
  | false => exact Triple.pure fun _ h => h

end Accounts

/-! ## The transport at the end -/

section Transport

variable {α β : Type} {world : World}

/-- `x` leaves the interrupt and the status as they are. -/
def Hushed (x : StateM Machine α) : Prop := ∀ m, (x m).2.irqInstalled = m.irqInstalled ∧ (x m).2.status = m.status

theorem hushed {x : StateM Machine α} (hx : ∀ {f : Machine → Bool × UInt8}, Blind f → Fixes f x) : Hushed x := by
  have hblind : Blind fun m : Machine => (m.irqInstalled, m.status) := ⟨fun _ _ => rfl, fun _ _ => rfl, fun _ _ => rfl⟩
  exact fun m => Prod.mk.inj (hx hblind m)

theorem Hushed.quiet {x : StateM Machine α} (hx : Hushed x) : Ends Machine.Quiet x fun _ => Machine.Quiet :=
  fun m hm => ⟨(hx m).1.trans hm.1, by rw [(hx m).2]; exact hm.2⟩

theorem quiet_writeStatus {v : UInt8} (hv : v &&& virtioStatusDriverOk = 0) :
    Ends Machine.Quiet (writeStatus v) fun _ => Machine.Quiet := by
  intro m hm
  show Machine.Quiet (if v = 0 then _ else _)
  split
  · exact ⟨hm.1, show (0 : UInt8) &&& virtioStatusDriverOk = 0 by decide⟩
  · exact ⟨hm.1, hv⟩

/-- What `V9P_InitVirtIO` leaves: a device that runs, or a quiet one, and no interrupt server in either case. -/
def InitLeaves (world : World) (ok : Bool) (m : Machine) : Prop :=
  if ok then m.irqInstalled = false ∧ (world.modern || world.bar0) = true else m.Quiet

theorem leaves_failed {P : Machine → Prop} (h : ∀ m, P m → m.Quiet) :
    Ends P (pure false : StateM Machine Bool) (InitLeaves world) := fun m hm => h m hm

theorem leaves_setupQueue (hdev : (world.modern || world.bar0) = true) (modern : Bool) {driverOk : UInt8} :
    Ends Machine.Quiet (setupQueue world modern driverOk) (InitLeaves world) := by
  have hfail : Ends Machine.Quiet (pure false : StateM Machine Bool) (InitLeaves world) := leaves_failed fun _ h => h
  unfold setupQueue
  refine (hushed fixes_tick).quiet.bind fun t => Ends.ite (fun _ => hfail) fun _ => ?_
  refine (hushed (fixes_allocateQueue _)).quiet.bind fun got => ?_
  cases got with
  | none => exact hfail
  | some q =>
    have hfree : ∀ op, Ends Machine.Quiet (do noteMemory op; virtQueueFree q; pure false : StateM Machine Bool)
        (InitLeaves world) := fun op =>
      (hushed (fixes_noteMemory op)).quiet.bind fun _ => (hushed (fixes_virtQueueFree q)).quiet.bind fun _ => hfail
    refine (hushed (fixes_startDMA _ _)).quiet.bind fun n => Ends.ite (fun _ => ?_) fun _ =>
      Ends.ite (fun _ => hfree _) fun _ => ?_
    · exact (hushed (fixes_virtQueueFree q)).quiet.bind fun _ => hfail
    refine (hushed fixes_grant).quiet.bind fun _ => Ends.ite (fun _ => ?_) fun _ => hfree _
    rintro m ⟨hirq, -⟩
    refine ⟨?_, hdev⟩
    show (if driverOk = 0 then _ else _ : Machine).irqInstalled = false
    split
    · exact hirq
    · exact hirq

theorem leaves_initVirtio_modern (hmode : world.modern = true) :
    Ends Machine.Quiet (v9pInitVirtioModern world) (InitLeaves world) := by
  have hdev : (world.modern || world.bar0) = true := by rw [hmode, Bool.true_or]
  unfold v9pInitVirtioModern
  refine (quiet_writeStatus (by decide)).bind fun _ => (hushed (fixes_awaitReset _)).quiet.bind fun _ =>
    Ends.ite (fun _ => ?_) fun _ => leaves_failed fun _ h => h
  refine (quiet_writeStatus (by decide)).bind fun _ => (quiet_writeStatus (by decide)).bind fun _ =>
    (quiet_writeStatus (by decide)).bind fun _ => (hushed fixes_tick).quiet.bind fun _ =>
    Ends.ite (fun _ => ?_) fun _ => ?_
  · exact (quiet_writeStatus (by decide)).bind fun _ => leaves_failed fun _ h => h
  · exact leaves_setupQueue hdev true

theorem leaves_initVirtio_legacy : Ends Machine.Quiet (v9pInitVirtioLegacy world) (InitLeaves world) := by
  unfold v9pInitVirtioLegacy
  refine Ends.ite (fun hbar0 => ?_) fun _ => leaves_failed fun _ h => h
  have hdev : (world.modern || world.bar0) = true := by rw [hbar0, Bool.or_true]
  refine (quiet_writeStatus (by decide)).bind fun _ => (hushed (fixes_awaitReset _)).quiet.bind fun _ =>
    Ends.ite (fun _ => ?_) fun _ => leaves_failed fun _ h => h
  exact (quiet_writeStatus (by decide)).bind fun _ => (quiet_writeStatus (by decide)).bind fun _ =>
    leaves_setupQueue hdev false

theorem leaves_init : Ends Machine.Quiet (v9pInitVirtio world) (InitLeaves world) := by
  have hnote : ∀ ok, Ends (InitLeaves world ok) (do noteTransport (.init ok); pure ok : StateM Machine Bool)
      (InitLeaves world) := by
    intro ok m hm
    cases ok with
    | true => exact hm
    | false => exact hm
  unfold v9pInitVirtio
  refine Ends.ite (fun hmode => ?_) fun _ => ?_
  · exact (leaves_initVirtio_modern hmode).bind hnote
  · exact leaves_initVirtio_legacy.bind hnote

theorem removeInterrupt_irq (m : Machine) : (v9pRemoveInterrupt world m).2.irqInstalled = false := by
  rw [removeInterrupt_eq]
  split
  · rfl
  · rename_i h
    exact Bool.eq_false_of_not_eq_true h

theorem cleanup_quiet {m : Machine} (hdev : (world.modern || world.bar0) = true) (hirq : m.irqInstalled = false) :
    (v9pCleanupVirtio world m).2.Quiet := by
  obtain ⟨status, programmed, revoked, hq⟩ := quiesced_eq world m
  have hstatus : (m.quiesced world).status = 0 := by
    unfold Machine.quiesced quiesce
    rw [if_pos hdev, writeStatus_zero]
  rw [cleanupVirtio_eq fun _ => hdev]
  refine ⟨?_, ?_⟩
  · show (m.quiesced world).irqInstalled = false
    rw [hq]
    exact hirq
  · show (m.quiesced world).status &&& virtioStatusDriverOk = 0
    rw [hstatus]
    decide

theorem installInterrupt_irq : Ends (fun m => m.irqInstalled = false) (v9pInstallInterrupt world)
    fun ok m => ok = false → m.irqInstalled = false := by
  have hgrant : Ends (fun m => m.irqInstalled = false) (grant world) fun _ m => m.irqInstalled = false :=
    fun _ hm => hm
  unfold v9pInstallInterrupt
  refine hgrant.bind fun _ => Ends.ite (fun _ => ?_) fun _ => Ends.pure fun _ hm _ => hm
  refine hgrant.bind fun _ => Ends.ite (fun _ => ?_) fun _ => Ends.pure fun _ hm _ => hm
  exact fun _ _ hno => absurd hno Bool.true_eq_false.mp

end Transport

/-! ## From label to label -/

/-- How deep in `_start` a loan is taken. -/
def Loan.rank : Loan → Nat
  | .exec => 0
  | .fileSysBoxBase => 1
  | .iFileSysBox => 2
  | .expansionBase => 3
  | .iPCI => 4
  | .pciDevice | .bar0 | .bar4 => 5
  | .dosBase | .iDOS => 6

theorem Loan.update_other {l l' : Loan} (h : l'.rank ≠ l.rank) (p : Loan → Bool) (b : Bool) :
    Function.update p l b l' = p l' := Function.update_of_ne (fun heq => h (congrArg rank heq)) _ _

section Labels

variable {world : World} {lobby : Lobby world} {calls lateCalls : List Callback} {loans : List Loan} {p : Loan → Bool}
  {r : List UInt8} {n k : Nat} {P : St Machine → Prop}

/-- Nothing is known about what goes on inside. -/
theorem holds_inside_any {α : Type} (x : Client Machine α) :
    Triple (fun o => o.Holds loans p r n k ∧ P o.s) (inside x) (fun _ o => o.Holds loans p r n k ∧ True)
      fun _ _ => True :=
  holds_inside (Triple.top (fun _ _ => trivial) fun _ _ => trivial)

/-- A step of the machine. -/
theorem holds_onLink {α : Type} {P : Machine → Prop} {x : StateM Machine α} {Q : α → Machine → Prop} (h : Ends P x Q) :
    Triple (fun o => o.Holds loans p r n k ∧ P o.s.w) (inside (onLink x)) (fun a o => o.Holds loans p r n k ∧ Q a o.s.w)
      fun _ _ => True :=
  holds_inside (P := fun s => P s.w) (Q := fun a s => Q a s.w) fun s hs => h s.w hs

/-- The clean-up at a label, and the return. -/
theorem holds_label {P Q : Machine → Prop} {x : StateM Machine Unit} (h : Ends P x fun _ => Q) (ret : Int32) :
    Triple (fun o => o.Holds loans p r n k ∧ P o.s.w) (do inside (onLink x); pure ret : Launching Int32)
      (fun _ o => o.Holds loans p r n k ∧ Q o.s.w) fun _ _ => True :=
  (holds_onLink h).bind fun _ => Triple.ret

theorem holds_launchBuffers : Triple (fun o => o.Holds loans p r n k ∧ P o.s)
    (launchBuffers world lobby calls lateCalls) (fun _ o => o.Holds loans p r n (k + 1) ∧ True) fun _ _ => True := by
  have hclean : Ends (fun _ => True) cleanupBufs fun _ _ => True := fun _ _ => trivial
  unfold launchBuffers
  refine (holds_inside_any _).bind fun ok => ?_
  cases ok with
  | false => exact Triple.bind (holds_declined lobby (P := fun _ => True)) (holds_label hclean)
  | true =>
    refine (holds_inside_any (P := fun _ => True) _).bind fun ok => ?_
    cases ok with
    | false => exact Triple.bind (holds_declined lobby (P := fun _ => True)) (holds_label hclean)
    | true =>
      exact Triple.bind (Triple.bind (holds_handOver (P := fun _ => True)) fun _ =>
        holds_inside_any (P := fun _ => True) _) (holds_label hclean)

theorem holds_launchIrq : Triple (fun o => o.Holds loans p r n k ∧ P o.s) (launchIrq world lobby calls lateCalls)
    (fun _ o => o.Holds loans p r n (k + 1) ∧ o.s.w.irqInstalled = false) fun _ _ => True := by
  have hremove : Ends (fun _ => True) (v9pRemoveInterrupt world) fun _ m => m.irqInstalled = false :=
    fun m _ => removeInterrupt_irq m
  unfold launchIrq
  refine (holds_inside_any _).bind fun ok => ?_
  cases ok with
  | false => exact Triple.bind (holds_declined lobby (P := fun _ => True)) (holds_label hremove)
  | true => exact Triple.bind (holds_launchBuffers (P := fun _ => True)) (holds_label hremove)

theorem holds_launchVirtio (hdev : (world.modern || world.bar0) = true) :
    Triple (fun o => o.Holds loans p r n k ∧ o.s.w.irqInstalled = false) (launchVirtio world lobby calls lateCalls)
      (fun _ o => o.Holds loans p r n (k + 1) ∧ o.s.w.Quiet) fun _ _ => True := by
  have hclean : Ends (fun m => m.irqInstalled = false) (v9pCleanupVirtio world) fun _ => Machine.Quiet :=
    fun _ hm => cleanup_quiet hdev hm
  unfold launchVirtio
  refine (holds_onLink installInterrupt_irq).bind fun ok => ?_
  cases ok with
  | false =>
    exact (Triple.bind (holds_declined lobby (P := fun s => s.w.irqInstalled = false)) (holds_label hclean)).pre
      fun _ h => ⟨h.1, h.2 rfl⟩
  | true =>
    exact Triple.bind (holds_launchIrq (P := fun s => true = false → s.w.irqInstalled = false)) (holds_label hclean)

/-- The loan is out if its pointer is set. -/
def lent (p : Loan → Bool) (l : Loan) (rest : List Loan) : List Loan := if p l then l :: rest else rest

/-- The loans of the device, with what was taken before. -/
def deviceLoans (p : Loan → Bool) (rest : List Loan) : List Loan :=
  if p .pciDevice then lent p .bar4 (lent p .bar0 (.pciDevice :: rest)) else rest

/-- The ranges that stay out, when there was a device. -/
def Lobby.leftOut (lobby : Lobby world) (p : Loan → Bool) : List UInt8 :=
  if p .pciDevice then lobby.pci.ranges.reverse else []

theorem Lobby.leftOut_none (lobby : Lobby world) (h : p .pciDevice = false) : lobby.leftOut p = [] := by
  rw [leftOut, h]
  rfl

/-- A resource range, if there is one. -/
theorem holds_range {c : Bool} {l : Loan} (hfresh : p l = false) {x : Launching Bool}
    {Q : Bool → Office → Prop} (hx : Triple (fun o => o.Holds (if c then l :: loans else loans)
      (Function.update p l c) r n k ∧ P o.s) x Q fun _ _ => True) :
    Triple (fun o => o.Holds loans p r n k ∧ P o.s) (do
      if c then keep l
      x) Q fun _ _ => True := by
  cases c with
  | true => exact Triple.bind (holds_keep l) fun _ => hx
  | false =>
    have hsame : Function.update p l false = p := by rw [← hfresh, Function.update_eq_self]
    rw [hsame] at hx
    exact hx

theorem holds_v9pDiscoverDevice (hfresh : ∀ l : Loan, 5 ≤ l.rank → p l = false) :
    Triple (fun o => o.Holds loans p [] n k ∧ o.s.w.Quiet) (v9pDiscoverDevice world lobby)
      (fun _ o => ∃ p', (∀ l : Loan, l.rank < 5 → p' l = p l) ∧
        o.Holds (deviceLoans p' loans) p' (lobby.leftOut p') n k ∧ o.s.w.Quiet)
      fun _ _ => True := by
  unfold v9pDiscoverDevice
  refine Triple.bind (holds_ask (P := fun s => s.w.Quiet) _ fun s hs => hs) fun ok => ?_
  cases ok with
  | false =>
    refine Triple.pure fun o ho => ⟨p, fun _ _ => rfl, ?_, ho.2⟩
    rw [deviceLoans, Lobby.leftOut, hfresh .pciDevice le_rfl]
    exact ho.1
  | true =>
    have hbar0 : Function.update p .pciDevice true .bar0 = false := by
      rw [Function.update_of_ne (by decide)]
      exact hfresh .bar0 le_rfl
    have hbar4 : ∀ c, Function.update (Function.update p .pciDevice true) .bar0 c .bar4 = false := by
      intro c
      rw [Function.update_of_ne (by decide), Function.update_of_ne (by decide)]
      exact hfresh .bar4 le_rfl
    refine holds_range (P := fun s => s.w.Quiet) (p := Function.update p .pciDevice true) (l := .bar0) hbar0 ?_
    refine holds_range (P := fun s => s.w.Quiet) (l := .bar4) (hbar4 _) ?_
    refine Triple.bind (holds_takeRanges (P := fun s => s.w.Quiet) _) fun _ => Triple.pure fun o ho => ?_
    rw [List.append_nil] at ho
    refine ⟨Function.update (Function.update (Function.update p .pciDevice true) .bar0
      (lobby.pci.resourceRange 0).isSome) .bar4 (lobby.pci.resourceRange 4).isSome, fun l hl => ?_, ho.1, ho.2⟩
    rw [Loan.update_other hl.ne, Loan.update_other hl.ne, Loan.update_other hl.ne]

theorem holds_cleanupPci (hset : p .iPCI = true) :
    Triple (fun o => o.Holds (deviceLoans p (.iPCI :: loans)) p r n k ∧ o.s.w.Quiet) cleanupPci
      (fun _ o => o.Holds loans p r n k ∧ o.s.w.Quiet) fun _ _ => True := by
  have hlast : Triple (fun o => o.Holds (.iPCI :: loans) p r n k ∧ o.s.w.Quiet) (letGo .iPCI)
      (fun _ o => o.Holds loans p r n k ∧ o.s.w.Quiet) fun _ _ => True :=
    holds_letGo (P := fun s => s.w.Quiet) (by rw [hset]; rfl) fun h => absurd h (by decide)
  rintro o ⟨ho, hq⟩
  unfold cleanupPci
  rw [get_bind]
  by_cases hdev : p .pciDevice = true
  · rw [deviceLoans, if_pos hdev] at ho
    rw [if_pos ((congrFun ho.pointers _).trans hdev)]
    refine Triple.bind (holds_letGo (P := fun s => s.w.Quiet) rfl fun _ _ h => h) (fun _ => Triple.bind
      (holds_letGo (P := fun s => s.w.Quiet) rfl fun _ _ h => h) fun _ => Triple.bind
        (holds_giveBack (P := fun s => s.w.Quiet) fun _ _ h => h) fun _ => hlast) o ⟨ho, hq⟩
  · rw [deviceLoans, if_neg hdev] at ho
    rw [if_neg (by rw [ho.pointers]; exact hdev)]
    exact hlast o ⟨ho, hq⟩

/-- The device, with everything below it. -/
theorem holds_launchPci (hset : p .iPCI = true) (hfresh : ∀ l : Loan, 5 ≤ l.rank → p l = false) :
    Triple (fun o => o.Holds (.iPCI :: loans) p [] n k ∧ o.s.w.Quiet) (launchPci world lobby calls lateCalls)
      (fun _ o => ∃ p', (∀ l : Loan, l.rank < 5 → p' l = p l) ∧ o.Holds loans p' (lobby.leftOut p') n (k + 1) ∧
        o.s.w.Quiet) fun _ _ => True := by
  have hend : ∀ (p' : Loan → Bool), (∀ l : Loan, l.rank < 5 → p' l = p l) → ∀ ret : Int32,
      Triple (fun o => o.Holds (deviceLoans p' (.iPCI :: loans)) p' (lobby.leftOut p') n (k + 1) ∧ o.s.w.Quiet)
        (do cleanupPci; pure ret : Launching Int32)
        (fun _ o => ∃ p', (∀ l : Loan, l.rank < 5 → p' l = p l) ∧ o.Holds loans p' (lobby.leftOut p') n (k + 1) ∧
          o.s.w.Quiet) fun _ _ => True := fun p' hp' _ =>
    Triple.bind (holds_cleanupPci ((hp' .iPCI (by decide)).trans hset)) fun _ => Triple.pure fun _ ho => ⟨p', hp', ho⟩
  unfold launchPci
  refine (holds_v9pDiscoverDevice hfresh).bind fun ok => ?_
  rintro o ⟨p', hp', ho⟩
  have hdeclined := Triple.bind (holds_declined lobby (P := fun s => s.w.Quiet) (E := fun _ _ => True))
    (hend p' hp')
  cases ok with
  | false => exact hdeclined o ho
  | true =>
    refine Triple.bind (holds_onLink leaves_init) (fun ok => ?_) o ho
    cases ok with
    | false => exact hdeclined
    | true =>
      rintro o ⟨ho, hirq, hdev⟩
      exact Triple.bind (holds_launchVirtio hdev) (hend p' hp') o ⟨ho, hirq⟩

/-- From `IPCI` to `cleanup_expansion`. -/
theorem holds_launchExpansion (hset : p .expansionBase = true) (hfresh : ∀ l : Loan, 4 ≤ l.rank → p l = false) :
    Triple (fun o => o.Holds (.expansionBase :: loans) p [] n k ∧ o.s.w.Quiet)
      (launchExpansion world lobby calls lateCalls)
      (fun _ o => ∃ p', (∀ l : Loan, l.rank < 4 → p' l = p l) ∧ o.Holds loans p' (lobby.leftOut p') n (k + 1) ∧
        o.s.w.Quiet) fun _ _ => True := by
  have hend : ∀ (p' : Loan → Bool) (r : List UInt8), (∀ l : Loan, l.rank < 4 → p' l = p l) → r = lobby.leftOut p' →
      ∀ ret : Int32, Triple (fun o => o.Holds (.expansionBase :: loans) p' r n (k + 1) ∧ o.s.w.Quiet)
        (do letGo .expansionBase; pure ret : Launching Int32)
        (fun _ o => ∃ p', (∀ l : Loan, l.rank < 4 → p' l = p l) ∧ o.Holds loans p' (lobby.leftOut p') n (k + 1) ∧
        o.s.w.Quiet) fun _ _ => True := by
    rintro p' _ hp' rfl ret
    exact Triple.bind (holds_letGo (P := fun s => s.w.Quiet) (by rw [hp' .expansionBase (by decide), hset]; rfl)
      fun h => absurd h (by decide)) fun _ => Triple.pure fun _ ho => ⟨p', hp', ho⟩
  unfold launchExpansion
  refine Triple.bind (holds_ask (P := fun s => s.w.Quiet) _ fun s hs => hs) fun ok => ?_
  cases ok with
  | false =>
    exact Triple.bind (holds_declined lobby (P := fun s => s.w.Quiet))
      (hend p [] (fun _ _ => rfl) (lobby.leftOut_none (hfresh .pciDevice (by decide))).symm)
  | true =>
    refine Triple.bind (holds_launchPci (Function.update_self _ _ _) fun l hl => ?_) fun ret => ?_
    · rw [Loan.update_other (show l.rank ≠ Loan.iPCI.rank from Nat.ne_of_gt hl)]
      exact hfresh l (by omega)
    · rintro o ⟨p', hp', ho⟩
      exact hend p' _ (fun l hl => (hp' l (by omega)).trans (Loan.update_other hl.ne p true)) rfl ret o ho

/-- From the message to `cleanup_exec`. -/
theorem holds_launchFbx (hfresh : ∀ l : Loan, 1 ≤ l.rank → p l = false) :
    Triple (fun o => o.Holds loans p [] n k ∧ o.s.w.Quiet) (launchFbx world lobby calls lateCalls)
      (fun _ o => ∃ p', o.Holds loans p' (lobby.leftOut p') n (k + 1)) fun _ _ => True := by
  have hend : ∀ (p' : Loan → Bool) (rest : List Loan) (r : List UInt8), p' .fileSysBoxBase = true →
      rest = lent p' .iFileSysBox (.fileSysBoxBase :: loans) → r = lobby.leftOut p' → ∀ ret : Int32,
      Triple (fun o => o.Holds rest p' r n (k + 1) ∧ o.s.w.Quiet)
        (do letGo .iFileSysBox; letGo .fileSysBoxBase; pure ret : Launching Int32)
        (fun _ o => ∃ p', o.Holds loans p' (lobby.leftOut p') n (k + 1)) fun _ _ => True := by
    rintro p' rest _ hset hrest rfl ret
    exact Triple.bind (holds_letGo (P := fun s => s.w.Quiet) hrest fun h => absurd h (by decide)) fun _ =>
      Triple.bind (holds_letGo (P := fun s => s.w.Quiet) (by rw [hset]; rfl) fun h => absurd h (by decide)) fun _ =>
        Triple.pure fun _ ho => ⟨p', ho.1⟩
  have hnone : lobby.leftOut p = [] := lobby.leftOut_none (hfresh .pciDevice (by decide))
  have hask : ∀ (l : Loan) (p' : Loan → Bool) (rest : List Loan), Triple (fun o => o.Holds rest p' [] n k ∧ o.s.w.Quiet)
      (ask world l) (fun ok o => (if ok then o.Holds (l :: rest) (Function.update p' l true) [] n k
        else o.Holds rest p' [] n k) ∧ o.s.w.Quiet) fun _ _ => True := fun l _ _ =>
    holds_ask (P := fun s => s.w.Quiet) l fun s hs => hs
  unfold launchFbx
  refine Triple.bind (hask _ _ _) fun ok => ?_
  cases ok with
  | false => exact (holds_declined lobby (P := fun s => s.w.Quiet)).post fun _ o ho => ⟨p, hnone ▸ ho.1⟩
  | true =>
    refine Triple.bind (hask _ _ _) fun ok => ?_
    cases ok with
    | false =>
      refine Triple.bind (holds_declined lobby (P := fun s => s.w.Quiet))
        (hend _ _ _ (Function.update_self _ _ _) ?_ hnone.symm)
      unfold lent
      rw [Function.update_of_ne (by decide), hfresh .iFileSysBox (by decide)]
      rfl
    | true =>
      refine Triple.bind (hask _ _ _) fun ok => ?_
      cases ok with
      | false => exact Triple.bind (holds_declined lobby (P := fun s => s.w.Quiet)) (hend _ _ _ rfl rfl hnone.symm)
      | true =>
        refine Triple.bind (holds_launchExpansion (Function.update_self _ _ _) fun l hl => ?_) fun ret => ?_
        · have hother : ∀ {l' : Loan}, l'.rank < 4 → l.rank ≠ l'.rank := fun h => (h.trans_le hl).ne'
          rw [Loan.update_other (hother (by decide)), Loan.update_other (hother (by decide)),
            Loan.update_other (hother (by decide)), hfresh l (by omega)]
        · rintro o ⟨p', hp', ho⟩
          refine hend p' _ _ ((hp' _ (by decide)).trans rfl) ?_ rfl ret o ho
          rw [lent, hp' .iFileSysBox (by decide)]
          rfl

end Labels

/-! ## The whole run -/

/-- The office when `_start` is entered. -/
def Office.boot (s : St Machine) : Office := ⟨s, fun _ => false, []⟩

/-- What there was a pointer to was given back, the last first, and the ranges that `V9P_DetectModern` took were not.
Each startup message was answered once, and the order was kept: the device goes back when it is quiet, and the device
node after the answer. -/
structure Office.Tidy {world : World} (lobby : Lobby world) (o : Office) : Prop where
  loans : openLoans o.deals = some []
  ranges : forgotten o.deals = if o.pointer .pciDevice then lobby.pci.ranges.reverse else []
  answered : answered o.deals = received o.deals
  orderly : Always Deal.Orderly o.deals

section Run

variable {world : World} {lobby : Lobby world} {calls lateCalls : List Callback} {loans : List Loan} {p : Loan → Bool}

/-- A message comes if the first request is granted, and then it is answered. -/
theorem holds_launchHandler (hfresh : ∀ l : Loan, 1 ≤ l.rank → p l = false) :
    Triple (fun o => o.Holds loans p [] 0 0 ∧ o.s.w = .boot) (launchHandler world lobby calls lateCalls)
      (fun _ o => ∃ p', o.Holds loans p' (lobby.leftOut p') (world.grants 0).toNat (world.grants 0).toNat)
      fun _ _ => True := by
  have hgrant : Ends (· = Machine.boot) (grant world) fun ok m => ok = world.grants 0 ∧ m.Quiet := by
    rintro m rfl
    exact ⟨rfl, rfl, show (0 : UInt8) &&& virtioStatusDriverOk = 0 by decide⟩
  unfold launchHandler
  refine Triple.bind (holds_onLink hgrant) fun ok => ?_
  rintro o ⟨ho, hok, hquiet⟩
  rw [← hok]
  cases ok with
  | false => exact ⟨p, lobby.leftOut_none (hfresh .pciDevice (by decide)) ▸ ho⟩
  | true =>
    exact Triple.bind (holds_receive (P := fun s => s.w.Quiet)) (fun _ => holds_launchFbx hfresh) o ⟨ho, hquiet⟩

theorem holds_launch : Triple (fun o => o.Holds [] (fun _ => false) [] 0 0 ∧ o.s.w = .boot)
    (launch world lobby calls lateCalls)
    (fun _ o => ∃ p', o.Holds [] p' (lobby.leftOut p') (!lobby.cli && world.grants 0).toNat
      (!lobby.cli && world.grants 0).toNat)
    fun _ _ => True := by
  have hend : ∀ (n : Nat) (ret : Int32), Triple (fun o => ∃ p', o.Holds [.exec] p' (lobby.leftOut p') n n)
      (do deal (.giveBack .exec); pure ret : Launching Int32) (fun _ o => ∃ p', o.Holds [] p' (lobby.leftOut p') n n)
      fun _ _ => True := by
    rintro n ret o ⟨p', ho⟩
    have hback : Triple (fun o => o.Holds [.exec] p' (lobby.leftOut p') n n ∧ True) (deal (.giveBack .exec))
        (fun _ o => o.Holds [] p' (lobby.leftOut p') n n ∧ True) fun _ _ => True :=
      holds_giveBack (P := fun _ => True) fun h => absurd h (by decide)
    exact ⟨p', (hback o ⟨ho, trivial⟩).1⟩
  have hfresh : ∀ l : Loan, 1 ≤ l.rank → Function.update (fun _ => false) Loan.exec true l = false :=
    fun l hl => Loan.update_other (show l.rank ≠ Loan.exec.rank from Nat.ne_of_gt hl) _ true
  unfold launch
  refine Triple.bind (holds_keep (P := fun s => s.w = .boot) .exec) fun _ => ?_
  cases hcli : lobby.cli with
  | true => exact (hend 0 returnFail).pre fun o ho => ⟨_, ho.1⟩
  | false => exact Triple.bind (holds_launchHandler hfresh) (hend _)

end Run

/-- A modern device, and memory for no queue. -/
def scantWorld : World where
  modern := true
  bar0 := true
  phys := fun _ => 0
  acts := fun _ => []
  checks := fun _ => 0
  readStatus := fun t => if t = 6 then 0 else 11
  queueSize := fun _ => 128
  dmaEntries := fun _ => 1
  grants := fun t => t < 6

/-- Its four regions are in one BAR. -/
def scantLobby : Lobby scantWorld where
  cli := false
  pci := listedDevice [1, 3, 4, 2]
  bar0_eq := rfl
  modern_eq := by decide
  deviceNode := true
  dosBase := fun _ => true
  iDOS := fun _ => true

/-- What a run returns, and the ranges that stay out. -/
def returnedWith : EStateM.Result Fault Office Int32 → Option (Int32 × List UInt8)
  | .ok ret o => some (ret, forgotten o.deals)
  | .error _ _ => none

theorem scant_returns : returnedWith (launch scantWorld scantLobby [] []
    (.boot ⟨startHandler (fun _ => 0) fun _ => 0, .boot, []⟩)) = some (returnOk, [0, 0, 0, 0]) := by decide +kernel

end Virtio9P
