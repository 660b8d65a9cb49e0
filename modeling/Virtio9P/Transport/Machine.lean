import Virtio9P.Client
import Virtio9P.Virtqueue.Rings

/-!
# The transport (`virtio_init.c`, `virtio_irq.c`, the polling of `p9_client.c`)

What is below the 9P client: the driver's side of the device (`h->vq`, the `STATUS` register, the interrupt), the memory
that the device reaches, and the device. `Machine` is its state, with a history of what was done to the memory and to
the transport; `busLink` is the link that the client runs on.

Nothing is known about the surroundings, so they are a parameter. A `World` answers every question at the time it is
asked: what a register holds, whether there is memory, how long a deadline is away, and what the device does between
two looks at the used ring. A statement about every world is one about every device and every system. The device reads a
message out of the buffer that its chain points to, when it likes, and all requests but a `Tflush` have one buffer.

Cache operations, the doorbell, the feature bits and the mount tag have no effect on what is modelled and are left out.
A modern device is one whose `COMMON_CFG` region was found, at an address other than 0.
-/

namespace Virtio9P

open Lib

/-! ## Memory -/

/-- The memory that the device is told about. -/
inductive DmaBlock where
  | tx
  | rx
  | flush
  /-- the `n`-th vring that was allocated -/
  | vring (n : Nat)
  deriving DecidableEq

/-- What is done to such memory. -/
inductive MemOp where
  /-- `AllocVecTags` returned it -/
  | alloc (b : DmaBlock)
  /-- `StartDMA` returned at least one entry -/
  | startDMA (b : DmaBlock) (size : Nat)
  | endDMA (b : DmaBlock) (size : Nat)
  /-- `FreeVec` -/
  | free (b : DmaBlock)
  deriving DecidableEq

/-- An operation, with the memory that the device could reach through its chains at that time. -/
structure MemEvent where
  op : MemOp
  reached : List DmaBlock
  deriving DecidableEq

/-! ## The queue and its two ends -/

/-- The cookie of a request: the buffer that its message is in. -/
inductive Cookie where
  | tx
  | flush
  deriving DecidableEq

def Cookie.block : Cookie → DmaBlock
  | .tx => .tx
  | .flush => .flush

/-- What the device wrote into `rx_buf` for a request, and the length that it reported. -/
structure Answer where
  request : Nat
  bytes : List UInt8
  length : UInt32

/-- `h->vq`: the queue with its memory, the device's end of it, and what has gone over it. -/
structure Line where
  /-- `mem_block` -/
  block : Nat
  /-- `mem_size` -/
  memSize : Nat
  /-- `dma_entries` -/
  dmaEntries : Nat
  traffic : Traffic Cookie
  /-- history: the message of each request -/
  sent : List (List UInt8)
  /-- the messages that the device has read, with the numbers of their requests, newest first -/
  fetched : List (Nat × List UInt8)
  /-- history: the answers of the device -/
  written : List Answer
  /-- the requests before this one were revoked by a reset of the device -/
  revoked : Nat

namespace Line

/-- The requests that the device has, taken or not. -/
def held (q : Line) : List Nat :=
  (q.traffic.inFlight.map Taken.request ++
    List.range' q.traffic.taken.length (q.traffic.posted.length - q.traffic.taken.length)).filter (q.revoked ≤ ·)

/-- The requests that `VirtQueue_GetBuf` has returned. -/
def collected (q : Line) : List Nat := (q.traffic.completed.take q.traffic.returned.length).map (·.1.request)

/-- The requests that were neither returned nor revoked. -/
def outstanding (q : Line) : List Nat :=
  (List.range q.traffic.posted.length).filter fun n => q.revoked ≤ n ∧ n ∉ q.collected

/-- The memory of a chain: its message, the receive buffer and the descriptors. -/
def chainBlocks (q : Line) (request : Nat) : List DmaBlock :=
  match q.traffic.posted[request]? with
  | some ⟨_, _, some cookie⟩ => [cookie.block, .rx, .vring q.block]
  | _ => [.rx, .vring q.block]

/-- What is now in the buffer that a request points to; `texts` are the two buffers that messages are in. -/
def buffered (q : Line) (texts : Cookie → Mem) (request : Nat) : List UInt8 :=
  match q.traffic.posted[request]? with
  | some ⟨_, _, some cookie⟩ => (texts cookie).read 0 (q.sent.getD request []).length
  | _ => []

/-- The message of a request to the device: as it has read it, or as it finds it. -/
def message (q : Line) (texts : Cookie → Mem) (request : Nat) : List UInt8 :=
  (q.fetched.lookup request).getD (q.buffered texts request)

end Line

/-- What the device does. -/
inductive Act where
  /-- take the next entry of the avail ring -/
  | take
  /-- read the message of the `k`-th of the chains it has taken -/
  | fetch (k : Nat)
  /-- complete the `k`-th of the chains it has taken: `answer` is the bytes that it writes into `rx_buf` for the message
  and the length that it reports. A message that was not read yet is read now. -/
  | complete (k : Nat) (answer : List UInt8 → List UInt8 × UInt32)

def Line.act (q : Line) (texts : Cookie → Mem) (rx : Mem) : Act → Line × Mem
  | .take => ({ q with traffic := q.traffic.take }, rx)
  | .fetch k =>
    match q.traffic.inFlight[k]? with
    | none => (q, rx)
    | some c => ({ q with fetched := (c.request, q.message texts c.request) :: q.fetched }, rx)
  | .complete k answer =>
    match q.traffic.inFlight[k]? with
    | none => (q, rx)
    | some c =>
      let a := answer (q.message texts c.request)
      ({ q with traffic := q.traffic.complete k a.2, written := q.written ++ [⟨c.request, a.1, a.2⟩] }, rx.write 0 a.1)

def Line.acts (q : Line) (texts : Cookie → Mem) (rx : Mem) : List Act → Line × Mem
  | [] => (q, rx)
  | a :: as => (q.act texts rx a).1.acts texts (q.act texts rx a).2 as

/-! ## World and machine -/

/-- The answers of the surroundings, by the time of the question. -/
structure World where
  /-- `modern_mode` -/
  modern : Bool
  /-- is there a `BAR0`? -/
  bar0 : Bool
  /-- the address of a block for the device -/
  phys : DmaBlock → UInt32
  /-- what the device does before the driver looks at the used ring -/
  acts : Nat → List Act
  /-- at how many looks at the clock a deadline is not over yet -/
  checks : Nat → Nat
  /-- the `STATUS` register -/
  readStatus : Nat → UInt8
  /-- the size of queue 0 -/
  queueSize : Nat → UInt16
  /-- what `StartDMA` returns -/
  dmaEntries : Nat → Nat
  /-- whether the system grants a request: memory, a library, an interface, the interrupt, the file system -/
  grants : Nat → Bool

/-- What was done to the transport. -/
inductive Transition where
  /-- `V9P_InitVirtIO` returned -/
  | init (ok : Bool)
  /-- `V9P_CleanupVirtIO` -/
  | cleanup
  /-- `V9P_RemoveInterrupt` of an installed interrupt -/
  | removeInterrupt
  deriving DecidableEq

/-- The transport part of `struct V9PHandler`, and what the device was told. -/
structure Machine where
  now : Nat
  /-- the last value written to `STATUS` -/
  status : UInt8
  /-- the vring that the device was given since its last reset -/
  programmed : Option Nat
  /-- `none` is `NULL` -/
  vq : Option Line
  /-- how many vrings were allocated -/
  vrings : Nat
  irqInstalled : Bool
  /-- `tx_buf != NULL`, `rx_buf != NULL` and `flush_buf != NULL` -/
  buf : DmaBlock → Bool
  /-- `tx_buf` and `flush_buf`, as the device sees them -/
  texts : Cookie → Mem
  /-- `tx_dma_active`, `rx_dma_active` and `flush_dma_active` -/
  dmaActive : DmaBlock → Bool
  /-- history, newest first -/
  memory : List MemEvent
  /-- history, newest first -/
  transport : List Transition

/-- The machine when `_start` is entered. -/
def Machine.boot : Machine where
  now := 0
  status := 0
  programmed := none
  vq := none
  vrings := 0
  irqInstalled := false
  buf := fun _ => false
  texts := fun _ _ => 0
  dmaActive := fun _ => false
  memory := []
  transport := []

/-- `VIRTIO_STATUS_ACKNOWLEDGE`, `_DRIVER`, `_DRIVER_OK`, `_FEATURES_OK` and `_FAILED`. -/
def virtioStatusAcknowledge : UInt8 := 1
def virtioStatusDriver : UInt8 := 2
def virtioStatusDriverOk : UInt8 := 4
def virtioStatusFeaturesOk : UInt8 := 8
def virtioStatusFailed : UInt8 := 128

namespace Machine

/-- The device runs on the queue `h->vq`. -/
def Live (m : Machine) : Prop :=
  m.status &&& virtioStatusDriverOk ≠ 0 ∧ m.vq ≠ none ∧ m.programmed = m.vq.map Line.block

instance (m : Machine) : Decidable m.Live := by
  unfold Live
  infer_instance

/-- A message is put into its buffer. -/
def stored (m : Machine) (cookie : Cookie) (tx : List UInt8) : Machine :=
  { m with texts := Function.update m.texts cookie ((m.texts cookie).write 0 tx) }

/-- The memory that the device can reach through the chains it has. -/
def reached (m : Machine) : List DmaBlock :=
  match m.vq with
  | some q => if m.Live then q.held.flatMap q.chainBlocks else []
  | none => []

end Machine

/-! ## Questions and operations -/

section Operations

/-- A look at the time. -/
def tick : StateM Machine Nat := modifyGet fun m => (m.now, { m with now := m.now + 1 })

variable (world : World)

/-- Does the system grant the request? -/
def grant : StateM Machine Bool := do return world.grants (← tick)

def noteMemory (op : MemOp) : StateM Machine Unit :=
  modify fun m => { m with memory := ⟨op, m.reached⟩ :: m.memory }

def noteTransport (e : Transition) : StateM Machine Unit := modify fun m => { m with transport := e :: m.transport }

/-- `StartDMA`: the number of entries. -/
def startDMA (b : DmaBlock) (size : Nat) : StateM Machine Nat := do
  let n := world.dmaEntries (← tick)
  if n = 0 then pure 0
  else do
    noteMemory (.startDMA b size)
    pure n

/-- Write the `STATUS` register. The value 0 resets the device: it forgets its queue and the chains on it. -/
def writeStatus (v : UInt8) : StateM Machine Unit := modify fun m =>
  if v = 0 then
    { m with
      status := 0
      programmed := none
      vq := m.vq.map fun q => { q with revoked := q.traffic.posted.length } }
  else { m with status := v }

/-- Poll until `STATUS` reads 0, this many times at most. -/
def awaitReset : Nat → StateM Machine Bool
  | 0 => pure false
  | tries + 1 => do
    if world.readStatus (← tick) = 0 then pure true else awaitReset tries

end Operations

/-! ## Queue memory -/

section Queues

variable (world : World)

/-- `total_mem` of `VirtQueue_Allocate`. -/
def vringSize (queueSize : Nat) : Nat :=
  let availEnd := 16 * queueSize + 2 * (3 + queueSize)
  let usedOffset := (availEnd + 4095) / 4096 * 4096
  usedOffset + (2 * 3 + 8 * queueSize)

/-- The memory of `VirtQueue_Allocate`: the rings, then the record and two tables. -/
def allocateQueue (queueSize : Nat) : StateM Machine (Option Line) := do
  if ← grant world then do
    let n ← modifyGet fun m => (m.vrings, { m with vrings := m.vrings + 1 })
    noteMemory (.alloc (.vring n))
    if ← grant world then
      if ← grant world then
        if ← grant world then
          pure (some ⟨n, vringSize queueSize, 0, .init queueSize false, [], [], [], 0⟩)
        else do
          noteMemory (.free (.vring n))
          pure none
      else do
        noteMemory (.free (.vring n))
        pure none
    else do
      noteMemory (.free (.vring n))
      pure none
  else pure none

/-- `VirtQueue_Free`. -/
def virtQueueFree (q : Line) : StateM Machine Unit := do
  if 0 < q.dmaEntries then noteMemory (.endDMA (.vring q.block) q.memSize)
  noteMemory (.free (.vring q.block))

/-- The part of `V9P_InitVirtIO` from the size of the queue on, which is the same in both modes. -/
def setupQueue (modern : Bool) (driverOk : UInt8) : StateM Machine Bool := do
  let qMax := world.queueSize (← tick)
  if qMax = 0 then pure false
  else
    match ← allocateQueue world qMax.toNat with
    | none => pure false
    | some q => do
      let vringEntries ← startDMA world (.vring q.block) q.memSize
      if vringEntries = 0 then do
        virtQueueFree q
        pure false
      else if 1 < vringEntries then do
        noteMemory (.endDMA (.vring q.block) q.memSize)
        virtQueueFree q
        pure false
      else if ← grant world then do
        modify fun m =>
          { m with
            programmed := some q.block
            vq := some { q with dmaEntries := vringEntries, traffic := .init qMax.toNat modern } }
        writeStatus driverOk
        pure true
      else do
        noteMemory (.endDMA (.vring q.block) q.memSize)
        virtQueueFree q
        pure false

/-- `V9P_InitVirtIO_Modern`. -/
def v9pInitVirtioModern : StateM Machine Bool := do
  writeStatus 0
  if ← awaitReset world 1000 then do
    writeStatus virtioStatusAcknowledge
    writeStatus (virtioStatusAcknowledge ||| virtioStatusDriver)
    writeStatus (virtioStatusAcknowledge ||| virtioStatusDriver ||| virtioStatusFeaturesOk)
    if world.readStatus (← tick) &&& virtioStatusFeaturesOk = 0 then do
      writeStatus virtioStatusFailed
      pure false
    else
      setupQueue world true
        (virtioStatusAcknowledge ||| virtioStatusDriver ||| virtioStatusFeaturesOk ||| virtioStatusDriverOk)
  else pure false

/-- The legacy path of `V9P_InitVirtIO`. -/
def v9pInitVirtioLegacy : StateM Machine Bool := do
  if world.bar0 then do
    writeStatus 0
    if ← awaitReset world 1000 then do
      writeStatus virtioStatusAcknowledge
      writeStatus (virtioStatusAcknowledge ||| virtioStatusDriver)
      setupQueue world false (virtioStatusAcknowledge ||| virtioStatusDriver ||| virtioStatusDriverOk)
    else pure false
  else pure false

/-- `V9P_InitVirtIO`. -/
def v9pInitVirtio : StateM Machine Bool := do
  let ok ← if world.modern then v9pInitVirtioModern world else v9pInitVirtioLegacy world
  noteTransport (.init ok)
  pure ok

/-- The write with which `V9P_CleanupVirtIO` and `V9P_RemoveInterrupt` reset the device. -/
def quiesce : StateM Machine Unit := if world.modern || world.bar0 then writeStatus 0 else pure ()

/-- `V9P_CleanupVirtIO`. -/
def v9pCleanupVirtio : StateM Machine Unit := do
  quiesce world
  match (← get).vq with
  | none => pure ()
  | some q => do
    virtQueueFree q
    modify fun m => { m with vq := none }
  noteTransport .cleanup

/-- `V9P_InstallInterrupt`: `MapInterrupt`, then `AddIntServer`. -/
def v9pInstallInterrupt : StateM Machine Bool := do
  if ← grant world then
    if ← grant world then do
      modify fun m => { m with irqInstalled := true }
      pure true
    else pure false
  else pure false

/-- `V9P_RemoveInterrupt`. -/
def v9pRemoveInterrupt : StateM Machine Unit := do
  if (← get).irqInstalled then do
    quiesce world
    modify fun m => { m with irqInstalled := false }
    noteTransport .removeInterrupt

end Queues

/-! ## Posting and polling -/

section Polling

variable (world : World)

/-- `h->vq`, to be dereferenced. -/
def theQueue : EStateM Fault Machine Line := do
  match (← get).vq with
  | some q => pure q
  | none => throw .nullQueue

/-- `VirtQueue_AddBuf` of the message in the buffer of the cookie and the receive buffer: is there room? The message is
in its buffer then, whatever else points to it. -/
def postMessage (cookie : Cookie) (p : Post) : EStateM Fault Machine Bool := do
  let q ← theQueue
  modify (Machine.stored · cookie p.tx)
  let sg : Nat → VringSg := fun n =>
    if n = 0 then ⟨world.phys cookie.block, UInt32.ofNat p.tx.length⟩ else ⟨world.phys .rx, p.msize⟩
  match q.traffic.post sg 1 1 (some cookie) with
  | .error f => throw (.queue f)
  | .ok (r, t) =>
    if r < 0 then do
      modify fun m => { m with vq := some { q with traffic := t } }
      pure false
    else do
      modify fun m => { m with vq := some { q with traffic := t, sent := q.sent ++ [p.tx] } }
      pure true

/-- The device acts, and the driver looks at the used ring with `VirtQueue_GetBuf`: the length that came with a cookie,
and the receive buffer. -/
def look (rx : Mem) : EStateM Fault Machine (Option UInt32 × Mem) := do
  let q ← theQueue
  let m ← get
  let acted := if m.Live then q.acts m.texts rx (world.acts m.now) else (q, rx)
  match acted.1.traffic.collect with
  | .error f => throw (.queue f)
  | .ok (got, t) => do
    set { m with now := m.now + 1, vq := some { acted.1 with traffic := t } }
    pure (got.map Prod.snd, acted.2)

/-- The test that a reply is the one waited for. -/
def accepts (p : Post) (rx : Mem) (written : UInt32) : Prop :=
  7 ≤ written ∧ written ≤ p.msize ∧ (p9GetU16 rx 5).1 = p.expectedTag ∧ (p9GetU32 rx 0).1 = written

instance decidableAccepts (p : Post) (rx : Mem) (written : UInt32) : Decidable (accepts p rx written) := by
  unfold accepts
  infer_instance

/-- The poll loop of `V9P_Transact`, with this many looks until the deadline. -/
def pollLoop (p : Post) : Nat → Mem → EStateM Fault Machine Polled
  | 0, rx => pure (.timeout rx)
  | polls + 1, rx => do
    match ← look world rx with
    | (none, rx) => pollLoop p polls rx
    | (some written, rx) => if accepts p rx written then pure (.reply written rx) else pollLoop p polls rx

/-- `V9P_TRANSACT_CLOCK_CHECK_MASK + 1`: the clock is read every so many looks. -/
def clockCheckInterval : Nat := 0xFFF + 1

/-- The looks until a deadline has passed. -/
def deadline : EStateM Fault Machine Nat :=
  modifyGet fun m => ((world.checks m.now + 1) * clockCheckInterval, { m with now := m.now + 1 })

/-- `V9P_Transact` from `VirtQueue_AddBuf` to the end of the poll loop. -/
def busPoll (p : Post) : EStateM Fault Machine Polled := do
  if ← postMessage world .tx p then
    let polls ← deadline world
    pollLoop world p polls p.rxBuf
  else pure .refused

/-- One round of the drain loop: look until a completion comes. -/
def drainOne : Nat → Mem → EStateM Fault Machine (Bool × Mem)
  | 0, rx => pure (false, rx)
  | polls + 1, rx => do
    match ← look world rx with
    | (none, rx) => drainOne polls rx
    | (some _, rx) => pure (true, rx)

/-- The drain loop, with this many rounds to go. -/
def drainLoop : Nat → Mem → EStateM Fault Machine (Nat × Mem)
  | 0, rx => pure (0, rx)
  | rounds + 1, rx => do
    let polls ← deadline world
    match ← drainOne world polls rx with
    | (false, rx) => pure (0, rx)
    | (true, rx) => do
      let r ← drainLoop rounds rx
      pure (r.1 + 1, r.2)

/-- The timeout path of `V9P_Transact` from the `Tflush` to the end of the drain loop. -/
def busDrain (p : Post) : EStateM Fault Machine (Nat × Mem) := do
  if ← postMessage world .flush p then drainLoop world 2 p.rxBuf else pure (0, p.rxBuf)

/-- The link over the transport. -/
def busLink : Link Machine where
  poll := busPoll world
  drain := busDrain world
  cleanupVirtio := fun m => (v9pCleanupVirtio world m).2
  initVirtio := v9pInitVirtio world
  allocVec := fun _ => grant world

end Polling

end Virtio9P
