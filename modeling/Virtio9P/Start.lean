import Virtio9P.Transport.Machine
import Virtio9P.Upkeep

/-!
# The life of the handler (`_start` of `main.c`)

`start` is `_start` from the startup message to its return: every step of the set-up with its way out, the session, and
the clean-up. A label that the source jumps to is the end of a function here: `startBuffers` ends with `cleanup_bufs`,
`startIrq` with `cleanup_irq` and `startVirtio` with `cleanup_virtio`, so each way out passes the labels below it.

Filesysbox decides which callbacks it calls: `calls` from its event loop, and `lateCalls` from `FbxCleanupFS`. A fault
ends everything on the spot, as a crash does. Replies to the system, libraries and interfaces are left out, apart from
whether they are there.
-/

namespace Virtio9P

open Lib

/-- `RETURN_OK` and `RETURN_FAIL`. -/
def returnOk : Int32 := 0
def returnFail : Int32 := 20

section Start

variable (world : World)

/-! ## Buffers -/

/-- `AllocVecTags` for one of the three buffers. -/
def allocBuffer (b : DmaBlock) : StateM Machine Bool := do
  if ← grant world then do
    noteMemory (.alloc b)
    modify fun m => { m with buf := Function.update m.buf b true }
    pure true
  else pure false

/-- Step 9: all three are asked for, whatever comes of it. -/
def allocBuffers : StateM Machine Bool := do
  let tx ← allocBuffer world .tx
  let rx ← allocBuffer world .rx
  let flush ← allocBuffer world .flush
  pure (tx && rx && flush)

/-- The end of a mapping that was begun and will be kept. -/
def keepMapping (b : DmaBlock) : StateM Machine Bool := do
  modify fun m => { m with dmaActive := Function.update m.dmaActive b true }
  pure true

/-- Step 9b for `tx_buf` and `rx_buf`: one physical block. -/
def mapBuffer (b : DmaBlock) (size : Nat) : StateM Machine Bool := do
  let n ← startDMA world b size
  if n = 0 then pure false
  else if 1 < n then do
    noteMemory (.endDMA b size)
    pure false
  else if ← grant world then keepMapping b
  else do
    noteMemory (.endDMA b size)
    pure false

/-- Step 9b for `flush_buf`, whose entries are not counted. -/
def mapFlush : StateM Machine Bool := do
  let n ← startDMA world .flush 16
  if n = 0 then pure false
  else if ← grant world then keepMapping .flush
  else do
    noteMemory (.endDMA .flush 16)
    pure false

/-- Step 9b. -/
def mapBuffers : StateM Machine Bool := do
  if ← mapBuffer world .tx p9MSize.toNat then
    if ← mapBuffer world .rx p9MSize.toNat then mapFlush world else pure false
  else pure false

/-- `if (…_dma_active) EndDMA(…)`. -/
def endMapping (b : DmaBlock) (size : Nat) : StateM Machine Unit := do
  if (← get).dmaActive b then noteMemory (.endDMA b size)

/-- `if (…_buf) FreeVec(…)`. -/
def freeBuffer (b : DmaBlock) : StateM Machine Unit := do
  if (← get).buf b then noteMemory (.free b)

/-- `cleanup_bufs`. -/
def cleanupBufs : StateM Machine Unit := do
  endMapping .flush 16
  endMapping .rx p9MSize.toNat
  endMapping .tx p9MSize.toNat
  freeBuffer .flush
  freeBuffer .rx
  freeBuffer .tx

/-! ## The session -/

variable (calls lateCalls : List Callback)

/-- Steps 13 and 14: the file system, and the last clunk. -/
def serve : Client Machine Int32 := do
  let ret ← do
    if ← onLink (grant world) then do
      let r ← run (busLink world) [] calls
      onLink (v9pRemoveInterrupt world)
      let _ ← run (busLink world) r.2 lateCalls
      pure returnOk
    else pure returnFail
  let _ ← p9Clunk (v9pTransact (busLink world)) (← handler).rootFid
  -- `FidPool_Destroy`
  modifyHandler fun h => { h with fidPool := none }
  pure ret

/-- Steps 9b to 14, and `cleanup_bufs`. -/
def startBuffers : Client Machine Int32 := do
  let ret ← do
    if ← onLink (mapBuffers world) then
      if ← mount (busLink world) then serve world calls lateCalls else pure returnOk
    else pure returnOk
  onLink cleanupBufs
  pure ret

/-- From step 9 on, and `cleanup_irq`. When a buffer is missing, the others stay allocated. -/
def startIrq : Client Machine Int32 := do
  let ret ← do
    if ← onLink (allocBuffers world) then startBuffers world calls lateCalls else pure returnOk
  onLink (v9pRemoveInterrupt world)
  pure ret

/-- From step 8 on, and `cleanup_virtio`. -/
def startVirtio : Client Machine Int32 := do
  let ret ← do
    if ← onLink (v9pInstallInterrupt world) then startIrq world calls lateCalls else pure returnOk
  onLink (v9pCleanupVirtio world)
  pure ret

/-- Steps 2 to 5: two libraries with their interfaces, and the device. -/
def findDevice : Nat → StateM Machine Bool
  | 0 => pure true
  | n + 1 => do
    if ← grant world then findDevice n else pure false

/-- `_start`. -/
def start : Client Machine Int32 := do
  if ← onLink (grant world) then
    if ← onLink (findDevice world 5) then
      if ← onLink (v9pInitVirtio world) then startVirtio world calls lateCalls else pure returnOk
    else pure returnOk
  else pure returnFail

end Start

/-- The state in which a run of `_start` ends. -/
def startEnd (world : World) (calls lateCalls : List Callback) (txBuf rxBuf : Mem) : St Machine :=
  finalState (start world calls lateCalls ⟨startHandler txBuf rxBuf, .boot, []⟩)

end Virtio9P
