import Virtio9P.Lib.Hoare
import Virtio9P.Marshal
import Virtio9P.FidPool
import Virtio9P.Virtqueue.Defs

/-!
# The handler and what it runs on (`virtio9p_handler.h`)

A client computation works on the handler `Handler`, on the state `W` of everything below and around it, and on a log
of what happened. Everything below is a `Link W`: how a posted message is answered, how a flush drains, what the
VirtIO reset and set-up do, whether there is memory. The computations are written for any link, so a device, a server
or a table of replies can be put in its place.

The log is not in the program. Each entry keeps the handler and the surroundings as they were, so that a statement
can speak of every moment of a run, and a computation that stops at a fault keeps its log.
-/

namespace Virtio9P

open Lib

/-! ## State -/

/-- `struct V9PHandler`, the session part. The queue `h->vq` belongs to the link. -/
structure Handler where
  msize : UInt32
  rootFid : UInt32
  /-- `none` is `NULL` -/
  fidPool : Option FidPool
  nextTag : UInt16
  txBuf : Mem
  rxBuf : Mem
  inReset : Bool

/-- Where the C code would crash or hang. -/
inductive Fault where
  /-- `h->vq == NULL` is dereferenced -/
  | nullQueue
  /-- `h->fid_pool == NULL` is dereferenced -/
  | nullPool
  /-- a loop or a recursion went on for too long -/
  | hang
  | queue (f : VqFault)
  deriving DecidableEq

/-- A request as `V9P_Transact` posts it: the bytes for the device to read, the tag it will look for, and the receive
buffer with the length the device may write. -/
structure Post where
  tx : List UInt8
  expectedTag : UInt16
  rxBuf : Mem
  msize : UInt32

/-- How the poll loop of `V9P_Transact` ends, with the receive buffer as it is then. -/
inductive Polled where
  /-- `VirtQueue_AddBuf` failed -/
  | refused
  | reply (written : UInt32) (rxBuf : Mem)
  | timeout (rxBuf : Mem)

/-- The widths, in bits, of the types of the system that attributes are cast to. -/
structure Widths where
  /-- `mode_t` -/
  mode : Nat := 32
  /-- `nlink_t` -/
  nlink : Nat := 32
  /-- `dev_t` -/
  dev : Nat := 32
  /-- `time_t` -/
  time : Nat := 32
  /-- `fsblkcnt_t` -/
  fsblkcnt : Nat := 32
  /-- `fsfilcnt_t` -/
  fsfilcnt : Nat := 32

/-- What the client runs on. -/
structure Link (W : Type) where
  /-- post a message and poll for its reply -/
  poll : Post → EStateM Fault W Polled
  /-- post a `Tflush` and drain the queue: the number of completions, up to two, and the receive buffer -/
  drain : Post → EStateM Fault W (Nat × Mem)
  /-- `V9P_CleanupVirtIO` -/
  cleanupVirtio : W → W
  /-- `V9P_InitVirtIO` -/
  initVirtio : StateM W Bool
  /-- `AllocVecTags`: is there a block of so many bytes? -/
  allocVec : UInt32 → StateM W Bool
  /-- the types of the system's headers -/
  widths : Widths := {}

/-- What the log records. -/
inductive Event where
  /-- `FidPool_Alloc` returned the fid -/
  | alloc (fid : UInt32)
  /-- `FidPool_Free` of the fid -/
  | free (fid : UInt32)
  /-- `FidPool_MarkOrphan` of the fid -/
  | orphan (fid : UInt32)
  /-- `walk_to` hands the fid to its caller -/
  | hold (fid : UInt32)
  /-- an open returns with the fid in `fi->fh` -/
  | opened (fid : UInt32)
  /-- `V9P_Transact` is called on the message -/
  | send (tx : List UInt8)
  /-- `V9P_Transact` returns -/
  | returned (rxLen : UInt32)
  /-- `V9P_Transact` gives the message up and resets the transport -/
  | escalate (tx : List UInt8)
  /-- `V9P_Reset` has destroyed the pool and asked for a new one -/
  | newPool
  /-- `V9P_Reset` returns -/
  | reset (ok : Bool)
  deriving DecidableEq

/-- An entry of the log. -/
structure Moment (W : Type) where
  event : Event
  h : Handler
  w : W

/-- The state of a client computation; the newest entry of the log is first. -/
structure St (W : Type) where
  h : Handler
  w : W
  log : List (Moment W)

/-- A client computation. -/
abbrev Client (W : Type) := EStateM Fault (St W)

section Basic

variable {W α : Type}

/-- The handler. -/
def handler : Client W Handler := modifyGet fun s => (s.h, s)

/-- Change the handler. -/
def modifyHandler (f : Handler → Handler) : Client W Unit := modify fun s => { s with h := f s.h }

/-- Write an entry in the log. -/
def record (e : Event) : Client W Unit := modify fun s => { s with log := ⟨e, s.h, s.w⟩ :: s.log }

/-- Let the surroundings take a step. -/
def onLink (x : StateM W α) : Client W α :=
  modifyGet fun s => ((x s.w).1, { s with w := (x s.w).2 })

/-- Let the surroundings take a step that can fault. -/
def tryLink (x : EStateM Fault W α) : Client W α := fun s =>
  match x s.w with
  | .ok a w => .ok a { s with w := w }
  | .error e w => .error e { s with w := w }

theorem handler_bind {β : Type} (f : Handler → Client W β) (s : St W) : (handler >>= f) s = f s.h s := rfl

theorem modifyHandler_bind {β : Type} (g : Handler → Handler) (f : Unit → Client W β) (s : St W) :
    (modifyHandler g >>= f) s = f () { s with h := g s.h } := rfl

theorem record_bind {β : Type} (e : Event) (f : Unit → Client W β) (s : St W) :
    (record e >>= f) s = f () { s with log := ⟨e, s.h, s.w⟩ :: s.log } := rfl

theorem onLink_bind {β : Type} (x : StateM W α) (f : α → Client W β) (s : St W) :
    (onLink x >>= f) s = f (x s.w).1 { s with w := (x s.w).2 } := rfl

theorem tryLink_bind_ok {β : Type} {x : EStateM Fault W α} {f : α → Client W β} {h : Handler} {w w' : W}
    {log : List (Moment W)} {a : α} (hx : x w = .ok a w') : (tryLink x >>= f) ⟨h, w, log⟩ = f a ⟨h, w', log⟩ :=
  run_bind_ok (show tryLink x ⟨h, w, log⟩ = .ok a ⟨h, w', log⟩ by unfold tryLink; rw [hx])

theorem tryLink_bind_error {β : Type} {x : EStateM Fault W α} {f : α → Client W β} {h : Handler} {w w' : W}
    {log : List (Moment W)} {e : Fault} (hx : x w = .error e w') :
    (tryLink x >>= f) ⟨h, w, log⟩ = .error e ⟨h, w', log⟩ :=
  run_bind_error (show tryLink x ⟨h, w, log⟩ = .error e ⟨h, w', log⟩ by unfold tryLink; rw [hx])

/-- `h->fid_pool`, to be dereferenced. -/
def thePool : Client W FidPool := do
  match (← handler).fidPool with
  | some pool => pure pool
  | none => throw .nullPool

variable (L : Link W)

/-- `FidPool_Alloc(h->fid_pool)`. -/
def drawFid : Client W UInt32 := do
  let pool ← thePool
  modifyHandler fun h => { h with fidPool := some (fidPoolAlloc pool).2 }
  record (.alloc (fidPoolAlloc pool).1)
  pure (fidPoolAlloc pool).1

/-- `FidPool_Free(h->fid_pool, fid)`. -/
def freeFid (fid : UInt32) : Client W Unit := do
  let pool ← thePool
  let pool ← onLink (fidPoolFree L.allocVec pool fid)
  modifyHandler fun h => { h with fidPool := some pool }
  record (.free fid)

/-- `FidPool_MarkOrphan(h->fid_pool, fid)`. -/
def orphanFid (fid : UInt32) : Client W Unit := do
  let pool ← thePool
  let pool ← onLink (fidPoolMarkOrphan L.allocVec pool fid)
  modifyHandler fun h => { h with fidPool := some pool }
  record (.orphan fid)

end Basic

end Virtio9P
