import Virtio9P.Fuse

/-!
# Runs of the handler

`mount` is the session part of `_start`: version, attach, pool. After it, filesysbox calls the callbacks one after the
other, with arguments of its own; a callback on an open file is given a handle that an earlier callback returned and
that was not released since. `exec` is one such call and `run` a sequence of them. A fault ends the run, and the log
up to it stays.
-/

namespace Virtio9P

open Lib

variable {W : Type}

/-! ## Mounting -/

/-- The handler at the start of `_start`, with its buffers. -/
def startHandler (txBuf rxBuf : Mem) : Handler where
  msize := p9MSize
  rootFid := 0
  fidPool := none
  nextTag := 1
  txBuf := txBuf
  rxBuf := rxBuf
  inReset := false

/-- Steps 10 to 12 of `_start`. -/
def mount (L : Link W) : Client W Bool := do
  match ← p9Version (v9pTransact L) with
  | .error _ => pure false
  | .ok _ => do
    match ← p9Attach (v9pTransact L) (← handler).rootFid with
    | .error _ => pure false
    | .ok _ => do
      let pool ← onLink (fidPoolCreate L.allocVec)
      modifyHandler fun h => { h with fidPool := pool }
      if pool.isSome then pure true
      else do
        let _ ← p9Clunk (v9pTransact L) (← handler).rootFid
        pure false

/-! ## Calls -/

/-- A call of a callback. An open file is named by its place among those open; `fuel` bounds the rounds of a loop. -/
inductive Callback where
  | getattr (path : Str)
  | opendir (path : Str)
  | readdir (fuel : Nat) (fi : Nat) (filler : List Str → Bool)
  | releasedir (fi : Nat)
  | open (path : Str) (flags : UInt32)
  | release (fi : Nat)
  | read (fuel : Nat) (fi : Nat) (size : UInt32) (off : UInt64)
  | write (fuel : Nat) (fi : Nat) (size : UInt32) (off : UInt64) (buf : Mem)
  | create (path : Str) (mode flags : UInt32)
  | mkdir (path : Str) (mode : UInt32)
  | unlink (path : Str)
  | rmdir (path : Str)
  | rename (oldpath newpath : Str)
  | truncate (path : Str) (size : UInt64)
  | ftruncate (fi : Nat) (size : UInt64)
  | statfs
  | utimens (path : Str) (atimeSec atimeNsec mtimeSec mtimeNsec : UInt64)
  | fsync (fi : Option Nat) (datasync : Bool)
  | symlink (target path : Str)
  | readlink (path : Str) (size : UInt32)
  | link (oldpath newpath : Str)
  | chmod (path : Str) (mode : UInt32)
  | chown (path : Str) (uid gid : UInt32)

/-- What a call returns. -/
inductive Outcome where
  | code (r : Except Int32 Unit)
  | stat (r : Except Int32 FbxStat)
  | data (r : Except Int32 (List UInt8))
  | count (r : Except Int32 UInt32)
  | size (r : Except Int32 Int32)
  | names (r : Int32 × List Str)
  | target (r : Except Int32 Str)
  | statvfs (r : Except Int32 StatVfs)
  /-- there is no such handle: the call cannot be made -/
  | noHandle

section Exec

variable (L : Link W)

/-- A call on the open file `fi`. The open files are their `fi->fh`. -/
def onHandle (handles : List UInt32) (fi : Nat) (call : UInt32 → Client W Outcome) :
    Client W (Outcome × List UInt32) :=
  match handles[fi]? with
  | none => pure (.noHandle, handles)
  | some fh => do
    let r ← call fh
    pure (r, handles)

/-- A call that closes the open file `fi`. -/
def onClose (handles : List UInt32) (fi : Nat) (call : UInt32 → Client W (Except Int32 Unit)) :
    Client W (Outcome × List UInt32) :=
  match handles[fi]? with
  | none => pure (.noHandle, handles)
  | some fh => do
    let r ← call fh
    pure (.code r, handles.eraseIdx fi)

/-- A call that opens a file. -/
def onOpen (handles : List UInt32) (call : Client W (Except Int32 UInt32)) :
    Client W (Outcome × List UInt32) := do
  match ← call with
  | .error e => pure (.code (.error e), handles)
  | .ok fh => do
    record (.opened fh)
    pure (.code (.ok ()), fh :: handles)

/-- A call on a path. -/
def onPath {α : Type} (handles : List UInt32) (call : Client W α) (outcome : α → Outcome) :
    Client W (Outcome × List UInt32) := do
  let r ← call
  pure (outcome r, handles)

/-- One call, with the open files before and after it. -/
def exec (handles : List UInt32) : Callback → Client W (Outcome × List UInt32)
  | .getattr path => onPath handles (v9pGetattr L path) .stat
  | .opendir path => onOpen handles (v9pOpendir L path)
  | .readdir fuel fi filler => onHandle handles fi fun fh => .names <$> v9pReaddir L fuel filler fh
  | .releasedir fi => onClose handles fi (v9pReleasedir L)
  | .open path flags => onOpen handles (v9pOpen L path flags)
  | .release fi => onClose handles fi (v9pRelease L)
  | .read fuel fi size off => onHandle handles fi fun fh => .data <$> v9pRead L fuel fh size off
  | .write fuel fi size off buf => onHandle handles fi fun fh => .count <$> v9pWrite L fuel fh size off buf
  | .create path mode flags => onOpen handles (v9pCreate L path mode flags)
  | .mkdir path mode => onPath handles (v9pMkdir L path mode) .code
  | .unlink path => onPath handles (v9pUnlink L path) .code
  | .rmdir path => onPath handles (v9pRmdir L path) .code
  | .rename oldpath newpath => onPath handles (v9pRename L oldpath newpath) .code
  | .truncate path size => onPath handles (v9pTruncate L path size) .size
  | .ftruncate fi size => onHandle handles fi fun fh => .size <$> v9pFtruncate L fh size
  | .statfs => onPath handles (v9pStatfs L) .statvfs
  | .utimens path as an ms mn => onPath handles (v9pUtimens L path as an ms mn) .code
  | .fsync none datasync => onPath handles (v9pFsync L none datasync) .code
  | .fsync (some fi) datasync => onHandle handles fi fun fh => .code <$> v9pFsync L (some fh) datasync
  | .symlink target path => onPath handles (v9pSymlink L target path) .code
  | .readlink path size => onPath handles (v9pReadlink L path size) .target
  | .link oldpath newpath => onPath handles (v9pLink L oldpath newpath) .code
  | .chmod path mode => onPath handles (v9pChmod L path mode) .code
  | .chown path uid gid => onPath handles (v9pChown L path uid gid) .code

/-- A sequence of calls: what they return and the files left open. -/
def run : List UInt32 → List Callback → Client W (List Outcome × List UInt32)
  | handles, [] => pure ([], handles)
  | handles, c :: cs => do
    let r ← exec L handles c
    let rs ← run r.2 cs
    pure (r.1 :: rs.1, rs.2)

end Exec

end Virtio9P
