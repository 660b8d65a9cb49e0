import Virtio9P.Handler

/-!
# The 9P client (`p9_client.c`, `V9P_Reset` of `virtio_init.c`)

`V9P_Transact` and the twenty operations built on it. Each operation builds a T-message, hands it to `V9P_Transact`
and parses what came back; `p9Call` is that frame, and an operation is its message type, its fields and its parser.
A result `.error e` is the return of the non-zero code `e`, and `.ok a` the return of `0` with the outputs `a`.

`V9P_Transact` and `V9P_Reset` call each other. The recursion is cut by the depth of nesting: at depth `0` no reset
can be started, and since `in_reset` forbids a second one, depth `1` already behaves as every larger depth.
-/

namespace Virtio9P

open Lib

variable {W α : Type}

/-! ## Parsing replies -/

/-- `P9_RHDR_SIZE`. -/
def p9RHdrSize : UInt32 := 7

/-- `P9_RLERROR_SIZE`. -/
def p9RLErrorSize : UInt32 := p9RHdrSize + 4

/-- `p9_require_size`. -/
def p9RequireSize (rxLen need : UInt32) : Except Int32 Unit := if rxLen < need then .error (-5) else .ok ()

/-- `p9_check_error`. -/
def p9CheckError (rxBuf : Mem) (rxLen : UInt32) : Int32 :=
  if rxLen < p9RHdrSize then -5
  else if (p9GetU8 rxBuf 4).1 = p9RLError then
    if rxLen < p9RLErrorSize then -5 else -(p9GetU32 rxBuf 7).1.toInt32
  else 0

/-- `p9_next_tag`. -/
def p9NextTag : Client W UInt16 := do
  let tag := (← handler).nextTag
  modifyHandler fun h => { h with nextTag := if tag + 1 = p9NoTag then 0 else tag + 1 }
  pure tag

/-! ## One operation -/

section Ops

variable (transact : Nat → Client W UInt32)

/-- Build a message of type `type` with the fields `body`, transact it, and parse the reply. -/
def p9Call (type : UInt8) (nextTag : Client W UInt16) (body : Put) (parse : Mem → UInt32 → Except Int32 α) :
    Client W (Except Int32 α) := do
  let tag ← nextTag
  let msg := p9Build type tag body (← handler).txBuf
  modifyHandler fun h => { h with txBuf := msg.1 }
  let rxLen ← transact msg.2
  if rxLen = 0 then pure (.error (-5))
  else do
    let rxBuf := (← handler).rxBuf
    if p9CheckError rxBuf rxLen ≠ 0 then pure (.error (p9CheckError rxBuf rxLen))
    else pure (parse rxBuf rxLen)

/-- The parser of an operation that returns `p9_check_error` as it is. -/
def noFields (_ : Mem) (_ : UInt32) : Except Int32 Unit := .ok ()

/-- The parser of `Rversion`: the version string is only printed. -/
def parseVersion (rxBuf : Mem) (rxLen : UInt32) : Except Int32 UInt32 := do
  p9RequireSize rxLen 13
  pure (p9GetU32 rxBuf 7).1

/-- `P9_Version`. -/
def p9Version : Client W (Except Int32 Unit) := do
  let body := do
    p9PutU32 p9MSize
    p9PutStr p9VersionStr
  match ← p9Call transact p9TVersion (pure p9NoTag) body parseVersion with
  | .error e => pure (.error e)
  | .ok msize => do
    modifyHandler fun h => { h with msize := msize }
    pure (.ok ())

/-- `P9_Attach`. -/
def p9Attach (rootFid : UInt32) : Client W (Except Int32 Unit) :=
  let body := do
    p9PutU32 rootFid
    p9PutU32 p9NoFid
    p9PutStr []
    p9PutStr []
    p9PutU32 0
  p9Call transact p9TAttach p9NextTag body noFields

/-- `P9_Clunk`. -/
def p9Clunk (fid : UInt32) : Client W (Except Int32 Unit) :=
  p9Call transact p9TClunk p9NextTag (p9PutU32 fid) noFields

/-- `'/'`. -/
def slash : UInt8 := 0x2F

/-- The tokeniser loop of `P9_Walk` at `p`, with the components so far. A round takes a run of slashes and one
component, so the length of the path bounds the rounds. -/
def tokenise : Nat → Str → List Str → Option (List Str)
  | 0, _, components => some components
  | fuel + 1, p, components =>
    if p = [] then some components
    else
      let p := p.dropWhile (· = slash)
      if p = [] then some components
      else if p9MaxWElem ≤ components.length then none
      else
        let rest := p.dropWhile (· ≠ slash)
        -- the slash that ends the component is overwritten with the terminator
        tokenise fuel (rest.drop 1) (components ++ [p.takeWhile (· ≠ slash)])

/-- The parser of `Rwalk`: `nwqid`. -/
def parseWalk (rxBuf : Mem) (rxLen : UInt32) : Except Int32 UInt16 := do
  p9RequireSize rxLen (p9RHdrSize + 2)
  pure (p9GetU16 rxBuf 7).1

/-- `P9_Walk`. -/
def p9Walk (fid newfid : UInt32) (path : Str) : Client W (Except Int32 Unit) := do
  if 1024 ≤ path.length then pure (.error (-36))
  else
    match tokenise path.length path [] with
    | none => pure (.error (-36))
    | some components => do
      let nwname := UInt16.ofNat components.length
      let body := do
        p9PutU32 fid
        p9PutU32 newfid
        p9PutU16 nwname
        components.forM p9PutStr
      match ← p9Call transact p9TWalk p9NextTag body parseWalk with
      | .error e => pure (.error e)
      | .ok nwqid =>
        if nwqid ≠ nwname then do
          if 0 < nwqid then
            let _ ← p9Clunk transact newfid
          pure (.error (-2))
        else pure (.ok ())

/-- The parser of `Rlopen` and `Rlcreate`: the qid is not used. -/
def parseIounit (rxBuf : Mem) (rxLen : UInt32) : Except Int32 UInt32 := do
  p9RequireSize rxLen 24
  let fields := do
    let _ ← p9GetQid rxBuf
    p9GetU32 rxBuf
  pure (fields.run' 7).run

/-- `P9_Lopen`. -/
def p9Lopen (fid flags : UInt32) : Client W (Except Int32 UInt32) :=
  let body := do
    p9PutU32 fid
    p9PutU32 flags
  p9Call transact p9TLOpen p9NextTag body parseIounit

/-- `P9_Lcreate`. -/
def p9Lcreate (dfid : UInt32) (name : Str) (flags mode : UInt32) : Client W (Except Int32 UInt32) :=
  let body := do
    p9PutU32 dfid
    p9PutStr name
    p9PutU32 flags
    p9PutU32 mode
    p9PutU32 0
  p9Call transact p9TLCreate p9NextTag body parseIounit

/-- `count` cut to what a reply can carry (`P9_Read`, `P9_Readdir`) or a request (`P9_Write`). -/
def capCount (msize overhead count : UInt32) : UInt32 :=
  let max := msize - overhead
  if max < count then max else count

/-- The number of data bytes of `Rread` and `Rreaddir`: what the reply says, at most what was asked for and at most
what is there. -/
def dataCount (rxBuf : Mem) (rxLen count : UInt32) : UInt32 :=
  let n := (p9GetU32 rxBuf 7).1
  let n := if count < n then count else n
  if rxLen - 11 < n then rxLen - 11 else n

/-- The parser of `Rread`. -/
def parseRead (count : UInt32) (rxBuf : Mem) (rxLen : UInt32) : Except Int32 (List UInt8) := do
  p9RequireSize rxLen 11
  pure (rxBuf.read 11 (dataCount rxBuf rxLen count).toNat)

/-- The parser of `Rwrite`. -/
def parseWrite (rxBuf : Mem) (rxLen : UInt32) : Except Int32 UInt32 := do
  p9RequireSize rxLen 11
  pure (p9GetU32 rxBuf 7).1

/-- `P9_Read`: the bytes copied to the caller's buffer; `*actual` is their number. -/
def p9Read (fid : UInt32) (offset : UInt64) (count : UInt32) : Client W (Except Int32 (List UInt8)) := do
  let count := capCount (← handler).msize 11 count
  let body := do
    p9PutU32 fid
    p9PutU64 offset
    p9PutU32 count
  p9Call transact p9TRead p9NextTag body (parseRead count)

/-- `P9_Write` of the first `count` bytes of `bufIn`: the count the server acknowledges. -/
def p9Write (fid : UInt32) (offset : UInt64) (count : UInt32) (bufIn : Mem) : Client W (Except Int32 UInt32) := do
  let count := capCount (← handler).msize 23 count
  let body := do
    p9PutU32 fid
    p9PutU64 offset
    p9PutU32 count
    putBytes (bufIn.read 0 count.toNat)
  p9Call transact p9TWrite p9NextTag body parseWrite

/-- The fields of `Rgetattr`. -/
def rgetattr (rxBuf : Mem) : Get P9Stat := do
  let valid ← p9GetU64 rxBuf
  let qid ← p9GetQid rxBuf
  let mode ← p9GetU32 rxBuf
  let uid ← p9GetU32 rxBuf
  let gid ← p9GetU32 rxBuf
  let nlink ← p9GetU64 rxBuf
  let rdev ← p9GetU64 rxBuf
  let size ← p9GetU64 rxBuf
  let blksize ← p9GetU64 rxBuf
  let blocks ← p9GetU64 rxBuf
  let atimeSec ← p9GetU64 rxBuf
  let atimeNsec ← p9GetU64 rxBuf
  let mtimeSec ← p9GetU64 rxBuf
  let mtimeNsec ← p9GetU64 rxBuf
  let ctimeSec ← p9GetU64 rxBuf
  let ctimeNsec ← p9GetU64 rxBuf
  let btimeSec ← p9GetU64 rxBuf
  let btimeNsec ← p9GetU64 rxBuf
  let gen ← p9GetU64 rxBuf
  let dataVersion ← p9GetU64 rxBuf
  pure ⟨valid, qid, mode, uid, gid, nlink, rdev, size, blksize, blocks, atimeSec, atimeNsec, mtimeSec, mtimeNsec,
    ctimeSec, ctimeNsec, btimeSec, btimeNsec, gen, dataVersion⟩

/-- The parser of `Rgetattr`. -/
def parseGetattr (rxBuf : Mem) (rxLen : UInt32) : Except Int32 P9Stat := do
  p9RequireSize rxLen 160
  pure ((rgetattr rxBuf).run' 7).run

/-- `P9_Getattr`. -/
def p9Getattr (fid : UInt32) (mask : UInt64) : Client W (Except Int32 P9Stat) :=
  let body := do
    p9PutU32 fid
    p9PutU64 mask
  p9Call transact p9TGetattr p9NextTag body parseGetattr

/-- `P9_Setattr`. -/
def p9Setattr (fid : UInt32) (attr : P9Iattr) : Client W (Except Int32 Unit) :=
  let body := do
    p9PutU32 fid
    p9PutU32 attr.valid
    p9PutU32 attr.mode
    p9PutU32 attr.uid
    p9PutU32 attr.gid
    p9PutU64 attr.size
    p9PutU64 attr.atimeSec
    p9PutU64 attr.atimeNsec
    p9PutU64 attr.mtimeSec
    p9PutU64 attr.mtimeNsec
  p9Call transact p9TSetattr p9NextTag body noFields

/-- The fields of `Rstatfs`. -/
def rstatfs (rxBuf : Mem) : Get P9Statfs := do
  let type ← p9GetU32 rxBuf
  let bsize ← p9GetU32 rxBuf
  let blocks ← p9GetU64 rxBuf
  let bfree ← p9GetU64 rxBuf
  let bavail ← p9GetU64 rxBuf
  let files ← p9GetU64 rxBuf
  let ffree ← p9GetU64 rxBuf
  let fsid ← p9GetU64 rxBuf
  let namelen ← p9GetU32 rxBuf
  pure ⟨type, bsize, blocks, bfree, bavail, files, ffree, fsid, namelen⟩

/-- The parser of `Rstatfs`: the size it requires is `59`, the fields end at `67`. -/
def parseStatfs (rxBuf : Mem) (rxLen : UInt32) : Except Int32 P9Statfs := do
  p9RequireSize rxLen 59
  pure ((rstatfs rxBuf).run' 7).run

/-- `P9_Statfs`. -/
def p9Statfs (fid : UInt32) : Client W (Except Int32 P9Statfs) :=
  p9Call transact p9TStatfs p9NextTag (p9PutU32 fid) parseStatfs

/-- What `P9_Readdir` gives its caller: a pointer into `rx_buf` and the number of bytes there. -/
structure Block where
  data : Mem
  actual : UInt32

/-- The parser of `Rreaddir`. -/
def parseReaddir (count : UInt32) (rxBuf : Mem) (rxLen : UInt32) : Except Int32 Block := do
  p9RequireSize rxLen 11
  pure ⟨fun i => rxBuf (11 + i), dataCount rxBuf rxLen count⟩

/-- `P9_Readdir`. -/
def p9Readdir (fid : UInt32) (offset : UInt64) (count : UInt32) : Client W (Except Int32 Block) := do
  let count := capCount (← handler).msize 11 count
  let body := do
    p9PutU32 fid
    p9PutU64 offset
    p9PutU32 count
  p9Call transact p9TReaddir p9NextTag body (parseReaddir count)

/-- `P9_Mkdir`. -/
def p9Mkdir (dfid : UInt32) (name : Str) (mode : UInt32) : Client W (Except Int32 Unit) :=
  let body := do
    p9PutU32 dfid
    p9PutStr name
    p9PutU32 mode
    p9PutU32 0
  p9Call transact p9TMkdir p9NextTag body noFields

/-- `P9_Unlinkat`. -/
def p9Unlinkat (dfid : UInt32) (name : Str) (flags : UInt32) : Client W (Except Int32 Unit) :=
  let body := do
    p9PutU32 dfid
    p9PutStr name
    p9PutU32 flags
  p9Call transact p9TUnlinkat p9NextTag body noFields

/-- `P9_Renameat`. -/
def p9Renameat (olddirfid : UInt32) (oldname : Str) (newdirfid : UInt32) (newname : Str) :
    Client W (Except Int32 Unit) :=
  let body := do
    p9PutU32 olddirfid
    p9PutStr oldname
    p9PutU32 newdirfid
    p9PutStr newname
  p9Call transact p9TRenameat p9NextTag body noFields

/-- `P9_Fsync`. -/
def p9Fsync (fid datasync : UInt32) : Client W (Except Int32 Unit) :=
  let body := do
    p9PutU32 fid
    p9PutU32 datasync
  p9Call transact p9TFsync p9NextTag body noFields

/-- `P9_Flush`. -/
def p9Flush (oldtag : UInt16) : Client W (Except Int32 Unit) :=
  p9Call transact p9TFlush p9NextTag (p9PutU16 oldtag) noFields

/-- `P9_Symlink`. -/
def p9Symlink (dfid : UInt32) (name target : Str) : Client W (Except Int32 Unit) :=
  let body := do
    p9PutU32 dfid
    p9PutStr name
    p9PutStr target
    p9PutU32 0
  p9Call transact p9TSymlink p9NextTag body noFields

/-- The parser of `Rreadlink`. -/
def parseReadlink (maxlen : UInt32) (rxBuf : Mem) (rxLen : UInt32) : Except Int32 Str := do
  p9RequireSize rxLen 9
  pure ((p9GetStr rxBuf rxLen.toNat maxlen).run' 7).run

/-- `P9_Readlink`. -/
def p9Readlink (fid maxlen : UInt32) : Client W (Except Int32 Str) :=
  p9Call transact p9TReadlink p9NextTag (p9PutU32 fid) (parseReadlink maxlen)

/-- `P9_Link`. -/
def p9Link (dfid fid : UInt32) (name : Str) : Client W (Except Int32 Unit) :=
  let body := do
    p9PutU32 dfid
    p9PutU32 fid
    p9PutStr name
  p9Call transact p9TLink p9NextTag body noFields

end Ops

/-! ## `V9P_Transact` and `V9P_Reset` -/

section Transport

variable (L : Link W)

/-- The `Tflush` that `V9P_Transact` builds in `flush_buf`. -/
def flushFrame (tag stalledTag : UInt16) : List UInt8 :=
  let msg := p9Build p9TFlush tag (p9PutU16 stalledTag) fun _ => 0
  msg.1.read 0 msg.2

/-- The end of `V9P_Transact`. -/
def finish (rxLen : UInt32) : Client W UInt32 := do
  record (.returned rxLen)
  pure rxLen

/-- The timeout path of `V9P_Transact`: cancel the request, and reset the transport unless both chains came back. -/
def abandon (reset : Client W Bool) (tx : List UInt8) (stalledTag : UInt16) : Client W Unit := do
  let tag ← p9NextTag
  let h ← handler
  let drained ← tryLink (L.drain ⟨flushFrame tag stalledTag, tag, h.rxBuf, h.msize⟩)
  modifyHandler fun h => { h with rxBuf := drained.2 }
  if drained.1 < 2 ∧ h.inReset = false then do
    record (.escalate tx)
    let _ ← reset

/-- `V9P_Transact`, with the reset it escalates to. -/
def v9pTransactWith (reset : Client W Bool) (txSize : Nat) : Client W UInt32 := do
  let h ← handler
  let expectedTag := (p9GetU16 h.txBuf 5).1
  let tx := h.txBuf.read 0 txSize
  record (.send tx)
  match ← tryLink (L.poll ⟨tx, expectedTag, h.rxBuf, h.msize⟩) with
  | .refused => finish 0
  | .reply written rxBuf => do
    modifyHandler fun h => { h with rxBuf := rxBuf }
    finish written
  | .timeout rxBuf => do
    modifyHandler fun h => { h with rxBuf := rxBuf }
    abandon L reset tx expectedTag
    finish 0

/-- The re-handshake of `V9P_Reset`, after the device was reset. -/
def rehandshake (transact : Nat → Client W UInt32) : Client W Bool := do
  if ← onLink L.initVirtio then
    modifyHandler fun h => { h with nextTag := 1 }
    match ← p9Version transact with
    | .error _ => pure false
    | .ok _ => do
      match ← p9Attach transact (← handler).rootFid with
      | .error _ => pure false
      | .ok _ => do
        if (← handler).fidPool.isSome then
          let pool ← onLink (fidPoolCreate L.allocVec)
          modifyHandler fun h => { h with fidPool := pool }
          record .newPool
          pure pool.isSome
        else pure true
  else pure false

/-- `V9P_Reset`. -/
def v9pReset (transact : Nat → Client W UInt32) : Client W Bool := do
  if (← handler).inReset then pure false
  else do
    modifyHandler fun h => { h with inReset := true }
    onLink (modify L.cleanupVirtio)
    let ok ← rehandshake L transact
    modifyHandler fun h => { h with inReset := false }
    record (.reset ok)
    pure ok

/-- `V9P_Transact` with `depth` resets nested in each other at most. -/
def v9pTransactAt : Nat → Nat → Client W UInt32
  | 0, txSize => v9pTransactWith L (throw .hang) txSize
  | depth + 1, txSize => v9pTransactWith L (v9pReset L (v9pTransactAt depth)) txSize

/-- `V9P_Transact`. -/
def v9pTransact (txSize : Nat) : Client W UInt32 := v9pTransactAt L 1 txSize

end Transport

end Virtio9P
