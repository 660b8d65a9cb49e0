import Virtio9P.Paths

/-!
# The FUSE callbacks (`fuse_ops.c`)

Every callback of the operations table. The path callbacks share a frame: walk a fresh fid to the path, work on it,
clunk and free it (`withFid`); those that change a directory walk to the parent (`withParent`); `open`, `opendir` and
`create` keep the fid when they succeed (`keepFid`). `rename` and `link` hold two fids and clean up in an order of
their own.

A result `.error e` is the return of `e`, and `.ok a` a return that is not an error, with the outputs `a`. The loops
of `read`, `write` and `readdir` have a bound on their rounds, `fuel`; past it they hang. The magic paths of debug
builds are left out.
-/

namespace Virtio9P

open Lib

variable {W α : Type} (L : Link W)

/-! ## Walking and closing -/

/-- `walk_to`. -/
def walkTo (path : Str) : Client W (Except Int32 UInt32) := do
  let fid ← drawFid
  match ← p9Walk (v9pTransact L) (← handler).rootFid fid path with
  | .error e => do
    if e = -5 then orphanFid L fid else freeFid L fid
    pure (.error e)
  | .ok _ => do
    record (.hold fid)
    pure (.ok fid)

/-- `P9_Clunk(h, fid); FidPool_Free(h->fid_pool, fid)`. -/
def closeFid (fid : UInt32) : Client W Unit := do
  let _ ← p9Clunk (v9pTransact L) fid
  freeFid L fid

/-- Work on a fid walked to `path`, and close it. -/
def withFid (path : Str) (work : UInt32 → Client W (Except Int32 α)) : Client W (Except Int32 α) := do
  match ← walkTo L path with
  | .error e => pure (.error e)
  | .ok fid => do
    let r ← work fid
    closeFid L fid
    pure r

/-- Work on the parent directory of `path`, with the name in it. -/
def withParent (path : Str) (work : UInt32 → Str → Client W (Except Int32 α)) : Client W (Except Int32 α) :=
  let split := splitPath path 1024 256
  withFid L split.1 fun dfid => work dfid split.2

/-- Walk a fid to `path` and open it: it is kept for `fi->fh` or closed. -/
def keepFid (path : Str) (opening : UInt32 → Client W (Except Int32 UInt32)) : Client W (Except Int32 UInt32) := do
  match ← walkTo L path with
  | .error e => pure (.error e)
  | .ok fid => do
    match ← opening fid with
    | .error e => do
      closeFid L fid
      pure (.error e)
    | .ok _ => pure (.ok fid)

/-! ## Attributes -/

/-- A cast to an integer type of so many bits, as the bits of the result. -/
def narrow (bits : Nat) (v : UInt64) : UInt64 := UInt64.ofNat (v.toNat % 2 ^ bits)

/-- `struct fbx_stat`, the fields that are set. Where the width of a field is the system's own, its bits are kept in as
many as the reply has. -/
structure FbxStat where
  mode : UInt32
  nlink : UInt64
  uid : UInt32
  gid : UInt32
  rdev : UInt64
  size : UInt64
  blocks : UInt64
  blksize : Int32
  ino : UInt64
  atime : UInt64
  atimensec : UInt32
  mtime : UInt64
  mtimensec : UInt32
  ctime : UInt64
  ctimensec : UInt32
  deriving DecidableEq

/-- `p9stat_to_fbxstat`. -/
def p9statToFbxstat (widths : Widths) (p9 : P9Stat) : FbxStat where
  mode := (narrow widths.mode p9.mode.toUInt64).toUInt32
  nlink := narrow widths.nlink p9.nlink
  uid := p9.uid
  gid := p9.gid
  rdev := narrow widths.dev p9.rdev
  size := p9.size
  blocks := p9.blocks
  blksize := p9.blksize.toUInt32.toInt32
  ino := p9.qid.path
  atime := narrow widths.time p9.atimeSec
  atimensec := p9.atimeNsec.toUInt32
  mtime := narrow widths.time p9.mtimeSec
  mtimensec := p9.mtimeNsec.toUInt32
  ctime := narrow widths.time p9.ctimeSec
  ctimensec := p9.ctimeNsec.toUInt32

/-- `v9p_getattr`. -/
def v9pGetattr (path : Str) : Client W (Except Int32 FbxStat) := do
  let r ← withFid L path fun fid => p9Getattr (v9pTransact L) fid p9GetattrBasic
  pure (r.map (p9statToFbxstat L.widths))

/-- `v9p_truncate`: the new size is returned, as an `int`. -/
def v9pTruncate (path : Str) (size : UInt64) : Client W (Except Int32 Int32) := do
  let r ← withFid L path fun fid => p9Setattr (v9pTransact L) fid { valid := p9SetattrSize, size := size }
  pure (r.map fun _ => size.toUInt32.toInt32)

/-- `v9p_ftruncate`. -/
def v9pFtruncate (fh : UInt32) (size : UInt64) : Client W (Except Int32 Int32) := do
  let r ← p9Setattr (v9pTransact L) fh { valid := p9SetattrSize, size := size }
  pure (r.map fun _ => size.toUInt32.toInt32)

/-- `v9p_utimens`. -/
def v9pUtimens (path : Str) (atimeSec atimeNsec mtimeSec mtimeNsec : UInt64) : Client W (Except Int32 Unit) :=
  withFid L path fun fid => p9Setattr (v9pTransact L) fid
    { valid := p9SetattrAtime ||| p9SetattrAtimeSet ||| p9SetattrMtime ||| p9SetattrMtimeSet
      atimeSec := atimeSec
      atimeNsec := atimeNsec
      mtimeSec := mtimeSec
      mtimeNsec := mtimeNsec }

/-- `v9p_chmod`: the file type bits come from the server. -/
def v9pChmod (path : Str) (mode : UInt32) : Client W (Except Int32 Unit) :=
  withFid L path fun fid => do
    match ← p9Getattr (v9pTransact L) fid p9GetattrMode with
    | .error e => pure (.error e)
    | .ok p9st =>
      p9Setattr (v9pTransact L) fid
        { valid := p9SetattrMode, mode := (p9st.mode &&& ~~~0xFFF) ||| (mode &&& 0xFFF) }

/-- `v9p_chown`. -/
def v9pChown (path : Str) (uid gid : UInt32) : Client W (Except Int32 Unit) :=
  withFid L path fun fid => p9Setattr (v9pTransact L) fid
    { valid := p9SetattrUid ||| p9SetattrGid, uid := uid, gid := gid }

/-- `struct statvfs`, the fields that are set. -/
structure StatVfs where
  bsize : UInt32
  frsize : UInt32
  blocks : UInt64
  bfree : UInt64
  bavail : UInt64
  files : UInt64
  ffree : UInt64
  favail : UInt64
  fsid : UInt32
  namemax : UInt32
  deriving DecidableEq

/-- `v9p_statfs`. -/
def v9pStatfs : Client W (Except Int32 StatVfs) := do
  let blkcnt := narrow L.widths.fsblkcnt
  let filcnt := narrow L.widths.fsfilcnt
  let r ← p9Statfs (v9pTransact L) (← handler).rootFid
  pure (r.map fun p9 =>
    { bsize := p9.bsize, frsize := p9.bsize, blocks := blkcnt p9.blocks, bfree := blkcnt p9.bfree,
      bavail := blkcnt p9.bavail, files := filcnt p9.files, ffree := filcnt p9.ffree, favail := filcnt p9.ffree,
      -- `unsigned long` has 32 bits
      fsid := p9.fsid.toUInt32, namemax := p9.namelen })

/-! ## Open files -/

/-- The flags that `open` and `create` pass on. -/
def openFlags (flags : UInt32) : UInt32 := flags &&& (0x3 ||| 0x08 ||| 0x200)

/-- `v9p_opendir`: the fid for `fi->fh`. -/
def v9pOpendir (path : Str) : Client W (Except Int32 UInt32) :=
  keepFid L path fun fid => p9Lopen (v9pTransact L) fid 0

/-- `v9p_open`. -/
def v9pOpen (path : Str) (flags : UInt32) : Client W (Except Int32 UInt32) :=
  keepFid L path fun fid => p9Lopen (v9pTransact L) fid (openFlags flags)

/-- `v9p_create`: `Tlcreate` turns the directory's fid into the new file's. -/
def v9pCreate (path : Str) (mode flags : UInt32) : Client W (Except Int32 UInt32) :=
  let split := splitPath path 1024 256
  keepFid L split.1 fun dfid => p9Lcreate (v9pTransact L) dfid split.2 (openFlags flags) mode

/-- `v9p_release`. -/
def v9pRelease (fh : UInt32) : Client W (Except Int32 Unit) := do
  closeFid L fh
  pure (.ok ())

/-- `v9p_releasedir`. -/
def v9pReleasedir (fh : UInt32) : Client W (Except Int32 Unit) := do
  closeFid L fh
  pure (.ok ())

/-- One round of `v9p_read`, with the bytes read so far. -/
def readRound (fh size : UInt32) (off : UInt64) (got : List UInt8) :
    Client W (Except Int32 (List UInt8) ⊕ List UInt8) :=
  let totalRead := UInt32.ofNat got.length
  if totalRead < size then do
    match ← p9Read (v9pTransact L) fh (off + totalRead.toUInt64) (size - totalRead) with
    | .error e => pure (.inl (.error e))
    | .ok data => if data = [] then pure (.inl (.ok got)) else pure (.inr (got ++ data))
  else pure (.inl (.ok got))

/-- `v9p_read`: the bytes stored in the buffer; their number is returned. -/
def v9pRead (fuel : Nat) (fh size : UInt32) (off : UInt64) : Client W (Except Int32 (List UInt8)) :=
  loop .hang (readRound L fh size off) fuel []

/-- One round of `v9p_write`, with the bytes written so far. -/
def writeRound (fh size : UInt32) (off : UInt64) (buf : Mem) (totalWritten : UInt32) :
    Client W (Except Int32 UInt32 ⊕ UInt32) :=
  if totalWritten < size then do
    match ← p9Write (v9pTransact L) fh (off + totalWritten.toUInt64) (size - totalWritten)
      (fun i => buf (totalWritten.toNat + i)) with
    | .error e => pure (.inl (.error e))
    | .ok actual => if actual = 0 then pure (.inl (.ok totalWritten)) else pure (.inr (totalWritten + actual))
  else pure (.inl (.ok totalWritten))

/-- `v9p_write`: the number returned, before it becomes an `int`. -/
def v9pWrite (fuel : Nat) (fh size : UInt32) (off : UInt64) (buf : Mem) : Client W (Except Int32 UInt32) :=
  loop .hang (writeRound L fh size off buf) fuel 0

/-- `v9p_fsync`: `fi` can be `NULL`. -/
def v9pFsync (fi : Option UInt32) (datasync : Bool) : Client W (Except Int32 Unit) :=
  match fi with
  | none => pure (.ok ())
  | some fh => p9Fsync (v9pTransact L) fh (if datasync then 1 else 0)

/-! ## Directories -/

/-- One packed directory entry: its resume offset and its name. -/
def direntry (block : Block) : Get (UInt64 × Str) := do
  let _ ← p9GetQid block.data
  let dirOffset ← p9GetU64 block.data
  let _ ← p9GetU8 block.data
  let name ← p9GetStr block.data block.actual.toNat 256
  pure (dirOffset, name)

/-- The inner loop of `v9p_readdir`: the entries of a block from `pos` on. The names passed to the filler so far come
along, and the filler answers from them. The first part of the result says that the filler asked to stop. A round takes
24 bytes at least, so the size of the block bounds the rounds. A block lies in `rx_buf` and is shorter than
`2 ^ 32 - 24` bytes, so `pos` does not wrap. -/
def readdirBlock (filler : List Str → Bool) (block : Block) :
    Nat → Nat → UInt64 → List Str → Bool × UInt64 × List Str
  | 0, _, dirOffset, names => (false, dirOffset, names)
  | fuel + 1, pos, dirOffset, names =>
    if pos < block.actual.toNat ∧ pos + 24 ≤ block.actual.toNat then
      let r := direntry block pos
      -- the filler is given a C string
      let names := names ++ [r.1.2.takeWhile (· ≠ 0)]
      if filler names then (true, r.1.1, names) else readdirBlock filler block fuel r.2 r.1.1 names
    else (false, dirOffset, names)

/-- One round of `v9p_readdir`, with the resume offset and the names so far. -/
def readdirRound (filler : List Str → Bool) (fh maxCount : UInt32) (at' : UInt64 × List Str) :
    Client W ((Int32 × List Str) ⊕ (UInt64 × List Str)) := do
  match ← p9Readdir (v9pTransact L) fh at'.1 maxCount with
  | .error e => pure (.inl (e, at'.2))
  | .ok block =>
    if block.actual = 0 then pure (.inl (0, at'.2))
    else
      let r := readdirBlock filler block block.actual.toNat 0 at'.1 at'.2
      if r.1 then pure (.inl (0, r.2.2)) else pure (.inr r.2)

/-- `v9p_readdir`: the value returned and the names passed to the filler. -/
def v9pReaddir (fuel : Nat) (filler : List Str → Bool) (fh : UInt32) : Client W (Int32 × List Str) := do
  let maxCount := (← handler).msize - 11
  loop .hang (readdirRound L filler fh maxCount) fuel (0, [])

/-- `v9p_mkdir`. -/
def v9pMkdir (path : Str) (mode : UInt32) : Client W (Except Int32 Unit) :=
  withParent L path fun dfid name => p9Mkdir (v9pTransact L) dfid name mode

/-- `v9p_unlink`. -/
def v9pUnlink (path : Str) : Client W (Except Int32 Unit) :=
  withParent L path fun dfid name => p9Unlinkat (v9pTransact L) dfid name 0

/-- `v9p_rmdir`. -/
def v9pRmdir (path : Str) : Client W (Except Int32 Unit) :=
  withParent L path fun dfid name => p9Unlinkat (v9pTransact L) dfid name p9AtRemovedir

/-- `v9p_rename`. -/
def v9pRename (oldpath newpath : Str) : Client W (Except Int32 Unit) := do
  let old := splitPath oldpath 1024 256
  let new := splitPath newpath 1024 256
  match ← walkTo L old.1 with
  | .error e => pure (.error e)
  | .ok olddirfid => do
    match ← walkTo L new.1 with
    | .error e => do
      closeFid L olddirfid
      pure (.error e)
    | .ok newdirfid => do
      let r ← p9Renameat (v9pTransact L) olddirfid old.2 newdirfid new.2
      let _ ← p9Clunk (v9pTransact L) olddirfid
      let _ ← p9Clunk (v9pTransact L) newdirfid
      freeFid L olddirfid
      freeFid L newdirfid
      pure r

/-! ## Links -/

/-- `v9p_symlink`. -/
def v9pSymlink (target path : Str) : Client W (Except Int32 Unit) :=
  withParent L path fun dfid name => p9Symlink (v9pTransact L) dfid name target

/-- `v9p_readlink`: the bytes stored in the buffer, before the terminator. -/
def v9pReadlink (path : Str) (size : UInt32) : Client W (Except Int32 Str) :=
  withFid L path fun fid => p9Readlink (v9pTransact L) fid size

/-- `v9p_link`. -/
def v9pLink (oldpath newpath : Str) : Client W (Except Int32 Unit) := do
  let new := splitPath newpath 1024 256
  match ← walkTo L oldpath with
  | .error e => pure (.error e)
  | .ok srcfid => do
    match ← walkTo L new.1 with
    | .error e => do
      closeFid L srcfid
      pure (.error e)
    | .ok dfid => do
      let r ← p9Link (v9pTransact L) dfid srcfid new.2
      let _ ← p9Clunk (v9pTransact L) dfid
      let _ ← p9Clunk (v9pTransact L) srcfid
      freeFid L dfid
      freeFid L srcfid
      pure r

end Virtio9P
