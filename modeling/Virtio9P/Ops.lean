import Virtio9P.Paths

/-!
# The operations as data

`P9Op` is a call of one of the twenty operations of `p9_client.h` with its arguments, and `P9Output` what it stores
through its pointers. An operation is one request (`P9Op.msg`) and what it makes of the reply (`P9Op.parse`), unless
`P9_Walk` refuses its path before anything is sent.
-/

namespace Virtio9P

open Lib

variable {W : Type}

/-- A call of an operation. -/
inductive P9Op where
  | version
  | attach (rootFid : UInt32)
  | walk (fid newfid : UInt32) (path : Str)
  | clunk (fid : UInt32)
  | lopen (fid flags : UInt32)
  | lcreate (dfid : UInt32) (name : Str) (flags mode : UInt32)
  | read (fid : UInt32) (offset : UInt64) (count : UInt32)
  | write (fid : UInt32) (offset : UInt64) (count : UInt32) (bufIn : Mem)
  | getattr (fid : UInt32) (mask : UInt64)
  | setattr (fid : UInt32) (attr : P9Iattr)
  | statfs (fid : UInt32)
  | readdir (fid : UInt32) (offset : UInt64) (count : UInt32)
  | mkdir (dfid : UInt32) (name : Str) (mode : UInt32)
  | unlinkat (dfid : UInt32) (name : Str) (flags : UInt32)
  | renameat (olddirfid : UInt32) (oldname : Str) (newdirfid : UInt32) (newname : Str)
  | fsync (fid datasync : UInt32)
  | flush (oldtag : UInt16)
  | symlink (dfid : UInt32) (name target : Str)
  | readlink (fid maxlen : UInt32)
  | link (dfid fid : UInt32) (name : Str)

/-- The outputs of an operation. -/
inductive P9Output where
  | none
  | msize (v : UInt32)
  | iounit (v : UInt32)
  | data (bs : List UInt8)
  | count (v : UInt32)
  | stat (st : P9Stat)
  | statfs (st : P9Statfs)
  | target (s : Str)
  deriving DecidableEq

/-- The call, with its return code and outputs. The bytes of `Rreaddir` are those its caller may look at. -/
def P9Op.run (transact : Nat → Client W UInt32) : P9Op → Client W (Except Int32 P9Output)
  | .version => do
    let r ← p9Version transact
    let h ← handler
    pure (r.map fun _ => .msize h.msize)
  | .attach rootFid => (·.map fun _ => .none) <$> p9Attach transact rootFid
  | .walk fid newfid path => (·.map fun _ => .none) <$> p9Walk transact fid newfid path
  | .clunk fid => (·.map fun _ => .none) <$> p9Clunk transact fid
  | .lopen fid flags => (·.map .iounit) <$> p9Lopen transact fid flags
  | .lcreate dfid name flags mode => (·.map .iounit) <$> p9Lcreate transact dfid name flags mode
  | .read fid offset count => (·.map .data) <$> p9Read transact fid offset count
  | .write fid offset count bufIn => (·.map .count) <$> p9Write transact fid offset count bufIn
  | .getattr fid mask => (·.map .stat) <$> p9Getattr transact fid mask
  | .setattr fid attr => (·.map fun _ => .none) <$> p9Setattr transact fid attr
  | .statfs fid => (·.map .statfs) <$> p9Statfs transact fid
  | .readdir fid offset count =>
    (·.map fun block => .data (block.data.read 0 block.actual.toNat)) <$> p9Readdir transact fid offset count
  | .mkdir dfid name mode => (·.map fun _ => .none) <$> p9Mkdir transact dfid name mode
  | .unlinkat dfid name flags => (·.map fun _ => .none) <$> p9Unlinkat transact dfid name flags
  | .renameat olddirfid oldname newdirfid newname =>
    (·.map fun _ => .none) <$> p9Renameat transact olddirfid oldname newdirfid newname
  | .fsync fid datasync => (·.map fun _ => .none) <$> p9Fsync transact fid datasync
  | .flush oldtag => (·.map fun _ => .none) <$> p9Flush transact oldtag
  | .symlink dfid name target => (·.map fun _ => .none) <$> p9Symlink transact dfid name target
  | .readlink fid maxlen => (·.map .target) <$> p9Readlink transact fid maxlen
  | .link dfid fid name => (·.map fun _ => .none) <$> p9Link transact dfid fid name

/-! ## What is sent, and what is made of the reply -/

namespace P9Op

/-- The operation returns before anything is sent. -/
def Refused : P9Op → Prop
  | walk _ _ path => Virtio9P.Refused path
  | _ => False

/-- The request, when the size agreed on is `msize`. -/
def msg (msize : UInt32) : P9Op → TMsg
  | version => .version p9MSize p9VersionStr
  | attach rootFid => .attach rootFid p9NoFid [] [] 0
  | walk fid newfid path => .walk fid newfid (components path)
  | clunk fid => .clunk fid
  | lopen fid flags => .lopen fid flags
  | lcreate dfid name flags mode => .lcreate dfid (wireStr name) flags mode 0
  | read fid offset count => .read fid offset (capCount msize 11 count)
  | write fid offset count bufIn => .write fid offset (bufIn.read 0 (capCount msize 23 count).toNat)
  | getattr fid mask => .getattr fid mask
  | setattr fid attr => .setattr fid attr
  | statfs fid => .statfs fid
  | readdir fid offset count => .readdir fid offset (capCount msize 11 count)
  | mkdir dfid name mode => .mkdir dfid (wireStr name) mode 0
  | unlinkat dfid name flags => .unlinkat dfid (wireStr name) flags
  | renameat olddirfid oldname newdirfid newname => .renameat olddirfid (wireStr oldname) newdirfid (wireStr newname)
  | fsync fid datasync => .fsync fid datasync
  | flush oldtag => .flush oldtag
  | symlink dfid name target => .symlink dfid (wireStr name) (wireStr target) 0
  | readlink fid _ => .readlink fid
  | link dfid fid name => .link dfid fid (wireStr name)

/-- What is made of a reply that is no error. -/
def parse (msize : UInt32) (op : P9Op) (rxBuf : Mem) (rxLen : UInt32) : Except Int32 P9Output :=
  match op with
  | version => (parseVersion rxBuf rxLen).map .msize
  | walk _ _ path => (parseWalk rxBuf rxLen).bind fun nwqid =>
      if nwqid ≠ UInt16.ofNat (components path).length then .error (-2) else .ok .none
  | lopen .. | lcreate .. => (parseIounit rxBuf rxLen).map .iounit
  | read _ _ count => (parseRead (capCount msize 11 count) rxBuf rxLen).map .data
  | write .. => (parseWrite rxBuf rxLen).map .count
  | getattr .. => (parseGetattr rxBuf rxLen).map .stat
  | statfs _ => (parseStatfs rxBuf rxLen).map .statfs
  | readdir _ _ count => (parseReaddir (capCount msize 11 count) rxBuf rxLen).map fun block =>
      .data (block.data.read 0 block.actual.toNat)
  | readlink _ maxlen => (parseReadlink maxlen rxBuf rxLen).map .target
  | attach _ | clunk _ | setattr .. | mkdir .. | unlinkat .. | renameat .. | fsync .. | flush _ | symlink ..
  | link .. => .ok .none

end P9Op

/-- The operations but `P9_Version` and `P9_Walk` are one request and its parser. -/
theorem run_eq_request (msize : UInt32) (op : P9Op) (hversion : op ≠ .version)
    (hwalk : ∀ fid newfid path, op ≠ .walk fid newfid path) :
    ∃ (α : Type) (parse : Mem → UInt32 → Except Int32 α) (f : α → P9Output),
      (op.parse msize = fun rx n => (parse rx n).map f) ∧
      ∀ (transact : Nat → Client W UInt32) (s : St W), s.h.msize = msize →
        op.run transact s = ((·.map f) <$> p9Request transact p9NextTag (op.msg msize) parse) s := by
  cases op with
  | version => exact absurd rfl hversion
  | walk fid newfid path => exact absurd rfl (hwalk fid newfid path)
  | attach rootFid => exact ⟨_, noFields, _, rfl, fun transact s _ => by rw [P9Op.run, p9Attach_eq]; rfl⟩
  | clunk fid => exact ⟨_, noFields, _, rfl, fun transact s _ => by rw [P9Op.run, p9Clunk_eq]; rfl⟩
  | lopen fid flags => exact ⟨_, parseIounit, _, rfl, fun transact s _ => by rw [P9Op.run, p9Lopen_eq]; rfl⟩
  | lcreate dfid name flags mode =>
    exact ⟨_, parseIounit, _, rfl, fun transact s _ => by rw [P9Op.run, p9Lcreate_eq]; rfl⟩
  | read fid offset count =>
    exact ⟨_, parseRead _, _, rfl, fun transact s hs => by rw [P9Op.run, p9Read_eq, ← hs]; rfl⟩
  | write fid offset count bufIn =>
    exact ⟨_, parseWrite, _, rfl, fun transact s hs => by rw [P9Op.run, p9Write_eq, ← hs]; rfl⟩
  | getattr fid mask => exact ⟨_, parseGetattr, _, rfl, fun transact s _ => by rw [P9Op.run, p9Getattr_eq]; rfl⟩
  | setattr fid attr => exact ⟨_, noFields, _, rfl, fun transact s _ => by rw [P9Op.run, p9Setattr_eq]; rfl⟩
  | statfs fid => exact ⟨_, parseStatfs, _, rfl, fun transact s _ => by rw [P9Op.run, p9Statfs_eq]; rfl⟩
  | readdir fid offset count =>
    exact ⟨_, parseReaddir _, _, rfl, fun transact s hs => by rw [P9Op.run, p9Readdir_eq, ← hs]; rfl⟩
  | mkdir dfid name mode => exact ⟨_, noFields, _, rfl, fun transact s _ => by rw [P9Op.run, p9Mkdir_eq]; rfl⟩
  | unlinkat dfid name flags => exact ⟨_, noFields, _, rfl, fun transact s _ => by rw [P9Op.run, p9Unlinkat_eq]; rfl⟩
  | renameat olddirfid oldname newdirfid newname =>
    exact ⟨_, noFields, _, rfl, fun transact s _ => by rw [P9Op.run, p9Renameat_eq]; rfl⟩
  | fsync fid datasync => exact ⟨_, noFields, _, rfl, fun transact s _ => by rw [P9Op.run, p9Fsync_eq]; rfl⟩
  | flush oldtag => exact ⟨_, noFields, _, rfl, fun transact s _ => by rw [P9Op.run, p9Flush_eq]; rfl⟩
  | symlink dfid name target => exact ⟨_, noFields, _, rfl, fun transact s _ => by rw [P9Op.run, p9Symlink_eq]; rfl⟩
  | readlink fid maxlen =>
    exact ⟨_, parseReadlink maxlen, _, rfl, fun transact s _ => by rw [P9Op.run, p9Readlink_eq]; rfl⟩
  | link dfid fid name => exact ⟨_, noFields, _, rfl, fun transact s _ => by rw [P9Op.run, p9Link_eq]; rfl⟩

end Virtio9P
