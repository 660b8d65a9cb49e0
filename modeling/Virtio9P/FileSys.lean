import Virtio9P.Paths
import Virtio9P.Server

/-!
# File servers

A file system is given by what it does at its nodes (`FileSystem`): files, directories and symbolic links are nodes, and
a path is resolved from node to node. A server has such a file system and a table of fids, each bound to a node
(`Disk`). `Answers` is the protocol seen from the client: which reply a request may get, and what is on the disk then.
Requests on fids that are not bound are not restricted.

`Served L sys` is a link with such a server at its end that answers every request. `fileServer sys` is one for every
file system; it is executable, so statements about all servers can be tried on it.
-/

namespace Virtio9P

open Lib

variable {W F N α : Type}

/-! ## File systems -/

/-- The code of an error: one whose negation is a negative `int`. -/
abbrev Errno := { e : UInt32 // e ≠ 0 ∧ e ≤ 0x80000000 }

/-- `.`, the name of a directory in itself. -/
def dot : Str := [0x2E]

/-- `..`, the name of the directory above. -/
def dotdot : Str := [0x2E, 0x2E]

/-- A file system with states `F` and nodes `N`. An operation that fails changes nothing. -/
structure FileSystem (F N : Type) where
  lookup : F → N → Str → Option N
  getattr : F → N → P9Stat
  setattr : F → N → P9Iattr → Except Errno F
  /-- open the node with the flags -/
  lopen : F → N → UInt32 → Except Errno F
  /-- a file with the name, flags and mode in the directory -/
  lcreate : F → N → Str → UInt32 → UInt32 → Except Errno (N × F)
  /-- what can be read of a node that is open with the flags -/
  read : F → N → UInt32 → Except Errno (List UInt8)
  /-- store the bytes at the offset, in a node that is open with the flags -/
  write : F → N → UInt32 → UInt64 → List UInt8 → Except Errno F
  mkdir : F → N → Str → UInt32 → Except Errno (N × F)
  unlinkat : F → N → Str → UInt32 → Except Errno F
  renameat : F → N → Str → N → Str → Except Errno F
  symlink : F → N → Str → Str → Except Errno F
  readlink : F → N → Except Errno Str
  /-- the second node gets the name in the first -/
  link : F → N → N → Str → Except Errno F
  /-- the error of a walk to where there is no node -/
  absent : Errno := ⟨2, by decide⟩

namespace FileSystem

variable (sys : FileSystem F N)

/-- The node at the end of the names. -/
def resolve (f : F) (n : N) (names : List Str) : Option N := names.foldlM (sys.lookup f) n

theorem resolve_append (f : F) (n : N) (names names' : List Str) :
    sys.resolve f n (names ++ names') = (sys.resolve f n names).bind fun m => sys.resolve f m names' :=
  List.foldlM_append

theorem resolve_concat (f : F) (n : N) (names : List Str) (name : Str) :
    sys.resolve f n (names ++ [name]) = (sys.resolve f n names).bind fun m => sys.lookup f m name := by
  rw [resolve_append]
  congr 1
  funext m
  exact Option.bind_fun_some _

end FileSystem

/-! ## What is on the server -/

/-- What a fid stands for, and the flags it was opened with. -/
structure Bound (N : Type) where
  node : N
  opened : Option UInt32

/-- A file system and the fids. -/
structure Disk (F N : Type) where
  fs : F
  fids : FidTable (Bound N)

namespace Disk

/-- The disk with another state of the file system. -/
def put (d : Disk F N) (f : F) : Disk F N := { d with fs := f }

/-- The disk with the fid bound. -/
def bind (d : Disk F N) (fid : UInt32) (x : Bound N) : Disk F N :=
  { d with fids := Function.update d.fids fid (some x) }

/-- The disk with the fid released. -/
def release (d : Disk F N) (fid : UInt32) : Disk F N := { d with fids := Function.update d.fids fid none }

variable {d : Disk F N} {fid g : UInt32} {x : Bound N}

@[simp] theorem put_fs (f : F) : (d.put f).fs = f := rfl

@[simp] theorem bind_fs : (d.bind fid x).fs = d.fs := rfl

@[simp] theorem bind_self : (d.bind fid x).fids fid = some x := Function.update_self ..

theorem bind_of_ne (h : g ≠ fid) : (d.bind fid x).fids g = d.fids g := Function.update_of_ne h ..

@[simp] theorem release_self : (d.release fid).fids fid = none := Function.update_self ..

theorem release_of_ne (h : g ≠ fid) : (d.release fid).fids g = d.fids g := Function.update_of_ne h ..

theorem release_of_unbound (h : d.fids fid = none) : d.release fid = d := by
  have hfids : Function.update d.fids fid none = d.fids := by rw [← h, Function.update_eq_self]
  unfold release
  rw [hfids]

/-- A fid that was bound in between. -/
theorem release_bind (h : d.fids fid = none) : (d.bind fid x).release fid = d := by
  have hfids : Function.update (Function.update d.fids fid (some x)) fid none = d.fids := by
    rw [Function.update_idem, ← h, Function.update_eq_self]
  unfold release bind
  rw [hfids]

theorem bind_bind (y : Bound N) : (d.bind fid x).bind fid y = d.bind fid y := by
  unfold bind
  rw [Function.update_idem]

theorem put_bind (f : F) : (d.bind fid x).put f = (d.put f).bind fid x := rfl

end Disk

/-! ## What a request is answered -/

/-- The reply `st'` has the attributes `st` that are selected by the mask. -/
structure Reports (mask : UInt64) (st st' : P9Stat) : Prop where
  qid : st'.qid = st.qid
  blksize : st'.blksize = st.blksize
  mode : mask &&& 0x1 ≠ 0 → st'.mode = st.mode
  nlink : mask &&& 0x2 ≠ 0 → st'.nlink = st.nlink
  uid : mask &&& 0x4 ≠ 0 → st'.uid = st.uid
  gid : mask &&& 0x8 ≠ 0 → st'.gid = st.gid
  rdev : mask &&& 0x10 ≠ 0 → st'.rdev = st.rdev
  atime : mask &&& 0x20 ≠ 0 → st'.atimeSec = st.atimeSec ∧ st'.atimeNsec = st.atimeNsec
  mtime : mask &&& 0x40 ≠ 0 → st'.mtimeSec = st.mtimeSec ∧ st'.mtimeNsec = st.mtimeNsec
  ctime : mask &&& 0x80 ≠ 0 → st'.ctimeSec = st.ctimeSec ∧ st'.ctimeNsec = st.ctimeNsec
  size : mask &&& 0x200 ≠ 0 → st'.size = st.size
  blocks : mask &&& 0x400 ≠ 0 → st'.blocks = st.blocks

theorem Reports.refl (mask : UInt64) (st : P9Stat) : Reports mask st st :=
  ⟨rfl, rfl, fun _ => rfl, fun _ => rfl, fun _ => rfl, fun _ => rfl, fun _ => rfl, fun _ => ⟨rfl, rfl⟩,
    fun _ => ⟨rfl, rfl⟩, fun _ => ⟨rfl, rfl⟩, fun _ => rfl, fun _ => rfl⟩

/-- An operation was carried out with a good reply, and the disk is as it leaves it; or it was refused. -/
def Does (res : Except Errno α) (good : α → RMsg → Prop) (left : α → Disk F N) (d : Disk F N) (r : RMsg)
    (d' : Disk F N) : Prop :=
  match res with
  | .ok a => good a r ∧ d' = left a
  | .error e => r = .lerror e ∧ d' = d

/-- A walk binds its new fid if there is a node at its end, and else nothing; some qids may come back then. -/
def Walks (end? : Option N) (newfid : UInt32) (nwname : Nat) (d : Disk F N) (r : RMsg) (d' : Disk F N) : Prop :=
  match end? with
  | some m => (∃ qids, qids.length = nwname ∧ r = .walk qids) ∧ d' = d.bind newfid ⟨m, none⟩
  | none => ((∃ e : Errno, r = .lerror e) ∨ ∃ qids, qids.length < nwname ∧ r = .walk qids) ∧ d' = d

/-- The request is answered with `r`, and the disk goes from `d` to `d'`. -/
def Answers (sys : FileSystem F N) (d : Disk F N) (r : RMsg) (d' : Disk F N) : TMsg → Prop
  | .walk fid newfid names => ∀ x, d.fids fid = some x → d.fids newfid = none → names.length ≤ p9MaxWElem →
      Walks (sys.resolve d.fs x.node names) newfid names.length d r d'
  | .clunk fid => d' = d.release fid
  | .getattr fid mask => ∀ x, d.fids fid = some x →
      (∃ st, r = .getattr st ∧ Reports mask (sys.getattr d.fs x.node) st) ∧ d' = d
  | .setattr fid attr => ∀ x, d.fids fid = some x →
      Does (sys.setattr d.fs x.node attr) (fun _ r => r = .setattr) d.put d r d'
  | .lopen fid flags => ∀ n, d.fids fid = some ⟨n, none⟩ →
      Does (sys.lopen d.fs n flags) (fun _ r => ∃ qid iounit, r = .lopen qid iounit)
        (fun f => (d.put f).bind fid ⟨n, some flags⟩) d r d'
  | .lcreate fid name flags mode _ => ∀ n, d.fids fid = some ⟨n, none⟩ →
      Does (sys.lcreate d.fs n name flags mode) (fun _ r => ∃ qid iounit, r = .lcreate qid iounit)
        (fun made => (d.put made.2).bind fid ⟨made.1, some flags⟩) d r d'
  | .read fid offset count => ∀ n flags, d.fids fid = some ⟨n, some flags⟩ → 0 < count →
      Does (sys.read d.fs n flags)
        (fun c r => ∃ data, r = .read data ∧ data <+: (c.drop offset.toNat).take count.toNat ∧
          (data = [] ↔ c.length ≤ offset.toNat)) (fun _ => d) d r d'
  | .write fid offset data => ∀ n flags, d.fids fid = some ⟨n, some flags⟩ → data ≠ [] →
      ∃ k : UInt32, 0 < k.toNat ∧ k.toNat ≤ data.length ∧
        Does (sys.write d.fs n flags offset (data.take k.toNat)) (fun _ r => r = .write k) d.put d r d'
  | .mkdir dfid name mode _ => ∀ x, d.fids dfid = some x →
      Does (sys.mkdir d.fs x.node name mode) (fun _ r => ∃ qid, r = .mkdir qid) (fun made => d.put made.2) d r d'
  | .unlinkat dfid name flags => ∀ x, d.fids dfid = some x →
      Does (sys.unlinkat d.fs x.node name flags) (fun _ r => r = .unlinkat) d.put d r d'
  | .renameat olddirfid oldname newdirfid newname => ∀ x y, d.fids olddirfid = some x → d.fids newdirfid = some y →
      Does (sys.renameat d.fs x.node oldname y.node newname) (fun _ r => r = .renameat) d.put d r d'
  | .symlink dfid name target _ => ∀ x, d.fids dfid = some x →
      Does (sys.symlink d.fs x.node name target) (fun _ r => ∃ qid, r = .symlink qid) d.put d r d'
  | .readlink fid => ∀ x, d.fids fid = some x →
      Does (sys.readlink d.fs x.node) (fun target r => target.length < 65536 → r = .readlink target) (fun _ => d) d r d'
  | .link dfid fid name => ∀ x y, d.fids dfid = some x → d.fids fid = some y →
      Does (sys.link d.fs x.node y.node name) (fun _ r => r = .link) d.put d r d'
  | _ => True

/-- A link with a server for `sys` at its end, that answers every request. -/
structure Served (L : Link W) (sys : FileSystem F N) where
  disk : W → Disk F N
  answers : ∀ (p : Post) (w : W) (tag : UInt16) (m : TMsg), decode p.tx = some (tag, m) →
    ∃ r n rx w', L.poll p w = .ok (.reply n rx) w' ∧ Carries r n rx ∧ Answers sys (disk w) r (disk w') m
  alloc : ∀ bytes w, disk (L.allocVec bytes w).2 = disk w

/-! ## A server for every file system -/

namespace FileSystem

variable (sys : FileSystem F N)

/-- Some qid. -/
def qid : P9Qid := ⟨0, 0, 0⟩

/-- The most bytes that the server gives or takes at a time. -/
def chunk : Nat := 4096

/-- The reply to an operation and the disk after it. -/
def reply (res : Except Errno α) (good : α → RMsg) (left : α → Disk F N) (d : Disk F N) : RMsg × Disk F N :=
  match res with
  | .ok a => (good a, left a)
  | .error e => (.lerror e, d)

/-- The reply to a request on a fid; without a fid it is refused. -/
def onFid (d : Disk F N) (fid : UInt32) (serve : Bound N → RMsg × Disk F N) : RMsg × Disk F N :=
  match d.fids fid with
  | some x => serve x
  | none => (.lerror 9, d)

/-- The reply to a request on an open fid. -/
def onOpen (d : Disk F N) (fid : UInt32) (serve : N → UInt32 → RMsg × Disk F N) : RMsg × Disk F N :=
  onFid d fid fun x => match x.opened with
    | some flags => serve x.node flags
    | none => (.lerror 9, d)

/-- The reply to a request, and the disk after it. -/
def serve (d : Disk F N) : TMsg → RMsg × Disk F N
  | .walk fid newfid names => onFid d fid fun x =>
      if names.length ≤ p9MaxWElem then
        match sys.resolve d.fs x.node names with
        | some m => (.walk (names.map fun _ => qid), d.bind newfid ⟨m, none⟩)
        | none => (.lerror sys.absent, d)
      else (.lerror 36, d)
  | .clunk fid => (.clunk, d.release fid)
  | .getattr fid _ => onFid d fid fun x => (.getattr (sys.getattr d.fs x.node), d)
  | .setattr fid attr => onFid d fid fun x => reply (sys.setattr d.fs x.node attr) (fun _ => .setattr) d.put d
  | .lopen fid flags => onFid d fid fun x =>
      reply (sys.lopen d.fs x.node flags) (fun _ => .lopen qid 0) (fun f => (d.put f).bind fid ⟨x.node, some flags⟩) d
  | .lcreate fid name flags mode _ => onFid d fid fun x =>
      reply (sys.lcreate d.fs x.node name flags mode) (fun _ => .lcreate qid 0)
        (fun made => (d.put made.2).bind fid ⟨made.1, some flags⟩) d
  | .read fid offset count => onOpen d fid fun n flags =>
      reply (sys.read d.fs n flags) (fun c => .read (((c.drop offset.toNat).take count.toNat).take chunk))
        (fun _ => d) d
  | .write fid offset data => onOpen d fid fun n flags =>
      reply (sys.write d.fs n flags offset (data.take chunk)) (fun _ => .write (UInt32.ofNat (min data.length chunk)))
        d.put d
  | .mkdir dfid name mode _ => onFid d dfid fun x =>
      reply (sys.mkdir d.fs x.node name mode) (fun _ => .mkdir qid) (fun made => d.put made.2) d
  | .unlinkat dfid name flags => onFid d dfid fun x =>
      reply (sys.unlinkat d.fs x.node name flags) (fun _ => .unlinkat) d.put d
  | .renameat olddirfid oldname newdirfid newname => onFid d olddirfid fun x => onFid d newdirfid fun y =>
      reply (sys.renameat d.fs x.node oldname y.node newname) (fun _ => .renameat) d.put d
  | .symlink dfid name target _ => onFid d dfid fun x =>
      reply (sys.symlink d.fs x.node name target) (fun _ => .symlink qid) d.put d
  | .readlink fid => onFid d fid fun x =>
      reply (sys.readlink d.fs x.node) (fun target => .readlink (target.take 65535)) (fun _ => d) d
  | .link dfid fid name => onFid d dfid fun x => onFid d fid fun y =>
      reply (sys.link d.fs x.node y.node name) (fun _ => .link) d.put d
  | _ => (.lerror 95, d)

/-- The link to it; the state of the surroundings is the disk. Memory is given out in blocks of up to a megabyte. -/
def fileServer : Link (Disk F N) where
  poll p := fun d => match decode p.tx with
    | some (tag, m) => .ok ((sys.serve d m).1.polled tag p.rxBuf) (sys.serve d m).2
    | none => .ok .refused d
  drain p := pure (0, p.rxBuf)
  cleanupVirtio d := d
  initVirtio := pure false
  allocVec := fun bytes => pure (0 < bytes && bytes ≤ 0x100000)

variable {sys} {d : Disk F N}

theorem onFid_eq {fid : UInt32} {x : Bound N} (h : d.fids fid = some x) (serve : Bound N → RMsg × Disk F N) :
    onFid d fid serve = serve x := by
  unfold onFid
  rw [h]

theorem does_reply {res : Except Errno α} {ok : α → RMsg → Prop} {good : α → RMsg} {left : α → Disk F N}
    (hgood : ∀ a, ok a (good a)) : Does res ok left d (reply res good left d).1 (reply res good left d).2 := by
  cases res with
  | ok a => exact ⟨hgood a, rfl⟩
  | error e => exact ⟨rfl, rfl⟩

theorem answers_serve (d : Disk F N) (m : TMsg) : Answers sys d (sys.serve d m).1 (sys.serve d m).2 m := by
  cases m with
  | walk fid newfid names =>
    intro x hx _ hlen
    rw [serve, onFid_eq hx, if_pos hlen]
    cases sys.resolve d.fs x.node names with
    | some m => exact ⟨⟨_, List.length_map .., rfl⟩, rfl⟩
    | none => exact ⟨.inl ⟨sys.absent, rfl⟩, rfl⟩
  | clunk fid => rfl
  | getattr fid mask =>
    intro x hx
    rw [serve, onFid_eq hx]
    exact ⟨⟨_, rfl, Reports.refl mask _⟩, rfl⟩
  | setattr fid attr =>
    intro x hx
    rw [serve, onFid_eq hx]
    exact does_reply fun _ => rfl
  | lopen fid flags =>
    intro n hx
    rw [serve, onFid_eq hx]
    exact does_reply fun _ => ⟨_, _, rfl⟩
  | lcreate fid name flags mode gid =>
    intro n hx
    rw [serve, onFid_eq hx]
    exact does_reply fun _ => ⟨_, _, rfl⟩
  | read fid offset count =>
    intro n flags hx hcount
    rw [serve, onOpen, onFid_eq hx]
    refine does_reply fun c => ⟨_, rfl, List.take_prefix _ _, ?_⟩
    have hpos := UInt32.lt_iff_toNat_lt.mp hcount
    rw [UInt32.toNat_zero] at hpos
    rw [← List.length_eq_zero_iff, List.length_take, List.length_take, List.length_drop]
    unfold chunk
    omega
  | write fid offset data =>
    intro n flags hx hne
    rw [serve, onOpen, onFid_eq hx]
    have hpos := List.length_pos_iff.mpr hne
    have hk : (UInt32.ofNat (min data.length chunk)).toNat = min data.length chunk := by
      rw [UInt32.toNat_ofNat', Nat.mod_eq_of_lt]
      unfold chunk
      omega
    have htake : data.take (min data.length chunk) = data.take chunk := by
      rw [← List.take_take, List.take_of_length_le (List.length_take_le' _ _)]
    refine ⟨UInt32.ofNat (min data.length chunk), ?_, ?_, ?_⟩
    · rw [hk]
      unfold chunk
      omega
    · rw [hk]
      exact min_le_left _ _
    · rw [hk, htake]
      exact does_reply fun _ => rfl
  | mkdir dfid name mode gid =>
    intro x hx
    rw [serve, onFid_eq hx]
    exact does_reply fun _ => ⟨_, rfl⟩
  | unlinkat dfid name flags =>
    intro x hx
    rw [serve, onFid_eq hx]
    exact does_reply fun _ => rfl
  | renameat olddirfid oldname newdirfid newname =>
    intro x y hx hy
    rw [serve, onFid_eq hx, onFid_eq hy]
    exact does_reply fun _ => rfl
  | symlink dfid name target gid =>
    intro x hx
    rw [serve, onFid_eq hx]
    exact does_reply fun _ => ⟨_, rfl⟩
  | readlink fid =>
    intro x hx
    rw [serve, onFid_eq hx]
    exact does_reply fun target hlen => by rw [List.take_of_length_le (by omega)]
  | link dfid fid name =>
    intro x y hx hy
    rw [serve, onFid_eq hx, onFid_eq hy]
    exact does_reply fun _ => rfl
  | _ => trivial

theorem length_reply {res : Except Errno α} {good : α → RMsg} {left : α → Disk F N} {k : Nat}
    (hgood : ∀ a, (good a).body.length ≤ k) (hk : 4 ≤ k) : (reply res good left d).1.body.length ≤ k := by
  cases res with
  | ok a => exact hgood a
  | error e => exact hk

theorem length_onFid {fid : UInt32} {serve : Bound N → RMsg × Disk F N} {k : Nat}
    (hserve : ∀ x, (serve x).1.body.length ≤ k) (hk : 4 ≤ k) : (onFid d fid serve).1.body.length ≤ k := by
  unfold onFid
  cases d.fids fid with
  | some x => exact hserve x
  | none => exact hk

theorem length_onOpen {fid : UInt32} {serve : N → UInt32 → RMsg × Disk F N} {k : Nat}
    (hserve : ∀ n flags, (serve n flags).1.body.length ≤ k) (hk : 4 ≤ k) : (onOpen d fid serve).1.body.length ≤ k := by
  refine length_onFid (fun x => ?_) hk
  cases x.opened with
  | some flags => exact hserve x.node flags
  | none => exact hk

/-- The replies are short. -/
theorem length_serve (sys : FileSystem F N) (d : Disk F N) (m : TMsg) : (sys.serve d m).1.body.length ≤ 70000 := by
  have hk : 4 ≤ 70000 := by decide
  cases m with
  | walk fid newfid names =>
    refine length_onFid (fun x => ?_) hk
    by_cases hlen : names.length ≤ p9MaxWElem
    · rw [if_pos hlen]
      cases sys.resolve d.fs x.node names with
      | some m =>
        simp only [length_qids, List.length_map]
        unfold p9MaxWElem at hlen
        omega
      | none => exact hk
    · rw [if_neg hlen]
      exact hk
  | getattr fid mask => exact length_onFid (fun x => by simp [RMsg.body, RMsg.statBytes, qidBytes]) hk
  | setattr fid attr => exact length_onFid (fun x => length_reply (fun _ => by simp [RMsg.body]) hk) hk
  | lopen fid flags => exact length_onFid (fun x => length_reply (fun _ => by simp [RMsg.body, qidBytes]) hk) hk
  | lcreate fid name flags mode gid =>
    exact length_onFid (fun x => length_reply (fun _ => by simp [RMsg.body, qidBytes]) hk) hk
  | read fid offset count =>
    refine length_onOpen (fun n flags => length_reply (fun c => ?_) hk) hk
    simp only [RMsg.body, List.length_append, length_leBytes, List.length_take]
    unfold chunk
    omega
  | write fid offset data => exact length_onOpen (fun n flags => length_reply (fun c => by simp [RMsg.body]) hk) hk
  | mkdir dfid name mode gid =>
    exact length_onFid (fun x => length_reply (fun _ => by simp [RMsg.body, qidBytes]) hk) hk
  | unlinkat dfid name flags => exact length_onFid (fun x => length_reply (fun _ => by simp [RMsg.body]) hk) hk
  | renameat olddirfid oldname newdirfid newname =>
    exact length_onFid (fun x => length_onFid (fun y => length_reply (fun _ => by simp [RMsg.body]) hk) hk) hk
  | symlink dfid name target gid =>
    exact length_onFid (fun x => length_reply (fun _ => by simp [RMsg.body, qidBytes]) hk) hk
  | readlink fid =>
    refine length_onFid (fun x => length_reply (fun target => ?_) hk) hk
    simp only [RMsg.body, length_strBytes, List.length_take]
    omega
  | link dfid fid name =>
    exact length_onFid (fun x => length_onFid (fun y => length_reply (fun _ => by simp [RMsg.body]) hk) hk) hk
  | clunk fid => exact Nat.zero_le _
  | _ => exact hk

/-- It answers every request. -/
theorem poll_serve (sys : FileSystem F N) {p : Post} {tag : UInt16} {m : TMsg}
    (hdecode : decode p.tx = some (tag, m)) (d : Disk F N) :
    ∃ n rx, sys.fileServer.poll p d = .ok (.reply n rx) (sys.serve d m).2 ∧ Carries (sys.serve d m).1 n rx := by
  have hlen := length_serve sys d m
  refine ⟨_, _, ?_, carries_write (by omega) tag p.rxBuf⟩
  show (match decode p.tx with | some (tag, m) => _ | none => _) = _
  rw [hdecode]
  rfl

/-- **Every file system has a server.** -/
def served (sys : FileSystem F N) : Served sys.fileServer sys where
  disk := id
  answers := by
    intro p d tag m hdecode
    obtain ⟨n, rx, hpoll, hcarries⟩ := poll_serve sys hdecode d
    exact ⟨(sys.serve d m).1, n, rx, (sys.serve d m).2, hpoll, hcarries, answers_serve d m⟩
  alloc := fun _ _ => rfl

end FileSystem

end Virtio9P
