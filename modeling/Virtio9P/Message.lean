import Virtio9P.Lib.Decode
import Virtio9P.Client

/-!
# T-messages

`TMsg` are the requests of the protocol as values. `TMsg.frame` is their encoding, and every operation of the client
posts exactly the frame of its message (`p9Call_eq` and the equations after it), so what follows about the client can
speak of messages instead of buffers. `decode` is a decoder written from the message layouts and not from the client;
it gives back every message whose strings fit their length fields (`decode_frame`).
-/

namespace Virtio9P

open Lib

/-! ## Messages and their bytes -/

/-- A request. -/
inductive TMsg where
  | version (msize : UInt32) (ver : Str)
  | attach (fid afid : UInt32) (uname aname : Str) (nUname : UInt32)
  | walk (fid newfid : UInt32) (names : List Str)
  | clunk (fid : UInt32)
  | lopen (fid flags : UInt32)
  | lcreate (fid : UInt32) (name : Str) (flags mode gid : UInt32)
  | read (fid : UInt32) (offset : UInt64) (count : UInt32)
  | write (fid : UInt32) (offset : UInt64) (data : List UInt8)
  | getattr (fid : UInt32) (mask : UInt64)
  | setattr (fid : UInt32) (attr : P9Iattr)
  | statfs (fid : UInt32)
  | readdir (fid : UInt32) (offset : UInt64) (count : UInt32)
  | mkdir (dfid : UInt32) (name : Str) (mode gid : UInt32)
  | unlinkat (dfid : UInt32) (name : Str) (flags : UInt32)
  | renameat (olddirfid : UInt32) (oldname : Str) (newdirfid : UInt32) (newname : Str)
  | fsync (fid datasync : UInt32)
  | flush (oldtag : UInt16)
  | symlink (dfid : UInt32) (name target : Str) (gid : UInt32)
  | readlink (fid : UInt32)
  | link (dfid fid : UInt32) (name : Str)
  deriving DecidableEq

namespace TMsg

/-- The fids that the message names. -/
def fids : TMsg → List UInt32
  | version .. | flush .. => []
  | attach fid .. | clunk fid | lopen fid .. | lcreate fid .. | read fid .. | write fid .. | getattr fid .. => [fid]
  | setattr fid .. | statfs fid | readdir fid .. | mkdir fid .. | unlinkat fid .. | fsync fid .. => [fid]
  | symlink fid .. | readlink fid => [fid]
  | walk fid newfid _ => [fid, newfid]
  | renameat olddirfid _ newdirfid _ => [olddirfid, newdirfid]
  | link dfid fid _ => [dfid, fid]

/-- The type byte. -/
def type : TMsg → UInt8
  | version .. => p9TVersion
  | attach .. => p9TAttach
  | walk .. => p9TWalk
  | clunk .. => p9TClunk
  | lopen .. => p9TLOpen
  | lcreate .. => p9TLCreate
  | read .. => p9TRead
  | write .. => p9TWrite
  | getattr .. => p9TGetattr
  | setattr .. => p9TSetattr
  | statfs .. => p9TStatfs
  | readdir .. => p9TReaddir
  | mkdir .. => p9TMkdir
  | unlinkat .. => p9TUnlinkat
  | renameat .. => p9TRenameat
  | fsync .. => p9TFsync
  | flush .. => p9TFlush
  | symlink .. => p9TSymlink
  | readlink .. => p9TReadlink
  | link .. => p9TLink

/-- The attributes of `Tsetattr`. -/
def attrBytes (a : P9Iattr) : List UInt8 :=
  leBytes 4 a.valid.toNat ++ (leBytes 4 a.mode.toNat ++ (leBytes 4 a.uid.toNat ++ (leBytes 4 a.gid.toNat ++
    (leBytes 8 a.size.toNat ++ (leBytes 8 a.atimeSec.toNat ++ (leBytes 8 a.atimeNsec.toNat ++
      (leBytes 8 a.mtimeSec.toNat ++ leBytes 8 a.mtimeNsec.toNat)))))))

/-- The fields. -/
def body : TMsg → List UInt8
  | version msize ver => leBytes 4 msize.toNat ++ strBytes ver
  | attach fid afid uname aname nUname =>
    leBytes 4 fid.toNat ++ (leBytes 4 afid.toNat ++ (strBytes uname ++ (strBytes aname ++ leBytes 4 nUname.toNat)))
  | walk fid newfid names =>
    leBytes 4 fid.toNat ++ (leBytes 4 newfid.toNat ++ (leBytes 2 names.length ++ names.flatMap strBytes))
  | clunk fid => leBytes 4 fid.toNat
  | lopen fid flags => leBytes 4 fid.toNat ++ leBytes 4 flags.toNat
  | lcreate fid name flags mode gid =>
    leBytes 4 fid.toNat ++ (strBytes name ++ (leBytes 4 flags.toNat ++ (leBytes 4 mode.toNat ++ leBytes 4 gid.toNat)))
  | read fid offset count => leBytes 4 fid.toNat ++ (leBytes 8 offset.toNat ++ leBytes 4 count.toNat)
  | write fid offset data =>
    leBytes 4 fid.toNat ++ (leBytes 8 offset.toNat ++ (leBytes 4 data.length ++ data))
  | getattr fid mask => leBytes 4 fid.toNat ++ leBytes 8 mask.toNat
  | setattr fid attr => leBytes 4 fid.toNat ++ attrBytes attr
  | statfs fid => leBytes 4 fid.toNat
  | readdir fid offset count => leBytes 4 fid.toNat ++ (leBytes 8 offset.toNat ++ leBytes 4 count.toNat)
  | mkdir dfid name mode gid =>
    leBytes 4 dfid.toNat ++ (strBytes name ++ (leBytes 4 mode.toNat ++ leBytes 4 gid.toNat))
  | unlinkat dfid name flags => leBytes 4 dfid.toNat ++ (strBytes name ++ leBytes 4 flags.toNat)
  | renameat olddirfid oldname newdirfid newname =>
    leBytes 4 olddirfid.toNat ++ (strBytes oldname ++ (leBytes 4 newdirfid.toNat ++ strBytes newname))
  | fsync fid datasync => leBytes 4 fid.toNat ++ leBytes 4 datasync.toNat
  | flush oldtag => leBytes 2 oldtag.toNat
  | symlink dfid name target gid =>
    leBytes 4 dfid.toNat ++ (strBytes name ++ (strBytes target ++ leBytes 4 gid.toNat))
  | readlink fid => leBytes 4 fid.toNat
  | link dfid fid name => leBytes 4 dfid.toNat ++ (leBytes 4 fid.toNat ++ strBytes name)

/-- The whole message. -/
def frame (m : TMsg) (tag : UInt16) : List UInt8 := Virtio9P.frame m.type tag m.body

theorem length_frame (m : TMsg) (tag : UInt16) : (m.frame tag).length = 7 + m.body.length := by simp [frame]

end TMsg

/-! ## What the operations post -/

section Post

variable {W α : Type} (transact : Nat → Client W UInt32)

/-- Post the message `m` and parse the reply: `p9Call` with the message as a value. -/
def p9Request (nextTag : Client W UInt16) (m : TMsg) (parse : Mem → UInt32 → Except Int32 α) :
    Client W (Except Int32 α) := do
  let tag ← nextTag
  modifyHandler fun h => { h with txBuf := h.txBuf.write 0 (m.frame tag) }
  let rxLen ← transact (7 + m.body.length)
  if rxLen = 0 then pure (.error (-5))
  else do
    let rxBuf := (← handler).rxBuf
    if p9CheckError rxBuf rxLen ≠ 0 then pure (.error (p9CheckError rxBuf rxLen))
    else pure (parse rxBuf rxLen)

theorem p9Call_eq {nextTag : Client W UInt16} {body : Put} {parse : Mem → UInt32 → Except Int32 α} (m : TMsg)
    (h : Emits body m.body) : p9Call transact m.type nextTag body parse = p9Request transact nextTag m parse := by
  unfold p9Call p9Request
  congr 1
  funext tag s
  rw [handler_bind, modifyHandler_bind]
  simp only [build_eq h]
  rw [modifyHandler_bind]
  rfl

theorem p9Attach_eq (rootFid : UInt32) :
    p9Attach transact rootFid = p9Request transact p9NextTag (.attach rootFid p9NoFid [] [] 0) noFields :=
  p9Call_eq transact (.attach rootFid p9NoFid [] [] 0)
    ((emits_u32 _).bind ((emits_u32 _).bind ((emits_str _).bind ((emits_str _).bind (emits_u32 _)))))

theorem p9Clunk_eq (fid : UInt32) : p9Clunk transact fid = p9Request transact p9NextTag (.clunk fid) noFields :=
  p9Call_eq transact (.clunk fid) (emits_u32 _)

theorem p9Lopen_eq (fid flags : UInt32) :
    p9Lopen transact fid flags = p9Request transact p9NextTag (.lopen fid flags) parseIounit :=
  p9Call_eq transact (.lopen fid flags) ((emits_u32 _).bind (emits_u32 _))

theorem p9Lcreate_eq (dfid : UInt32) (name : Str) (flags mode : UInt32) :
    p9Lcreate transact dfid name flags mode =
      p9Request transact p9NextTag (.lcreate dfid (wireStr name) flags mode 0) parseIounit :=
  p9Call_eq transact (.lcreate dfid (wireStr name) flags mode 0)
    ((emits_u32 _).bind ((emits_str _).bind ((emits_u32 _).bind ((emits_u32 _).bind (emits_u32 _)))))

theorem p9Getattr_eq (fid : UInt32) (mask : UInt64) :
    p9Getattr transact fid mask = p9Request transact p9NextTag (.getattr fid mask) parseGetattr :=
  p9Call_eq transact (.getattr fid mask) ((emits_u32 _).bind (emits_u64 _))

theorem p9Setattr_eq (fid : UInt32) (attr : P9Iattr) :
    p9Setattr transact fid attr = p9Request transact p9NextTag (.setattr fid attr) noFields :=
  p9Call_eq transact (.setattr fid attr)
    ((emits_u32 _).bind ((emits_u32 _).bind ((emits_u32 _).bind ((emits_u32 _).bind ((emits_u32 _).bind
      ((emits_u64 _).bind ((emits_u64 _).bind ((emits_u64 _).bind ((emits_u64 _).bind (emits_u64 _))))))))))

theorem p9Statfs_eq (fid : UInt32) : p9Statfs transact fid = p9Request transact p9NextTag (.statfs fid) parseStatfs :=
  p9Call_eq transact (.statfs fid) (emits_u32 _)

theorem p9Mkdir_eq (dfid : UInt32) (name : Str) (mode : UInt32) :
    p9Mkdir transact dfid name mode = p9Request transact p9NextTag (.mkdir dfid (wireStr name) mode 0) noFields :=
  p9Call_eq transact (.mkdir dfid (wireStr name) mode 0)
    ((emits_u32 _).bind ((emits_str _).bind ((emits_u32 _).bind (emits_u32 _))))

theorem p9Unlinkat_eq (dfid : UInt32) (name : Str) (flags : UInt32) :
    p9Unlinkat transact dfid name flags = p9Request transact p9NextTag (.unlinkat dfid (wireStr name) flags) noFields :=
  p9Call_eq transact (.unlinkat dfid (wireStr name) flags) ((emits_u32 _).bind ((emits_str _).bind (emits_u32 _)))

theorem p9Renameat_eq (olddirfid : UInt32) (oldname : Str) (newdirfid : UInt32) (newname : Str) :
    p9Renameat transact olddirfid oldname newdirfid newname =
      p9Request transact p9NextTag (.renameat olddirfid (wireStr oldname) newdirfid (wireStr newname)) noFields :=
  p9Call_eq transact (.renameat olddirfid (wireStr oldname) newdirfid (wireStr newname))
    ((emits_u32 _).bind ((emits_str _).bind ((emits_u32 _).bind (emits_str _))))

theorem p9Fsync_eq (fid datasync : UInt32) :
    p9Fsync transact fid datasync = p9Request transact p9NextTag (.fsync fid datasync) noFields :=
  p9Call_eq transact (.fsync fid datasync) ((emits_u32 _).bind (emits_u32 _))

/-- The `Tflush` that `V9P_Transact` builds in `flush_buf`. -/
theorem flushFrame_eq (tag stalledTag : UInt16) : flushFrame tag stalledTag = (TMsg.flush stalledTag).frame tag := by
  unfold flushFrame
  rw [build_eq (emits_u16 stalledTag)]
  simp only []
  have h := Mem.read_write_self (fun _ => 0) 0 ((TMsg.flush stalledTag).frame tag)
  rwa [TMsg.length_frame] at h

theorem p9Flush_eq (oldtag : UInt16) :
    p9Flush transact oldtag = p9Request transact p9NextTag (.flush oldtag) noFields :=
  p9Call_eq transact (.flush oldtag) (emits_u16 _)

theorem p9Symlink_eq (dfid : UInt32) (name target : Str) :
    p9Symlink transact dfid name target =
      p9Request transact p9NextTag (.symlink dfid (wireStr name) (wireStr target) 0) noFields :=
  p9Call_eq transact (.symlink dfid (wireStr name) (wireStr target) 0)
    ((emits_u32 _).bind ((emits_str _).bind ((emits_str _).bind (emits_u32 _))))

theorem p9Readlink_eq (fid maxlen : UInt32) :
    p9Readlink transact fid maxlen = p9Request transact p9NextTag (.readlink fid) (parseReadlink maxlen) :=
  p9Call_eq transact (.readlink fid) (emits_u32 _)

theorem p9Link_eq (dfid fid : UInt32) (name : Str) :
    p9Link transact dfid fid name = p9Request transact p9NextTag (.link dfid fid (wireStr name)) noFields :=
  p9Call_eq transact (.link dfid fid (wireStr name)) ((emits_u32 _).bind ((emits_u32 _).bind (emits_str _)))

theorem p9Read_eq (fid : UInt32) (offset : UInt64) (count : UInt32) :
    p9Read transact fid offset count = (do
      let count := capCount (← handler).msize 11 count
      p9Request transact p9NextTag (.read fid offset count) (parseRead count)) := by
  unfold p9Read
  congr 1
  funext h
  exact p9Call_eq transact (.read fid offset _) ((emits_u32 _).bind ((emits_u64 _).bind (emits_u32 _)))

theorem p9Write_eq (fid : UInt32) (offset : UInt64) (count : UInt32) (bufIn : Mem) :
    p9Write transact fid offset count bufIn = (do
      let count := capCount (← handler).msize 23 count
      p9Request transact p9NextTag (.write fid offset (bufIn.read 0 count.toNat)) parseWrite) := by
  unfold p9Write
  congr 1
  funext h
  refine p9Call_eq transact (.write fid offset _) ?_
  rw [TMsg.body, Mem.length_read]
  exact (emits_u32 _).bind ((emits_u64 _).bind ((emits_u32 _).bind (emits_bytes _)))

theorem p9Readdir_eq (fid : UInt32) (offset : UInt64) (count : UInt32) :
    p9Readdir transact fid offset count = (do
      let count := capCount (← handler).msize 11 count
      p9Request transact p9NextTag (.readdir fid offset count) (parseReaddir count)) := by
  unfold p9Readdir
  congr 1
  funext h
  exact p9Call_eq transact (.readdir fid offset _) ((emits_u32 _).bind ((emits_u64 _).bind (emits_u32 _)))

theorem p9Version_eq :
    p9Version transact = (do
      match ← p9Request transact (pure p9NoTag) (.version p9MSize p9VersionStr) parseVersion with
      | .error e => pure (.error e)
      | .ok msize => do
        modifyHandler fun h => { h with msize := msize }
        pure (.ok ())) := by
  have hstr : Emits (p9PutStr p9VersionStr) (strBytes p9VersionStr) := emits_str p9VersionStr
  unfold p9Version
  rw [← p9Call_eq transact (.version p9MSize p9VersionStr) ((emits_u32 _).bind hstr)]
  rfl

end Post

/-! ## A decoder -/

section Decode

/-- The next `8`, `16`, `32` or `64` bits, and the next string. -/
def dec8 : Dec UInt8 := do pure (UInt8.ofNat (← decNat 1))

@[inherit_doc dec8] def dec16 : Dec UInt16 := do pure (UInt16.ofNat (← decNat 2))

@[inherit_doc dec8] def dec32 : Dec UInt32 := do pure (UInt32.ofNat (← decNat 4))

@[inherit_doc dec8] def dec64 : Dec UInt64 := do pure (UInt64.ofNat (← decNat 8))

@[inherit_doc dec8] def decStr : Dec Str := do decBytes (← decNat 2)

/-- The attributes of `Tsetattr`. -/
def decAttr : Dec P9Iattr := do
  let valid ← dec32
  let mode ← dec32
  let uid ← dec32
  let gid ← dec32
  let size ← dec64
  let atimeSec ← dec64
  let atimeNsec ← dec64
  let mtimeSec ← dec64
  let mtimeNsec ← dec64
  pure { valid, mode, uid, gid, size, atimeSec, atimeNsec, mtimeSec, mtimeNsec }

/-- The fields of a message of the given type. -/
def decBody (type : UInt8) : Dec TMsg :=
  match type.toNat with
  | 8 => do pure (.statfs (← dec32))
  | 12 => do pure (.lopen (← dec32) (← dec32))
  | 14 => do pure (.lcreate (← dec32) (← decStr) (← dec32) (← dec32) (← dec32))
  | 16 => do pure (.symlink (← dec32) (← decStr) (← decStr) (← dec32))
  | 22 => do pure (.readlink (← dec32))
  | 24 => do pure (.getattr (← dec32) (← dec64))
  | 26 => do pure (.setattr (← dec32) (← decAttr))
  | 40 => do pure (.readdir (← dec32) (← dec64) (← dec32))
  | 50 => do pure (.fsync (← dec32) (← dec32))
  | 70 => do pure (.link (← dec32) (← dec32) (← decStr))
  | 72 => do pure (.mkdir (← dec32) (← decStr) (← dec32) (← dec32))
  | 74 => do pure (.renameat (← dec32) (← decStr) (← dec32) (← decStr))
  | 76 => do pure (.unlinkat (← dec32) (← decStr) (← dec32))
  | 100 => do pure (.version (← dec32) (← decStr))
  | 104 => do pure (.attach (← dec32) (← dec32) (← decStr) (← decStr) (← dec32))
  | 108 => do pure (.flush (← dec16))
  | 110 => do pure (.walk (← dec32) (← dec32) (← decMany decStr (← decNat 2)))
  | 116 => do pure (.read (← dec32) (← dec64) (← dec32))
  | 118 => do pure (.write (← dec32) (← dec64) (← decBytes (← decNat 4)))
  | 120 => do pure (.clunk (← dec32))
  | _ => fun _ => none

/-- The header and the fields: the size field, the tag and the message. -/
def decFrame : Dec (Nat × UInt16 × TMsg) := do
  let size ← decNat 4
  let type ← dec8
  let tag ← dec16
  let m ← decBody type
  pure (size, tag, m)

/-- The tag and the message of a frame, when its size field is right and nothing follows the fields. -/
def decode (bs : List UInt8) : Option (UInt16 × TMsg) :=
  match decFrame bs with
  | some ((size, tag, m), []) => if size = bs.length then some (tag, m) else none
  | _ => none

theorem decodes_8 (v : UInt8) : Decodes dec8 (leBytes 1 v.toNat) v := by
  have h := (decodes_nat (k := 1) v.toNat_lt).map UInt8.ofNat
  rwa [UInt8.ofNat_toNat] at h

theorem decodes_16 (v : UInt16) : Decodes dec16 (leBytes 2 v.toNat) v := by
  have h := (decodes_nat (k := 2) v.toNat_lt).map UInt16.ofNat
  rwa [UInt16.ofNat_toNat] at h

theorem decodes_32 (v : UInt32) : Decodes dec32 (leBytes 4 v.toNat) v := by
  have h := (decodes_nat (k := 4) v.toNat_lt).map UInt32.ofNat
  rwa [UInt32.ofNat_toNat] at h

theorem decodes_64 (v : UInt64) : Decodes dec64 (leBytes 8 v.toNat) v := by
  have h := (decodes_nat (k := 8) v.toNat_lt).map UInt64.ofNat
  rwa [UInt64.ofNat_toNat] at h

theorem decodes_str {s : Str} (h : s.length < 65536) : Decodes decStr (strBytes s) s :=
  (decodes_nat (k := 2) h).bind (decodes_bytes s)

/-- The strings and lists fit their length fields. -/
def TMsg.Wf : TMsg → Prop
  | .version _ ver => ver.length < 65536
  | .attach _ _ uname aname _ => uname.length < 65536 ∧ aname.length < 65536
  | .walk _ _ names => names.length < 65536 ∧ ∀ name ∈ names, name.length < 65536
  | .lcreate _ name .. | .mkdir _ name .. | .unlinkat _ name _ | .link _ _ name => name.length < 65536
  | .write _ _ data => data.length < 4294967296
  | .renameat _ oldname _ newname => oldname.length < 65536 ∧ newname.length < 65536
  | .symlink _ name target _ => name.length < 65536 ∧ target.length < 65536
  | _ => True

/-- The name in a request that has one name and otherwise numbers. -/
def TMsg.name? : TMsg → Option Str
  | .lcreate _ name .. | .mkdir _ name .. | .unlinkat _ name _ | .link _ _ name => some name
  | _ => none

theorem TMsg.wf_of_name {m : TMsg} {name : Str} (h : m.name? = some name) : m.Wf ↔ name.length < 65536 := by
  cases m with
  | lcreate | mkdir | unlinkat | link =>
    obtain rfl := Option.some.inj h
    exact Iff.rfl
  | _ => cases h

theorem TMsg.length_of_name {m : TMsg} {name : Str} (h : m.name? = some name) :
    m.body.length ≤ 18 + name.length := by
  cases m with
  | lcreate | mkdir | unlinkat | link =>
    obtain rfl := Option.some.inj h
    simp only [TMsg.body, List.length_append, length_leBytes, length_strBytes]
    omega
  | _ => cases h

/-- The message fits its length fields and the size field. -/
def TMsg.Small (m : TMsg) : Prop := m.Wf ∧ 7 + m.body.length < 4294967296

theorem TMsg.small_of_name {m : TMsg} {name : Str} (h : m.name? = some name) (hname : name.length < 65536) :
    m.Small := by
  have hlen := length_of_name h
  exact ⟨(wf_of_name h).mpr hname, by omega⟩

theorem TMsg.small_symlink {name target : Str} (hname : name.length < 65536) (htarget : target.length < 65536)
    (dfid gid : UInt32) : (TMsg.symlink dfid name target gid).Small := by
  refine ⟨⟨hname, htarget⟩, ?_⟩
  simp only [TMsg.body, List.length_append, length_leBytes, length_strBytes]
  omega

theorem TMsg.small_renameat {oldname newname : Str} (hold : oldname.length < 65536) (hnew : newname.length < 65536)
    (olddirfid newdirfid : UInt32) : (TMsg.renameat olddirfid oldname newdirfid newname).Small := by
  refine ⟨⟨hold, hnew⟩, ?_⟩
  simp only [TMsg.body, List.length_append, length_leBytes, length_strBytes]
  omega

theorem decodes_attr (a : P9Iattr) : Decodes decAttr (TMsg.attrBytes a) a :=
  (decodes_32 a.valid).bind ((decodes_32 a.mode).bind ((decodes_32 a.uid).bind ((decodes_32 a.gid).bind
    ((decodes_64 a.size).bind ((decodes_64 a.atimeSec).bind ((decodes_64 a.atimeNsec).bind ((decodes_64 a.mtimeSec).bind
      ((decodes_64 a.mtimeNsec).map fun t => { a with mtimeNsec := t }))))))))

theorem decodes_body (m : TMsg) (hm : m.Wf) : Decodes (decBody m.type) m.body m := by
  cases m with
  | version msize ver => exact (decodes_32 msize).bind ((decodes_str hm).map _)
  | attach fid afid uname aname nUname =>
    exact (decodes_32 fid).bind ((decodes_32 afid).bind ((decodes_str hm.1).bind ((decodes_str hm.2).bind
      ((decodes_32 nUname).map _))))
  | walk fid newfid names =>
    exact (decodes_32 fid).bind ((decodes_32 newfid).bind ((decodes_nat (k := 2) hm.1).bind
      ((decodes_many names fun s hs => decodes_str (hm.2 s hs)).map _)))
  | clunk fid => exact (decodes_32 fid).map _
  | lopen fid flags => exact (decodes_32 fid).bind ((decodes_32 flags).map _)
  | lcreate fid name flags mode gid =>
    exact (decodes_32 fid).bind ((decodes_str hm).bind ((decodes_32 flags).bind ((decodes_32 mode).bind
      ((decodes_32 gid).map _))))
  | read fid offset count => exact (decodes_32 fid).bind ((decodes_64 offset).bind ((decodes_32 count).map _))
  | write fid offset data =>
    exact (decodes_32 fid).bind ((decodes_64 offset).bind ((decodes_nat (k := 4) hm).bind ((decodes_bytes data).map _)))
  | getattr fid mask => exact (decodes_32 fid).bind ((decodes_64 mask).map _)
  | setattr fid attr => exact (decodes_32 fid).bind ((decodes_attr attr).map _)
  | statfs fid => exact (decodes_32 fid).map _
  | readdir fid offset count => exact (decodes_32 fid).bind ((decodes_64 offset).bind ((decodes_32 count).map _))
  | mkdir dfid name mode gid =>
    exact (decodes_32 dfid).bind ((decodes_str hm).bind ((decodes_32 mode).bind ((decodes_32 gid).map _)))
  | unlinkat dfid name flags => exact (decodes_32 dfid).bind ((decodes_str hm).bind ((decodes_32 flags).map _))
  | renameat olddirfid oldname newdirfid newname =>
    exact (decodes_32 olddirfid).bind ((decodes_str hm.1).bind ((decodes_32 newdirfid).bind ((decodes_str hm.2).map _)))
  | fsync fid datasync => exact (decodes_32 fid).bind ((decodes_32 datasync).map _)
  | flush oldtag => exact (decodes_16 oldtag).map _
  | symlink dfid name target gid =>
    exact (decodes_32 dfid).bind ((decodes_str hm.1).bind ((decodes_str hm.2).bind ((decodes_32 gid).map _)))
  | readlink fid => exact (decodes_32 fid).map _
  | link dfid fid name => exact (decodes_32 dfid).bind ((decodes_32 fid).bind ((decodes_str hm).map _))

theorem decFrame_frame {m : TMsg} (hm : m.Wf) (hsize : 7 + m.body.length < 4294967296) (tag : UInt16) :
    decFrame (m.frame tag) = some ((7 + m.body.length, tag, m), []) := by
  have h : Decodes decFrame (m.frame tag) (7 + m.body.length, tag, m) :=
    (decodes_nat (k := 4) hsize).bind ((decodes_8 m.type).bind ((decodes_16 tag).bind ((decodes_body m hm).map _)))
  have h' := h []
  rwa [List.append_nil] at h'

/-- **The decoder gives back the message and its tag.** -/
theorem decode_frame {m : TMsg} (hm : m.Wf) (hsize : 7 + m.body.length < 4294967296) (tag : UInt16) :
    decode (m.frame tag) = some (tag, m) := by
  unfold decode
  rw [decFrame_frame hm hsize]
  exact if_pos (m.length_frame tag).symm

theorem decode_clunk (fid : UInt32) (tag : UInt16) : decode ((TMsg.clunk fid).frame tag) = some (tag, .clunk fid) :=
  decode_frame (m := .clunk fid) trivial (by simp [TMsg.body]) tag

theorem decode_version (tag : UInt16) :
    decode ((TMsg.version p9MSize p9VersionStr).frame tag) = some (tag, .version p9MSize p9VersionStr) :=
  decode_frame (m := .version p9MSize p9VersionStr) (by simp [TMsg.Wf, p9VersionStr]) (by decide) tag

theorem decode_attach (root : UInt32) (tag : UInt16) :
    decode ((TMsg.attach root p9NoFid [] [] 0).frame tag) = some (tag, .attach root p9NoFid [] [] 0) :=
  decode_frame (m := .attach root p9NoFid [] [] 0) (by simp [TMsg.Wf]) (by simp [TMsg.body]) tag

theorem decode_lcreate (fid : UInt32) {name : Str} (h : name.length < 256) (flags mode gid : UInt32) (tag : UInt16) :
    decode ((TMsg.lcreate fid name flags mode gid).frame tag) = some (tag, .lcreate fid name flags mode gid) :=
  decode_frame (m := .lcreate fid name flags mode gid) (show name.length < 65536 by omega)
    (by simp [TMsg.body]; omega) tag

end Decode

end Virtio9P
