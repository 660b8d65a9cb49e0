import Virtio9P.Lib.Splice
import Virtio9P.Sessions

/-!
# A tree of files

A small file system with directories and files, to try the results about servers on: a node is the list of names from
the root, and `.` and `..` are names in every directory. Links and removals are refused.
-/

namespace Virtio9P

open Lib

/-! ## The file system -/

/-- A directory or a file with its data, and the attributes. -/
structure Inode where
  dir : Bool
  attr : P9Stat
  data : List UInt8

/-- The nodes there are, and the next number for a `qid`. -/
structure Tree where
  inodes : List Str → Option Inode
  next : Nat

namespace Tree

/-- Attributes with the number `ino` and the mode. -/
def stat (ino : Nat) (mode : UInt32) : P9Stat :=
  ⟨0, ⟨0, 0, UInt64.ofNat ino⟩, mode, 0, 0, 1, 0, 0, 4096, 0, 0, 0, 0, 0, 0, 0, 0, 0, 0, 0⟩

/-- The attributes after a `Tsetattr`; the server's clock stands still. -/
def setStat (a : P9Iattr) (st : P9Stat) : P9Stat :=
  { st with
    mode := if a.valid &&& p9SetattrMode ≠ 0 then a.mode else st.mode
    uid := if a.valid &&& p9SetattrUid ≠ 0 then a.uid else st.uid
    gid := if a.valid &&& p9SetattrGid ≠ 0 then a.gid else st.gid
    size := if a.valid &&& p9SetattrSize ≠ 0 then a.size else st.size
    atimeSec := if a.valid &&& p9SetattrAtime ≠ 0 ∧ a.valid &&& p9SetattrAtimeSet ≠ 0 then a.atimeSec else st.atimeSec
    atimeNsec :=
      if a.valid &&& p9SetattrAtime ≠ 0 ∧ a.valid &&& p9SetattrAtimeSet ≠ 0 then a.atimeNsec else st.atimeNsec
    mtimeSec := if a.valid &&& p9SetattrMtime ≠ 0 ∧ a.valid &&& p9SetattrMtimeSet ≠ 0 then a.mtimeSec else st.mtimeSec
    mtimeNsec :=
      if a.valid &&& p9SetattrMtime ≠ 0 ∧ a.valid &&& p9SetattrMtimeSet ≠ 0 then a.mtimeNsec else st.mtimeNsec }

/-- The data after a `Tsetattr`: cut or filled up with zeros to a new size. -/
def setData (a : P9Iattr) (data : List UInt8) : List UInt8 :=
  if a.valid &&& p9SetattrSize ≠ 0 then (data ++ List.replicate (a.size.toNat - data.length) 0).take a.size.toNat
  else data

/-- The name can be given to an entry. -/
def Nameable (name : Str) : Prop := name ≠ [] ∧ name ≠ dot ∧ name ≠ dotdot

instance (name : Str) : Decidable (Nameable name) := by
  unfold Nameable
  infer_instance

/-- There is a directory. -/
def isDir (f : Tree) (n : List Str) : Bool := (f.inodes n).any (·.dir)

/-- The tree with an inode. -/
def set (f : Tree) (n : List Str) (i : Inode) : Tree := { f with inodes := Function.update f.inodes n (some i) }

/-- The tree with a new inode. -/
def add (f : Tree) (n : List Str) (dir : Bool) (mode : UInt32) : Tree :=
  ⟨Function.update f.inodes n (some ⟨dir, stat f.next mode, []⟩), f.next + 1⟩

/-- Work on an inode. -/
def withInode {α : Type} (f : Tree) (n : List Str) (work : Inode → Except Errno α) : Except Errno α :=
  match f.inodes n with
  | some i => work i
  | none => .error ⟨2, by decide⟩

/-- Work on a file. -/
def withFile {α : Type} (f : Tree) (n : List Str) (work : Inode → Except Errno α) : Except Errno α :=
  f.withInode n fun i => if i.dir then .error ⟨21, by decide⟩ else work i

/-- The entry `name` of the directory `n`. -/
def find (f : Tree) (n : List Str) (name : Str) : Option (List Str) :=
  if f.isDir n then
    if name = dot then some n
    else if name = dotdot then some n.dropLast
    else if (f.inodes (n ++ [name])).isSome then some (n ++ [name])
    else none
  else none

/-- A new entry in a directory; `there` says what becomes of a name that is in use. -/
def make (f : Tree) (n : List Str) (name : Str) (dir : Bool) (mode : UInt32)
    (there : Inode → Except Errno (List Str × Tree)) : Except Errno (List Str × Tree) :=
  if Nameable name then
    if f.isDir n then
      match f.inodes (n ++ [name]) with
      | some i => there i
      | none => .ok (n ++ [name], f.add (n ++ [name]) dir mode)
    else .error ⟨20, by decide⟩
  else .error ⟨22, by decide⟩

/-- The file system. Open flags `0`, `1` and `2` are for reading, for writing, and for both. -/
def fileSystem : FileSystem Tree (List Str) where
  lookup := find
  getattr f n := ((f.inodes n).map (·.attr)).getD (stat 0 0)
  setattr f n a := f.withInode n fun i => .ok (f.set n { i with attr := setStat a i.attr, data := setData a i.data })
  lopen f n flags := f.withInode n fun i => if i.dir ∧ flags &&& 3 ≠ 0 then .error ⟨21, by decide⟩ else .ok f
  lcreate f n name _ mode := f.make n name false mode fun i =>
    if i.dir then .error ⟨21, by decide⟩ else .ok (n ++ [name], f)
  read f n flags := f.withFile n fun i => if flags &&& 3 = 1 then .error ⟨9, by decide⟩ else .ok i.data
  write f n flags off bs := f.withFile n fun i =>
    if flags &&& 3 = 0 then .error ⟨9, by decide⟩
    else
      let data := splice 0 i.data off.toNat bs
      .ok (f.set n { i with data := data, attr := { i.attr with size := UInt64.ofNat data.length } })
  mkdir f n name mode := f.make n name true mode fun _ => .error ⟨17, by decide⟩
  unlinkat _ _ _ _ := .error ⟨1, by decide⟩
  renameat _ _ _ _ _ := .error ⟨1, by decide⟩
  symlink _ _ _ _ := .error ⟨1, by decide⟩
  readlink _ _ := .error ⟨22, by decide⟩
  link _ _ _ _ := .error ⟨1, by decide⟩

section Inodes

variable {f : Tree} {n : List Str} {i : Inode}

theorem set_self : (f.set n i).inodes n = some i := Function.update_self ..

theorem set_of_ne {m : List Str} (h : m ≠ n) : (f.set n i).inodes m = f.inodes m := Function.update_of_ne h ..

theorem set_set (j : Inode) : (f.set n i).set n j = f.set n j := by
  unfold set
  rw [Function.update_idem]

end Inodes

/-! ## Starting out -/

/-- The tree with the given directories. -/
def ofDirs (dirs : List (List Str)) : Tree := ⟨fun n => if n ∈ dirs then some ⟨true, stat 0 0x41ED, []⟩ else none, 1⟩

/-- A disk with the root fid and no other. -/
def disk (f : Tree) : Disk Tree (List Str) := ⟨f, Function.update (fun _ => none) 0 (some ⟨[], none⟩)⟩

/-- The client just after mounting. -/
def mounted (f : Tree) : St (Disk Tree (List Str)) :=
  ⟨{ startHandler (fun _ => 0) (fun _ => 0) with fidPool := some freshPool }, f.disk, []⟩

/-- A client that has just mounted is in a session. -/
theorem session_mounted (f : Tree) (n : Nat) (hn : n < 4294967295) :
    Session fileSystem.served [] p9MSize [] n f.disk (mounted f) := by
  refine ⟨rfl, rfl, rfl, rfl, freshPool, rfl, FidPool.InUse.fresh, by decide, ?_, fun fid hfid => ?_⟩
  · show n ≤ 0 + (4294967295 - 1)
    omega
  · have hne : fid ≠ 0 := by
      rintro rfl
      rcases hfid with h | h
      · cases h
      · exact absurd h (by decide)
    unfold disk
    simp only [Function.update_of_ne hne]

end Tree

end Virtio9P
