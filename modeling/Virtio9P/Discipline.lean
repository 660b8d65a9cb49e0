import Virtio9P.Run
import Virtio9P.Transact

/-!
# What the callbacks do with fids

A callback draws a fid, walks it, hands it to itself, works on it, clunks it and frees it; or it fails on the way.
`Stage` is where a fid stands between `FidPool_Alloc` and `FidPool_Free`, and a `Discipline` is an invariant that
follows the fids through these stages: one rule for each thing a callback can do. From the rules the invariant holds
after every callback (`exec_inv`) and after every run (`run_inv`), whatever the arguments and whatever the link does.
A result about runs then takes an invariant and its rules, and no look at the callbacks.
-/

namespace Virtio9P

open Lib

variable {W α : Type}

/-! ## Mounting -/

/-- `D` holds after the version handshake, `G` after the attach, `N` when there is no memory for a pool. -/
theorem mount_rule {L : Link W} {P D G N : St W → Prop} {Q : Bool → St W → Prop} {E : Fault → St W → Prop}
    (hversion : Triple P (p9Request (v9pTransact L) (pure p9NoTag) (.version p9MSize p9VersionStr) parseVersion)
      (fun r s => match r with
        | .error _ => Q false s
        | .ok msize => D { s with h := { s.h with msize := msize } }) E)
    (hattach : ∀ root, Triple (fun s => s.h.rootFid = root ∧ D s)
      (p9Request (v9pTransact L) p9NextTag (.attach root p9NoFid [] [] 0) noFields)
      (fun r s => match r with | .error _ => Q false s | .ok _ => G s) E)
    (hpool : ∀ s w, G s → fidPoolCreate L.allocVec s.w = (some freshPool, w) → Q true (s.pooled (some freshPool) w))
    (hnone : ∀ s w, G s → fidPoolCreate L.allocVec s.w = (none, w) → N (s.pooled none w))
    (hclunk : ∀ root, Triple N (p9Clunk (v9pTransact L) root) (fun _ => Q false) E) : Triple P (mount L) Q E := by
  unfold mount
  rw [p9Version_eq, bind_assoc]
  refine hversion.bind fun r => ?_
  cases r with
  | error e => exact Triple.pure fun _ hs => hs
  | ok msize =>
    intro s hs
    rw [bind_assoc, modifyHandler_bind, pure_bind]
    simp only []
    rw [handler_bind, p9Attach_eq]
    refine Triple.bind (hattach s.h.rootFid) (fun r => ?_) _ ⟨rfl, hs⟩
    cases r with
    | error e => exact Triple.pure fun _ hs => hs
    | ok _ =>
      intro s hs
      simp only []
      rw [onLink_bind, modifyHandler_bind]
      rcases hcreate : fidPoolCreate L.allocVec s.w with ⟨pool, w⟩
      have hcases := fidPoolCreate_cases L.allocVec s.w
      rw [hcreate] at hcases
      rcases hcases with rfl | rfl
      · exact hpool s w hs hcreate
      · exact Triple.bind (hclunk s.h.rootFid) (fun _ => Triple.pure fun _ hs => hs) _ (hnone s w hs hcreate)

/-! ## Walking -/

/-- `D fid` holds when the fid was drawn, and `B fid r` when `P9_Walk` has returned `r`. -/
theorem walkTo_rule {L : Link W} {path : Str} {P : St W → Prop} {D : UInt32 → St W → Prop}
    {B : UInt32 → Except Int32 Unit → St W → Prop} {Q : Except Int32 UInt32 → St W → Prop} {E : Fault → St W → Prop}
    (hdraw : Triple P drawFid D E)
    (hwalk : ∀ fid root, Triple (fun s => s.h.rootFid = root ∧ D fid s) (p9Walk (v9pTransact L) root fid path)
      (B fid) E)
    (horphan : ∀ fid, Triple (B fid (.error (-5))) (orphanFid L fid) (fun _ => Q (.error (-5))) E)
    (hfree : ∀ fid e, e ≠ -5 → Triple (B fid (.error e)) (freeFid L fid) (fun _ => Q (.error e)) E)
    (hhold : ∀ fid s, B fid (.ok ()) s → Q (.ok fid) (s.logged (.hold fid))) : Triple P (walkTo L path) Q E := by
  refine hdraw.bind fun fid s hs => ?_
  rw [handler_bind]
  refine Triple.bind (hwalk fid s.h.rootFid) (fun r => ?_) s ⟨rfl, hs⟩
  cases r with
  | ok _ => exact fun s hs => hhold fid s hs
  | error e =>
    by_cases he : e = -5
    · simp only [he, if_true]
      exact (horphan fid).bind fun _ => Triple.pure fun _ hs => hs
    · simp only [he, if_false]
      exact (hfree fid e he).bind fun _ => Triple.pure fun _ hs => hs

/-! ## Stages and disciplines -/

/-- Where a fid stands. -/
inductive Stage where
  /-- drawn, and not walked or walked in vain -/
  | drawn
  /-- the walk ended with the code of a transport error -/
  | doubtful
  /-- the walk succeeded -/
  | walked
  /-- in the hands of a callback -/
  | held
  /-- clunked, whatever came of it -/
  | closed
  /-- in `fi->fh` of an open file -/
  | handle
  deriving DecidableEq

/-- Fids and where they stand. -/
abbrev Owned := List (UInt32 × Stage)

/-- Where `P9_Walk` leaves its `newfid`. -/
def walkStage : Except Int32 Unit → Stage
  | .ok _ => .walked
  | .error e => if e = -5 then .doubtful else .drawn

/-- The messages that a callback sends about the fids it holds. `Tlcreate` changes what its fid stands for, so it is
not for open files. -/
def Allowed (own : Owned) : TMsg → Prop
  | .version .. | .attach .. | .walk .. | .clunk .. | .flush .. => False
  | .lcreate fid name .. => (fid, .held) ∈ own ∧ name.length < 256
  | _ => True

/-- The fid is in the hands of a callback or of an open file. -/
def InUse (own : Owned) (fid : UInt32) : Prop := (fid, .held) ∈ own ∨ (fid, .handle) ∈ own

/-- The message names fids in use only, or asks about the root. -/
def InHand (own : Owned) (root : UInt32) : TMsg → Prop
  | .statfs fid => fid = root
  | m => ∀ fid ∈ m.fids, InUse own fid

theorem InUse.single {own : Owned} {fid : UInt32} (h : InUse own fid) : ∀ f ∈ [fid], InUse own f := by
  intro f hf
  rwa [List.mem_singleton.mp hf]

theorem InUse.pair {own : Owned} {fid fid' : UInt32} (h : InUse own fid) (h' : InUse own fid') :
    ∀ f ∈ [fid, fid'], InUse own f := by
  intro f hf
  rcases List.mem_cons.mp hf with rfl | hf
  · exact h
  · exact h'.single f hf

theorem inUse_held (own : Owned) (fid : UInt32) : InUse ((fid, .held) :: own) fid := .inl (List.mem_cons_self ..)

/-- An invariant of states and of the fids in use, and that every step of a callback keeps it. `Fresh` is what holds
when a fid was just drawn, and `Safe` what is left of the invariant at a fault. -/
structure Discipline (L : Link W) where
  Inv : Owned → St W → Prop
  Fresh : Owned → UInt32 → St W → Prop
  Safe : Fault → St W → Prop
  safe : ∀ {own s}, Inv own s → Safe .hang s
  perm : ∀ {own own' s}, own.Perm own' → Inv own s → Inv own' s
  draw : ∀ own, Triple (Inv own) drawFid (fun fid => Fresh own fid) Safe
  walk : ∀ own fid root path, Triple (fun s => s.h.rootFid = root ∧ Fresh own fid s)
    (p9Walk (v9pTransact L) root fid path) (fun r => Inv ((fid, walkStage r) :: own)) Safe
  hold : ∀ own fid, Triple (Inv ((fid, .walked) :: own)) (record (.hold fid)) (fun _ => Inv ((fid, .held) :: own))
    Safe
  clunk : ∀ own fid stage, stage = .held ∨ stage = .handle →
    Triple (Inv ((fid, stage) :: own)) (p9Clunk (v9pTransact L) fid) (fun _ => Inv ((fid, .closed) :: own))
      Safe
  free : ∀ own fid stage, stage = .drawn ∨ stage = .closed →
    Triple (Inv ((fid, stage) :: own)) (freeFid L fid) (fun _ => Inv own) Safe
  orphan : ∀ own fid, Triple (Inv ((fid, .doubtful) :: own)) (orphanFid L fid) (fun _ => Inv own) Safe
  request : ∀ {α : Type} own root m (parse : Mem → UInt32 → Except Int32 α), Allowed own m → InHand own root m →
    Triple (fun s => s.h.rootFid = root ∧ Inv own s) (p9Request (v9pTransact L) p9NextTag m parse) (fun _ => Inv own)
      Safe
  /-- an open returns -/
  adopt : ∀ own fid, Triple (Inv ((fid, .held) :: own)) (record (.opened fid)) (fun _ => Inv ((fid, .handle) :: own))
    Safe

namespace Discipline

variable {L : Link W} (D : Discipline L) {own : Owned}

/-- Reading the handler changes nothing. -/
theorem onHandler {β : Type} {P : St W → Prop} {f : Handler → Client W β} {Q : β → St W → Prop}
    (h : ∀ hd, Triple (fun s => s.h = hd ∧ P s) (f hd) Q D.Safe) :
    Triple P (handler >>= f) Q D.Safe := by
  intro s hs
  rw [handler_bind]
  exact h s.h s ⟨rfl, hs⟩

/-- A request that names fids in use only. -/
theorem ask {m : TMsg} (parse : Mem → UInt32 → Except Int32 α) (hm : Allowed own m) (hin : ∀ root, InHand own root m) :
    Triple (D.Inv own) (p9Request (v9pTransact L) p9NextTag m parse) (fun _ => D.Inv own) D.Safe :=
  fun s hs => D.request own s.h.rootFid m parse hm (hin _) s ⟨rfl, hs⟩

/-! ## Walking and closing -/

/-- `walk_to`, from where its fid can be drawn. -/
theorem walkFrom {P : St W → Prop} (hdraw : Triple P drawFid (fun fid => D.Fresh own fid) D.Safe) (path : Str) :
    Triple P (Virtio9P.walkTo L path)
      (fun r => match r with | .error _ => D.Inv own | .ok fid => D.Inv ((fid, .held) :: own)) D.Safe := by
  refine walkTo_rule (B := fun fid r => D.Inv ((fid, walkStage r) :: own)) hdraw
    (fun fid root => D.walk own fid root path) (fun fid => ?_) (fun fid e he => ?_) fun fid s hs => D.hold own fid s hs
  · exact (D.orphan own fid).pre fun _ hs => hs
  · refine (D.free own fid .drawn (.inl rfl)).pre fun _ hs => ?_
    simpa only [walkStage, he, if_false] using hs

theorem walkTo (path : Str) :
    Triple (D.Inv own) (walkTo L path)
      (fun r => match r with | .error _ => D.Inv own | .ok fid => D.Inv ((fid, .held) :: own)) D.Safe :=
  D.walkFrom (D.draw own) path

theorem closeFid (fid : UInt32) {stage : Stage} (h : stage = .held ∨ stage = .handle) :
    Triple (D.Inv ((fid, stage) :: own)) (closeFid L fid) (fun _ => D.Inv own) D.Safe :=
  (D.clunk own fid stage h).bind fun _ => D.free own fid .closed (.inr rfl)

/-- Work on a fid that keeps the invariant. -/
theorem withFid (path : Str) {work : UInt32 → Client W (Except Int32 α)}
    (hwork : ∀ fid, Triple (D.Inv ((fid, .held) :: own)) (work fid) (fun _ => D.Inv ((fid, .held) :: own))
      D.Safe) :
    Triple (D.Inv own) (withFid L path work) (fun _ => D.Inv own) D.Safe := by
  unfold Virtio9P.withFid
  refine (D.walkTo path).bind fun r => ?_
  cases r with
  | error e => exact Triple.ret
  | ok fid =>
    exact (hwork fid).bind fun r => (D.closeFid fid (.inl rfl)).bind fun _ => Triple.ret

theorem withParent (path : Str) {work : UInt32 → Str → Client W (Except Int32 α)}
    (hwork : ∀ fid name, Triple (D.Inv ((fid, .held) :: own)) (work fid name)
      (fun _ => D.Inv ((fid, .held) :: own)) D.Safe) :
    Triple (D.Inv own) (withParent L path work) (fun _ => D.Inv own) D.Safe :=
  D.withFid _ fun fid => hwork fid _

/-- Open a fid, or close it. -/
theorem keepFid (path : Str) {opening : UInt32 → Client W (Except Int32 UInt32)}
    (hopen : ∀ fid, Triple (D.Inv ((fid, .held) :: own)) (opening fid) (fun _ => D.Inv ((fid, .held) :: own))
      D.Safe) :
    Triple (D.Inv own) (keepFid L path opening)
      (fun r => match r with | .error _ => D.Inv own | .ok fid => D.Inv ((fid, .held) :: own)) D.Safe := by
  unfold Virtio9P.keepFid
  refine (D.walkTo path).bind fun r => ?_
  cases r with
  | error e => exact Triple.pure fun _ hs => hs
  | ok fid =>
    refine (hopen fid).bind fun r => ?_
    cases r with
    | error e => exact (D.closeFid fid (.inl rfl)).bind fun _ => Triple.pure fun _ hs => hs
    | ok _ => exact Triple.pure fun _ hs => hs

/-- Two fids held together, in the other order. -/
theorem swapped {β : Type} {fid fid' : UInt32} {stage stage' : Stage} {x : Client W β} {Q : β → St W → Prop}
    (h : Triple (D.Inv ((fid', stage') :: (fid, stage) :: own)) x Q D.Safe) :
    Triple (D.Inv ((fid, stage) :: (fid', stage') :: own)) x Q D.Safe :=
  h.pre fun _ hs => D.perm (List.Perm.swap ..) hs

/-! ## The callbacks on a path -/

theorem p9Setattr {fid : UInt32} (hfid : InUse own fid) (attr : P9Iattr) :
    Triple (D.Inv own) (p9Setattr (v9pTransact L) fid attr) (fun _ => D.Inv own) D.Safe := by
  rw [p9Setattr_eq]; exact D.ask _ trivial fun _ => hfid.single

theorem p9Getattr {fid : UInt32} (hfid : InUse own fid) (mask : UInt64) :
    Triple (D.Inv own) (p9Getattr (v9pTransact L) fid mask) (fun _ => D.Inv own) D.Safe := by
  rw [p9Getattr_eq]; exact D.ask _ trivial fun _ => hfid.single

theorem v9pGetattr (path : Str) :
    Triple (D.Inv own) (v9pGetattr L path) (fun _ => D.Inv own) D.Safe :=
  (D.withFid path fun fid => D.p9Getattr (inUse_held own fid) _).bind fun _ => Triple.ret

theorem v9pTruncate (path : Str) (size : UInt64) :
    Triple (D.Inv own) (v9pTruncate L path size) (fun _ => D.Inv own) D.Safe :=
  (D.withFid path fun fid => D.p9Setattr (inUse_held own fid) _).bind fun _ => Triple.ret

theorem v9pFtruncate {fh : UInt32} (hfh : InUse own fh) (size : UInt64) :
    Triple (D.Inv own) (v9pFtruncate L fh size) (fun _ => D.Inv own) D.Safe :=
  (D.p9Setattr hfh _).bind fun _ => Triple.ret

theorem v9pChmod (path : Str) (mode : UInt32) :
    Triple (D.Inv own) (v9pChmod L path mode) (fun _ => D.Inv own) D.Safe := by
  refine D.withFid path fun fid => (D.p9Getattr (inUse_held own fid) _).bind fun r => ?_
  cases r with
  | error e => exact Triple.ret
  | ok p9st => exact D.p9Setattr (inUse_held own fid) _

theorem v9pStatfs : Triple (D.Inv own) (v9pStatfs L) (fun _ => D.Inv own) D.Safe := by
  unfold Virtio9P.v9pStatfs
  refine D.onHandler fun hd => ?_
  rw [p9Statfs_eq]
  exact ((D.request own hd.rootFid (.statfs hd.rootFid) _ trivial rfl).pre fun _ hs => ⟨by rw [hs.1], hs.2⟩).bind
    fun _ => Triple.ret

theorem v9pMkdir (path : Str) (mode : UInt32) :
    Triple (D.Inv own) (v9pMkdir L path mode) (fun _ => D.Inv own) D.Safe :=
  D.withParent path fun fid name => by rw [p9Mkdir_eq]; exact D.ask _ trivial fun _ => (inUse_held own fid).single

theorem p9Unlinkat {fid : UInt32} (hfid : InUse own fid) (name : Str) (flags : UInt32) :
    Triple (D.Inv own) (p9Unlinkat (v9pTransact L) fid name flags) (fun _ => D.Inv own) D.Safe := by
  rw [p9Unlinkat_eq]; exact D.ask _ trivial fun _ => hfid.single

theorem v9pSymlink (target path : Str) :
    Triple (D.Inv own) (v9pSymlink L target path) (fun _ => D.Inv own) D.Safe :=
  D.withParent path fun fid name => by rw [p9Symlink_eq]; exact D.ask _ trivial fun _ => (inUse_held own fid).single

theorem v9pReadlink (path : Str) (size : UInt32) :
    Triple (D.Inv own) (v9pReadlink L path size) (fun _ => D.Inv own) D.Safe :=
  D.withFid path fun fid => by rw [p9Readlink_eq]; exact D.ask _ trivial fun _ => (inUse_held own fid).single

/-- The end of `rename` and `link`: clunk both fids, then free both. -/
theorem closeBoth (a b : UInt32) {β : Type} (r : β) :
    Triple (D.Inv ((a, .held) :: (b, .held) :: own)) (do
      let _ ← p9Clunk (v9pTransact L) a
      let _ ← p9Clunk (v9pTransact L) b
      freeFid L a
      freeFid L b
      pure r) (fun _ => D.Inv own) D.Safe := by
  refine (D.clunk _ a .held (.inl rfl)).bind fun _ => D.swapped ?_
  refine (D.clunk _ b .held (.inl rfl)).bind fun _ => D.swapped ?_
  refine (D.free _ a .closed (.inr rfl)).bind fun _ => ?_
  exact (D.free _ b .closed (.inr rfl)).bind fun _ => Triple.ret

theorem v9pRename (oldpath newpath : Str) :
    Triple (D.Inv own) (v9pRename L oldpath newpath) (fun _ => D.Inv own) D.Safe := by
  unfold Virtio9P.v9pRename
  refine (D.walkTo _).bind fun r => ?_
  cases r with
  | error e => exact Triple.ret
  | ok olddirfid =>
    refine (D.walkTo _).bind fun r => ?_
    cases r with
    | error e => exact (D.closeFid olddirfid (.inl rfl)).bind fun _ => Triple.ret
    | ok newdirfid =>
      refine Triple.bind ?_ fun r => D.swapped (D.closeBoth olddirfid newdirfid r)
      rw [p9Renameat_eq]
      exact D.ask _ trivial fun _ => InUse.pair (.inl (List.mem_cons_of_mem _ (List.mem_cons_self ..))) (inUse_held _ _)

theorem v9pLink (oldpath newpath : Str) :
    Triple (D.Inv own) (v9pLink L oldpath newpath) (fun _ => D.Inv own) D.Safe := by
  unfold Virtio9P.v9pLink
  refine (D.walkTo _).bind fun r => ?_
  cases r with
  | error e => exact Triple.ret
  | ok srcfid =>
    refine (D.walkTo _).bind fun r => ?_
    cases r with
    | error e => exact (D.closeFid srcfid (.inl rfl)).bind fun _ => Triple.ret
    | ok dfid =>
      refine Triple.bind ?_ fun r => D.closeBoth dfid srcfid r
      rw [p9Link_eq]
      exact D.ask _ trivial fun _ => (inUse_held _ _).pair (.inl (List.mem_cons_of_mem _ (List.mem_cons_self ..)))

/-! ## Open files -/

theorem p9Lopen {fid : UInt32} (hfid : InUse own fid) (flags : UInt32) :
    Triple (D.Inv own) (p9Lopen (v9pTransact L) fid flags) (fun _ => D.Inv own) D.Safe := by
  rw [p9Lopen_eq]; exact D.ask _ trivial fun _ => hfid.single

theorem v9pCreate (path : Str) (mode flags : UInt32) :
    Triple (D.Inv own) (v9pCreate L path mode flags)
      (fun r => match r with | .error _ => D.Inv own | .ok fid => D.Inv ((fid, .held) :: own)) D.Safe :=
  D.keepFid _ fun fid => by
    rw [p9Lcreate_eq]
    exact D.ask _ ⟨List.mem_cons_self .., (length_wireStr_le _).trans_lt (length_name path)⟩
      fun _ => (inUse_held own fid).single

theorem v9pRead (fuel : Nat) {fh : UInt32} (hfh : InUse own fh) (size : UInt32) (off : UInt64) :
    Triple (D.Inv own) (v9pRead L fuel fh size off) (fun _ => D.Inv own) D.Safe := by
  refine Triple.loop (I := fun _ => D.Inv own) (E := D.Safe) (fun got => ?_) (fun _ _ hs => D.safe hs) fuel []
  refine Triple.ite (fun _ => ?_) fun _ => Triple.pure fun _ hs => hs
  rw [p9Read_eq]
  refine Triple.bind (Q := fun _ => D.Inv own) (D.onHandler fun hd => ?_) fun r => ?_
  · exact (D.ask (m := .read fh _ _) _ trivial fun _ => hfh.single).pre fun _ hs => hs.2
  · cases r with
    | error e => exact Triple.pure fun _ hs => hs
    | ok data => exact Triple.ite (fun _ => Triple.pure fun _ hs => hs) fun _ => Triple.pure fun _ hs => hs

theorem v9pWrite (fuel : Nat) {fh : UInt32} (hfh : InUse own fh) (size : UInt32) (off : UInt64) (buf : Mem) :
    Triple (D.Inv own) (v9pWrite L fuel fh size off buf) (fun _ => D.Inv own) D.Safe := by
  refine Triple.loop (I := fun _ => D.Inv own) (E := D.Safe) (fun written => ?_) (fun _ _ hs => D.safe hs) fuel 0
  refine Triple.ite (fun _ => ?_) fun _ => Triple.pure fun _ hs => hs
  rw [p9Write_eq]
  refine Triple.bind (Q := fun _ => D.Inv own) (D.onHandler fun hd => ?_) fun r => ?_
  · exact (D.ask (m := .write fh _ _) _ trivial fun _ => hfh.single).pre fun _ hs => hs.2
  · cases r with
    | error e => exact Triple.pure fun _ hs => hs
    | ok actual => exact Triple.ite (fun _ => Triple.pure fun _ hs => hs) fun _ => Triple.pure fun _ hs => hs

theorem v9pReaddir (fuel : Nat) (filler : List Str → Bool) {fh : UInt32} (hfh : InUse own fh) :
    Triple (D.Inv own) (v9pReaddir L fuel filler fh) (fun _ => D.Inv own) D.Safe := by
  refine D.onHandler fun hd => Triple.pre ?_ fun _ hs => hs.2
  refine Triple.loop (I := fun _ => D.Inv own) (E := D.Safe) (fun at' => ?_) (fun _ _ hs => D.safe hs) fuel (0, [])
  unfold readdirRound
  rw [p9Readdir_eq]
  refine Triple.bind (Q := fun _ => D.Inv own) (D.onHandler fun hd => ?_) fun r => ?_
  · exact (D.ask (m := .readdir fh _ _) _ trivial fun _ => hfh.single).pre fun _ hs => hs.2
  · cases r with
    | error e => exact Triple.pure fun _ hs => hs
    | ok block =>
      refine Triple.ite (fun _ => Triple.pure fun _ hs => hs) fun _ => ?_
      exact Triple.ite (fun _ => Triple.pure fun _ hs => hs) fun _ => Triple.pure fun _ hs => hs

theorem v9pFsync {fi : Option UInt32} (hfi : ∀ fh ∈ fi, InUse own fh) (datasync : Bool) :
    Triple (D.Inv own) (v9pFsync L fi datasync) (fun _ => D.Inv own) D.Safe := by
  cases fi with
  | none => exact Triple.ret
  | some fh =>
    show Triple _ (p9Fsync (v9pTransact L) fh _) _ _
    rw [p9Fsync_eq]
    exact D.ask _ trivial fun _ => (hfi fh rfl).single

/-! ## Runs -/

/-- The fids of the open files. -/
def owned (handles : List UInt32) : Owned := handles.map fun fh => (fh, .handle)

theorem onPath {handles : List UInt32} {call : Client W α} {outcome : α → Outcome}
    (h : Triple (D.Inv (owned handles)) call (fun _ => D.Inv (owned handles)) D.Safe) :
    Triple (D.Inv (owned handles)) (onPath handles call outcome) (fun r => D.Inv (owned r.2)) D.Safe :=
  h.bind fun _ => Triple.pure fun _ hs => hs

theorem onHandle {handles : List UInt32} (fi : Nat) {call : UInt32 → Client W Outcome}
    (h : ∀ fh, InUse (owned handles) fh →
      Triple (D.Inv (owned handles)) (call fh) (fun _ => D.Inv (owned handles)) D.Safe) :
    Triple (D.Inv (owned handles)) (onHandle handles fi call) (fun r => D.Inv (owned r.2)) D.Safe := by
  unfold Virtio9P.onHandle
  cases hfi : handles[fi]? with
  | none => exact Triple.pure fun _ hs => hs
  | some fh =>
    have huse : InUse (owned handles) fh := .inr (List.mem_map_of_mem (List.mem_of_getElem? hfi))
    exact (h fh huse).bind fun _ => Triple.pure fun _ hs => hs

theorem onOpen {handles : List UInt32} {call : Client W (Except Int32 UInt32)}
    (h : Triple (D.Inv (owned handles)) call
      (fun r => match r with | .error _ => D.Inv (owned handles) | .ok fid => D.Inv ((fid, .held) :: owned handles))
      D.Safe) :
    Triple (D.Inv (owned handles)) (onOpen handles call) (fun r => D.Inv (owned r.2)) D.Safe := by
  refine h.bind fun r => ?_
  cases r with
  | error e => exact Triple.pure fun _ hs => hs
  | ok fh => exact (D.adopt _ fh).bind fun _ => Triple.pure fun _ hs => hs

theorem onClose {handles : List UInt32} (fi : Nat) {call : UInt32 → Client W (Except Int32 Unit)}
    (h : ∀ fh own, Triple (D.Inv ((fh, .handle) :: own)) (call fh) (fun _ => D.Inv own) D.Safe) :
    Triple (D.Inv (owned handles)) (onClose handles fi call) (fun r => D.Inv (owned r.2)) D.Safe := by
  unfold Virtio9P.onClose
  cases hfi : handles[fi]? with
  | none => exact Triple.pure fun _ hs => hs
  | some fh =>
    obtain ⟨hlt, hget⟩ := List.getElem?_eq_some_iff.mp hfi
    have hperm : (owned handles).Perm ((fh, .handle) :: owned (handles.eraseIdx fi)) := by
      have := (List.getElem_cons_eraseIdx_perm hlt).symm.map fun fh : UInt32 => (fh, Stage.handle)
      simpa only [owned, List.map_cons, hget] using this
    refine Triple.bind ((h fh (owned (handles.eraseIdx fi))).pre fun s hs => ?_) fun _ => Triple.pure fun _ hs => hs
    exact D.perm hperm hs

/-- **Every callback keeps the invariant.** -/
theorem exec_inv (handles : List UInt32) (c : Callback) :
    Triple (D.Inv (owned handles)) (exec L handles c) (fun r => D.Inv (owned r.2)) D.Safe := by
  cases c with
  | getattr path => exact D.onPath (D.v9pGetattr path)
  | opendir path => exact D.onOpen (D.keepFid path fun fid => D.p9Lopen (inUse_held _ fid) _)
  | readdir fuel fi filler => exact D.onHandle fi fun fh hfh => (D.v9pReaddir fuel filler hfh).map
  | releasedir fi => exact D.onClose fi fun fh own => (D.closeFid fh (.inr rfl)).bind fun _ => Triple.ret
  | «open» path flags => exact D.onOpen (D.keepFid path fun fid => D.p9Lopen (inUse_held _ fid) _)
  | release fi => exact D.onClose fi fun fh own => (D.closeFid fh (.inr rfl)).bind fun _ => Triple.ret
  | read fuel fi size off => exact D.onHandle fi fun fh hfh => (D.v9pRead fuel hfh size off).map
  | write fuel fi size off buf => exact D.onHandle fi fun fh hfh => (D.v9pWrite fuel hfh size off buf).map
  | create path mode flags => exact D.onOpen (D.v9pCreate path mode flags)
  | mkdir path mode => exact D.onPath (D.v9pMkdir path mode)
  | unlink path => exact D.onPath (D.withParent path fun fid name => D.p9Unlinkat (inUse_held _ fid) name _)
  | rmdir path => exact D.onPath (D.withParent path fun fid name => D.p9Unlinkat (inUse_held _ fid) name _)
  | rename oldpath newpath => exact D.onPath (D.v9pRename oldpath newpath)
  | truncate path size => exact D.onPath (D.v9pTruncate path size)
  | ftruncate fi size =>
    exact D.onHandle fi fun fh hfh => (D.v9pFtruncate hfh size).map
  | statfs => exact D.onPath D.v9pStatfs
  | utimens path atimeSec atimeNsec mtimeSec mtimeNsec =>
    exact D.onPath (D.withFid path fun fid => D.p9Setattr (inUse_held _ fid) _)
  | fsync fi datasync =>
    cases fi with
    | none => exact D.onPath (D.v9pFsync (fun fh hfh => by cases hfh) datasync)
    | some fi =>
      exact D.onHandle fi fun fh hfh => (D.v9pFsync (fun fh' h => (Option.some.inj h) ▸ hfh) datasync).map
  | symlink target path => exact D.onPath (D.v9pSymlink target path)
  | readlink path size => exact D.onPath (D.v9pReadlink path size)
  | link oldpath newpath => exact D.onPath (D.v9pLink oldpath newpath)
  | chmod path mode => exact D.onPath (D.v9pChmod path mode)
  | chown path uid gid => exact D.onPath (D.withFid path fun fid => D.p9Setattr (inUse_held _ fid) _)

/-- **Every run keeps the invariant.** -/
theorem run_inv (handles : List UInt32) (cs : List Callback) :
    Triple (D.Inv (owned handles)) (run L handles cs) (fun r => D.Inv (owned r.2)) D.Safe := by
  induction cs generalizing handles with
  | nil => exact Triple.pure fun _ hs => hs
  | cons c cs ih => exact (D.exec_inv handles c).bind fun r => (ih r.2).bind fun _ => Triple.pure fun _ hs => hs

end Discipline

end Virtio9P
