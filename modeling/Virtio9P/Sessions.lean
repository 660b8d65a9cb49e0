import Virtio9P.Discipline
import Virtio9P.FileSys

/-!
# Sessions with a file server

`Session` ties the client to a server: the root fid stands for the root of the file system, the fids in use are those
that callbacks hold, and what the pool can hand out is not bound at the server. Every step of a callback is a rule on
sessions that says what its result and the disk are: one request (`request_does`), a walk to a path (`walkTo_found`,
`walkTo_missing`), and the frames that the path callbacks share (`withFid_found`, `keepFid_found`). No proof about a
callback on a server looks at messages again.
-/

namespace Virtio9P

open Lib

variable {W F N α β : Type} {L : Link W} {sys : FileSystem F N}

/-! ## Sessions -/

/-- The client and the server have agreed on messages of `v` bytes, and agree on the fids: `held` are in use, and `n`
more can be drawn before the counter of the pool runs over. -/
structure Session (S : Served L sys) (root : N) (v : UInt32) (held : List UInt32) (n : Nat) (d : Disk F N) (s : St W) :
    Prop where
  disk : S.disk s.w = d
  msize : s.h.msize = v
  rootFid : s.h.rootFid = 0
  root : d.fids 0 = some ⟨root, none⟩
  pool : ∃ pool, s.h.fidPool = some pool ∧ pool.InUse held ∧ 0 < pool.nextFid.toNat ∧
    n ≤ pool.left ∧ ∀ fid, pool.Available fid → d.fids fid = none

namespace Session

variable {S : Served L sys} {root : N} {v : UInt32} {held : List UInt32} {n : Nat} {d d' : Disk F N} {s s' : St W}
  {fid : UInt32}

theorem ne_zero (h : Session S root v held n d s) (hfid : fid ∈ held) : fid ≠ 0 := by
  obtain ⟨pool, -, huse, -⟩ := h.pool
  exact (huse.below fid (List.mem_append_left _ hfid)).1

theorem not_none (h : Session S root v held n d s) : s.h.fidPool ≠ none := by
  obtain ⟨pool, hsome, -⟩ := h.pool
  exact fun hnone => Option.some_ne_none pool (hsome.symm.trans hnone)

theorem pool_eq (h : Session S root v held n d s) {pool : FidPool} (hsome : s.h.fidPool = some pool) :
    pool.InUse held ∧ 0 < pool.nextFid.toNat ∧ n ≤ pool.left ∧ ∀ fid, pool.Available fid → d.fids fid = none := by
  obtain ⟨pool', hsome', hpool⟩ := h.pool
  obtain rfl : pool = pool' := Option.some.inj (hsome.symm.trans hsome')
  exact hpool

/-- Only the fids in use were changed on the disk. -/
theorem moved (h : Session S root v held n d s) (hfids : ∀ fid, fid ∉ held → d'.fids fid = d.fids fid)
    (hpool : s'.h.fidPool = s.h.fidPool) (hroot : s'.h.rootFid = s.h.rootFid) (hmsize : s'.h.msize = s.h.msize)
    (hdisk : S.disk s'.w = d') :
    Session S root v held n d' s' := by
  refine ⟨hdisk, hmsize.trans h.msize, hroot.trans h.rootFid, ?_, ?_⟩
  · rw [hfids 0 fun h0 => h.ne_zero h0 rfl]
    exact h.root
  · obtain ⟨pool, hsome, huse, hpos, hroom, hfree⟩ := h.pool
    refine ⟨pool, hpool.trans hsome, huse, hpos, hroom, fun fid hfid => ?_⟩
    rw [hfids fid fun hmem => huse.not_available hmem hfid]
    exact hfree fid hfid

theorem mono (h : Session S root v held n d s) {k : Nat} (hk : k ≤ n) : Session S root v held k d s := by
  obtain ⟨pool, hsome, huse, hpos, hroom, hfree⟩ := h.pool
  exact ⟨h.disk, h.msize, h.rootFid, h.root, pool, hsome, huse, hpos, by omega, hfree⟩

theorem perm (h : Session S root v held n d s) {held' : List UInt32} (hp : held.Perm held') :
    Session S root v held' n d s := by
  obtain ⟨pool, hsome, huse, hpos, hroom, hfree⟩ := h.pool
  exact ⟨h.disk, h.msize, h.rootFid, h.root, pool, hsome, huse.perm hp, hpos, hroom, hfree⟩

end Session

/-! ## Attributes -/

/-- The fields show the attributes, each as far as it is wide. -/
structure FbxStat.Shows (widths : Widths) (st : FbxStat) (a : P9Stat) : Prop where
  mode : st.mode.toNat = a.mode.toNat % 2 ^ widths.mode
  nlink : st.nlink.toNat = a.nlink.toNat % 2 ^ widths.nlink
  uid : st.uid = a.uid
  gid : st.gid = a.gid
  rdev : st.rdev.toNat = a.rdev.toNat % 2 ^ widths.dev
  size : st.size = a.size
  blocks : st.blocks = a.blocks
  blksize : st.blksize.toUInt32.toNat = a.blksize.toNat % 2 ^ 32
  ino : st.ino = a.qid.path
  atime : st.atime.toNat = a.atimeSec.toNat % 2 ^ widths.time
  atimensec : st.atimensec.toNat = a.atimeNsec.toNat % 2 ^ 32
  mtime : st.mtime.toNat = a.mtimeSec.toNat % 2 ^ widths.time
  mtimensec : st.mtimensec.toNat = a.mtimeNsec.toNat % 2 ^ 32
  ctime : st.ctime.toNat = a.ctimeSec.toNat % 2 ^ widths.time
  ctimensec : st.ctimensec.toNat = a.ctimeNsec.toNat % 2 ^ 32

theorem toNat_narrow (bits : Nat) (x : UInt64) : (narrow bits x).toNat = x.toNat % 2 ^ bits := by
  rw [narrow, UInt64.toNat_ofNat', Nat.mod_eq_of_lt ((Nat.mod_le _ _).trans_lt x.toNat_lt)]

/-- `p9stat_to_fbxstat` shows what it is given. -/
theorem p9statToFbxstat_shows (widths : Widths) (a : P9Stat) : (p9statToFbxstat widths a).Shows widths a := by
  have hmode : (narrow widths.mode a.mode.toUInt64).toUInt32.toNat = a.mode.toNat % 2 ^ widths.mode := by
    rw [UInt64.toNat_toUInt32, toNat_narrow, UInt32.toNat_toUInt64,
      Nat.mod_eq_of_lt ((Nat.mod_le _ _).trans_lt a.mode.toNat_lt)]
  exact ⟨hmode, toNat_narrow _ _, rfl, rfl, toNat_narrow _ _, rfl, rfl, UInt64.toNat_toUInt32 _, rfl, toNat_narrow _ _,
    UInt64.toNat_toUInt32 _, toNat_narrow _ _, UInt64.toNat_toUInt32 _, toNat_narrow _ _, UInt64.toNat_toUInt32 _⟩

/-- With all the basic attributes in the mask, nothing that `p9stat_to_fbxstat` looks at is left open. -/
theorem Reports.fbxstat {st st' : P9Stat} (h : Reports p9GetattrBasic st st') (widths : Widths) :
    p9statToFbxstat widths st' = p9statToFbxstat widths st := by
  obtain ⟨hqid, hblksize, hmode, hnlink, huid, hgid, hrdev, hatime, hmtime, hctime, hsize, hblocks⟩ := h
  unfold p9statToFbxstat
  rw [hqid, hblksize, hmode (by decide), hnlink (by decide), huid (by decide), hgid (by decide), hrdev (by decide),
    (hatime (by decide)).1, (hatime (by decide)).2, (hmtime (by decide)).1, (hmtime (by decide)).2,
    (hctime (by decide)).1, (hctime (by decide)).2, hsize (by decide), hblocks (by decide)]

/-- A negative code is returned. -/
def Fails (r : Except Int32 α) : Prop := ∃ e, e < 0 ∧ r = .error e

@[simp] theorem fails_error {e : Int32} : Fails (.error e : Except Int32 α) ↔ e < 0 := by
  constructor
  · rintro ⟨e', he, heq⟩
    rwa [Except.error.inj heq]
  · exact fun he => ⟨e, he, rfl⟩

@[simp] theorem not_fails_ok {a : α} : ¬ Fails (.ok a : Except Int32 α) := by
  rintro ⟨e, -, heq⟩
  cases heq

theorem Errno.fails (e : Errno) : Fails (.error (-e.val.toInt32) : Except Int32 α) :=
  ⟨_, (neg_toInt32_neg_iff e.val).mpr e.property, rfl⟩

/-! ## The pool -/

section Rules

variable (S : Served L sys) (root : N) (v : UInt32) (held : List UInt32) (n : Nat) (d : Disk F N)

theorem draw_session : Total (Session S root v held (n + 1) d) drawFid fun fid s =>
    d.fids fid = none ∧ Session S root v (fid :: held) n d s := by
  refine draw_rule (fun s hs hnone => hs.not_none hnone) fun s pool hs hsome => ?_
  obtain ⟨huse, hpos, hroom, hfree⟩ := hs.pool_eq hsome
  have hne : pool.nextFid ≠ 0 := by
    intro h0
    rw [h0, UInt32.toNat_zero] at hpos
    omega
  obtain ⟨hleft, hnext⟩ := left_fidPoolAlloc (by omega) hpos
  have hwrap : (fidPoolAlloc pool).2.nextFid ≠ 0 := by
    intro h0
    rw [h0, UInt32.toNat_zero] at hnext
    omega
  obtain ⟨huse', havail, hmono⟩ := huse.alloc hwrap hne
  exact ⟨hfree _ havail, hs.disk, hs.msize, hs.rootFid, hs.root, _, rfl, huse', hnext, by omega,
    fun fid hfid => hfree fid (hmono fid hfid)⟩

theorem free_session {fid : UInt32} (hfid : d.fids fid = none) : Total (Session S root v (fid :: held) n d)
    (freeFid L fid) fun _ => Session S root v held n d := by
  refine free_rule (fun s hs hnone => hs.not_none hnone) fun s pool pool' w hs hsome hres => ?_
  obtain ⟨huse, hpos, hroom, hfree⟩ := hs.pool_eq hsome
  obtain ⟨hnext, -, hlist⟩ := fidPoolFree_cases L.allocVec pool fid s.w
  have hdisk := fidPoolFree_frame S.alloc pool fid s.w
  rw [hres] at hnext hlist hdisk
  obtain ⟨huse', havail⟩ := huse.free hnext hlist
  have hleft : pool.left ≤ pool'.left := by
    unfold FidPool.left
    rcases hlist with hlist | hlist
    · rw [hlist, hnext, List.length_cons]
      omega
    · rw [hlist, hnext]
  refine ⟨hdisk.trans hs.disk, hs.msize, hs.rootFid, hs.root, pool', rfl, huse', hnext ▸ hpos, hroom.trans hleft,
    fun g hg => ?_⟩
  rcases havail g hg with rfl | hg
  · exact hfid
  · exact hfree g hg

theorem orphan_session (fid : UInt32) : Total (Session S root v (fid :: held) n d) (orphanFid L fid) fun _ =>
    Session S root v held n d := by
  refine orphan_rule (fun s hs hnone => hs.not_none hnone) fun s pool pool' w hs hsome hres => ?_
  obtain ⟨huse, hpos, hroom, hfree⟩ := hs.pool_eq hsome
  obtain ⟨hnext, hlist⟩ := fidPoolMarkOrphan_kept L.allocVec pool fid s.w
  have hdisk := fidPoolMarkOrphan_frame S.alloc pool fid s.w
  rw [hres] at hnext hlist hdisk
  have hleft : pool'.left = pool.left := by
    unfold FidPool.left
    rw [hlist, hnext]
  refine ⟨hdisk.trans hs.disk, hs.msize, hs.rootFid, hs.root, pool', rfl,
    (huse.sublist (List.sublist_cons_self fid held)).same hnext hlist, hnext ▸ hpos, hleft ▸ hroom, fun g hg => ?_⟩
  refine hfree g (hg.imp (fun h => hlist ▸ h) fun h => hnext ▸ h)

/-! ## Requests -/

/-- A request is answered, and what is made of the reply is its result. -/
theorem request_session {m : TMsg} (hm : m.Wf) (hsize : 7 + m.body.length < 4294967296)
    (parse : Mem → UInt32 → Except Int32 α) {Q : Except Int32 α → St W → Prop}
    (hanswer : ∀ r k rx d' s, Carries r k rx → Answers sys d r d' m →
      ((∀ fid, fid ∉ held → d'.fids fid = d.fids fid) → Session S root v held n d' s) → Q (answer parse k rx) s) :
    Total (Session S root v held n d) (p9Request (v9pTransact L) p9NextTag m parse) Q := by
  intro s hs
  obtain ⟨r, k, rx, w, hpoll, hcarries, hans⟩ := S.answers (s.ask m) s.w s.h.nextTag m (decode_frame hm hsize _)
  rw [request_of_reply hcarries.ne_zero hpoll]
  rw [hs.disk] at hans
  exact hanswer r k rx (S.disk w) _ hcarries hans fun hfids => hs.moved hfids rfl rfl rfl rfl

/-- How an operation of the file system ends for the client. -/
def Did (res : Except Errno α) (out : α → β) (left : α → Disk F N) (r : Except Int32 β) (s : St W) : Prop :=
  match res with
  | .ok a => r = .ok (out a) ∧ Session S root v held n (left a) s
  | .error e => r = .error (-e.val.toInt32) ∧ Session S root v held n d s

theorem Did.map {γ : Type} {res : Except Errno α} {out : α → β} {left : α → Disk F N} {r : Except Int32 β} {s : St W}
    (h : Did S root v held n d res out left r s) (g : β → γ) :
    Did S root v held n d res (fun a => g (out a)) left (r.map g) s := by
  cases res with
  | ok a =>
    obtain ⟨rfl, hs⟩ := h
    exact ⟨rfl, hs⟩
  | error e =>
    obtain ⟨rfl, hs⟩ := h
    exact ⟨rfl, hs⟩

/-- **A request for an operation of the file system** has the result of the operation, seen through `g`, and changes the
disk as it does. -/
theorem request_does {γ : Type} {m : TMsg} (hm : m.Wf) (hsize : 7 + m.body.length < 4294967296)
    {parse : Mem → UInt32 → Except Int32 β} {res : Except Errno α} {good : α → RMsg → Prop} {left : α → Disk F N}
    (g : β → γ) (out : α → γ) (hans : ∀ r d', Answers sys d r d' m → Does res good left d r d')
    (hparse : ∀ a r k rx, res = .ok a → good a r → Carries r k rx → (answer parse k rx).map g = .ok (out a))
    (hleft : ∀ a, res = .ok a → ∀ fid, fid ∉ held → (left a).fids fid = d.fids fid) :
    Total (Session S root v held n d) (p9Request (v9pTransact L) p9NextTag m parse)
      fun r s => Did S root v held n d res out left (r.map g) s := by
  refine request_session S root v held n d hm hsize parse fun r k rx d' s hcarries ha hs => ?_
  have hdoes := hans r d' ha
  cases res with
  | ok a =>
    obtain ⟨hgood, rfl⟩ := hdoes
    exact ⟨hparse a r k rx rfl hgood hcarries, hs (hleft a rfl)⟩
  | error e =>
    obtain ⟨rfl, rfl⟩ := hdoes
    rw [answer_lerror hcarries (fun h0 => e.property.1 (neg_toInt32_eq_zero h0)) parse]
    exact ⟨rfl, hs fun _ _ => rfl⟩

/-- The same for a request that has no fields in its reply. -/
theorem request_does_noFields {m : TMsg} (hm : m.Wf) (hsize : 7 + m.body.length < 4294967296) {res : Except Errno α}
    {good : α → RMsg → Prop} {left : α → Disk F N} (hans : ∀ r d', Answers sys d r d' m → Does res good left d r d')
    (hgood : ∀ a r e, good a r → r ≠ .lerror e)
    (hleft : ∀ a, res = .ok a → ∀ fid, fid ∉ held → (left a).fids fid = d.fids fid) :
    Total (Session S root v held n d) (p9Request (v9pTransact L) p9NextTag m noFields)
      (Did S root v held n d res (fun _ => ()) left) := by
  refine (request_does S root v held n d hm hsize id (fun _ => ()) hans ?_ hleft).post fun r s hs => ?_
  · intro a r k rx _ hg hcarries
    rw [answer_noFields hcarries fun e => hgood a r e hg]
    rfl
  · cases r <;> exact hs

/-- `P9_Clunk` releases the fid, whatever it returns. -/
theorem clunk_session {fid : UInt32} (hfid : fid ∈ held) :
    Total (Session S root v held n d) (p9Clunk (v9pTransact L) fid)
    fun _ => Session S root v held n (d.release fid) := by
  rw [p9Clunk_eq]
  refine request_session S root v held n d (m := .clunk fid) trivial (by simp [TMsg.body]) noFields
    fun r k rx d' s _ ha hs => ?_
  obtain rfl : d' = d.release fid := ha
  exact hs fun g hg => Disk.release_of_ne fun h => hg (h ▸ hfid)

theorem getattr_session {fid : UInt32} {x : Bound N} (hx : d.fids fid = some x) (mask : UInt64) :
    Total (Session S root v held n d) (p9Getattr (v9pTransact L) fid mask) fun r s =>
      (∃ st, r = .ok st ∧ Reports mask (sys.getattr d.fs x.node) st) ∧ Session S root v held n d s := by
  rw [p9Getattr_eq]
  refine request_session S root v held n d (m := .getattr fid mask) trivial (by simp [TMsg.body]) parseGetattr
    fun r k rx d' s hcarries ha hs => ?_
  obtain ⟨⟨st, rfl, hst⟩, rfl⟩ := ha x hx
  exact ⟨⟨st, answer_getattr hcarries, hst⟩, hs fun _ _ => rfl⟩

theorem setattr_session {fid : UInt32} {x : Bound N} (hx : d.fids fid = some x) (attr : P9Iattr) :
    Total (Session S root v held n d) (p9Setattr (v9pTransact L) fid attr)
      (Did S root v held n d (sys.setattr d.fs x.node attr) (fun _ => ()) d.put) := by
  rw [p9Setattr_eq]
  exact request_does_noFields S root v held n d (m := .setattr fid attr) trivial (by simp [TMsg.body, TMsg.attrBytes])
    (fun r d' ha => ha x hx) (fun _ _ _ h => by rw [h]; simp) fun _ _ _ _ => rfl

theorem lopen_session {fid : UInt32} {m : N} (hfid : fid ∈ held) (hm : d.fids fid = some ⟨m, none⟩) (flags : UInt32) :
    Total (Session S root v held n d) (p9Lopen (v9pTransact L) fid flags) fun r s =>
      Did S root v held n d (sys.lopen d.fs m flags) (fun _ => ()) (fun f => (d.put f).bind fid ⟨m, some flags⟩)
        (r.map fun _ => ()) s := by
  rw [p9Lopen_eq]
  refine request_does S root v held n d (m := .lopen fid flags) trivial (by simp [TMsg.body]) _ _
    (fun r d' ha => ha m hm) ?_ fun f _ g hg => Disk.bind_of_ne fun h => hg (h ▸ hfid)
  rintro f r k rx - ⟨qid, iounit, rfl⟩ hcarries
  rw [answer_lopen hcarries]
  rfl

theorem lcreate_session {fid : UInt32} {m : N} (hfid : fid ∈ held) (hm : d.fids fid = some ⟨m, none⟩) {name : Str}
    (hname : name.length < 256) (flags mode : UInt32) :
    Total (Session S root v held n d) (p9Lcreate (v9pTransact L) fid name flags mode) fun r s =>
      Did S root v held n d (sys.lcreate d.fs m name flags mode) (fun _ => ())
        (fun made => (d.put made.2).bind fid ⟨made.1, some flags⟩) (r.map fun _ => ()) s := by
  rw [p9Lcreate_eq, wireStr_of_lt (by omega)]
  refine request_does S root v held n d (m := .lcreate fid name flags mode 0) (show name.length < 65536 by omega)
    (by simp [TMsg.body]; omega) _ _ (fun r d' ha => ha m hm) ?_ fun f _ g hg => Disk.bind_of_ne fun h => hg (h ▸ hfid)
  rintro f r k rx - ⟨qid, iounit, rfl⟩ hcarries
  rw [answer_lcreate hcarries]
  rfl

theorem mkdir_session {fid : UInt32} {x : Bound N} (hx : d.fids fid = some x) {name : Str} (hname : name.length < 256)
    (mode : UInt32) :
    Total (Session S root v held n d) (p9Mkdir (v9pTransact L) fid name mode)
      (Did S root v held n d (sys.mkdir d.fs x.node name mode) (fun _ => ()) fun made => d.put made.2) := by
  rw [p9Mkdir_eq, wireStr_of_lt (by omega)]
  exact request_does_noFields S root v held n d (m := .mkdir fid name mode 0) (show name.length < 65536 by omega)
    (by simp [TMsg.body]; omega) (fun r d' ha => ha x hx) (fun _ _ _ h => by obtain ⟨qid, rfl⟩ := h; simp)
    fun _ _ _ _ => rfl

/-! ## Walking to a path -/

/-- `P9_Clunk` and `FidPool_Free`. -/
theorem closeFid_session (fid : UInt32) : Total (Session S root v (fid :: held) n d) (closeFid L fid) fun _ =>
    Session S root v held n (d.release fid) :=
  (clunk_session S root v (fid :: held) n d (List.mem_cons_self ..)).bind fun _ =>
    free_session S root v held n (d.release fid) Disk.release_self

end Rules

instance (path : Str) : Decidable (Refused path) := by
  unfold Refused
  infer_instance

/-- The node that `P9_Walk` gets to along the path. -/
def FileSystem.reach (sys : FileSystem F N) (f : F) (root : N) (path : Str) : Option N :=
  if Refused path then none else sys.resolve f root (components path)

theorem FileSystem.reach_eq_some {f : F} {root m : N} {path : Str} :
    sys.reach f root path = some m ↔ ¬ Refused path ∧ sys.resolve f root (components path) = some m := by
  unfold reach
  by_cases h : Refused path
  · simp [h]
  · simp [h]

section Walks

variable (S : Served L sys) (root : N) (v : UInt32) (held : List UInt32) (n : Nat) (d : Disk F N) {path : Str}
  {fid : UInt32}

/-- The `Twalk` of a path that is not refused. -/
theorem twalk_session (hpath : ¬ Refused path) (hfid : d.fids fid = none) {Q : Except Int32 UInt16 → St W → Prop}
    (hanswer : ∀ r k rx d' s, Carries r k rx →
      Walks (sys.resolve d.fs root (components path)) fid (components path).length d r d' →
      ((∀ g, g ∉ fid :: held → d'.fids g = d.fids g) → Session S root v (fid :: held) n d' s) →
      Q (answer parseWalk k rx) s) :
    Total (Session S root v (fid :: held) n d)
      (p9Request (v9pTransact L) p9NextTag (.walk 0 fid (components path)) parseWalk) Q := by
  unfold Refused at hpath
  rw [not_or, not_le, not_lt] at hpath
  have hsize := length_walk_le 0 fid hpath.1 hpath.2
  refine fun s hs => request_session S root v (fid :: held) n d (walk_wf 0 fid hpath.1 hpath.2) (by omega) parseWalk
    (fun r k rx d' s' hcarries ha => hanswer r k rx d' s' hcarries ?_) s hs
  exact ha ⟨root, none⟩ hs.root hfid hpath.2

theorem components_lt (hpath : ¬ Refused path) : (components path).length < 65536 := by
  unfold Refused p9MaxWElem at hpath
  omega

/-- A walk to a node binds the fid to it. -/
theorem walk_found {m : N} (hm : sys.reach d.fs root path = some m) (hfid : d.fids fid = none) :
    Total (Session S root v (fid :: held) n d) (p9Walk (v9pTransact L) 0 fid path) fun r s =>
      r = .ok () ∧ Session S root v (fid :: held) n (d.bind fid ⟨m, none⟩) s := by
  obtain ⟨hpath, hres⟩ := FileSystem.reach_eq_some.mp hm
  have hlen := components_lt hpath
  rw [p9Walk_of_not_refused _ _ _ hpath]
  refine Triple.bind (Q := fun r s => r = .ok (UInt16.ofNat (components path).length) ∧
    Session S root v (fid :: held) n (d.bind fid ⟨m, none⟩) s)
    (twalk_session S root v held n d hpath hfid fun r k rx d' s hcarries hwalks hs => ?_) fun r => ?_
  · rw [hres] at hwalks
    obtain ⟨⟨qids, hqids, rfl⟩, rfl⟩ := hwalks
    refine ⟨?_, hs fun g hg => Disk.bind_of_ne fun h => hg (h ▸ List.mem_cons_self ..)⟩
    rw [answer_walk hcarries (by omega), hqids]
  · rintro s ⟨rfl, hs⟩
    rw [walkEnd_full]
    exact ⟨rfl, hs⟩

/-- A walk that does not get to a node fails, and binds nothing. -/
theorem walk_missing (hm : sys.reach d.fs root path = none) (hfid : d.fids fid = none) :
    Total (Session S root v (fid :: held) n d) (p9Walk (v9pTransact L) 0 fid path) fun r s =>
      Fails r ∧ Session S root v (fid :: held) n d s := by
  by_cases hpath : Refused path
  · rw [p9Walk_of_refused _ _ _ hpath]
    exact Triple.pure fun s hs => ⟨⟨-36, by decide, rfl⟩, hs⟩
  have hres : sys.resolve d.fs root (components path) = none := by
    unfold FileSystem.reach at hm
    rwa [if_neg hpath] at hm
  have hlen := components_lt hpath
  rw [p9Walk_of_not_refused _ _ _ hpath]
  refine Triple.bind (Q := fun r s => (Fails r ∨ ∃ k, r = .ok k ∧ k ≠ UInt16.ofNat (components path).length) ∧
    Session S root v (fid :: held) n d s)
    (twalk_session S root v held n d hpath hfid fun r k rx d' s hcarries hwalks hs => ?_) fun r => ?_
  · rw [hres] at hwalks
    obtain ⟨hreply, rfl⟩ := hwalks
    refine ⟨?_, hs fun _ _ => rfl⟩
    rcases hreply with ⟨e, rfl⟩ | ⟨qids, hqids, rfl⟩
    · rw [answer_lerror hcarries fun h0 => e.property.1 (neg_toInt32_eq_zero h0)]
      exact .inl e.fails
    · rw [answer_walk hcarries (by omega)]
      refine .inr ⟨_, rfl, fun heq => ?_⟩
      have := congrArg UInt16.toNat heq
      rw [UInt16.toNat_ofNat', UInt16.toNat_ofNat', Nat.mod_eq_of_lt (by omega), Nat.mod_eq_of_lt (by omega)] at this
      omega
  · rintro s ⟨⟨e, he, rfl⟩ | ⟨k, rfl, hk⟩, hs⟩
    · exact ⟨⟨e, he, rfl⟩, hs⟩
    · have hcode : Fails (.error (-2) : Except Int32 Unit) := ⟨-2, by decide, rfl⟩
      -- the fid of a walk that stopped on the way is clunked, but was never bound
      have hclunk := clunk_session S root v (fid :: held) n d (List.mem_cons_self ..)
      rw [Disk.release_of_unbound hfid] at hclunk
      refine Triple.ite (fun _ => ?_) (fun hk' => absurd hk hk') s hs
      refine Triple.ite (fun _ => ?_) fun _ => Triple.pure fun s hs => ⟨hcode, hs⟩
      exact hclunk.bind fun _ => Triple.pure fun s hs => ⟨hcode, hs⟩

/-- **`walk_to` to a node**: a fresh fid is bound to it. -/
theorem walkTo_found {m : N} (hm : sys.reach d.fs root path = some m) :
    Total (Session S root v held (n + 1) d) (walkTo L path) fun r s => ∃ fid, r = .ok fid ∧ d.fids fid = none ∧
      Session S root v (fid :: held) n (d.bind fid ⟨m, none⟩) s := by
  refine walkTo_rule (B := fun fid r s => d.fids fid = none ∧ r = .ok () ∧
    Session S root v (fid :: held) n (d.bind fid ⟨m, none⟩) s) (draw_session S root v held n d)
    (fun fid root' s hs => ?_) (fun _ _ hs => by cases hs.2.1) (fun _ _ _ _ hs => by cases hs.2.1) fun fid s hs => ?_
  · obtain ⟨rfl, hfid, hs⟩ := hs
    rw [hs.rootFid]
    exact (walk_found S root v held n d hm hfid).post (fun r s hr => ⟨hfid, hr⟩) s hs
  · exact ⟨fid, rfl, hs.1, hs.2.2.moved (fun _ _ => rfl) rfl rfl rfl hs.2.2.disk⟩

/-- **`walk_to` where there is no node** fails and leaves all as it was. -/
theorem walkTo_missing (hm : sys.reach d.fs root path = none) :
    Total (Session S root v held (n + 1) d) (walkTo L path) fun r s => Fails r ∧ Session S root v held n d s := by
  refine walkTo_rule (B := fun fid r s => d.fids fid = none ∧ Fails r ∧ Session S root v (fid :: held) n d s)
    (draw_session S root v held n d) (fun fid root' s hs => ?_) (fun fid => ?_) (fun fid e _ s hs => ?_)
    fun _ _ hs => absurd hs.2.1 not_fails_ok
  · obtain ⟨rfl, hfid, hs⟩ := hs
    rw [hs.rootFid]
    exact (walk_missing S root v held n d hm hfid).post (fun r s hr => ⟨hfid, hr⟩) s hs
  · exact ((orphan_session S root v held n d fid).pre fun _ hs => hs.2.2).post fun _ _ hs => ⟨⟨-5, by decide, rfl⟩, hs⟩
  · obtain ⟨hfid, hfails, hs⟩ := hs
    exact (free_session S root v held n d hfid).post (fun _ _ h => ⟨fails_error.mpr (fails_error.mp hfails), h⟩) s hs

/-! ## The frames of the callbacks -/

/-- A callback that works on the node at the end of a path and leaves the fids alone. -/
theorem withFid_found {m : N} (hm : sys.reach d.fs root path = some m) {work : UInt32 → Client W (Except Int32 α)}
    {Q : Except Int32 α → F → Prop}
    (hwork : ∀ fid, Total (Session S root v (fid :: held) n (d.bind fid ⟨m, none⟩)) (work fid) fun r s =>
      ∃ f, Q r f ∧ Session S root v (fid :: held) n ((d.put f).bind fid ⟨m, none⟩) s) :
    Total (Session S root v held (n + 1) d) (withFid L path work) fun r s =>
      ∃ f, Q r f ∧ Session S root v held n (d.put f) s := by
  refine (walkTo_found S root v held n d hm).bind fun r s hs => ?_
  obtain ⟨fid, rfl, hfid, hs⟩ := hs
  refine Triple.bind (hwork fid) (fun r s hs => ?_) s hs
  obtain ⟨f, hq, hs⟩ := hs
  have hclose := closeFid_session S root v held n ((d.put f).bind fid ⟨m, none⟩) fid
  rw [Disk.release_bind (show (d.put f).fids fid = none from hfid)] at hclose
  exact Triple.bind hclose (fun _ => Triple.pure fun s hs => ⟨f, hq, hs⟩) s hs

/-- **A callback for an operation of the file system** on the node at the end of a path. -/
theorem withFid_does {m : N} (hm : sys.reach d.fs root path = some m) {work : UInt32 → Client W (Except Int32 β)}
    {res : Except Errno α} {out : α → β} {fs : α → F}
    (hwork : ∀ fid, Total (Session S root v (fid :: held) n (d.bind fid ⟨m, none⟩)) (work fid)
      (Did S root v (fid :: held) n (d.bind fid ⟨m, none⟩) res out fun a => (d.bind fid ⟨m, none⟩).put (fs a))) :
    Total (Session S root v held (n + 1) d) (withFid L path work)
      (Did S root v held n d res out fun a => d.put (fs a)) := by
  cases res with
  | ok a =>
    refine (withFid_found S root v held n d hm (Q := fun r f => r = .ok (out a) ∧ f = fs a) fun fid => ?_).post ?_
    · exact (hwork fid).post fun r s hs => ⟨fs a, ⟨hs.1, rfl⟩, hs.2⟩
    · rintro r s ⟨f, ⟨rfl, rfl⟩, hs⟩
      exact ⟨rfl, hs⟩
  | error e =>
    refine (withFid_found S root v held n d hm (Q := fun r f => r = .error (-e.val.toInt32) ∧ f = d.fs)
      fun fid => ?_).post ?_
    · exact (hwork fid).post fun r s hs => ⟨d.fs, ⟨hs.1, rfl⟩, hs.2⟩
    · rintro r s ⟨f, ⟨rfl, rfl⟩, hs⟩
      exact ⟨rfl, hs⟩

theorem withFid_missing (hm : sys.reach d.fs root path = none) (work : UInt32 → Client W (Except Int32 α)) :
    Total (Session S root v held (n + 1) d) (withFid L path work) fun r s =>
      Fails r ∧ Session S root v held n d s := by
  refine (walkTo_missing S root v held n d hm).bind fun r s hs => ?_
  obtain ⟨⟨e, he, rfl⟩, hs⟩ := hs
  exact ⟨⟨e, he, rfl⟩, hs⟩

/-- How a callback that opens a node ends: with a fid for it, or with all as it was. -/
def Opens (res : Except Errno α) (fs : α → F) (node : α → Bound N) (r : Except Int32 UInt32) (s : St W) : Prop :=
  match res with
  | .ok a => ∃ fid, r = .ok fid ∧ d.fids fid = none ∧
    Session S root v (fid :: held) n ((d.put (fs a)).bind fid (node a)) s
  | .error e => r = .error (-e.val.toInt32) ∧ Session S root v held n d s

/-- A callback that opens the node at the end of a path, or what it makes of it. -/
theorem keepFid_found {m : N} (hm : sys.reach d.fs root path = some m)
    {opening : UInt32 → Client W (Except Int32 UInt32)} {res : Except Errno α} {fs : α → F} {node : α → Bound N}
    (hopen : ∀ fid, Total (Session S root v (fid :: held) n (d.bind fid ⟨m, none⟩)) (opening fid) fun r s =>
      Did S root v (fid :: held) n (d.bind fid ⟨m, none⟩) res (fun _ => ())
        (fun a => ((d.bind fid ⟨m, none⟩).put (fs a)).bind fid (node a)) (r.map fun _ => ()) s) :
    Total (Session S root v held (n + 1) d) (keepFid L path opening) (Opens S root v held n d res fs node) := by
  refine (walkTo_found S root v held n d hm).bind fun r s hs => ?_
  obtain ⟨fid, rfl, hfid, hs⟩ := hs
  refine Triple.bind (hopen fid) (fun r s hs => ?_) s hs
  cases res with
  | ok a =>
    obtain ⟨hr, hs⟩ := hs
    simp only [Disk.put_bind, Disk.bind_bind] at hs
    cases r with
    | error e => cases hr
    | ok v => exact ⟨fid, rfl, hfid, hs⟩
  | error e =>
    obtain ⟨hr, hs⟩ := hs
    have hclose := closeFid_session S root v held n (d.bind fid ⟨m, none⟩) fid
    rw [Disk.release_bind hfid] at hclose
    cases r with
    | ok v => cases hr
    | error e' =>
      obtain rfl : e' = -e.val.toInt32 := Except.error.inj hr
      exact Triple.bind hclose (fun _ => Triple.pure fun s hs => ⟨rfl, hs⟩) s hs

theorem keepFid_missing (hm : sys.reach d.fs root path = none) (opening : UInt32 → Client W (Except Int32 UInt32)) :
    Total (Session S root v held (n + 1) d) (keepFid L path opening) fun r s =>
      Fails r ∧ Session S root v held n d s := by
  refine (walkTo_missing S root v held n d hm).bind fun r s hs => ?_
  obtain ⟨⟨e, he, rfl⟩, hs⟩ := hs
  exact ⟨⟨e, he, rfl⟩, hs⟩

/-- `v9p_getattr` shows the attributes of the node. -/
theorem getattr_found {m : N} (hm : sys.reach d.fs root path = some m) :
    Total (Session S root v held (n + 1) d) (v9pGetattr L path) fun r s =>
      r = .ok (p9statToFbxstat L.widths (sys.getattr d.fs m)) ∧ Session S root v held n d s := by
  refine Triple.bind (withFid_found S root v held n d hm (Q := fun r f => f = d.fs ∧
    ∃ st, r = .ok st ∧ Reports p9GetattrBasic (sys.getattr d.fs m) st) fun fid => ?_) fun r => ?_
  · refine (getattr_session S root v (fid :: held) n _ Disk.bind_self p9GetattrBasic).post fun r s hs => ?_
    obtain ⟨hst, hs⟩ := hs
    exact ⟨d.fs, ⟨rfl, hst⟩, hs⟩
  · refine Triple.pure fun s hs => ?_
    obtain ⟨_, ⟨rfl, st, rfl, hst⟩, hs⟩ := hs
    exact ⟨congrArg Except.ok (hst.fbxstat _), hs⟩

theorem getattr_missing (hm : sys.reach d.fs root path = none) :
    Total (Session S root v held (n + 1) d) (v9pGetattr L path) fun r s =>
      Fails r ∧ Session S root v held n d s := by
  refine (withFid_missing S root v held n d hm _).bind fun r => Triple.pure fun s hs => ?_
  obtain ⟨⟨e, he, rfl⟩, hs⟩ := hs
  exact ⟨⟨e, he, rfl⟩, hs⟩

/-- `v9p_create` makes the file in the directory and keeps a fid for it. -/
theorem create_found {m : N} (hm : sys.reach d.fs root (splitPath path 1024 256).1 = some m) (mode flags : UInt32) :
    Total (Session S root v held (n + 1) d) (v9pCreate L path mode flags)
      (Opens S root v held n d (sys.lcreate d.fs m (splitPath path 1024 256).2 (openFlags flags) mode) (·.2)
        fun made => ⟨made.1, some (openFlags flags)⟩) :=
  keepFid_found S root v held n d hm fun fid => lcreate_session S root v (fid :: held) n _ (List.mem_cons_self ..)
    Disk.bind_self (length_name path) _ _

/-- `v9p_mkdir` makes the directory. -/
theorem mkdir_found {m : N} (hm : sys.reach d.fs root (splitPath path 1024 256).1 = some m) (mode : UInt32) :
    Total (Session S root v held (n + 1) d) (v9pMkdir L path mode)
      (Did S root v held n d (sys.mkdir d.fs m (splitPath path 1024 256).2 mode) (fun _ => ())
        fun made => d.put made.2) :=
  withFid_does S root v held n d hm fun fid =>
    mkdir_session S root v (fid :: held) n _ Disk.bind_self (length_name path) mode

end Walks

end Virtio9P
