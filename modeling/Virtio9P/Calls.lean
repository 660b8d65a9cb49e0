import Virtio9P.LastFid
import Virtio9P.Writing

/-!
# What each callback does on a file server

One rule for each callback: in a session, as long as the fids last, it ends with the result of an operation of the file
system on the node that its path leads to, and has changed the file system as the operation does; or it fails, and all
is as it was (`Ran`, `Opened`). `read` and `write` need many requests, and the result is that of one operation
(`read_ran`, `write_ran`).
-/

namespace Virtio9P

open Lib

variable {W F N α β : Type} {L : Link W} {sys : FileSystem F N}

/-! ## More requests -/

section Requests

variable (S : Served L sys) (root : N) (v : UInt32) (held : List UInt32) (n : Nat) (d : Disk F N) {fid : UInt32}
  {x : Bound N}

theorem unlinkat_session (hx : d.fids fid = some x) {name : Str} (hname : name.length < 256) (flags : UInt32) :
    Total (Session S root v held n d) (p9Unlinkat (v9pTransact L) fid name flags)
      (Did S root v held n d (sys.unlinkat d.fs x.node name flags) (fun _ => ()) d.put) := by
  rw [p9Unlinkat_eq, wireStr_of_lt (by omega)]
  exact request_does_noFields S root v held n d (m := .unlinkat fid name flags) (show name.length < 65536 by omega)
    (by simp [TMsg.body]; omega) (fun r d' ha => ha x hx) (fun _ _ _ h => by rw [h]; simp) fun _ _ _ _ => rfl

theorem symlink_session (hx : d.fids fid = some x) {name target : Str} (hname : name.length < 256)
    (htarget : target.length < 65536) :
    Total (Session S root v held n d) (p9Symlink (v9pTransact L) fid name target)
      (Did S root v held n d (sys.symlink d.fs x.node name target) (fun _ => ()) d.put) := by
  rw [p9Symlink_eq, wireStr_of_lt (by omega), wireStr_of_lt htarget]
  exact request_does_noFields S root v held n d (m := .symlink fid name target 0)
    (show name.length < 65536 ∧ _ from ⟨by omega, htarget⟩) (by simp [TMsg.body]; omega) (fun r d' ha => ha x hx)
    (fun _ _ _ h => by obtain ⟨qid, rfl⟩ := h; simp) fun _ _ _ _ => rfl

theorem link_session {dfid : UInt32} {y : Bound N} (hx : d.fids dfid = some x) (hy : d.fids fid = some y) {name : Str}
    (hname : name.length < 256) :
    Total (Session S root v held n d) (p9Link (v9pTransact L) dfid fid name)
      (Did S root v held n d (sys.link d.fs x.node y.node name) (fun _ => ()) d.put) := by
  rw [p9Link_eq, wireStr_of_lt (by omega)]
  exact request_does_noFields S root v held n d (m := .link dfid fid name) (show name.length < 65536 by omega)
    (by simp [TMsg.body]; omega) (fun r d' ha => ha x y hx hy) (fun _ _ _ h => by rw [h]; simp) fun _ _ _ _ => rfl

theorem renameat_session {newdirfid : UInt32} {y : Bound N} (hx : d.fids fid = some x) (hy : d.fids newdirfid = some y)
    {oldname newname : Str} (hold : oldname.length < 256) (hnew : newname.length < 256) :
    Total (Session S root v held n d) (p9Renameat (v9pTransact L) fid oldname newdirfid newname)
      (Did S root v held n d (sys.renameat d.fs x.node oldname y.node newname) (fun _ => ()) d.put) := by
  rw [p9Renameat_eq, wireStr_of_lt (by omega), wireStr_of_lt (by omega)]
  exact request_does_noFields S root v held n d (m := .renameat fid oldname newdirfid newname)
    (show _ ∧ _ from ⟨by omega, by omega⟩) (by simp [TMsg.body]; omega) (fun r d' ha => ha x y hx hy)
    (fun _ _ _ h => by rw [h]; simp) fun _ _ _ _ => rfl

/-- `P9_Readlink`, when the buffer has room for the target. -/
theorem readlink_session (hx : d.fids fid = some x) {maxlen : UInt32}
    (hlen : ∀ target, sys.readlink d.fs x.node = .ok target → target.length < 65536 ∧ target.length < maxlen.toNat) :
    Total (Session S root v held n d) (p9Readlink (v9pTransact L) fid maxlen)
      (Did S root v held n d (sys.readlink d.fs x.node) id fun _ => d) := by
  rw [p9Readlink_eq]
  refine (request_does S root v held n d (m := .readlink fid) trivial (by simp [TMsg.body])
    id id (fun r d' ha => ha x hx) ?_ fun _ _ _ _ => rfl).post fun r s hs => ?_
  · intro target r k rx hres hr hcarries
    obtain ⟨hfit, hroom⟩ := hlen target hres
    rw [hr hfit] at hcarries
    rw [answer_readlink hcarries hroom hfit]
    rfl
  · cases r <;> exact hs

end Requests

/-! ## How a callback ends -/

section Ran

variable (S : Served L sys) (root : N) (v : UInt32) (held : List UInt32) (n : Nat) (d : Disk F N)

/-- An operation gives a value and a state of the file system, or fails: the callback ends with the value and leaves the
state, or fails and leaves all as it was. -/
def Ran (res : Option (β × F)) (r : Except Int32 β) (s : St W) : Prop :=
  match res with
  | some (b, f) => r = .ok b ∧ Session S root v held n (d.put f) s
  | none => Fails r ∧ Session S root v held n d s

/-- The same for a callback that opens a file: it ends with a fid for it. -/
def Opened (res : Option (Bound N × F)) (r : Except Int32 UInt32) (s : St W) : Prop :=
  match res with
  | some (x, f) => ∃ fid, r = .ok fid ∧ d.fids fid = none ∧ Session S root v (fid :: held) n ((d.put f).bind fid x) s
  | none => Fails r ∧ Session S root v held n d s

variable {S root v held n d}

theorem Did.ran {res : Except Errno α} {out : α → β} {fs : α → F} {r : Except Int32 β} {s : St W}
    (h : Did S root v held n d res out (fun a => d.put (fs a)) r s) :
    Ran S root v held n d (res.toOption.map fun a => (out a, fs a)) r s := by
  cases res with
  | ok a => exact h
  | error e =>
    obtain ⟨rfl, hs⟩ := h
    exact ⟨e.fails, hs⟩

theorem Ran.map {γ : Type} {res : Option (β × F)} {r : Except Int32 β} {s : St W} (h : Ran S root v held n d res r s)
    (g : β → γ) : Ran S root v held n d (res.map fun p => (g p.1, p.2)) (r.map g) s := by
  cases res with
  | some p =>
    obtain ⟨rfl, hs⟩ := h
    exact ⟨rfl, hs⟩
  | none =>
    obtain ⟨⟨e, he, rfl⟩, hs⟩ := h
    exact ⟨⟨e, he, rfl⟩, hs⟩

theorem Opens.opened {res : Except Errno α} {fs : α → F} {node : α → Bound N} {r : Except Int32 UInt32} {s : St W}
    (h : Opens S root v held n d res fs node r s) :
    Opened S root v held n d (res.toOption.map fun a => (node a, fs a)) r s := by
  cases res with
  | ok a => exact h
  | error e =>
    obtain ⟨rfl, hs⟩ := h
    exact ⟨e.fails, hs⟩

end Ran

/-! ## Callbacks on paths -/

section Paths

variable (S : Served L sys) (root : N) (v : UInt32) (held : List UInt32) (d : Disk F N) (path : Str)

/-- A callback that works on the node at the end of its path. -/
theorem withFid_ran {work : UInt32 → Client W (Except Int32 β)} (op : N → Except Errno α) (out : α → β) (fs : α → F)
    (hwork : ∀ m fid, sys.reach d.fs root path = some m →
      Total (Session S root v (fid :: held) 0 (d.bind fid ⟨m, none⟩)) (work fid)
        (Did S root v (fid :: held) 0 (d.bind fid ⟨m, none⟩) (op m) out fun a => (d.bind fid ⟨m, none⟩).put (fs a)))
    (hover : ∀ fid, Keeps RanOver (work fid)) :
    UnlessOver (Session S root v held 0 d) (withFid L path work) (Ran S root v held 0 d
      ((sys.reach d.fs root path).bind fun m => (op m).toOption.map fun a => (out a, fs a))) := by
  refine UnlessOver.of_session ?_ (withFid_overruns path hover)
  cases hm : sys.reach d.fs root path with
  | none => exact withFid_missing S root v held 0 d hm work
  | some m => exact (withFid_does S root v held 0 d hm fun fid => hwork m fid hm).post fun r s hs => hs.ran

theorem getattr_over (path : Str) : Overruns (v9pGetattr L path) := by
  refine (withFid_overruns path fun fid => ?_).bind fun _ => Triple.ret
  rw [p9Getattr_eq]
  exact request_over _ _

theorem getattr_ran : UnlessOver (Session S root v held 0 d) (v9pGetattr L path) (Ran S root v held 0 d
    ((sys.reach d.fs root path).map fun m => (p9statToFbxstat L.widths (sys.getattr d.fs m), d.fs))) := by
  refine UnlessOver.of_session ?_ (getattr_over path)
  cases hm : sys.reach d.fs root path with
  | none => exact getattr_missing S root v held 0 d hm
  | some m => exact getattr_found S root v held 0 d hm

theorem truncate_ran (size : UInt64) : UnlessOver (Session S root v held 0 d) (v9pTruncate L path size)
    (Ran S root v held 0 d (((sys.reach d.fs root path).bind fun m =>
      (sys.setattr d.fs m { valid := p9SetattrSize, size := size }).toOption.map fun f => ((), f)).map
        fun p => (size.toUInt32.toInt32, p.2))) := by
  have h := withFid_ran S root v held d path (fun m => sys.setattr d.fs m { valid := p9SetattrSize, size := size })
    (fun _ => ()) id (fun m fid _ => setattr_session S root v (fid :: held) 0 _ Disk.bind_self _) fun fid => by
      rw [p9Setattr_eq]
      exact request_over _ _
  exact h.bind (fun r => Triple.pure fun s hs _ => hs.map fun _ => size.toUInt32.toInt32) fun _ => Triple.ret

theorem mkdir_ran (mode : UInt32) : UnlessOver (Session S root v held 0 d) (v9pMkdir L path mode)
    (Ran S root v held 0 d ((sys.reach d.fs root (splitPath path 1024 256).1).bind fun m =>
      (sys.mkdir d.fs m (splitPath path 1024 256).2 mode).toOption.map fun made => ((), made.2))) := by
  refine withFid_ran S root v held d _ _ (fun _ => ()) Prod.snd (fun _ fid _ => ?_) fun fid => ?_
  · exact mkdir_session S root v (fid :: held) 0 _ Disk.bind_self (length_name path) mode
  · show Keeps RanOver (p9Mkdir (v9pTransact L) fid _ mode)
    rw [p9Mkdir_eq]
    exact request_over _ _

/-- `v9p_unlink` and `v9p_rmdir`. -/
theorem unlinkat_ran (flags : UInt32) : UnlessOver (Session S root v held 0 d)
    (withParent L path fun dfid name => p9Unlinkat (v9pTransact L) dfid name flags)
    (Ran S root v held 0 d ((sys.reach d.fs root (splitPath path 1024 256).1).bind fun m =>
      (sys.unlinkat d.fs m (splitPath path 1024 256).2 flags).toOption.map fun f => ((), f))) := by
  refine withFid_ran S root v held d _ _ (fun _ => ()) id (fun _ fid _ => ?_) fun fid => ?_
  · exact unlinkat_session S root v (fid :: held) 0 _ Disk.bind_self (length_name path) flags
  · show Keeps RanOver (p9Unlinkat (v9pTransact L) fid _ flags)
    rw [p9Unlinkat_eq]
    exact request_over _ _

theorem symlink_ran {target : Str} (htarget : target.length < 65536) :
    UnlessOver (Session S root v held 0 d) (v9pSymlink L target path)
    (Ran S root v held 0 d ((sys.reach d.fs root (splitPath path 1024 256).1).bind fun m =>
      (sys.symlink d.fs m (splitPath path 1024 256).2 target).toOption.map fun f => ((), f))) := by
  refine withFid_ran S root v held d _ _ (fun _ => ()) id (fun _ fid _ => ?_) fun fid => ?_
  · exact symlink_session S root v (fid :: held) 0 _ Disk.bind_self (length_name path) htarget
  · show Keeps RanOver (p9Symlink (v9pTransact L) fid _ target)
    rw [p9Symlink_eq]
    exact request_over _ _

theorem readlink_ran {size : UInt32} (hlen : ∀ m target, sys.reach d.fs root path = some m →
      sys.readlink d.fs m = .ok target → target.length < 65536 ∧ target.length < size.toNat) :
    UnlessOver (Session S root v held 0 d) (v9pReadlink L path size)
    (Ran S root v held 0 d ((sys.reach d.fs root path).bind fun m =>
      (sys.readlink d.fs m).toOption.map fun target => (target, d.fs))) := by
  refine withFid_ran S root v held d path _ id (fun _ => d.fs) (fun m fid hm => ?_) fun fid => ?_
  · exact readlink_session S root v (fid :: held) 0 _ Disk.bind_self fun target => hlen m target hm
  · rw [p9Readlink_eq]
    exact request_over _ _

theorem open_ran (flags : UInt32) : UnlessOver (Session S root v held 0 d) (v9pOpen L path flags)
    (Opened S root v held 0 d ((sys.reach d.fs root path).bind fun m =>
      (sys.lopen d.fs m (openFlags flags)).toOption.map fun f => (⟨m, some (openFlags flags)⟩, f))) := by
  refine UnlessOver.of_session ?_ (keepFid_overruns path fun fid => ?_)
  · cases hm : sys.reach d.fs root path with
    | none => exact keepFid_missing S root v held 0 d hm _
    | some m =>
      refine (keepFid_found S root v held 0 d hm fun fid => ?_).post fun r s hs => hs.opened
      exact lopen_session S root v (fid :: held) 0 _ (List.mem_cons_self ..) Disk.bind_self _
  · rw [p9Lopen_eq]
    exact request_over _ _

theorem create_ran (mode flags : UInt32) : UnlessOver (Session S root v held 0 d) (v9pCreate L path mode flags)
    (Opened S root v held 0 d ((sys.reach d.fs root (splitPath path 1024 256).1).bind fun m =>
      (sys.lcreate d.fs m (splitPath path 1024 256).2 (openFlags flags) mode).toOption.map
        fun made => (⟨made.1, some (openFlags flags)⟩, made.2))) := by
  refine UnlessOver.of_session ?_ (keepFid_overruns _ fun fid => ?_)
  · cases hm : sys.reach d.fs root (splitPath path 1024 256).1 with
    | none => exact keepFid_missing S root v held 0 d hm _
    | some m => exact (create_found S root v held 0 d hm mode flags).post fun r s hs => hs.opened
  · rw [p9Lcreate_eq]
    exact request_over _ _

end Paths

/-! ## Callbacks with two fids -/

section Pairs

variable (S : Served L sys) (root : N) (v : UInt32) (held : List UInt32) (n : Nat) (d : Disk F N)

/-- The end of `rename` and `link`: both fids are clunked, then both are freed. -/
theorem closeBoth_session (a b : UInt32) (r : Except Int32 β) : Total (Session S root v (a :: b :: held) n d) (do
    let _ ← p9Clunk (v9pTransact L) a
    let _ ← p9Clunk (v9pTransact L) b
    freeFid L a
    freeFid L b
    pure r) fun r' s => r' = r ∧ Session S root v held n ((d.release a).release b) s := by
  have ha : a ∈ a :: b :: held := List.mem_cons_self ..
  have hb : b ∈ a :: b :: held := List.mem_cons_of_mem _ (List.mem_cons_self ..)
  have hunbound : ((d.release a).release b).fids a = none := by
    by_cases hab : a = b
    · rw [hab]
      exact Disk.release_self
    · rw [Disk.release_of_ne hab]
      exact Disk.release_self
  refine (clunk_session S root v _ n d ha).bind fun _ => (clunk_session S root v _ n _ hb).bind fun _ => ?_
  refine (free_session S root v (b :: held) n _ hunbound).bind fun _ => ?_
  exact (free_session S root v held n _ Disk.release_self).bind fun _ => Triple.pure fun s hs => ⟨rfl, hs⟩

theorem Disk.ne_of_unbound {d : Disk F N} {a b : UInt32} {x : Bound N} (hb : (d.bind a x).fids b = none) : b ≠ a := by
  rintro rfl
  rw [Disk.bind_self] at hb
  cases hb

/-- Two fids that were bound in between. -/
theorem Disk.release_both {d : Disk F N} {a b : UInt32} {x y : Bound N} (ha : d.fids a = none)
    (hb : (d.bind a x).fids b = none) :
    (((d.bind a x).bind b y).release a).release b = d ∧ (((d.bind a x).bind b y).release b).release a = d := by
  have hswap : (((d.bind a x).bind b y).release a).release b = (((d.bind a x).bind b y).release b).release a := by
    unfold Disk.release
    rw [Function.update_comm (Disk.ne_of_unbound hb).symm]
  rw [hswap, Disk.release_bind hb, Disk.release_bind ha]
  exact ⟨rfl, rfl⟩

/-- How `walk_to` ends, as long as the fids last. -/
theorem walkTo_ran (path : Str) : UnlessOver (Session S root v held 0 d) (walkTo L path) fun r s =>
    match sys.reach d.fs root path with
    | some m => ∃ fid, r = .ok fid ∧ d.fids fid = none ∧ Session S root v (fid :: held) 0 (d.bind fid ⟨m, none⟩) s
    | none => Fails r ∧ Session S root v held 0 d s := by
  refine UnlessOver.of_session ?_ (walkTo_overruns path)
  cases hm : sys.reach d.fs root path with
  | none => exact walkTo_missing S root v held 0 d hm
  | some m => exact walkTo_found S root v held 0 d hm

/-- **A callback on two paths**: it works on both nodes at once, and closes both fids. -/
theorem twoFids_ran (path path' : Str) {work : UInt32 → UInt32 → Client W (Except Int32 β)}
    (op : N → N → Except Errno α) (out : α → β) (fs : α → F)
    (hwork : ∀ m m' a b, d.fids a = none → (d.bind a ⟨m, none⟩).fids b = none →
      Total (Session S root v (b :: a :: held) 0 ((d.bind a ⟨m, none⟩).bind b ⟨m', none⟩)) (work a b)
        fun r s => Ran S root v held 0 d ((op m m').toOption.map fun c => (out c, fs c)) r s)
    (hover : ∀ a b, Keeps RanOver (work a b)) :
    UnlessOver (Session S root v held 0 d) (do
      match ← walkTo L path with
      | .error e => pure (.error e)
      | .ok fid => do
        match ← walkTo L path' with
        | .error e => do
          closeFid L fid
          pure (.error e)
        | .ok fid' => work fid fid') (Ran S root v held 0 d ((sys.reach d.fs root path).bind fun m =>
          (sys.reach d.fs root path').bind fun m' => (op m m').toOption.map fun c => (out c, fs c))) := by
  -- what follows the second walk, and what follows the first, when the counter has run over
  have hover₂ : ∀ (a : UInt32) (r : Except Int32 UInt32), Keeps RanOver (match r with
      | .error e => do
        closeFid L a
        pure (.error e)
      | .ok b => work a b : Client W (Except Int32 β)) := by
    intro a r
    cases r with
    | error e => exact (closeFid_over a).bind fun _ => Triple.ret
    | ok b => exact hover a b
  refine (walkTo_ran S root v held d path).bind (fun r => ?_) fun r => ?_
  · cases hm : sys.reach d.fs root path with
    | none =>
      rintro s ⟨⟨e, he, rfl⟩, hs⟩
      exact fun _ => ⟨⟨e, he, rfl⟩, hs⟩
    | some m =>
      rintro s ⟨a, rfl, ha, hs⟩
      refine (walkTo_ran S root v (a :: held) (d.bind a ⟨m, none⟩) path').bind (fun r => ?_) (hover₂ a) s hs
      rw [Disk.bind_fs]
      cases sys.reach d.fs root path' with
      | none =>
        rintro s ⟨⟨e, he, rfl⟩, hs⟩
        have hclose := closeFid_session S root v held 0 (d.bind a ⟨m, none⟩) a
        rw [Disk.release_bind ha] at hclose
        exact UnlessOver.of_total (hclose.bind fun _ => Triple.pure fun s hs => ⟨⟨e, he, rfl⟩, hs⟩) s hs
      | some m' =>
        rintro s ⟨b, rfl, hb, hs⟩
        exact UnlessOver.of_total (hwork m m' a b ha hb) s hs
  · cases r with
    | error e => exact Triple.ret
    | ok a => exact (walkTo_over path').bind (hover₂ a)

/-- The request and the end of a callback on two paths, whichever fid is closed first. -/
theorem closeBoth_ran {m m' : N} {a b c c' : UInt32} (ha : d.fids a = none) (hb : (d.bind a ⟨m, none⟩).fids b = none)
    (hc : c = a ∧ c' = b ∨ c = b ∧ c' = a) {request : Client W (Except Int32 β)} {res : Except Errno α} {out : α → β}
    {fs : α → F}
    (hrequest : Total (Session S root v (b :: a :: held) n ((d.bind a ⟨m, none⟩).bind b ⟨m', none⟩)) request
      (Did S root v (b :: a :: held) n ((d.bind a ⟨m, none⟩).bind b ⟨m', none⟩) res out
        fun x => ((d.bind a ⟨m, none⟩).bind b ⟨m', none⟩).put (fs x))) :
    Total (Session S root v (b :: a :: held) n ((d.bind a ⟨m, none⟩).bind b ⟨m', none⟩)) (do
      let r ← request
      let _ ← p9Clunk (v9pTransact L) c
      let _ ← p9Clunk (v9pTransact L) c'
      freeFid L c
      freeFid L c'
      pure r) (Ran S root v held n d (res.toOption.map fun x => (out x, fs x))) := by
  -- the disk is as before, but for what the request did
  have hclose : ∀ (f : F) (r : Except Int32 β), Total
      (Session S root v (b :: a :: held) n (((d.put f).bind a ⟨m, none⟩).bind b ⟨m', none⟩)) (do
        let _ ← p9Clunk (v9pTransact L) c
        let _ ← p9Clunk (v9pTransact L) c'
        freeFid L c
        freeFid L c'
        pure r) fun r' s => r' = r ∧ Session S root v held n (d.put f) s := by
    intro f r
    obtain ⟨hab, hba⟩ := Disk.release_both (d := d.put f) (y := ⟨m', none⟩) ha hb
    rcases hc with ⟨rfl, rfl⟩ | ⟨rfl, rfl⟩
    · have h := closeBoth_session S root v held n (((d.put f).bind c ⟨m, none⟩).bind c' ⟨m', none⟩) c c' r
      rw [hab] at h
      exact h.pre fun s hs => hs.perm (List.Perm.swap ..)
    · have h := closeBoth_session S root v held n (((d.put f).bind c' ⟨m, none⟩).bind c ⟨m', none⟩) c c' r
      rw [hba] at h
      exact h
  refine hrequest.bind fun r => ?_
  cases res with
  | ok x =>
    rintro s ⟨rfl, hs⟩
    exact hclose (fs x) _ s hs
  | error e =>
    rintro s ⟨rfl, hs⟩
    refine (hclose d.fs _).post (fun r s hs => ?_) s hs
    obtain ⟨rfl, hs⟩ := hs
    exact ⟨e.fails, hs⟩

/-- The same, when the counter has run over. -/
theorem closeBoth_over {a b : UInt32} {request : Client W (Except Int32 β)} (hrequest : Keeps RanOver request) :
    Keeps RanOver (do
      let r ← request
      let _ ← p9Clunk (v9pTransact L) a
      let _ ← p9Clunk (v9pTransact L) b
      freeFid L a
      freeFid L b
      pure r) := by
  refine hrequest.bind fun r => ?_
  have hclose : Triple ((overDiscipline L).Inv [(a, .held), (b, .held)]) _ _ _ := (overDiscipline L).closeBoth a b r
  exact hclose

theorem rename_ran (oldpath newpath : Str) : UnlessOver (Session S root v held 0 d) (v9pRename L oldpath newpath)
    (Ran S root v held 0 d ((sys.reach d.fs root (splitPath oldpath 1024 256).1).bind fun m =>
      (sys.reach d.fs root (splitPath newpath 1024 256).1).bind fun m' =>
        (sys.renameat d.fs m (splitPath oldpath 1024 256).2 m' (splitPath newpath 1024 256).2).toOption.map
          fun f => ((), f))) := by
  refine twoFids_ran S root v held d _ _ _ (fun _ => ()) id (fun m m' a b ha hb => ?_) fun a b => closeBoth_over ?_
  · refine closeBoth_ran S root v held 0 d ha hb (.inl ⟨rfl, rfl⟩) ?_
    have hx : ((d.bind a ⟨m, none⟩).bind b ⟨m', none⟩).fids a = some ⟨m, none⟩ := by
      rw [Disk.bind_of_ne (Disk.ne_of_unbound hb).symm, Disk.bind_self]
    exact renameat_session S root v (b :: a :: held) 0 _ hx Disk.bind_self (length_name oldpath) (length_name newpath)
  · rw [p9Renameat_eq]
    exact request_over _ _

theorem link_ran (oldpath newpath : Str) : UnlessOver (Session S root v held 0 d) (v9pLink L oldpath newpath)
    (Ran S root v held 0 d ((sys.reach d.fs root oldpath).bind fun m =>
      (sys.reach d.fs root (splitPath newpath 1024 256).1).bind fun m' =>
        (sys.link d.fs m' m (splitPath newpath 1024 256).2).toOption.map fun f => ((), f))) := by
  refine twoFids_ran S root v held d _ _ (fun m m' => sys.link d.fs m' m _) (fun _ => ()) id (fun m m' a b ha hb => ?_)
    fun a b => closeBoth_over ?_
  · refine closeBoth_ran S root v held 0 d ha hb (.inr ⟨rfl, rfl⟩) ?_
    have hx : ((d.bind a ⟨m, none⟩).bind b ⟨m', none⟩).fids a = some ⟨m, none⟩ := by
      rw [Disk.bind_of_ne (Disk.ne_of_unbound hb).symm, Disk.bind_self]
    exact link_session S root v (b :: a :: held) 0 _ Disk.bind_self hx (length_name newpath)
  · rw [p9Link_eq]
    exact request_over _ _

end Pairs

/-! ## Open files -/

/-- How a file system takes what is written to a node that is open: bytes one after the other in two calls as in one,
and after one call that was not refused none is. -/
structure FileSystem.WritesThrough (sys : FileSystem F N) : Prop where
  append : ∀ f m flags (off off' : UInt64) (as bs : List UInt8), as ≠ [] → bs ≠ [] →
    off'.toNat = off.toNat + as.length →
    sys.write f m flags off (as ++ bs) = (sys.write f m flags off as).bind fun f' => sys.write f' m flags off' bs
  steady : ∀ f f' m flags off bs, sys.write f m flags off bs = .ok f' →
    ∀ off' bs', ∃ f'', sys.write f' m flags off' bs' = .ok f''

/-- What a read gives. One of no bytes asks nobody. -/
def FileSystem.readBytes (sys : FileSystem F N) (f : F) (m : N) (flags : UInt32) (size off : Nat) :
    Option (List UInt8 × F) :=
  if size = 0 then some ([], f) else (sys.read f m flags).toOption.map fun c => ((c.drop off).take size, f)

/-- What a write does; its value is how much was taken. One of no bytes asks nobody. -/
def FileSystem.writeBytes (sys : FileSystem F N) (f : F) (m : N) (flags : UInt32) (off : UInt64) (bs : List UInt8) :
    Option (Nat × F) :=
  if bs = [] then some (0, f) else (sys.write f m flags off bs).toOption.map fun f' => (bs.length, f')

theorem FileSystem.length_writeBytes {f f' : F} {m : N} {flags : UInt32} {off : UInt64} {bs : List UInt8} {k : Nat}
    (h : sys.writeBytes f m flags off bs = some (k, f')) : k = bs.length := by
  unfold writeBytes at h
  split at h
  · rename_i hnil
    cases h
    rw [hnil, List.length_nil]
  · obtain ⟨a, -, ha⟩ := Option.map_eq_some_iff.mp h
    cases ha
    rfl

section Files

variable (S : Served L sys) (root : N) (v : UInt32) (held : List UInt32) (n : Nat) (d : Disk F N) {fh : UInt32} {m : N}
  {flags : UInt32}

/-- What one `Tread` at the position gives, when this can be read of the file. -/
def PartOf (c? : Except Errno (List UInt8)) (pos : Nat) (r : Except Int32 (List UInt8)) : Prop :=
  match c? with
  | .ok c => ∃ data, r = .ok data ∧ data <+: c.drop pos ∧ (data = [] ↔ c.length ≤ pos)
  | .error _ => Fails r

theorem readNext_session (hfh : d.fids fh = some ⟨m, some flags⟩) (hv : 11 < v.toNat) {size : UInt32} {off : UInt64}
    (hsum : off.toNat + size.toNat < 18446744073709551616) {got : List UInt8} (hlt : got.length < size.toNat) :
    Total (Session S root v held n d) (readNext L fh size off got) fun r s => Session S root v held n d s ∧
      PartOf (sys.read d.fs m flags) (off.toNat + got.length) r := by
  intro s hs
  have hoff := toNat_offset hlt.le hsum
  have hrest := toNat_rest hlt.le
  have hpos := toNat_capCount_pos 11 (hs.msize ▸ hv) (hrest ▸ Nat.sub_pos_of_lt hlt)
  unfold readNext
  rw [p9Read_eq, handler_bind]
  refine request_session S root v held n d (m := .read fh _ _) trivial (by simp [TMsg.body]) _
    (fun r k rx d' s' hcarries ha hs' => ?_) s hs
  have hdoes := ha m flags hfh (UInt32.lt_iff_toNat_lt.mpr hpos)
  cases hc : sys.read d.fs m flags with
  | ok c =>
    rw [hc] at hdoes
    obtain ⟨⟨data, rfl, hdata, hempty⟩, rfl⟩ := hdoes
    refine ⟨hs' fun _ _ => rfl, data, answer_read hcarries (hdata.length_le.trans (List.length_take_le _ _)), ?_, ?_⟩
    · rw [← hoff]
      exact hdata.trans (List.take_prefix _ _)
    · rw [← hoff]
      exact hempty
  | error e =>
    rw [hc] at hdoes
    obtain ⟨rfl, rfl⟩ := hdoes
    rw [answer_lerror hcarries (fun h0 => e.property.1 (neg_toInt32_eq_zero h0))]
    exact ⟨hs' fun _ _ => rfl, e.fails⟩

/-- **`v9p_read`** gives what one read of the whole would, however the server splits it. -/
theorem read_ran (hfh : d.fids fh = some ⟨m, some flags⟩) (hv : 11 < v.toNat) {size : UInt32} {off : UInt64}
    (hsum : off.toNat + size.toNat < 18446744073709551616) {fuel : Nat} (hfuel : size.toNat < fuel) :
    Total (Session S root v held n d) (v9pRead L fuel fh size off)
      (Ran S root v held n d (sys.readBytes d.fs m flags size.toNat off.toNat)) := by
  refine Total.of_run fun s hs => ?_
  unfold FileSystem.readBytes
  cases hc : sys.read d.fs m flags with
  | ok c =>
    have hnext : ∀ got s, Session S root v held n d s → got.length < size.toNat →
        ∃ data s', readNext L fh size off got s = .ok (.ok data) s' ∧ Session S root v held n d s' ∧
          data <+: c.drop (off.toNat + got.length) ∧ (data = [] ↔ c.length ≤ off.toNat + got.length) := by
      intro got s hs hlt
      obtain ⟨r, s', hread, hs', hpart⟩ := (readNext_session S root v held n d hfh hv hsum hlt).run hs
      rw [hc] at hpart
      obtain ⟨data, rfl, hdata⟩ := hpart
      exact ⟨data, s', hread, hs', hdata⟩
    obtain ⟨s', hread, hs'⟩ := loop_reads hnext fuel [] s hs List.nil_prefix (Nat.zero_le _) (by simpa using hfuel)
    refine ⟨_, s', hread, ?_⟩
    by_cases h0 : size.toNat = 0
    · rw [if_pos h0, h0]
      exact ⟨rfl, hs'⟩
    · rw [if_neg h0]
      exact ⟨rfl, hs'⟩
  | error e =>
    obtain ⟨fuel, rfl⟩ : ∃ k, fuel = k + 1 := ⟨fuel - 1, by omega⟩
    by_cases h0 : size.toNat = 0
    · have hfull : ([] : List UInt8).length = size.toNat := h0.symm
      rw [if_pos h0]
      exact ⟨.ok [], s, run_bind_ok (readRound_full hfull), rfl, hs⟩
    · rw [if_neg h0]
      have hlt : ([] : List UInt8).length < size.toNat := Nat.pos_of_ne_zero h0
      obtain ⟨r, s', hread, hs', hpart⟩ := (readNext_session S root v held n d hfh hv hsum hlt).run hs
      rw [hc] at hpart
      obtain ⟨e', hneg, rfl⟩ := hpart
      have hround : readRound L fh size off [] s = _ := readRound_eq hlt
      rw [run_bind_ok hread] at hround
      exact ⟨.error e', s', run_bind_ok hround, ⟨e', hneg, rfl⟩, hs'⟩

/-! ### Writing -/

/-- The first bytes of a buffer can be written exactly when all of them can be. -/
theorem FileSystem.WritesThrough.cut (h : sys.WritesThrough) (f : F) {off : UInt64} (buf : Mem) {size k : UInt32}
    (hsum : off.toNat + size.toNat < 18446744073709551616) (hk : 0 < k.toNat) (hle : k.toNat ≤ size.toNat) :
    (∃ f', sys.write f m flags off (buf.read 0 k.toNat) = .ok f') ↔
      ∃ f', sys.write f m flags off (buf.read 0 size.toNat) = .ok f' := by
  by_cases heq : k.toNat = size.toNat
  · rw [heq]
  have hread := Mem.read_add buf 0 k.toNat (size.toNat - k.toNat)
  rw [Nat.add_sub_cancel' hle, Nat.zero_add] at hread
  have hoff : (off + k.toUInt64).toNat = off.toNat + (buf.read 0 k.toNat).length := by
    rw [toNat_writeOffset hsum (UInt32.le_iff_toNat_le.mpr hle), Mem.length_read]
  have happend := h.append f m flags off _ (buf.read 0 k.toNat) (buf.read k.toNat (size.toNat - k.toNat))
    (List.length_pos_iff.mp (by rw [Mem.length_read]; exact hk))
    (List.length_pos_iff.mp (by rw [Mem.length_read]; omega)) hoff
  rw [hread, happend]
  cases hw : sys.write f m flags off (buf.read 0 k.toNat) with
  | ok f₁ => exact ⟨fun _ => h.steady f f₁ m flags off _ hw _ _, fun _ => ⟨f₁, rfl⟩⟩
  | error e =>
    constructor
    · rintro ⟨f', hf'⟩
      cases hf'
    · rintro ⟨f', hf'⟩
      cases hf'

/-- One `Twrite` on an open file, for the bytes that follow the first `t`. -/
theorem writeNext_session (hfh : d.fids fh = some ⟨m, some flags⟩) (hv : 23 < v.toNat) {size t : UInt32} {off : UInt64}
    (hsize : size.toNat < 2147483648) (buf : Mem) (hlt : t < size) :
    Total (Session S root v held n d) (writeNext L fh size off buf t) fun r s =>
      ∃ k : UInt32, 0 < k.toNat ∧ t.toNat + k.toNat ≤ size.toNat ∧
        Did S root v held n d (sys.write d.fs m flags (off + t.toUInt64) (buf.read t.toNat k.toNat))
        (fun _ => k) d.put r s := by
  intro s hs
  have hle : t ≤ size := UInt32.le_of_lt hlt
  have hlt' := UInt32.lt_iff_toNat_lt.mp hlt
  have hlen := length_writeMsg buf s.h.msize hle
  have hleft := toNat_left hle
  have hpos : 0 < (capCount s.h.msize 23 (size - t)).toNat := toNat_capCount_pos 23 (hs.msize ▸ hv) (by omega)
  rw [Mem.length_read] at hlen
  rw [writeNext_eq]
  refine request_session S root v held n d (m := writeMsg s.h.msize fh size off buf t) ?_ ?_ parseWrite
    (fun r k rx d' s' hcarries ha hs' => ?_) s hs
  · exact show List.length _ < 4294967296 by rw [Mem.length_read]; omega
  · simp only [writeMsg, TMsg.body, List.length_append, length_leBytes, Mem.length_read]
    omega
  · obtain ⟨j, hj, hjle, hdoes⟩ := ha m flags hfh (List.length_pos_iff.mp (by rw [Mem.length_read]; exact hpos))
    rw [Mem.length_read] at hjle
    rw [Mem.take_read _ _ hjle] at hdoes
    refine ⟨j, hj, by omega, ?_⟩
    cases hw : sys.write d.fs m flags (off + t.toUInt64) (buf.read t.toNat j.toNat) with
    | ok f =>
      rw [hw] at hdoes
      obtain ⟨rfl, rfl⟩ := hdoes
      exact ⟨answer_write hcarries, hs' fun _ _ => rfl⟩
    | error e =>
      rw [hw] at hdoes
      obtain ⟨rfl, rfl⟩ := hdoes
      exact ⟨answer_lerror hcarries (fun h0 => e.property.1 (neg_toInt32_eq_zero h0)) _, hs' fun _ _ => rfl⟩

/-- The file system after the first `t` bytes of the buffer. -/
def FileSystem.Taken (sys : FileSystem F N) (f : F) (m : N) (flags : UInt32) (off : UInt64) (buf : Mem) (t : UInt32)
    (f' : F) : Prop :=
  t.toNat = 0 ∧ f' = f ∨ 0 < t.toNat ∧ sys.write f m flags off (buf.read 0 t.toNat) = .ok f'

/-- The first bytes are taken, and so are the ones that follow. -/
theorem FileSystem.Taken.next (hsys : sys.WritesThrough) {f f₁ f₂ : F} {off : UInt64} {buf : Mem} {size t k : UInt32}
    (hsum : off.toNat + size.toNat < 18446744073709551616) (hle : t.toNat + k.toNat ≤ size.toNat) (hk : 0 < k.toNat)
    (h : sys.Taken f m flags off buf t f₁)
    (hw : sys.write f₁ m flags (off + t.toUInt64) (buf.read t.toNat k.toNat) = .ok f₂) :
    sys.Taken f m flags off buf (t + k) f₂ := by
  have hadd := toNat_add_of_le hle
  refine .inr ⟨by omega, ?_⟩
  rw [hadd]
  rcases h with ⟨h0, rfl⟩ | ⟨hpos, hf₁⟩
  · have ht : t = 0 := UInt32.toNat_inj.mp h0
    subst ht
    simpa using hw
  · have hoff : (off + t.toUInt64).toNat = off.toNat + (buf.read 0 t.toNat).length := by
      rw [toNat_writeOffset hsum (UInt32.le_iff_toNat_le.mpr (by omega)), Mem.length_read]
    rw [Mem.read_add, Nat.zero_add, hsys.append f m flags off _ _ _ ?_ ?_ hoff, hf₁]
    · exact hw
    · rw [← List.length_pos_iff, Mem.length_read]
      exact hpos
    · rw [← List.length_pos_iff, Mem.length_read]
      exact hk

/-- When the buffer cannot be written, the first `Twrite` is refused. -/
theorem write_refused (hsys : sys.WritesThrough) (hfh : d.fids fh = some ⟨m, some flags⟩) (hv : 23 < v.toNat)
    {size : UInt32} {off : UInt64} (hsize : size.toNat < 2147483648)
    (hsum : off.toNat + size.toNat < 18446744073709551616) (buf : Mem) (hpos : 0 < size) {e : Errno}
    (hw : sys.write d.fs m flags off (buf.read 0 size.toNat) = .error e) (fuel : Nat) :
    Total (Session S root v held n d) (v9pWrite L (fuel + 1) fh size off buf) fun r s =>
      Fails r ∧ Session S root v held n d s := by
  refine Total.of_run fun s hs => ?_
  obtain ⟨r, s', hnext, k, hk, hle, hdid⟩ := (writeNext_session S root v held n d hfh hv hsize buf hpos).run hs
  have hle' : k.toNat ≤ size.toNat := by simpa using hle
  have hround : writeRound L fh size off buf 0 s = _ := congrFun (writeRound_eq hpos) s
  rw [run_bind_ok hnext] at hround
  cases hfirst : sys.write d.fs m flags (off + UInt32.toUInt64 0) (buf.read (UInt32.toNat 0) k.toNat) with
  | ok f =>
    obtain ⟨f', hf'⟩ := (hsys.cut d.fs buf hsum hk hle').mp ⟨f, by simpa using hfirst⟩
    rw [hf'] at hw
    cases hw
  | error e' =>
    rw [hfirst] at hdid
    obtain ⟨rfl, hs'⟩ := hdid
    exact ⟨_, s', run_bind_ok hround, e'.fails, hs'⟩

/-- When the buffer can be written, no `Twrite` is refused: not the first one, because all of the buffer can be written,
and none after it. -/
theorem write_taken (hsys : sys.WritesThrough) (hfh : d.fids fh = some ⟨m, some flags⟩) (hv : 23 < v.toNat)
    {size : UInt32} {off : UInt64} (hsize : size.toNat < 2147483648)
    (hsum : off.toNat + size.toNat < 18446744073709551616) (buf : Mem) (hpos : 0 < size.toNat) {f' : F}
    (hw : sys.write d.fs m flags off (buf.read 0 size.toNat) = .ok f') {fuel : Nat} (hfuel : size.toNat < fuel) :
    Total (Session S root v held n d) (v9pWrite L fuel fh size off buf) fun r s =>
      r = .ok size ∧ Session S root v held n (d.put f') s := by
  refine Total.of_run fun s hs => ?_
  have hnext : ∀ t s, (∃ f, sys.Taken d.fs m flags off buf t f ∧ Session S root v held n (d.put f) s) → t < size →
      ∃ a s', writeNext L fh size off buf t s = .ok (.ok a) s' ∧ a ≠ 0 ∧ t.toNat + a.toNat ≤ size.toNat ∧
        ∃ f, sys.Taken d.fs m flags off buf (t + a) f ∧ Session S root v held n (d.put f) s' := by
    rintro t s ⟨f, hf, hs⟩ hlt
    obtain ⟨r, s', hnext, k, hk, hle, hdid⟩ :=
      (writeNext_session S root v held n (d.put f) hfh hv hsize buf hlt).run hs
    have hknz : k ≠ 0 := by
      rintro rfl
      exact absurd hk (by decide)
    obtain ⟨f₂, hf₂⟩ : ∃ f₂, sys.write f m flags (off + t.toUInt64) (buf.read t.toNat k.toNat) = .ok f₂ := by
      rcases hf with ⟨h0, rfl⟩ | ⟨_, hf⟩
      · have ht : t = 0 := UInt32.toNat_inj.mp h0
        subst ht
        simpa using (hsys.cut d.fs buf hsum hk (by simpa using hle)).mpr ⟨f', hw⟩
      · exact hsys.steady _ _ m flags off _ hf _ _
    rw [Disk.put_fs, hf₂] at hdid
    obtain ⟨rfl, hs'⟩ := hdid
    exact ⟨k, s', hnext, hknz, hle, f₂, hf.next hsys hsum hle hk hf₂, hs'⟩
  obtain ⟨s', hloop, f, hf, hs'⟩ := loop_writes hnext fuel 0 s ⟨d.fs, .inl ⟨rfl, rfl⟩, hs⟩ UInt32.zero_le
    (by simpa using hfuel)
  rcases hf with ⟨h0, -⟩ | ⟨-, hf⟩
  · omega
  · rw [hw] at hf
    obtain rfl : f' = f := Except.ok.inj hf
    exact ⟨_, s', hloop, rfl, hs'⟩

/-- **`v9p_write`** does what one write of the whole buffer would, however the server splits it. -/
theorem write_ran (hsys : sys.WritesThrough) (hfh : d.fids fh = some ⟨m, some flags⟩) (hv : 23 < v.toNat)
    {size : UInt32} {off : UInt64} (hsize : size.toNat < 2147483648)
    (hsum : off.toNat + size.toNat < 18446744073709551616) (buf : Mem)
    {fuel : Nat} (hfuel : size.toNat < fuel) :
    Total (Session S root v held n d) (v9pWrite L fuel fh size off buf) fun r s =>
      Ran S root v held n d (sys.writeBytes d.fs m flags off (buf.read 0 size.toNat)) (r.map UInt32.toNat) s := by
  unfold FileSystem.writeBytes
  obtain ⟨fuel, rfl⟩ : ∃ k, fuel = k + 1 := ⟨fuel - 1, by omega⟩
  by_cases h0 : size.toNat = 0
  · have hnil : buf.read 0 size.toNat = [] := by rw [← List.length_eq_zero_iff, Mem.length_read, h0]
    have hfull : ¬ (0 : UInt32) < size := by
      rw [UInt32.lt_iff_toNat_lt, h0]
      exact Nat.not_lt_zero _
    rw [if_pos hnil]
    exact Total.of_run fun s hs => ⟨.ok 0, s, run_bind_ok (writeRound_full hfull), rfl, hs⟩
  have hpos : 0 < size.toNat := Nat.pos_of_ne_zero h0
  rw [if_neg (List.length_pos_iff.mp (by rw [Mem.length_read]; exact hpos)), Mem.length_read]
  cases hw : sys.write d.fs m flags off (buf.read 0 size.toNat) with
  | error e =>
    refine (write_refused S root v held n d hsys hfh hv hsize hsum buf (UInt32.lt_iff_toNat_lt.mpr hpos) hw fuel).post
      fun r s hs => ?_
    obtain ⟨⟨e', he', rfl⟩, hs⟩ := hs
    exact ⟨⟨e', he', rfl⟩, hs⟩
  | ok f' =>
    refine (write_taken S root v held n d hsys hfh hv hsize hsum buf hpos hw hfuel).post fun r s hs => ?_
    obtain ⟨rfl, hs⟩ := hs
    exact ⟨rfl, hs⟩

/-- `v9p_release` gives the fid back. -/
theorem release_ran (fh : UInt32) : Total (Session S root v (fh :: held) n d) (v9pRelease L fh) fun r s =>
    r = .ok () ∧ Session S root v held n (d.release fh) s :=
  (closeFid_session S root v held n d fh).bind fun _ => Triple.pure fun _ hs => ⟨rfl, hs⟩

end Files

end Virtio9P
