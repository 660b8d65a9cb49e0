import Virtio9P.Calls
import Virtio9P.Targets
import Virtio9P.Tree

/-!
# The handler is a file system

`direct` is what a caller expects of the callbacks: each is one operation of a file system with open files, on the node
or the entry that its path names (`OpenFs`). There are no fids in it, no messages and no walks. `Sim` relates it to the
handler at a server: the fids of the open files are bound to their nodes, and the server has the same file system. Every
call keeps the relation and has the same result (`exec_sim`), and so does every run (`handler_refines`), unless the
counter of the pool runs over. It does when `2 ^ 32 - 1` walks were answered with `EIO`: each of these costs a fid for
good, and then the root's fid is handed out (`fids_run_out`).
-/

namespace Virtio9P

open Lib

variable {W F N α β : Type} {L : Link W} {sys : FileSystem F N}

/-! ## The file system as the caller sees it -/

/-- A file system with open files: each is a node and the flags it was opened with. -/
structure OpenFs (F N : Type) where
  fs : F
  handles : List (N × UInt32)

/-- What a call gives, with attributes of the type `σ`. -/
inductive Value (σ : Type) where
  | none
  | stat (st : σ)
  | data (bs : List UInt8)
  | count (n : Nat)
  | target (target : Str)
  deriving DecidableEq

/-- The same value, with attributes that are related. -/
inductive Value.Same {σ τ : Type} (R : σ → τ → Prop) : Value σ → Value τ → Prop
  | none : Same R .none .none
  | stat {st : σ} {a : τ} : R st a → Same R (.stat st) (.stat a)
  | data (bs : List UInt8) : Same R (.data bs) (.data bs)
  | count (n : Nat) : Same R (.count n) (.count n)
  | target (target : Str) : Same R (.target target) (.target target)

namespace FileSystem

variable (sys : FileSystem F N) (root : N)

/-- The node that the path names. -/
def node (f : F) (path : Str) : Option N := sys.resolve f root (components path)

/-- The directory and the entry in it that the path names. -/
def parent (f : F) (path : Str) : Option (N × Str) :=
  (components path).getLast?.bind fun name => (sys.resolve f root (components path).dropLast).map fun m => (m, name)

end FileSystem

namespace OpenFs

/-- The value of an operation and the state it leaves; when it fails, none, and the state is as before. -/
def did (st : OpenFs F N) (res : Option (β × F)) (value : β → Value P9Stat) : Option (Value P9Stat) × OpenFs F N :=
  match res with
  | some (b, f) => (some (value b), { st with fs := f })
  | none => (none, st)

/-- The same with a file that is open then. -/
def opened (st : OpenFs F N) (res : Option ((N × UInt32) × F)) : Option (Value P9Stat) × OpenFs F N :=
  match res with
  | some (h, f) => (some .none, ⟨f, h :: st.handles⟩)
  | none => (none, st)

/-- An open file is closed. -/
def closed (st : OpenFs F N) (fi : Nat) : Option (Value P9Stat) × OpenFs F N :=
  if fi < st.handles.length then (some .none, { st with handles := st.handles.eraseIdx fi }) else (none, st)

end OpenFs

section Direct

variable (sys : FileSystem F N) (root : N)

/-- **What a caller expects of a callback.** -/
def direct (st : OpenFs F N) : Callback → Option (Value P9Stat) × OpenFs F N
  | .getattr path => st.did ((sys.node root st.fs path).map fun m => (sys.getattr st.fs m, st.fs)) .stat
  | .create path mode flags => st.opened ((sys.parent root st.fs path).bind fun p =>
      (sys.lcreate st.fs p.1 p.2 (openFlags flags) mode).toOption.map fun made => ((made.1, openFlags flags), made.2))
  | .open path flags => st.opened ((sys.node root st.fs path).bind fun m =>
      (sys.lopen st.fs m flags).toOption.map fun f => ((m, flags), f))
  | .read _ fi size off =>
    st.did (st.handles[fi]?.bind fun h => sys.readBytes st.fs h.1 h.2 size.toNat off.toNat) .data
  | .write _ fi size off buf =>
    st.did (st.handles[fi]?.bind fun h => sys.writeBytes st.fs h.1 h.2 off (buf.read 0 size.toNat)) .count
  | .release fi => st.closed fi
  | .mkdir path mode => st.did ((sys.parent root st.fs path).bind fun p =>
      (sys.mkdir st.fs p.1 p.2 mode).toOption.map fun made => ((), made.2)) fun _ => .none
  | .unlink path => st.did ((sys.parent root st.fs path).bind fun p =>
      (sys.unlinkat st.fs p.1 p.2 0).toOption.map fun f => ((), f)) fun _ => .none
  | .rmdir path => st.did ((sys.parent root st.fs path).bind fun p =>
      (sys.unlinkat st.fs p.1 p.2 p9AtRemovedir).toOption.map fun f => ((), f)) fun _ => .none
  | .rename oldpath newpath => st.did ((sys.parent root st.fs oldpath).bind fun p =>
      (sys.parent root st.fs newpath).bind fun q =>
        (sys.renameat st.fs p.1 p.2 q.1 q.2).toOption.map fun f => ((), f)) fun _ => .none
  | .truncate path size => st.did ((sys.node root st.fs path).bind fun m =>
      (sys.setattr st.fs m { valid := p9SetattrSize, size := size }).toOption.map fun f => ((), f))
        fun _ => .count size.toNat
  | .symlink target path => st.did ((sys.parent root st.fs path).bind fun p =>
      (sys.symlink st.fs p.1 p.2 target).toOption.map fun f => ((), f)) fun _ => .none
  | .readlink path _ => st.did ((sys.node root st.fs path).bind fun m =>
      (sys.readlink st.fs m).toOption.map fun target => (target, st.fs)) .target
  | .link oldpath newpath => st.did ((sys.node root st.fs oldpath).bind fun m =>
      (sys.parent root st.fs newpath).bind fun p =>
        (sys.link st.fs p.1 m p.2).toOption.map fun f => ((), f)) fun _ => .none
  | _ => (none, st)

/-- A sequence of them. -/
def directRun : OpenFs F N → List Callback → List (Option (Value P9Stat)) × OpenFs F N
  | st, [] => ([], st)
  | st, c :: cs =>
    let r := direct sys root st c
    let rs := directRun r.2 cs
    (r.1 :: rs.1, rs.2)

/-! ## The calls it is about -/

/-- A path as the callbacks take it. -/
structure Ordinary (path : Str) : Prop where
  proper : Proper path
  short : path.length < 1024
  depth : (components path).length ≤ 16
  names : ∀ name ∈ components path, name.length ≤ 255

/-- The callbacks, with arguments in range. `fuel` is a bound for the model of the loops only. -/
def InScope (st : OpenFs F N) : Callback → Prop
  | .getattr path | .create path _ _ | .mkdir path _ | .unlink path | .rmdir path => Ordinary path
  | .open path flags => Ordinary path ∧ flags &&& 0x3 = flags
  | .read fuel _ size off | .write fuel _ size off _ =>
    size.toNat < 2147483648 ∧ off.toNat < 9223372036854775808 ∧ size.toNat < fuel
  | .release _ => True
  | .rename oldpath newpath | .link oldpath newpath => Ordinary oldpath ∧ Ordinary newpath
  | .truncate path size => Ordinary path ∧ size.toNat < 2147483648
  | .symlink target path => Ordinary path ∧ target.length < 1024
  | .readlink path size => Ordinary path ∧ ∀ m target, sys.node root st.fs path = some m →
      sys.readlink st.fs m = .ok target → target.length < 1024 ∧ target.length < size.toNat
  | _ => False

/-- A sequence of such calls. -/
def RunInScope : OpenFs F N → List Callback → Prop
  | _, [] => True
  | st, c :: cs => InScope sys root st c ∧ RunInScope (direct sys root st c).2 cs

end Direct

/-- What a caller of the handler gets: a negative code is a failure, and so is a count that is negative as an `int`. -/
def Outcome.value : Outcome → Option (Value FbxStat)
  | .code (.ok _) => some .none
  | .stat (.ok st) => some (.stat st)
  | .data (.ok bs) => some (.data bs)
  | .count (.ok n) => if n.toInt32 < 0 then none else some (.count n.toNat)
  | .size (.ok n) => if n < 0 then none else some (.count n.toInt.toNat)
  | .target (.ok t) => some (.target t)
  | .code (.error e) | .stat (.error e) | .data (.error e) | .count (.error e) | .size (.error e)
  | .target (.error e) =>
    if e < 0 then none else some .none
  | _ => none

/-- The caller gets what was expected; the attributes are shown as far as the fields for them are wide. -/
def Outcome.Gives (widths : Widths) (o : Outcome) (v : Option (Value P9Stat)) : Prop :=
  Option.Rel (Value.Same (FbxStat.Shows widths)) o.value v

theorem Outcome.gives_none {widths : Widths} {o : Outcome} (h : o.value = none) : o.Gives widths none := by
  unfold Gives
  rw [h]
  exact .none

theorem Outcome.gives_some {widths : Widths} {o : Outcome} {v : Value FbxStat} {v' : Value P9Stat}
    (h : o.value = some v) (hv : v.Same (FbxStat.Shows widths) v') : o.Gives widths (some v') := by
  unfold Gives
  rw [h]
  exact .some hv

/-! ## Paths -/

section Paths

variable {path : Str} {root : N}

theorem Ordinary.not_refused (h : Ordinary path) : ¬ Refused path := by
  have hdepth := h.depth
  have hshort := h.short
  unfold Refused p9MaxWElem
  omega

theorem Ordinary.reach (h : Ordinary path) (f : F) : sys.reach f root path = sys.node root f path :=
  if_neg h.not_refused

/-- The parent and the name that `split_path` gives. -/
theorem Ordinary.split (h : Ordinary path) : ¬ Refused (splitPath path 1024 256).1 ∧
    components (splitPath path 1024 256).1 = (components path).dropLast ∧
    (components path).getLast? = some (splitPath path 1024 256).2 := by
  have hkept : Kept path := by
    obtain ⟨dir, last, heq, hl, hne⟩ := exists_split h.proper.1 h.proper.2
    have hlast : last.length ≤ 255 := h.names last (by rw [heq, components_split dir hl hne]; simp)
    have hlen : path.length = dir.length + (last.length + 1) := by rw [heq, List.length_append, List.length_cons]
    have hshort := h.short
    exact ⟨dir, last, heq, hl, hlast, by rw [List.take_of_length_le (by omega)]⟩
  obtain ⟨hcomp, hname⟩ := (kept_iff h.proper).mp hkept
  refine ⟨?_, hcomp, hname⟩
  have hdepth := h.depth
  have hlen := length_parent path
  unfold Refused p9MaxWElem
  rw [hcomp, List.length_dropLast]
  omega

theorem Ordinary.reach_parent (h : Ordinary path) (f : F) : sys.parent root f path =
    (sys.reach f root (splitPath path 1024 256).1).map fun m => (m, (splitPath path 1024 256).2) := by
  obtain ⟨href, hcomp, hname⟩ := h.split
  unfold FileSystem.parent FileSystem.reach
  rw [if_neg href, hname, hcomp]
  rfl

end Paths

/-! ## The relation -/

section Handles

variable {R : α → β → Prop}

theorem forall₂_getElem? {l : List α} {l' : List β} (h : List.Forall₂ R l l') (i : Nat) :
    (l[i]? = none ∧ l'[i]? = none) ∨ ∃ a b, l[i]? = some a ∧ l'[i]? = some b ∧ R a b := by
  induction h generalizing i with
  | nil => exact .inl ⟨rfl, rfl⟩
  | cons hab _ ih =>
    cases i with
    | zero => exact .inr ⟨_, _, rfl, rfl, hab⟩
    | succ i => simpa using ih i

theorem forall₂_eraseIdx {l : List α} {l' : List β} (h : List.Forall₂ R l l') (i : Nat) :
    List.Forall₂ R (l.eraseIdx i) (l'.eraseIdx i) := by
  induction h generalizing i with
  | nil => exact .nil
  | cons hab hl ih =>
    cases i with
    | zero => exact hl
    | succ i => exact .cons hab (ih i)

end Handles

/-- The fids of open files are bound to their nodes. -/
def Holds (d : Disk F N) : List UInt32 → List (N × UInt32) → Prop :=
  List.Forall₂ fun fh h => d.fids fh = some ⟨h.1, some h.2⟩

/-- **The handler at its server stands for the file system with its open files.** -/
def Sim (S : Served L sys) (root : N) (v : UInt32) (handles : List UInt32) (st : OpenFs F N) (s : St W) : Prop :=
  ∃ d, Session S root v handles 0 d s ∧ d.fs = st.fs ∧ Holds d handles st.handles

/-- A call of the handler ends as the call of the file system does, and the relation holds then. -/
def Agrees (S : Served L sys) (root : N) (v : UInt32) (r' : Option (Value P9Stat) × OpenFs F N)
    (r : Outcome × List UInt32) (s : St W) : Prop :=
  r.1.Gives L.widths r'.1 ∧ Sim S root v r.2 r'.2 s

section Steps

variable {S : Served L sys} {root : N} {v : UInt32} {handles : List UInt32} {st : OpenFs F N} {d : Disk F N} {s : St W}

/-- A rule for each disk that may be there. -/
theorem sim_of_disk {x : Client W α} {Q : α → St W → Prop}
    (h : ∀ d : Disk F N, d.fs = st.fs → Holds d handles st.handles → UnlessOver (Session S root v handles 0 d) x Q) :
    UnlessOver (Sim S root v handles st) x Q := by
  rintro s ⟨d, hs, hfs, hheld⟩
  exact h d hfs hheld s hs

/-- A call that works on files and opens none. What it gives is seen through `g`. -/
theorem Ran.agrees {γ : Type} {res : Option (β × F)} {g : β → γ} {r : Except Int32 γ}
    (h : Ran S root v handles 0 d (res.map fun p => (g p.1, p.2)) r s) (hfs : d.fs = st.fs)
    (hheld : Holds d handles st.handles) {o : Outcome} {value : β → Value P9Stat}
    (hok : ∀ b f, res = some (b, f) → r = .ok (g b) → o.Gives L.widths (some (value b)))
    (herr : Fails r → o.value = none) : Agrees S root v (st.did res value) (o, handles) s := by
  cases res with
  | some p => exact ⟨hok p.1 p.2 rfl h.1, d.put p.2, h.2, rfl, hheld⟩
  | none => exact ⟨Outcome.gives_none (herr h.1), d, h.2, hfs, hheld⟩

/-- A call that opens a file. -/
theorem Opened.agrees {res : Option ((N × UInt32) × F)} {r : Except Int32 UInt32}
    (h : Opened S root v handles 0 d (res.map fun p => (⟨p.1.1, some p.1.2⟩, p.2)) r s) (hfs : d.fs = st.fs)
    (hheld : Holds d handles st.handles) :
    (∃ fid, r = .ok fid ∧ Agrees S root v (st.opened res) (.code (.ok ()), fid :: handles) s) ∨
      ∃ e, r = .error e ∧ Agrees S root v (st.opened res) (.code (.error e), handles) s := by
  cases res with
  | some p =>
    obtain ⟨fid, rfl, hfid, hs⟩ := h
    refine .inl ⟨fid, rfl, Outcome.gives_some rfl .none, _, hs, rfl, .cons Disk.bind_self (hheld.imp fun g x hg => ?_)⟩
    rw [Disk.bind_of_ne]
    · exact hg
    · rintro rfl
      rw [hfid] at hg
      cases hg
  | none =>
    obtain ⟨⟨e, he, rfl⟩, hs⟩ := h
    exact .inr ⟨e, rfl, Outcome.gives_none (if_pos he), d, hs, hfs, hheld⟩

/-- A callback on a path. -/
theorem onPath_sim {γ : Type} {call : Client W (Except Int32 γ)} {outcome : Except Int32 γ → Outcome}
    {res : Option (β × F)} (g : β → γ) {value : β → Value P9Stat}
    (hok : ∀ b f, res = some (b, f) → (outcome (.ok (g b))).Gives L.widths (some (value b)))
    (herr : ∀ e, e < 0 → (outcome (.error e)).value = none)
    (hcall : ∀ d : Disk F N, d.fs = st.fs → UnlessOver (Session S root v handles 0 d) call
      (Ran S root v handles 0 d (res.map fun p => (g p.1, p.2)))) :
    UnlessOver (Sim S root v handles st) (onPath handles call outcome) (Agrees S root v (st.did res value)) := by
  refine sim_of_disk fun d hfs hheld => (hcall d hfs).bind (fun r => Triple.pure fun s hs _ => ?_) fun _ => Triple.ret
  refine hs.agrees hfs hheld (fun b f hres hr => ?_) fun hr => ?_
  · rw [hr]
    exact hok b f hres
  · obtain ⟨e, he, rfl⟩ := hr
    exact herr e he

/-- A callback on a path that gives nothing but a code. -/
theorem onPath_sim_code {call : Client W (Except Int32 Unit)} {res : Option (Unit × F)}
    (hcall : ∀ d : Disk F N, d.fs = st.fs → UnlessOver (Session S root v handles 0 d) call
      (Ran S root v handles 0 d res)) :
    UnlessOver (Sim S root v handles st) (onPath handles call .code)
      (Agrees S root v (st.did res fun _ => .none)) := by
  refine onPath_sim id (fun _ _ _ => Outcome.gives_some rfl .none) (fun e he => if_pos he) fun d hfs => ?_
  simpa only [id, Option.map_id'] using hcall d hfs

/-- A callback that opens a file. -/
theorem onOpen_sim {call : Client W (Except Int32 UInt32)} {res : Option ((N × UInt32) × F)}
    (hcall : ∀ d : Disk F N, d.fs = st.fs → UnlessOver (Session S root v handles 0 d) call
      (Opened S root v handles 0 d (res.map fun p => (⟨p.1.1, some p.1.2⟩, p.2)))) :
    UnlessOver (Sim S root v handles st) (onOpen handles call) (Agrees S root v (st.opened res)) := by
  refine sim_of_disk fun d hfs hheld => (hcall d hfs).bind (fun r s hs => ?_) fun r => ?_
  · rcases hs.agrees hfs hheld with ⟨fid, rfl, hval, d', hs', hsim⟩ | ⟨e, rfl, hagrees⟩
    · exact fun _ => ⟨hval, d', hs'.moved (fun _ _ => rfl) rfl rfl rfl hs'.disk, hsim⟩
    · exact fun _ => hagrees
  · cases r with
    | error e => exact Triple.ret
    | ok fid => exact Triple.bind ((overUpkeep L).discipline (fun hs _ => hs) |>.adopt [] fid) fun _ => Triple.ret

/-- A callback on an open file. -/
theorem onHandle_sim {fi : Nat} {call : UInt32 → Client W Outcome} {op : N × UInt32 → Option (β × F)}
    {value : β → Value P9Stat}
    (hcall : ∀ (d : Disk F N) fh h, d.fs = st.fs → Holds d handles st.handles → d.fids fh = some ⟨h.1, some h.2⟩ →
      Total (Session S root v handles 0 d) (call fh) fun o s => Agrees S root v (st.did (op h) value) (o, handles) s) :
    UnlessOver (Sim S root v handles st) (onHandle handles fi call)
      (Agrees S root v (st.did (st.handles[fi]?.bind op) value)) := by
  refine sim_of_disk fun d hfs hheld => UnlessOver.of_total ?_
  unfold onHandle
  rcases forall₂_getElem? hheld fi with ⟨hnone, hnone'⟩ | ⟨fh, h, hsome, hsome', hfh⟩
  · rw [hnone, hnone']
    exact Triple.pure fun s hs => ⟨Outcome.gives_none rfl, d, hs, hfs, hheld⟩
  · rw [hsome, hsome']
    exact (hcall d fh h hfs hheld hfh).bind fun r => Triple.pure fun s hs => hs

/-- `release`. -/
theorem onClose_sim {fi : Nat} : UnlessOver (Sim S root v handles st) (onClose handles fi (v9pRelease L))
    (Agrees S root v (st.closed fi)) := by
  refine sim_of_disk fun d hfs hheld => UnlessOver.of_total ?_
  have hlen := hheld.length_eq
  unfold onClose OpenFs.closed
  by_cases hfi : fi < handles.length
  · have hperm : handles.Perm (handles[fi] :: handles.eraseIdx fi) := (List.getElem_cons_eraseIdx_perm hfi).symm
    rw [List.getElem?_eq_getElem hfi, if_pos (hlen ▸ hfi)]
    refine Triple.bind (P := Session S root v handles 0 d) (Q := fun r s => (r = .ok () ∧
      Session S root v (handles.eraseIdx fi) 0 (d.release handles[fi]) s) ∧ handles[fi] ∉ handles.eraseIdx fi) ?_
      fun r => ?_
    · intro s hs
      have hnodup : (handles[fi] :: handles.eraseIdx fi).Nodup := by
        obtain ⟨pool, -, huse, -⟩ := hs.pool
        exact hperm.nodup_iff.mp huse.distinct
      exact (release_ran S root v _ 0 d handles[fi]).post (fun r s hs => ⟨hs, (List.nodup_cons.mp hnodup).1⟩) s
        (hs.perm hperm)
    · refine Triple.pure fun s hs => ?_
      obtain ⟨⟨rfl, hs⟩, hnot⟩ := hs
      refine ⟨Outcome.gives_some rfl .none, d.release handles[fi], hs, hfs, ?_⟩
      -- the other fids are as they were
      have hmem : ∀ fh ∈ handles.eraseIdx fi, fh ≠ handles[fi] := fun fh hfh heq => hnot (heq ▸ hfh)
      refine ((List.forall₂_and_left _ _).mpr ⟨hmem, forall₂_eraseIdx hheld fi⟩).imp fun fh h hh => ?_
      rw [Disk.release_of_ne hh.1]
      exact hh.2
  · rw [List.getElem?_eq_none (by omega), if_neg (hlen ▸ hfi)]
    exact Triple.pure fun s hs => ⟨Outcome.gives_none rfl, d, hs, hfs, hheld⟩

theorem openFlags_of_mode {flags : UInt32} (h : flags &&& 0x3 = flags) : openFlags flags = flags := by
  unfold openFlags
  rw [← h, UInt32.and_assoc]
  rfl

theorem not_neg_of_lt {k : UInt32} (h : k.toNat < 2147483648) : ¬ k.toInt32 < 0 := by
  rw [Int32.lt_iff_toInt_lt, toInt_toInt32_of_lt h, Int32.toInt_zero]
  omega

variable (S root v handles st)

/-- **One call.** -/
theorem exec_sim (hsys : sys.WritesThrough) (hv : 4096 ≤ v.toNat) {c : Callback} (hc : InScope sys root st c) :
    UnlessOver (Sim S root v handles st) (exec L handles c) (Agrees S root v (direct sys root st c)) := by
  cases c with
  | getattr path =>
    refine onPath_sim (p9statToFbxstat L.widths)
      (fun a f _ => Outcome.gives_some rfl (.stat (p9statToFbxstat_shows _ a))) (fun e he => if_pos he) fun d hfs => ?_
    rw [← hfs, ← Ordinary.reach hc, Option.map_map]
    exact getattr_ran S root v handles d path
  | create path mode flags =>
    refine onOpen_sim fun d hfs => ?_
    rw [← hfs, Ordinary.reach_parent hc]
    simp only [Option.bind_map, Function.comp_def, Option.map_bind, Option.map_map]
    exact create_ran S root v handles d path mode flags
  | «open» path flags =>
    obtain ⟨hp, hflags⟩ := hc
    refine onOpen_sim fun d hfs => ?_
    rw [← hfs, ← hp.reach]
    simp only [Option.map_bind, Function.comp_def, Option.map_map]
    have h := open_ran S root v handles d path flags
    rwa [openFlags_of_mode hflags] at h
  | read fuel fi size off =>
    obtain ⟨hsize, hoff, hfuel⟩ := hc
    refine onHandle_sim fun d fh h hfs hheld hfh => ?_
    rw [← hfs]
    have hsum : off.toNat + size.toNat < 18446744073709551616 := by omega
    refine Triple.mapped ((read_ran S root v handles 0 d hfh (by omega) hsum hfuel).post fun r s hs => ?_)
    refine Ran.agrees (g := id) (by simpa only [id, Option.map_id'] using hs) hfs hheld (fun b f _ hr => ?_)
      fun hr => ?_
    · rw [hr]
      exact Outcome.gives_some rfl (.data b)
    · obtain ⟨e, he, rfl⟩ := hr
      exact if_pos he
  | write fuel fi size off buf =>
    obtain ⟨hsize, hoff, hfuel⟩ := hc
    refine onHandle_sim fun d fh h hfs hheld hfh => ?_
    rw [← hfs]
    have hsum : off.toNat + size.toNat < 18446744073709551616 := by omega
    refine Triple.mapped ((write_ran S root v handles 0 d hsys hfh (by omega) hsize hsum buf hfuel).post
      fun r s hs => ?_)
    refine Ran.agrees (g := id) (by simpa only [id, Option.map_id'] using hs) hfs hheld (fun b f hres hr => ?_)
      fun hr => ?_
    · cases r with
      | error e => cases hr
      | ok k =>
        obtain rfl : k.toNat = b := Except.ok.inj hr
        have hlen := FileSystem.length_writeBytes hres
        rw [Mem.length_read] at hlen
        exact Outcome.gives_some (if_neg (not_neg_of_lt (by omega))) (.count _)
    · cases r with
      | error e => exact if_pos (fails_error.mp hr)
      | ok k => exact absurd hr not_fails_ok
  | release fi => exact onClose_sim
  | mkdir path mode =>
    refine onPath_sim_code fun d hfs => ?_
    rw [← hfs, Ordinary.reach_parent hc, Option.bind_map]
    exact mkdir_ran S root v handles d path mode
  | unlink path =>
    refine onPath_sim_code fun d hfs => ?_
    rw [← hfs, Ordinary.reach_parent hc, Option.bind_map]
    exact unlinkat_ran S root v handles d path 0
  | rmdir path =>
    refine onPath_sim_code fun d hfs => ?_
    rw [← hfs, Ordinary.reach_parent hc, Option.bind_map]
    exact unlinkat_ran S root v handles d path p9AtRemovedir
  | rename oldpath newpath =>
    refine onPath_sim_code fun d hfs => ?_
    rw [← hfs, hc.1.reach_parent, hc.2.reach_parent]
    simp only [Option.bind_map, Function.comp_def]
    exact rename_ran S root v handles d oldpath newpath
  | truncate path size =>
    obtain ⟨hp, hsize⟩ := hc
    have hsize' : size.toUInt32.toNat = size.toNat := by
      rw [UInt64.toNat_toUInt32, Nat.mod_eq_of_lt (by omega)]
    have hint : size.toUInt32.toInt32.toInt.toNat = size.toNat := by
      rw [toInt_toInt32_of_lt (by omega), Int.toNat_natCast, hsize']
    -- the size comes back as an `int`
    refine onPath_sim (fun _ => size.toUInt32.toInt32) (fun b f _ => ?_) (fun e he => if_pos he) fun d hfs => ?_
    · refine Outcome.gives_some (v := .count size.toNat) ?_ (.count _)
      unfold Outcome.value
      simp only
      rw [if_neg (not_neg_of_lt (by omega)), hint]
    · rw [← hfs, ← hp.reach]
      exact truncate_ran S root v handles d path size
  | symlink target path =>
    refine onPath_sim_code fun d hfs => ?_
    rw [← hfs, hc.1.reach_parent, Option.bind_map]
    exact symlink_ran S root v handles d path (hc.2.trans (by decide))
  | readlink path size =>
    refine onPath_sim id (fun b f _ => Outcome.gives_some rfl (.target b)) (fun e he => if_pos he) fun d hfs => ?_
    simp only [id, Option.map_id']
    rw [← hfs, ← hc.1.reach]
    refine readlink_ran S root v handles d path fun m target hm ht => ?_
    rw [hc.1.reach, hfs] at hm
    rw [hfs] at ht
    have hlen := hc.2 m target hm ht
    exact ⟨by omega, hlen.2⟩
  | link oldpath newpath =>
    refine onPath_sim_code fun d hfs => ?_
    rw [← hfs, ← hc.1.reach, hc.2.reach_parent]
    simp only [Option.bind_map, Function.comp_def]
    exact link_ran S root v handles d oldpath newpath
  | _ => exact hc.elim

variable {S root v}

/-- **Every run.** -/
theorem run_sim (hsys : sys.WritesThrough) (hv : 4096 ≤ v.toNat) (cs : List Callback) :
    ∀ (handles : List UInt32) (st : OpenFs F N), RunInScope sys root st cs →
      UnlessOver (Sim S root v handles st) (run L handles cs) fun r s =>
        List.Forall₂ (Outcome.Gives L.widths) r.1 (directRun sys root st cs).1 ∧
          Sim S root v r.2 (directRun sys root st cs).2 s := by
  have hover : ∀ handles cs, Keeps RanOver (run L handles cs) := (overUpkeep L).run fun hs _ => hs
  induction cs with
  | nil => exact fun handles st _ => Triple.pure fun s hs _ => ⟨.nil, hs⟩
  | cons c cs ih =>
    rintro handles st ⟨hc, hcs⟩
    refine (exec_sim S root v handles st hsys hv hc).bind (fun r => ?_) fun r => (hover _ _).bind fun _ => Triple.ret
    rintro s ⟨hval, hs⟩
    refine UnlessOver.bind (ih r.2 _ hcs) (fun rs => Triple.pure fun s' hs' _ => ?_) (fun _ => Triple.ret) s hs
    exact ⟨.cons hval hs'.1, hs'.2⟩

end Steps

/-- The state in which a sequence of calls ends. -/
@[irreducible] def runEnd (L : Link W) (handles : List UInt32) (cs : List Callback) (s : St W) : St W :=
  finalState (run L handles cs s)

/-- **The handler refines the file system.** At a server that conforms and is reached without loss, every sequence of
calls in which the counter of the pool does not run over has the results of the operations they stand for, and leaves
the server's file system and the open files as these do. -/
theorem handler_refines (S : Served L sys) (hsys : sys.WritesThrough) {root : N} {v : UInt32}
    (hv : 4096 ≤ v.toNat ∧ v.toNat ≤ p9MSize.toNat) {handles : List UInt32} {st : OpenFs F N} (cs : List Callback)
    (hcs : RunInScope sys root st cs) {s : St W} (hs : Sim S root v handles st s)
    (hwrap : NoWrap (runEnd L handles cs s).log) :
    ∃ os handles' s', run L handles cs s = .ok (os, handles') s' ∧
      List.Forall₂ (Outcome.Gives L.widths) os (directRun sys root st cs).1 ∧
      Sim S root v handles' (directRun sys root st cs).2 s' := by
  unfold runEnd at hwrap
  obtain ⟨r, s', hrun, hval, hs'⟩ := (run_sim hsys hv.1 cs handles st hcs).run hs hwrap
  exact ⟨r.1, r.2, s', hrun, hval, hs'⟩

/-! ## On a tree -/

namespace Tree

/-- An inode with bytes written into it. -/
def taking (i : Inode) (off : Nat) (bs : List UInt8) : Inode :=
  { i with
    data := splice 0 i.data off bs
    attr := { i.attr with size := UInt64.ofNat (splice 0 i.data off bs).length } }

/-- There is a file, and it is open for writing. -/
def Writable (f : Tree) (n : List Str) (flags : UInt32) (i : Inode) : Prop :=
  f.inodes n = some i ∧ i.dir = false ∧ flags &&& 3 ≠ 0

theorem Writable.write {f : Tree} {n : List Str} {flags : UInt32} {i : Inode} (h : Writable f n flags i) (off : UInt64)
    (bs : List UInt8) : fileSystem.write f n flags off bs = .ok (f.set n (taking i off.toNat bs)) := by
  obtain ⟨hi, hd, hf⟩ := h
  show f.withFile n _ = _
  unfold withFile withInode
  rw [hi]
  simp [hd, hf, taking]

theorem Writable.taking {f : Tree} {n : List Str} {flags : UInt32} {i : Inode} (h : Writable f n flags i) (off : Nat)
    (bs : List UInt8) : Writable (f.set n (taking i off bs)) n flags (taking i off bs) := ⟨set_self, h.2⟩

/-- What is not writable refuses every write. -/
theorem writable_or_refused (f : Tree) (n : List Str) (flags : UInt32) :
    (∃ i, Writable f n flags i) ∨ ∃ e, ∀ off bs, fileSystem.write f n flags off bs = .error e := by
  show _ ∨ ∃ e, ∀ off bs, f.withFile n _ = _
  unfold withFile withInode
  cases hi : f.inodes n with
  | none => exact .inr ⟨_, fun _ _ => rfl⟩
  | some i =>
    cases hd : i.dir with
    | true => exact .inr ⟨⟨21, by decide⟩, fun _ _ => by simp [hd]⟩
    | false =>
      by_cases hf : flags &&& 3 = 0
      · exact .inr ⟨⟨9, by decide⟩, fun _ _ => by simp [hd, hf]⟩
      · exact .inl ⟨i, hi, hd, hf⟩

/-- A tree takes what is written as it comes. -/
theorem writesThrough : fileSystem.WritesThrough where
  append f n flags off off' as bs _ _ hoff := by
    rcases writable_or_refused f n flags with ⟨i, hi⟩ | ⟨e, he⟩
    · rw [hi.write, hi.write]
      show _ = fileSystem.write _ n flags off' bs
      rw [(hi.taking off.toNat as).write, set_set, hoff]
      unfold Tree.taking
      simp only [splice_splice]
    · rw [he, he]
      rfl
  steady f f' n flags off bs h off' bs' := by
    rcases writable_or_refused f n flags with ⟨i, hi⟩ | ⟨e, he⟩
    · rw [hi.write] at h
      obtain rfl : f.set n (taking i off.toNat bs) = f' := Except.ok.inj h
      exact ⟨_, (hi.taking off.toNat bs).write off' bs'⟩
    · rw [he] at h
      cases h

/-- A client that has just mounted stands for the tree with no open files. -/
theorem sim_mounted (f : Tree) : Sim fileSystem.served [] p9MSize [] ⟨f, []⟩ (mounted f) :=
  ⟨f.disk, session_mounted f 0 (by decide), rfl, .nil⟩

/-- The path `/a`. -/
def fileA : Str := [slash, 0x61]

theorem ordinary_fileA : Ordinary fileA := ⟨⟨by decide, by decide⟩, by decide, by decide, by decide⟩

/-- A file is made, written, read back and closed. -/
def writeAndRead : List Callback :=
  [.create fileA 0x1A4 2, .write 4 0 3 0 (fun i => UInt8.ofNat (i + 1)), .read 9 0 8 1, .release 0]

end Tree

/-- What is written to a new file can be read back. -/
theorem handler_refines_file : ∃ os handles' s',
    run Tree.fileSystem.fileServer [] Tree.writeAndRead (Tree.mounted (Tree.ofDirs [[]])) = .ok (os, handles') s' ∧
      List.Forall₂ (Outcome.Gives {}) os [some .none, some (.count 3), some (.data [2, 3]), some .none] := by
  have hwrap : NoWrap (runEnd Tree.fileSystem.fileServer [] Tree.writeAndRead
      (Tree.mounted (Tree.ofDirs [[]]))).log := by
    decide +kernel
  have hdirect : (directRun Tree.fileSystem [] ⟨Tree.ofDirs [[]], []⟩ Tree.writeAndRead).1 =
      [some .none, some (.count 3), some (.data [2, 3]), some .none] := by decide
  have hscope : RunInScope Tree.fileSystem [] ⟨Tree.ofDirs [[]], []⟩ Tree.writeAndRead :=
    ⟨Tree.ordinary_fileA, ⟨by decide, by decide, by decide⟩, ⟨by decide, by decide, by decide⟩, trivial, trivial⟩
  obtain ⟨os, handles', s', hrun, hval, -⟩ := handler_refines Tree.fileSystem.served Tree.writesThrough
    ⟨by decide, by decide⟩ Tree.writeAndRead hscope (Tree.sim_mounted (Tree.ofDirs [[]])) hwrap
  rw [hdirect] at hval
  exact ⟨os, handles', s', hrun, hval⟩

/-! ## When the fids run out -/

theorem run_append (L : Link W) (handles : List UInt32) (cs cs' : List Callback) :
    run L handles (cs ++ cs') = (run L handles cs >>= fun r =>
      run L r.2 cs' >>= fun r' => pure (r.1 ++ r'.1, r'.2)) := by
  induction cs generalizing handles with
  | nil => simp [run]
  | cons c cs ih => simp [run, ih]

theorem directRun_append (root : N) (st : OpenFs F N) (cs cs' : List Callback) :
    (directRun sys root st (cs ++ cs')).1 =
      (directRun sys root st cs).1 ++ (directRun sys root (directRun sys root st cs).2 cs').1 := by
  induction cs generalizing st with
  | nil => rfl
  | cons c cs ih => simp [directRun, ih]

namespace Tree

/-- A tree with the directory `/a`. -/
def dirA : Tree := ofDirs [[], [[0x61]]]

/-- The path `/b`, where there is nothing. -/
def fileB : Str := [slash, 0x62]

theorem ordinary_fileB : Ordinary fileB := ⟨⟨by decide, by decide⟩, by decide, by decide, by decide⟩

/-- Trees on a server that says `EIO` when there is nothing at the end of a walk. -/
def ailing : FileSystem Tree (List Str) := { fileSystem with absent := ⟨5, by decide⟩ }

/-- The pool has handed out all fids below `next` and got none back. -/
structure Drained (d : Disk Tree (List Str)) (next : UInt32) (s : St (Disk Tree (List Str))) : Prop where
  disk : s.w = d
  rootFid : s.h.rootFid = 0
  pool : ∃ pool, s.h.fidPool = some pool ∧ pool.freeList = [] ∧ pool.nextFid = next

/-- There is a pool, and the root's fid is not bound any more. -/
structure Uprooted (s : St (Disk Tree (List Str))) : Prop where
  unbound : s.w.fids 0 = none
  rootFid : s.h.rootFid = 0
  pool : s.h.fidPool ≠ none

section Requests

variable {P Q : St (Disk Tree (List Str)) → Prop} {d : Disk Tree (List Str)} {next : UInt32} {α : Type}

/-- A request is answered by the server. -/
theorem request_served {m : TMsg} (hm : m.Wf) (hsize : 7 + m.body.length < 4294967296)
    (parse : Mem → UInt32 → Except Int32 α) {Q : Except Int32 α → St (Disk Tree (List Str)) → Prop}
    (hanswer : ∀ s s' k rx, P s → Carries (ailing.serve s.w m).1 k rx → s'.w = (ailing.serve s.w m).2 →
      s'.h.rootFid = s.h.rootFid → s'.h.fidPool = s.h.fidPool → Q (answer parse k rx) s') :
    Total P (p9Request (v9pTransact ailing.fileServer) p9NextTag m parse) Q := by
  intro s hs
  obtain ⟨k, rx, hpoll, hcarries⟩ := ailing.poll_serve (p := s.ask m) (decode_frame hm hsize s.h.nextTag) s.w
  rw [request_of_reply hcarries.ne_zero hpoll]
  exact hanswer s _ k rx hs hcarries rfl rfl rfl

theorem draw_drained : Total (Drained d next) drawFid fun fid s => fid = next ∧ Drained d (next + 1) s := by
  refine draw_rule (fun s hs hnone => ?_) fun s pool hs hsome => ?_
  · obtain ⟨pool, hsome, -⟩ := hs.pool
    rw [hnone] at hsome
    cases hsome
  · obtain ⟨pool', hsome', hfree, rfl⟩ := hs.pool
    obtain rfl : pool = pool' := Option.some.inj (hsome.symm.trans hsome')
    rcases fidPoolAlloc_cases pool with ⟨fid, rest, hcons, -⟩ | ⟨-, halloc⟩
    · rw [hfree] at hcons
      cases hcons
    · rw [halloc]
      exact ⟨rfl, hs.disk, hs.rootFid, _, rfl, hfree, rfl⟩

/-- What the requests on the root's fid leave alone. -/
theorem getattr_rooted : Total (fun s : St (Disk Tree (List Str)) => s.h.rootFid = 0 ∧ s.h.fidPool ≠ none)
    (p9Getattr (v9pTransact ailing.fileServer) 0 p9GetattrBasic) fun _ s => s.h.rootFid = 0 ∧ s.h.fidPool ≠ none := by
  rw [p9Getattr_eq]
  exact request_served (m := .getattr 0 p9GetattrBasic) trivial (by simp [TMsg.body]) _
    fun s s' k rx hs _ _ hroot hpool => ⟨hroot.trans hs.1, hpool ▸ hs.2⟩

theorem clunk_uproots : Total (fun s : St (Disk Tree (List Str)) => s.h.rootFid = 0 ∧ s.h.fidPool ≠ none)
    (p9Clunk (v9pTransact ailing.fileServer) 0) fun _ => Uprooted := by
  rw [p9Clunk_eq]
  refine request_served (m := .clunk 0) trivial (by simp [TMsg.body]) _ fun s s' k rx hs _ hw hroot hpool =>
    ⟨?_, hroot.trans hs.1, hpool ▸ hs.2⟩
  rw [hw]
  exact Disk.release_self

theorem free_uprooted : Total Uprooted (freeFid ailing.fileServer 0) fun _ => Uprooted := by
  refine free_rule (fun s hs hnone => hs.pool hnone) fun s pool pool' w hs hsome hfree => ?_
  have hw := fidPoolFree_frame ailing.served.alloc pool 0 s.w
  rw [hfree] at hw
  refine ⟨?_, hs.rootFid, Option.some_ne_none _⟩
  rw [show w = s.w from hw]
  exact hs.unbound

end Requests

section Walks

variable {path name : Str} (hp : Ordinary path) (hpath : components path = [name])

include hp hpath

/-- The walk from the root to a name in it. -/
theorem walk_served {P : St (Disk Tree (List Str)) → Prop} {R : Except Int32 Unit → St (Disk Tree (List Str)) → Prop}
    (fid : UInt32)
    (hanswer : ∀ s s' k rx, P s → Carries (ailing.serve s.w (.walk 0 fid [name])).1 k rx →
      s'.w = (ailing.serve s.w (.walk 0 fid [name])).2 → s'.h.rootFid = s.h.rootFid → s'.h.fidPool = s.h.fidPool →
      Total (· = s') (walkEnd (v9pTransact ailing.fileServer) fid 1 (answer parseWalk k rx)) R) :
    Total P (p9Walk (v9pTransact ailing.fileServer) 0 fid path) R := by
  have hlen : name.length ≤ 255 := hp.names name (by rw [hpath]; exact List.mem_singleton_self _)
  have hwf : (TMsg.walk 0 fid [name]).Wf :=
    ⟨Nat.lt_of_le_of_lt (show [name].length ≤ 1 from Nat.le_refl 1) (by decide), fun n hn => by
      rw [List.mem_singleton.mp hn]
      omega⟩
  rw [p9Walk_of_not_refused _ _ _ hp.not_refused, hpath]
  refine Triple.bind (Q := fun r s => Total (· = s) (walkEnd (v9pTransact ailing.fileServer) fid 1 r) R)
    (request_served hwf (by simp [TMsg.body]; omega) parseWalk fun s s' k rx hs hcarries hw hroot hpool =>
      hanswer s s' k rx hs hcarries hw hroot hpool) fun r s hs => hs s rfl

/-- A walk that is answered with `EIO` costs a fid. -/
theorem getattr_leaks {d : Disk Tree (List Str)} {next : UInt32}
    (hserve : ailing.serve d (.walk 0 next [name]) = (.lerror 5, d)) :
    Total (Drained d next) (v9pGetattr ailing.fileServer path) fun _ => Drained d (next + 1) := by
  have hwalkTo : Total (Drained d next) (walkTo ailing.fileServer path) fun r s =>
      r = .error (-5) ∧ Drained d (next + 1) s := by
    refine walkTo_rule (B := fun _ r s => r = .error (-5) ∧ Drained d (next + 1) s) draw_drained
      (fun fid root s hs => ?_) (fun fid => ?_) (fun fid e he s hs => ?_) fun _ _ hs => by cases hs.1
    · obtain ⟨rfl, rfl, hs⟩ := hs
      rw [hs.rootFid]
      refine walk_served hp hpath fid (P := Drained d (fid + 1)) (fun s s' k rx hs hcarries hw hroot hpool => ?_) s hs
      rw [hs.disk, hserve] at hcarries hw
      rw [answer_lerror hcarries (by decide)]
      refine Triple.pure fun s'' hs'' => ⟨rfl, ?_⟩
      subst hs''
      exact ⟨hw, hroot.trans hs.rootFid, hpool ▸ hs.pool⟩
    · refine orphan_rule (fun s hs hnone => ?_) fun s pool pool' w hs hsome horphan => ⟨rfl, ?_⟩
      · obtain ⟨pool, hsome, -⟩ := hs.2.pool
        rw [hnone] at hsome
        cases hsome
      · obtain ⟨pool₀, hsome', hfree, hnext⟩ := hs.2.pool
        obtain rfl : pool = pool₀ := Option.some.inj (hsome.symm.trans hsome')
        obtain ⟨hnext', hfree'⟩ := fidPoolMarkOrphan_kept ailing.fileServer.allocVec pool fid s.w
        have hw := fidPoolMarkOrphan_frame ailing.served.alloc pool fid s.w
        rw [horphan] at hnext' hfree' hw
        exact ⟨hw.trans hs.2.disk, hs.2.rootFid, pool', rfl, hfree'.trans hfree, hnext'.trans hnext⟩
    · exact absurd (Except.error.inj hs.1) he
  refine Triple.bind (Q := fun _ => Drained d (next + 1)) (hwalkTo.bind fun r => ?_) fun _ => Triple.ret
  rintro s ⟨rfl, hs⟩
  exact hs

/-- With the root's fid next, a walk takes it, and in the end it is clunked. -/
theorem getattr_uproots {d : Disk Tree (List Str)} {x : Bound (List Str)}
    (hserve : ailing.serve d (.walk 0 0 [name]) = (.walk [FileSystem.qid], d.bind 0 x)) :
    Total (Drained d 0) (v9pGetattr ailing.fileServer path) fun _ => Uprooted := by
  have hwalkTo : Total (Drained d 0) (walkTo ailing.fileServer path) fun r s =>
      r = .ok 0 ∧ s.h.rootFid = 0 ∧ s.h.fidPool ≠ none := by
    refine walkTo_rule (B := fun fid r s => fid = 0 ∧ r = .ok () ∧ s.h.rootFid = 0 ∧ s.h.fidPool ≠ none) draw_drained
      (fun fid root s hs => ?_) (fun _ _ hs => by cases hs.2.1) (fun _ _ _ _ hs => by cases hs.2.1)
      fun fid s hs => ⟨by rw [hs.1], hs.2.2⟩
    obtain ⟨rfl, rfl, hs⟩ := hs
    rw [hs.rootFid]
    refine walk_served hp hpath 0 (P := Drained d (0 + 1)) (fun s s' k rx hs hcarries hw hroot hpool => ?_) s hs
    rw [hs.disk, hserve] at hcarries
    rw [answer_walk hcarries (by decide), List.length_singleton, walkEnd_full]
    obtain ⟨pool, hsome, -⟩ := hs.pool
    refine Triple.pure fun s'' hs'' => ⟨rfl, rfl, ?_⟩
    subst hs''
    exact ⟨hroot.trans hs.rootFid, by rw [hpool, hsome]; exact Option.some_ne_none _⟩
  refine Triple.bind (Q := fun _ => Uprooted) (hwalkTo.bind fun r => ?_) fun _ => Triple.ret
  rintro s ⟨rfl, hs⟩
  exact Triple.bind getattr_rooted (fun r => (clunk_uproots.bind fun _ => free_uprooted).bind fun _ => Triple.ret) s hs

/-- Then nothing can be walked to. -/
theorem getattr_uprooted : Total Uprooted (v9pGetattr ailing.fileServer path) fun r _ => Fails r := by
  have hdraw : Total Uprooted drawFid fun _ => Uprooted := by
    refine draw_rule (fun s hs hnone => hs.pool hnone) fun s pool hs _ => ?_
    exact ⟨hs.unbound, hs.rootFid, Option.some_ne_none _⟩
  have hwalkTo : Total Uprooted (walkTo ailing.fileServer path) fun r _ => Fails r := by
    refine walkTo_rule (B := fun _ r s => Fails r ∧ Uprooted s) hdraw (fun fid root s hs => ?_) (fun fid => ?_)
      (fun fid e _ => ?_) fun _ _ hs => absurd hs.1 not_fails_ok
    · obtain ⟨rfl, hs⟩ := hs
      rw [hs.rootFid]
      refine walk_served hp hpath fid (P := Uprooted) (fun s s' k rx hs hcarries hw hroot hpool => ?_) s hs
      rw [FileSystem.serve, FileSystem.onFid, hs.unbound] at hcarries hw
      rw [answer_lerror hcarries (by decide)]
      refine Triple.pure fun s'' hs'' => ⟨⟨_, by decide, rfl⟩, ?_⟩
      subst hs''
      exact ⟨by rw [hw]; exact hs.unbound, hroot.trans hs.rootFid, hpool ▸ hs.pool⟩
    · exact orphan_rule (fun s hs hnone => hs.2.pool hnone) fun _ _ _ _ hs _ _ => ⟨-5, by decide, rfl⟩
    · exact free_rule (fun s hs hnone => hs.2.pool hnone) fun _ _ _ _ hs _ _ => ⟨e, fails_error.mp hs.1, rfl⟩
  refine Triple.bind (Q := fun r _ => Fails r) (hwalkTo.bind fun r => ?_) fun r => ?_
  · rintro s ⟨e, he, rfl⟩
    exact ⟨e, he, rfl⟩
  · rintro s ⟨e, he, rfl⟩
    exact ⟨e, he, rfl⟩

end Walks

section Runs

variable {d : Disk Tree (List Str)} (hfs : d.fs = dirA) (hroot : d.fids 0 = some ⟨[], none⟩)

include hfs hroot

theorem serve_fileB (fid : UInt32) : ailing.serve d (.walk 0 fid [[0x62]]) = (.lerror 5, d) := by
  rw [FileSystem.serve, FileSystem.onFid_eq hroot, hfs]
  rfl

theorem serve_fileA (fid : UInt32) :
    ailing.serve d (.walk 0 fid [[0x61]]) = (.walk [FileSystem.qid], d.bind fid ⟨[[0x61]], none⟩) := by
  rw [FileSystem.serve, FileSystem.onFid_eq hroot, hfs]
  rfl

/-- Many walks to `/b`. -/
theorem run_leaks (k : Nat) (next : UInt32) (handles : List UInt32) :
    Total (Drained d next) (run ailing.fileServer handles (List.replicate k (.getattr fileB))) fun _ =>
      Drained d (next + UInt32.ofNat k) := by
  induction k generalizing next handles with
  | zero => exact Triple.pure fun s hs => by simpa using hs
  | succ k ih =>
    have hnext : next + 1 + UInt32.ofNat k = next + UInt32.ofNat (k + 1) := by
      rw [UInt32.ofNat_add, UInt32.add_assoc, UInt32.add_comm 1]
      rfl
    refine Triple.bind (Q := fun _ => Drained d (next + 1)) ?_ fun r => ?_
    · exact (getattr_leaks ordinary_fileB (show components fileB = [[0x62]] by decide)
        (serve_fileB hfs hroot next)).bind fun _ => Triple.ret
    · rw [← hnext]
      exact (ih (next + 1) r.2).bind fun _ => Triple.ret

/-- The last of the calls fails. -/
theorem run_last (handles : List UInt32) :
    Total (Drained d 0) (run ailing.fileServer handles [.getattr fileA, .getattr fileA]) fun r _ =>
      ∃ o o', r.1 = [o, o'] ∧ o'.value = none := by
  refine Triple.bind (Q := fun _ => Uprooted) ?_ fun r => ?_
  · exact (getattr_uproots ordinary_fileA (show components fileA = [[0x61]] by decide) (serve_fileA hfs hroot 0)).bind
      fun _ => Triple.ret
  refine Triple.bind (Q := fun r' _ => ∃ o', r'.1 = [o'] ∧ o'.value = none) ?_ fun r' => ?_
  · refine Triple.bind (Q := fun r' _ => r'.1.value = none) ?_ fun r' => Triple.pure fun s hs => ⟨r'.1, rfl, hs⟩
    refine (getattr_uprooted ordinary_fileA (show components fileA = [[0x61]] by decide)).bind fun r => ?_
    rintro s ⟨e, he, rfl⟩
    exact if_pos he
  · rintro s ⟨o', hr', ho'⟩
    exact ⟨r.1, o', by rw [hr'], ho'⟩

end Runs

theorem direct_fileB : direct ailing [] ⟨dirA, []⟩ (.getattr fileB) = (none, ⟨dirA, []⟩) := rfl

theorem direct_fileA : direct ailing [] ⟨dirA, []⟩ (.getattr fileA) =
    (some (.stat (ailing.getattr dirA [[0x61]])), ⟨dirA, []⟩) := rfl

theorem directRun_leaks (k : Nat) :
    (directRun ailing [] ⟨dirA, []⟩ (List.replicate k (.getattr fileB))).2 = ⟨dirA, []⟩ := by
  induction k with
  | zero => rfl
  | succ k ih => rw [List.replicate_succ, directRun, direct_fileB, ih]

theorem inScope_leaks (k : Nat) :
    RunInScope ailing [] ⟨dirA, []⟩ (List.replicate k (.getattr fileB) ++ [.getattr fileA, .getattr fileA]) := by
  induction k with
  | zero => exact ⟨ordinary_fileA, ordinary_fileA, trivial⟩
  | succ k ih => exact ⟨ordinary_fileB, ih⟩

end Tree

/-- **The fids run out**: after `2 ^ 32 - 1` walks that were answered with `EIO` the root's fid is handed out for a walk
to `/a` and clunked after it, and from then on `/a` cannot be found. -/
theorem fids_run_out : ∃ k os o handles s', k = 4294967295 ∧
    RunInScope Tree.ailing [] ⟨Tree.dirA, []⟩
      (List.replicate k (.getattr Tree.fileB) ++ [.getattr Tree.fileA, .getattr Tree.fileA]) ∧
    run Tree.ailing.fileServer [] (List.replicate k (.getattr Tree.fileB) ++ [.getattr Tree.fileA, .getattr Tree.fileA])
      (Tree.mounted Tree.dirA) = .ok (os ++ [o], handles) s' ∧ o.value = none ∧
    (directRun Tree.ailing [] ⟨Tree.dirA, []⟩
      (List.replicate k (.getattr Tree.fileB) ++ [.getattr Tree.fileA, .getattr Tree.fileA])).1.getLast? =
      some (some (.stat (Tree.ailing.getattr Tree.dirA [[0x61]]))) := by
  obtain ⟨k, hk⟩ : ∃ k, k = 4294967295 := ⟨_, rfl⟩
  have hmounted : Tree.Drained Tree.dirA.disk 1 (Tree.mounted Tree.dirA) := ⟨rfl, rfl, freshPool, rfl, rfl, rfl⟩
  obtain ⟨r, s, hrun, hs⟩ := (Tree.run_leaks (d := Tree.dirA.disk) rfl rfl k 1 []).run hmounted
  rw [show 1 + UInt32.ofNat k = 0 by rw [hk]; decide] at hs
  obtain ⟨r', s', hrun', o, o', hr', ho'⟩ := (Tree.run_last (d := Tree.dirA.disk) rfl rfl r.2).run hs
  refine ⟨k, r.1 ++ [o], o', r'.2, s', hk, Tree.inScope_leaks k, ?_, ho', ?_⟩
  · rw [run_append, run_bind_ok hrun, run_bind_ok hrun', hr', List.append_assoc]
    rfl
  · rw [directRun_append, Tree.directRun_leaks, directRun, Tree.direct_fileA]
    simp only [directRun, Tree.direct_fileA]
    rw [List.getLast?_append_of_ne_nil _ (List.cons_ne_nil _ _)]
    rfl

end Virtio9P
