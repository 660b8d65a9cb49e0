import Virtio9P.Tree

/-!
# Changing attributes

`chmod`, `chown`, `truncate`, `ftruncate` and `utimens` send one `Tsetattr` each, `chmod` after asking for the mode. On
a server that changes what the mask of a `Tsetattr` selects and nothing else (`SetsExactly`), each of them changes its
own attribute of the one node and nothing else, the fields that a following `getattr` fills in show this, as far as they
are wide, and calls for different attributes commute (`attributes_framed`).
-/

namespace Virtio9P

open Lib

variable {W F N : Type}

/-! ## What a `Tsetattr` does -/

/-- The attributes selected by the mask get their new values, and the others stay. A time that is selected but not given
is the server's. -/
structure Sets (a : P9Iattr) (st st' : P9Stat) : Prop where
  mode : st'.mode = if a.valid &&& p9SetattrMode ≠ 0 then a.mode else st.mode
  uid : st'.uid = if a.valid &&& p9SetattrUid ≠ 0 then a.uid else st.uid
  gid : st'.gid = if a.valid &&& p9SetattrGid ≠ 0 then a.gid else st.gid
  size : st'.size = if a.valid &&& p9SetattrSize ≠ 0 then a.size else st.size
  atime : a.valid &&& p9SetattrAtime = 0 → st'.atimeSec = st.atimeSec ∧ st'.atimeNsec = st.atimeNsec
  atimeSet : a.valid &&& p9SetattrAtime ≠ 0 → a.valid &&& p9SetattrAtimeSet ≠ 0 →
    st'.atimeSec = a.atimeSec ∧ st'.atimeNsec = a.atimeNsec
  mtime : a.valid &&& p9SetattrMtime = 0 → st'.mtimeSec = st.mtimeSec ∧ st'.mtimeNsec = st.mtimeNsec
  mtimeSet : a.valid &&& p9SetattrMtime ≠ 0 → a.valid &&& p9SetattrMtimeSet ≠ 0 →
    st'.mtimeSec = a.mtimeSec ∧ st'.mtimeNsec = a.mtimeNsec
  ctime : a.valid &&& 0x40 = 0 → st'.ctimeSec = st.ctimeSec ∧ st'.ctimeNsec = st.ctimeNsec
  rest : st'.valid = st.valid ∧ st'.qid = st.qid ∧ st'.nlink = st.nlink ∧ st'.rdev = st.rdev ∧
    st'.blksize = st.blksize ∧ st'.blocks = st.blocks ∧ st'.btimeSec = st.btimeSec ∧ st'.btimeNsec = st.btimeNsec ∧
    st'.gen = st.gen ∧ st'.dataVersion = st.dataVersion

/-- `f'` is `f` but for the attributes of the node and, if `cut`, its data. -/
structure SameBut (sys : FileSystem F N) (n : N) (cut : Prop) (f f' : F) : Prop where
  lookup : ∀ m name, sys.lookup f' m name = sys.lookup f m name
  getattr : ∀ m, m ≠ n → sys.getattr f' m = sys.getattr f m
  readlink : ∀ m, sys.readlink f' m = sys.readlink f m
  read : ∀ m flags, m ≠ n ∨ ¬ cut → sys.read f' m flags = sys.read f m flags

/-- A `Tsetattr` that is carried out changes exactly what its mask selects; what a new size makes of the data depends on
the data and the size alone. -/
structure SetsExactly (sys : FileSystem F N) : Prop where
  sets : ∀ f n a f', sys.setattr f n a = .ok f' →
    Sets a (sys.getattr f n) (sys.getattr f' n) ∧ SameBut sys n (a.valid &&& p9SetattrSize ≠ 0) f f'
  resizes : ∀ f g n a f' g', sys.setattr f n a = .ok f' → sys.setattr g n a = .ok g' →
    sys.read f n = sys.read g n → sys.read f' n = sys.read g' n

/-! ## The callbacks -/

/-- A call of a callback that changes attributes. -/
inductive AttrOp where
  | chmod (path : Str) (mode : UInt32)
  | chown (path : Str) (uid gid : UInt32)
  | truncate (path : Str) (size : UInt64)
  | ftruncate (fh : UInt32) (size : UInt64)
  | utimens (path : Str) (atimeSec atimeNsec mtimeSec mtimeNsec : UInt64)

/-- The attributes that a call is for. -/
inductive AttrKind where
  | mode
  | owner
  | size
  | times
  deriving DecidableEq

namespace AttrOp

/-- The call, with its return code. -/
def call (L : Link W) : AttrOp → Client W (Except Int32 Unit)
  | chmod path mode => v9pChmod L path mode
  | chown path uid gid => v9pChown L path uid gid
  | truncate path size => (·.map fun _ => ()) <$> v9pTruncate L path size
  | ftruncate fh size => (·.map fun _ => ()) <$> v9pFtruncate L fh size
  | utimens path atimeSec atimeNsec mtimeSec mtimeNsec => v9pUtimens L path atimeSec atimeNsec mtimeSec mtimeNsec

/-- What it is for. -/
def kind : AttrOp → AttrKind
  | chmod .. => .mode
  | chown .. => .owner
  | truncate .. | ftruncate .. => .size
  | utimens .. => .times

/-- The node it is about: where the path leads within the limits of `P9_Walk`, or what the handle stands for. -/
def target (sys : FileSystem F N) (root : N) (d : Disk F N) : AttrOp → Option N
  | chmod path _ | chown path .. | truncate path _ | utimens path .. => sys.reach d.fs root path
  | ftruncate fh _ => (d.fids fh).map (·.node)

/-- What it is to do to the attributes. -/
def Effect (st st' : P9Stat) : AttrOp → Prop
  | chmod _ mode => st'.mode &&& ~~~0xFFF = st.mode &&& ~~~0xFFF ∧ st'.mode &&& 0xFFF = mode &&& 0xFFF ∧
      st' = { st with mode := st'.mode }
  | chown _ uid gid => st' = { st with uid := uid, gid := gid }
  | truncate _ size | ftruncate _ size => st' = { st with size := size }
  | utimens _ atimeSec atimeNsec mtimeSec mtimeNsec =>
      st' = { st with atimeSec := atimeSec, atimeNsec := atimeNsec, mtimeSec := mtimeSec, mtimeNsec := mtimeNsec }

/-- The `Tsetattr` it sends, for a file with the attributes `st`. -/
def iattr (st : P9Stat) : AttrOp → P9Iattr
  | chmod _ mode => { valid := p9SetattrMode, mode := (st.mode &&& ~~~0xFFF) ||| (mode &&& 0xFFF) }
  | chown _ uid gid => { valid := p9SetattrUid ||| p9SetattrGid, uid := uid, gid := gid }
  | truncate _ size | ftruncate _ size => { valid := p9SetattrSize, size := size }
  | utimens _ atimeSec atimeNsec mtimeSec mtimeNsec =>
      { valid := p9SetattrAtime ||| p9SetattrAtimeSet ||| p9SetattrMtime ||| p9SetattrMtimeSet
        atimeSec := atimeSec
        atimeNsec := atimeNsec
        mtimeSec := mtimeSec
        mtimeNsec := mtimeNsec }

/-- The attributes it leaves. -/
def effect (st : P9Stat) : AttrOp → P9Stat
  | chmod _ mode => { st with mode := (st.mode &&& ~~~0xFFF) ||| (mode &&& 0xFFF) }
  | chown _ uid gid => { st with uid := uid, gid := gid }
  | truncate _ size | ftruncate _ size => { st with size := size }
  | utimens _ atimeSec atimeNsec mtimeSec mtimeNsec =>
      { st with atimeSec := atimeSec, atimeNsec := atimeNsec, mtimeSec := mtimeSec, mtimeNsec := mtimeNsec }

end AttrOp

theorem merge_bits (a b k : UInt32) :
    ((a &&& ~~~k) ||| (b &&& k)) &&& ~~~k = a &&& ~~~k ∧ ((a &&& ~~~k) ||| (b &&& k)) &&& k = b &&& k := by
  constructor
  · apply UInt32.eq_of_toBitVec_eq
    ext i
    simp
    grind
  · apply UInt32.eq_of_toBitVec_eq
    ext i
    simp
    grind

namespace AttrOp

variable (op op' : AttrOp) (st : P9Stat)

theorem effect_spec : op.Effect st (op.effect st) := by
  cases op with
  | chmod path mode => exact ⟨(merge_bits st.mode mode 0xFFF).1, (merge_bits st.mode mode 0xFFF).2, rfl⟩
  | _ => rfl

/-- Its `Tsetattr` does what it is to do. -/
theorem effect_of_sets {st' : P9Stat} (h : Sets (op.iattr st) st st') : st' = op.effect st := by
  obtain ⟨hmode, huid, hgid, hsize, hatime, hatimeSet, hmtime, hmtimeSet, hctime, hrest⟩ := h
  obtain ⟨valid', qid', mode', uid', gid', nlink', rdev', size', blksize', blocks', atimeSec', atimeNsec', mtimeSec',
    mtimeNsec', ctimeSec', ctimeNsec', btimeSec', btimeNsec', gen', dataVersion'⟩ := st'
  cases op <;> simp_all +decide [iattr, effect, p9SetattrMode, p9SetattrUid, p9SetattrGid, p9SetattrSize,
    p9SetattrAtime, p9SetattrAtimeSet, p9SetattrMtime, p9SetattrMtimeSet]

theorem effect_comm (h : op.kind ≠ op'.kind) : op.effect (op'.effect st) = op'.effect (op.effect st) := by
  cases op <;> cases op' <;> first | rfl | exact absurd rfl h

end AttrOp

/-! ## On a server -/

section Served

variable {L : Link W} {sys : FileSystem F N}

theorem SameBut.reach {n : N} {cut : Prop} {f f' : F} (h : SameBut sys n cut f f') (root : N) (path : Str) :
    sys.reach f' root path = sys.reach f root path := by
  have hlookup : sys.lookup f' = sys.lookup f := funext fun m => funext fun name => h.lookup m name
  unfold FileSystem.reach FileSystem.resolve
  rw [hlookup]

variable (S : Served L sys) {root : N} {v : UInt32} {held : List UInt32} {n : Nat} {d : Disk F N}

theorem withFid_setattr {path : Str} {m : N} (hm : sys.reach d.fs root path = some m) (attr : P9Iattr) :
    Total (Session S root v held (n + 1) d) (withFid L path fun fid => p9Setattr (v9pTransact L) fid attr)
      (Did S root v held n d (sys.setattr d.fs m attr) (fun _ => ()) d.put) :=
  withFid_does S root v held n d hm fun fid => setattr_session S root v (fid :: held) n _ Disk.bind_self attr

/-- A call is its `Tsetattr`. -/
theorem AttrOp.call_session {op : AttrOp} {m : N} (hm : op.target sys root d = some m) :
    Total (Session S root v held (n + 1) d) (op.call L)
      (Did S root v held n d (sys.setattr d.fs m (op.iattr (sys.getattr d.fs m))) (fun _ => ()) d.put) := by
  cases op with
  | chmod path mode =>
    refine withFid_does S root v held n d hm fun fid => ?_
    refine (getattr_session S root v (fid :: held) n _ Disk.bind_self p9GetattrMode).bind fun r s hs => ?_
    obtain ⟨⟨st, rfl, hst⟩, hs⟩ := hs
    simp only [show st.mode = _ from hst.mode (by decide)]
    exact setattr_session S root v (fid :: held) n _ Disk.bind_self _ s hs
  | chown path uid gid => exact withFid_setattr S hm _
  | truncate path size =>
    refine Triple.mapped ((withFid_setattr S hm _).bind fun r => Triple.pure fun s hs => ?_)
    exact (hs.map S root v held n d _).map S root v held n d fun _ => ()
  | ftruncate fh size =>
    obtain ⟨x, hx, rfl⟩ := Option.map_eq_some_iff.mp hm
    refine Triple.mapped (((setattr_session S root v held n d hx _).pre fun s hs => hs.mono (Nat.le_succ n)).bind
      fun r => Triple.pure fun s hs => ?_)
    exact (hs.map S root v held n d _).map S root v held n d fun _ => ()
  | utimens path as an ms mn => exact withFid_setattr S hm _

variable {S}

/-- A call that reports success has changed the file system as its `Tsetattr` does. -/
theorem AttrOp.call_ok {op : AttrOp} {m : N} {s s' : St W} (hs : Session S root v held (n + 1) d s)
    (hm : op.target sys root d = some m) (hcall : op.call L s = .ok (.ok ()) s') :
    ∃ f, sys.setattr d.fs m (op.iattr (sys.getattr d.fs m)) = .ok f ∧ Session S root v held n (d.put f) s' := by
  have h := (AttrOp.call_session S hm).ok hs hcall
  cases hres : sys.setattr d.fs m (op.iattr (sys.getattr d.fs m)) with
  | ok f =>
    rw [hres] at h
    exact ⟨f, rfl, h.2⟩
  | error e =>
    rw [hres] at h
    cases h.1

/-- On a server that sets exactly, the call has its effect on the node and no other. -/
theorem SetsExactly.effect (hsys : SetsExactly sys) {op : AttrOp} {f f' : F} {m : N}
    (h : sys.setattr f m (op.iattr (sys.getattr f m)) = .ok f') :
    sys.getattr f' m = op.effect (sys.getattr f m) ∧ SameBut sys m (op.kind = .size) f f' := by
  obtain ⟨hsets, hlookup, hgetattr, hreadlink, hread⟩ := hsys.sets f m _ f' h
  refine ⟨op.effect_of_sets _ hsets, hlookup, hgetattr, hreadlink, fun k flags hk => hread k flags (hk.imp_right ?_)⟩
  intro hcut hsize
  cases op with
  | truncate | ftruncate => exact hcut rfl
  | chmod | chown | utimens => exact hsize (by simp only [AttrOp.iattr]; decide)

theorem AttrOp.target_put {op : AttrOp} {m : N} {cut : Prop} {f : F} (h : SameBut sys m cut d.fs f) :
    op.target sys root (d.put f) = op.target sys root d := by
  cases op with
  | ftruncate => rfl
  | chmod path | chown path | truncate path | utimens path => exact h.reach root path

end Served

/-- The names, the attributes, the data and the links are the same. -/
structure SameFiles (sys : FileSystem F N) (f f' : F) : Prop where
  lookup : ∀ m name, sys.lookup f' m name = sys.lookup f m name
  getattr : ∀ m, sys.getattr f' m = sys.getattr f m
  readlink : ∀ m, sys.readlink f' m = sys.readlink f m
  read : ∀ m, sys.read f' m = sys.read f m

/-- And so are the fids. -/
def SameView (sys : FileSystem F N) (d d' : Disk F N) : Prop := d'.fids = d.fids ∧ SameFiles sys d.fs d'.fs

/-- A call for another attribute sends the same whether the size was changed or not. -/
theorem AttrOp.iattr_size {op : AttrOp} (h : op.kind = .size) (st st' : P9Stat) : op.iattr st = op.iattr st' := by
  cases op with
  | truncate | ftruncate => rfl
  | chmod | chown | utimens => cases h

/-- What a call for the size makes of the data does not depend on calls for other attributes. -/
theorem SetsExactly.read_comm {sys : FileSystem F N} (hsys : SetsExactly sys) {op op' : AttrOp} {m m' : N}
    {f f₁ f₁₂ f₂ f₂₁ : F} (h₁ : sys.setattr f m (op.iattr (sys.getattr f m)) = .ok f₁)
    (h₁₂ : sys.setattr f₁ m' (op'.iattr (sys.getattr f₁ m')) = .ok f₁₂)
    (h₂ : sys.setattr f m' (op'.iattr (sys.getattr f m')) = .ok f₂)
    (h₂₁ : sys.setattr f₂ m (op.iattr (sys.getattr f₂ m)) = .ok f₂₁) (hsize : op'.kind ≠ .size) (k : N) :
    sys.read f₂₁ k = sys.read f₁₂ k := by
  have hother : ∀ {f g : F}, sys.setattr f m' (op'.iattr (sys.getattr f m')) = .ok g → sys.read g k = sys.read f k :=
    fun h => funext fun flags => (hsys.effect h).2.read k flags (.inr hsize)
  rw [hother h₁₂]
  by_cases hcut : k = m ∧ op.kind = .size
  · obtain ⟨rfl, hop⟩ := hcut
    rw [op.iattr_size hop _ (sys.getattr f k)] at h₂₁
    exact hsys.resizes f₂ f k _ f₂₁ f₁ h₂₁ h₁ (hother h₂)
  · have hkept : ∀ {f g : F}, sys.setattr f m (op.iattr (sys.getattr f m)) = .ok g → sys.read g k = sys.read f k :=
      fun h => funext fun flags => (hsys.effect h).2.read k flags (not_and_or.mp hcut)
    rw [hkept h₂₁, hkept h₁, hother h₂]

/-- Two calls for different attributes have the same effect in either order. -/
theorem effects_comm {sys : FileSystem F N} (hsys : SetsExactly sys) {op op' : AttrOp} (hkind : op.kind ≠ op'.kind)
    {m m' : N} {f f₁ f₁₂ f₂ f₂₁ : F} (h₁ : sys.setattr f m (op.iattr (sys.getattr f m)) = .ok f₁)
    (h₁₂ : sys.setattr f₁ m' (op'.iattr (sys.getattr f₁ m')) = .ok f₁₂)
    (h₂ : sys.setattr f m' (op'.iattr (sys.getattr f m')) = .ok f₂)
    (h₂₁ : sys.setattr f₂ m (op.iattr (sys.getattr f₂ m)) = .ok f₂₁) : SameFiles sys f₁₂ f₂₁ := by
  obtain ⟨he₁, hb₁⟩ := hsys.effect h₁
  obtain ⟨he₁₂, hb₁₂⟩ := hsys.effect h₁₂
  obtain ⟨he₂, hb₂⟩ := hsys.effect h₂
  obtain ⟨he₂₁, hb₂₁⟩ := hsys.effect h₂₁
  refine ⟨fun k name => ?_, fun k => ?_, fun k => ?_, fun k => ?_⟩
  · rw [hb₂₁.lookup, hb₂.lookup, hb₁₂.lookup, hb₁.lookup]
  rotate_left
  · rw [hb₂₁.readlink, hb₂.readlink, hb₁₂.readlink, hb₁.readlink]
  · -- one of the two is not for the size
    by_cases hsize : op'.kind = .size
    · exact (hsys.read_comm h₂ h₂₁ h₁ h₁₂ (fun hop => hkind (hop.trans hsize.symm)) k).symm
    · exact hsys.read_comm h₁ h₁₂ h₂ h₂₁ hsize k
  by_cases hm : k = m
  · subst hm
    by_cases hm' : k = m'
    · subst hm'
      rw [he₂₁, he₂, he₁₂, he₁, op.effect_comm op' _ hkind]
    · rw [he₂₁, hb₂.getattr k hm', hb₁₂.getattr k hm', he₁]
  · by_cases hm' : k = m'
    · subst hm'
      rw [hb₂₁.getattr k hm, he₂, he₁₂, hb₁.getattr k hm]
    · rw [hb₂₁.getattr k hm, hb₂.getattr k hm', hb₁₂.getattr k hm', hb₁.getattr k hm]

/-- **A call that changes an attribute changes only that attribute, of only that node**; a server that refuses it leaves
all as it was. The fields of a following `getattr` show the attributes as they are then, and calls for different
attributes have the same effect in either order. -/
theorem attributes_framed {L : Link W} {sys : FileSystem F N} (S : Served L sys) (hsys : SetsExactly sys) {root : N}
    {v : UInt32} {held : List UInt32} {d : Disk F N} {s : St W} (hs : Session S root v held 2 d s) (op : AttrOp)
    (node : N) (hnode : op.target sys root d = some node) :
    ∃ r s', op.call L s = .ok r s' ∧
      ((∃ e, sys.setattr d.fs node (op.iattr (sys.getattr d.fs node)) = .error e ∧ r = .error (-e.val.toInt32) ∧
          Session S root v held 1 d s') ∨
        r = .ok () ∧ ∃ f, Session S root v held 1 (d.put f) s' ∧
          op.Effect (sys.getattr d.fs node) (sys.getattr f node) ∧ SameBut sys node (op.kind = .size) d.fs f ∧
          (∀ path m, sys.reach d.fs root path = some m →
            ∃ st s'', v9pGetattr L path s' = .ok (.ok st) s'' ∧ st.Shows L.widths (sys.getattr f m)) ∧
          ∀ (op' : AttrOp) (node' : N), op'.target sys root d = some node' → op'.kind ≠ op.kind →
            ∀ s₁₂ s₂ s₂₁, op'.call L s' = .ok (.ok ()) s₁₂ → op'.call L s = .ok (.ok ()) s₂ →
              op.call L s₂ = .ok (.ok ()) s₂₁ → SameView sys (S.disk s₁₂.w) (S.disk s₂₁.w)) := by
  obtain ⟨r, s', hcall, hdid⟩ := (AttrOp.call_session S hnode).run hs
  refine ⟨r, s', hcall, ?_⟩
  cases hres : sys.setattr d.fs node (op.iattr (sys.getattr d.fs node)) with
  | error e =>
    rw [hres] at hdid
    exact .inl ⟨e, rfl, hdid.1, hdid.2⟩
  | ok f =>
    rw [hres] at hdid
    obtain ⟨heffect, hbut⟩ := hsys.effect hres
    refine .inr ⟨hdid.1, f, hdid.2, heffect ▸ op.effect_spec _, hbut, fun path m hm => ?_, ?_⟩
    · have hm' : sys.reach (d.put f).fs root path = some m := (hbut.reach root path).trans hm
      obtain ⟨_, s'', hget, rfl, -⟩ := (getattr_found S root v held 0 (d.put f) hm').run hdid.2
      exact ⟨_, s'', hget, p9statToFbxstat_shows _ _⟩
    · intro op' node' hnode' hkind s₁₂ s₂ s₂₁ hcall₁₂ hcall₂ hcall₂₁
      obtain ⟨f₁₂, hf₁₂, hs₁₂⟩ := AttrOp.call_ok hdid.2 ((AttrOp.target_put hbut).trans hnode') hcall₁₂
      obtain ⟨f₂, hf₂, hs₂⟩ := AttrOp.call_ok hs hnode' hcall₂
      obtain ⟨f₂₁, hf₂₁, hs₂₁⟩ := AttrOp.call_ok hs₂ ((AttrOp.target_put (hsys.effect hf₂).2).trans hnode) hcall₂₁
      rw [hs₁₂.disk, hs₂₁.disk]
      exact ⟨rfl, effects_comm hsys hkind.symm hres hf₁₂ hf₂ hf₂₁⟩

/-! ## An example -/

namespace Tree

variable (f : Tree) (n : List Str) (a : P9Iattr) (i : Inode)

theorem sets_setStat (st : P9Stat) : Sets a st (setStat a st) := by
  refine ⟨rfl, rfl, rfl, rfl, fun h => ?_, fun h h' => ?_, fun h => ?_, fun h h' => ?_, fun _ => ⟨rfl, rfl⟩,
    rfl, rfl, rfl, rfl, rfl, rfl, rfl, rfl, rfl, rfl⟩
  · exact ⟨if_neg fun h' => h'.1 h, if_neg fun h' => h'.1 h⟩
  · exact ⟨if_pos ⟨h, h'⟩, if_pos ⟨h, h'⟩⟩
  · exact ⟨if_neg fun h' => h'.1 h, if_neg fun h' => h'.1 h⟩
  · exact ⟨if_pos ⟨h, h'⟩, if_pos ⟨h, h'⟩⟩

/-- Another inode of the same kind does not change what is found. -/
theorem find_set {j : Inode} (hj : f.inodes n = some j) (hdir : i.dir = j.dir) (m : List Str) (name : Str) :
    (f.set n i).find m name = f.find m name := by
  have hisDir : (f.set n i).isDir m = f.isDir m := by
    unfold isDir
    by_cases h : m = n
    · rw [h, set_self, hj]
      exact hdir
    · rw [set_of_ne h]
  have hsome : ((f.set n i).inodes (m ++ [name])).isSome = (f.inodes (m ++ [name])).isSome := by
    by_cases h : m ++ [name] = n
    · rw [h, set_self, hj]
      rfl
    · rw [set_of_ne h]
  unfold find
  rw [hisDir, hsome]

/-- A `Tsetattr` gives the node another inode. -/
theorem setattr_ok {f f' : Tree} {n : List Str} {a : P9Iattr} (h : fileSystem.setattr f n a = .ok f') :
    ∃ i, f.inodes n = some i ∧ f' = f.set n { i with attr := setStat a i.attr, data := setData a i.data } := by
  unfold fileSystem withInode at h
  cases hi : f.inodes n with
  | none => simp [hi] at h
  | some i => exact ⟨i, rfl, by simpa [hi, eq_comm] using h⟩

/-- What can be read of a node that is there. -/
theorem read_eq {f : Tree} {n : List Str} {i : Inode} (hi : f.inodes n = some i) (flags : UInt32) :
    fileSystem.read f n flags = if i.dir then .error ⟨21, by decide⟩
      else if flags &&& 3 = 1 then .error ⟨9, by decide⟩ else .ok i.data := by
  simp [fileSystem, withFile, withInode, hi]

theorem setsExactly : SetsExactly fileSystem where
  sets f n a f' h := by
    obtain ⟨i, hi, rfl⟩ := setattr_ok h
    refine ⟨?_, find_set f n _ hi rfl, fun m hm => ?_, fun _ => rfl, fun m flags hm => ?_⟩
    · have hold : fileSystem.getattr f n = i.attr := by simp [fileSystem, hi]
      have hnew : fileSystem.getattr (f.set n { i with attr := setStat a i.attr, data := setData a i.data }) n =
          setStat a i.attr := by simp [fileSystem, set_self]
      rw [hold, hnew]
      exact sets_setStat a i.attr
    · simp [fileSystem, set_of_ne hm]
    · by_cases hmn : m = n
      · have hdata : setData a i.data = i.data := if_neg (hm.resolve_left (fun h => h hmn))
        rw [hmn, read_eq set_self, read_eq hi, hdata]
      · simp [fileSystem, withFile, withInode, set_of_ne hmn]
  resizes f g n a f' g' hf hg hread := by
    obtain ⟨i, hi, rfl⟩ := setattr_ok hf
    obtain ⟨j, hj, rfl⟩ := setattr_ok hg
    -- an open for reading shows whether there is a directory, and the data
    have hsame := congrFun hread 0
    rw [read_eq hi, read_eq hj] at hsame
    funext flags
    rw [read_eq set_self, read_eq set_self]
    cases hdi : i.dir <;> cases hdj : j.dir <;> simp [hdi, hdj] at hsame ⊢
    rw [hsame]

end Tree

/-- `chmod` of the root directory, from `040755` with `0600`, and `getattr` after it. -/
theorem chmod_root :
    ∃ s', (AttrOp.chmod [slash] 0x180).call Tree.fileSystem.fileServer (Tree.mounted (Tree.ofDirs [[]])) =
      .ok (.ok ()) s' ∧ (Tree.fileSystem.getattr s'.w.fs []).mode &&& ~~~0xFFF = 0x4000 ∧
      (Tree.fileSystem.getattr s'.w.fs []).mode &&& 0xFFF = 0x180 ∧
      ∃ st s'', v9pGetattr Tree.fileSystem.fileServer [slash] s' = .ok (.ok st) s'' ∧
        st.mode = (Tree.fileSystem.getattr s'.w.fs []).mode := by
  obtain ⟨r, s', hcall, ⟨e, he, -⟩ | ⟨rfl, f, hs, ⟨hkept, hset, -⟩, -, hget, -⟩⟩ := attributes_framed
    Tree.fileSystem.served Tree.setsExactly (Tree.session_mounted (Tree.ofDirs [[]]) 2 (by decide))
    (.chmod [slash] 0x180) [] rfl
  · cases he
  · obtain ⟨st, s'', hgetattr, hshows⟩ := hget [slash] [] rfl
    have hmode := hshows.mode
    rw [show Tree.fileSystem.fileServer.widths.mode = 32 from rfl, Nat.mod_eq_of_lt (UInt32.toNat_lt _)] at hmode
    rw [← show s'.w.fs = f from congrArg Disk.fs hs.disk] at hkept hset hmode
    exact ⟨s', hcall, hkept, hset, st, s'', hgetattr, UInt32.toNat_inj.mp hmode⟩

end Virtio9P
