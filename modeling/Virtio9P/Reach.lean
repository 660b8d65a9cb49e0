import Virtio9P.Targets
import Virtio9P.Tree

/-!
# What was created can be reached

`create` and `mkdir` walk to the parent of their path and name the last component in it; `getattr` walks along the whole
path. A path can be just short enough for the one route and too long for the other, and a name that was cut is another
name. `created_reached_iff` says for which paths the two routes agree on every server: those that are refused anyway,
and those that `P9_Walk` takes as a whole and `split_path` does not cut. `deep_mkdir` makes a directory at a depth of
seventeen, where it cannot be found.

The walk to the parent may pass `.` and `..`. `canon` works them off, and a path that passes the node that it is to
create (`Passes`) is refused by every server, since the node is there.
-/

namespace Virtio9P

open Lib

variable {W F N : Type}

/-! ## `.` and `..` -/

/-- One step from a node, by its names from the root. -/
def stepName (n : List Str) (name : Str) : List Str :=
  if name = dot then n else if name = dotdot then n.dropLast else n ++ [name]

/-- Where a walk from the root along the names ends, without `.` and `..`. -/
def canon (names : List Str) : List Str := names.foldl stepName []

theorem canon_concat (names : List Str) (name : Str) : canon (names ++ [name]) = stepName (canon names) name := by
  unfold canon
  rw [List.foldl_append]
  rfl

theorem stepName_of_ne (n : List Str) {name : Str} (h : name ≠ dot) (h' : name ≠ dotdot) :
    stepName n name = n ++ [name] := by
  unfold stepName
  rw [if_neg h, if_neg h']

/-- No dots are left. -/
theorem canon_clean (names : List Str) : ∀ name ∈ canon names, name ≠ dot ∧ name ≠ dotdot := by
  induction names using List.reverseRecOn with
  | nil => exact fun name h => absurd h List.not_mem_nil
  | append_singleton names nm ih =>
    rw [canon_concat]
    unfold stepName
    split
    · exact ih
    · split
      · exact fun name h => ih name (List.mem_of_mem_dropLast h)
      · intro name h
        rcases List.mem_append.mp h with h | h
        · exact ih name h
        · rw [List.mem_singleton.mp h]
          exact ⟨‹_›, ‹_›⟩

/-! ## Making entries -/

/-- The node `m` was made, with the name in the directory `n`. -/
def Makes (sys : FileSystem F N) (f : F) (n : N) (name : Str) (m : N) (f' : F) : Prop :=
  (∃ flags mode, sys.lcreate f n name flags mode = .ok (m, f')) ∨ ∃ mode, sys.mkdir f n name mode = .ok (m, f')

/-- What is made is found, and what was found stays. Nothing is made over a directory, `.` is a directory itself, and
`..` the one above. -/
structure MakesEntries (sys : FileSystem F N) (root : N) : Prop where
  found : ∀ {f n name m f'}, Makes sys f n name m f' → sys.lookup f' n name = some m
  kept : ∀ {f n name m f'}, Makes sys f n name m f' → ∀ {k nm j}, sys.lookup f k nm = some j →
    sys.lookup f' k nm = some j
  named : ∀ {f n name m f'}, Makes sys f n name m f' → name ≠ dot ∧ name ≠ dotdot
  noDir : ∀ {f n name m f'}, Makes sys f n name m f' → ∀ {k nm}, sys.lookup f n name = some k → sys.lookup f k nm = none
  here : ∀ {f n m}, sys.lookup f n dot = some m → m = n
  above : ∀ {f n name m k}, name ≠ dot → name ≠ dotdot → sys.lookup f n name = some m →
    sys.lookup f m dotdot = some k → k = n
  top : ∀ {f k}, sys.lookup f root dotdot = some k → k = root

namespace MakesEntries

variable {sys : FileSystem F N} {root : N} {f f' : F} {names : List Str} {m n : N} {name : Str}

theorem resolve_kept (h : MakesEntries sys root) (hmade : Makes sys f n name m f') {k j : N}
    (hres : sys.resolve f k names = some j) : sys.resolve f' k names = some j := by
  induction names generalizing k with
  | nil => exact hres
  | cons nm names ih =>
    obtain ⟨i, hi, hrest⟩ := Option.bind_eq_some_iff.mp (show (sys.lookup f k nm).bind _ = some j from hres)
    exact Option.bind_eq_some_iff.mpr ⟨i, h.kept hmade hi, ih hrest⟩

/-- A walk ends where the walk without the dots does. -/
theorem resolve_canon (h : MakesEntries sys root) (hres : sys.resolve f root names = some n) :
    sys.resolve f root (canon names) = some n := by
  induction names using List.reverseRecOn generalizing n with
  | nil => exact hres
  | append_singleton names nm ih =>
    rw [sys.resolve_concat] at hres
    obtain ⟨i, hi, hn⟩ := Option.bind_eq_some_iff.mp hres
    have hi := ih hi
    rw [canon_concat]
    unfold stepName
    split
    · rename_i hdot
      rw [hdot] at hn
      rw [h.here hn]
      exact hi
    split
    · rename_i hdotdot
      rw [hdotdot] at hn
      rcases List.eq_nil_or_concat' (canon names) with hnil | ⟨above, last, hlast⟩
      · rw [hnil] at hi ⊢
        obtain rfl : root = i := Option.some.inj hi
        rw [h.top hn]
        rfl
      · have hclean := canon_clean names last (by simp [hlast])
        rw [hlast, sys.resolve_concat] at hi
        obtain ⟨j, hj, hji⟩ := Option.bind_eq_some_iff.mp hi
        rw [hlast, List.dropLast_concat, h.above hclean.1 hclean.2 hji hn]
        exact hj
    · rw [sys.resolve_concat, hi]
      exact hn

/-- Nothing is made where the walk to the directory has passed. -/
theorem not_passed (h : MakesEntries sys root) (hres : sys.resolve f root names = some n)
    (hmade : Makes sys f n name m f') {names' : List Str} (hpre : names' <+: names) :
    canon names' ≠ canon names ++ [name] := by
  intro heq
  obtain ⟨rest, rfl⟩ := hpre
  cases rest with
  | nil =>
    rw [List.append_nil] at heq
    have := congrArg List.length heq
    simp at this
  | cons nm rest =>
    rw [sys.resolve_append] at hres
    obtain ⟨j, hj, hrest⟩ := Option.bind_eq_some_iff.mp hres
    obtain ⟨i, hi, -⟩ := Option.bind_eq_some_iff.mp (show (sys.lookup f j nm).bind _ = some n from hrest)
    have hdir : sys.resolve f root (canon (names' ++ nm :: rest)) = some n :=
      h.resolve_canon (by rw [sys.resolve_append, hj]; exact hrest)
    have hthere := h.resolve_canon hj
    rw [heq, sys.resolve_concat, hdir] at hthere
    have hnone : sys.lookup f j nm = none := h.noDir hmade hthere
    rw [hi] at hnone
    cases hnone

end MakesEntries

/-! ## Creating and looking -/

/-- A call of a callback that creates something. -/
inductive Creation where
  | create (path : Str) (mode flags : UInt32)
  | mkdir (path : Str) (mode : UInt32)

/-- The path of the call. -/
def Creation.path : Creation → Str
  | create path .. | mkdir path _ => path

/-- If the call succeeds, a `getattr` that follows shows the node just made. -/
def Reaches {L : Link W} {sys : FileSystem F N} (S : Served L sys) (s : St W) : Creation → Prop
  | .create path mode flags => ∀ fh s', v9pCreate L path mode flags s = .ok (.ok fh) s' →
      ∃ x s'', (S.disk s'.w).fids fh = some x ∧
        v9pGetattr L path s' = .ok (.ok (p9statToFbxstat L.widths (sys.getattr (S.disk s'.w).fs x.node))) s''
  | .mkdir path mode => ∀ s', v9pMkdir L path mode s = .ok (.ok ()) s' →
      ∃ n name m s'', sys.mkdir (S.disk s.w).fs n name mode = .ok (m, (S.disk s'.w).fs) ∧
        v9pGetattr L path s' = .ok (.ok (p9statToFbxstat L.widths (sys.getattr (S.disk s'.w).fs m))) s''

/-- The walk to the parent passes what is to be created. -/
def Passes (path : Str) : Prop := ∃ names, names <+: components (splitPath path 1024 256).1 ∧
  canon names = canon (components (splitPath path 1024 256).1) ++ [(splitPath path 1024 256).2]

/-- Nothing can be created at the path, or it can be walked as a whole and is not cut. -/
def Reachable (path : Str) : Prop :=
  TooDeep path ∨ (splitPath path 1024 256).2 = dot ∨ (splitPath path 1024 256).2 = dotdot ∨ Passes path ∨
    (¬ Refused path ∧ Kept path)

section Found

variable {L : Link W} {sys : FileSystem F N} {root : N} {path : Str}

/-- What is made on a reachable path is found there. -/
theorem Reachable.reach (h : Reachable path) (hp : Proper path) (hsys : MakesEntries sys root) {f f' : F} {n m : N}
    (hdir : sys.reach f root (splitPath path 1024 256).1 = some n)
    (hmade : Makes sys f n (splitPath path 1024 256).2 m f') : sys.reach f' root path = some m := by
  obtain ⟨href, hres⟩ := FileSystem.reach_eq_some.mp hdir
  have hnamed := hsys.named hmade
  rcases h with hdeep | hdot | hdotdot | ⟨names, hpre, heq⟩ | ⟨hok, hkept⟩
  · exact absurd ((refused_parent_iff hp).mpr hdeep) href
  · exact absurd hdot hnamed.1
  · exact absurd hdotdot hnamed.2
  · exact absurd heq (hsys.not_passed hres hmade hpre)
  · obtain ⟨hcomp, hlast⟩ := (kept_iff hp).mp hkept
    refine FileSystem.reach_eq_some.mpr ⟨hok, ?_⟩
    have hsplit : components path = (components path).dropLast ++ [(splitPath path 1024 256).2] :=
      (List.dropLast_append_getLast? _ hlast).symm
    rw [hsplit, sys.resolve_concat, ← hcomp, hsys.resolve_kept hmade hres]
    exact hsys.found hmade

theorem Reachable.reaches {c : Creation} (h : Reachable c.path) (hp : Proper c.path) (hsys : MakesEntries sys root)
    {S : Served L sys} {v : UInt32} {held : List UInt32} {d : Disk F N} {s : St W} (hs : Session S root v held 2 d s) :
    Reaches S s c := by
  cases c with
  | create path mode flags =>
    intro fh s' hcall
    cases hdir : sys.reach d.fs root (splitPath path 1024 256).1 with
    | none =>
      obtain ⟨⟨e, -, he⟩, -⟩ := (keepFid_missing S root v held 1 d hdir _).ok hs hcall
      cases he
    | some n =>
      have hopens := (create_found S root v held 1 d hdir mode flags).ok hs hcall
      cases hres : sys.lcreate d.fs n (splitPath path 1024 256).2 (openFlags flags) mode with
      | error e =>
        rw [hres] at hopens
        cases hopens.1
      | ok made =>
        rw [hres] at hopens
        obtain ⟨_, ⟨⟩, -, hs'⟩ := hopens
        have hreach := h.reach hp hsys hdir (.inl ⟨_, _, hres⟩)
        obtain ⟨_, s'', hget, rfl, -⟩ := (getattr_found S root v (fh :: held) 0 _ hreach).run hs'
        refine ⟨⟨made.1, some (openFlags flags)⟩, s'', ?_, ?_⟩
        · rw [hs'.disk]
          exact Disk.bind_self
        · rw [hs'.disk]
          exact hget
  | mkdir path mode =>
    intro s' hcall
    cases hdir : sys.reach d.fs root (splitPath path 1024 256).1 with
    | none =>
      obtain ⟨⟨e, -, he⟩, -⟩ := (withFid_missing S root v held 1 d hdir _).ok hs hcall
      cases he
    | some n =>
      have hdid := (mkdir_found S root v held 1 d hdir mode).ok hs hcall
      cases hres : sys.mkdir d.fs n (splitPath path 1024 256).2 mode with
      | error e =>
        rw [hres] at hdid
        cases hdid.1
      | ok made =>
        rw [hres] at hdid
        have hreach := h.reach hp hsys hdir (.inr ⟨_, hres⟩)
        obtain ⟨_, s'', hget, rfl, -⟩ := (getattr_found S root v held 0 _ hreach).run hdid.2
        refine ⟨n, (splitPath path 1024 256).2, made.1, s'', ?_, ?_⟩
        · rw [hs.disk, hdid.2.disk]
          exact hres
        · rw [hdid.2.disk]
          exact hget

end Found

/-! ## On a tree -/

namespace Tree

variable {f f' : Tree} {n m : List Str} {name : Str}

/-- What is found in a directory. -/
theorem find_eq_some : f.find n name = some m ↔
    f.isDir n = true ∧ m = stepName n name ∧ (name ≠ dot → name ≠ dotdot → (f.inodes m).isSome = true) := by
  unfold find stepName
  by_cases hdir : f.isDir n = true
  · rw [if_pos hdir]
    by_cases hdot : name = dot
    · rw [if_pos hdot, if_pos hdot, Option.some_inj]
      exact ⟨fun h => ⟨hdir, h.symm, fun h' => absurd hdot h'⟩, fun h => h.2.1.symm⟩
    rw [if_neg hdot, if_neg hdot]
    by_cases hdotdot : name = dotdot
    · rw [if_pos hdotdot, if_pos hdotdot, Option.some_inj]
      exact ⟨fun h => ⟨hdir, h.symm, fun _ h' => absurd hdotdot h'⟩, fun h => h.2.1.symm⟩
    rw [if_neg hdotdot, if_neg hdotdot]
    by_cases hsome : (f.inodes (n ++ [name])).isSome = true
    · rw [if_pos hsome, Option.some_inj]
      exact ⟨fun h => ⟨hdir, h.symm, fun _ _ => h ▸ hsome⟩, fun h => h.2.1.symm⟩
    · rw [if_neg hsome]
      exact ⟨fun h => absurd h (by simp), fun h => absurd (h.2.1 ▸ h.2.2 hdot hdotdot) hsome⟩
  · rw [if_neg hdir]
    exact ⟨fun h => absurd h (by simp), fun h => absurd h.1 hdir⟩

theorem add_self (f : Tree) (m : List Str) (dir : Bool) (mode : UInt32) :
    (f.add m dir mode).inodes m = some ⟨dir, stat f.next mode, []⟩ := Function.update_self ..

theorem add_of_ne (f : Tree) {m k : List Str} (h : k ≠ m) (dir : Bool) (mode : UInt32) :
    (f.add m dir mode).inodes k = f.inodes k := Function.update_of_ne h ..

/-- A new inode hides none. -/
theorem add_kept (f : Tree) (hm : f.inodes m = none) (dir : Bool) (mode : UInt32) {k : List Str} {i : Inode}
    (hk : f.inodes k = some i) : (f.add m dir mode).inodes k = some i := by
  have hne : k ≠ m := by
    rintro rfl
    rw [hm] at hk
    cases hk
  rw [add_of_ne f hne, hk]

/-- What it takes to make an entry, and what it does. -/
theorem makes (h : Makes fileSystem f n name m f') : Nameable name ∧ f.isDir n = true ∧ m = n ++ [name] ∧
    ((∃ i, f.inodes m = some i ∧ i.dir = false ∧ f' = f) ∨ f.inodes m = none ∧ ∃ dir mode, f' = f.add m dir mode) := by
  have hmake : ∃ dir mode there, f.make n name dir mode there = .ok (m, f') ∧
      ∀ i, there i = .ok (m, f') → i.dir = false ∧ m = n ++ [name] ∧ f' = f := by
    rcases h with ⟨flags, mode, h⟩ | ⟨mode, h⟩
    · refine ⟨_, _, _, h, fun i hi => ?_⟩
      cases hdir : i.dir with
      | true => simp [hdir] at hi
      | false =>
        simp only [hdir] at hi
        cases hi
        exact ⟨rfl, rfl, rfl⟩
    · exact ⟨_, _, _, h, fun i hi => by cases hi⟩
  obtain ⟨dir, mode, there, h, hthere⟩ := hmake
  unfold make at h
  by_cases hname : Nameable name
  · rw [if_pos hname] at h
    by_cases hdir : f.isDir n = true
    · rw [if_pos hdir] at h
      cases hi : f.inodes (n ++ [name]) with
      | some i =>
        rw [hi] at h
        obtain ⟨hfile, rfl, rfl⟩ := hthere i h
        exact ⟨hname, hdir, rfl, .inl ⟨i, hi, hfile, rfl⟩⟩
      | none =>
        rw [hi] at h
        cases h
        exact ⟨hname, hdir, rfl, .inr ⟨hi, dir, mode, rfl⟩⟩
    · rw [if_neg hdir] at h
      cases h
  · rw [if_neg hname] at h
    cases h

theorem isDir_eq : f.isDir n = true ↔ ∃ i, f.inodes n = some i ∧ i.dir = true := by
  unfold isDir
  rw [Option.any_eq_true]

theorem find_kept (h : Makes fileSystem f n name m f') {k j : List Str} {nm : Str} (hfind : f.find k nm = some j) :
    f'.find k nm = some j := by
  obtain ⟨-, -, -, ⟨i, -, -, rfl⟩ | ⟨hnone, dir, mode, rfl⟩⟩ := makes h
  · exact hfind
  · obtain ⟨hdir, rfl, hsome⟩ := find_eq_some.mp hfind
    obtain ⟨i, hi, hidir⟩ := isDir_eq.mp hdir
    refine find_eq_some.mpr ⟨isDir_eq.mpr ⟨i, add_kept f hnone dir mode hi, hidir⟩, rfl, fun h₁ h₂ => ?_⟩
    obtain ⟨i', hi'⟩ := Option.isSome_iff_exists.mp (hsome h₁ h₂)
    rw [add_kept f hnone dir mode hi']
    rfl

/-- The tree makes entries as it should. -/
theorem makesEntries : MakesEntries fileSystem [] where
  found := by
    intro f n name m f' h
    obtain ⟨hname, hdir, rfl, hmade⟩ := makes h
    refine find_eq_some.mpr ⟨?_, (stepName_of_ne n hname.2.1 hname.2.2).symm, fun _ _ => ?_⟩
    · obtain ⟨i, hi, hidir⟩ := isDir_eq.mp hdir
      rcases hmade with ⟨-, -, -, rfl⟩ | ⟨hnone, dir, mode, rfl⟩
      · exact hdir
      · exact isDir_eq.mpr ⟨i, add_kept f hnone dir mode hi, hidir⟩
    · rcases hmade with ⟨i, hi, -, rfl⟩ | ⟨hnone, dir, mode, rfl⟩
      · rw [hi]
        rfl
      · rw [add_self]
        rfl
  kept := fun h => find_kept h
  named := fun h => (makes h).1.2
  noDir := by
    intro f n name m f' h k nm hfind
    obtain ⟨hname, -, rfl, hmade⟩ := makes h
    obtain ⟨-, rfl, hsome⟩ := find_eq_some.mp hfind
    rw [stepName_of_ne n hname.2.1 hname.2.2] at hsome ⊢
    have hnot : f.isDir (n ++ [name]) ≠ true := by
      intro hdir
      obtain ⟨i', hi', hidir⟩ := isDir_eq.mp hdir
      rcases hmade with ⟨i, hi, hfile, -⟩ | ⟨hnone, -⟩
      · rw [hi] at hi'
        cases hi'
        rw [hfile] at hidir
        cases hidir
      · rw [hnone] at hi'
        cases hi'
    exact if_neg hnot
  here := by
    intro f n m h
    rw [(find_eq_some.mp h).2.1]
    rfl
  above := by
    intro f n name m k h₁ h₂ hm hk
    rw [(find_eq_some.mp hk).2.1, (find_eq_some.mp hm).2.1, stepName_of_ne n h₁ h₂]
    exact List.dropLast_concat
  top := by
    intro f k h
    rw [(find_eq_some.mp h).2.1]
    rfl

/-- The directories that a walk from the root passes. -/
def passed (names : List Str) : List (List Str) := names.inits.map canon

theorem mem_passed {names : List Str} {k : List Str} :
    k ∈ passed names ↔ ∃ names', names' <+: names ∧ canon names' = k := by
  unfold passed
  simp only [List.mem_map, List.mem_inits]

theorem inodes_ofDirs (dirs : List (List Str)) (n : List Str) :
    (ofDirs dirs).inodes n = if n ∈ dirs then some ⟨true, stat 0 0x41ED, []⟩ else none := rfl

theorem isDir_ofDirs {dirs : List (List Str)} (h : n ∈ dirs) : (ofDirs dirs).isDir n = true :=
  isDir_eq.mpr ⟨_, by rw [inodes_ofDirs, if_pos h], rfl⟩

/-- With these directories the walk gets to its end. -/
theorem resolve_ofDirs {dirs : List (List Str)} {names : List Str}
    (h : ∀ names', names' <+: names → canon names' ∈ dirs) :
    fileSystem.resolve (ofDirs dirs) [] names = some (canon names) := by
  induction names using List.reverseRecOn with
  | nil => rfl
  | append_singleton names nm ih =>
    have hnm := h (names ++ [nm]) List.prefix_rfl
    rw [fileSystem.resolve_concat, ih fun names' hpre => h names' (hpre.trans (List.prefix_append ..))]
    rw [canon_concat] at hnm ⊢
    refine find_eq_some.mpr ⟨isDir_ofDirs (h names (List.prefix_append ..)), rfl, fun _ _ => ?_⟩
    rw [inodes_ofDirs, if_pos hnm]
    rfl

section Astray

variable {path : Str}

/-- The tree with the directories on the way to the parent. -/
def toParent (path : Str) : Tree := ofDirs (passed (components (splitPath path 1024 256).1))

/-- The parent, and what is created in it. -/
def parentNode (path : Str) : List Str := canon (components (splitPath path 1024 256).1)

@[inherit_doc parentNode] def newNode (path : Str) : List Str := parentNode path ++ [(splitPath path 1024 256).2]

theorem resolve_parent (path : Str) :
    fileSystem.resolve (toParent path) [] (components (splitPath path 1024 256).1) = some (parentNode path) :=
  resolve_ofDirs fun names' hpre => mem_passed.mpr ⟨names', hpre, rfl⟩

theorem reach_parent (hp : Proper path) (h : ¬ Reachable path) :
    fileSystem.reach (toParent path) [] (splitPath path 1024 256).1 = some (parentNode path) :=
  FileSystem.reach_eq_some.mpr ⟨fun href => h (.inl ((refused_parent_iff hp).mp href)), resolve_parent path⟩

/-- On a path that is not reachable, an entry can be made. -/
theorem make_parent (hp : Proper path) (h : ¬ Reachable path) (dir : Bool) (mode : UInt32)
    (there : Inode → Except Errno (List Str × Tree)) :
    (toParent path).make (parentNode path) (splitPath path 1024 256).2 dir mode there =
      .ok (newNode path, (toParent path).add (newNode path) dir mode) := by
  have hname : Nameable (splitPath path 1024 256).2 := by
    refine ⟨?_, fun hdot => h (.inr (.inl hdot)), fun hdotdot => h (.inr (.inr (.inl hdotdot)))⟩
    obtain ⟨d, last, rfl, hl, hne⟩ := exists_split hp.1 hp.2
    rw [splitPath_eq d hl hne]
    simpa using hne
  have hdir : (toParent path).isDir (parentNode path) = true :=
    isDir_ofDirs (mem_passed.mpr ⟨_, List.prefix_rfl, rfl⟩)
  have hnew : (toParent path).inodes (parentNode path ++ [(splitPath path 1024 256).2]) = none :=
    if_neg fun hmem => h (.inr (.inr (.inr (.inl (mem_passed.mp hmem)))))
  unfold make
  rw [if_pos hname, if_pos hdir, hnew]
  rfl

theorem lcreate_parent (hp : Proper path) (h : ¬ Reachable path) (flags mode : UInt32) :
    fileSystem.lcreate (toParent path).disk.fs (parentNode path) (splitPath path 1024 256).2 flags mode =
      .ok (newNode path, (toParent path).add (newNode path) false mode) := make_parent hp h false mode _

theorem mkdir_parent (hp : Proper path) (h : ¬ Reachable path) (mode : UInt32) :
    fileSystem.mkdir (toParent path).disk.fs (parentNode path) (splitPath path 1024 256).2 mode =
      .ok (newNode path, (toParent path).add (newNode path) true mode) := make_parent hp h true mode _

/-- What was made is not found on the whole path: nothing is, or something else. -/
theorem astray (hp : Proper path) (h : ¬ Reachable path) (dir : Bool) (mode : UInt32)
    (hmade : Makes fileSystem (toParent path) (parentNode path) (splitPath path 1024 256).2 (newNode path)
      ((toParent path).add (newNode path) dir mode)) :
    fileSystem.reach ((toParent path).add (newNode path) dir mode) [] path = none ∨
      ∃ m, fileSystem.reach ((toParent path).add (newNode path) dir mode) [] path = some m ∧
        (fileSystem.getattr ((toParent path).add (newNode path) dir mode) m).qid.path = 0 := by
  by_cases href : Refused path
  · exact .inl (if_pos href)
  have hkept : ¬ Kept path := fun hkept => h (.inr (.inr (.inr (.inr ⟨href, hkept⟩))))
  have hparent := makesEntries.resolve_kept hmade (resolve_parent path)
  cases hreach : fileSystem.reach ((toParent path).add (newNode path) dir mode) [] path with
  | none => exact .inl rfl
  | some m =>
    refine .inr ⟨m, rfl, ?_⟩
    obtain ⟨-, hres⟩ := FileSystem.reach_eq_some.mp hreach
    -- the path is short, so only the name can have been cut
    obtain ⟨d, last, rfl, hl, hne⟩ := exists_split hp.1 hp.2
    have hlen : (d ++ slash :: last).length < 1024 := by
      unfold Refused at href
      omega
    rw [List.length_append, List.length_cons] at hlen
    have htake : d.take 1023 = d := List.take_of_length_le (by omega)
    have hlong : 255 < last.length := by
      by_contra hshort
      exact hkept ⟨d, last, rfl, hl, by omega, by rw [htake]⟩
    have hname : (splitPath (d ++ slash :: last) 1024 256).2 = last.take 255 := by rw [splitPath_eq d hl hne]
    have hcomp : components (splitPath (d ++ slash :: last) 1024 256).1 = components d := by
      rw [components_parent d hl hne, htake]
    rw [components_split d hl hne, ← hcomp, fileSystem.resolve_concat, hparent] at hres
    have hfind : Tree.find _ _ last = some m := hres
    obtain ⟨-, hm, hsome⟩ := find_eq_some.mp hfind
    have hndot : last ≠ dot := by rintro rfl; exact absurd hlong (by decide)
    have hndotdot : last ≠ dotdot := by rintro rfl; exact absurd hlong (by decide)
    rw [stepName_of_ne _ hndot hndotdot] at hm
    have hother : m ≠ newNode (d ++ slash :: last) := by
      intro heq
      rw [hm, newNode, hname] at heq
      have hcut := congrArg List.length (List.singleton_inj.mp (List.append_cancel_left heq))
      rw [List.length_take] at hcut
      omega
    obtain ⟨i, hi⟩ := Option.isSome_iff_exists.mp (hsome hndot hndotdot)
    have hattr : i.attr = stat 0 0x41ED := by
      rw [add_of_ne _ hother] at hi
      unfold toParent at hi
      rw [inodes_ofDirs] at hi
      split at hi
      · cases hi
        rfl
      · cases hi
    have hget : fileSystem.getattr ((toParent (d ++ slash :: last)).add (newNode (d ++ slash :: last)) dir mode)
        m = i.attr := by
      simp [fileSystem, hi]
    rw [hget, hattr]
    rfl

/-- The number of a node just made. -/
theorem made_path (f : Tree) (m : List Str) (dir : Bool) (mode : UInt32) :
    (fileSystem.getattr (f.add m dir mode) m).qid.path = UInt64.ofNat f.next := by
  simp [fileSystem, add_self, stat]

/-- So a `getattr` of the path does not show it. -/
theorem getattr_astray (hp : Proper path) (h : ¬ Reachable path) {dir : Bool} {mode : UInt32}
    (hmade : Makes fileSystem (toParent path) (parentNode path) (splitPath path 1024 256).2 (newNode path)
      ((toParent path).add (newNode path) dir mode)) {held : List UInt32} {d : Disk Tree (List Str)}
    {s s' : St (Disk Tree (List Str))} (hs : Session fileSystem.served [] p9MSize held 1 d s)
    (hd : d.fs = (toParent path).add (newNode path) dir mode) {st : P9Stat} (hst : st.qid.path = 1) :
    v9pGetattr fileSystem.fileServer path s ≠ .ok (.ok (p9statToFbxstat fileSystem.fileServer.widths st)) s' := by
  intro hget
  rcases astray hp h dir mode hmade with hnone | ⟨m, hm, hino⟩
  · rw [← hd] at hnone
    obtain ⟨⟨e, -, he⟩, -⟩ := (getattr_missing fileSystem.served [] p9MSize held 0 d hnone).ok hs hget
    cases he
  · rw [← hd] at hm hino
    obtain ⟨heq, -⟩ := (getattr_found fileSystem.served [] p9MSize held 0 d hm).ok hs hget
    have hsame : st.qid.path = (fileSystem.getattr d.fs m).qid.path := congrArg FbxStat.ino (Except.ok.inj heq)
    rw [hst, hino] at hsame
    exact absurd hsame (by decide)

theorem mkdir_add {f f' : Tree} {mode : UInt32} (h : fileSystem.mkdir f n name mode = .ok (m, f')) :
    f' = f.add m true mode := by
  have h : f.make n name true mode _ = .ok (m, f') := h
  unfold make at h
  split_ifs at h
  cases hi : f.inodes (n ++ [name]) with
  | some i => rw [hi] at h; cases h
  | none => rw [hi] at h; cases h; rfl

/-- On a path that is not reachable, the call succeeds on some tree, and its node is not shown. -/
theorem create_astray (hp : Proper path) (h : ¬ Reachable path) (mode flags : UInt32) :
    ¬ Reaches fileSystem.served (mounted (toParent path)) (.create path mode flags) := by
  intro hreaches
  have hres := lcreate_parent hp h (openFlags flags) mode
  obtain ⟨r, s', hcall, hopens⟩ := (create_found fileSystem.served [] p9MSize [] 1 (toParent path).disk
      (reach_parent hp h) mode
    flags).run (session_mounted (toParent path) 2 (by decide))
  rw [hres] at hopens
  obtain ⟨fh, rfl, -, hs'⟩ := hopens
  obtain ⟨x, s'', hx, hget⟩ := hreaches fh s' hcall
  rw [hs'.disk] at hx hget
  obtain rfl : _ = x := Option.some.inj (Disk.bind_self.symm.trans hx)
  exact getattr_astray hp h (.inl ⟨_, _, hres⟩) hs' rfl (made_path ..) hget

@[inherit_doc create_astray] theorem mkdir_astray (hp : Proper path) (h : ¬ Reachable path) (mode : UInt32) :
    ¬ Reaches fileSystem.served (mounted (toParent path)) (.mkdir path mode) := by
  intro hreaches
  have hres := mkdir_parent hp h mode
  obtain ⟨r, s', hcall, hdid⟩ := (mkdir_found fileSystem.served [] p9MSize [] 1 (toParent path).disk
      (reach_parent hp h) mode).run
    (session_mounted (toParent path) 2 (by decide))
  rw [hres] at hdid
  obtain ⟨rfl, hs'⟩ := hdid
  obtain ⟨n, name, m, s'', hmkdir, hget⟩ := hreaches s' hcall
  rw [hs'.disk] at hmkdir hget
  refine getattr_astray hp h (.inr ⟨_, hres⟩) hs' rfl ?_ hget
  have hadd : ((toParent path).disk.put _).fs = (toParent path).add m true mode := mkdir_add hmkdir
  rw [hadd, made_path]
  rfl

end Astray

end Tree

/-- **What `create` or `mkdir` makes is shown by `getattr` on every server exactly when the path is reachable.** -/
theorem created_reached_iff (c : Creation) (hp : Proper c.path) :
    (∀ (W F N : Type) (L : Link W) (sys : FileSystem F N) (S : Served L sys) (root : N) (v : UInt32)
      (held : List UInt32) (d : Disk F N) (s : St W), MakesEntries sys root → Session S root v held 2 d s →
      Reaches S s c) ↔ Reachable c.path := by
  constructor
  · intro h
    by_contra hnot
    have hreaches := h _ _ _ _ _ _ [] p9MSize [] _ _ Tree.makesEntries
      (Tree.session_mounted (Tree.toParent c.path) 2 (by decide))
    cases c with
    | create path mode flags => exact Tree.create_astray hp hnot mode flags hreaches
    | mkdir path mode => exact Tree.mkdir_astray hp hnot mode hreaches
  · intro h W F N L sys S root v held d s hsys hs
    exact h.reaches hp hsys hs

/-- `mkdir` of `/a`. -/
theorem created_reached_a : Reaches Tree.fileSystem.served (Tree.mounted (Tree.ofDirs [[]]))
    (.mkdir [slash, 0x61] 0x1ED) :=
  (created_reached_iff (.mkdir [slash, 0x61] 0x1ED) ⟨rfl, by decide⟩).mpr
    (.inr (.inr (.inr (.inr ⟨by decide, [], [0x61], rfl, by decide, by decide, rfl⟩)))) _ _ _ _ _ _ [] p9MSize [] _ _
    Tree.makesEntries (Tree.session_mounted (Tree.ofDirs [[]]) 2 (by decide))

/-- The path `/a/a/…/a`, of `n` components. -/
def deepPath (n : Nat) : Str := (List.replicate n [slash, 0x61]).flatten

theorem deep_proper : Proper (deepPath 17) := ⟨by decide, by decide⟩

/-- Its parent is just deep enough, and it is too deep. -/
theorem deep_not_reachable : ¬ Reachable (deepPath 17) := by
  rintro (h | h | h | h | h)
  · exact absurd ((refused_parent_iff deep_proper).mpr h) (by decide)
  · exact absurd h (by decide)
  · exact absurd h (by decide)
  · exact absurd (Tree.mem_passed.mpr h) (by decide)
  · exact absurd h.1 (by decide)

/-- `mkdir` at a depth of seventeen succeeds, and `getattr` of the same path fails. -/
theorem deep_mkdir : ∃ s' e s'', v9pMkdir Tree.fileSystem.fileServer (deepPath 17) 0x1ED
      (Tree.mounted (Tree.toParent (deepPath 17))) = .ok (.ok ()) s' ∧
    v9pGetattr Tree.fileSystem.fileServer (deepPath 17) s' = .ok (.error e) s'' := by
  obtain ⟨r, s', hcall, hdid⟩ := (mkdir_found Tree.fileSystem.served [] p9MSize [] 1 (Tree.toParent (deepPath 17)).disk
    (Tree.reach_parent deep_proper deep_not_reachable) 0x1ED).run
      (Tree.session_mounted (Tree.toParent (deepPath 17)) 2 (by decide))
  rw [Tree.mkdir_parent deep_proper deep_not_reachable] at hdid
  obtain ⟨rfl, hs'⟩ := hdid
  obtain ⟨r, s'', hget, ⟨e, -, rfl⟩, -⟩ := (getattr_missing Tree.fileSystem.served [] p9MSize [] 0 _
    (show _ = none from if_pos (show Refused (deepPath 17) by decide))).run hs'
  exact ⟨s', e, s'', hcall, hget⟩

end Virtio9P
