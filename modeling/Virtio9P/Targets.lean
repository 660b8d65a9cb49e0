import Virtio9P.Reply
import Virtio9P.Msize

/-!
# What a mutating callback acts on

`create`, `mkdir`, `unlink`, `rmdir`, `symlink`, `link` and `rename` walk to a directory and send one request that names
an entry in it. `ActsExactly` says that such a request, if it is sent at all, is about the directory that the path
names and about its last component, byte for byte. The paths are first cut to the buffers of `split_path`, and `P9_Walk`
cannot see what was cut off: the callbacks act exactly when nothing that matters is cut, or when so much is left that
`P9_Walk` refuses it (`acts_exactly_iff`). `mkdir_cut_name` is a `mkdir` of another name than the one asked for.
-/

namespace Virtio9P

open Lib

variable {W α β : Type}

/-! ## The log of a callback -/

/-- The requests that change a directory. -/
def TMsg.mutating : TMsg → Bool
  | .lcreate .. | .mkdir .. | .unlinkat .. | .symlink .. | .link .. | .renameat .. => true
  | _ => false

/-- No mutating request is sent here. -/
def Event.Quiet (e : Event) : Prop := ∀ tx tag m, e = .send tx → decode tx = some (tag, m) → m.mutating = false

/-- A mutating request was sent. -/
def Acted (log : List (Moment W)) : Prop := ∃ mo ∈ log, ¬ mo.event.Quiet

/-- Every mutating request meets `Φ`, with what was in the log before it. -/
def Sound (Φ : TMsg → List (Moment W) → Prop) : List (Moment W) → Prop
  | [] => True
  | mo :: log => (∀ tx tag m, mo.event = .send tx → decode tx = some (tag, m) → m.mutating = true → Φ m log) ∧
      Sound Φ log

/-- `walk_to` sent the `Twalk` from the root to `fid` along `names`, got the reply, and handed the fid out. -/
def Obtained (fid : UInt32) (names : List Str) (log : List (Moment W)) : Prop :=
  ∃ l₁ l₂ hold ret walk, log = l₁ ++ hold :: ret :: walk :: l₂ ∧ hold.event = .hold fid ∧
    (∃ n, n ≠ 0 ∧ ret.event = .returned n) ∧
    ∃ tx tag, walk.event = .send tx ∧ decode tx = some (tag, .walk walk.h.rootFid fid names)

/-- `T` is not touched by quiet entries. -/
def Stable (T : List (Moment W) → Prop) : Prop := ∀ mo log, mo.event.Quiet → T log → T (mo :: log)

theorem stable_sound (Φ : TMsg → List (Moment W) → Prop) : Stable (Sound Φ) :=
  fun _ _ hq h => ⟨fun tx tag m he hd hm => absurd ((hq tx tag m he hd).symm.trans hm) (by decide), h⟩

theorem stable_obtained (fid : UInt32) (names : List Str) : Stable (Obtained (W := W) fid names) := by
  rintro mo log - ⟨l₁, l₂, hold, ret, walk, rfl, h⟩
  exact ⟨mo :: l₁, l₂, hold, ret, walk, rfl, h⟩

theorem stable_not_acted : Stable fun log : List (Moment W) => ¬ Acted log := by
  rintro mo log hq h ⟨mo', hmem, hact⟩
  rcases List.mem_cons.mp hmem with rfl | hmem
  · exact hact hq
  · exact h ⟨mo', hmem, hact⟩

theorem stable_acted : Stable (Acted (W := W)) :=
  fun mo _ _ ⟨mo', hmem, hact⟩ => ⟨mo', List.mem_cons_of_mem mo hmem, hact⟩

theorem Stable.and {T T' : List (Moment W) → Prop} (h : Stable T) (h' : Stable T') : Stable fun log => T log ∧ T' log :=
  fun mo log hq ht => ⟨h mo log hq ht.1, h' mo log hq ht.2⟩

theorem quiet_of_ne {e : Event} (he : ∀ tx, e ≠ .send tx) : e.Quiet := fun tx _ _ h => absurd h (he tx)

theorem quiet_frame {m : TMsg} (hm : m.Wf) (hsize : 7 + m.body.length < 4294967296) (hq : m.mutating = false)
    (tag : UInt16) : (Event.send (m.frame tag)).Quiet := by
  rintro tx tag' m' ⟨⟩ hd
  rw [decode_frame hm hsize] at hd
  cases hd
  exact hq

theorem quiet_nested {e : Event} (he : e.Nested) : e.Quiet := by
  cases he with
  | version tag => exact quiet_frame (by simp [TMsg.Wf, p9VersionStr]) (by decide) rfl tag
  | attach root tag => exact quiet_frame (by simp [TMsg.Wf]) (by simp [TMsg.body]) rfl tag
  | returned n => exact quiet_of_ne (by simp)
  | newPool => exact quiet_of_ne (by simp)

/-! ## Transactions -/

/-- The log since `base`, outside of a reset. -/
def At (base : List (Moment W)) (T : List (Moment W) → Prop) (s : St W) : Prop := s.h.inReset = false ∧ Since base T s

theorem At.mono {base : List (Moment W)} {T T' : List (Moment W) → Prop} {s : St W} (h : At base T s)
    (hT : ∀ new, T new → T' new) : At base T' s := ⟨h.1, h.2.mono hT⟩

theorem At.logged {base : List (Moment W)} {T : List (Moment W) → Prop} (hT : Stable T) {s : St W} (h : At base T s)
    {e : Event} (he : e.Quiet) : At base T (s.logged e) := by
  obtain ⟨hin, new, hlog, ht⟩ := h
  refine ⟨hin, ⟨e, s.h, s.w⟩ :: new, ?_, hT _ new he ht⟩
  show _ :: s.log = _
  rw [hlog]
  rfl

/-- A stable property of the log since `base`, as an invariant. -/
def sinceInv (base : List (Moment W)) {T : List (Moment W) → Prop} (hT : Stable T) : LogInv W :=
  have hcons : ∀ {mo : Moment W} {log}, mo.event.Quiet → (∃ new, log = new ++ base ∧ T new) →
      ∃ new, mo :: log = new ++ base ∧ T new := by
    rintro mo log hq ⟨new, rfl, ht⟩
    exact ⟨mo :: new, rfl, hT mo new hq ht⟩
  { Out := fun _ log => ∃ new, log = new ++ base ∧ T new
    In := fun log => ∃ new, log = new ++ base ∧ T new
    out_in := fun h => h
    returned := fun _ he h => hcons (he ▸ quiet_of_ne (by simp)) h
    escalate := fun he h => hcons (he ▸ quiet_of_ne (by simp)) h
    nested := fun _ he h => hcons (quiet_nested he) h
    reset := fun _ he h => hcons (he ▸ quiet_of_ne (by simp)) h }

section Requests

variable {L : Link W} {base : List (Moment W)} {T T' : List (Moment W) → Prop}

theorem request_at (hT : Stable T') {m : TMsg} (parse : Mem → UInt32 → Except Int32 α)
    (hsend : ∀ tag (mo : Moment W) new, mo.event = .send (m.frame tag) → T new → T' (mo :: new)) :
    Triple (At base T) (p9Request (v9pTransact L) p9NextTag m parse) (fun _ => At base T') fun _ => Since base T' := by
  refine ((sinceInv base hT).request_keeps m parse).pre fun s hs => ⟨hs.1, fun tag mo he _ _ => ?_⟩
  obtain ⟨new, hlog, ht⟩ := hs.2
  exact ⟨mo :: new, by rw [hlog]; rfl, hsend tag mo new he ht⟩

theorem quiet_request (hT : Stable T) {m : TMsg} (parse : Mem → UInt32 → Except Int32 α) (hm : m.Wf)
    (hsize : 7 + m.body.length < 4294967296) (hq : m.mutating = false) :
    Triple (At base T) (p9Request (v9pTransact L) p9NextTag m parse) (fun _ => At base T) fun _ => Since base T :=
  request_at hT parse fun tag mo new he ht => hT mo new (he ▸ quiet_frame hm hsize hq tag) ht

theorem clunk_at (hT : Stable T) (fid : UInt32) :
    Triple (At base T) (p9Clunk (v9pTransact L) fid) (fun _ => At base T) fun _ => Since base T := by
  rw [p9Clunk_eq]
  exact quiet_request hT _ trivial (by simp [TMsg.body]) rfl

theorem drawFid_at (hT : Stable T) : Triple (At base T) drawFid (fun _ => At base T) fun _ => Since base T :=
  draw_rule (fun _ hs _ => hs.2) fun s pool hs _ =>
    At.logged (s := s.pooled (some (fidPoolAlloc pool).2) s.w) hT hs (quiet_of_ne (by simp))

theorem freeFid_at (hT : Stable T) (fid : UInt32) :
    Triple (At base T) (freeFid L fid) (fun _ => At base T) fun _ => Since base T :=
  free_rule (fun _ hs _ => hs.2) fun s _ pool w hs _ _ =>
    At.logged (s := s.pooled (some pool) w) hT hs (quiet_of_ne (by simp))

theorem orphanFid_at (hT : Stable T) (fid : UInt32) :
    Triple (At base T) (orphanFid L fid) (fun _ => At base T) fun _ => Since base T :=
  orphan_rule (fun _ hs _ => hs.2) fun s _ pool w hs _ _ =>
    At.logged (s := s.pooled (some pool) w) hT hs (quiet_of_ne (by simp))

theorem closeFid_at (hT : Stable T) (fid : UInt32) :
    Triple (At base T) (closeFid L fid) (fun _ => At base T) fun _ => Since base T :=
  (clunk_at hT fid).bind fun _ => freeFid_at hT fid

end Requests

/-! ## Walking -/

/-- The error codes of the server are those of `errno.h`: positive as an `int`. -/
def Errnos (L : Link W) : Prop :=
  ∀ post w n rx w', L.poll post w = .ok (.reply n rx) w' → (p9GetU8 rx 4).1 = p9RLError → 11 ≤ n →
    0 < (p9GetU32 rx 7).1.toNat ∧ (p9GetU32 rx 7).1.toNat < 2147483648

theorem neg_toInt32 {code : UInt32} (h₀ : 0 < code.toNat) (h₁ : code.toNat < 2147483648) : -code.toInt32 < 0 := by
  refine (neg_toInt32_neg_iff code).mpr ⟨?_, UInt32.le_iff_toNat_le.mpr (by simp only [UInt32.reduceToNat]; omega)⟩
  rintro rfl
  exact absurd h₀ (by decide)

theorem checkError_neg {n : UInt32} {rx : Mem} (h : (p9GetU8 rx 4).1 = p9RLError → 11 ≤ n →
      0 < (p9GetU32 rx 7).1.toNat ∧ (p9GetU32 rx 7).1.toNat < 2147483648) (hne : p9CheckError rx n ≠ 0) :
    p9CheckError rx n < 0 := by
  unfold p9CheckError at hne ⊢
  by_cases hhdr : n < p9RHdrSize
  · rw [if_pos hhdr]; decide
  rw [if_neg hhdr] at hne ⊢
  by_cases htype : (p9GetU8 rx 4).1 = p9RLError
  · rw [if_pos htype]
    by_cases hlen : n < p9RLErrorSize
    · rw [if_pos hlen]; decide
    · rw [if_neg hlen]
      obtain ⟨h₀, h₁⟩ := h htype (UInt32.not_lt.mp hlen)
      exact neg_toInt32 h₀ h₁
  · rw [if_neg htype] at hne
    exact absurd rfl hne

section Walking

variable {L : Link W} {base : List (Moment W)} {T : List (Moment W) → Prop}

/-- A walk that succeeds ends with the `Twalk` and its reply as the last entries. -/
theorem walk_at (hL : Errnos L) (hT : Stable T) (root fid : UInt32) (path : Str) :
    Triple (fun s => At base T s ∧ s.h.rootFid = root) (p9Walk (v9pTransact L) root fid path)
      (fun r s => At base T s ∧ match r with
        | .error e => e < 0
        | .ok _ => ¬ Refused path ∧ ∃ n old ret walk tx tag, s.log = ret :: walk :: old ++ base ∧ T old ∧ n ≠ 0 ∧
          ret.event = .returned n ∧ walk.event = .send tx ∧
          decode tx = some (tag, .walk walk.h.rootFid fid (components path)))
      fun _ => Since base T := by
  rintro s ⟨hs, hroot⟩
  rw [p9Walk_eq]
  by_cases href : 1024 ≤ path.length ∨ p9MaxWElem < (components path).length
  · rw [if_pos href]
    exact ⟨hs, show (-36 : Int32) < 0 by decide⟩
  rw [if_neg href]
  have hok := href
  rw [not_or, not_le, not_lt] at hok
  have hwf := walk_wf root fid hok.1 hok.2
  have hsize : 7 + (TMsg.walk root fid (components path)).body.length < 4294967296 := by
    have := length_walk_le root fid hok.1 hok.2
    omega
  have hrequest := ((quiet_request (L := L) hT parseWalk hwf hsize rfl).pre
    (fun s' (h : s' = s) => h ▸ hs)).and (request_reply _ parseWalk s)
  refine Triple.bind (hrequest.conseq (fun _ h => h) (fun _ _ h => h) fun _ _ h => h.1) (fun r => ?_) s rfl
  cases r with
  | error e =>
    refine Triple.pure fun s' h => ⟨h.1, ?_⟩
    rcases h.2 with herr | ⟨n, w, rx, hn, hpoll, hres, -⟩
    · cases herr
      exact show (-5 : Int32) < 0 by decide
    · unfold answer at hres
      by_cases hne : p9CheckError rx n ≠ 0
      · rw [if_pos hne] at hres
        cases hres
        exact checkError_neg (hL _ _ _ _ _ hpoll) hne
      · rw [if_neg hne] at hres
        unfold parseWalk p9RequireSize at hres
        split at hres
        · cases hres
          exact show (-5 : Int32) < 0 by decide
        · cases hres
  | ok nwqid =>
    refine Triple.ite (fun _ => ?_) fun _ => Triple.pure fun s' h => ⟨h.1, href, ?_⟩
    · have hend : ∀ s', At base T s' → At base T s' ∧ (-2 : Int32) < 0 := fun s' h => ⟨h, by decide⟩
      refine Triple.ite (fun _ => ?_) fun _ => Triple.pure fun s' h => hend s' h.1
      exact ((clunk_at hT fid).pre fun s' h => h.1).bind fun _ => Triple.pure hend
    · rcases h.2 with herr | ⟨n, w, rx, hn, -, -, rfl⟩
      · cases herr
      · obtain ⟨old, hlog, hold⟩ := hs.2
        obtain ⟨ret, sent, hreplied, hret, hsent, hsame⟩ := s.replied_log (.walk root fid (components path)) n rx w
        refine ⟨n, old, ret, sent, _, s.h.nextTag, hreplied.trans (by rw [hlog]; rfl), hold, hn, hret, hsent, ?_⟩
        rw [hsame, hroot]
        exact decode_frame hwf hsize s.h.nextTag

theorem walkTo_at (hL : Errnos L) (hT : Stable T) (path : Str) :
    Triple (At base T) (walkTo L path)
      (fun r s => match r with
        | .error e => At base T s ∧ e < 0
        | .ok fid => ¬ Refused path ∧ At base (fun log => T log ∧ Obtained fid (components path) log) s)
      fun _ => Since base T := by
  refine (drawFid_at hT).bind fun fid s hs => ?_
  rw [handler_bind]
  refine Triple.bind (walk_at hL hT s.h.rootFid fid path) (fun r => ?_) s ⟨hs, rfl⟩
  cases r with
  | error e =>
    intro s hs
    by_cases he : e = -5
    · simp only [he, if_true]
      exact (orphanFid_at hT fid).bind (fun _ => Triple.pure fun s h => ⟨h, by decide⟩) s hs.1
    · simp only [he, if_false]
      exact (freeFid_at hT fid).bind (fun _ => Triple.pure fun s h => ⟨h, hs.2⟩) s hs.1
  | ok _ =>
    rintro s ⟨hat, href, n, old, ret, walk, tx, tag, hlog, hold, hn, hret, hsend, hdec⟩
    refine ⟨href, hat.1, ⟨.hold fid, s.h, s.w⟩ :: ret :: walk :: old, ?_, ?_, ?_⟩
    · show _ :: s.log = _
      rw [hlog]
      rfl
    · have hquiet : walk.event.Quiet := by
        rintro tx' tag' m he hd
        rw [hsend] at he
        cases he
        rw [hdec] at hd
        cases hd
        rfl
      exact hT _ _ (quiet_of_ne (by simp))
        (hT _ _ (hret ▸ quiet_of_ne (by simp)) (hT _ _ hquiet hold))
    · exact ⟨[], old, _, ret, walk, rfl, rfl, ⟨n, hn, hret⟩, tx, tag, hsend, hdec⟩

end Walking

/-! ## Mutations -/

/-- A call of a mutating callback. -/
inductive Mutation where
  | create (path : Str) (mode flags : UInt32)
  | mkdir (path : Str) (mode : UInt32)
  | unlink (path : Str)
  | rmdir (path : Str)
  | symlink (target path : Str)
  | link (oldpath newpath : Str)
  | rename (oldpath newpath : Str)

/-- A path that starts with a slash and does not end with one. -/
def Proper (path : Str) : Prop := path.head? = some slash ∧ path.getLast? ≠ some slash

/-- The directory fid was obtained by a walk along all components of the path but the last, and the name is the
last. -/
def Names (path : Str) (dfid : UInt32) (name : Str) (log : List (Moment W)) : Prop :=
  Obtained dfid (components path).dropLast log ∧ (components path).getLast? = some name

/-- What `split_path` cuts off the path does not matter: the name is kept, and so are the components of the parent. -/
def Kept (path : Str) : Prop :=
  ∃ dir last, path = dir ++ slash :: last ∧ slash ∉ last ∧ last.length ≤ 255 ∧
    components (dir.take 1023) = components dir

/-- What `split_path` leaves of the parent is too deep for `P9_Walk`. -/
def TooDeep (path : Str) : Prop :=
  ∃ dir last, path = dir ++ slash :: last ∧ slash ∉ last ∧ p9MaxWElem < (components (dir.take 1023)).length

namespace Mutation

/-- The call, with its return code. -/
def call (L : Link W) : Mutation → Client W (Except Int32 Unit)
  | create path mode flags => (·.map fun _ => ()) <$> v9pCreate L path mode flags
  | mkdir path mode => v9pMkdir L path mode
  | unlink path => v9pUnlink L path
  | rmdir path => v9pRmdir L path
  | symlink target path => v9pSymlink L target path
  | link oldpath newpath => v9pLink L oldpath newpath
  | rename oldpath newpath => v9pRename L oldpath newpath

/-- The paths of the entries it is about are of the right form. -/
def Proper : Mutation → Prop
  | create path .. | mkdir path _ | unlink path | rmdir path | symlink _ path | link _ path => Virtio9P.Proper path
  | rename oldpath newpath => Virtio9P.Proper oldpath ∧ Virtio9P.Proper newpath

/-- The request is its own, and is about what its paths name. -/
def Faithful : Mutation → TMsg → List (Moment W) → Prop
  | create path .., .lcreate dfid name .., log => Names path dfid name log
  | mkdir path _, .mkdir dfid name .., log => Names path dfid name log
  | unlink path, .unlinkat dfid name _, log => Names path dfid name log
  | rmdir path, .unlinkat dfid name _, log => Names path dfid name log
  | symlink _ path, .symlink dfid name .., log => Names path dfid name log
  | link _ path, .link dfid _ name, log => Names path dfid name log
  | rename oldpath newpath, .renameat olddirfid oldname newdirfid newname, log =>
    Names oldpath olddirfid oldname log ∧ Names newpath newdirfid newname log
  | _, _, _ => False

/-- The paths on which it acts exactly. -/
def Intact : Mutation → Prop
  | create path .. | mkdir path _ | unlink path | rmdir path | symlink _ path => TooDeep path ∨ Kept path
  | link oldpath newpath => Refused oldpath ∨ TooDeep newpath ∨ Kept newpath
  | rename oldpath newpath => TooDeep oldpath ∨ TooDeep newpath ∨ (Kept oldpath ∧ Kept newpath)

end Mutation

/-- Every mutating request it sends is faithful, and when it sends none it returns a negative code. -/
def Verdict (Φ : TMsg → List (Moment W) → Prop) (r : Except Int32 α) (log : List (Moment W)) : Prop :=
  Sound Φ log ∧ (¬ Acted log → ∃ e, r = .error e ∧ e < 0)

/-- The call acts on exactly what it names, or fails. At a fault, nothing else was sent. -/
def ActsExactly (L : Link W) (c : Mutation) (s : St W) : Prop :=
  match c.call L s with
  | .ok r s' => Since s.log (Verdict c.Faithful r) s'
  | .error _ s' => Since s.log (Sound c.Faithful) s'

/-- The parent as `P9_Walk` gets it. -/
theorem components_parent (dir : Str) {last : Str} (hl : slash ∉ last) (hne : last ≠ []) :
    components (splitPath (dir ++ slash :: last) 1024 256).1 = components (dir.take 1023) := by
  rw [splitPath_eq dir hl hne]
  by_cases hd : dir = []
  · rw [hd]; rfl
  · simp only [hd, if_false]

theorem split_unique {dir dir' last last' : Str} (h : dir ++ slash :: last = dir' ++ slash :: last')
    (hl : slash ∉ last) (hl' : slash ∉ last') : dir = dir' ∧ last = last' := by
  have hlen : dir.length = dir'.length := by
    have := strrchr_append dir hl
    rw [h, strrchr_append dir' hl'] at this
    exact (Option.some.inj this).symm
  obtain ⟨hdir, htail⟩ := List.append_inj h hlen
  exact ⟨hdir, (List.cons.inj htail).2⟩

section Exact

variable {path : Str}

/-- A path that `split_path` cuts so deep that `P9_Walk` refuses it. -/
theorem refused_parent_iff (hp : Proper path) : Refused (splitPath path 1024 256).1 ↔ TooDeep path := by
  obtain ⟨dir, last, rfl, hl, hne⟩ := exists_split hp.1 hp.2
  have hlen := length_parent (dir ++ slash :: last)
  unfold Refused
  rw [components_parent dir hl hne]
  constructor
  · rintro (h | h)
    · omega
    · exact ⟨dir, last, rfl, hl, h⟩
  · rintro ⟨dir', last', heq, hl', h⟩
    obtain ⟨rfl, rfl⟩ := split_unique heq hl hl'
    exact .inr h

/-- The parent and the name that the callback works with are the path's exactly when nothing that matters was cut. -/
theorem kept_iff (hp : Proper path) :
    Kept path ↔ components (splitPath path 1024 256).1 = (components path).dropLast ∧
      (components path).getLast? = some (splitPath path 1024 256).2 := by
  obtain ⟨dir, last, rfl, hl, hne⟩ := exists_split hp.1 hp.2
  have hname : (splitPath (dir ++ slash :: last) 1024 256).2 = last.take 255 := by rw [splitPath_eq dir hl hne]
  rw [components_parent dir hl hne, hname, components_split dir hl hne, List.dropLast_concat, List.getLast?_concat,
    Option.some_inj]
  constructor
  · rintro ⟨dir', last', heq, hl', hlen, hcomp⟩
    obtain ⟨rfl, rfl⟩ := split_unique heq hl hl'
    exact ⟨hcomp, (List.take_of_length_le hlen).symm⟩
  · rintro ⟨hcomp, htake⟩
    refine ⟨dir, last, rfl, hl, ?_, hcomp⟩
    rw [htake, List.length_take]
    exact min_le_left _ _

theorem Kept.names (hk : Kept path) (hp : Proper path) {dfid : UInt32} {log : List (Moment W)}
    (ho : Obtained dfid (components (splitPath path 1024 256).1) log) :
    Names path dfid (splitPath path 1024 256).2 log := by
  obtain ⟨hcomp, hname⟩ := (kept_iff hp).mp hk
  exact ⟨hcomp ▸ ho, hname⟩

end Exact

section Calls

variable {L : Link W} {base : List (Moment W)} {Φ : TMsg → List (Moment W) → Prop}

theorem mutating_request {m : TMsg} (hm : m.Small) (hmut : m.mutating = true)
    {T : List (Moment W) → Prop} (hΦ : ∀ log, T log → Φ m log) (parse : Mem → UInt32 → Except Int32 α) :
    Triple (At base fun log => Sound Φ log ∧ T log) (p9Request (v9pTransact L) p9NextTag m parse)
      (fun _ => At base fun log => Sound Φ log ∧ Acted log) fun _ => Since base (Sound Φ) := by
  refine (request_at ((stable_sound Φ).and stable_acted) parse fun tag mo new he ht => ?_).conseq (fun _ h => h)
    (fun _ _ h => h) fun _ _ h => h.mono fun _ h => h.1
  have hdec := decode_frame hm.1 hm.2 tag
  refine ⟨⟨fun tx tag' m' he' hd _ => ?_, ht.1⟩, mo, List.mem_cons_self .., fun hq => ?_⟩
  · rw [he] at he'
    cases he'
    rw [hdec] at hd
    cases hd
    exact hΦ new ht.2
  · exact absurd (hmut.symm.trans (hq _ tag m he hdec)) (by decide)

/-- The state before a call, and after a walk that failed. -/
abbrev Fresh (base : List (Moment W)) (Φ : TMsg → List (Moment W) → Prop) : St W → Prop :=
  At base fun log => Sound Φ log ∧ ¬ Acted log

/-- The state after the request. -/
abbrev Spent (base : List (Moment W)) (Φ : TMsg → List (Moment W) → Prop) : St W → Prop :=
  At base fun log => Sound Φ log ∧ Acted log

theorem stable_fresh : Stable fun log => Sound Φ log ∧ ¬ Acted log := (stable_sound Φ).and stable_not_acted

theorem stable_spent : Stable fun log => Sound Φ log ∧ Acted log := (stable_sound Φ).and stable_acted

theorem Spent.verdict {s : St W} (h : Spent base Φ s) (r : Except Int32 α) : At base (Verdict Φ r) s :=
  h.mono fun _ h => ⟨h.1, fun hno => absurd h.2 hno⟩

theorem Fresh.verdict {s : St W} (h : Fresh base Φ s) {e : Int32} (he : e < 0) :
    At base (Verdict Φ (.error e : Except Int32 α)) s :=
  h.mono fun _ h => ⟨h.1, fun _ => ⟨e, rfl, he⟩⟩

/-- What is left at a fault. -/
theorem Since.sound {T : List (Moment W) → Prop} {s : St W} (h : Since base (fun log => Sound Φ log ∧ T log) s) :
    Since base (Sound Φ) s := h.mono fun _ h => h.1

theorem spent_close (fid : UInt32) : Triple (Spent base Φ) (closeFid L fid) (fun _ => Spent base Φ)
    fun _ => Since base (Sound Φ) :=
  (closeFid_at stable_spent fid).conseq (fun _ h => h) (fun _ _ h => h) fun _ _ h => h.sound

/-- A walk at the start of a call. -/
theorem fresh_walkTo (hL : Errnos L) (path : Str) :
    Triple (Fresh base Φ) (walkTo L path)
      (fun r s => match r with
        | .error e => Fresh base Φ s ∧ e < 0
        | .ok fid => ¬ Refused path ∧
          At base (fun log => Sound Φ log ∧ ¬ Acted log ∧ Obtained fid (components path) log) s)
      fun _ => Since base (Sound Φ) := by
  refine (walkTo_at hL stable_fresh path).conseq (fun _ h => h) (fun r s h => ?_) fun _ _ h => h.sound
  cases r with
  | error e => exact h
  | ok fid => exact ⟨h.1, h.2.mono fun _ h => ⟨h.1.1, h.1.2, h.2⟩⟩

theorem withFid_exact (hL : Errnos L) {path : Str} {work : UInt32 → Client W (Except Int32 α)}
    (hwork : ∀ fid, ¬ Refused path →
      Triple (At base fun log => Sound Φ log ∧ ¬ Acted log ∧ Obtained fid (components path) log) (work fid)
        (fun _ => Spent base Φ) fun _ => Since base (Sound Φ)) :
    Triple (Fresh base Φ) (withFid L path work) (fun r => At base (Verdict Φ r)) fun _ => Since base (Sound Φ) := by
  refine (fresh_walkTo hL path).bind fun r => ?_
  cases r with
  | error e => exact Triple.pure fun s h => h.1.verdict h.2
  | ok fid =>
    refine fun s hs => Triple.bind (hwork fid hs.1) (fun r => ?_) s hs.2
    exact (spent_close fid).bind fun _ => Triple.pure fun s h => h.verdict r

theorem keepFid_exact (hL : Errnos L) {path : Str} {opening : UInt32 → Client W (Except Int32 UInt32)}
    (hopen : ∀ fid, ¬ Refused path →
      Triple (At base fun log => Sound Φ log ∧ ¬ Acted log ∧ Obtained fid (components path) log) (opening fid)
        (fun _ => Spent base Φ) fun _ => Since base (Sound Φ)) :
    Triple (Fresh base Φ) (keepFid L path opening) (fun r => At base (Verdict Φ r)) fun _ => Since base (Sound Φ) := by
  refine (fresh_walkTo hL path).bind fun r => ?_
  cases r with
  | error e => exact Triple.pure fun s h => h.1.verdict h.2
  | ok fid =>
    refine fun s hs => Triple.bind (hopen fid hs.1) (fun r => ?_) s hs.2
    cases r with
    | error e => exact (spent_close fid).bind fun _ => Triple.pure fun s h => h.verdict _
    | ok _ => exact Triple.pure fun s h => h.verdict _

/-- The end of `rename` and `link`. -/
theorem spent_closeBoth (a b : UInt32) (r : Except Int32 α) :
    Triple (Spent base Φ) (do
      let _ ← p9Clunk (v9pTransact L) a
      let _ ← p9Clunk (v9pTransact L) b
      freeFid L a
      freeFid L b
      pure r) (fun r => At base (Verdict Φ r)) fun _ => Since base (Sound Φ) := by
  have hfault : ∀ {β : Type} {x : Client W β},
      Triple (Spent base Φ) x (fun _ => Spent base Φ) (fun _ => Since base fun log => Sound Φ log ∧ Acted log) →
      Triple (Spent base Φ) x (fun _ => Spent base Φ) fun _ => Since base (Sound Φ) :=
    fun h => h.conseq (fun _ h => h) (fun _ _ h => h) fun _ _ h => h.sound
  refine (hfault (clunk_at stable_spent a)).bind fun _ => (hfault (clunk_at stable_spent b)).bind fun _ => ?_
  refine (hfault (freeFid_at stable_spent a)).bind fun _ => (hfault (freeFid_at stable_spent b)).bind fun _ => ?_
  exact Triple.pure fun s h => h.verdict r

/-- Two walks, then the request: the frame of `rename` and `link`. -/
theorem twoWalks_exact (hL : Errnos L) {path path' : Str} {work : UInt32 → UInt32 → Client W (Except Int32 α)}
    (hwork : ∀ fid fid', ¬ Refused path → ¬ Refused path' →
      Triple (At base fun log => Sound Φ log ∧ ¬ Acted log ∧ Obtained fid (components path) log ∧
          Obtained fid' (components path') log) (work fid fid')
        (fun r => At base (Verdict Φ r)) fun _ => Since base (Sound Φ)) :
    Triple (Fresh base Φ) (do
      match ← walkTo L path with
      | .error e => pure (.error e)
      | .ok fid => do
        match ← walkTo L path' with
        | .error e => do
          closeFid L fid
          pure (.error e)
        | .ok fid' => work fid fid') (fun r => At base (Verdict Φ r)) fun _ => Since base (Sound Φ) := by
  refine (fresh_walkTo hL path).bind fun r => ?_
  cases r with
  | error e => exact Triple.pure fun s h => h.1.verdict h.2
  | ok fid =>
    rintro s ⟨href, hs⟩
    have hst := (stable_fresh (Φ := Φ)).and (stable_obtained (W := W) fid (components path))
    refine Triple.bind (P := At base fun log => (Sound Φ log ∧ ¬ Acted log) ∧ Obtained fid (components path) log)
      ((walkTo_at hL hst path').conseq (fun _ h => h) (fun _ _ h => h) fun _ _ h => h.mono fun _ h => h.1.1)
      (fun r => ?_) s (hs.mono fun _ h => ⟨⟨h.1, h.2.1⟩, h.2.2⟩)
    cases r with
    | error e =>
      rintro s ⟨hs, he⟩
      have hclose : Triple (Fresh base Φ) (closeFid L fid) (fun _ => Fresh base Φ) fun _ => Since base (Sound Φ) :=
        (closeFid_at stable_fresh fid).conseq (fun _ h => h) (fun _ _ h => h) fun _ _ h => h.sound
      exact Triple.bind (R := fun r => At base (Verdict Φ r)) hclose (fun _ => Triple.pure fun s h => h.verdict he) s
        (hs.mono fun _ h => h.1)
    | ok fid' =>
      rintro s ⟨href', hs⟩
      exact hwork fid fid' href href' s (hs.mono fun _ h => ⟨h.1.1.1, h.1.1.2, h.1.2, h.2⟩)

theorem length_name_lt (path : Str) : (splitPath path 1024 256).2.length < 65536 :=
  (length_name path).trans (by decide)

theorem wireStr_name (path : Str) : wireStr (splitPath path 1024 256).2 = (splitPath path 1024 256).2 :=
  wireStr_of_lt (length_name_lt path)

/-- A request about an entry of the directory that was walked to. -/
theorem entry_request {path : Str} (hp : Proper path) (hpath : TooDeep path ∨ Kept path) {m : UInt32 → Str → TMsg}
    (hm : ∀ fid name, name.length < 65536 → (m fid name).Small) (hmut : ∀ fid name, (m fid name).mutating = true)
    (hΦ : ∀ fid name log, Names path fid name log → Φ (m fid name) log)
    (parse : Mem → UInt32 → Except Int32 α) (fid : UInt32) (href : ¬ Refused (splitPath path 1024 256).1) :
    Triple (At base fun log => Sound Φ log ∧ ¬ Acted log ∧ Obtained fid (components (splitPath path 1024 256).1) log)
      (p9Request (v9pTransact L) p9NextTag (m fid (wireStr (splitPath path 1024 256).2)) parse)
      (fun _ => Spent base Φ) fun _ => Since base (Sound Φ) := by
  have hkept : Kept path := hpath.resolve_left fun hdeep => href ((refused_parent_iff hp).mpr hdeep)
  rw [wireStr_name]
  exact mutating_request (hm fid _ (length_name_lt path)) (hmut fid _)
    (fun log h => hΦ fid _ log (hkept.names hp h.2)) parse

theorem withParent_exact (hL : Errnos L) {path : Str} (hp : Proper path) (hpath : TooDeep path ∨ Kept path)
    {work : UInt32 → Str → Client W (Except Int32 Unit)} {m : UInt32 → Str → TMsg}
    (hwork : ∀ fid name, work fid name = p9Request (v9pTransact L) p9NextTag (m fid (wireStr name)) noFields)
    (hm : ∀ fid name, name.length < 65536 → (m fid name).Small) (hmut : ∀ fid name, (m fid name).mutating = true)
    (hΦ : ∀ fid name log, Names path fid name log → Φ (m fid name) log) :
    Triple (Fresh base Φ) (withParent L path work) (fun r => At base (Verdict Φ r)) fun _ => Since base (Sound Φ) :=
  withFid_exact hL fun fid href => by
    rw [hwork]
    exact entry_request hp hpath hm hmut hΦ noFields fid href

end Calls

/-- On an intact path the call acts exactly. -/
theorem exact_of_intact {L : Link W} {base : List (Moment W)} (hL : Errnos L) {c : Mutation} (hp : c.Proper)
    (hi : c.Intact) :
    Triple (Fresh base (c.Faithful (W := W))) (c.call L) (fun r => At base (Verdict c.Faithful r))
      fun _ => Since base (Sound c.Faithful) := by
  cases c with
  | create path mode flags =>
    refine Triple.mapped ((keepFid_exact hL fun fid href => ?_).post fun r s h =>
      h.mono fun log hv => ⟨hv.1, fun hno => ?_⟩)
    · rw [p9Lcreate_eq]
      exact entry_request (m := fun fid name => .lcreate fid name _ _ _) hp hi (fun _ _ => TMsg.small_of_name rfl)
        (fun _ _ => rfl) (fun _ _ _ h => h) parseIounit fid href
    · obtain ⟨e, rfl, he⟩ := hv.2 hno
      exact ⟨e, rfl, he⟩
  | mkdir path mode =>
    exact withParent_exact (m := fun fid name => .mkdir fid name _ _) hL hp hi (fun _ _ => p9Mkdir_eq ..)
      (fun _ _ => TMsg.small_of_name rfl) (fun _ _ => rfl) fun _ _ _ h => h
  | unlink path | rmdir path =>
    exact withParent_exact (m := fun fid name => .unlinkat fid name _) hL hp hi (fun _ _ => p9Unlinkat_eq ..)
      (fun _ _ => TMsg.small_of_name rfl) (fun _ _ => rfl) fun _ _ _ h => h
  | symlink target path =>
    exact withParent_exact (m := fun fid name => .symlink fid name (wireStr target) _) hL hp hi
      (fun _ _ => p9Symlink_eq ..) (fun fid _ h => TMsg.small_symlink h (length_wireStr_lt target) fid _)
      (fun _ _ => rfl) fun _ _ _ h => h
  | link oldpath newpath =>
    refine twoWalks_exact hL fun srcfid dfid hold hnew => ?_
    have hkept : Kept newpath := (hi.resolve_left hold).resolve_left fun hdeep =>
      hnew ((refused_parent_iff hp).mpr hdeep)
    refine Triple.bind ?_ fun r => spent_closeBoth dfid srcfid r
    rw [p9Link_eq, wireStr_name]
    exact mutating_request (TMsg.small_of_name rfl (length_name_lt newpath)) rfl
      (fun log h => hkept.names hp h.2.2) noFields
  | rename oldpath newpath =>
    refine twoWalks_exact hL fun olddirfid newdirfid hrefold hrefnew => ?_
    obtain ⟨hkold, hknew⟩ := (hi.resolve_left fun hdeep => hrefold ((refused_parent_iff hp.1).mpr hdeep)).resolve_left
      fun hdeep => hrefnew ((refused_parent_iff hp.2).mpr hdeep)
    refine Triple.bind ?_ fun r => spent_closeBoth olddirfid newdirfid r
    rw [p9Renameat_eq, wireStr_name, wireStr_name]
    exact mutating_request (TMsg.small_renameat (length_name_lt oldpath) (length_name_lt newpath) _ _) rfl
      (fun log h => ⟨hkold.names hp.1 h.2.1, hknew.names hp.2 h.2.2⟩) noFields

/-! ## A server that lets every walk succeed -/

section Walker

/-- The reply of a server that lets every walk succeed; nothing else can be posted. -/
def walkerReply (post : Post) : Polled :=
  match decode post.tx with
  | some (tag, .walk _ _ names) => (RMsg.walk (names.map fun _ => ⟨0, 0, 0⟩)).polled tag post.rxBuf
  | _ => .refused

/-- The link to such a server. -/
def walker : Link Unit where
  poll := fun post => pure (walkerReply post)
  drain := fun post => pure (0, post.rxBuf)
  cleanupVirtio := id
  initVirtio := pure false
  allocVec := fun _ => pure true

theorem errnos_walker : Errnos walker := by
  intro post w n rx w' hpoll htype
  have hreply : walkerReply post = .reply n rx := by
    injection hpoll
  unfold walkerReply at hreply
  split at hreply
  · rename_i tag _ _ names _
    unfold RMsg.polled at hreply
    injection hreply with _ hrx
    have hread := Mem.read_write_self post.rxBuf 0 ((RMsg.walk (names.map fun _ => ⟨0, 0, 0⟩)).frame tag)
    rw [RMsg.length_frame, hrx] at hread
    rw [type_of_frame hread] at htype
    exact absurd htype (by simp [RMsg.type, p9RLError])
  · cases hreply

/-- The walks of the log are among `walks`. -/
def OnlyWalks (walks : List (UInt32 × List Str)) (log : List (Moment W)) : Prop :=
  ∀ mo ∈ log, ∀ tx tag root fid names, mo.event = .send tx → decode tx = some (tag, .walk root fid names) →
    (fid, names) ∈ walks

theorem OnlyWalks.obtained {walks : List (UInt32 × List Str)} {log : List (Moment W)} (h : OnlyWalks walks log)
    {fid : UInt32} {names : List Str} (ho : Obtained fid names log) : (fid, names) ∈ walks := by
  obtain ⟨l₁, l₂, hold, ret, walk, rfl, -, -, tx, tag, hsend, hdec⟩ := ho
  exact h walk (by simp) tx tag walk.h.rootFid fid names hsend hdec

/-- A walk that is not refused, from a state with a pool. -/
theorem walker_walkTo {path : Str} (href : ¬ Refused path) {s : St Unit} {pool : FidPool}
    (hpool : s.h.fidPool = some pool) :
    ∃ s', walkTo walker path s = .ok (.ok (fidPoolAlloc pool).1) s' ∧ s'.h.fidPool = some (fidPoolAlloc pool).2 ∧
      s'.h.inReset = s.h.inReset ∧ ∀ walks, OnlyWalks walks s.log →
        OnlyWalks (((fidPoolAlloc pool).1, components path) :: walks) s'.log := by
  obtain ⟨hlen, hdeep⟩ : path.length < 1024 ∧ (components path).length ≤ p9MaxWElem := by
    unfold Refused at href
    omega
  set fid := (fidPoolAlloc pool).1
  set m : TMsg := .walk s.h.rootFid fid (components path) with hm
  set s₁ : St Unit := (s.pooled (some (fidPoolAlloc pool).2) s.w).logged (.alloc fid)
  have hsmall := walk_small s.h.rootFid fid hlen hdeep
  have hdec : decode (m.frame s₁.h.nextTag) = some (s₁.h.nextTag, m) :=
    decode_frame (walk_wf s.h.rootFid fid hlen hdeep) (by unfold largestRequest at hsmall; omega) _
  set r : RMsg := .walk ((components path).map fun _ => ⟨0, 0, 0⟩) with hr
  have hrlen : r.body.length = 2 + 13 * (components path).length := by
    rw [length_qids, List.length_map]
  unfold p9MaxWElem at hdeep
  have hpoll : walker.poll (s₁.ask m) s₁.w = .ok (r.polled s₁.h.nextTag s₁.h.rxBuf) () := by
    have hreply : walkerReply (s₁.ask m) = r.polled s₁.h.nextTag s₁.h.rxBuf := by
      unfold walkerReply St.ask
      rw [hdec]
    show EStateM.Result.ok (walkerReply (s₁.ask m)) () = _
    rw [hreply]
  have hne : UInt32.ofNat (7 + r.body.length) ≠ 0 := by
    intro h
    have := congrArg UInt32.toNat h
    rw [UInt32.toNat_ofNat', Nat.mod_eq_of_lt (by omega)] at this
    exact absurd this (by simp)
  have hans := answer_walk (carries_write (m := r) (by omega) s₁.h.nextTag s₁.h.rxBuf) (by simp; omega)
  have hreq := request_of_reply hne hpoll parseWalk
  rw [hans, List.length_map] at hreq
  set s₂ := s₁.replied m (UInt32.ofNat (7 + r.body.length)) (s₁.h.rxBuf.write 0 (r.frame s₁.h.nextTag)) ()
  have hwalk : p9Walk (v9pTransact walker) s.h.rootFid fid path s₁ = .ok (.ok ()) s₂ := by
    have href' : ¬ (1024 ≤ path.length ∨ p9MaxWElem < (components path).length) := href
    rw [p9Walk_eq, if_neg href', run_bind_ok hreq, walkEnd_full]
    rfl
  have hrun : walkTo walker path s = .ok (.ok fid) (s₂.logged (.hold fid)) := by
    unfold walkTo drawFid thePool
    rw [bind_assoc, bind_assoc, handler_bind, hpool]
    show (p9Walk (v9pTransact walker) s.h.rootFid fid path >>= _) s₁ = _
    rw [run_bind_ok hwalk]
    rfl
  refine ⟨_, hrun, rfl, rfl, fun walks hw mo hmo tx tag root fid' names he hd => ?_⟩
  have hlog : (s₂.logged (.hold fid)).log = ⟨.hold fid, s₂.h, s₂.w⟩ :: ⟨.returned _, _, ()⟩ ::
      ⟨.send (m.frame s₁.h.nextTag), _, ()⟩ :: ⟨.alloc fid, _, ()⟩ :: s.log := rfl
  rw [hlog] at hmo
  simp only [List.mem_cons] at hmo
  rcases hmo with rfl | rfl | rfl | rfl | hmo
  · cases he
  · cases he
  · cases he
    rw [hdec] at hd
    have hwalked : m = .walk root fid' names := (Prod.mk.inj (Option.some.inj hd)).2
    cases hm.symm.trans hwalked
    exact List.mem_cons_self ..
  · cases he
  · exact List.mem_cons_of_mem _ (hw mo hmo tx tag root fid' names he hd)

/-- A request other than a walk is not posted, but it was sent. -/
theorem walker_request {m : TMsg} (hm : m.Small) (hmut : m.mutating = true) (parse : Mem → UInt32 → Except Int32 α)
    (s : St Unit) : ∃ s' ret sent tag, p9Request (v9pTransact walker) p9NextTag m parse s = .ok (.error (-5)) s' ∧
      s'.log = ret :: sent :: s.log ∧ sent.event = .send (m.frame tag) ∧ s'.h.fidPool = s.h.fidPool ∧
      s'.h.inReset = s.h.inReset := by
  have hpoll : walker.poll (s.ask m) s.w = .ok .refused () := by
    have hreply : walkerReply (s.ask m) = .refused := by
      unfold walkerReply St.ask
      rw [decode_frame hm.1 hm.2]
      cases m <;> first | rfl | cases hmut
    show EStateM.Result.ok (walkerReply (s.ask m)) () = _
    rw [hreply]
  exact ⟨_, _, _, _, request_of_refused hpoll parse, rfl, rfl, rfl, rfl⟩

/-- The start of a run on it. -/
def walkerStart : St Unit := ⟨{ startHandler zeroes zeroes with fidPool := some freshPool }, (), []⟩

theorem Sound.at {Φ : TMsg → List (Moment W) → Prop} {mo : Moment W} {l₂ : List (Moment W)} :
    ∀ {l₁ : List (Moment W)}, Sound Φ (l₁ ++ mo :: l₂) → ∀ {tx tag m}, mo.event = .send tx →
      decode tx = some (tag, m) → m.mutating = true → Φ m l₂
  | [], h, _, _, _, he, hd, hm => h.1 _ _ _ he hd hm
  | _ :: _, h, _, _, _, he, hd, hm => h.2.at he hd hm

/-- What a call that acts exactly has sent is faithful. -/
theorem ActsExactly.faithful {c : Mutation} (h : ActsExactly walker c walkerStart) {l₁ l₂ : List (Moment Unit)}
    {sent : Moment Unit} (hlog : (finalState (c.call walker walkerStart)).log = l₁ ++ sent :: l₂)
    {m : TMsg} {tag : UInt16}
    (hsent : sent.event = .send (m.frame tag)) (hm : m.Small) (hmut : m.mutating = true) : c.Faithful m l₂ := by
  have hsound : Since [] (Sound c.Faithful) (finalState (c.call walker walkerStart)) := by
    unfold ActsExactly at h
    cases hr : c.call walker walkerStart with
    | ok r s' => rw [hr] at h; exact h.mono fun _ h => h.1
    | error e s' => rw [hr] at h; exact h
  obtain ⟨new, hnew, hs⟩ := hsound
  rw [List.append_nil] at hnew
  rw [hlog] at hnew
  exact (hnew ▸ hs).at hsent (decode_frame hm.1 hm.2 tag) hmut

/-- The log only grows while fids are clunked and freed. -/
theorem walker_grows {x : Client Unit β} {s' : St Unit}
    (hx : Triple (At s'.log fun _ => True) x (fun _ => At s'.log fun _ => True) fun _ => Since s'.log fun _ => True)
    (hin : s'.h.inReset = false) : ∃ l₁, (finalState (x s')).log = l₁ ++ s'.log := by
  obtain ⟨l₁, hlog, -⟩ := hx.final (fun _ h => h.2) ⟨hin, [], rfl, trivial⟩
  exact ⟨l₁, hlog⟩

/-- A callback that walks to `path` and sends `m`: the request is in the log, after no other walk. -/
theorem walker_sends {path : Str} (href : ¬ Refused path) {m : TMsg} (hm : m.Small) (hmut : m.mutating = true)
    (parse : Mem → UInt32 → Except Int32 α) (call : Client Unit β) (rest : Except Int32 α → Client Unit β)
    (hcall : ∀ s', walkTo walker path walkerStart = .ok (.ok 1) s' →
      call walkerStart = (p9Request (v9pTransact walker) p9NextTag m parse >>= rest) s')
    (hrest : ∀ r (base : List (Moment Unit)), Triple (At base fun _ => True) (rest r) (fun _ => At base fun _ => True)
      fun _ => Since base fun _ => True) :
    ∃ l₁ sent l₂ tag, (finalState (call walkerStart)).log = l₁ ++ sent :: l₂ ∧ sent.event = .send (m.frame tag) ∧
      OnlyWalks [(1, components path)] l₂ := by
  obtain ⟨s', hwalk, -, hin, hwalks⟩ := walker_walkTo href (s := walkerStart) rfl
  obtain ⟨s'', ret, sent, tag, hreq, hlog, hsent, -, hin'⟩ := walker_request hm hmut parse s'
  obtain ⟨l₁, hl₁⟩ := walker_grows (hrest (.error (-5)) s''.log) (hin'.trans hin)
  refine ⟨l₁ ++ [ret], sent, s'.log, tag, ?_, hsent, hwalks [] fun mo hmo => absurd hmo List.not_mem_nil⟩
  rw [hcall s' hwalk, run_bind_ok hreq, hl₁, hlog]
  simp

theorem true_stable : Stable fun _ : List (Moment W) => True := fun _ _ _ _ => trivial

/-- What a call on a path with one entry sends. -/
theorem walker_entry {path : Str} (hp : Proper path) {c : Mutation} (hacts : ActsExactly walker c walkerStart)
    {m : TMsg} (hm : m.Small) (hmut : m.mutating = true) (parse : Mem → UInt32 → Except Int32 α)
    (rest : Except Int32 α → Client Unit (Except Int32 Unit))
    (hcall : ∀ s', walkTo walker (splitPath path 1024 256).1 walkerStart = .ok (.ok 1) s' →
      c.call walker walkerStart = (p9Request (v9pTransact walker) p9NextTag m parse >>= rest) s')
    (hrest : ∀ r (base : List (Moment Unit)), Triple (At base fun _ => True) (rest r) (fun _ => At base fun _ => True)
      fun _ => Since base fun _ => True)
    (hfaithful : ∀ log : List (Moment Unit), c.Faithful m log → Names path 1 (splitPath path 1024 256).2 log) :
    TooDeep path ∨ Kept path := by
  by_cases hdeep : TooDeep path
  · exact .inl hdeep
  · have href : ¬ Refused (splitPath path 1024 256).1 := fun h => hdeep ((refused_parent_iff hp).mp h)
    obtain ⟨l₁, sent, l₂, tag, hlog, hsent, hwalks⟩ := walker_sends href hm hmut _ _ _ hcall hrest
    obtain ⟨hob, hlast⟩ := hfaithful l₂ (hacts.faithful hlog hsent hm hmut)
    have hmem := hwalks.obtained hob
    rw [List.mem_singleton, Prod.mk.injEq] at hmem
    exact .inr ((kept_iff hp).mpr ⟨hmem.2.symm, hlast⟩)

theorem closeFid_grows {γ : Type} (fid : UInt32) (r : γ) (base : List (Moment Unit)) :
    Triple (At base fun _ => True) (closeFid walker fid >>= fun _ => pure r) (fun _ => At base fun _ => True)
      fun _ => Since base fun _ => True :=
  (closeFid_at true_stable fid).bind fun _ => Triple.ret

theorem walker_parent {path : Str} (hp : Proper path) {c : Mutation} (hacts : ActsExactly walker c walkerStart)
    {work : UInt32 → Str → Client Unit (Except Int32 Unit)} {m : UInt32 → Str → TMsg}
    (hcall : c.call walker = withParent walker path work)
    (hwork : ∀ fid name, work fid name = p9Request (v9pTransact walker) p9NextTag (m fid (wireStr name)) noFields)
    (hm : ∀ fid name, name.length < 65536 → (m fid name).Small) (hmut : ∀ fid name, (m fid name).mutating = true)
    (hfaithful : ∀ name (log : List (Moment Unit)), c.Faithful (m 1 name) log → Names path 1 name log) :
    TooDeep path ∨ Kept path := by
  refine walker_entry hp hacts (hm 1 _ (length_name_lt path)) (hmut 1 _) noFields
    (fun r => closeFid walker 1 >>= fun _ => pure r) (fun s' hwalk => ?_) (fun r base => closeFid_grows 1 r base)
    fun log h => hfaithful _ log h
  rw [hcall, withParent, withFid, run_bind_ok hwalk]
  simp only [hwork, wireStr_name]

/-- What a call with two walks sends. -/
theorem walker_sends_two {path path' : Str} (href : ¬ Refused path) (href' : ¬ Refused path') {m : TMsg} (hm : m.Small)
    (hmut : m.mutating = true) (parse : Mem → UInt32 → Except Int32 α) (call : Client Unit β)
    (rest : Except Int32 α → Client Unit β)
    (hcall : ∀ s' s'', walkTo walker path walkerStart = .ok (.ok 1) s' → walkTo walker path' s' = .ok (.ok 2) s'' →
      call walkerStart = (p9Request (v9pTransact walker) p9NextTag m parse >>= rest) s'')
    (hrest : ∀ r (base : List (Moment Unit)), Triple (At base fun _ => True) (rest r) (fun _ => At base fun _ => True)
      fun _ => Since base fun _ => True) :
    ∃ l₁ sent l₂ tag, (finalState (call walkerStart)).log = l₁ ++ sent :: l₂ ∧ sent.event = .send (m.frame tag) ∧
      OnlyWalks [(2, components path'), (1, components path)] l₂ := by
  obtain ⟨s', hwalk, hpool, hin, hwalks⟩ := walker_walkTo href (s := walkerStart) rfl
  obtain ⟨s'', hwalk', -, hin', hwalks'⟩ := walker_walkTo href' hpool
  obtain ⟨s₃, ret, sent, tag, hreq, hlog, hsent, -, hin₃⟩ := walker_request hm hmut parse s''
  obtain ⟨l₁, hl₁⟩ := walker_grows (hrest (.error (-5)) s₃.log) (hin₃.trans (hin'.trans hin))
  refine ⟨l₁ ++ [ret], sent, s''.log, tag, ?_, hsent, hwalks' _ (hwalks [] fun mo hmo => absurd hmo List.not_mem_nil)⟩
  rw [hcall s' s'' hwalk hwalk', run_bind_ok hreq, hl₁, hlog]
  simp

theorem closeBoth_grows {γ : Type} (a b : UInt32) (r : γ) (base : List (Moment Unit)) :
    Triple (At base fun _ => True) (do
      let _ ← p9Clunk (v9pTransact walker) a
      let _ ← p9Clunk (v9pTransact walker) b
      freeFid walker a
      freeFid walker b
      pure r) (fun _ => At base fun _ => True) fun _ => Since base fun _ => True :=
  (clunk_at true_stable a).bind fun _ => (clunk_at true_stable b).bind fun _ =>
    (freeFid_at true_stable a).bind fun _ => (freeFid_at true_stable b).bind fun _ => Triple.ret

/-- A call that acts exactly on this server is about an intact path. -/
theorem intact_of_exact {c : Mutation} (hp : c.Proper) (hacts : ActsExactly walker c walkerStart) : c.Intact := by
  cases c with
  | create path mode flags =>
    refine walker_entry hp hacts (m := .lcreate 1 (splitPath path 1024 256).2 (openFlags flags) mode 0)
      (TMsg.small_of_name rfl (length_name_lt path)) rfl parseIounit
      (fun r => (·.map fun _ => ()) <$> (match r with
        | .error e => closeFid walker 1 >>= fun _ => pure (.error e)
        | .ok _ => pure (.ok 1) : Client Unit (Except Int32 UInt32))) (fun s' hwalk => ?_) (fun r base => ?_)
          fun log h => h
    · rw [Mutation.call, v9pCreate, keepFid, map_bind, run_bind_ok hwalk]
      simp only [p9Lcreate_eq, wireStr_name]
      exact congrFun (map_bind _ _ _) s'
    · refine Triple.map ?_
      cases r with
      | error e => exact closeFid_grows 1 _ base
      | ok _ => exact Triple.ret
  | mkdir path mode =>
    exact walker_parent (m := fun fid name => .mkdir fid name _ _) hp hacts rfl (fun _ _ => p9Mkdir_eq ..)
      (fun _ _ => TMsg.small_of_name rfl) (fun _ _ => rfl) fun _ _ h => h
  | unlink path | rmdir path =>
    exact walker_parent (m := fun fid name => .unlinkat fid name _) hp hacts rfl (fun _ _ => p9Unlinkat_eq ..)
      (fun _ _ => TMsg.small_of_name rfl) (fun _ _ => rfl) fun _ _ h => h
  | symlink target path =>
    exact walker_parent (m := fun fid name => .symlink fid name (wireStr target) _) hp hacts rfl
      (fun _ _ => p9Symlink_eq ..) (fun fid _ h => TMsg.small_symlink h (length_wireStr_lt target) fid _)
      (fun _ _ => rfl) fun _ _ h => h
  | link oldpath newpath =>
    by_cases hold : Refused oldpath
    · exact .inl hold
    by_cases hdeep : TooDeep newpath
    · exact .inr (.inl hdeep)
    have hnew : ¬ Refused (splitPath newpath 1024 256).1 := fun h => hdeep ((refused_parent_iff hp).mp h)
    have hm : (TMsg.link 2 1 (splitPath newpath 1024 256).2).Small :=
      TMsg.small_of_name rfl (length_name_lt newpath)
    obtain ⟨l₁, sent, l₂, tag, hlog, hsent, hwalks⟩ := walker_sends_two hold hnew hm rfl noFields
      ((Mutation.link oldpath newpath).call walker) _ (fun s' s'' hwalk hwalk' => by
        rw [Mutation.call, v9pLink, run_bind_ok hwalk]
        simp only []
        rw [run_bind_ok hwalk']
        simp only [p9Link_eq, wireStr_name]) fun r base => closeBoth_grows 2 1 r base
    obtain ⟨hob, hlast⟩ := hacts.faithful hlog hsent hm rfl
    have hmem := hwalks.obtained hob
    simp at hmem
    exact .inr (.inr ((kept_iff hp).mpr ⟨hmem.symm, hlast⟩))
  | rename oldpath newpath =>
    by_cases hdold : TooDeep oldpath
    · exact .inl hdold
    by_cases hdnew : TooDeep newpath
    · exact .inr (.inl hdnew)
    have hold : ¬ Refused (splitPath oldpath 1024 256).1 := fun h => hdold ((refused_parent_iff hp.1).mp h)
    have hnew : ¬ Refused (splitPath newpath 1024 256).1 := fun h => hdnew ((refused_parent_iff hp.2).mp h)
    have hm : (TMsg.renameat 1 (splitPath oldpath 1024 256).2 2 (splitPath newpath 1024 256).2).Small :=
      TMsg.small_renameat (length_name_lt oldpath) (length_name_lt newpath) 1 2
    obtain ⟨l₁, sent, l₂, tag, hlog, hsent, hwalks⟩ := walker_sends_two hold hnew hm rfl noFields
      ((Mutation.rename oldpath newpath).call walker) _ (fun s' s'' hwalk hwalk' => by
        rw [Mutation.call, v9pRename, run_bind_ok hwalk]
        simp only []
        rw [run_bind_ok hwalk']
        simp only [p9Renameat_eq, wireStr_name]) fun r base => closeBoth_grows 1 2 r base
    obtain ⟨⟨hobold, hlastold⟩, hobnew, hlastnew⟩ := hacts.faithful hlog hsent hm rfl
    have hmold := hwalks.obtained hobold
    have hmnew := hwalks.obtained hobnew
    simp at hmold hmnew
    exact .inr (.inr ⟨(kept_iff hp.1).mpr ⟨hmold.symm, hlastold⟩, (kept_iff hp.2).mpr ⟨hmnew.symm, hlastnew⟩⟩)

end Walker

/-! ## The paths that are acted on exactly -/

/-- **A mutating callback acts on exactly what its paths name, or fails, exactly when `split_path` cuts nothing that
matters off them** or leaves a parent that is refused. -/
theorem acts_exactly_iff {c : Mutation} (hp : c.Proper) :
    (∀ (W : Type) (L : Link W), Errnos L → ∀ s, s.h.inReset = false → ActsExactly L c s) ↔ c.Intact := by
  constructor
  · exact fun h => intact_of_exact hp (h Unit walker errnos_walker walkerStart rfl)
  · intro hi W L hL s hin
    have hfresh : Fresh s.log c.Faithful s := ⟨hin, [], rfl, trivial, fun ⟨mo, hmo, _⟩ => absurd hmo List.not_mem_nil⟩
    have hcall := exact_of_intact hL hp hi s hfresh
    unfold ActsExactly
    cases hr : c.call L s with
    | ok r s' => rw [hr] at hcall; exact hcall.2
    | error e s' => rw [hr] at hcall; exact hcall

/-- `mkdir("/a")`. -/
theorem acts_exactly_mkdir : (Mutation.mkdir [slash, 0x61] 0x1ED).Proper ∧
    ∀ (W : Type) (L : Link W), Errnos L → ∀ s, s.h.inReset = false →
      ActsExactly L (.mkdir [slash, 0x61] 0x1ED) s := by
  have hp : (Mutation.mkdir [slash, 0x61] 0x1ED).Proper := ⟨rfl, by decide⟩
  exact ⟨hp, (acts_exactly_iff hp).mpr (.inr ⟨[], [0x61], rfl, by decide, by decide, rfl⟩)⟩

section LongName

variable {n : Nat}

theorem letters_ne_nil (hn : 0 < n) : letters n ≠ [] := List.ne_nil_of_length_pos (by rwa [length_letters])

theorem slash_letters (n : Nat) : slash ∉ letters n := by
  rw [letters, List.mem_replicate]
  exact fun h => absurd h.2 (by decide)

theorem take_letters {k : Nat} (h : k ≤ n) : (letters n).take k = letters k := by
  rw [letters, List.take_replicate, min_eq_left h]
  rfl

theorem proper_letters (hn : 0 < n) : Proper (slash :: letters n) := by
  refine ⟨rfl, fun h => ?_⟩
  rw [List.getLast?_cons] at h
  have hmem : slash ∈ letters n := by
    rw [List.getLast?_eq_some_getLast (letters_ne_nil hn), Option.getD_some, Option.some_inj] at h
    exact h ▸ List.getLast_mem (letters_ne_nil hn)
  exact slash_letters n hmem

/-- `split_path` of a file in the root directory whose name is too long. -/
theorem splitPath_letters (hn : 255 ≤ n) : splitPath (slash :: letters n) 1024 256 = ([slash], letters 255) := by
  rw [show slash :: letters n = [] ++ slash :: letters n from rfl,
    splitPath_eq [] (slash_letters n) (letters_ne_nil (by omega)), take_letters hn]
  rfl

theorem not_kept_letters (hn : 255 < n) : ¬ Kept (slash :: letters n) := by
  intro hk
  have hname := ((kept_iff (proper_letters (by omega))).mp hk).2
  rw [splitPath_letters (by omega), show slash :: letters n = [] ++ slash :: letters n from rfl,
    components_split [] (slash_letters n) (letters_ne_nil (by omega)), List.getLast?_concat] at hname
  have := congrArg List.length (Option.some.inj hname)
  rw [length_letters, length_letters] at this
  omega

theorem not_tooDeep_letters (hn : 255 ≤ n) : ¬ TooDeep (slash :: letters n) := by
  intro hd
  have href := (refused_parent_iff (proper_letters (by omega))).mpr hd
  rw [splitPath_letters hn] at href
  exact absurd href (by unfold Refused; decide)

theorem mkdir_letters (hn : 255 < n) :
    ¬ ActsExactly walker (.mkdir (slash :: letters n) 0x1ED) walkerStart ∧
    ∃ mo ∈ (finalState (v9pMkdir walker (slash :: letters n) 0x1ED walkerStart)).log, ∃ tx tag,
      mo.event = .send tx ∧ decode tx = some (tag, .mkdir 1 (letters 255) 0x1ED 0) := by
  constructor
  · intro hacts
    have hp : (Mutation.mkdir (slash :: letters n) 0x1ED).Proper := proper_letters (by omega)
    rcases intact_of_exact hp hacts with hdeep | hkept
    · exact not_tooDeep_letters (by omega) hdeep
    · exact not_kept_letters hn hkept
  · have hm : (TMsg.mkdir 1 (letters 255) 0x1ED 0).Small := TMsg.small_of_name rfl (by simp)
    obtain ⟨l₁, sent, l₂, tag, hlog, hsent, -⟩ := walker_sends (show ¬ Refused [slash] by unfold Refused; decide) hm rfl
      noFields (v9pMkdir walker (slash :: letters n) 0x1ED)
      (fun r => closeFid walker 1 >>= fun _ => pure r) (fun s' hwalk => by
        rw [v9pMkdir, withParent, splitPath_letters (by omega), withFid, run_bind_ok hwalk]
        simp only [p9Mkdir_eq]
        rw [wireStr_of_lt (by simp)]) fun r base => closeFid_grows 1 r base
    exact ⟨sent, by rw [hlog]; simp, _, tag, hsent, decode_frame hm.1 hm.2 tag⟩

end LongName

/-- A `mkdir` of a name of 256 bytes makes a directory with a name of 255. -/
theorem mkdir_cut_name :
    ¬ ActsExactly walker (.mkdir (slash :: letters 256) 0x1ED) walkerStart ∧
    ∃ mo ∈ (finalState (v9pMkdir walker (slash :: letters 256) 0x1ED walkerStart)).log, ∃ tx tag,
      mo.event = .send tx ∧ decode tx = some (tag, .mkdir 1 (letters 255) 0x1ED 0) :=
  mkdir_letters (by decide)

end Virtio9P
