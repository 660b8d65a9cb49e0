import Virtio9P.Parsing

/-!
# The negotiated message size

`tx_buf` and `rx_buf` have `P9_MSIZE` bytes. `P9_Version` stores whatever size the server names, and everything after
it relies on that size: requests are built up to it, the receive buffer is posted with it, and the byte counts of
`P9_Read`, `P9_Write` and `P9_Readdir` are capped by `msize - 11` and `msize - 23`. `Fits` is what has to hold when a
message is handed to `V9P_Transact`. It holds for every later operation, whatever its arguments, exactly when the size
is at most `P9_MSIZE` and at least the largest request, a `Tsymlink` with a long target (`msize_fits_iff`).
`P9_Version` checks neither: `msize_overflow` is a write that runs over the end of `tx_buf`.
-/

namespace Virtio9P

open Lib

variable {W α : Type}

/-! ## What has to fit -/

/-- A request of `len` bytes fits `tx_buf` and the negotiated size, the receive length posted with it fits `rx_buf`,
and the caps on byte counts do not wrap. -/
structure Fits (h : Handler) (len : Nat) : Prop where
  buffer : len ≤ p9MSize.toNat
  negotiated : len ≤ h.msize.toNat
  posted : h.msize ≤ p9MSize
  readCap : (h.msize - 11).toNat + 11 = h.msize.toNat
  writeCap : (h.msize - 23).toNat + 23 = h.msize.toNat


/-- The size of the largest request: a `Tsymlink` with the longest name and target. -/
def largestRequest : Nat := 7 + (4 + (2 + 255) + (2 + 65535) + 4)

/-- The sizes that are neither too small nor too large. -/
def Roomy (msize : UInt32) : Prop := largestRequest ≤ msize.toNat ∧ msize ≤ p9MSize

/-- Everything sent fits, and so does what a reset sends for its handshake when the size is good at that time. -/
def SendsFit (log : List (Moment W)) : Prop :=
  ∀ mo ∈ log, ∀ tx, mo.event = .send tx → (mo.h.inReset = true → Roomy mo.h.msize) → Fits mo.h tx.length

/-- Every reset on the way left such a size. -/
def Renegotiated (log : List (Moment W)) : Prop := ∀ mo ∈ log, ∀ ok, mo.event = .reset ok → Roomy mo.h.msize

theorem Roomy.fits {h : Handler} (hr : Roomy h.msize) {len : Nat} (hlen : len ≤ h.msize.toNat) : Fits h len := by
  have hle : h.msize.toNat ≤ p9MSize.toNat := UInt32.le_iff_toNat_le.mp hr.2
  have hge : 65809 ≤ h.msize.toNat := hr.1
  have hsub : ∀ k : UInt32, k.toNat ≤ 23 → (h.msize - k).toNat + k.toNat = h.msize.toNat := by
    intro k hk
    rw [UInt32.toNat_sub_of_le _ _ (UInt32.le_iff_toNat_le.mpr (by omega))]
    omega
  exact ⟨by omega, hlen, hr.2, hsub 11 (by decide), hsub 23 (by decide)⟩

theorem SendsFit.cons {log : List (Moment W)} (h : SendsFit log) {mo : Moment W}
    (hmo : ∀ tx, mo.event = .send tx → (mo.h.inReset = true → Roomy mo.h.msize) → Fits mo.h tx.length) :
    SendsFit (mo :: log) := by
  intro mo' hmem
  rcases List.mem_cons.mp hmem with rfl | hmem
  · exact hmo
  · exact h mo' hmem

theorem Renegotiated.tail {log : List (Moment W)} {mo : Moment W} (h : Renegotiated (mo :: log)) : Renegotiated log :=
  fun mo' hmem => h mo' (List.mem_cons_of_mem mo hmem)

/-! ## Transactions -/

/-- The messages of a reset are short. -/
theorem nested_small {tx : List UInt8} {e : Event} (h : e.Nested) (he : e = .send tx) : tx.length ≤ largestRequest := by
  cases h with
  | version tag =>
    injection he with htx
    rw [← htx, TMsg.length_frame]
    simp [TMsg.body, p9VersionStr, largestRequest]
  | attach root tag =>
    injection he with htx
    rw [← htx, TMsg.length_frame]
    simp [TMsg.body, largestRequest]
  | returned | newPool => cases he

/-- As long as resets negotiate a good size, the size is good and everything fitted. -/
def fitInv : LogInv W where
  Out msize log := Renegotiated log → Roomy msize ∧ SendsFit log
  In log := Renegotiated log → SendsFit log
  out_in h hr := (h hr).2
  returned _ he h hr := ⟨(h hr.tail).1, (h hr.tail).2.cons fun tx htx => absurd (he.symm.trans htx) (by simp)⟩
  escalate he h hr := (h hr.tail).2.cons fun tx htx => absurd (he.symm.trans htx) (by simp)
  nested hin he h hr := (h hr.tail).cons fun tx htx hroomy =>
    (hroomy hin).fits ((nested_small he htx).trans (hroomy hin).1)
  reset _ he h hr :=
    ⟨hr _ (List.mem_cons_self ..) _ he, (h hr.tail).cons fun tx htx => absurd (he.symm.trans htx) (by simp)⟩

/-- Between transactions. -/
abbrev Between : St W → Prop := fitInv.Between

/-- At a fault. -/
def SoFar (s : St W) : Prop := Renegotiated s.log → SendsFit s.log

theorem between_request {L : Link W} (m : TMsg) (parse : Mem → UInt32 → Except Int32 α) :
    Triple (fun s : St W => Between s ∧ (Renegotiated s.log → 7 + m.body.length ≤ s.h.msize.toNat))
      (p9Request (v9pTransact L) p9NextTag m parse) (fun _ => Between) fun _ => SoFar := by
  refine (fitInv.request_keeps m parse).pre fun s hs => ⟨hs.1.1, fun tag mo he hmsize hin hr => ?_⟩
  obtain ⟨hroomy, hfit⟩ := hs.1.2 hr.tail
  refine ⟨hroomy, hfit.cons fun tx htx _ => ?_⟩
  obtain rfl : m.frame tag = tx := by rw [he] at htx; injection htx
  refine Roomy.fits (hmsize ▸ hroomy) ?_
  rw [TMsg.length_frame, hmsize]
  exact hs.2 hr.tail

/-- A request that is never larger than the largest. -/
theorem between_small {L : Link W} {m : TMsg} (hm : 7 + m.body.length ≤ largestRequest)
    (parse : Mem → UInt32 → Except Int32 α) :
    Triple (Between (W := W)) (p9Request (v9pTransact L) p9NextTag m parse) (fun _ => Between) fun _ => SoFar :=
  (between_request m parse).pre fun _ hs => ⟨hs, fun hr => hm.trans (hs.2 hr).1.1⟩

/-- A request with one name. -/
theorem between_named {L : Link W} {m : TMsg} {name : Str} (hm : m.name? = some (wireStr name))
    (hname : name.length < 256) (parse : Mem → UInt32 → Except Int32 α) :
    Triple (Between (W := W)) (p9Request (v9pTransact L) p9NextTag m parse) (fun _ => Between) fun _ => SoFar := by
  have hlen := TMsg.length_of_name hm
  have hwire := length_wireStr_le name
  refine between_small ?_ parse
  unfold largestRequest
  omega

/-! ## Operations -/

/-- What the callers see to: names come out of the buffers of `split_path`. The target of a symbolic link and byte
counts are passed on as they are, and `P9_Walk` checks its path itself. -/
def P9Op.Limited : P9Op → Prop
  | .lcreate _ name .. | .mkdir _ name _ | .unlinkat _ name _ | .symlink _ name _ | .link _ _ name => name.length < 256
  | .renameat _ oldname _ newname => oldname.length < 256 ∧ newname.length < 256
  | _ => True

/-- Operations one after the other. -/
def P9Op.runAll (L : Link W) : List P9Op → Client W Unit
  | [] => pure ()
  | op :: ops => do
    let _ ← op.run (v9pTransact L)
    runAll L ops

theorem walk_small (fid newfid : UInt32) {path : Str} (hlen : path.length < 1024)
    (hdeep : (components path).length ≤ p9MaxWElem) :
    7 + (TMsg.walk fid newfid (components path)).body.length ≤ largestRequest := by
  have := length_walk_le fid newfid hlen hdeep
  unfold largestRequest
  omega

section Operations

variable {L : Link W}

theorem between_clunk (fid : UInt32) :
    Triple (Between (W := W)) (p9Clunk (v9pTransact L) fid) (fun _ => Between) fun _ => SoFar := by
  rw [p9Clunk_eq]
  exact between_small (by simp [TMsg.body, largestRequest]) _

theorem between_walk (fid newfid : UInt32) (path : Str) :
    Triple (Between (W := W)) (p9Walk (v9pTransact L) fid newfid path) (fun _ => Between) fun _ => SoFar := by
  rw [p9Walk_eq]
  refine Triple.ite (fun _ => Triple.ret) fun hok => ?_
  rw [not_or, not_le, not_lt] at hok
  refine (between_small (walk_small fid newfid hok.1 hok.2) _).bind fun r => ?_
  cases r with
  | error e => exact Triple.ret
  | ok nwqid =>
    refine Triple.ite (fun _ => ?_) fun _ => Triple.ret
    refine Triple.ite (fun _ => ?_) fun _ => Triple.ret
    exact (between_clunk newfid).bind fun _ => Triple.ret

theorem between_write (fid : UInt32) (offset : UInt64) (count : UInt32) (bufIn : Mem) :
    Triple (Between (W := W)) (p9Write (v9pTransact L) fid offset count bufIn) (fun _ => Between) fun _ => SoFar := by
  rw [p9Write_eq]
  intro s hs
  rw [handler_bind]
  refine between_request _ _ s ⟨hs, fun hr => ?_⟩
  have hge : 65809 ≤ s.h.msize.toNat := (hs.2 hr).1.1
  have hcap := toNat_capCount_le s.h.msize 23 count (UInt32.le_iff_toNat_le.mpr (by simp; omega))
  simp only [TMsg.body, List.length_append, length_leBytes, Mem.length_read]
  simp at hcap
  omega

/-- Every operation keeps within the sizes. -/
theorem between_op {op : P9Op} (hlater : op ≠ .version) (hlim : op.Limited) :
    Triple (Between (W := W)) (op.run (v9pTransact L)) (fun _ => Between) fun _ => SoFar := by
  have hread : ∀ {β : Type} (f : Handler → TMsg) (parse : Handler → Mem → UInt32 → Except Int32 β),
      (∀ h, 7 + (f h).body.length ≤ largestRequest) → Triple (Between (W := W))
        (handler >>= fun h => p9Request (v9pTransact L) p9NextTag (f h) (parse h)) (fun _ => Between)
        fun _ => SoFar := by
    intro β f parse hf s hs
    rw [handler_bind]
    exact between_small (hf s.h) _ s hs
  cases op with
  | version => exact absurd rfl hlater
  | walk fid newfid path => exact (between_walk fid newfid path).map
  | clunk fid => exact (between_clunk fid).map
  | write fid offset count bufIn => exact (between_write fid offset count bufIn).map
  | attach rootFid =>
    refine Triple.map ?_
    rw [p9Attach_eq]
    exact between_small (by simp [TMsg.body, largestRequest]) _
  | lopen fid flags =>
    refine Triple.map ?_
    rw [p9Lopen_eq]
    exact between_small (by simp [TMsg.body, largestRequest]) _
  | lcreate dfid name flags mode =>
    refine Triple.map ?_
    rw [p9Lcreate_eq]
    exact between_named rfl hlim _
  | read fid offset count =>
    refine Triple.map ?_
    rw [p9Read_eq]
    exact hread _ _ fun h => by simp [TMsg.body, largestRequest]
  | getattr fid mask =>
    refine Triple.map ?_
    rw [p9Getattr_eq]
    exact between_small (by simp [TMsg.body, largestRequest]) _
  | setattr fid attr =>
    refine Triple.map ?_
    rw [p9Setattr_eq]
    exact between_small (by simp [TMsg.body, TMsg.attrBytes, largestRequest]) _
  | statfs fid =>
    refine Triple.map ?_
    rw [p9Statfs_eq]
    exact between_small (by simp [TMsg.body, largestRequest]) _
  | readdir fid offset count =>
    refine Triple.map ?_
    rw [p9Readdir_eq]
    exact hread _ _ fun h => by simp [TMsg.body, largestRequest]
  | mkdir dfid name mode =>
    refine Triple.map ?_
    rw [p9Mkdir_eq]
    exact between_named rfl hlim _
  | unlinkat dfid name flags =>
    refine Triple.map ?_
    rw [p9Unlinkat_eq]
    exact between_named rfl hlim _
  | renameat olddirfid oldname newdirfid newname =>
    refine Triple.map ?_
    rw [p9Renameat_eq]
    refine between_small ?_ _
    have := length_wireStr_le oldname
    have := length_wireStr_le newname
    simp only [P9Op.Limited] at hlim
    simp only [TMsg.body, largestRequest, List.length_append, length_leBytes, length_strBytes]
    omega
  | fsync fid datasync =>
    refine Triple.map ?_
    rw [p9Fsync_eq]
    exact between_small (by simp [TMsg.body, largestRequest]) _
  | flush oldtag =>
    refine Triple.map ?_
    rw [p9Flush_eq]
    exact between_small (by simp [TMsg.body, largestRequest]) _
  | symlink dfid name target =>
    refine Triple.map ?_
    rw [p9Symlink_eq]
    refine between_small ?_ _
    have := length_wireStr_le name
    have := length_wireStr_lt target
    simp only [P9Op.Limited] at hlim
    simp only [TMsg.body, largestRequest, List.length_append, length_leBytes, length_strBytes]
    omega
  | readlink fid maxlen =>
    refine Triple.map ?_
    rw [p9Readlink_eq]
    exact between_small (by simp [TMsg.body, largestRequest]) _
  | link dfid fid name =>
    refine Triple.map ?_
    rw [p9Link_eq]
    exact between_named rfl hlim _

theorem between_runAll : ∀ ops : List P9Op, (∀ op ∈ ops, op ≠ .version ∧ op.Limited) →
    Triple (Between (W := W)) (P9Op.runAll L ops) (fun _ => Between) fun _ => SoFar
  | [], _ => Triple.ret
  | op :: ops, h => by
    obtain ⟨hlater, hlim⟩ := h op (List.mem_cons_self ..)
    exact (between_op hlater hlim).bind fun _ => between_runAll ops fun op' hop => h op' (List.mem_cons_of_mem op hop)

end Operations

/-! ## Which sizes do -/

/-- A link on which nothing can be posted. -/
def refusing : Link Unit where
  poll := fun _ => pure .refused
  drain := fun post => pure (0, post.rxBuf)
  cleanupVirtio := id
  initVirtio := pure false
  allocVec := fun _ => pure false

/-- The log of an operation that cannot post its message `m`. -/
theorem refused_op (op : P9Op) {m : TMsg} {parse : Mem → UInt32 → Except Int32 α} {f : α → P9Output} {s : St Unit}
    (hop : op.run (v9pTransact refusing) s =
      ((·.map f) <$> p9Request (v9pTransact refusing) p9NextTag m parse) s) (hlog : s.log = []) :
    ∃ h tag, (finalState (P9Op.runAll refusing [op] s)).log =
        [⟨.returned 0, h, ()⟩, ⟨.send (m.frame tag), h, ()⟩] ∧ h.msize = s.h.msize ∧ h.inReset = s.h.inReset := by
  have hrun : op.run (v9pTransact refusing) s = .ok (.error (-5)) ((s.asked m).logged (.returned 0)) := by
    rw [hop]
    show EStateM.map _ _ _ = _
    unfold EStateM.map
    rw [request_of_refused (L := refusing) (w := ()) rfl]
    rfl
  refine ⟨(s.loaded m).h, s.h.nextTag, ?_, rfl, rfl⟩
  rw [P9Op.runAll, run_bind_ok hrun]
  show _ :: _ :: s.log = _
  rw [hlog]
  rfl

theorem renegotiated_refused {h h' : Handler} {n : UInt32} {tx : List UInt8} :
    Renegotiated [⟨.returned n, h, ()⟩, ⟨.send tx, h', ()⟩] := by
  intro mo hmo ok hok
  simp only [List.mem_cons, List.not_mem_nil, or_false] at hmo
  rcases hmo with rfl | rfl <;> cases hok

/-- The size that `P9_Version` stores. -/
theorem version_msize {n : UInt32} {rx : Mem} {s s₁ : St W} (h : p9Version (replied n rx) s = .ok (.ok ()) s₁) :
    s₁.h.msize = (p9GetU32 rx 7).1 := by
  have hver : Triple (fun _ => True) (p9Version (replied (W := W) n rx))
      (fun r s => r = .ok () → s.h.msize = (p9GetU32 rx 7).1) fun _ _ => True := by
    rw [p9Version_eq]
    refine Triple.bind (Q := fun r _ => ∀ msize, r = .ok msize → msize = (p9GetU32 rx 7).1) ?_ fun r => ?_
    · refine request_rule (S := fun _ => True) (R := fun n' s => n' = n ∧ s.h.rxBuf = rx) (fun _ _ => trivial)
        (fun s _ => ⟨rfl, rfl⟩) fun n' s hs msize hres => ?_
      rw [hs.1, hs.2] at hres
      unfold resultOf answer parseVersion p9RequireSize at hres
      split at hres
      · cases hres
      · split at hres
        · cases hres
        · split at hres
          · cases hres
          · cases hres; rfl
    · cases r with
      | error e => exact Triple.pure fun s _ hr => absurd hr (by simp)
      | ok msize => exact fun s hs _ => hs msize rfl
  exact hver.ok trivial h rfl

/-- A string of the length `n`. -/
def letters (n : Nat) : Str := List.replicate n 0x61

@[simp] theorem length_letters (n : Nat) : (letters n).length = n := List.length_replicate

/-- **The sizes that keep every later request within the buffers**: a server that names any other size makes
some operation break them. -/
theorem msize_fits_iff {n : UInt32} {rx : Mem} {s s₁ : St W} (h : p9Version (replied n rx) s = .ok (.ok ()) s₁) :
    (∀ (V : Type) (L : Link V) (v : V) (ops : List P9Op), (∀ op ∈ ops, op ≠ .version ∧ op.Limited) →
      let log := (finalState (P9Op.runAll L ops ⟨{ s₁.h with inReset := false }, v, []⟩)).log
      Renegotiated log → SendsFit log) ↔ Roomy (p9GetU32 rx 7).1 := by
  rw [← version_msize h]
  constructor
  · intro hall
    -- the largest request is refused by the queue, but it was built and handed to `V9P_Transact`
    obtain ⟨h', tag, hlog, hmsize, hin⟩ := refused_op (.symlink 0 (letters 255) (letters 65535))
      (s := ⟨{ s₁.h with inReset := false }, (), []⟩) (by rw [P9Op.run, p9Symlink_eq]) rfl
    have hfit := hall Unit refusing () [.symlink 0 (letters 255) (letters 65535)] (fun op hop => by
      rw [List.mem_singleton.mp hop]
      exact ⟨(by simp), by simp [P9Op.Limited]⟩)
    simp only [hlog] at hfit
    obtain ⟨-, hneg, hposted, -, -⟩ :=
      hfit renegotiated_refused _ (List.mem_cons_of_mem _ (List.mem_cons_self ..)) _ rfl
        fun hreset => absurd (hreset.symm.trans hin) Bool.true_eq_false.mp
    rw [TMsg.length_frame, wireStr_of_lt (by simp), wireStr_of_lt (by simp)] at hneg
    simp only [TMsg.body, List.length_append, length_leBytes, length_strBytes, length_letters, hmsize] at hneg
    exact ⟨hneg, hmsize ▸ hposted⟩
  · intro hroomy V L v ops hops log
    exact (between_runAll (L := L) ops hops).final (fun s hs hr => (hs.2 hr).2)
      ⟨rfl, fun _ => ⟨hroomy, fun mo hmo => absurd hmo List.not_mem_nil⟩⟩

/-- The `Rversion` of a server that names the size `msize`. -/
def rversion (msize : Nat) : Mem := zeroes.write 0 ([19, 0, 0, 0, 101, 0xFF, 0xFF] ++ leBytes 4 msize)

/-- A server that agrees to `P9_MSIZE`. -/
theorem msize_fits_agreed : ∃ s₁, p9Version (replied 19 (rversion 524288)) emptyState = .ok (.ok ()) s₁ ∧
    ∀ (V : Type) (L : Link V) (v : V) (ops : List P9Op), (∀ op ∈ ops, op ≠ .version ∧ op.Limited) →
      let log := (finalState (P9Op.runAll L ops ⟨{ s₁.h with inReset := false }, v, []⟩)).log
      Renegotiated log → SendsFit log :=
  ⟨_, rfl, (@msize_fits_iff Unit 19 (rversion 524288) emptyState _ rfl).mpr ⟨by decide, by decide⟩⟩

/-- A server that names a size of 1 MiB: a write of 600000 bytes is built over the end of `tx_buf`. -/
theorem msize_overflow : ∃ s₁, p9Version (replied 19 (rversion 1048576)) emptyState = .ok (.ok ()) s₁ ∧
    ∃ mo ∈ (finalState (P9Op.runAll refusing [.write 1 0 600000 zeroes] s₁)).log, ∃ tx,
      mo.event = .send tx ∧ mo.h.inReset = false ∧ tx.length = 600023 ∧ ¬ Fits mo.h tx.length := by
  obtain ⟨s₁, hver, hlog, hmsize, hreset⟩ : ∃ s₁,
      p9Version (replied 19 (rversion 1048576)) emptyState = .ok (.ok ()) s₁ ∧ s₁.log = [] ∧ s₁.h.msize = 1048576 ∧
      s₁.h.inReset = false := ⟨_, rfl, rfl, by decide, rfl⟩
  refine ⟨s₁, hver, ?_⟩
  obtain ⟨h, tag, hlog, -, hin⟩ := refused_op (.write 1 0 600000 zeroes) (s := s₁)
    (by rw [P9Op.run, p9Write_eq, map_handler_bind]) hlog
  have hcount : capCount s₁.h.msize 23 600000 = 600000 := by rw [hmsize]; decide
  have hlen : (TMsg.frame (.write 1 0 (zeroes.read 0 (capCount s₁.h.msize 23 600000).toNat)) tag).length = 600023 := by
    rw [TMsg.length_frame, hcount]
    simp only [TMsg.body, List.length_append, length_leBytes, Mem.length_read]
    rfl
  refine ⟨_, hlog ▸ List.mem_cons_of_mem _ (List.mem_cons_self ..), _, rfl, hin.trans hreset, hlen, fun hfit => ?_⟩
  exact absurd (hlen ▸ hfit.buffer) (by decide)

end Virtio9P
