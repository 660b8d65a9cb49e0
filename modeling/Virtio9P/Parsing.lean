import Virtio9P.Ops
import Virtio9P.Run
import Virtio9P.Transact

/-!
# What a result depends on

An operation that is told its reply has `n` bytes should look at these bytes only. `Local n parse` says so of a
parser: two receive buffers that agree on the first `n` bytes parse alike. Every parser is local at every length
from the header's on, except `P9_Statfs`: it checks for `59` bytes and reads `67`, so between these lengths its result
depends on what an earlier reply left behind (`result_local_iff`).
-/

namespace Virtio9P

open Lib

variable {W α β : Type}

/-! ## Local parsers -/

/-- `parse` looks at the first `n` bytes only. -/
def Local (n : UInt32) (parse : Mem → UInt32 → Except Int32 α) : Prop :=
  ∀ rx₁ rx₂ : Mem, Agree n.toNat rx₁ rx₂ → parse rx₁ n = parse rx₂ n

/-- A parser that checks for `need` bytes and then gets `k` bytes from offset `7` on. -/
theorem local_fields (need : UInt32) {n : UInt32} {k : Nat} {g : Mem → Get α} (hg : Reads k g)
    (hk : ¬ n < need → 7 + k ≤ n.toNat) :
    Local n (fun rx rxLen => do
      p9RequireSize rxLen need
      pure ((g rx).run' 7).run) := by
  intro rx₁ rx₂ h
  by_cases hn : n < need
  · simp only [p9RequireSize, hn, if_true]
    rfl
  · simp only [p9RequireSize, hn, if_false]
    exact congrArg (fun r : α × Nat => Except.ok r.1) (hg.same rx₁ rx₂ 7 (h.read (hk hn)))

/-- Reading a number off a comparison of lengths. -/
theorem le_of_not_lt {n need : UInt32} {k : Nat} (hk : k ≤ need.toNat) (h : ¬ n < need) : k ≤ n.toNat := by
  rw [UInt32.lt_iff_toNat_lt] at h
  omega

theorem local_version (n : UInt32) : Local n parseVersion :=
  local_fields 13 reads_u32 (le_of_not_lt (by decide))

theorem local_walk (n : UInt32) : Local n parseWalk :=
  local_fields 9 reads_u16 (le_of_not_lt (by decide))

theorem local_iounit (n : UInt32) : Local n parseIounit :=
  local_fields 24 (reads_qid.bind fun _ => reads_u32) (le_of_not_lt (by decide))

theorem local_write (n : UInt32) : Local n parseWrite :=
  local_fields 11 reads_u32 (le_of_not_lt (by decide))

theorem reads_getattr : Reads 153 rgetattr :=
  reads_u64.bind fun _ => reads_qid.bind fun _ => reads_u32.bind fun _ => reads_u32.bind fun _ =>
    reads_u32.bind fun _ => reads_u64.bind fun _ => reads_u64.bind fun _ => reads_u64.bind fun _ =>
    reads_u64.bind fun _ => reads_u64.bind fun _ => reads_u64.bind fun _ => reads_u64.bind fun _ =>
    reads_u64.bind fun _ => reads_u64.bind fun _ => reads_u64.bind fun _ => reads_u64.bind fun _ =>
    reads_u64.bind fun _ => reads_u64.bind fun _ => reads_u64.bind fun _ => reads_u64.bind fun _ => reads_pure _

theorem local_getattr (n : UInt32) : Local n parseGetattr :=
  local_fields 160 reads_getattr (le_of_not_lt (by decide))

theorem reads_statfs : Reads 60 rstatfs :=
  reads_u32.bind fun _ => reads_u32.bind fun _ => reads_u64.bind fun _ => reads_u64.bind fun _ =>
    reads_u64.bind fun _ => reads_u64.bind fun _ => reads_u64.bind fun _ => reads_u64.bind fun _ =>
    reads_u32.bind fun _ => reads_pure _

/-- `Rstatfs` ends at byte `67`. -/
theorem local_statfs {n : UInt32} (hn : ¬ (59 ≤ n ∧ n ≤ 66)) : Local n parseStatfs := by
  refine local_fields 59 reads_statfs fun h => ?_
  rw [UInt32.lt_iff_toNat_lt] at h
  rw [UInt32.le_iff_toNat_le, UInt32.le_iff_toNat_le] at hn
  simp only [UInt32.reduceToNat] at h hn
  omega

theorem toNat_cap_le (a x : UInt32) : (if a < x then a else x).toNat ≤ a.toNat := by
  split
  · exact le_rfl
  · rename_i h
    exact UInt32.le_iff_toNat_le.mp (UInt32.not_lt.mp h)

theorem toNat_cap_le_right (a x : UInt32) : (if a < x then a else x).toNat ≤ x.toNat := by
  split
  · rename_i h
    exact (UInt32.lt_iff_toNat_lt.mp h).le
  · exact le_rfl

section Cap

variable {msize overhead count : UInt32}

theorem toNat_capCount_le (msize overhead count : UInt32) (h : overhead ≤ msize) :
    (capCount msize overhead count).toNat + overhead.toNat ≤ msize.toNat := by
  have hle := UInt32.le_iff_toNat_le.mp h
  have hcap : (capCount msize overhead count).toNat ≤ (msize - overhead).toNat := toNat_cap_le _ _
  rw [UInt32.toNat_sub_of_le _ _ h] at hcap
  omega

theorem toNat_capCount_pos (overhead : UInt32) (hmsize : overhead.toNat < msize.toNat) (hcount : 0 < count.toNat) :
    0 < (capCount msize overhead count).toNat := by
  have hsub : (msize - overhead).toNat = msize.toNat - overhead.toNat :=
    UInt32.toNat_sub_of_le _ _ (UInt32.le_iff_toNat_le.mpr hmsize.le)
  unfold capCount
  simp only []
  split <;> omega

/-- A count within the cap is not cut. -/
theorem capCount_eq (h : overhead.toNat + count.toNat ≤ msize.toNat) : capCount msize overhead count = count := by
  have hsub : (msize - overhead).toNat = msize.toNat - overhead.toNat :=
    UInt32.toNat_sub_of_le msize overhead (UInt32.le_iff_toNat_le.mpr (by omega))
  unfold capCount
  exact if_neg (by rw [UInt32.lt_iff_toNat_lt, hsub]; omega)

end Cap

theorem dataCount_agree {n : UInt32} (hn : ¬ n < 11) (count : UInt32) {rx₁ rx₂ : Mem} (h : Agree n.toNat rx₁ rx₂) :
    dataCount rx₁ n count = dataCount rx₂ n count ∧ 11 + (dataCount rx₁ n count).toNat ≤ n.toNat := by
  have h11 : 11 ≤ n.toNat := le_of_not_lt (by decide) hn
  have hget : p9GetU32 rx₁ 7 = p9GetU32 rx₂ 7 := reads_u32.same rx₁ rx₂ 7 (h.read h11)
  have hsub : (n - 11).toNat = n.toNat - 11 :=
    UInt32.toNat_sub_of_le n 11 (UInt32.le_iff_toNat_le.mpr h11)
  have hcap : (dataCount rx₁ n count).toNat ≤ (n - 11).toNat := toNat_cap_le _ _
  constructor
  · unfold dataCount
    rw [hget]
  · omega

theorem local_read (count n : UInt32) : Local n (parseRead count) := by
  intro rx₁ rx₂ h
  by_cases hn : n < 11
  · simp only [parseRead, p9RequireSize, hn, if_true]
    rfl
  · obtain ⟨heq, hle⟩ := dataCount_agree hn count h
    simp only [parseRead, p9RequireSize, hn, if_false, ← heq, h.read hle]

/-- The block of `Rreaddir` is looked at up to its end. -/
theorem local_readdir (count n : UInt32) (f : List UInt8 → α) :
    Local n fun rx rxLen => (parseReaddir count rx rxLen).map fun block =>
    f (block.data.read 0 block.actual.toNat) := by
  intro rx₁ rx₂ h
  by_cases hn : n < 11
  · simp only [parseReaddir, p9RequireSize, hn, if_true]
    rfl
  · obtain ⟨heq, hle⟩ := dataCount_agree hn count h
    have hread : Mem.read (fun i => rx₁ (11 + i)) 0 (dataCount rx₁ n count).toNat =
        Mem.read (fun i => rx₂ (11 + i)) 0 (dataCount rx₁ n count).toNat :=
      Mem.read_congr fun i _ hi => h (11 + i) (by omega)
    simp only [parseReaddir, p9RequireSize, hn, if_false, ← heq]
    exact congrArg (fun bs => Except.ok (f bs)) hread

theorem local_readlink (maxlen n : UInt32) : Local n (parseReadlink maxlen) := by
  intro rx₁ rx₂ h
  unfold parseReadlink
  have := getStr_agree h maxlen 7
  show (p9RequireSize n 9 >>= fun _ => Except.ok (p9GetStr rx₁ n.toNat maxlen 7).1) =
    (p9RequireSize n 9 >>= fun _ => Except.ok (p9GetStr rx₂ n.toNat maxlen 7).1)
  rw [this]

/-- `p9_check_error` looks at the header, and at the code of an `Rlerror` that is long enough. -/
theorem checkError_agree {n : UInt32} (hn : 7 ≤ n) {rx₁ rx₂ : Mem} (h : Agree n.toNat rx₁ rx₂) :
    p9CheckError rx₁ n = p9CheckError rx₂ n := by
  have h7 : 7 ≤ n.toNat := UInt32.le_iff_toNat_le.mp hn
  have htype : p9GetU8 rx₁ 4 = p9GetU8 rx₂ 4 := reads_u8.same rx₁ rx₂ 4 (h.read (by omega))
  unfold p9CheckError
  rw [htype]
  split
  · rfl
  · split
    · split
      · rfl
      · rename_i hlen
        have h11 : 11 ≤ n.toNat := le_of_not_lt (by decide) hlen
        rw [reads_u32.same rx₁ rx₂ 7 (h.read h11)]
    · rfl

/-! ## The operations -/

/-- A `V9P_Transact` that finds the reply `rx` of `n` bytes. -/
def replied (n : UInt32) (rx : Mem) (_ : Nat) : Client W UInt32 := do
  modifyHandler fun h => { h with rxBuf := rx }
  pure n

/-- The code and the outputs of an operation whose reply is `rx`, of `n` bytes. -/
def P9Op.result (op : P9Op) (n : UInt32) (rx : Mem) (s : St W) : Option (Except Int32 P9Output) :=
  finalValue (op.run (replied n rx) s)

theorem resultOf_map (f : α → β) (parse : Mem → UInt32 → Except Int32 α) (n : UInt32) (rx : Mem) :
    (resultOf parse n rx).map f = resultOf (fun rx n => (parse rx n).map f) n rx := by
  unfold resultOf answer
  split
  · rfl
  · split <;> rfl

/-- A request and a given reply. -/
theorem request_replied (n : UInt32) (rx : Mem) {nextTag : Client W UInt16} (m : TMsg)
    (parse : Mem → UInt32 → Except Int32 α) {s s₁ : St W} {tag : UInt16} (htag : nextTag s = .ok tag s₁) :
    ∃ s', p9Request (replied n rx) nextTag m parse s = .ok (resultOf parse n rx) s' := by
  unfold p9Request
  rw [run_bind_ok htag, modifyHandler_bind]
  unfold replied
  rw [bind_assoc, modifyHandler_bind, pure_bind]
  unfold resultOf answer
  by_cases hn : n = 0
  · rw [if_pos hn, if_pos hn]
    exact ⟨_, rfl⟩
  · rw [if_neg hn, if_neg hn, handler_bind]
    simp only []
    split
    · exact ⟨_, rfl⟩
    · exact ⟨_, rfl⟩

theorem finalValue_map (f : α → β) (x : Client W α) (s : St W) :
    finalValue ((f <$> x) s) = (finalValue (x s)).map f := by
  show finalValue (EStateM.map f x s) = _
  unfold EStateM.map
  cases x s <;> rfl

/-- The result of an operation that is one request. -/
theorem value_request (n : UInt32) (rx : Mem) (m : TMsg) (parse : Mem → UInt32 → Except Int32 α) (f : α → P9Output)
    (s : St W) :
    finalValue (((·.map f) <$> p9Request (replied n rx) p9NextTag m parse) s) =
      some (resultOf (fun rx n => (parse rx n).map f) n rx) := by
  obtain ⟨s', hs'⟩ := request_replied n rx m parse (nextTag_eq s)
  rw [finalValue_map, hs']
  exact congrArg some (resultOf_map f parse n rx)

theorem value_version (n : UInt32) (rx : Mem) (s : St W) :
    P9Op.version.result n rx s = some (resultOf (fun rx n => (parseVersion rx n).map .msize) n rx) := by
  obtain ⟨s', hs'⟩ := request_replied n rx (.version p9MSize p9VersionStr) parseVersion
    (show (pure p9NoTag : Client W UInt16) s = .ok p9NoTag s from rfl)
  rw [← resultOf_map]
  unfold P9Op.result P9Op.run
  simp only [p9Version_eq]
  rw [bind_assoc, run_bind_ok hs']
  cases resultOf parseVersion n rx <;> rfl

/-- The end of `P9_Walk` on a given reply: the result of its `Tclunk` is not used. -/
theorem value_walkEnd (n : UInt32) (rx : Mem) (newfid : UInt32) (nwname : Nat) (r : Except Int32 UInt16) (s : St W) :
    finalValue (walkEnd (replied n rx) newfid nwname r s) =
      some (r.bind fun nwqid => if nwqid ≠ UInt16.ofNat nwname then .error (-2) else .ok ()) := by
  cases r with
  | error e => rfl
  | ok nwqid =>
    unfold walkEnd
    simp only [Except.bind]
    by_cases hq : nwqid ≠ UInt16.ofNat nwname
    · rw [if_pos hq, if_pos hq]
      by_cases hpos : 0 < nwqid
      · obtain ⟨s', hs'⟩ := request_replied n rx (.clunk newfid) noFields (nextTag_eq s)
        rw [if_pos hpos, p9Clunk_eq, run_bind_ok hs']
        rfl
      · rw [if_neg hpos]
        rfl
    · rw [if_neg hq, if_neg hq]
      rfl

theorem value_walk (n : UInt32) (rx : Mem) {fid newfid : UInt32} {path : Str} (hpath : ¬ Refused path) (s : St W) :
    (P9Op.walk fid newfid path).result n rx s = some (resultOf ((P9Op.walk fid newfid path).parse s.h.msize) n rx) := by
  obtain ⟨s', hs'⟩ := request_replied n rx (.walk fid newfid (components path)) parseWalk (nextTag_eq s)
  unfold P9Op.result P9Op.run
  rw [finalValue_map, p9Walk_eq, if_neg (show ¬ (1024 ≤ path.length ∨ _) from hpath), run_bind_ok hs', value_walkEnd]
  unfold resultOf answer P9Op.parse
  by_cases hn : n = 0
  · rw [if_pos hn, if_pos hn]
    rfl
  · rw [if_neg hn, if_neg hn]
    by_cases he : p9CheckError rx n ≠ 0
    · rw [if_pos he, if_pos he]
      rfl
    · rw [if_neg he, if_neg he]
      cases parseWalk rx n with
      | error e => rfl
      | ok nwqid =>
        simp only [Except.bind]
        split <;> rfl

theorem map_handler_bind (f : α → β) (g : Handler → Client W α) (s : St W) :
    (f <$> (handler >>= g)) s = (f <$> g s.h) s := rfl

/-- **An operation makes of a reply what its parser does**, unless it sends nothing. -/
theorem result_eq (op : P9Op) (hop : ¬ op.Refused) (n : UInt32) (rx : Mem) (s : St W) :
    op.result n rx s = some (resultOf (op.parse s.h.msize) n rx) := by
  by_cases hversion : op = .version
  · rw [hversion]
    exact value_version n rx s
  by_cases hwalk : ∃ fid newfid path, op = .walk fid newfid path
  · obtain ⟨fid, newfid, path, rfl⟩ := hwalk
    exact value_walk n rx hop s
  · obtain ⟨α, parse, f, hparse, hrun⟩ := run_eq_request (W := W) s.h.msize op hversion
      fun fid newfid path h => hwalk ⟨fid, newfid, path, h⟩
    unfold P9Op.result
    rw [hparse, hrun _ s rfl]
    exact value_request n rx _ parse f s

theorem result_refused {op : P9Op} (hop : op.Refused) (n : UInt32) (rx : Mem) (s : St W) :
    op.result n rx s = some (.error (-36)) := by
  cases op with
  | walk fid newfid path =>
    unfold P9Op.result P9Op.run
    rw [finalValue_map, p9Walk_eq, if_pos (show 1024 ≤ path.length ∨ _ from hop)]
    rfl
  | _ => exact hop.elim

/-! ## Locality of the operations -/

theorem Local.map {n : UInt32} {parse : Mem → UInt32 → Except Int32 α} (h : Local n parse) (f : α → β) :
    Local n fun rx n => (parse rx n).map f :=
  fun rx₁ rx₂ ha => congrArg (Except.map f) (h rx₁ rx₂ ha)

theorem local_parse (msize : UInt32) (op : P9Op) {n : UInt32} (hop : ¬ ((∃ fid, op = .statfs fid) ∧ 59 ≤ n ∧ n ≤ 66)) :
    Local n (op.parse msize) := by
  cases op with
  | version => exact (local_version n).map _
  | walk fid newfid path =>
    intro rx₁ rx₂ h
    unfold P9Op.parse
    simp only [local_walk n rx₁ rx₂ h]
  | lopen fid flags => exact (local_iounit n).map _
  | lcreate dfid name flags mode => exact (local_iounit n).map _
  | read fid offset count => exact (local_read _ n).map _
  | write fid offset count bufIn => exact (local_write n).map _
  | getattr fid mask => exact (local_getattr n).map _
  | statfs fid => exact (local_statfs fun hr => hop ⟨⟨fid, rfl⟩, hr⟩).map _
  | readdir fid offset count => exact local_readdir _ n _
  | readlink fid maxlen => exact (local_readlink maxlen n).map _
  | _ => exact fun _ _ _ => rfl

/-- Every result but that of `P9_Statfs` depends on the reply only. -/
theorem result_local (op : P9Op) (s : St W) {n : UInt32} (hn : 7 ≤ n)
    (hop : ¬ ((∃ fid, op = .statfs fid) ∧ 59 ≤ n ∧ n ≤ 66)) {rx₁ rx₂ : Mem} (h : Agree n.toNat rx₁ rx₂) :
    op.result n rx₁ s = op.result n rx₂ s := by
  by_cases href : op.Refused
  · rw [result_refused href, result_refused href]
  · rw [result_eq op href, result_eq op href]
    unfold resultOf answer
    rw [checkError_agree hn h, local_parse s.h.msize op hop rx₁ rx₂ h]

/-! ## `P9_Statfs` -/

/-- An empty receive buffer. -/
def zeroes : Mem := fun _ => 0

/-- The same with a byte left behind in the last field of an `Rstatfs`. -/
def leftover : Mem := fun i => if i = 66 then 1 else 0

/-- Between the size it checks for and the size it reads, the result of `P9_Statfs` has the byte left behind. -/
theorem statfs_result_ne (fid : UInt32) (s : St W) {n : UInt32} (h59 : 59 ≤ n) :
    (P9Op.statfs fid).result n zeroes s ≠ (P9Op.statfs fid).result n leftover s := by
  have hn : 7 ≤ n := UInt32.le_trans (by decide) h59
  have hneed : ¬ n < 59 := UInt32.not_lt.mpr h59
  have hhdr : ¬ n < p9RHdrSize := UInt32.not_lt.mpr hn
  have hok : ∀ rx : Mem, (p9GetU8 rx 4).1 ≠ p9RLError →
      (P9Op.statfs fid).result n rx s = some (.ok (.statfs ((rstatfs rx).run' 7).run)) := by
    intro rx htype
    have hne : n ≠ 0 := by rintro rfl; exact absurd hn (by decide)
    rw [result_eq (.statfs fid) id]
    simp only [resultOf, hne, answer, p9CheckError, hhdr, htype, if_false, ne_eq, not_true_eq_false, P9Op.parse,
      parseStatfs, p9RequireSize, hneed]
    rfl
  rw [hok zeroes (by decide), hok leftover (by decide)]
  intro h
  have hnamelen : ((rstatfs zeroes).run' 7).run.namelen = ((rstatfs leftover).run' 7).run.namelen := by
    injection h with h
    injection h with h
    injection h with h
    rw [h]
  exact absurd hnamelen (by decide)

/-- **A result depends on the reply only, except that of `P9_Statfs` on a reply of `59` to `66` bytes.** -/
theorem result_local_iff (op : P9Op) (s : St W) {n : UInt32} (hn : 7 ≤ n) :
    (∀ rx₁ rx₂ : Mem, Agree n.toNat rx₁ rx₂ → op.result n rx₁ s = op.result n rx₂ s) ↔
      ¬ ((∃ fid, op = .statfs fid) ∧ 59 ≤ n ∧ n ≤ 66) := by
  constructor
  · rintro h ⟨⟨fid, rfl⟩, h59, h66⟩
    refine statfs_result_ne fid s h59 (h zeroes leftover fun i hi => ?_)
    have : n.toNat ≤ 66 := UInt32.le_iff_toNat_le.mp h66
    simp only [zeroes, leftover, show i ≠ 66 by omega, if_false]
  · exact fun hop rx₁ rx₂ h => result_local op s hn hop h

/-- The handler as `_start` sets it up, on nothing. -/
def emptyState : St Unit := ⟨startHandler zeroes zeroes, (), []⟩

/-- An `Rgetattr` of exactly `160` bytes, and a byte left behind it. -/
theorem result_local_getattr :
    (P9Op.getattr 1 p9GetattrBasic).result 160 zeroes emptyState =
      (P9Op.getattr 1 p9GetattrBasic).result 160 (fun i => if i = 160 then 1 else 0) emptyState :=
  (result_local_iff (.getattr 1 p9GetattrBasic) emptyState (n := 160) (by decide)).mpr
  (by rintro ⟨⟨fid, h⟩, -⟩; cases h)
    zeroes _ fun i hi => (if_neg (by simp only [UInt32.reduceToNat] at hi; omega)).symm

/-- `P9_Statfs` on a reply of `59` bytes. -/
theorem statfs_not_local : ¬ ∀ rx₁ rx₂ : Mem, Agree 59 rx₁ rx₂ →
    (P9Op.statfs 0).result 59 rx₁ emptyState = (P9Op.statfs 0).result 59 rx₂ emptyState := by
  intro h
  refine statfs_result_ne 0 emptyState (by decide) (h zeroes leftover fun i hi => ?_)
  simp only [zeroes, leftover, show i ≠ 66 by omega, if_false]

end Virtio9P
