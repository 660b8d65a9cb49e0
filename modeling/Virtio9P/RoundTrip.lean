import Virtio9P.Parsing
import Virtio9P.Reply

/-!
# Nothing is lost on the wire

Towards the server: what an operation hands to `V9P_Transact` is taken apart by the decoder of `Message.lean` without
a rest, into the tag that was drawn and the fields that the caller gave (`request_lossless`). The fields are as given
when the strings fit their length fields and the data of a write fits `msize`; `P9_Read` and `P9_Readdir` ask for no
more than a reply can carry.

Towards the client: from a receive buffer that holds exactly a reply, an operation gets the values that the server
put there (`reply_lossless`).
-/

namespace Virtio9P

open Lib

variable {W : Type}

/-! ## Requests -/

namespace P9Op

/-- The request with the caller's strings and data as they are. -/
def request (msize : UInt32) : P9Op → TMsg
  | lcreate dfid name flags mode => .lcreate dfid name flags mode 0
  | write fid offset count bufIn => .write fid offset (bufIn.read 0 count.toNat)
  | mkdir dfid name mode => .mkdir dfid name mode 0
  | unlinkat dfid name flags => .unlinkat dfid name flags
  | renameat olddirfid oldname newdirfid newname => .renameat olddirfid oldname newdirfid newname
  | symlink dfid name target => .symlink dfid name target 0
  | link dfid fid name => .link dfid fid name
  | op => op.msg msize

/-- The strings fit their length fields, and the data of a write fits the size agreed on. -/
def Fitting (msize : UInt32) : P9Op → Prop
  | lcreate _ name .. | mkdir _ name _ | unlinkat _ name _ | link _ _ name => name.length < 65536
  | renameat _ oldname _ newname => oldname.length < 65536 ∧ newname.length < 65536
  | symlink _ name target => name.length < 65536 ∧ target.length < 65536
  | write _ _ count _ => 23 + count.toNat ≤ msize.toNat
  | _ => True

/-- The tag that the operation draws. -/
def tag (h : Handler) : P9Op → UInt16
  | version => p9NoTag
  | _ => h.nextTag

end P9Op

theorem msg_eq_request {msize : UInt32} {op : P9Op} (hop : op.Fitting msize) : op.msg msize = op.request msize := by
  cases op with
  | lcreate dfid name flags mode => rw [P9Op.msg, wireStr_of_lt hop]; rfl
  | write fid offset count bufIn => rw [P9Op.msg, capCount_eq (show (23 : UInt32).toNat + _ ≤ _ from hop)]; rfl
  | mkdir dfid name mode => rw [P9Op.msg, wireStr_of_lt hop]; rfl
  | unlinkat dfid name flags => rw [P9Op.msg, wireStr_of_lt hop]; rfl
  | renameat olddirfid oldname newdirfid newname => rw [P9Op.msg, wireStr_of_lt hop.1, wireStr_of_lt hop.2]; rfl
  | symlink dfid name target => rw [P9Op.msg, wireStr_of_lt hop.1, wireStr_of_lt hop.2]; rfl
  | link dfid fid name => rw [P9Op.msg, wireStr_of_lt hop]; rfl
  | _ => rfl

/-- The request of a fitting operation can be told apart again. -/
theorem request_wf {msize : UInt32} {op : P9Op} (href : ¬ op.Refused) (hop : op.Fitting msize) :
    (op.request msize).Small := by
  cases op with
  | walk fid newfid path =>
    obtain ⟨hlen, hdeep⟩ := not_or.mp (show ¬ (1024 ≤ path.length ∨ _) from href)
    have hle := length_walk_le fid newfid (not_le.mp hlen) (not_lt.mp hdeep)
    exact ⟨walk_wf fid newfid (not_le.mp hlen) (not_lt.mp hdeep), by simp only [P9Op.request, P9Op.msg]; omega⟩
  | write fid offset count bufIn =>
    have hmsize := msize.toNat_lt
    have hfit : 23 + count.toNat ≤ msize.toNat := hop
    simp only [P9Op.request, TMsg.Small, TMsg.Wf, TMsg.body, List.length_append, length_leBytes, Mem.length_read]
    omega
  | lcreate | mkdir | unlinkat | link => exact TMsg.small_of_name rfl hop
  | renameat olddirfid oldname newdirfid newname => exact TMsg.small_renameat hop.1 hop.2 olddirfid newdirfid
  | symlink dfid name target => exact TMsg.small_symlink hop.1 hop.2 dfid 0
  | version => simp [P9Op.request, P9Op.msg, TMsg.Small, TMsg.Wf, TMsg.body, p9VersionStr]
  | _ => simp [P9Op.request, P9Op.msg, TMsg.Small, TMsg.Wf, TMsg.body, TMsg.attrBytes]

/-- A request as a call of `V9P_Transact`, wherever its tag comes from. -/
theorem request_handed (transact : Nat → Client W UInt32) {nextTag : Client W UInt16} {m : TMsg} {α β : Type}
    (parse : Mem → UInt32 → Except Int32 α) (f : Except Int32 α → Client W β) {s s₁ : St W} {tag : UInt16}
    (htag : nextTag s = .ok tag s₁) :
    ∃ rest : UInt32 → Client W β, (p9Request transact nextTag m parse >>= f) s = (transact (7 + m.body.length) >>= rest)
      { s₁ with h := { s₁.h with txBuf := s₁.h.txBuf.write 0 (m.frame tag) } } := by
  unfold p9Request
  rw [bind_assoc, run_bind_ok htag, bind_assoc, modifyHandler_bind, bind_assoc]
  exact ⟨_, rfl⟩

/-- Every operation that is not refused starts with a call of `V9P_Transact` on its request. -/
theorem run_handed (op : P9Op) (href : ¬ op.Refused) (s : St W) :
    ∃ s₁ : St W, (∀ transact, ∃ rest : UInt32 → Client W (Except Int32 P9Output),
      op.run transact s = (transact (7 + (op.msg s.h.msize).body.length) >>= rest) s₁) ∧
      Loaded (op.msg s.h.msize) (op.tag s.h) s₁ := by
  by_cases hversion : op = .version
  · subst hversion
    refine ⟨_, fun transact => ?_, loaded_write _ p9NoTag s⟩
    unfold P9Op.run
    simp only [p9Version_eq, bind_assoc]
    exact request_handed transact _ _ rfl
  by_cases hwalk : ∃ fid newfid path, op = .walk fid newfid path
  · obtain ⟨fid, newfid, path, rfl⟩ := hwalk
    refine ⟨_, fun transact => ?_, loaded_write _ s.h.nextTag s.tagged⟩
    rw [P9Op.run, p9Walk_eq, if_neg (show ¬ (1024 ≤ path.length ∨ _) from href), map_bind]
    exact request_handed transact _ _ rfl
  · obtain ⟨α, parse, f, -, hrun⟩ := run_eq_request (W := W) s.h.msize op hversion
      fun fid newfid path h => hwalk ⟨fid, newfid, path, h⟩
    have htag : op.tag s.h = s.h.nextTag := by
      cases op with
      | version => exact absurd rfl hversion
      | _ => rfl
    rw [htag]
    refine ⟨_, fun transact => ?_, loaded_write _ s.h.nextTag s.tagged⟩
    rw [hrun transact s rfl, ← bind_pure_comp]
    exact request_handed transact _ _ rfl

/-- **A request is decoded without loss**: what is handed to `V9P_Transact` is one message of exactly that size, with
the tag that was drawn and the fields that were given. So is the `Tflush` that `V9P_Transact` builds itself. -/
theorem request_lossless (op : P9Op) (s : St W) (href : ¬ op.Refused) (hop : op.Fitting s.h.msize) :
    (∃ (txSize : Nat) (s₁ : St W),
      (∀ transact, ∃ rest : UInt32 → Client W (Except Int32 P9Output),
      op.run transact s = (transact txSize >>= rest) s₁) ∧
      decFrame (s₁.h.txBuf.read 0 txSize) = some ((txSize, op.tag s.h, op.request s.h.msize), [])) ∧
    ∀ tag stalledTag, decFrame (flushFrame tag stalledTag) =
      some (((flushFrame tag stalledTag).length, tag, .flush stalledTag), []) := by
  obtain ⟨s₁, hrun, hload⟩ := run_handed op href s
  obtain ⟨hwf, hsize⟩ := request_wf href hop
  rw [msg_eq_request hop] at hrun hload
  refine ⟨⟨_, s₁, hrun, ?_⟩, fun tag stalledTag => ?_⟩
  · rw [hload]
    exact decFrame_frame hwf hsize _
  · rw [flushFrame_eq, TMsg.length_frame]
    exact decFrame_frame (m := .flush stalledTag) trivial (by simp [TMsg.body]) tag

/-- `P9_Symlink` as the first request of a session. -/
theorem request_lossless_symlink :
    ∃ (txSize : Nat) (s₁ : St Unit), (∀ transact, ∃ rest : UInt32 → Client Unit (Except Int32 P9Output),
      (P9Op.symlink 1 [0x6C] [0x61, 0x2F, 0x62]).run transact emptyState = (transact txSize >>= rest) s₁) ∧
      decFrame (s₁.h.txBuf.read 0 txSize) = some ((txSize, 1, .symlink 1 [0x6C] [0x61, 0x2F, 0x62] 0), []) :=
  (request_lossless (.symlink 1 [0x6C] [0x61, 0x2F, 0x62]) emptyState id (by simp [P9Op.Fitting])).1

/-! ## Replies -/

/-- The lists and strings fit their length fields. -/
def RMsg.Wf : RMsg → Prop
  | .version _ ver => ver.length < 65536
  | .walk qids => qids.length < 65536
  | .readlink target => target.length < 65536
  | _ => True

/-- What an operation is to make of a reply, where the reply is one to its request: the code of an `Rlerror` negated,
and the fields of its own reply. Data is to be no more than was asked for, and a link target to leave room for the
terminator. -/
def P9Op.expected (msize : UInt32) : P9Op → RMsg → Option (Except Int32 P9Output)
  | _, .lerror ecode =>
    if 1 ≤ ecode.toNat ∧ ecode.toNat < 2147483648 then some (.error (Int32.ofInt (-ecode.toNat))) else none
  | .version, .version msize _ => some (.ok (.msize msize))
  | .walk _ _ path, .walk qids =>
    some (if qids.length = (components path).length then .ok .none else .error (-2))
  | .lopen .., .lopen _ iounit => some (.ok (.iounit iounit))
  | .lcreate .., .lcreate _ iounit => some (.ok (.iounit iounit))
  | .read _ _ count, .read data =>
    if data.length ≤ (capCount msize 11 count).toNat then some (.ok (.data data)) else none
  | .write .., .write count => some (.ok (.count count))
  | .getattr .., .getattr st => some (.ok (.stat st))
  | .statfs _, .statfs st => some (.ok (.statfs st))
  | .readdir _ _ count, .readdir data =>
    if data.length ≤ (capCount msize 11 count).toNat then some (.ok (.data data)) else none
  | .readlink _ maxlen, .readlink target => if target.length < maxlen.toNat then some (.ok (.target target)) else none
  | _, _ => none

section Expected

variable {m : RMsg} {n : UInt32} {rx : Mem} {α : Type}

theorem Carries.resultOf_eq (h : Carries m n rx) (parse : Mem → UInt32 → Except Int32 α) :
    resultOf parse n rx = answer parse n rx := if_neg h.ne_zero

theorem Carries.resultOf_ok (h : Carries m n rx) {parse : Mem → UInt32 → Except Int32 α} (f : α → P9Output) {a : α}
    (ha : answer parse n rx = .ok a) : resultOf (fun rx n => (parse rx n).map f) n rx = .ok (f a) := by
  rw [← resultOf_map, h.resultOf_eq, ha]
  rfl

theorem neg_toInt32_eq {ecode : UInt32} (h : ecode.toNat < 2147483648) :
    -ecode.toInt32 = Int32.ofInt (-ecode.toNat) := by
  rw [← Int32.ofInt_toInt (-ecode.toInt32), Int32.toInt_neg, toInt_toInt32_of_lt h, Int.bmod_eq_of_le (by omega)
    (by omega)]

theorem expected_lerror {ecode : UInt32} (h : Carries (.lerror ecode) n rx) (h₀ : 1 ≤ ecode.toNat)
    (h₁ : ecode.toNat < 2147483648) (parse : Mem → UInt32 → Except Int32 α) :
    resultOf parse n rx = .error (Int32.ofInt (-ecode.toNat)) := by
  have hne : -ecode.toInt32 ≠ 0 := fun h0 => by rw [neg_toInt32_eq_zero h0] at h₀; exact absurd h₀ (by decide)
  rw [h.resultOf_eq, answer_lerror h hne, neg_toInt32_eq h₁]

theorem expected_walk {qids : List P9Qid} (h : Carries (.walk qids) n rx) (hlen : qids.length < 65536)
    {fid newfid : UInt32} {path : Str} (hpath : ¬ Refused path) (msize : UInt32) :
    resultOf ((P9Op.walk fid newfid path).parse msize) n rx =
      if qids.length = (components path).length then .ok .none else .error (-2) := by
  have hdeep : (components path).length ≤ 16 := not_lt.mp (not_or.mp hpath).2
  have hparse : parseWalk rx n = .ok (UInt16.ofNat qids.length) := by
    rw [← h.answer_eq (by simp) parseWalk]
    exact answer_walk h hlen
  have hcount : UInt16.ofNat qids.length = UInt16.ofNat (components path).length ↔
      qids.length = (components path).length := by
    rw [← UInt16.toNat_inj, UInt16.toNat_ofNat', UInt16.toNat_ofNat', Nat.mod_eq_of_lt (by omega),
      Nat.mod_eq_of_lt (by omega)]
  rw [h.resultOf_eq, h.answer_eq (by simp)]
  unfold P9Op.parse
  simp only [hparse, Except.bind, ne_eq, hcount, ite_not]

theorem expected_readdir {data : List UInt8} {count : UInt32} (h : Carries (.readdir data) n rx)
    (hcount : data.length ≤ count.toNat) :
    resultOf (fun rx n => (parseReaddir count rx n).map fun block =>
    P9Output.data (block.data.read 0 block.actual.toNat))
      n rx = .ok (.data data) := by
  have ha := answer_readdir h hcount
  rw [← resultOf_map, h.resultOf_eq]
  cases hres : answer (parseReaddir count) n rx with
  | error e => rw [hres] at ha; cases ha
  | ok block =>
    rw [hres] at ha
    exact congrArg (fun r => r.map P9Output.data) ha

/-- **A reply is decoded without loss**: the operation returns what the server encoded. -/
theorem reply_lossless (op : P9Op) (s : St W) (href : ¬ op.Refused) (hm : m.Wf) (h : Carries m n rx)
    {r : Except Int32 P9Output} (hr : op.expected s.h.msize m = some r) : op.result n rx s = some r := by
  rw [result_eq op href]
  congr 1
  revert hr
  -- one case for each line of `expected`
  fun_cases P9Op.expected s.h.msize op m <;> intro hr <;> cases hr
  case case1 ecode hcode => exact expected_lerror h hcode.1 hcode.2 _
  case case3 msize ver => exact h.resultOf_ok _ (answer_version h)
  case case4 fid newfid path qids => exact expected_walk h hm href s.h.msize
  case case5 qid iounit => exact h.resultOf_ok _ (answer_lopen h)
  case case6 qid iounit => exact h.resultOf_ok _ (answer_lcreate h)
  case case7 data hcount => exact h.resultOf_ok _ (answer_read h hcount)
  case case9 count => exact h.resultOf_ok _ (answer_write h)
  case case10 st => exact h.resultOf_ok _ (answer_getattr h)
  case case11 st => exact h.resultOf_ok _ (answer_statfs h)
  case case12 data hcount => exact expected_readdir h hcount
  case case14 target hlen => exact h.resultOf_ok _ (answer_readlink h hlen hm)

/-- An `Rread` of three bytes. -/
theorem reply_lossless_read :
    (P9Op.read 1 0 100).result 14 (zeroes.write 0 ((RMsg.read [1, 2, 3]).frame 1)) emptyState =
      some (.ok (.data [1, 2, 3])) :=
  reply_lossless (.read 1 0 100) emptyState id (m := .read [1, 2, 3]) trivial
    (carries_write (m := .read [1, 2, 3]) (by decide) 1 zeroes) rfl

end Expected

end Virtio9P
