import Virtio9P.Parsing
import Virtio9P.Reply

/-!
# Success and failure

An operation returns `0` or a negative error (`p9_client.h`). `Classified` is what this asks for on one reply: the code
is not positive, it is `0` only for the reply the request calls for, and it is negative for every `Rlerror`.

The code of every operation on every reply is one formula (`returnCode_parse`): the error of `p9_check_error`, then
`-EIO` for a reply shorter than what the operation needs, then `-ENOENT` for a walk that stopped early. Nothing looks at
the type but the comparison with `Rlerror`, and the code of an `Rlerror` is negated as it comes, so the operations tell
success from failure on some replies only (`classified_iff`).
-/

namespace Virtio9P

open Lib

variable {W α : Type}

/-! ## Codes -/

/-- What the call returns. -/
def returnCode : Except Int32 α → Int32
  | .error e => e
  | .ok _ => 0

/-- The type of a reply. -/
def replyType (rx : Mem) : UInt8 := (p9GetU8 rx 4).1

/-- The error code of an `Rlerror`. -/
def replyErrno (rx : Mem) : UInt32 := (p9GetU32 rx 7).1

namespace P9Op

/-- The type of the reply that the request calls for. -/
def rtype (op : P9Op) : UInt8 := (op.msg p9MSize).type + 1

/-- The size required of a reply, `0` where none is. -/
def need : P9Op → UInt32
  | version => 13
  | walk .. => p9RHdrSize + 2
  | lopen .. | lcreate .. => 24
  | read .. | write .. | readdir .. => 11
  | getattr .. => 160
  | statfs _ => 59
  | readlink .. => 9
  | _ => 0

/-- The reply counts as many qids as the request has names. -/
def Walked (rx : Mem) : P9Op → Prop
  | walk _ _ path => (p9GetU16 rx 7).1 = UInt16.ofNat (components path).length
  | _ => True

/-- What an operation asks of a reply that is no error. -/
def Accepts (op : P9Op) (n : UInt32) (rx : Mem) : Prop := ¬ n < op.need ∧ op.Walked rx

end P9Op

instance (rx : Mem) (op : P9Op) : Decidable (op.Walked rx) := by
  unfold P9Op.Walked
  split <;> infer_instance

instance (op : P9Op) (n : UInt32) (rx : Mem) : Decidable (op.Accepts n rx) := by
  unfold P9Op.Accepts
  infer_instance

theorem rtype_ne (op : P9Op) : op.rtype ≠ p9RLError := by
  cases op <;> simp only [P9Op.rtype, P9Op.msg, TMsg.type] <;> decide

theorem returnCode_map {β : Type} (f : α → β) (r : Except Int32 α) : returnCode (r.map f) = returnCode r := by
  cases r <;> rfl

/-- A parser that checks for `need` bytes and cannot fail otherwise. -/
theorem returnCode_require (n need : UInt32) (a : α) :
    returnCode (do p9RequireSize n need; pure a) = if n < need then -5 else 0 := by
  unfold p9RequireSize
  split <;> rfl

theorem returnCode_walk (fid newfid : UInt32) (path : Str) (msize n : UInt32) (rx : Mem) :
    returnCode ((P9Op.walk fid newfid path).parse msize rx n) =
      if n < p9RHdrSize + 2 then -5 else if (P9Op.walk fid newfid path).Walked rx then 0 else -2 := by
  unfold P9Op.parse parseWalk p9RequireSize
  by_cases hn : n < p9RHdrSize + 2
  · rw [if_pos hn, if_pos hn]
    rfl
  · rw [if_neg hn, if_neg hn]
    show returnCode (if _ then _ else _) = _
    by_cases hq : (p9GetU16 rx 7).1 = UInt16.ofNat (components path).length
    · rw [if_neg (not_not.mpr hq), if_pos (show P9Op.Walked rx (.walk fid newfid path) from hq)]
      rfl
    · rw [if_pos hq, if_neg (show ¬ P9Op.Walked rx (.walk fid newfid path) from hq)]
      rfl

/-- The code that comes out of an operation's parser. -/
theorem returnCode_parse (msize : UInt32) (op : P9Op) (n : UInt32) (rx : Mem) :
    returnCode (op.parse msize rx n) = if n < op.need then -5 else if op.Walked rx then 0 else -2 := by
  cases op with
  | walk fid newfid path => exact returnCode_walk fid newfid path msize n rx
  | version => exact (returnCode_map _ _).trans (returnCode_require n 13 _)
  | lopen fid flags => exact (returnCode_map _ _).trans (returnCode_require n 24 _)
  | lcreate dfid name flags mode => exact (returnCode_map _ _).trans (returnCode_require n 24 _)
  | read fid offset count => exact (returnCode_map _ _).trans (returnCode_require n 11 _)
  | write fid offset count bufIn => exact (returnCode_map _ _).trans (returnCode_require n 11 _)
  | readdir fid offset count => exact (returnCode_map _ _).trans (returnCode_require n 11 _)
  | getattr fid mask => exact (returnCode_map _ _).trans (returnCode_require n 160 _)
  | statfs fid => exact (returnCode_map _ _).trans (returnCode_require n 59 _)
  | readlink fid maxlen => exact (returnCode_map _ _).trans (returnCode_require n 9 _)
  | _ => exact (if_neg (UInt32.not_lt.mpr (UInt32.zero_le))).symm

/-! ## Telling success from failure -/

/-- The operation tells success from failure on the reply `rx` of `n` bytes. -/
def Classified (op : P9Op) (n : UInt32) (rx : Mem) (s : St W) : Prop :=
  ∃ r, op.result n rx s = some r ∧ returnCode r ≤ 0 ∧ (returnCode r = 0 → replyType rx = op.rtype) ∧
    (replyType rx = p9RLError → returnCode r < 0)

theorem classified_of_result {op : P9Op} {n : UInt32} {rx : Mem} {s : St W} {r : Except Int32 P9Output}
    (h : op.result n rx s = some r) :
    Classified op n rx s ↔ returnCode r ≤ 0 ∧ (returnCode r = 0 → replyType rx = op.rtype) ∧
      (replyType rx = p9RLError → returnCode r < 0) := by
  constructor
  · rintro ⟨r', hr', hc⟩
    cases h.symm.trans hr'
    exact hc
  · exact fun hc => ⟨r, h, hc⟩

/-- An error that is negative is told. -/
theorem classified_of_neg {op : P9Op} {n : UInt32} {rx : Mem} {s : St W} {r : Except Int32 P9Output}
    (h : op.result n rx s = some r) (hneg : returnCode r < 0) : Classified op n rx s :=
  (classified_of_result h).mpr ⟨Int32.le_of_lt hneg, fun h0 => absurd h0 (Int32.ne_of_lt hneg), fun _ => hneg⟩

/-- A reply too short for its header, or for the code of an `Rlerror`. -/
theorem classified_short {op : P9Op} {n : UInt32} {rx : Mem} {s : St W} (hop : ¬ op.Refused)
    (h : p9CheckError rx n = -5) : Classified op n rx s := by
  refine classified_of_neg (result_eq op hop n rx s) ?_
  unfold resultOf answer
  rw [h]
  split
  · exact (by decide : (-5 : Int32) < 0)
  · rw [if_pos (by decide)]
    exact (by decide : (-5 : Int32) < 0)

/-- The replies that `p9_check_error` lets through to the parser. -/
theorem checkError_eq_zero {n : UInt32} {rx : Mem} (hn : ¬ n < p9RHdrSize)
    (h : replyType rx = p9RLError → ¬ n < p9RLErrorSize ∧ replyErrno rx = 0) : p9CheckError rx n = 0 := by
  unfold p9CheckError
  rw [if_neg hn]
  by_cases ht : (p9GetU8 rx 4).1 = p9RLError
  · obtain ⟨hlen, hcode⟩ := h ht
    unfold replyErrno at hcode
    rw [if_pos ht, if_neg hlen, hcode]
    rfl
  · rw [if_neg ht]

/-- A reply that is let through is told when it is the one called for, or not accepted. -/
theorem classified_through {op : P9Op} {n : UInt32} {rx : Mem} {s : St W} (hop : ¬ op.Refused) (hn : ¬ n < p9RHdrSize)
    (h : replyType rx = p9RLError → ¬ n < p9RLErrorSize ∧ replyErrno rx = 0) :
    Classified op n rx s ↔ replyType rx = op.rtype ∨ ¬ op.Accepts n rx := by
  have hne : n ≠ 0 := by rintro rfl; exact hn (by decide)
  have hres : op.result n rx s = some (op.parse s.h.msize rx n) := by
    rw [result_eq op hop]
    unfold resultOf answer
    rw [if_neg hne, checkError_eq_zero hn h, if_neg (not_not.mpr rfl)]
  have hcode := returnCode_parse s.h.msize op n rx
  by_cases hacc : op.Accepts n rx
  · rw [if_neg hacc.1, if_pos hacc.2] at hcode
    rw [classified_of_result hres, hcode]
    constructor
    · exact fun hc => .inl (hc.2.1 rfl)
    · rintro (ht | hno)
      · exact ⟨Int32.le_refl 0, fun _ => ht, fun hl => absurd (ht.symm.trans hl) (rtype_ne op)⟩
      · exact absurd hacc hno
  · have hneg : returnCode (op.parse s.h.msize rx n) < 0 := by
      rw [hcode]
      by_cases hlen : n < op.need
      · rw [if_pos hlen]; decide
      · rw [if_neg hlen, if_neg fun hw => hacc ⟨hlen, hw⟩]; decide
    exact ⟨fun _ => .inr hacc, fun _ => classified_of_neg hres hneg⟩

/-- An `Rlerror` with a code other than `0` is told when its code is negated to a negative number. -/
theorem classified_lerror {op : P9Op} {n : UInt32} {rx : Mem} {s : St W} (hop : ¬ op.Refused)
    (ht : replyType rx = p9RLError) (hlen : ¬ n < p9RLErrorSize) (hcode : replyErrno rx ≠ 0) :
    Classified op n rx s ↔ replyErrno rx ≤ 0x80000000 := by
  have hhdr : ¬ n < p9RHdrSize := fun h => hlen (UInt32.lt_trans h (by decide))
  have hne : n ≠ 0 := by rintro rfl; exact hlen (by decide)
  have herr : p9CheckError rx n = -(replyErrno rx).toInt32 := by
    unfold p9CheckError
    rw [if_neg hhdr, if_pos (show (p9GetU8 rx 4).1 = p9RLError from ht), if_neg hlen]
    rfl
  have hnz : -(replyErrno rx).toInt32 ≠ 0 := fun h => hcode (neg_toInt32_eq_zero h)
  have hres : op.result n rx s = some (.error (-(replyErrno rx).toInt32)) := by
    rw [result_eq op hop]
    unfold resultOf answer
    rw [if_neg hne, herr, if_pos hnz]
  have hiff := neg_toInt32_neg_iff (replyErrno rx)
  constructor
  · intro hc
    exact (hiff.mp (((classified_of_result hres).mp hc).2.2 ht)).2
  · intro hle
    exact classified_of_neg hres (hiff.mpr ⟨hcode, hle⟩)

/-- **The replies on which an operation tells success from failure**: those it is not sent, those too short for their
header, the reply called for, an `Rlerror` whose code is an `int` above `0`, and what its own checks reject. -/
theorem classified_iff (op : P9Op) (n : UInt32) (rx : Mem) (s : St W) :
    Classified op n rx s ↔ op.Refused ∨ n < p9RHdrSize ∨ replyType rx = op.rtype ∨
      (replyType rx = p9RLError ∧ (n < p9RLErrorSize ∨ replyErrno rx ≠ 0 ∧ replyErrno rx ≤ 0x80000000)) ∨
      ((replyType rx = p9RLError → replyErrno rx = 0) ∧ ¬ op.Accepts n rx) := by
  by_cases hop : op.Refused
  · exact ⟨fun _ => .inl hop, fun _ => classified_of_neg (result_refused hop n rx s) (by decide)⟩
  by_cases hn : n < p9RHdrSize
  · exact ⟨fun _ => .inr (.inl hn), fun _ => classified_short hop (if_pos hn)⟩
  by_cases ht : replyType rx = p9RLError
  · by_cases hlen : n < p9RLErrorSize
    · refine ⟨fun _ => .inr (.inr (.inr (.inl ⟨ht, .inl hlen⟩))), fun _ => classified_short hop ?_⟩
      unfold p9CheckError
      rw [if_neg hn, if_pos (show (p9GetU8 rx 4).1 = p9RLError from ht), if_pos hlen]
    · by_cases hcode : replyErrno rx = 0
      · rw [classified_through hop hn fun _ => ⟨hlen, hcode⟩]
        simp only [hop, hn, ht, hlen, hcode, false_or, true_and, ne_eq, not_true_eq_false, false_and, imp_self]
      · rw [classified_lerror hop ht hlen hcode]
        simp only [hop, hn, (rtype_ne op).symm, ht, hlen, hcode, false_or, true_and, ne_eq, not_false_eq_true,
          forall_const, false_and, or_false]
  · rw [classified_through hop hn fun h => absurd h ht]
    simp only [hop, hn, ht, false_or, false_and, false_imp_iff, true_and]

/-- A receive buffer with the reply `m` to the request with tag `1`. -/
def replyTo (m : RMsg) : Mem := zeroes.write 0 (m.frame 1)

/-- An `Rlerror` with the code `ENOENT`. -/
theorem classified_enoent : Classified (.getattr 1 p9GetattrBasic) 11 (replyTo (.lerror 2)) emptyState :=
  (classified_iff _ _ _ _).mpr (.inr (.inr (.inr (.inl ⟨by decide, .inr (by decide)⟩))))

/-- An `Rlerror` with the code `0` is a success, one with the code `0xFFFFFFFF` a positive result, and `Rclunk` a
success of `P9_Setattr`. -/
theorem unclassified_replies :
    (P9Op.clunk 1).result 11 (replyTo (.lerror 0)) emptyState = some (.ok .none) ∧
    (P9Op.clunk 1).result 11 (replyTo (.lerror 0xFFFFFFFF)) emptyState = some (.error 1) ∧
    (P9Op.setattr 1 {}).result 7 (replyTo .clunk) emptyState = some (.ok .none) ∧
    ¬ Classified (.clunk 1) 11 (replyTo (.lerror 0)) emptyState ∧
    ¬ Classified (.clunk 1) 11 (replyTo (.lerror 0xFFFFFFFF)) emptyState ∧
    ¬ Classified (.setattr 1 {}) 7 (replyTo .clunk) emptyState := by
  have h₁ : (P9Op.clunk 1).result 11 (replyTo (.lerror 0)) emptyState = some (.ok .none) := rfl
  have h₂ : (P9Op.clunk 1).result 11 (replyTo (.lerror 0xFFFFFFFF)) emptyState = some (.error 1) := rfl
  have h₃ : (P9Op.setattr 1 {}).result 7 (replyTo .clunk) emptyState = some (.ok .none) := rfl
  refine ⟨h₁, h₂, h₃, fun hc => ?_, fun hc => ?_, fun hc => ?_⟩
  · exact absurd (((classified_of_result h₁).mp hc).2.1 rfl) (by decide)
  · exact absurd ((classified_of_result h₂).mp hc).1 (by decide)
  · exact absurd (((classified_of_result h₃).mp hc).2.1 rfl) (by decide)

end Virtio9P
