import Virtio9P.Transact

/-!
# R-messages

`RMsg` are the replies of a server as values, and `RMsg.frame` their bytes. `Carries m n rx`: the receive buffer `rx`
holds the reply `m`, of `n` bytes. What each operation makes of such a buffer is one equation each: an `Rlerror` is the
negated code, whatever the operation (`answer_lerror`), and a reply of the right kind gives its fields back.
-/

namespace Virtio9P

open Lib

variable {α : Type}

/-! ## Messages and their bytes -/

/-- A reply. -/
inductive RMsg where
  | lerror (ecode : UInt32)
  | version (msize : UInt32) (ver : Str)
  | attach (qid : P9Qid)
  | walk (qids : List P9Qid)
  | clunk
  | lopen (qid : P9Qid) (iounit : UInt32)
  | lcreate (qid : P9Qid) (iounit : UInt32)
  | read (data : List UInt8)
  | write (count : UInt32)
  | getattr (st : P9Stat)
  | setattr
  | statfs (st : P9Statfs)
  | readdir (data : List UInt8)
  | mkdir (qid : P9Qid)
  | unlinkat
  | renameat
  | symlink (qid : P9Qid)
  | readlink (target : Str)
  | link

namespace RMsg

/-- The type byte. -/
def type : RMsg → UInt8
  | lerror .. => 7
  | version .. => 101
  | attach .. => 105
  | walk .. => 111
  | clunk => 121
  | lopen .. => 13
  | lcreate .. => 15
  | read .. => 117
  | write .. => 119
  | getattr .. => 25
  | setattr => 27
  | statfs .. => 9
  | readdir .. => 41
  | mkdir .. => 73
  | unlinkat => 77
  | renameat => 75
  | symlink .. => 17
  | readlink .. => 23
  | link => 71

/-- The fields of `Rgetattr`. -/
def statBytes (st : P9Stat) : List UInt8 :=
  leBytes 8 st.valid.toNat ++ (qidBytes st.qid ++ (leBytes 4 st.mode.toNat ++ (leBytes 4 st.uid.toNat ++
    (leBytes 4 st.gid.toNat ++ (leBytes 8 st.nlink.toNat ++ (leBytes 8 st.rdev.toNat ++ (leBytes 8 st.size.toNat ++
      (leBytes 8 st.blksize.toNat ++ (leBytes 8 st.blocks.toNat ++ (leBytes 8 st.atimeSec.toNat ++
        (leBytes 8 st.atimeNsec.toNat ++ (leBytes 8 st.mtimeSec.toNat ++ (leBytes 8 st.mtimeNsec.toNat ++
          (leBytes 8 st.ctimeSec.toNat ++ (leBytes 8 st.ctimeNsec.toNat ++ (leBytes 8 st.btimeSec.toNat ++
            (leBytes 8 st.btimeNsec.toNat ++ (leBytes 8 st.gen.toNat ++
              (leBytes 8 st.dataVersion.toNat ++ [])))))))))))))))))))

/-- The fields of `Rstatfs`. -/
def statfsBytes (st : P9Statfs) : List UInt8 :=
  leBytes 4 st.type.toNat ++ (leBytes 4 st.bsize.toNat ++ (leBytes 8 st.blocks.toNat ++ (leBytes 8 st.bfree.toNat ++
    (leBytes 8 st.bavail.toNat ++ (leBytes 8 st.files.toNat ++ (leBytes 8 st.ffree.toNat ++ (leBytes 8 st.fsid.toNat ++
      (leBytes 4 st.namelen.toNat ++ []))))))))

/-- The fields. -/
def body : RMsg → List UInt8
  | lerror ecode => leBytes 4 ecode.toNat
  | version msize ver => leBytes 4 msize.toNat ++ strBytes ver
  | attach qid | mkdir qid | symlink qid => qidBytes qid
  | walk qids => leBytes 2 qids.length ++ qids.flatMap qidBytes
  | lopen qid iounit | lcreate qid iounit => qidBytes qid ++ leBytes 4 iounit.toNat
  | read data | readdir data => leBytes 4 data.length ++ data
  | write count => leBytes 4 count.toNat
  | getattr st => statBytes st
  | statfs st => statfsBytes st
  | readlink target => strBytes target
  | clunk | setattr | unlinkat | renameat | link => []

/-- The whole message. -/
def frame (m : RMsg) (tag : UInt16) : List UInt8 := Virtio9P.frame m.type tag m.body

/-- Only an `Rlerror` looks like one. -/
theorem type_ne {m : RMsg} (hm : ∀ e, m ≠ lerror e) : m.type ≠ p9RLError := by
  cases m with
  | lerror e => exact absurd rfl (hm e)
  | _ => simp [type, p9RLError]

@[simp] theorem length_frame (m : RMsg) (tag : UInt16) : (m.frame tag).length = 7 + m.body.length := by simp [frame]

end RMsg

theorem length_qids (qids : List P9Qid) : (RMsg.walk qids).body.length = 2 + 13 * qids.length := by
  rw [RMsg.body, List.length_append, length_leBytes, List.length_flatMap]
  simp [qidBytes, Nat.mul_comm]

/-- The receive buffer holds the reply `m`, of `n` bytes. -/
def Carries (m : RMsg) (n : UInt32) (rx : Mem) : Prop :=
  n.toNat = 7 + m.body.length ∧ ∃ tag, rx.read 0 (7 + m.body.length) = m.frame tag

/-- The poll loop ends with the reply `m` in the buffer `rx`. -/
def RMsg.polled (m : RMsg) (tag : UInt16) (rx : Mem) : Polled :=
  .reply (UInt32.ofNat (7 + m.body.length)) (rx.write 0 (m.frame tag))

theorem carries_write {m : RMsg} (hlen : 7 + m.body.length < 4294967296) (tag : UInt16) (rx : Mem) :
    Carries m (UInt32.ofNat (7 + m.body.length)) (rx.write 0 (m.frame tag)) := by
  refine ⟨by rw [UInt32.toNat_ofNat', Nat.mod_eq_of_lt hlen], tag, ?_⟩
  have h := Mem.read_write_self rx 0 (m.frame tag)
  rwa [RMsg.length_frame] at h

/-! ## What the operations make of them -/

theorem toInt_toInt32 (k : UInt32) : k.toInt32.toInt = (k.toNat : Int).bmod 4294967296 := by
  show k.toBitVec.toInt = _
  rw [BitVec.toInt_eq_toNat_bmod, UInt32.toNat_toBitVec]

/-- A number below `2 ^ 31` is the same as an `int`. -/
theorem toInt_toInt32_of_lt {k : UInt32} (h : k.toNat < 2147483648) : k.toInt32.toInt = k.toNat := by
  rw [toInt_toInt32, Int.bmod_eq_of_le (by omega) (by omega)]

/-- Which codes are negated to a negative number: those of a positive `int`, and the smallest `int`. -/
theorem neg_toInt32_neg_iff (code : UInt32) : -code.toInt32 < 0 ↔ code ≠ 0 ∧ code ≤ 0x80000000 := by
  rw [Int32.lt_iff_toInt_lt, Int32.toInt_neg, toInt_toInt32, ne_eq, ← UInt32.toNat_inj, UInt32.le_iff_toNat_le]
  have := code.toNat_lt
  simp only [UInt32.reduceToNat, Int32.toInt_zero, Int.bmod_def, Nat.reducePow]
  split_ifs <;> omega

theorem neg_toInt32_eq_zero {code : UInt32} (h : -code.toInt32 = 0) : code = 0 := by
  have h0 : code.toInt32 = 0 := by rw [← Int32.neg_neg (a := code.toInt32), h]; rfl
  exact UInt32.toBitVec_inj.mp (congrArg Int32.toBitVec h0)

section Answer

variable {m : RMsg} {n : UInt32} {rx : Mem}

/-- The header and the body, where the parsers look for them. -/
theorem read_of_frame {tag : UInt16} (hread : rx.read 0 (7 + m.body.length) = m.frame tag) :
    rx.read 4 1 = leBytes 1 m.type.toNat ∧ rx.read 7 m.body.length = m.body := by
  unfold RMsg.frame frame at hread
  rw [show 7 + m.body.length = 4 + (1 + (2 + m.body.length)) by omega, Mem.read_add, Mem.read_add,
    Mem.read_add] at hread
  obtain ⟨-, h₁⟩ := List.append_inj hread (by simp)
  obtain ⟨htype, h₂⟩ := List.append_inj h₁ (by simp)
  obtain ⟨-, hbody⟩ := List.append_inj h₂ (by simp)
  exact ⟨htype, hbody⟩

theorem type_of_frame {tag : UInt16} (hread : rx.read 0 (7 + m.body.length) = m.frame tag) :
    (p9GetU8 rx 4).1 = m.type := by
  rw [parses_u8 m.type rx 4 (by rw [length_leBytes]; exact (read_of_frame hread).1)]

theorem Carries.type (h : Carries m n rx) : (p9GetU8 rx 4).1 = m.type := by
  obtain ⟨-, tag, hread⟩ := h
  exact type_of_frame hread

theorem Carries.body (h : Carries m n rx) : rx.read 7 m.body.length = m.body := by
  obtain ⟨-, tag, hread⟩ := h
  exact (read_of_frame hread).2

theorem Carries.ne_zero (h : Carries m n rx) : n ≠ 0 := by
  rintro rfl
  have h0 : (0 : UInt32).toNat = 7 + _ := h.1
  simp only [UInt32.reduceToNat] at h0
  omega

theorem Carries.le (h : Carries m n rx) {k : UInt32} (hk : k.toNat ≤ 7 + m.body.length) : ¬ n < k := by
  rw [UInt32.lt_iff_toNat_lt, h.1]
  omega

/-- A reply that is not an `Rlerror` goes to the parser. -/
theorem Carries.answer_eq (h : Carries m n rx) (hm : ∀ e, m ≠ .lerror e) (parse : Mem → UInt32 → Except Int32 α) :
    answer parse n rx = parse rx n := by
  have hlen : ¬ n < p9RHdrSize := h.le (by simp [p9RHdrSize])
  have hcheck : p9CheckError rx n = 0 := by
    unfold p9CheckError
    rw [if_neg hlen, h.type, if_neg (RMsg.type_ne hm)]
  unfold answer
  rw [hcheck, if_neg (by simp)]

theorem answer_lerror {ecode : UInt32} (h : Carries (.lerror ecode) n rx) (hne : -ecode.toInt32 ≠ 0)
    (parse : Mem → UInt32 → Except Int32 α) : answer parse n rx = .error (-ecode.toInt32) := by
  have hget : (p9GetU32 rx 7).1 = ecode := by rw [parses_u32 ecode rx 7 h.body]
  have hcheck : p9CheckError rx n = -ecode.toInt32 := by
    unfold p9CheckError
    rw [if_neg (h.le (by simp [p9RHdrSize])), h.type, if_pos (show (RMsg.lerror ecode).type = p9RLError from rfl),
      if_neg (h.le (by simp [p9RLErrorSize, p9RHdrSize, RMsg.body])), hget]
  unfold answer
  rw [hcheck, if_pos hne]

/-- A parser that checks for `need` bytes and gets its value from the start of the body. -/
theorem Carries.fields (h : Carries m n rx) (hm : ∀ e, m ≠ .lerror e) {need : UInt32} {g : Mem → Get α} {a : α}
    {bs : List UInt8} (rest : List UInt8) (hneed : need.toNat ≤ 7 + m.body.length) (hbody : m.body = bs ++ rest)
    (hg : Parses g bs a) :
    answer (fun rx rxLen => do
      p9RequireSize rxLen need
      pure ((g rx).run' 7).run) n rx = .ok a := by
  have hbs : rx.read 7 bs.length = bs := by
    have hread := h.body
    rw [hbody, List.length_append, Mem.read_add] at hread
    exact (List.append_inj hread (by simp)).1
  rw [h.answer_eq hm]
  simp only [p9RequireSize, h.le hneed, if_false]
  show Except.ok (g rx 7).1 = _
  rw [hg rx 7 hbs]

theorem answer_noFields (h : Carries m n rx) (hm : ∀ e, m ≠ .lerror e) : answer noFields n rx = .ok () :=
  h.answer_eq hm _

theorem answer_version {msize : UInt32} {ver : Str} (h : Carries (.version msize ver) n rx) :
    answer parseVersion n rx = .ok msize :=
  h.fields (by simp) _ (by simp [RMsg.body]; omega) rfl (parses_u32 msize)

theorem answer_walk {qids : List P9Qid} (h : Carries (.walk qids) n rx) (hlen : qids.length < 65536) :
    answer parseWalk n rx = .ok (UInt16.ofNat qids.length) := by
  have hcount : (UInt16.ofNat qids.length).toNat = qids.length := by rw [UInt16.toNat_ofNat', Nat.mod_eq_of_lt hlen]
  refine h.fields (by simp) (qids.flatMap qidBytes) ?_ ?_ (parses_u16 _)
  · rw [show (p9RHdrSize + 2).toNat = 9 from rfl, RMsg.body, List.length_append, length_leBytes]
    omega
  · rw [hcount]
    rfl

theorem answer_lopen {qid : P9Qid} {iounit : UInt32} (h : Carries (.lopen qid iounit) n rx) :
    answer parseIounit n rx = .ok iounit :=
  h.fields (by simp) [] (by simp [RMsg.body, qidBytes]) (by rw [List.append_nil]; rfl)
    ((parses_qid qid).bind (parses_u32 iounit))

theorem answer_lcreate {qid : P9Qid} {iounit : UInt32} (h : Carries (.lcreate qid iounit) n rx) :
    answer parseIounit n rx = .ok iounit :=
  h.fields (by simp) [] (by simp [RMsg.body, qidBytes]) (by rw [List.append_nil]; rfl)
    ((parses_qid qid).bind (parses_u32 iounit))

theorem answer_write {count : UInt32} (h : Carries (.write count) n rx) : answer parseWrite n rx = .ok count :=
  h.fields (by simp) [] (by simp [RMsg.body]) (by rw [List.append_nil]; rfl) (parses_u32 count)

theorem parses_stat (st : P9Stat) : Parses rgetattr (RMsg.statBytes st) st :=
  (parses_u64 _).bind ((parses_qid _).bind ((parses_u32 _).bind ((parses_u32 _).bind ((parses_u32 _).bind
    ((parses_u64 _).bind ((parses_u64 _).bind ((parses_u64 _).bind ((parses_u64 _).bind ((parses_u64 _).bind
      ((parses_u64 _).bind ((parses_u64 _).bind ((parses_u64 _).bind ((parses_u64 _).bind ((parses_u64 _).bind
        ((parses_u64 _).bind ((parses_u64 _).bind ((parses_u64 _).bind ((parses_u64 _).bind ((parses_u64 _).bind
          (parses_pure st))))))))))))))))))))

theorem answer_getattr {st : P9Stat} (h : Carries (.getattr st) n rx) : answer parseGetattr n rx = .ok st :=
  h.fields (by simp) [] (by simp [RMsg.body, RMsg.statBytes, qidBytes]) (by rw [List.append_nil]; rfl)
    (parses_stat st)

theorem parses_statfs (st : P9Statfs) : Parses rstatfs (RMsg.statfsBytes st) st :=
  (parses_u32 _).bind ((parses_u32 _).bind ((parses_u64 _).bind ((parses_u64 _).bind ((parses_u64 _).bind
    ((parses_u64 _).bind ((parses_u64 _).bind ((parses_u64 _).bind ((parses_u32 _).bind (parses_pure st)))))))))

theorem answer_statfs {st : P9Statfs} (h : Carries (.statfs st) n rx) : answer parseStatfs n rx = .ok st :=
  h.fields (by simp) [] (by simp [RMsg.body, RMsg.statfsBytes]) (by rw [List.append_nil]; rfl) (parses_statfs st)

/-- The clamps of `P9_Read` and `P9_Readdir` leave a reply alone that has no more data than was asked for. -/
theorem Carries.data {data : List UInt8} {count : UInt32} (h : Carries m n rx)
    (hbody : m.body = leBytes 4 data.length ++ data) (hcount : data.length ≤ count.toNat) :
    (dataCount rx n count).toNat = data.length ∧ rx.read 11 data.length = data := by
  have hn : n.toNat = 11 + data.length := by rw [h.1, hbody]; simp; omega
  have hread : rx.read 7 (4 + data.length) = leBytes 4 data.length ++ data := by
    have hread := h.body
    simpa only [hbody, List.length_append, length_leBytes] using hread
  rw [Mem.read_add] at hread
  obtain ⟨hlen, hdata⟩ := List.append_inj hread (by simp)
  have hget : (p9GetU32 rx 7).1.toNat = data.length := by
    rw [getU32_eq, hlen, leNat_leBytes, UInt32.toNat_ofNat']
    have := n.toNat_lt
    omega
  have hsub : (n - 11).toNat = data.length := by
    rw [UInt32.toNat_sub_of_le n 11 (UInt32.le_iff_toNat_le.mpr (by simp; omega)), hn]
    simp
  refine ⟨?_, hdata⟩
  unfold dataCount
  have hasked : ¬ count < (p9GetU32 rx 7).1 := by rw [UInt32.lt_iff_toNat_lt, hget]; omega
  have hthere : ¬ n - 11 < (p9GetU32 rx 7).1 := by rw [UInt32.lt_iff_toNat_lt, hget]; omega
  simp only [hasked, hthere, if_false, hget]

/-- The data of an `Rread`, when it is no more than was asked for. -/
theorem answer_read {data : List UInt8} {count : UInt32} (h : Carries (.read data) n rx)
    (hcount : data.length ≤ count.toNat) : answer (parseRead count) n rx = .ok data := by
  obtain ⟨hcap, hdata⟩ := h.data rfl hcount
  rw [h.answer_eq (by simp)]
  simp only [parseRead, p9RequireSize, h.le (show (11 : UInt32).toNat ≤ _ by simp [RMsg.body]; omega), if_false]
  show Except.ok _ = _
  rw [hcap, hdata]

/-- The block of an `Rreaddir`, when it is no more than was asked for. -/
theorem answer_readdir {data : List UInt8} {count : UInt32} (h : Carries (.readdir data) n rx)
    (hcount : data.length ≤ count.toNat) :
    (answer (parseReaddir count) n rx).map (fun block => block.data.read 0 block.actual.toNat) = .ok data := by
  obtain ⟨hcap, hdata⟩ := h.data rfl hcount
  rw [h.answer_eq (by simp)]
  simp only [parseReaddir, p9RequireSize, h.le (show (11 : UInt32).toNat ≤ _ by simp [RMsg.body]; omega), if_false]
  show Except.ok (Mem.read (fun i => rx (11 + i)) 0 (dataCount rx n count).toNat) = _
  rw [hcap, Mem.read_shift, hdata]

/-- The target of an `Rreadlink`, when the buffer has room for it and its terminator. -/
theorem answer_readlink {target : Str} {maxlen : UInt32} (h : Carries (.readlink target) n rx)
    (hlen : target.length < maxlen.toNat) (hfit : target.length < 65536) :
    answer (parseReadlink maxlen) n rx = .ok target := by
  have hn : n.toNat = 9 + target.length := by rw [h.1]; simp [RMsg.body]; omega
  have hbody : rx.read 7 (2 + target.length) = leBytes 2 target.length ++ target := by
    have hread := h.body
    simpa only [RMsg.body, strBytes, List.length_append, length_leBytes] using hread
  rw [Mem.read_add] at hbody
  obtain ⟨hcount, htarget⟩ := List.append_inj hbody (by simp)
  have hmax : (maxlen - 1).toNat = maxlen.toNat - 1 :=
    UInt32.toNat_sub_of_le maxlen 1 (UInt32.le_iff_toNat_le.mpr (by simp; omega))
  rw [h.answer_eq (by simp)]
  simp only [parseReadlink, p9RequireSize, h.le (show (9 : UInt32).toNat ≤ _ by simp [RMsg.body]; omega), if_false]
  show Except.ok (p9GetStr rx n.toNat maxlen 7).1 = _
  rw [getStr_eq, hcount, leNat_leBytes_of_lt (by simpa using hfit), if_neg (by omega), if_neg (by omega), hmax,
    min_eq_left (by omega), htarget]

end Answer

end Virtio9P
