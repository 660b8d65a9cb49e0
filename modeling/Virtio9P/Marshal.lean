import Virtio9P.Lib.Bytes

/-!
# The wire format (`p9_protocol.h`, `p9_marshal.c`)

Message types, the records the client fills from replies, and the helpers that put fields into a buffer and get them
out. A put moves a `Cursor`; every put appends a fixed run of bytes, whatever the buffer holds (`Emits`), and the runs
compose. A get reads a buffer at an offset it advances; `Reads k g` says that `g` depends on the `k` bytes at its
offset only and advances by `k`.

The offset is a number here and a `uint32` in the source: it could only wrap four gigabytes past the end of the
buffer.
-/

namespace Virtio9P

open Lib

/-- A C string: the bytes before its `NUL`. -/
abbrev Str := List UInt8

/-! ## Constants and records -/

/-- `P9_MSIZE`. -/
def p9MSize : UInt32 := 524288
/-- `P9_NOFID`. -/
def p9NoFid : UInt32 := 0xFFFFFFFF
/-- `P9_NOTAG`. -/
def p9NoTag : UInt16 := 0xFFFF
/-- `P9_MAXWELEM`. -/
def p9MaxWElem : Nat := 16
/-- `P9_VERSION_STR`: `9P2000.L`. -/
def p9VersionStr : Str := [0x39, 0x50, 0x32, 0x30, 0x30, 0x30, 0x2E, 0x4C]

def p9RLError : UInt8 := 7
def p9TStatfs : UInt8 := 8
def p9TLOpen : UInt8 := 12
def p9TLCreate : UInt8 := 14
def p9TSymlink : UInt8 := 16
def p9TReadlink : UInt8 := 22
def p9TGetattr : UInt8 := 24
def p9TSetattr : UInt8 := 26
def p9TReaddir : UInt8 := 40
def p9TFsync : UInt8 := 50
def p9TLink : UInt8 := 70
def p9TMkdir : UInt8 := 72
def p9TRenameat : UInt8 := 74
def p9TUnlinkat : UInt8 := 76
def p9TVersion : UInt8 := 100
def p9TAttach : UInt8 := 104
def p9TFlush : UInt8 := 108
def p9TWalk : UInt8 := 110
def p9TRead : UInt8 := 116
def p9TWrite : UInt8 := 118
def p9TClunk : UInt8 := 120

/-- `P9_GETATTR_MODE`. -/
def p9GetattrMode : UInt64 := 0x1
/-- `P9_GETATTR_BASIC`. -/
def p9GetattrBasic : UInt64 := 0x7FF

def p9SetattrMode : UInt32 := 0x1
def p9SetattrUid : UInt32 := 0x2
def p9SetattrGid : UInt32 := 0x4
def p9SetattrSize : UInt32 := 0x8
def p9SetattrAtime : UInt32 := 0x10
def p9SetattrMtime : UInt32 := 0x20
def p9SetattrAtimeSet : UInt32 := 0x80
def p9SetattrMtimeSet : UInt32 := 0x100

/-- `P9_AT_REMOVEDIR`. -/
def p9AtRemovedir : UInt32 := 0x200

/-- `struct P9Qid`. -/
structure P9Qid where
  type : UInt8
  version : UInt32
  path : UInt64
  deriving DecidableEq

/-- `struct P9Stat`. -/
structure P9Stat where
  valid : UInt64
  qid : P9Qid
  mode : UInt32
  uid : UInt32
  gid : UInt32
  nlink : UInt64
  rdev : UInt64
  size : UInt64
  blksize : UInt64
  blocks : UInt64
  atimeSec : UInt64
  atimeNsec : UInt64
  mtimeSec : UInt64
  mtimeNsec : UInt64
  ctimeSec : UInt64
  ctimeNsec : UInt64
  btimeSec : UInt64
  btimeNsec : UInt64
  gen : UInt64
  dataVersion : UInt64
  deriving DecidableEq

/-- `struct P9Iattr`. The callbacks clear it first. -/
structure P9Iattr where
  valid : UInt32 := 0
  mode : UInt32 := 0
  uid : UInt32 := 0
  gid : UInt32 := 0
  size : UInt64 := 0
  atimeSec : UInt64 := 0
  atimeNsec : UInt64 := 0
  mtimeSec : UInt64 := 0
  mtimeNsec : UInt64 := 0
  deriving DecidableEq

/-- `struct P9Statfs`. -/
structure P9Statfs where
  type : UInt32
  bsize : UInt32
  blocks : UInt64
  bfree : UInt64
  bavail : UInt64
  files : UInt64
  ffree : UInt64
  fsid : UInt64
  namelen : UInt32
  deriving DecidableEq

/-! ## Putting fields -/

/-- The buffer a message is built in and the offset of its end. -/
structure Cursor where
  buf : Mem
  off : Nat

/-- A computation that puts fields. -/
abbrev Put := StateM Cursor Unit

/-- Store bytes at the offset and advance it. -/
def putBytes (bs : List UInt8) : Put := modify fun c => ⟨c.buf.write c.off bs, c.off + bs.length⟩

/-- `p9_put_u8`. -/
def p9PutU8 (val : UInt8) : Put := putBytes [val]

/-- `p9_put_u16`. -/
def p9PutU16 (val : UInt16) : Put := putBytes [val.toUInt8, (val >>> 8).toUInt8]

/-- `p9_put_u32`. -/
def p9PutU32 (val : UInt32) : Put :=
  putBytes [val.toUInt8, (val >>> 8).toUInt8, (val >>> 16).toUInt8, (val >>> 24).toUInt8]

/-- `p9_put_u64`. -/
def p9PutU64 (val : UInt64) : Put :=
  putBytes [val.toUInt8, (val >>> 8).toUInt8, (val >>> 16).toUInt8, (val >>> 24).toUInt8,
    (val >>> 32).toUInt8, (val >>> 40).toUInt8, (val >>> 48).toUInt8, (val >>> 56).toUInt8]

/-- `p9_put_str`: the length is cut to sixteen bits before the bytes are copied. -/
def p9PutStr (s : Str) : Put := do
  let len := UInt16.ofNat s.length
  p9PutU16 len
  putBytes (s.take len.toNat)

/-- `p9_put_header`: the size field is left for `p9_finalize`. -/
def p9PutHeader (type : UInt8) (tag : UInt16) : Put := do
  modify fun c => { c with off := 4 }
  p9PutU8 type
  p9PutU16 tag

/-- `p9_finalize`. -/
def p9Finalize (buf : Mem) (totalSize : Nat) : Mem := ((p9PutU32 (UInt32.ofNat totalSize)).run ⟨buf, 0⟩).2.buf

/-- A message of the given type built from the start of `buf`: the buffer and the size. -/
def p9Build (type : UInt8) (tag : UInt16) (body : Put) (buf : Mem) : Mem × Nat :=
  let c := ((do p9PutHeader type tag; body).run ⟨buf, 0⟩).2
  (p9Finalize c.buf c.off, c.off)

/-! ### What is put -/

/-- `w` appends the bytes `bs`. -/
def Emits (w : Put) (bs : List UInt8) : Prop :=
  ∀ c : Cursor, w c = ((), ⟨c.buf.write c.off bs, c.off + bs.length⟩)

theorem emits_bytes (bs : List UInt8) : Emits (putBytes bs) bs := fun _ => rfl

theorem emits_pure : Emits (pure ()) [] := by
  intro c
  simp only [Mem.write_nil, List.length_nil, Nat.add_zero]
  rfl

theorem Emits.bind {w₁ w₂ : Put} {as bs : List UInt8} (h₁ : Emits w₁ as) (h₂ : Emits w₂ bs) :
    Emits (w₁ >>= fun _ => w₂) (as ++ bs) := by
  intro c
  show w₂ (w₁ c).2 = _
  rw [h₁ c, h₂ _, Mem.write_append, List.length_append, Nat.add_assoc]

theorem Emits.cast {w : Put} {as bs : List UInt8} (h : Emits w as) (hb : as = bs) : Emits w bs := hb ▸ h

theorem emits_u8 (val : UInt8) : Emits (p9PutU8 val) (leBytes 1 val.toNat) :=
  (emits_bytes _).cast (by simp [leBytes])

theorem emits_u16 (val : UInt16) : Emits (p9PutU16 val) (leBytes 2 val.toNat) := by
  refine (emits_bytes _).cast ?_
  have h0 : val.toUInt8 = UInt8.ofNat val.toNat := UInt8.toNat_inj.mp (by simp)
  have h1 : (val >>> 8).toUInt8 = UInt8.ofNat (val.toNat / 256) :=
    UInt8.toNat_inj.mp (by simp [Nat.shiftRight_eq_div_pow])
  simp only [leBytes, h0, h1]

theorem emits_u32 (val : UInt32) : Emits (p9PutU32 val) (leBytes 4 val.toNat) := by
  refine (emits_bytes _).cast ?_
  have h0 : val.toUInt8 = UInt8.ofNat val.toNat := UInt8.toNat_inj.mp (by simp)
  have h1 : (val >>> 8).toUInt8 = UInt8.ofNat (val.toNat / 256) :=
    UInt8.toNat_inj.mp (by simp [Nat.shiftRight_eq_div_pow])
  have h2 : (val >>> 16).toUInt8 = UInt8.ofNat (val.toNat / 256 / 256) :=
    UInt8.toNat_inj.mp (by simp [Nat.shiftRight_eq_div_pow, Nat.div_div_eq_div_mul])
  have h3 : (val >>> 24).toUInt8 = UInt8.ofNat (val.toNat / 256 / 256 / 256) :=
    UInt8.toNat_inj.mp (by simp [Nat.shiftRight_eq_div_pow, Nat.div_div_eq_div_mul])
  simp only [leBytes, h0, h1, h2, h3]

theorem emits_u64 (val : UInt64) : Emits (p9PutU64 val) (leBytes 8 val.toNat) := by
  refine (emits_bytes _).cast ?_
  have hk : ∀ k : UInt64, k.toNat < 64 → (val >>> k).toUInt8 = UInt8.ofNat (val.toNat / 2 ^ k.toNat) := by
    intro k hk
    apply UInt8.toNat_inj.mp
    simp [Nat.shiftRight_eq_div_pow, Nat.mod_eq_of_lt hk]
  have h0 : val.toUInt8 = UInt8.ofNat val.toNat := UInt8.toNat_inj.mp (by simp)
  simp only [leBytes, h0, hk 8 (by decide), hk 16 (by decide), hk 24 (by decide), hk 32 (by decide), hk 40 (by decide),
    hk 48 (by decide), hk 56 (by decide), Nat.div_div_eq_div_mul]
  rfl

/-- What is left of a string on the wire. -/
def wireStr (s : Str) : Str := s.take (s.length % 65536)

/-- A string field: its length in two bytes, then its bytes. -/
def strBytes (s : Str) : List UInt8 := leBytes 2 s.length ++ s

@[simp] theorem length_strBytes (s : Str) : (strBytes s).length = 2 + s.length := by simp [strBytes]

theorem length_wireStr (s : Str) : (wireStr s).length = s.length % 65536 := by
  rw [wireStr, List.length_take]
  exact min_eq_left (Nat.mod_le _ _)

theorem length_wireStr_lt (s : Str) : (wireStr s).length < 65536 := by
  rw [length_wireStr]; omega

theorem length_wireStr_le (s : Str) : (wireStr s).length ≤ s.length := by
  rw [length_wireStr]; exact Nat.mod_le _ _

theorem wireStr_of_lt {s : Str} (h : s.length < 65536) : wireStr s = s := by
  rw [wireStr, Nat.mod_eq_of_lt h, List.take_length]

theorem emits_str (s : Str) : Emits (p9PutStr s) (strBytes (wireStr s)) := by
  refine ((emits_u16 _).bind (emits_bytes _)).cast ?_
  rw [strBytes, length_wireStr, UInt16.toNat_ofNat']
  rfl

theorem emits_strs : ∀ ss : List Str, Emits (ss.forM p9PutStr) (ss.flatMap fun s => strBytes (wireStr s))
  | [] => emits_pure
  | s :: ss => (emits_str s).bind (emits_strs ss)

/-- A whole message: size, type, tag and body. -/
def frame (type : UInt8) (tag : UInt16) (body : List UInt8) : List UInt8 :=
  leBytes 4 (7 + body.length) ++ (leBytes 1 type.toNat ++ (leBytes 2 tag.toNat ++ body))

@[simp] theorem length_frame (type : UInt8) (tag : UInt16) (body : List UInt8) :
    (frame type tag body).length = 7 + body.length := by
  simp only [frame, List.length_append, length_leBytes]
  omega

theorem finalize_eq (buf : Mem) (n : Nat) : p9Finalize buf n = buf.write 0 (leBytes 4 n) := by
  have h := emits_u32 (UInt32.ofNat n) ⟨buf, 0⟩
  have hb : leBytes 4 (UInt32.ofNat n).toNat = leBytes 4 n := by
    apply leNat_inj (by simp)
    rw [leNat_leBytes, leNat_leBytes, UInt32.toNat_ofNat']
    exact Nat.mod_mod _ _
  unfold p9Finalize
  rw [show (p9PutU32 (UInt32.ofNat n)).run ⟨buf, 0⟩ = _ from h, hb]

/-- **A built message is its frame**, from the start of the buffer. -/
theorem build_eq {type : UInt8} {tag : UInt16} {body : Put} {bs : List UInt8} (h : Emits body bs) (buf : Mem) :
    p9Build type tag body buf = (buf.write 0 (frame type tag bs), 7 + bs.length) := by
  have hput := ((emits_u8 type).bind ((emits_u16 tag).bind h)) ⟨buf, 4⟩
  have hrun : (do p9PutHeader type tag; body : Put).run ⟨buf, 0⟩ = _ := hput
  unfold p9Build
  rw [hrun]
  simp only [List.length_append, length_leBytes]
  refine Prod.ext ?_ (by simp only; omega)
  rw [finalize_eq, Mem.write_comm _ _ (by simp), show 4 + (1 + (2 + bs.length)) = 7 + bs.length by omega, frame,
    buf.write_append 0 (leBytes 4 _), length_leBytes]

/-! ## Getting fields -/

/-- A computation that gets fields: the state is the offset. -/
abbrev Get := StateM Nat

/-- `p9_get_u8`. -/
def p9GetU8 (buf : Mem) : Get UInt8 := modifyGet fun off => (buf off, off + 1)

/-- `p9_get_u16`. -/
def p9GetU16 (buf : Mem) : Get UInt16 :=
  modifyGet fun off => ((buf off).toUInt16 ||| (buf (off + 1)).toUInt16 <<< 8, off + 2)

/-- `p9_get_u32`. -/
def p9GetU32 (buf : Mem) : Get UInt32 :=
  modifyGet fun off =>
    ((buf off).toUInt32 ||| (buf (off + 1)).toUInt32 <<< 8 ||| (buf (off + 2)).toUInt32 <<< 16 |||
      (buf (off + 3)).toUInt32 <<< 24, off + 4)

/-- `p9_get_u64`. -/
def p9GetU64 (buf : Mem) : Get UInt64 :=
  modifyGet fun off =>
    ((buf off).toUInt64 ||| (buf (off + 1)).toUInt64 <<< 8 ||| (buf (off + 2)).toUInt64 <<< 16 |||
      (buf (off + 3)).toUInt64 <<< 24 ||| (buf (off + 4)).toUInt64 <<< 32 ||| (buf (off + 5)).toUInt64 <<< 40 |||
      (buf (off + 6)).toUInt64 <<< 48 ||| (buf (off + 7)).toUInt64 <<< 56, off + 8)

/-- `p9_get_str`: the bytes copied to `out`, which has room for `max`, terminator included. -/
def p9GetStr (buf : Mem) (bufLen : Nat) (max : UInt32) : Get Str := do
  let off ← get
  if bufLen < off + 2 then pure []
  else do
    let len ← p9GetU16 buf
    let off ← get
    if bufLen ≤ off ∨ bufLen - off < len.toNat then pure []
    else do
      let copy := if len.toNat < (max - 1).toNat then len.toNat else (max - 1).toNat
      set (off + len.toNat)
      pure (buf.read off copy)

/-- `p9_get_qid`. -/
def p9GetQid (buf : Mem) : Get P9Qid := do
  let type ← p9GetU8 buf
  let version ← p9GetU32 buf
  let path ← p9GetU64 buf
  pure { type := type, version := version, path := path }

/-! ### What is got -/

theorem or_shiftLeft {a k : Nat} (b : Nat) (h : a < 2 ^ k) : a ||| b <<< k = a + 2 ^ k * b := by
  rw [Nat.or_comm, ← Nat.shiftLeft_add_eq_or_of_lt h, Nat.shiftLeft_eq, Nat.mul_comm, Nat.add_comm]

theorem getU8_eq (buf : Mem) (off : Nat) : p9GetU8 buf off = (UInt8.ofNat (leNat (buf.read off 1)), off + 1) := by
  simp only [Mem.read_succ, Mem.read_zero, leNat, Nat.mul_zero, Nat.add_zero, UInt8.ofNat_toNat]
  rfl

theorem getU16_eq (buf : Mem) (off : Nat) : p9GetU16 buf off = (UInt16.ofNat (leNat (buf.read off 2)), off + 2) := by
  have h0 := (buf off).toNat_lt
  have h1 := (buf (off + 1)).toNat_lt
  refine Prod.ext (UInt16.toNat_inj.mp ?_) rfl
  show ((buf off).toUInt16 ||| (buf (off + 1)).toUInt16 <<< 8).toNat = _
  simp only [Mem.read_succ, Mem.read_zero, leNat, UInt16.toNat_or, UInt16.toNat_shiftLeft, UInt8.toNat_toUInt16,
    UInt16.toNat_ofNat, UInt16.toNat_ofNat']
  rw [Nat.mod_eq_of_lt (show (buf (off + 1)).toNat <<< (8 % 2 ^ 16 % 16) < 2 ^ 16 by
    simp only [Nat.reducePow, Nat.reduceMod, Nat.shiftLeft_eq]; omega)]
  rw [show 8 % 2 ^ 16 % 16 = 8 from rfl, or_shiftLeft _ (by omega)]
  omega

theorem shiftLeft_mod (b : UInt8) {k w : Nat} (h : k + 8 ≤ w) : b.toNat <<< k % 2 ^ w = b.toNat <<< k := by
  have hb : b.toNat < 2 ^ 8 := b.toNat_lt
  apply Nat.mod_eq_of_lt
  rw [Nat.shiftLeft_eq]
  calc b.toNat * 2 ^ k < 2 ^ 8 * 2 ^ k := Nat.mul_lt_mul_of_pos_right hb (Nat.two_pow_pos k)
    _ = 2 ^ (k + 8) := by rw [← pow_add, Nat.add_comm]
    _ ≤ 2 ^ w := Nat.pow_le_pow_right (by decide) h

theorem getU32_eq (buf : Mem) (off : Nat) : p9GetU32 buf off = (UInt32.ofNat (leNat (buf.read off 4)), off + 4) := by
  have h0 := (buf off).toNat_lt
  have h1 := (buf (off + 1)).toNat_lt
  have h2 := (buf (off + 2)).toNat_lt
  have h3 := (buf (off + 3)).toNat_lt
  refine Prod.ext (UInt32.toNat_inj.mp ?_) rfl
  show ((buf off).toUInt32 ||| (buf (off + 1)).toUInt32 <<< 8 ||| (buf (off + 2)).toUInt32 <<< 16 |||
      (buf (off + 3)).toUInt32 <<< 24).toNat = _
  simp only [Mem.read_succ, Mem.read_zero, leNat, UInt32.toNat_or, UInt32.toNat_shiftLeft, UInt8.toNat_toUInt32,
    UInt32.reduceToNat, Nat.reduceMod, Nat.add_assoc, Nat.reduceAdd, UInt32.toNat_ofNat']
  rw [shiftLeft_mod _ (by decide), shiftLeft_mod _ (by decide), shiftLeft_mod _ (by decide),
    or_shiftLeft (k := 8) _ (by omega), or_shiftLeft (k := 16) _ (by omega), or_shiftLeft (k := 24) _ (by omega)]
  omega

theorem getU64_eq (buf : Mem) (off : Nat) : p9GetU64 buf off = (UInt64.ofNat (leNat (buf.read off 8)), off + 8) := by
  have h0 := (buf off).toNat_lt
  have h1 := (buf (off + 1)).toNat_lt
  have h2 := (buf (off + 2)).toNat_lt
  have h3 := (buf (off + 3)).toNat_lt
  have h4 := (buf (off + 4)).toNat_lt
  have h5 := (buf (off + 5)).toNat_lt
  have h6 := (buf (off + 6)).toNat_lt
  have h7 := (buf (off + 7)).toNat_lt
  refine Prod.ext (UInt64.toNat_inj.mp ?_) rfl
  show ((buf off).toUInt64 ||| (buf (off + 1)).toUInt64 <<< 8 ||| (buf (off + 2)).toUInt64 <<< 16 |||
      (buf (off + 3)).toUInt64 <<< 24 ||| (buf (off + 4)).toUInt64 <<< 32 ||| (buf (off + 5)).toUInt64 <<< 40 |||
      (buf (off + 6)).toUInt64 <<< 48 ||| (buf (off + 7)).toUInt64 <<< 56).toNat = _
  simp only [Mem.read_succ, Mem.read_zero, leNat, UInt64.toNat_or, UInt64.toNat_shiftLeft, UInt8.toNat_toUInt64,
    UInt64.reduceToNat, Nat.reduceMod, Nat.add_assoc, Nat.reduceAdd, UInt64.toNat_ofNat']
  rw [shiftLeft_mod _ (by decide), shiftLeft_mod _ (by decide), shiftLeft_mod _ (by decide),
    shiftLeft_mod _ (by decide), shiftLeft_mod _ (by decide), shiftLeft_mod _ (by decide),
    shiftLeft_mod _ (by decide), or_shiftLeft (k := 8) _ (by omega), or_shiftLeft (k := 16) _ (by omega),
    or_shiftLeft (k := 24) _ (by omega), or_shiftLeft (k := 32) _ (by omega), or_shiftLeft (k := 40) _ (by omega),
    or_shiftLeft (k := 48) _ (by omega), or_shiftLeft (k := 56) _ (by omega)]
  omega

/-- `g` gets the value `a` from the bytes `bs`. -/
def Parses {α : Type} (g : Mem → Get α) (bs : List UInt8) (a : α) : Prop :=
  ∀ (m : Mem) (off : Nat), m.read off bs.length = bs → g m off = (a, off + bs.length)

/-- `g` gets its value from the next `k` bytes. -/
structure Reads {α : Type} (k : Nat) (g : Mem → Get α) : Prop where
  same : ∀ (m₁ m₂ : Mem) (off : Nat), m₁.read off k = m₂.read off k → g m₁ off = g m₂ off
  next : ∀ (m : Mem) (off : Nat), (g m off).2 = off + k

section Compose

variable {α β : Type} {g : Mem → Get α} {f : Mem → α → Get β}

theorem parses_pure (a : α) : Parses (fun _ => pure a) [] a := fun _ _ _ => rfl

theorem Parses.bind {as bs : List UInt8} {a : α} {b : β} (hg : Parses g as a) (hf : Parses (fun m => f m a) bs b) :
    Parses (fun m => g m >>= f m) (as ++ bs) b := by
  intro m off h
  rw [List.length_append, Mem.read_add] at h
  obtain ⟨ha, hb⟩ := List.append_inj h (by simp)
  show f m (g m off).1 (g m off).2 = _
  rw [hg m off ha, List.length_append, ← Nat.add_assoc]
  exact hf m _ hb

theorem reads_pure (a : α) : Reads 0 fun _ => (pure a : Get α) := ⟨fun _ _ _ _ => rfl, fun _ _ => rfl⟩

theorem Reads.bind {j k : Nat} (hg : Reads j g) (hf : ∀ a, Reads k fun m => f m a) :
    Reads (j + k) fun m => g m >>= f m := by
  constructor
  · intro m₁ m₂ off h
    rw [Mem.read_add, Mem.read_add] at h
    obtain ⟨h₁, h₂⟩ := List.append_inj h (by simp)
    show f m₁ (g m₁ off).1 (g m₁ off).2 = f m₂ (g m₂ off).1 (g m₂ off).2
    rw [hg.same m₁ m₂ off h₁, hg.next]
    exact (hf _).same m₁ m₂ _ h₂
  · intro m off
    show (f m (g m off).1 (g m off).2).2 = _
    rw [(hf _).next, hg.next, Nat.add_assoc]

end Compose

theorem parses_u8 (v : UInt8) : Parses p9GetU8 (leBytes 1 v.toNat) v := by
  intro m off h
  rw [length_leBytes] at h ⊢
  rw [getU8_eq, h, leNat_leBytes_of_lt v.toNat_lt, UInt8.ofNat_toNat]

theorem parses_u16 (v : UInt16) : Parses p9GetU16 (leBytes 2 v.toNat) v := by
  intro m off h
  rw [length_leBytes] at h ⊢
  rw [getU16_eq, h, leNat_leBytes_of_lt v.toNat_lt, UInt16.ofNat_toNat]

theorem parses_u32 (v : UInt32) : Parses p9GetU32 (leBytes 4 v.toNat) v := by
  intro m off h
  rw [length_leBytes] at h ⊢
  rw [getU32_eq, h, leNat_leBytes_of_lt v.toNat_lt, UInt32.ofNat_toNat]

theorem parses_u64 (v : UInt64) : Parses p9GetU64 (leBytes 8 v.toNat) v := by
  intro m off h
  rw [length_leBytes] at h ⊢
  rw [getU64_eq, h, leNat_leBytes_of_lt v.toNat_lt, UInt64.ofNat_toNat]

/-- A qid on the wire. -/
def qidBytes (qid : P9Qid) : List UInt8 :=
  leBytes 1 qid.type.toNat ++ (leBytes 4 qid.version.toNat ++ leBytes 8 qid.path.toNat)

theorem parses_qid (qid : P9Qid) : Parses p9GetQid (qidBytes qid) qid := by
  have h : Parses p9GetQid (leBytes 1 qid.type.toNat ++ (leBytes 4 qid.version.toNat ++
      (leBytes 8 qid.path.toNat ++ []))) qid := by
    refine Parses.bind (parses_u8 qid.type) ?_
    refine Parses.bind (parses_u32 qid.version) ?_
    exact Parses.bind (parses_u64 qid.path) (parses_pure qid)
  simpa only [List.append_nil, qidBytes] using h

theorem reads_u8 : Reads 1 p9GetU8 :=
  ⟨fun m₁ m₂ off h => by rw [getU8_eq, getU8_eq, h], fun m off => by rw [getU8_eq]⟩

theorem reads_u16 : Reads 2 p9GetU16 :=
  ⟨fun m₁ m₂ off h => by rw [getU16_eq, getU16_eq, h], fun m off => by rw [getU16_eq]⟩

theorem reads_u32 : Reads 4 p9GetU32 :=
  ⟨fun m₁ m₂ off h => by rw [getU32_eq, getU32_eq, h], fun m off => by rw [getU32_eq]⟩

theorem reads_u64 : Reads 8 p9GetU64 :=
  ⟨fun m₁ m₂ off h => by rw [getU64_eq, getU64_eq, h], fun m off => by rw [getU64_eq]⟩

theorem reads_qid : Reads 13 p9GetQid :=
  reads_u8.bind fun _ => reads_u32.bind fun _ => reads_u64.bind fun _ => reads_pure _

theorem getStr_eq (m : Mem) (bufLen : Nat) (max : UInt32) (off : Nat) :
    p9GetStr m bufLen max off =
      if bufLen < off + 2 then ([], off)
      else if bufLen < off + 2 + leNat (m.read off 2) then ([], off + 2)
      else (m.read (off + 2) (min (leNat (m.read off 2)) (max - 1).toNat), off + 2 + leNat (m.read off 2)) := by
  have hlt : leNat (m.read off 2) < 65536 := by simpa using leNat_lt (m.read off 2)
  have hget : p9GetU16 m off = (UInt16.ofNat (leNat (m.read off 2)), off + 2) := getU16_eq m off
  have hlen : (UInt16.ofNat (leNat (m.read off 2))).toNat = leNat (m.read off 2) := by
    rw [UInt16.toNat_ofNat', Nat.mod_eq_of_lt hlt]
  by_cases h₁ : bufLen < off + 2
  · simp only [p9GetStr, bind, StateT.bind, get, getThe, MonadStateOf.get, StateT.get, pure, h₁, if_true]
    rfl
  simp only [p9GetStr, bind, StateT.bind, get, getThe, MonadStateOf.get, StateT.get, pure, h₁, if_false, hget, hlen]
  by_cases h₂ : bufLen < off + 2 + leNat (m.read off 2)
  · rw [if_pos h₂, if_pos (by omega)]
    rfl
  by_cases h₃ : bufLen ≤ off + 2
  · -- an empty string at the very end of the buffer: the early exit leaves the same offset
    have hzero : leNat (m.read off 2) = 0 := by omega
    rw [if_neg h₂, if_pos (by omega), hzero]
    rfl
  · have hmin : (if leNat (m.read off 2) < (max - 1).toNat then leNat (m.read off 2) else (max - 1).toNat) =
        min (leNat (m.read off 2)) (max - 1).toNat := by
      split <;> omega
    rw [if_neg h₂, if_neg (by omega), hmin]
    rfl

/-- `p9_get_str` looks at no byte from `bufLen` on. -/
theorem getStr_agree {m₁ m₂ : Mem} {bufLen : Nat} (h : Agree bufLen m₁ m₂) (max : UInt32) (off : Nat) :
    p9GetStr m₁ bufLen max off = p9GetStr m₂ bufLen max off := by
  rw [getStr_eq, getStr_eq]
  by_cases h₁ : bufLen < off + 2
  · rw [if_pos h₁, if_pos h₁]
  have hlen : m₁.read off 2 = m₂.read off 2 := h.read (by omega)
  rw [if_neg h₁, if_neg h₁, hlen]
  split
  · rfl
  · rw [h.read (by omega)]

end Virtio9P
