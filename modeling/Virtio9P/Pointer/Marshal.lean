import Virtio9P.Marshal
import Virtio9P.Pointer.Strings

/-!
# Strings on the wire, with pointers (`p9_marshal.c`)

`p9_put_str` and `p9_get_str` once more, as the source has them: on the memory of the machine, with `uint32` offsets and
pointers that wrap, and with `memcpy` and `strlen` as `string_utils.h` defines them. The offset that the functions are
given by address is passed and returned.

* `p9PutStr_runs`, `p9GetStr_runs`: as long as the offset does not wrap, they do what the functions of
  `Virtio9P.Marshal` do with the bytes of the buffer, and touch nothing else;
* **`str_bounded_inverse`**: so `p9_get_str` stays inside the buffer and `out`, and reads back what `p9_put_str` wrote;
* `offset_wraps`: the check `*off + 2 > buf_len` lets the two last offsets of the address space pass.
-/

namespace Virtio9P.Pointer

open Lib

/-- `p9_put_u16`: the new offset. -/
def p9PutU16 (buf off : UInt32) (val : UInt16) : Prog UInt32 := do
  storeByte (buf + off) val.toUInt8
  storeByte (buf + (off + 1)) (val >>> 8).toUInt8
  pure (off + 2)

/-- `p9_put_str`: the new offset. -/
def p9PutStr (buf off s : UInt32) : Prog UInt32 := do
  let len := (← v9pStrlen s).toUInt16
  let off ← p9PutU16 buf off len
  let _ ← v9pMemcpy (buf + off) s len.toUInt32
  pure (off + len.toUInt32)

/-- `p9_get_u16`: the number and the new offset. -/
def p9GetU16 (buf off : UInt32) : Prog (UInt16 × UInt32) := do
  let lo ← loadByte (buf + off)
  let hi ← loadByte (buf + (off + 1))
  pure (lo.toUInt16 ||| hi.toUInt16 <<< 8, off + 2)

/-- `p9_get_str`: the new offset. -/
def p9GetStr (buf bufLen off out max : UInt32) : Prog UInt32 :=
  if bufLen < off + 2 then do
    storeByte out 0
    pure off
  else do
    let got ← p9GetU16 buf off
    let len := got.1.toUInt32
    let off := got.2
    if bufLen ≤ off ∨ bufLen - off < len then do
      storeByte out 0
      pure off
    else do
      let copy := if len < max - 1 then len else max - 1
      let _ ← v9pMemcpy out (buf + off) copy
      storeByte (out + copy) 0
      pure (off + len)

/-! ## What they do to the bytes -/

variable {M : Machine} {m : Ram}

theorem p9PutU16_runs {buf off : UInt32} (val : UInt16) (hw : M.Writable (buf + off) 2) :
    Runs M (p9PutU16 buf off val) m (off + 2) (m.store (buf + off) (leBytes 2 val.toNat)) := by
  have h0 : val.toUInt8 = UInt8.ofNat val.toNat := UInt8.toNat_inj.mp (by simp)
  have h1 : (val >>> 8).toUInt8 = UInt8.ofNat (val.toNat / 256) :=
    UInt8.toNat_inj.mp (by simp [Nat.shiftRight_eq_div_pow])
  have hnext : buf + (off + 1) = buf + off + UInt32.ofNat 1 := (UInt32.add_assoc _ _ _).symm
  have hboth : (m.store (buf + off) [val.toUInt8]).store (buf + off + UInt32.ofNat 1) [(val >>> 8).toUInt8] =
      m.store (buf + off) (leBytes 2 val.toNat) := by
    refine (m.store_append (buf + off) (by simp)).trans ?_
    rw [h0, h1]
    rfl
  refine (runs_storeByte_store val.toUInt8 (by simpa using hw 0 (by omega))).bind ?_
  rw [hnext]
  refine ((runs_storeByte_store _ (hw 1 (by omega))).cast hboth).bind ?_
  exact runs_pure _

theorem p9GetU16_runs {buf off : UInt32} (hr : M.Readable (buf + off) 2) :
    Runs M (p9GetU16 buf off) m (UInt16.ofNat (leNat ((m.view buf).read off.toNat 2)), off + 2) m := by
  have hlo : m.view buf off.toNat = m (buf + off) := by rw [Ram.view, UInt32.ofNat_toNat]
  have hhi : m.view buf (off.toNat + 1) = m (buf + (off + 1)) := by
    rw [Ram.view, UInt32.ofNat_add, UInt32.ofNat_toNat]
    rfl
  have hval : (m (buf + off)).toUInt16 ||| (m (buf + (off + 1))).toUInt16 <<< 8 =
      UInt16.ofNat (leNat ((m.view buf).read off.toNat 2)) := by
    rw [← hlo, ← hhi]
    exact congrArg Prod.fst (getU16_eq (m.view buf) off.toNat)
  have hnext : buf + (off + 1) = buf + off + UInt32.ofNat 1 := (UInt32.add_assoc _ _ _).symm
  refine (runs_loadByte (by simpa using hr 0 (by omega))).bind ?_
  refine (runs_loadByte (by rw [hnext]; exact hr 1 (by omega))).bind ?_
  rw [hval]
  exact runs_pure _

/-- A C string in memory. -/
structure StrAt (m : Ram) (s : UInt32) (str : Str) : Prop where
  bytes : (m.view s).read 0 str.length = str
  ends : m (s + UInt32.ofNat str.length) = 0
  nulFree : (0 : UInt8) ∉ str
  size : str.length < 4294967296

theorem StrAt.byte {s : UInt32} {str : Str} (h : StrAt m s str) {i : Nat} (hi : i < str.length) :
    m (s + UInt32.ofNat i) = str[i] := by
  have hget := Mem.getElem?_read (m.view s) 0 hi
  rw [h.bytes, List.getElem?_eq_getElem hi, Nat.zero_add] at hget
  exact (Option.some.inj hget).symm

theorem StrAt.strlen {s : UInt32} {str : Str} (h : StrAt m s str) (hr : M.Readable s (str.length + 1)) :
    Runs M (v9pStrlen s) m (UInt32.ofNat str.length) m := by
  refine v9pStrlen_runs m h.size hr (fun i hi => ?_) h.ends
  rw [h.byte hi]
  exact fun hzero => h.nulFree (hzero ▸ List.getElem_mem hi)

/-- **`p9_put_str` appends what it appends to a buffer of bytes**: the length in sixteen bits and that many bytes. -/
theorem p9PutStr_runs {buf off s : UInt32} {str : Str} (h : StrAt m s str) (hr : M.Readable s (str.length + 1))
    (hw : M.Writable (buf + off) (strBytes (wireStr str)).length)
    (hapart : Apart (buf + off) (strBytes (wireStr str)).length s (str.length + 1)) :
    Runs M (p9PutStr buf off s) m (off + UInt32.ofNat (strBytes (wireStr str)).length)
      (m.store (buf + off) (strBytes (wireStr str))) := by
  have hsize := h.size
  have hk := length_wireStr str
  have hle := length_wireStr_le str
  have hlt := length_wireStr_lt str
  have htotal : (strBytes (wireStr str)).length = 2 + (wireStr str).length := by simp [strBytes]
  have hlen : (UInt32.ofNat str.length).toUInt16.toNat = (wireStr str).length := by
    rw [UInt32.toNat_toUInt16, UInt32.toNat_ofNat', hk]
    omega
  have hlen32 : (UInt32.ofNat str.length).toUInt16.toUInt32 = UInt32.ofNat (wireStr str).length := by
    apply UInt32.toNat_inj.mp
    rw [UInt16.toNat_toUInt32, hlen, UInt32.toNat_ofNat', Nat.mod_eq_of_lt (by omega)]
  have hcount : (UInt32.ofNat (wireStr str).length).toNat = (wireStr str).length := by
    rw [UInt32.toNat_ofNat', Nat.mod_eq_of_lt (by omega)]
  rw [htotal] at hw hapart ⊢
  have hput := p9PutU16_runs (m := m) (UInt32.ofNat str.length).toUInt16 hw.left
  rw [hlen] at hput
  -- The string is still what it was, and it is copied behind its length.
  have hbody : ((m.store (buf + off) (leBytes 2 (wireStr str).length)).view s).read 0 (wireStr str).length =
      wireStr str := by
    refine (m.read_store_of_apart hapart (by simp) (by omega) (by omega)).trans ?_
    have htake := congrArg (List.take (wireStr str).length) h.bytes
    rw [Mem.take_read _ _ hle] at htake
    rw [htake, hk]
    rfl
  have hnext : buf + (off + 2) = buf + off + UInt32.ofNat 2 := (UInt32.add_assoc _ _ _).symm
  have hpart : Apart (buf + off + UInt32.ofNat 2) (wireStr str).length s (wireStr str).length := by
    simpa using hapart.part (j := 0) (Nat.le_refl _) (by omega) (by omega) (by omega)
  have hcopy := v9pMemcpy_runs (M := M) (n := UInt32.ofNat (wireStr str).length)
    (m.store (buf + off) (leBytes 2 (wireStr str).length)) (fun i hi => hr i (by omega))
    (by rw [hcount]; exact hw.right) (by rw [hcount]; exact hpart.frontSafe (by omega))
  have hall := m.store_append (buf + off) (show (leBytes 2 (wireStr str).length ++ wireStr str).length ≤ 4294967296 by
    rw [List.length_append, length_leBytes]; omega)
  rw [hcount, Ram.copied_eq_store, hbody] at hcopy
  rw [length_leBytes] at hall
  rw [hall] at hcopy
  refine (h.strlen hr).bind (hput.bind ?_)
  rw [hlen32, hnext]
  refine hcopy.bind ?_
  rw [add_ofNat_add]
  exact runs_pure _

section

variable {buf bufLen off out max : UInt32}

theorem toNat_add_two (hoff : off.toNat + 2 < 4294967296) : (off + 2).toNat = off.toNat + 2 := by
  rw [UInt32.toNat_add, show (2 : UInt32).toNat = 2 from rfl]
  omega

/-- `out[0] = 0; return;`. -/
theorem empty_runs (hmax : 1 ≤ max) (hw : M.Writable out max.toNat) (o : UInt32) :
    Runs M (storeByte out 0 >>= fun _ => (pure o : Prog UInt32)) m o (m.store out [0]) := by
  have hpos : 1 ≤ max.toNat := hmax
  exact (runs_storeByte_store 0 (by simpa using hw 0 (by omega))).bind (runs_pure o)

/-- The body is copied, as far as `out` has room, and terminated. -/
theorem copyOut_runs {src copy : UInt32} (hcopy : copy.toNat < max.toNat) (hr : M.Readable src copy.toNat)
    (hw : M.Writable out max.toNat) (hapart : Apart out copy.toNat src copy.toNat) (o : UInt32) :
    Runs M (v9pMemcpy out src copy >>= fun _ => storeByte (out + copy) 0 >>= fun _ => (pure o : Prog UInt32)) m o
      (m.store out ((m.view src).read 0 copy.toNat ++ [0])) := by
  have hlt := max.toNat_lt
  have hmem := v9pMemcpy_runs m hr (fun i hi => hw i (by omega)) (hapart.frontSafe (by omega))
  rw [Ram.copied_eq_store] at hmem
  have hnul : M.writable (out + copy) = true := by simpa using hw copy.toNat hcopy
  have hall := m.store_append out (show ((m.view src).read 0 copy.toNat ++ [0]).length ≤ 4294967296 by
    simp only [List.length_append, Mem.length_read, List.length_singleton]; omega)
  rw [Mem.length_read, UInt32.ofNat_toNat] at hall
  exact hmem.bind (((runs_storeByte_store 0 hnul).cast hall).bind (runs_pure o))

/-- **`p9_get_str` reads what it reads from a buffer of bytes**, and stores it in `out` with a `NUL`. -/
theorem p9GetStr_runs (hoff : off.toNat + 2 < 4294967296) (hmax : 1 ≤ max) (hr : M.Readable buf bufLen.toNat)
    (hw : M.Writable out max.toNat) (hapart : Apart out max.toNat buf bufLen.toNat) :
    Runs M (p9GetStr buf bufLen off out max) m
      (UInt32.ofNat (Virtio9P.p9GetStr (m.view buf) bufLen.toNat max off.toNat).2)
      (m.store out ((Virtio9P.p9GetStr (m.view buf) bufLen.toNat max off.toNat).1 ++ [0])) := by
  have hpos : 1 ≤ max.toNat := hmax
  have hbuf := bufLen.toNat_lt
  have hadd := toNat_add_two hoff
  have hroom : (max - 1).toNat = max.toNat - 1 := UInt32.toNat_sub_of_le _ _ hmax
  rw [getStr_eq]
  by_cases hprefix : bufLen.toNat < off.toNat + 2
  · have htest : bufLen < off + 2 := by rwa [UInt32.lt_iff_toNat_lt, hadd]
    rw [if_pos hprefix, p9GetStr, if_pos htest, UInt32.ofNat_toNat]
    exact empty_runs hmax hw off
  have htest : ¬ bufLen < off + 2 := by rwa [UInt32.lt_iff_toNat_lt, hadd]
  have hu16 : M.Readable (buf + off) 2 := by
    have hpart : M.Readable buf (off.toNat + 2) := fun i hi => hr i (by omega)
    simpa using hpart.right
  have hgot := p9GetU16_runs (m := m) hu16
  have hlt : leNat ((m.view buf).read off.toNat 2) < 65536 := by simpa using leNat_lt ((m.view buf).read off.toNat 2)
  rw [if_neg hprefix, p9GetStr, if_neg htest]
  generalize hL : leNat ((m.view buf).read off.toNat 2) = L at hlt hgot ⊢
  have hlen : (UInt16.ofNat L).toUInt32.toNat = L := by
    rw [UInt16.toNat_toUInt32, UInt16.toNat_ofNat', Nat.mod_eq_of_lt hlt]
  have hsub : (bufLen - (off + 2)).toNat = bufLen.toNat - (off.toNat + 2) := by
    rw [UInt32.toNat_sub_of_le _ _ (by rw [UInt32.le_iff_toNat_le, hadd]; omega), hadd]
  have hbody : bufLen ≤ off + 2 ∨ bufLen - (off + 2) < (UInt16.ofNat L).toUInt32 ↔
      bufLen.toNat ≤ off.toNat + 2 ∨ bufLen.toNat - (off.toNat + 2) < L := by
    rw [UInt32.le_iff_toNat_le, UInt32.lt_iff_toNat_lt, hadd, hsub, hlen]
  have htwo : UInt32.ofNat (off.toNat + 2) = off + 2 := by
    rw [UInt32.ofNat_add, UInt32.ofNat_toNat]
    rfl
  refine hgot.bind ?_
  by_cases hshort : bufLen.toNat ≤ off.toNat + 2 ∨ bufLen.toNat - (off.toNat + 2) < L
  · -- too short, or an empty string that ends with the buffer: the same offset in both cases
    have hres : (if bufLen.toNat < off.toNat + 2 + L then ([], off.toNat + 2)
        else ((m.view buf).read (off.toNat + 2) (min L (max - 1).toNat), off.toNat + 2 + L)) =
        (([] : Str), off.toNat + 2) := by
      split
      · rfl
      · have hzero : L = 0 := by omega
        rw [hzero, Nat.zero_min, Mem.read_zero, Nat.add_zero]
    rw [hres, htwo, if_pos (hbody.mpr hshort)]
    exact empty_runs hmax hw (off + 2)
  · rw [if_neg (mt hbody.mp hshort), if_neg (show ¬ bufLen.toNat < off.toNat + 2 + L by omega)]
    dsimp only
    generalize hcopy : (if (UInt16.ofNat L).toUInt32 < max - 1 then (UInt16.ofNat L).toUInt32 else max - 1) = copy
    have hmin : copy.toNat = min L (max - 1).toNat := by
      rw [← hcopy]
      split
      · rename_i hless
        rw [UInt32.lt_iff_toNat_lt, hlen] at hless
        omega
      · rename_i hless
        rw [UInt32.lt_iff_toNat_lt, hlen] at hless
        omega
    have hsrc : buf + (off + 2) = buf + UInt32.ofNat (off.toNat + 2) := by rw [htwo]
    have hread : M.Readable (buf + (off + 2)) copy.toNat := by
      have hpart : M.Readable buf (off.toNat + 2 + copy.toNat) := fun i hi => hr i (by omega)
      rw [hsrc]
      exact hpart.right
    have hsplit : Apart out copy.toNat (buf + (off + 2)) copy.toNat := by
      have hpart : Apart (out + UInt32.ofNat 0) copy.toNat (buf + UInt32.ofNat (off.toNat + 2)) copy.toNat :=
        hapart.part (by omega) (by omega) max.toNat_lt.le hbuf.le
      rw [hsrc]
      simpa using hpart
    have hend : off + 2 + (UInt16.ofNat L).toUInt32 = UInt32.ofNat (off.toNat + 2 + L) := by
      rw [UInt32.ofNat_add, htwo]
      apply congrArg
      apply UInt32.toNat_inj.mp
      rw [hlen, UInt32.toNat_ofNat', Nat.mod_eq_of_lt (by omega)]
    rw [← hmin, ← (m.view_add buf (off.toNat + 2) copy.toNat), ← hsrc, ← hend]
    exact copyOut_runs (by omega) hread hw hsplit _

end

/-! ## Bounds and round trip -/

/-- Arguments of `p9_get_str`: an offset in the buffer, room for a `NUL`, and a buffer and an `out` that are two
objects. -/
structure GetArgs where
  buf : UInt32
  bufLen : UInt32
  off : UInt32
  out : UInt32
  max : UInt32
  start : off ≤ bufLen
  room : 1 ≤ max
  apart : Apart out max.toNat buf bufLen.toNat

namespace GetArgs

variable (A : GetArgs)

def run : Prog UInt32 := p9GetStr A.buf A.bufLen A.off A.out A.max

/-- The machine on which `buf[0..buf_len)` can be read and `out[0..max)` written, and nothing else. -/
def machine (bigEndian : Bool) : Machine := .only bigEndian A.buf A.bufLen.toNat A.out A.max.toNat

/-- The length at the offset. -/
def len (m : Ram) : Nat := leNat ((m.view A.buf).read A.off.toNat 2)

/-- The length and all its bytes lie in the buffer. -/
def Whole (m : Ram) : Prop := A.off.toNat + 2 + A.len m ≤ A.bufLen.toNat

/-- What `p9_get_str` should leave: `text` with a `NUL` in `out`, and an offset. -/
structure Reads (m : Ram) (off' : UInt32) (text : Str) : Prop where
  terminated : text.length + 1 ≤ A.max.toNat
  onward : A.off ≤ off'
  inside : off' ≤ A.bufLen
  whole : A.Whole m → text = (m.view A.buf).read (A.off.toNat + 2) (min (A.len m) (A.max.toNat - 1)) ∧
    off'.toNat = A.off.toNat + 2 + A.len m
  cut : ¬ A.Whole m → text = []

theorem toNat_max_sub_one : (A.max - 1).toNat = A.max.toNat - 1 := UInt32.toNat_sub_of_le _ _ A.room

/-- What a buffer of bytes gives is what should be left. -/
theorem reads (m : Ram) : A.Reads m
    (UInt32.ofNat (Virtio9P.p9GetStr (m.view A.buf) A.bufLen.toNat A.max A.off.toNat).2)
    (Virtio9P.p9GetStr (m.view A.buf) A.bufLen.toNat A.max A.off.toNat).1 := by
  have hstart : A.off.toNat ≤ A.bufLen.toNat := A.start
  have hroom : 1 ≤ A.max.toNat := A.room
  have hbuf := A.bufLen.toNat_lt
  have hsub := A.toNat_max_sub_one
  have hnum : ∀ o, o ≤ A.bufLen.toNat → (UInt32.ofNat o).toNat = o := fun o ho => by
    rw [UInt32.toNat_ofNat', Nat.mod_eq_of_lt (by omega)]
  rw [getStr_eq]
  by_cases h₁ : A.bufLen.toNat < A.off.toNat + 2
  · have hcut : ¬ A.Whole m := by unfold Whole; omega
    rw [if_pos h₁, UInt32.ofNat_toNat]
    exact ⟨hroom, UInt32.le_refl _, A.start, fun h => absurd h hcut, fun _ => rfl⟩
  rw [if_neg h₁]
  by_cases h₂ : A.bufLen.toNat < A.off.toNat + 2 + leNat ((m.view A.buf).read A.off.toNat 2)
  · have hcut : ¬ A.Whole m := by unfold Whole len; omega
    rw [if_pos h₂]
    refine ⟨hroom, ?_, ?_, fun h => absurd h hcut, fun _ => rfl⟩
    · rw [UInt32.le_iff_toNat_le, hnum _ (by omega)]; omega
    · rw [UInt32.le_iff_toNat_le, hnum _ (by omega)]; omega
  · have hwhole : A.Whole m := by unfold Whole len; omega
    rw [if_neg h₂]
    refine ⟨?_, ?_, ?_, fun _ => ⟨by rw [hsub]; rfl, hnum _ (by omega)⟩, fun h => absurd hwhole h⟩
    · rw [Mem.length_read]; omega
    · rw [UInt32.le_iff_toNat_le, hnum _ (by omega)]; omega
    · rw [UInt32.le_iff_toNat_le, hnum _ (by omega)]; omega

variable {A}

/-- `p9_get_str` on its machine. -/
theorem runs (bigEndian : Bool) (m : Ram) (hoff : A.off.toNat + 2 < 4294967296) :
    Runs (A.machine bigEndian) A.run m
      (UInt32.ofNat (Virtio9P.p9GetStr (m.view A.buf) A.bufLen.toNat A.max A.off.toNat).2)
      (m.store A.out ((Virtio9P.p9GetStr (m.view A.buf) A.bufLen.toNat A.max A.off.toNat).1 ++ [0])) := by
  have hr : (A.machine bigEndian).Readable A.buf A.bufLen.toNat := only_readable bigEndian _ _ A.bufLen.toNat_lt.le
  have hw : (A.machine bigEndian).Writable A.out A.max.toNat := only_writable bigEndian _ _ A.max.toNat_lt.le
  exact p9GetStr_runs hoff A.room hr hw A.apart

/-- `p9_put_str` into the buffer. -/
theorem put_runs (bigEndian : Bool) {m : Ram} {s : UInt32} {str : Str} (hstr : StrAt m s str)
    (hshort : str.length < 65536) (hfits : A.off.toNat + 2 + str.length ≤ A.bufLen.toNat)
    (hapart : Apart A.buf A.bufLen.toNat s (str.length + 1)) :
    Runs (.only bigEndian s (str.length + 1) A.buf A.bufLen.toNat) (p9PutStr A.buf A.off s) m
      (A.off + UInt32.ofNat (strBytes str).length) (m.store (A.buf + A.off) (strBytes str)) := by
  have hbuf := A.bufLen.toNat_lt
  have hlen := length_strBytes str
  have hall : (Machine.only bigEndian s (str.length + 1) A.buf A.bufLen.toNat).Writable A.buf A.bufLen.toNat :=
    only_writable bigEndian _ _ hbuf.le
  have hw : (Machine.only bigEndian s (str.length + 1) A.buf A.bufLen.toNat).Writable (A.buf + A.off)
      (strBytes str).length := by
    have hpart : (Machine.only bigEndian s (str.length + 1) A.buf A.bufLen.toNat).Writable A.buf
        (A.off.toNat + (strBytes str).length) := fun i hi => hall i (by omega)
    simpa using hpart.right
  have hsplit : Apart (A.buf + A.off) (strBytes str).length s (str.length + 1) := by
    have hpart : Apart (A.buf + UInt32.ofNat A.off.toNat) (strBytes str).length (s + UInt32.ofNat 0) (str.length + 1) :=
      hapart.part (by omega) (by omega) hbuf.le (by omega)
    simpa using hpart
  have hwire := wireStr_of_lt hshort
  have hput := p9PutStr_runs hstr (only_readable bigEndian _ _ (by omega)) (by rw [hwire]; exact hw)
    (by rw [hwire]; exact hsplit)
  rwa [hwire] at hput

/-- A string in the buffer is read back. -/
theorem get_strBytes {v : Mem} {str : Str} (hv : v.read A.off.toNat (strBytes str).length = strBytes str)
    (hshort : str.length < 65536) (hmax : str.length < A.max.toNat)
    (hfits : A.off.toNat + 2 + str.length ≤ A.bufLen.toNat) :
    Virtio9P.p9GetStr v A.bufLen.toNat A.max A.off.toNat = (str, A.off.toNat + 2 + str.length) := by
  have hsub := A.toNat_max_sub_one
  rw [length_strBytes, Mem.read_add, strBytes] at hv
  obtain ⟨hlen, hbody⟩ := List.append_inj hv (by simp)
  rw [getStr_eq, hlen, leNat_leBytes_of_lt hshort, if_neg (by omega), if_neg (by omega), Nat.min_eq_left (by omega),
    hbody]

end GetArgs

/-- **`p9_get_str` is bounded and inverts `p9_put_str`.** From every offset but the last two of the address space it
reads the buffer and writes `out` only, terminates what it writes, and leaves an offset in the buffer. A string that
`p9_put_str` wrote is read back from the same offset, with the same end. -/
theorem str_bounded_inverse (bigEndian : Bool) (m : Ram) (A : GetArgs) :
    (A.off.toNat + 2 < 4294967296 → ∃ off' text, A.Reads m off' text ∧
      Runs (A.machine bigEndian) A.run m off' (m.store A.out (text ++ [0]))) ∧
    (∀ (s : UInt32) (str : Str), StrAt m s str → str.length < 65536 → str.length < A.max.toNat →
      A.off.toNat + 2 + str.length ≤ A.bufLen.toNat → Apart A.buf A.bufLen.toNat s (str.length + 1) →
      ∃ last m₁, last.toNat = A.off.toNat + 2 + str.length ∧
        Runs (.only bigEndian s (str.length + 1) A.buf A.bufLen.toNat) (p9PutStr A.buf A.off s) m last m₁ ∧
        Runs (A.machine bigEndian) A.run m₁ last (m₁.store A.out (str ++ [0]))) := by
  refine ⟨fun hoff => ⟨_, _, A.reads m, GetArgs.runs bigEndian m hoff⟩, ?_⟩
  intro s str hstr hshort hmax hfits hapart
  have hbuf := A.bufLen.toNat_lt
  have hlen := length_strBytes str
  have hstored : ((m.store (A.buf + A.off) (strBytes str)).view A.buf).read A.off.toNat (strBytes str).length =
      strBytes str := by
    have hread := m.read_store A.buf (show A.off.toNat + (strBytes str).length ≤ 4294967296 by omega)
    rwa [UInt32.ofNat_toNat] at hread
  have hlast : A.off + UInt32.ofNat (strBytes str).length = UInt32.ofNat (A.off.toNat + 2 + str.length) := by
    rw [Nat.add_assoc, UInt32.ofNat_add, UInt32.ofNat_toNat, hlen]
  have hget := GetArgs.runs bigEndian (m.store (A.buf + A.off) (strBytes str)) (A := A) (by omega)
  rw [GetArgs.get_strBytes hstored hshort hmax hfits] at hget
  refine ⟨_, _, ?_, GetArgs.put_runs bigEndian hstr hshort hfits hapart, ?_⟩
  · rw [hlast, UInt32.toNat_ofNat', Nat.mod_eq_of_lt (by omega)]
  · rw [hlast]
    exact hget

/-- Two bytes at `0x3000`. -/
def twoLetters : Ram := fun a => if a = 0x3000 then 97 else if a = 0x3001 then 98 else 0

/-- A buffer of sixteen bytes and an `out` of eight. -/
def smallArgs : GetArgs where
  buf := 0x1000
  bufLen := 16
  off := 4
  out := 0x2000
  max := 8
  start := by decide
  room := by decide
  apart := (apart_of_le (by decide) (by unfold InSpace; decide)).symm

theorem str_bounded_inverse_twoLetters : ∃ last m₁, last.toNat = 8 ∧
    Runs (.only true 0x3000 3 0x1000 16) (p9PutStr 0x1000 4 0x3000) twoLetters last m₁ ∧
    Runs (smallArgs.machine true) smallArgs.run m₁ last (m₁.store 0x2000 [97, 98, 0]) :=
  (str_bounded_inverse true twoLetters smallArgs).2 0x3000 [97, 98] ⟨by decide, by decide, by decide, by decide⟩
    (by decide) (by decide) (by decide) (apart_of_le (by decide) (by unfold InSpace; decide))

/-! ## The end of the address space -/

/-- All of memory but its last byte as the buffer, that byte as `out`, and the offset of the buffer's last byte. -/
def lastOffset : GetArgs where
  buf := 0
  bufLen := 0xFFFFFFFF
  off := 0xFFFFFFFE
  out := 0xFFFFFFFF
  max := 1
  start := by decide
  room := by decide
  apart := (apart_of_le (by decide) (by unfold InSpace; decide)).symm

/-- `*off + 2` wraps to `0`, the check passes, and the second byte of the length is read past the end of the buffer. -/
theorem offset_wraps : ∃ A : GetArgs, ∀ (bigEndian : Bool) (m : Ram), A.run (A.machine bigEndian) m = none :=
  ⟨lastOffset, fun _ _ => rfl⟩

end Virtio9P.Pointer
