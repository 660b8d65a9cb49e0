import Virtio9P.Lib.Ram

/-!
# Memory helpers (`string_utils.h`)

`v9p_memset`, `v9p_memcpy` and `v9p_memmove` on a memory with aligned 32-bit accesses, loop by loop. A loop that counts
down from `n` is a recursion on `n`; each says how many bytes it dealt with, and a copy or a fill is then put together
from its prologue, its word loop and its tail.

* `v9pMemset_runs`: exactly `dst[0..n)` is set, to the low byte of `c`;
* `v9pMemcpy_runs`: `dst[0..n)` becomes `src[0..n)` when copying upwards is safe, in particular when the two are apart;
* `v9pMemmove_runs`: the same for intervals that meet, as long as neither runs over the end of the address space.
-/

namespace Virtio9P

open Lib

/-! ## The functions -/

/-- The alignment prologue of `v9p_memset`: the address and the count it leaves. -/
def memsetHead (val : UInt8) : UInt32 → Nat → Prog (UInt32 × Nat)
  | d, 0 => pure (d, 0)
  | d, n + 1 =>
    if d &&& 3 ≠ 0 then do
      storeByte d val
      memsetHead val (d + 1) n
    else pure (d, n + 1)

/-- The word loop of `v9p_memset`. -/
def memsetWords (w : UInt32) : UInt32 → Nat → Prog (UInt32 × Nat)
  | d, n + 4 => do
    storeWord d w
    memsetWords w (d + 4) n
  | d, n => pure (d, n)

/-- The tail of `v9p_memset`. -/
def memsetTail (val : UInt8) : UInt32 → Nat → Prog Unit
  | _, 0 => pure ()
  | d, n + 1 => do
    storeByte d val
    memsetTail val (d + 1) n

/-- The word that has `val` in each of its bytes. -/
def fillWord (val : UInt8) : UInt32 :=
  val.toUInt32 ||| val.toUInt32 <<< 8 ||| val.toUInt32 <<< 16 ||| val.toUInt32 <<< 24

/-- The block `if (n >= 4) { … }` of `v9p_memset`. -/
def memsetBulk (val : UInt8) (d : UInt32) (n : Nat) : Prog (UInt32 × Nat) :=
  if 4 ≤ n then memsetWords (fillWord val) d n else pure (d, n)

/-- `v9p_memset`. -/
def v9pMemset (dst : UInt32) (c : Int32) (n : UInt32) : Prog UInt32 := do
  let val := c.toUInt32.toUInt8
  let head ← memsetHead val dst n.toNat
  let bulk ← memsetBulk val head.1 head.2
  memsetTail val bulk.1 bulk.2
  pure dst

/-- Where a copy is: the next destination and source addresses and the bytes left. -/
structure CopyAt where
  d : UInt32
  s : UInt32
  n : Nat

/-- The alignment prologue of `v9p_memcpy`. -/
def memcpyHead : UInt32 → UInt32 → Nat → Prog CopyAt
  | d, s, 0 => pure ⟨d, s, 0⟩
  | d, s, n + 1 =>
    if d &&& 3 ≠ 0 then do
      loadByte s >>= storeByte d
      memcpyHead (d + 1) (s + 1) n
    else pure ⟨d, s, n + 1⟩

/-- The word loop of `v9p_memcpy`. -/
def memcpyWords : UInt32 → UInt32 → Nat → Prog CopyAt
  | d, s, n + 4 => do
    loadWord s >>= storeWord d
    memcpyWords (d + 4) (s + 4) n
  | d, s, n => pure ⟨d, s, n⟩

/-- The byte loop `while (n--) *d++ = *s++;` of `v9p_memcpy` and `v9p_memmove`. -/
def copyUp : UInt32 → UInt32 → Nat → Prog Unit
  | _, _, 0 => pure ()
  | d, s, n + 1 => do
    loadByte s >>= storeByte d
    copyUp (d + 1) (s + 1) n

/-- The byte loop `while (n--) *--d = *--s;` of `v9p_memmove`. -/
def copyDown : UInt32 → UInt32 → Nat → Prog Unit
  | _, _, 0 => pure ()
  | d, s, n + 1 => do
    loadByte (s - 1) >>= storeByte (d - 1)
    copyDown (d - 1) (s - 1) n

/-- The block of `v9p_memcpy` for pointers that share their alignment. -/
def memcpyBulk (d s : UInt32) (n : Nat) : Prog CopyAt :=
  if 16 ≤ n ∧ (d ^^^ s) &&& 3 = 0 then do
    let head ← memcpyHead d s n
    memcpyWords head.d head.s head.n
  else pure ⟨d, s, n⟩

/-- `v9p_memcpy`. -/
def v9pMemcpy (dst src n : UInt32) : Prog UInt32 := do
  let rest ← memcpyBulk dst src n.toNat
  copyUp rest.d rest.s rest.n
  pure dst

/-- `v9p_memmove`. -/
def v9pMemmove (dst src n : UInt32) : Prog UInt32 := do
  if dst < src then copyUp dst src n.toNat
  else if src < dst then copyDown (dst + n) (src + n) n.toNat
  pure dst

/-- The loop of `v9p_strlen`: the address of the first `NUL`. A round for each address is enough; without a `NUL` in
memory the loop never ends. -/
def strlenFrom : Nat → UInt32 → Prog UInt32
  | 0, _ => fun _ _ => none
  | rounds + 1, p => do
    let b ← loadByte p
    if b = 0 then pure p else strlenFrom rounds (p + 1)

/-- `v9p_strlen`. -/
def v9pStrlen (s : UInt32) : Prog UInt32 := do
  let p ← strlenFrom 4294967296 s
  pure (p - s)

/-! ## Alignment -/

theorem toNat_and_three (a : UInt32) : (a &&& 3).toNat = a.toNat % 4 := by
  rw [UInt32.toNat_and]
  exact Nat.and_two_pow_sub_one_eq_mod _ 2

theorem aligned_iff (a : UInt32) : a &&& 3 = 0 ↔ a.toNat % 4 = 0 := by
  rw [← toNat_and_three, ← UInt32.toNat_inj]
  rfl

/-- The test `((d ^ s) & 3) == 0`. -/
theorem xor_aligned_iff (d s : UInt32) : (d ^^^ s) &&& 3 = 0 ↔ d.toNat % 4 = s.toNat % 4 := by
  rw [← UInt32.toNat_inj, UInt32.toNat_and, UInt32.toNat_xor, Nat.and_xor_distrib_right, ← UInt32.toNat_and,
    ← UInt32.toNat_and, toNat_and_three, toNat_and_three]
  exact Nat.xor_eq_zero_iff

theorem toNat_add_mod_four (a : UInt32) (k : Nat) : (a + UInt32.ofNat k).toNat % 4 = (a.toNat + k) % 4 := by
  rw [UInt32.toNat_add, UInt32.toNat_ofNat']
  omega

theorem aligned_add_four {a : UInt32} (h : a &&& 3 = 0) : (a + UInt32.ofNat 4) &&& 3 = 0 := by
  rw [aligned_iff] at h ⊢
  rw [toNat_add_mod_four]
  omega

/-! ## Filling -/

section

variable {M : Machine}

/-- Each byte of the fill word is the byte, in both byte orders. -/
theorem wordBytes_fillWord (M : Machine) (val : UInt8) {i : Nat} (hi : i < 4) :
    (M.wordBytes (fillWord val)).getD i 0 = val := by
  have hbytes : leBytes 4 (fillWord val).toNat = List.replicate 4 val := by
    revert val
    decide +kernel
  have hword : M.wordBytes (fillWord val) = List.replicate 4 val := by
    rw [Machine.wordBytes, hbytes, List.reverse_replicate, ite_self]
  rw [hword, List.getD_replicate _ hi]

/-- The prologue stops at the end or at a multiple of four. -/
theorem memsetHead_runs (val : UInt8) : ∀ (n : Nat) (d : UInt32) (m : Ram), M.Writable d n → n ≤ 4294967296 →
    ∃ k ≤ n, (k < n → (d + UInt32.ofNat k) &&& 3 = 0) ∧
      Runs M (memsetHead val d n) m (d + UInt32.ofNat k, n - k) (m.patch d k fun _ => val) := by
  intro n
  induction n with
  | zero =>
    intro d m _ _
    refine ⟨0, Nat.le_refl 0, fun h => absurd h (by omega), ?_⟩
    rw [Ram.patch_zero, memsetHead]
    simpa using runs_pure (d, 0)
  | succ n ih =>
    intro d m hw hn
    rw [Nat.add_comm n 1] at hw
    by_cases hd : d &&& 3 = 0
    · refine ⟨0, Nat.zero_le _, fun _ => by simpa using hd, ?_⟩
      rw [Ram.patch_zero, memsetHead, if_neg (not_not.mpr hd)]
      simpa using runs_pure (d, n + 1)
    · obtain ⟨k, hk, hstop, hrun⟩ := ih (d + 1) (m.patch d 1 fun _ => val) hw.right (by omega)
      have hstore : Runs M (storeByte d val) m () (m.patch d 1 fun _ => val) :=
        runs_storeByte val (by simpa using hw 0 (by omega))
      refine ⟨1 + k, by omega, fun h => ?_, ?_⟩
      · rw [add_ofNat_add]
        exact hstop (by omega)
      · rw [memsetHead, if_pos hd, add_ofNat_add, show n + 1 - (1 + k) = n - k by omega,
          ← m.patch_append d (fun _ => val) (by omega)]
        exact hstore.bind hrun

/-- The word loop stops with fewer than four bytes left. -/
theorem memsetWords_runs (val : UInt8) (n : Nat) : ∀ (d : UInt32) (m : Ram), M.Writable d n → n ≤ 4294967296 →
    d &&& 3 = 0 → ∃ k ≤ n,
      Runs M (memsetWords (fillWord val) d n) m (d + UInt32.ofNat k, n - k) (m.patch d k fun _ => val) := by
  induction n using Nat.strong_induction_on with
  | h n ih =>
    intro d m hw hn hd
    by_cases hfour : n < 4
    · refine ⟨0, Nat.zero_le _, ?_⟩
      rw [Ram.patch_zero, memsetWords]
      · simpa using runs_pure (d, n)
      · intro n' hn'
        omega
    · obtain ⟨r, rfl⟩ : ∃ r, n = r + 4 := ⟨n - 4, by omega⟩
      rw [Nat.add_comm r 4] at hw
      obtain ⟨k, hk, hrun⟩ := ih r (by omega) (d + 4) (m.patch d 4 fun _ => val) hw.right (by omega)
        (aligned_add_four hd)
      have hstore : Runs M (storeWord d (fillWord val)) m () (m.patch d 4 fun _ => val) :=
        (runs_storeWord hd hw.left).cast (Ram.patch_congr _ _ fun i hi => wordBytes_fillWord M val hi)
      refine ⟨4 + k, by omega, ?_⟩
      rw [memsetWords, add_ofNat_add, show r + 4 - (4 + k) = r - k by omega,
        ← m.patch_append d (fun _ => val) (by omega)]
      exact hstore.bind hrun

theorem memsetTail_runs (val : UInt8) : ∀ (n : Nat) (d : UInt32) (m : Ram), M.Writable d n → n ≤ 4294967296 →
    Runs M (memsetTail val d n) m () (m.patch d n fun _ => val) := by
  intro n
  induction n with
  | zero =>
    intro d m _ _
    rw [Ram.patch_zero]
    exact runs_pure ()
  | succ n ih =>
    intro d m hw hn
    rw [Nat.add_comm n 1] at hw ⊢
    have hstore : Runs M (storeByte d val) m () (m.patch d 1 fun _ => val) :=
      runs_storeByte val (by simpa using hw 0 (by omega))
    rw [← m.patch_append d (fun _ => val) (by omega), Nat.add_comm 1 n]
    exact hstore.bind (ih (d + 1) _ hw.right (by omega))

theorem memsetBulk_runs (val : UInt8) (m : Ram) {d : UInt32} {n : Nat} (hw : M.Writable d n) (hn : n ≤ 4294967296)
    (hd : 0 < n → d &&& 3 = 0) : ∃ k ≤ n,
      Runs M (memsetBulk val d n) m (d + UInt32.ofNat k, n - k) (m.patch d k fun _ => val) := by
  by_cases hfour : 4 ≤ n
  · rw [memsetBulk, if_pos hfour]
    exact memsetWords_runs val n d m hw hn (hd (by omega))
  · refine ⟨0, Nat.zero_le _, ?_⟩
    rw [memsetBulk, if_neg hfour, Ram.patch_zero]
    simpa using runs_pure (d, n)

/-- **`v9p_memset` sets exactly `dst[0..n)`.** -/
theorem v9pMemset_runs (m : Ram) {dst : UInt32} (c : Int32) {n : UInt32} (hw : M.Writable dst n.toNat) :
    Runs M (v9pMemset dst c n) m dst (m.patch dst n.toNat fun _ => c.toUInt32.toUInt8) := by
  have hn : n.toNat < 4294967296 := n.toNat_lt
  obtain ⟨k, hk, hstop, hhead⟩ := memsetHead_runs c.toUInt32.toUInt8 n.toNat dst m hw (by omega)
  obtain ⟨r, hr⟩ := Nat.exists_eq_add_of_le hk
  rw [hr] at hw
  obtain ⟨l, hl, hbulk⟩ := memsetBulk_runs c.toUInt32.toUInt8 (m.patch dst k fun _ => c.toUInt32.toUInt8) hw.right
    (by omega) fun hpos => hstop (by omega)
  obtain ⟨t, rfl⟩ := Nat.exists_eq_add_of_le hl
  have htail := memsetTail_runs c.toUInt32.toUInt8 t (dst + UInt32.ofNat k + UInt32.ofNat l)
    ((m.patch dst k fun _ => c.toUInt32.toUInt8).patch (dst + UInt32.ofNat k) l fun _ => c.toUInt32.toUInt8)
    hw.right.right (by omega)
  -- three patches in a row are one
  have hall : ((m.patch dst k fun _ => c.toUInt32.toUInt8).patch (dst + UInt32.ofNat k) l
      fun _ => c.toUInt32.toUInt8).patch (dst + UInt32.ofNat k + UInt32.ofNat l) t (fun _ => c.toUInt32.toUInt8) =
      m.patch dst n.toNat fun _ => c.toUInt32.toUInt8 := by
    rw [m.patch_append dst (fun _ => c.toUInt32.toUInt8) (by omega), ← add_ofNat_add,
      m.patch_append dst (fun _ => c.toUInt32.toUInt8) (by omega), Nat.add_assoc, ← hr]
  rw [show n.toNat - k = l + t by omega] at hhead
  rw [Nat.add_sub_cancel_left] at hbulk
  refine hhead.bind (hbulk.bind ?_)
  exact (htail.cast hall).bind (runs_pure dst)

/-! ## Copying -/

/-- The prologue copies until the destination is a multiple of four. -/
theorem memcpyHead_runs : ∀ (n : Nat) (d s : UInt32) (m : Ram), M.Readable s n → M.Writable d n → FrontSafe d s n →
    n ≤ 4294967296 → ∃ k ≤ n, (k < n → (d + UInt32.ofNat k) &&& 3 = 0) ∧
      Runs M (memcpyHead d s n) m ⟨d + UInt32.ofNat k, s + UInt32.ofNat k, n - k⟩ (m.copied d s k) := by
  intro n
  induction n with
  | zero =>
    intro d s m _ _ _ _
    refine ⟨0, Nat.le_refl 0, fun h => absurd h (by omega), ?_⟩
    rw [Ram.copied, Ram.patch_zero, memcpyHead]
    simpa using runs_pure (CopyAt.mk d s 0)
  | succ n ih =>
    intro d s m hr hw hsafe hn
    rw [Nat.add_comm n 1] at hr hw hsafe
    by_cases hd : d &&& 3 = 0
    · refine ⟨0, Nat.zero_le _, fun _ => by simpa using hd, ?_⟩
      rw [Ram.copied, Ram.patch_zero, memcpyHead, if_neg (not_not.mpr hd)]
      simpa using runs_pure (CopyAt.mk d s (n + 1))
    · obtain ⟨k, hk, hstop, hrun⟩ := ih (d + 1) (s + 1) (m.copied d s 1) hr.right hw.right hsafe.drop (by omega)
      have hcopy : Runs M (loadByte s >>= storeByte d) m () (m.copied d s 1) :=
        runs_copyByte (by simpa using hr 0 (by omega)) (by simpa using hw 0 (by omega))
      refine ⟨1 + k, by omega, fun h => ?_, ?_⟩
      · rw [add_ofNat_add]
        exact hstop (by omega)
      · have hpart : FrontSafe d s (1 + k) := fun i j hij hj => hsafe i j hij (by omega)
        rw [memcpyHead, if_pos hd, add_ofNat_add, add_ofNat_add, show n + 1 - (1 + k) = n - k by omega,
          ← m.copy_append hpart (by omega)]
        exact hcopy.bind hrun

/-- The word loop copies from one multiple of four to another. -/
theorem memcpyWords_runs (n : Nat) : ∀ (d s : UInt32) (m : Ram), M.Readable s n → M.Writable d n → FrontSafe d s n →
    n ≤ 4294967296 → (0 < n → d &&& 3 = 0 ∧ s &&& 3 = 0) → ∃ k ≤ n,
      Runs M (memcpyWords d s n) m ⟨d + UInt32.ofNat k, s + UInt32.ofNat k, n - k⟩ (m.copied d s k) := by
  induction n using Nat.strong_induction_on with
  | h n ih =>
    intro d s m hr hw hsafe hn haligned
    by_cases hfour : n < 4
    · refine ⟨0, Nat.zero_le _, ?_⟩
      rw [Ram.copied, Ram.patch_zero, memcpyWords]
      · simpa using runs_pure (CopyAt.mk d s n)
      · intro n' hn'
        omega
    · obtain ⟨r, rfl⟩ : ∃ r, n = r + 4 := ⟨n - 4, by omega⟩
      obtain ⟨hd, hs⟩ := haligned (by omega)
      rw [Nat.add_comm r 4] at hr hw hsafe
      obtain ⟨k, hk, hrun⟩ := ih r (by omega) (d + 4) (s + 4) (m.copied d s 4) hr.right hw.right hsafe.drop (by omega)
        fun _ => ⟨aligned_add_four hd, aligned_add_four hs⟩
      have hcopy : Runs M (loadWord s >>= storeWord d) m () (m.copied d s 4) := runs_copyWord hs hd hr.left hw.left
      have hpart : FrontSafe d s (4 + k) := fun i j hij hj => hsafe i j hij (by omega)
      refine ⟨4 + k, by omega, ?_⟩
      rw [memcpyWords, add_ofNat_add, add_ofNat_add, show r + 4 - (4 + k) = r - k by omega,
        ← m.copy_append hpart (by omega)]
      exact hcopy.bind hrun

theorem copyUp_runs : ∀ (n : Nat) (d s : UInt32) (m : Ram), M.Readable s n → M.Writable d n → FrontSafe d s n →
    n ≤ 4294967296 → Runs M (copyUp d s n) m () (m.copied d s n) := by
  intro n
  induction n with
  | zero =>
    intro d s m _ _ _ _
    rw [Ram.copied, Ram.patch_zero]
    exact runs_pure ()
  | succ n ih =>
    intro d s m hr hw hsafe hn
    rw [Nat.add_comm n 1] at hr hw hsafe ⊢
    have hcopy : Runs M (loadByte s >>= storeByte d) m () (m.copied d s 1) :=
      runs_copyByte (by simpa using hr 0 (by omega)) (by simpa using hw 0 (by omega))
    rw [← m.copy_append hsafe (by omega), Nat.add_comm 1 n]
    exact hcopy.bind (ih (d + 1) (s + 1) _ hr.right hw.right hsafe.drop (by omega))

theorem copyDown_runs : ∀ (n : Nat) (d s : UInt32) (m : Ram), M.Readable s n → M.Writable d n → BackSafe d s n →
    Runs M (copyDown (d + UInt32.ofNat n) (s + UInt32.ofNat n) n) m () (m.copied d s n) := by
  intro n
  induction n with
  | zero =>
    intro d s m _ _ _
    rw [Ram.copied, Ram.patch_zero]
    exact runs_pure ()
  | succ n ih =>
    intro d s m hr hw hsafe
    have hpred : ∀ a : UInt32, a + UInt32.ofNat (n + 1) - 1 = a + UInt32.ofNat n := fun a => by
      rw [add_ofNat_add]
      exact UInt32.add_sub_cancel _ _
    have hcopy : Runs M (loadByte (s + UInt32.ofNat n) >>= storeByte (d + UInt32.ofNat n)) m ()
        (m.copied (d + UInt32.ofNat n) (s + UInt32.ofNat n) 1) :=
      runs_copyByte (hr n (by omega)) (hw n (by omega))
    rw [← m.copy_prepend hsafe, copyDown, hpred, hpred]
    exact hcopy.bind (ih d s _ hr.left hw.left hsafe.take)

theorem memcpyBulk_runs (m : Ram) {d s : UInt32} {n : Nat} (hr : M.Readable s n) (hw : M.Writable d n)
    (hsafe : FrontSafe d s n) (hn : n ≤ 4294967296) : ∃ k ≤ n,
      Runs M (memcpyBulk d s n) m ⟨d + UInt32.ofNat k, s + UInt32.ofNat k, n - k⟩ (m.copied d s k) := by
  by_cases hwide : 16 ≤ n ∧ (d ^^^ s) &&& 3 = 0
  · obtain ⟨k, hk, hstop, hhead⟩ := memcpyHead_runs n d s m hr hw hsafe hn
    obtain ⟨r, rfl⟩ := Nat.exists_eq_add_of_le hk
    -- both pointers moved by `k`, so that they are multiples of four together
    have haligned : 0 < r → (d + UInt32.ofNat k) &&& 3 = 0 ∧ (s + UInt32.ofNat k) &&& 3 = 0 := by
      intro hpos
      have hd := hstop (by omega)
      have heq := (xor_aligned_iff d s).mp hwide.2
      refine ⟨hd, ?_⟩
      rw [aligned_iff, toNat_add_mod_four] at hd ⊢
      omega
    obtain ⟨l, hl, hwords⟩ := memcpyWords_runs r _ _ (m.copied d s k) hr.right hw.right hsafe.drop (by omega) haligned
    have hpart : FrontSafe d s (k + l) := fun i j hij hj => hsafe i j hij (by omega)
    rw [m.copy_append hpart (by omega), ← add_ofNat_add, ← add_ofNat_add] at hwords
    rw [Nat.add_sub_cancel_left] at hhead
    refine ⟨k + l, by omega, ?_⟩
    rw [memcpyBulk, if_pos hwide, show k + r - (k + l) = r - l by omega]
    exact hhead.bind hwords
  · refine ⟨0, Nat.zero_le _, ?_⟩
    rw [memcpyBulk, if_neg hwide, Ram.copied, Ram.patch_zero]
    simpa using runs_pure (CopyAt.mk d s n)

/-- **`v9p_memcpy` copies** whatever can be copied upwards, in particular between intervals that are apart. -/
theorem v9pMemcpy_runs (m : Ram) {dst src n : UInt32} (hr : M.Readable src n.toNat) (hw : M.Writable dst n.toNat)
    (hsafe : FrontSafe dst src n.toNat) : Runs M (v9pMemcpy dst src n) m dst (m.copied dst src n.toNat) := by
  have hn : n.toNat < 4294967296 := n.toNat_lt
  obtain ⟨k, hk, hbulk⟩ := memcpyBulk_runs m hr hw hsafe (by omega)
  obtain ⟨r, hkr⟩ := Nat.exists_eq_add_of_le hk
  rw [hkr] at hr hw hsafe
  have htail := copyUp_runs r (dst + UInt32.ofNat k) (src + UInt32.ofNat k) (m.copied dst src k) hr.right hw.right
    hsafe.drop (by omega)
  rw [m.copy_append hsafe (by omega), ← hkr] at htail
  rw [show n.toNat - k = r by omega] at hbulk
  refine hbulk.bind ?_
  exact htail.bind (runs_pure dst)

/-- **`v9p_memmove` copies** between intervals that are apart, and between any two that do not run over the end of the
address space. -/
theorem v9pMemmove_runs (m : Ram) {dst src n : UInt32} (hr : M.Readable src n.toNat) (hw : M.Writable dst n.toNat)
    (hblocks : Apart dst n.toNat src n.toNat ∨ InSpace dst n.toNat ∧ InSpace src n.toNat) :
    Runs M (v9pMemmove dst src n) m dst (m.copied dst src n.toNat) := by
  have hn : n.toNat < 4294967296 := n.toNat_lt
  by_cases hup : dst < src
  · have hsafe : FrontSafe dst src n.toNat := by
      rcases hblocks with hapart | ⟨-, hsrc⟩
      · exact hapart.frontSafe (by omega)
      · exact frontSafe_of_lt hup hsrc
    rw [v9pMemmove, if_pos hup]
    exact (copyUp_runs n.toNat dst src m hr hw hsafe (by omega)).bind (runs_pure dst)
  by_cases hdown : src < dst
  · have hsafe : BackSafe dst src n.toNat := by
      rcases hblocks with hapart | ⟨hdst, -⟩
      · exact hapart.backSafe (by omega)
      · exact backSafe_of_lt hdown hdst
    have hrun := copyDown_runs n.toNat dst src m hr hw hsafe
    rw [UInt32.ofNat_toNat] at hrun
    rw [v9pMemmove, if_neg hup, if_pos hdown]
    exact hrun.bind (runs_pure dst)
  · have heq : src = dst := by
      rw [UInt32.lt_iff_toNat_lt] at hup hdown
      exact UInt32.toNat_inj.mp (by omega)
    rw [v9pMemmove, if_neg hup, if_neg hdown, heq, Ram.copied_self]
    exact runs_pure dst

/-! ## Lengths -/

theorem strlenFrom_runs (m : Ram) : ∀ (k rounds : Nat) (p : UInt32), k < rounds → M.Readable p (k + 1) →
    (∀ i, i < k → m (p + UInt32.ofNat i) ≠ 0) → m (p + UInt32.ofNat k) = 0 →
    Runs M (strlenFrom rounds p) m (p + UInt32.ofNat k) m := by
  intro k
  induction k with
  | zero =>
    intro rounds p hrounds hr _ hend
    obtain ⟨rounds, rfl⟩ : ∃ r, rounds = r + 1 := ⟨rounds - 1, by omega⟩
    have hp : p + UInt32.ofNat 0 = p := UInt32.add_zero p
    rw [hp] at hend ⊢
    refine (runs_loadByte (by simpa using hr 0 (by omega))).bind ?_
    rw [if_pos hend]
    exact runs_pure p
  | succ k ih =>
    intro rounds p hrounds hr hbefore hend
    obtain ⟨rounds, rfl⟩ : ∃ r, rounds = r + 1 := ⟨rounds - 1, by omega⟩
    rw [Nat.add_comm k 1, Nat.add_assoc] at hr
    rw [Nat.add_comm k 1, add_ofNat_add] at hend ⊢
    refine (runs_loadByte (by simpa using hr 0 (by omega))).bind ?_
    rw [if_neg (by simpa using hbefore 0 (by omega))]
    refine ih rounds (p + 1) (by omega) hr.right (fun i hi => ?_) hend
    have hnext := hbefore (1 + i) (by omega)
    rwa [add_ofNat_add] at hnext

/-- `v9p_strlen` counts the bytes before the first `NUL`. -/
theorem v9pStrlen_runs (m : Ram) {s : UInt32} {k : Nat} (hk : k < 4294967296) (hr : M.Readable s (k + 1))
    (hbefore : ∀ i, i < k → m (s + UInt32.ofNat i) ≠ 0) (hend : m (s + UInt32.ofNat k) = 0) :
    Runs M (v9pStrlen s) m (UInt32.ofNat k) m := by
  have hlen : s + UInt32.ofNat k - s = UInt32.ofNat k := by rw [UInt32.add_comm, UInt32.add_sub_cancel]
  refine (strlenFrom_runs m k 4294967296 s hk hr hbefore hend).bind ?_
  rw [hlen]
  exact runs_pure _

end

/-! ## The helpers and their bytewise meaning -/

/-- **The helpers are their bytewise definitions**, in both byte orders and at every alignment, on a machine that lets
them read the source and write the destination and nothing else: `v9p_memset` everywhere, `v9p_memcpy` between intervals
that are apart, `v9p_memmove` also between two that meet. -/
theorem helpers_bytewise (bigEndian : Bool) (m : Ram) (dst src n : UInt32) :
    (∀ c : Int32, Runs (.only bigEndian dst 0 dst n.toNat) (v9pMemset dst c n) m dst
      (m.patch dst n.toNat fun _ => c.toUInt32.toUInt8)) ∧
    (Apart dst n.toNat src n.toNat → Runs (.only bigEndian src n.toNat dst n.toNat) (v9pMemcpy dst src n) m dst
      (m.copied dst src n.toNat)) ∧
    (Apart dst n.toNat src n.toNat ∨ InSpace dst n.toNat ∧ InSpace src n.toNat →
      Runs (.only bigEndian src n.toNat dst n.toNat) (v9pMemmove dst src n) m dst (m.copied dst src n.toNat)) := by
  have hn : n.toNat ≤ 4294967296 := n.toNat_lt.le
  have hr : (Machine.only bigEndian src n.toNat dst n.toNat).Readable src n.toNat := only_readable bigEndian src dst hn
  have hw : (Machine.only bigEndian src n.toNat dst n.toNat).Writable dst n.toNat := only_writable bigEndian src dst hn
  refine ⟨fun c => ?_, fun hapart => ?_, fun hblocks => ?_⟩
  · exact v9pMemset_runs m c (only_writable bigEndian dst dst hn)
  · exact v9pMemcpy_runs m hr hw (hapart.frontSafe hn)
  · exact v9pMemmove_runs m hr hw hblocks

/-- A memory that holds the low byte of each address. -/
def lowBytes : Ram := fun a => a.toUInt8

/-- Twenty-one bytes at odd addresses: filled, copied by words, and moved two bytes down and up. -/
theorem helpers_bytewise_odd :
    Runs (.only true 0x1001 0 0x1001 21) (v9pMemset 0x1001 (-1) 21) lowBytes 0x1001
      (lowBytes.patch 0x1001 21 fun _ => 255) ∧
    Runs (.only true 0x2001 21 0x1001 21) (v9pMemcpy 0x1001 0x2001 21) lowBytes 0x1001
      (lowBytes.copied 0x1001 0x2001 21) ∧
    Runs (.only true 0x1003 21 0x1001 21) (v9pMemmove 0x1001 0x1003 21) lowBytes 0x1001
      (lowBytes.copied 0x1001 0x1003 21) ∧
    Runs (.only true 0x1001 21 0x1003 21) (v9pMemmove 0x1003 0x1001 21) lowBytes 0x1003
      (lowBytes.copied 0x1003 0x1001 21) := by
  refine ⟨(helpers_bytewise true lowBytes 0x1001 0 21).1 (-1), ?_, ?_, ?_⟩
  · exact (helpers_bytewise true lowBytes 0x1001 0x2001 21).2.1 (apart_of_le (by decide) (by unfold InSpace; decide))
  · exact (helpers_bytewise true lowBytes 0x1001 0x1003 21).2.2 (.inr (by unfold InSpace; decide))
  · exact (helpers_bytewise true lowBytes 0x1003 0x1001 21).2.2 (.inr (by unfold InSpace; decide))

end Virtio9P
