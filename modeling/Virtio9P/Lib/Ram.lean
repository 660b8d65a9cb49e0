import Virtio9P.Lib.Bytes

/-!
# The memory of a 32-bit machine

`Ram` has a byte at every 32-bit address, and addresses wrap. The interval `a[0..n)` is the set of addresses whose
`gap` from `a` is below `n`; `Ram.patch` replaces an interval, and patches of neighbouring intervals are one patch
(`Ram.patch_append`). A patch with the bytes of another interval is a copy, and a copy can be made from the front as
long as no byte is overwritten before it is read (`Ram.copy_append`), or from the back under the mirrored condition
(`Ram.copy_prepend`).

`Prog` are programs over such a memory that load and store bytes and aligned 32-bit words. A `Machine` fixes the byte
order and the addresses that may be read and written. A misaligned word access and an access to any other address end
the program, so that a program with a result (`Runs`) made aligned accesses to permitted addresses only.
-/

namespace Virtio9P.Lib

/-! ## Addresses -/

/-- How far `x` is from `a`, upwards. -/
def gap (a x : UInt32) : Nat := (x - a).toNat

theorem gap_lt (a x : UInt32) : gap a x < 4294967296 := (x - a).toNat_lt

theorem gap_add (a : UInt32) {i : Nat} (h : i < 4294967296) : gap a (a + UInt32.ofNat i) = i := by
  rw [gap, UInt32.add_comm, UInt32.add_sub_cancel, UInt32.toNat_ofNat', Nat.mod_eq_of_lt h]

theorem add_gap (a x : UInt32) : a + UInt32.ofNat (gap a x) = x := by
  rw [gap, UInt32.ofNat_toNat, UInt32.add_comm, UInt32.sub_add_cancel]

theorem add_ofNat_add (a : UInt32) (i j : Nat) : a + UInt32.ofNat (i + j) = a + UInt32.ofNat i + UInt32.ofNat j := by
  rw [UInt32.ofNat_add, UInt32.add_assoc]

theorem gap_shift (a x : UInt32) {k : Nat} (h : k ≤ gap a x) : gap (a + UInt32.ofNat k) x = gap a x - k := by
  have hlt := gap_lt a x
  have hx : x = a + UInt32.ofNat k + UInt32.ofNat (gap a x - k) := by
    rw [← add_ofNat_add, Nat.add_sub_cancel' h, add_gap]
  conv_lhs => rw [hx]
  exact gap_add _ (by omega)

/-- An address below the shifted start is almost a whole round away from it. -/
theorem gap_shift_of_lt (a x : UInt32) {k : Nat} (h : gap a x < k) (hk : k ≤ 4294967296) :
    gap (a + UInt32.ofNat k) x = 4294967296 - k + gap a x := by
  have hround : UInt32.ofNat k + UInt32.ofNat (4294967296 - k) = 0 := by
    rw [← UInt32.ofNat_add, Nat.add_sub_cancel' hk]; rfl
  have hx : x = a + UInt32.ofNat k + UInt32.ofNat (4294967296 - k + gap a x) := by
    rw [UInt32.ofNat_add, UInt32.add_assoc, ← UInt32.add_assoc (UInt32.ofNat k), hround, UInt32.zero_add, add_gap]
  conv_lhs => rw [hx]
  exact gap_add _ (by omega)

/-- Two intervals without a common address. -/
def Apart (a : UInt32) (n : Nat) (b : UInt32) (k : Nat) : Prop := ∀ x, gap a x < n → ¬ gap b x < k

theorem Apart.symm {a b : UInt32} {n k : Nat} (h : Apart a n b k) : Apart b k a n := fun x hb ha => h x ha hb

/-- All addresses of the one interval are in the other. -/
def Within (a : UInt32) (n : Nat) (b : UInt32) (k : Nat) : Prop := ∀ x, gap a x < n → gap b x < k

/-- The interval does not run over the end of the address space; no object in memory does. -/
def InSpace (a : UInt32) (n : Nat) : Prop := a.toNat + n ≤ 4294967296

/-- An address of an interval that does not wrap, as a number. -/
theorem InSpace.gap_lt_iff {a : UInt32} {n : Nat} (h : InSpace a n) (x : UInt32) :
    gap a x < n ↔ a.toNat ≤ x.toNat ∧ x.toNat < a.toNat + n := by
  have ha := a.toNat_lt
  have hx := x.toNat_lt
  unfold InSpace at h
  rw [gap, UInt32.toNat_sub]
  omega

/-- One interval below the other. -/
theorem apart_of_le {a b : UInt32} {n k : Nat} (h : a.toNat + n ≤ b.toNat) (hb : InSpace b k) : Apart a n b k := by
  have ha : InSpace a n := by
    have := b.toNat_lt
    unfold InSpace
    omega
  intro x hxa hxb
  rw [ha.gap_lt_iff] at hxa
  rw [hb.gap_lt_iff] at hxb
  omega

theorem within_of_le {a b : UInt32} {n k : Nat} (hb : InSpace b k) (hstart : b.toNat ≤ a.toNat)
    (hend : a.toNat + n ≤ b.toNat + k) : Within a n b k := by
  have ha : InSpace a n := by
    unfold InSpace at hb ⊢
    omega
  intro x hx
  rw [ha.gap_lt_iff] at hx
  rw [hb.gap_lt_iff]
  omega

/-- Parts of intervals that are apart. -/
theorem Apart.part {a b : UInt32} {n k : Nat} (h : Apart a n b k) {i n' j k' : Nat} (hn : i + n' ≤ n) (hk : j + k' ≤ k)
    (hn' : n ≤ 4294967296) (hk' : k ≤ 4294967296) : Apart (a + UInt32.ofNat i) n' (b + UInt32.ofNat j) k' := by
  have inside : ∀ (c x : UInt32) (r s t : Nat), r + s ≤ t → t ≤ 4294967296 → gap (c + UInt32.ofNat r) x < s →
      gap c x < t := by
    intro c x r s t hrs ht hx
    by_cases hc : r ≤ gap c x
    · rw [gap_shift c x hc] at hx
      omega
    · rw [gap_shift_of_lt c x (by omega) (by omega)] at hx
      omega
  intro x ha hb
  exact h x (inside a x i n' n hn hn' ha) (inside b x j k' k hk hk' hb)

/-! ## Memory -/

/-- A byte at each address. -/
abbrev Ram := UInt32 → UInt8

/-- The memory with `g 0`, …, `g (n - 1)` in `a[0..n)`. -/
def Ram.patch (m : Ram) (a : UInt32) (n : Nat) (g : Nat → UInt8) : Ram :=
  fun x => if gap a x < n then g (gap a x) else m x

/-- The memory after `src[0..n)` was copied to `dst[0..n)`. -/
def Ram.copied (m : Ram) (dst src : UInt32) (n : Nat) : Ram := m.patch dst n fun i => m (src + UInt32.ofNat i)

theorem Ram.patch_zero (m : Ram) (a : UInt32) (g : Nat → UInt8) : m.patch a 0 g = m := by
  funext x; simp [Ram.patch]

theorem Ram.patch_congr (m : Ram) (a : UInt32) {n : Nat} {g g' : Nat → UInt8} (h : ∀ i, i < n → g i = g' i) :
    m.patch a n g = m.patch a n g' := by
  funext x
  unfold Ram.patch
  split
  · rename_i hx; exact h _ hx
  · rfl

theorem Ram.patch_at (m : Ram) (a : UInt32) {n i : Nat} (g : Nat → UInt8) (h : i < n) (hi : i < 4294967296) :
    m.patch a n g (a + UInt32.ofNat i) = g i := by
  rw [Ram.patch, gap_add a hi, if_pos h]

theorem Ram.patch_of_le (m : Ram) (a : UInt32) {n : Nat} (g : Nat → UInt8) {x : UInt32} (h : ¬ gap a x < n) :
    m.patch a n g x = m x := if_neg h

/-- A patch and one right behind it. -/
theorem Ram.patch_append (m : Ram) (a : UInt32) {k l : Nat} (g : Nat → UInt8) (h : k + l ≤ 4294967296) :
    (m.patch a k g).patch (a + UInt32.ofNat k) l (fun i => g (k + i)) = m.patch a (k + l) g := by
  funext x
  by_cases hk : k ≤ gap a x
  · simp only [Ram.patch, gap_shift a x hk, show ¬ gap a x < k by omega, if_false, Nat.add_sub_cancel' hk,
      show gap a x - k < l ↔ gap a x < k + l by omega]
  · have hfar : ¬ gap (a + UInt32.ofNat k) x < l := by
      rw [gap_shift_of_lt a x (by omega) (by omega)]; omega
    rw [Ram.patch_of_le _ _ _ hfar]
    simp only [Ram.patch, show gap a x < k by omega, show gap a x < k + l by omega, if_true]

/-- A patch and one right before it. -/
theorem Ram.patch_prepend (m : Ram) (a : UInt32) {k l : Nat} (g : Nat → UInt8) :
    (m.patch (a + UInt32.ofNat k) l (fun i => g (k + i))).patch a k g = m.patch a (k + l) g := by
  funext x
  by_cases hk : k ≤ gap a x
  · simp only [Ram.patch, gap_shift a x hk, show ¬ gap a x < k by omega, if_false, Nat.add_sub_cancel' hk,
      show gap a x - k < l ↔ gap a x < k + l by omega]
  · simp only [Ram.patch, show gap a x < k by omega, show gap a x < k + l by omega, if_true]

/-- Copying upwards overwrites no byte that is still to be read. -/
def FrontSafe (dst src : UInt32) (n : Nat) : Prop :=
  ∀ i j, i < j → j < n → dst + UInt32.ofNat i ≠ src + UInt32.ofNat j

/-- Copying downwards overwrites no byte that is still to be read. -/
def BackSafe (dst src : UInt32) (n : Nat) : Prop :=
  ∀ i j, i < j → j < n → dst + UInt32.ofNat j ≠ src + UInt32.ofNat i

theorem FrontSafe.drop {dst src : UInt32} {k l : Nat} (h : FrontSafe dst src (k + l)) :
    FrontSafe (dst + UInt32.ofNat k) (src + UInt32.ofNat k) l := by
  intro i j hij hj
  rw [← add_ofNat_add, ← add_ofNat_add]
  exact h _ _ (by omega) (by omega)

theorem BackSafe.take {dst src : UInt32} {k l : Nat} (h : BackSafe dst src (k + l)) : BackSafe dst src k :=
  fun i j hij hj => h i j hij (by omega)

theorem Apart.frontSafe {dst src : UInt32} {n : Nat} (h : Apart dst n src n) (hn : n ≤ 4294967296) :
    FrontSafe dst src n := by
  intro i j hij hj heq
  apply h (dst + UInt32.ofNat i)
  · rw [gap_add _ (by omega)]; omega
  · rw [heq, gap_add _ (by omega)]; omega

theorem Apart.backSafe {dst src : UInt32} {n : Nat} (h : Apart dst n src n) (hn : n ≤ 4294967296) :
    BackSafe dst src n := by
  intro i j hij hj heq
  apply h (dst + UInt32.ofNat j)
  · rw [gap_add _ (by omega)]; omega
  · rw [heq, gap_add _ (by omega)]; omega

theorem toNat_add_ofNat {a : UInt32} {i : Nat} (h : a.toNat + i < 4294967296) :
    (a + UInt32.ofNat i).toNat = a.toNat + i := by
  rw [UInt32.toNat_add, UInt32.toNat_ofNat']
  omega

/-- Down to a lower address, from an interval that ends before the address space does. -/
theorem frontSafe_of_lt {dst src : UInt32} {n : Nat} (h : dst < src) (hsrc : InSpace src n) :
    FrontSafe dst src n := by
  intro i j hij hj heq
  have hlt : dst.toNat < src.toNat := h
  unfold InSpace at hsrc
  have hnum := congrArg UInt32.toNat heq
  rw [toNat_add_ofNat (by omega), toNat_add_ofNat (by omega)] at hnum
  omega

/-- Up to a higher address, into an interval that ends before the address space does. -/
theorem backSafe_of_lt {dst src : UInt32} {n : Nat} (h : src < dst) (hdst : InSpace dst n) :
    BackSafe dst src n := by
  intro i j hij hj heq
  have hlt : src.toNat < dst.toNat := h
  unfold InSpace at hdst
  have hnum := congrArg UInt32.toNat heq
  rw [toNat_add_ofNat (by omega), toNat_add_ofNat (by omega)] at hnum
  omega

theorem Ram.copied_self (m : Ram) (a : UInt32) (n : Nat) : m.copied a a n = m := by
  funext x
  unfold Ram.copied Ram.patch
  split
  · exact congrArg m (add_gap a x)
  · rfl

/-- A copy from the front: the first `k` bytes, then the rest. -/
theorem Ram.copy_append (m : Ram) {dst src : UInt32} {k l : Nat} (hsafe : FrontSafe dst src (k + l))
    (h : k + l ≤ 4294967296) :
    (m.copied dst src k).copied (dst + UInt32.ofNat k) (src + UInt32.ofNat k) l = m.copied dst src (k + l) := by
  rw [Ram.copied, Ram.copied, Ram.copied, ← Ram.patch_append m dst _ h]
  apply Ram.patch_congr
  intro i hi
  rw [← add_ofNat_add]
  apply Ram.patch_of_le
  intro hlt
  exact hsafe _ (k + i) (by omega) (by omega) (add_gap dst (src + UInt32.ofNat (k + i)))

/-- A copy from the back: the last `l` bytes, then those before them. -/
theorem Ram.copy_prepend (m : Ram) {dst src : UInt32} {k l : Nat} (hsafe : BackSafe dst src (k + l)) :
    (m.copied (dst + UInt32.ofNat k) (src + UInt32.ofNat k) l).copied dst src k = m.copied dst src (k + l) := by
  have hlast : m.copied (dst + UInt32.ofNat k) (src + UInt32.ofNat k) l =
      m.patch (dst + UInt32.ofNat k) l fun i => m (src + UInt32.ofNat (k + i)) := by
    apply Ram.patch_congr
    intro i _
    rw [add_ofNat_add]
  rw [Ram.copied, hlast, Ram.copied, ← Ram.patch_prepend m dst]
  apply Ram.patch_congr
  intro i hi
  apply Ram.patch_of_le
  intro hlt
  refine hsafe i (k + gap (dst + UInt32.ofNat k) (src + UInt32.ofNat i)) (by omega) (by omega) ?_
  rw [add_ofNat_add, add_gap]

/-! ## Runs of bytes -/

/-- The bytes from `a` on. -/
def Ram.view (m : Ram) (a : UInt32) : Mem := fun i => m (a + UInt32.ofNat i)

/-- The memory with these bytes from `a` on. -/
def Ram.store (m : Ram) (a : UInt32) (bs : List UInt8) : Ram := m.patch a bs.length fun i => bs.getD i 0

theorem Ram.view_add (m : Ram) (a : UInt32) (k n : Nat) :
    (m.view (a + UInt32.ofNat k)).read 0 n = (m.view a).read k n := by
  simp only [Mem.read, Ram.view, Nat.zero_add, add_ofNat_add]

theorem Ram.store_append (m : Ram) (a : UInt32) {as bs : List UInt8} (h : (as ++ bs).length ≤ 4294967296) :
    (m.store a as).store (a + UInt32.ofNat as.length) bs = m.store a (as ++ bs) := by
  rw [List.length_append] at h
  have hfirst : m.store a as = m.patch a as.length fun i => (as ++ bs).getD i 0 := by
    apply Ram.patch_congr
    intro i hi
    rw [List.getD_append _ _ _ _ hi]
  rw [hfirst, Ram.store, Ram.store, List.length_append, ← m.patch_append a _ h]
  apply Ram.patch_congr
  intro i _
  rw [List.getD_append_right _ _ _ _ (by omega), Nat.add_sub_cancel_left]

theorem Ram.copied_eq_store (m : Ram) (d s : UInt32) (n : Nat) : m.copied d s n = m.store d ((m.view s).read 0 n) := by
  rw [Ram.store, Mem.length_read]
  apply Ram.patch_congr
  intro i hi
  rw [List.getD_eq_getElem?_getD, Mem.getElem?_read _ _ hi, Nat.zero_add]
  rfl

/-- Bytes beside what was stored. -/
theorem Ram.read_store_of_apart (m : Ram) {a b : UInt32} {bs : List UInt8} {n k k' off : Nat} (h : Apart a n b k)
    (hn : bs.length ≤ n) (hk : off + k' ≤ k) (hspace : k ≤ 4294967296) :
    ((m.store a bs).view b).read off k' = (m.view b).read off k' := by
  apply Mem.read_congr
  intro i hoff hi
  rw [Ram.view, Ram.view, Ram.store]
  apply Ram.patch_of_le
  intro hgap
  refine h (b + UInt32.ofNat i) (by omega) ?_
  rw [gap_add _ (by omega)]
  omega

/-- The bytes that were stored. -/
theorem Ram.read_store (m : Ram) (a : UInt32) {off : Nat} {bs : List UInt8} (h : off + bs.length ≤ 4294967296) :
    ((m.store (a + UInt32.ofNat off) bs).view a).read off bs.length = bs := by
  apply List.ext_getElem (by simp)
  intro i hi hi'
  have hat : (m.store (a + UInt32.ofNat off) bs) (a + UInt32.ofNat off + UInt32.ofNat i) = bs.getD i 0 :=
    m.patch_at _ _ hi' (by omega)
  rw [← add_ofNat_add] at hat
  simpa [Mem.read, Ram.view, hi'] using hat

/-! ## Programs -/

/-- A byte order, and what may be read and written. -/
structure Machine where
  bigEndian : Bool
  readable : UInt32 → Bool
  writable : UInt32 → Bool

/-- The machine on which only `src[0..k)` can be read and only `dst[0..n)` can be written. -/
def Machine.only (bigEndian : Bool) (src : UInt32) (k : Nat) (dst : UInt32) (n : Nat) : Machine where
  bigEndian := bigEndian
  readable x := decide (gap src x < k)
  writable x := decide (gap dst x < n)

/-- Programs that change a memory and may end early. -/
abbrev Prog := ReaderT Machine (StateT Ram Option)

/-- The bytes of a word as they stand in memory. -/
def Machine.wordBytes (M : Machine) (w : UInt32) : List UInt8 :=
  if M.bigEndian then (leBytes 4 w.toNat).reverse else leBytes 4 w.toNat

/-- The word with these bytes in memory. -/
def Machine.wordOf (M : Machine) (bs : List UInt8) : UInt32 :=
  UInt32.ofNat (leNat (if M.bigEndian then bs.reverse else bs))

/-- The next `n` bytes may be read. -/
def Machine.Readable (M : Machine) (a : UInt32) (n : Nat) : Prop := ∀ i, i < n → M.readable (a + UInt32.ofNat i) = true

/-- The next `n` bytes may be written. -/
def Machine.Writable (M : Machine) (a : UInt32) (n : Nat) : Prop := ∀ i, i < n → M.writable (a + UInt32.ofNat i) = true

instance (M : Machine) (a : UInt32) (n : Nat) : Decidable (M.Readable a n) :=
  inferInstanceAs (Decidable (∀ i, i < n → M.readable (a + UInt32.ofNat i) = true))

instance (M : Machine) (a : UInt32) (n : Nat) : Decidable (M.Writable a n) :=
  inferInstanceAs (Decidable (∀ i, i < n → M.writable (a + UInt32.ofNat i) = true))

def loadByte (a : UInt32) : Prog UInt8 := fun M m => if M.readable a then some (m a, m) else none

def storeByte (a : UInt32) (b : UInt8) : Prog Unit := fun M m =>
  if M.writable a then some ((), fun x => if x = a then b else m x) else none

/-- A 32-bit load; the address must be a multiple of four. -/
def loadWord (a : UInt32) : Prog UInt32 := fun M m =>
  if a &&& 3 = 0 ∧ M.Readable a 4 then some (M.wordOf ((List.range 4).map fun i => m (a + UInt32.ofNat i)), m) else none

/-- A 32-bit store; the address must be a multiple of four. -/
def storeWord (a w : UInt32) : Prog Unit := fun M m =>
  if a &&& 3 = 0 ∧ M.Writable a 4 then some ((), m.patch a 4 fun i => (M.wordBytes w).getD i 0) else none

/-- The program ends with this result and memory. -/
def Runs (M : Machine) {α : Type} (p : Prog α) (m : Ram) (r : α) (m' : Ram) : Prop := p M m = some (r, m')

section

variable {M : Machine} {m : Ram} {α β : Type}

theorem runs_pure (r : α) : Runs M (pure r : Prog α) m r m := rfl

theorem Runs.bind {p : Prog α} {f : α → Prog β} {r : α} {r' : β} {m₁ m₂ : Ram} (hp : Runs M p m r m₁)
    (hf : Runs M (f r) m₁ r' m₂) : Runs M (p >>= f) m r' m₂ := by
  show (p M m).bind (fun r => f r.1 M r.2) = _
  rw [hp]
  exact hf

theorem Runs.cast {p : Prog α} {r : α} {m₁ m₂ : Ram} (hp : Runs M p m r m₁) (h : m₁ = m₂) : Runs M p m r m₂ := h ▸ hp

theorem Machine.Readable.left {a : UInt32} {k l : Nat} (h : M.Readable a (k + l)) : M.Readable a k :=
  fun i hi => h i (by omega)

theorem Machine.Readable.right {a : UInt32} {k l : Nat} (h : M.Readable a (k + l)) :
    M.Readable (a + UInt32.ofNat k) l := by
  intro i hi
  rw [← add_ofNat_add]
  exact h _ (by omega)

theorem Machine.Writable.left {a : UInt32} {k l : Nat} (h : M.Writable a (k + l)) : M.Writable a k :=
  fun i hi => h i (by omega)

theorem Machine.Writable.right {a : UInt32} {k l : Nat} (h : M.Writable a (k + l)) :
    M.Writable (a + UInt32.ofNat k) l := by
  intro i hi
  rw [← add_ofNat_add]
  exact h _ (by omega)

theorem only_readable (e : Bool) (src dst : UInt32) {k n : Nat} (hk : k ≤ 4294967296) :
    (Machine.only e src k dst n).Readable src k := by
  intro i hi
  show decide (gap src (src + UInt32.ofNat i) < k) = true
  rw [gap_add _ (by omega)]
  exact decide_eq_true hi

theorem only_writable (e : Bool) (src dst : UInt32) {k n : Nat} (hn : n ≤ 4294967296) :
    (Machine.only e src k dst n).Writable dst n := by
  intro i hi
  show decide (gap dst (dst + UInt32.ofNat i) < n) = true
  rw [gap_add _ (by omega)]
  exact decide_eq_true hi

theorem runs_loadByte {a : UInt32} (h : M.readable a = true) : Runs M (loadByte a) m (m a) m := if_pos h

theorem runs_storeByte {a : UInt32} (b : UInt8) (h : M.writable a = true) :
    Runs M (storeByte a b) m () (m.patch a 1 fun _ => b) := by
  have hpatch : (fun x => if x = a then b else m x) = m.patch a 1 fun _ => b := by
    funext x
    have hgap : gap a x < 1 ↔ x = a := by
      constructor
      · intro hx
        rw [← add_gap a x, show gap a x = 0 by omega]
        exact UInt32.add_zero a
      · rintro rfl
        rw [gap, UInt32.sub_self]
        decide
    simp only [Ram.patch, hgap]
  show (if M.writable a then _ else _) = _
  rw [if_pos h, hpatch]

theorem runs_storeWord {a w : UInt32} (ha : a &&& 3 = 0) (h : M.Writable a 4) :
    Runs M (storeWord a w) m () (m.patch a 4 fun i => (M.wordBytes w).getD i 0) := if_pos ⟨ha, h⟩

theorem runs_loadWord {a : UInt32} (ha : a &&& 3 = 0) (h : M.Readable a 4) :
    Runs M (loadWord a) m (M.wordOf ((List.range 4).map fun i => m (a + UInt32.ofNat i))) m := if_pos ⟨ha, h⟩

theorem Machine.wordBytes_wordOf (M : Machine) {bs : List UInt8} (h : bs.length = 4) :
    M.wordBytes (M.wordOf bs) = bs := by
  have hround : ∀ cs : List UInt8, cs.length = 4 → leBytes 4 (UInt32.ofNat (leNat cs)).toNat = cs := by
    intro cs hcs
    have hlt : leNat cs < 4294967296 := by simpa [hcs] using leNat_lt cs
    rw [UInt32.toNat_ofNat', Nat.mod_eq_of_lt hlt, ← hcs, leBytes_leNat]
  unfold Machine.wordBytes Machine.wordOf
  split
  · rw [hround _ (by simpa using h), List.reverse_reverse]
  · exact hround _ h

theorem runs_storeByte_store {a : UInt32} (b : UInt8) (h : M.writable a = true) :
    Runs M (storeByte a b) m () (m.store a [b]) := by
  refine (runs_storeByte b h).cast (Ram.patch_congr _ _ ?_)
  intro i hi
  rw [show i = 0 by omega]
  rfl

/-- One byte copied. -/
theorem runs_copyByte {d s : UInt32} (hs : M.readable s = true) (hd : M.writable d = true) :
    Runs M (loadByte s >>= storeByte d) m () (m.copied d s 1) := by
  refine ((runs_loadByte hs).bind (runs_storeByte _ hd)).cast (Ram.patch_congr _ _ ?_)
  intro i hi
  rw [show i = 0 by omega]
  exact congrArg m (UInt32.add_zero s).symm

/-- One word copied: the byte order does not matter. -/
theorem runs_copyWord {d s : UInt32} (hs : s &&& 3 = 0) (hd : d &&& 3 = 0) (hr : M.Readable s 4) (hw : M.Writable d 4) :
    Runs M (loadWord s >>= storeWord d) m () (m.copied d s 4) := by
  refine ((runs_loadWord hs hr).bind (runs_storeWord hd hw)).cast (Ram.patch_congr _ _ ?_)
  intro i hi
  rw [M.wordBytes_wordOf (by simp)]
  simp [hi]

end

end Virtio9P.Lib
