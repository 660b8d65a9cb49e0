import Mathlib

/-!
# Little-endian numbers and byte memory

* `leBytes k v` are the `k` least significant bytes of `v`, lowest first; `leNat` reads them back. They are inverse
  (`leNat_leBytes`, `leBytes_leNat`), so reversing the bytes of a `k`-byte number twice gives it back
  (`swapBytes_swapBytes`).
* `Mem` is a byte memory without an end: a buffer is its first bytes, and an access past the buffer is an access at a
  large index. `Mem.read` and `Mem.write` move runs of bytes; the laws say what a read sees of a write.
-/

namespace Virtio9P.Lib

/-! ## Little-endian numbers -/

/-- The `k` low bytes of `v`, least significant first. -/
def leBytes : Nat → Nat → List UInt8
  | 0, _ => []
  | k + 1, v => UInt8.ofNat v :: leBytes k (v / 256)

/-- The number with these bytes, least significant first. -/
def leNat : List UInt8 → Nat
  | [] => 0
  | b :: bs => b.toNat + 256 * leNat bs

@[simp] theorem length_leBytes : ∀ k v : Nat, (leBytes k v).length = k
  | 0, _ => rfl
  | k + 1, v => by simp [leBytes, length_leBytes k]

theorem leNat_lt : ∀ bs : List UInt8, leNat bs < 256 ^ bs.length
  | [] => by simp [leNat]
  | b :: bs => by
    have hb : b.toNat < 256 := b.toNat_lt
    have ih := leNat_lt bs
    simp only [leNat, List.length_cons, pow_succ]
    omega

theorem leNat_leBytes : ∀ k v : Nat, leNat (leBytes k v) = v % 256 ^ k
  | 0, v => by simp [leBytes, leNat, Nat.mod_one]
  | k + 1, v => by
    simp only [leBytes, leNat, leNat_leBytes k, UInt8.toNat_ofNat', pow_succ']
    exact (Nat.mod_mul).symm

theorem leNat_leBytes_of_lt {k v : Nat} (h : v < 256 ^ k) : leNat (leBytes k v) = v := by
  rw [leNat_leBytes, Nat.mod_eq_of_lt h]

theorem leBytes_leNat : ∀ bs : List UInt8, leBytes bs.length (leNat bs) = bs
  | [] => rfl
  | b :: bs => by
    have hb : b.toNat < 256 := b.toNat_lt
    have hdiv : (b.toNat + 256 * leNat bs) / 256 = leNat bs := by omega
    have hbyte : UInt8.ofNat (b.toNat + 256 * leNat bs) = b := by
      apply UInt8.toNat_inj.mp
      rw [UInt8.toNat_ofNat']
      omega
    simp only [List.length_cons, leBytes, leNat, hdiv, hbyte, leBytes_leNat bs]

theorem leNat_inj {as bs : List UInt8} (hl : as.length = bs.length) (h : leNat as = leNat bs) : as = bs := by
  rw [← leBytes_leNat as, ← leBytes_leNat bs, hl, h]

/-- The `k`-byte number with the bytes of `v` in the opposite order. -/
def swapBytes (k v : Nat) : Nat := leNat (leBytes k v).reverse

theorem swapBytes_lt (k v : Nat) : swapBytes k v < 256 ^ k := by
  simpa [swapBytes] using leNat_lt (leBytes k v).reverse

theorem swapBytes_swapBytes {k v : Nat} (h : v < 256 ^ k) : swapBytes k (swapBytes k v) = v := by
  have hb : leBytes k (leNat (leBytes k v).reverse) = (leBytes k v).reverse := by
    simpa using leBytes_leNat (leBytes k v).reverse
  rw [swapBytes, swapBytes, hb, List.reverse_reverse, leNat_leBytes_of_lt h]

/-! ## Byte memory -/

/-- A byte memory. -/
abbrev Mem := Nat → UInt8

/-- The `n` bytes from `off` on. -/
def Mem.read (m : Mem) (off n : Nat) : List UInt8 := (List.range n).map fun i => m (off + i)

/-- The memory after storing `bs` from `off` on. -/
def Mem.write (m : Mem) (off : Nat) (bs : List UInt8) : Mem :=
  fun i => if off ≤ i then (bs[i - off]?).getD (m i) else m i

@[simp] theorem Mem.length_read (m : Mem) (off n : Nat) : (m.read off n).length = n := by simp [Mem.read]

theorem Mem.getElem?_read (m : Mem) (off : Nat) {n i : Nat} (h : i < n) : (m.read off n)[i]? = some (m (off + i)) := by
  simp [Mem.read, h]

@[simp] theorem Mem.read_zero (m : Mem) (off : Nat) : m.read off 0 = [] := rfl

theorem Mem.read_add (m : Mem) (off a b : Nat) : m.read off (a + b) = m.read off a ++ m.read (off + a) b := by
  simp only [Mem.read, List.range_add, List.map_append, List.map_map]
  congr 1
  exact List.map_congr_left fun i _ => by simp [Nat.add_assoc]

theorem Mem.read_succ (m : Mem) (off n : Nat) : m.read off (n + 1) = m off :: m.read (off + 1) n := by
  rw [Nat.add_comm n 1, Mem.read_add]; rfl

theorem Mem.read_shift (m : Mem) (k n : Nat) : Mem.read (fun i => m (k + i)) 0 n = m.read k n := by simp [Mem.read]

theorem Mem.take_read (m : Mem) (off : Nat) {k n : Nat} (h : k ≤ n) : (m.read off n).take k = m.read off k := by
  obtain ⟨d, rfl⟩ := Nat.exists_eq_add_of_le h
  rw [Mem.read_add, List.take_append_of_le_length (by simp), List.take_of_length_le (by simp)]

theorem Mem.drop_read (m : Mem) (off : Nat) {k n : Nat} (h : k ≤ n) :
    (m.read off n).drop k = m.read (off + k) (n - k) := by
  obtain ⟨d, rfl⟩ := Nat.exists_eq_add_of_le h
  rw [Mem.read_add, List.drop_append_of_le_length (by simp), List.drop_of_length_le (by simp)]
  simp

theorem Mem.read_congr {m₁ m₂ : Mem} {off n : Nat} (h : ∀ i, off ≤ i → i < off + n → m₁ i = m₂ i) :
    m₁.read off n = m₂.read off n :=
  List.map_congr_left fun i hi => h _ (by omega) (by have := List.mem_range.mp hi; omega)

theorem Mem.write_of_lt (m : Mem) {off i : Nat} (bs : List UInt8) (h : i < off) : m.write off bs i = m i := by
  simp [Mem.write, show ¬ off ≤ i by omega]

theorem Mem.write_of_ge (m : Mem) {off i : Nat} {bs : List UInt8} (h : off + bs.length ≤ i) :
    m.write off bs i = m i := by
  simp [Mem.write, List.getElem?_eq_none (show bs.length ≤ i - off by omega)]

theorem Mem.write_add (m : Mem) (off : Nat) {bs : List UInt8} {i : Nat} (h : i < bs.length) :
    m.write off bs (off + i) = bs[i] := by
  simp [Mem.write, h]

@[simp] theorem Mem.write_nil (m : Mem) (off : Nat) : m.write off [] = m := by
  funext i; simp [Mem.write]

/-- A read of exactly what was written. -/
theorem Mem.read_write_self (m : Mem) (off : Nat) (bs : List UInt8) : (m.write off bs).read off bs.length = bs := by
  apply List.ext_getElem (by simp)
  intro i h₁ h₂
  simpa [Mem.read] using m.write_add off h₂

/-- A read beside what was written. -/
theorem Mem.read_write_of_disjoint (m : Mem) {off off' n : Nat} {bs : List UInt8}
    (h : off' + n ≤ off ∨ off + bs.length ≤ off') : (m.write off bs).read off' n = m.read off' n := by
  apply Mem.read_congr
  intro i h₁ h₂
  rcases h with h | h
  · exact m.write_of_lt bs (by omega)
  · exact m.write_of_ge (by omega)

/-- Storing two runs one after the other. -/
theorem Mem.write_append (m : Mem) (off : Nat) (as bs : List UInt8) :
    m.write off (as ++ bs) = (m.write off as).write (off + as.length) bs := by
  funext i
  by_cases h₁ : i < off
  · rw [m.write_of_lt _ h₁, Mem.write_of_lt _ _ (by omega), m.write_of_lt _ h₁]
  by_cases h₂ : i < off + as.length
  · rw [Mem.write_of_lt _ _ h₂]
    have hi : i - off < as.length := by omega
    simp [Mem.write, show off ≤ i by omega, List.getElem?_append_left hi, hi]
  · have hi : as.length ≤ i - off := by omega
    simp [Mem.write, show off ≤ i by omega, show off + as.length ≤ i by omega, List.getElem?_append_right hi,
      List.getElem?_eq_none hi, show i - off - as.length = i - (off + as.length) by omega]

/-- Storing two runs that do not meet, in either order. -/
theorem Mem.write_comm (m : Mem) {off off' : Nat} {as : List UInt8} (bs : List UInt8) (h : off + as.length ≤ off') :
    (m.write off' bs).write off as = (m.write off as).write off' bs := by
  funext i
  by_cases h₁ : i < off'
  · rw [Mem.write_of_lt _ _ h₁]
    simp only [Mem.write, show ¬ off' ≤ i by omega, if_false]
  · rw [Mem.write_of_ge _ (by omega)]
    simp only [Mem.write, show off' ≤ i by omega, if_true, List.getElem?_eq_none (show as.length ≤ i - off by omega),
      Option.getD_none, ite_self]

/-- Two memories that agree on their first `n` bytes. -/
def Agree (n : Nat) (m₁ m₂ : Mem) : Prop := ∀ i, i < n → m₁ i = m₂ i

theorem Agree.read {n : Nat} {m₁ m₂ : Mem} (h : Agree n m₁ m₂) {off k : Nat} (hk : off + k ≤ n) :
    m₁.read off k = m₂.read off k :=
  Mem.read_congr fun i _ hi => h i (by omega)

end Virtio9P.Lib
