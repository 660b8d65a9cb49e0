import Mathlib

/-!
# Rings with running counters

A ring has `num` slots and two counters that only grow, one for the entries that were sent and one for those that were
received. What is between them is in the slots, each entry at its number modulo `num` (`Holds`).

The counters are kept in 16 bits. The slot is still the right one when `num` divides `2 ^ 16` (`slot_ofNat`), and to
compare the counters for equality is enough as long as they are less than `2 ^ 16` apart (`ofNat_eq_ofNat`). So a ring
carries its entries, in order and each once (`Conveys.send`, `Conveys.receive`), for ever, if the sender keeps within
`num` of the receiver.
-/

namespace Virtio9P.Lib

variable {α : Type}

/-! ## Slots -/

/-- The slots hold `items`, from number `start` on. -/
def Holds (num : Nat) (ring : Nat → α) (start : Nat) (items : List α) : Prop :=
  ∀ k a, items[k]? = some a → ring ((start + k) % num) = a

theorem holds_nil (num : Nat) (ring : Nat → α) (start : Nat) : Holds num ring start [] := by
  intro k a h
  cases h

/-- Two numbers less than `num` apart have different slots. -/
theorem slot_ne {num i j : Nat} (hij : i < j) (hlt : j < i + num) : i % num ≠ j % num := by
  intro h
  have hdvd : num ∣ j - i := (Nat.modEq_iff_dvd' hij.le).mp h
  have hle := Nat.le_of_dvd (by omega) hdvd
  omega

/-- A new entry goes behind the last one. -/
theorem Holds.push {num : Nat} {ring : Nat → α} {start : Nat} {items : List α} (h : Holds num ring start items)
    (hroom : items.length < num) (a : α) :
    Holds num (Function.update ring ((start + items.length) % num) a) start (items ++ [a]) := by
  intro k b hk
  rcases Nat.lt_trichotomy k items.length with hlt | rfl | hgt
  · rw [List.getElem?_append_left hlt] at hk
    rw [Function.update_of_ne (slot_ne (by omega) (by omega))]
    exact h k b hk
  · rw [List.getElem?_append_right (le_refl _), Nat.sub_self] at hk
    rw [Function.update_self]
    exact Option.some.inj hk
  · rw [List.getElem?_eq_none (by simp; omega)] at hk
    cases hk

/-- The first entry. -/
theorem Holds.pop {num : Nat} {ring : Nat → α} {start : Nat} {a : α} {items : List α}
    (h : Holds num ring start (a :: items)) : ring (start % num) = a ∧ Holds num ring (start + 1) items := by
  refine ⟨h 0 a rfl, fun k b hk => ?_⟩
  rw [Nat.add_assoc, Nat.add_comm 1 k]
  exact h (k + 1) b hk

/-! ## Counters -/

/-- The slot of a number that is kept in 16 bits. -/
theorem slot_ofNat {num : Nat} (hdvd : num ∣ 65536) (n : Nat) : (UInt16.ofNat n).toNat % num = n % num := by
  rw [UInt16.toNat_ofNat']
  exact Nat.mod_mod_of_dvd n hdvd

/-- Counters that are not far apart are equal when their last 16 bits are. -/
theorem ofNat_eq_ofNat {i j : Nat} (hle : i ≤ j) (hlt : j < i + 65536) : UInt16.ofNat i = UInt16.ofNat j ↔ i = j := by
  refine ⟨fun h => ?_, fun h => by rw [h]⟩
  have hmod : i % 65536 = j % 65536 := by
    have := congrArg UInt16.toNat h
    rwa [UInt16.toNat_ofNat', UInt16.toNat_ofNat'] at this
  by_contra hne
  exact slot_ne (by omega) hlt hmod

/-- The ring conveys `sent`, of which the first `got` entries were received; the sender's counter is `idx` and the
receiver's is `last`. -/
structure Conveys (num : Nat) (ring : Nat → α) (idx last : UInt16) (sent : List α) (got : Nat) : Prop where
  le : got ≤ sent.length
  room : sent.length ≤ got + num
  idx_eq : idx = UInt16.ofNat sent.length
  last_eq : last = UInt16.ofNat got
  holds : Holds num ring got (sent.drop got)

namespace Conveys

variable {num : Nat} {ring : Nat → α} {idx last : UInt16} {sent : List α} {got : Nat}

theorem init (num : Nat) (ring : Nat → α) : Conveys num ring 0 0 [] 0 :=
  ⟨le_refl _, Nat.zero_le _, rfl, rfl, holds_nil num ring 0⟩

/-- The sender writes an entry. -/
theorem send (h : Conveys num ring idx last sent got) (hdvd : num ∣ 65536) (hroom : sent.length < got + num) (a : α) :
    Conveys num (Function.update ring (idx.toNat % num) a) (idx + 1) last (sent ++ [a]) got := by
  have hle := h.le
  have hlen : (sent ++ [a]).length = sent.length + 1 := List.length_append
  refine ⟨by omega, by omega, ?_, h.last_eq, ?_⟩
  · rw [h.idx_eq, hlen]
    exact (UInt16.ofNat_add sent.length 1).symm
  · have hdrop : (sent.drop got).length = sent.length - got := List.length_drop
    have hslot : idx.toNat % num = (got + (sent.drop got).length) % num := by
      rw [h.idx_eq, slot_ofNat hdvd, hdrop, Nat.add_sub_cancel' hle]
    rw [List.drop_append_of_le_length hle, hslot]
    exact h.holds.push (by omega) a

/-- The counters are equal when everything was received. -/
theorem last_eq_idx_iff (h : Conveys num ring idx last sent got) (hnum : num < 65536) :
    last = idx ↔ got = sent.length := by
  have hroom := h.room
  rw [h.last_eq, h.idx_eq]
  exact ofNat_eq_ofNat h.le (by omega)

/-- The receiver reads an entry. -/
theorem receive (h : Conveys num ring idx last sent got) (hdvd : num ∣ 65536) (hnew : last ≠ idx) :
    ∃ a, sent[got]? = some a ∧ ring (last.toNat % num) = a ∧ Conveys num ring idx (last + 1) sent (got + 1) := by
  have hlt : got < sent.length := by
    refine lt_of_le_of_ne h.le fun he => hnew ?_
    rw [h.last_eq, h.idx_eq, he]
  have hroom := h.room
  have hpop := h.holds
  rw [List.drop_eq_getElem_cons hlt] at hpop
  obtain ⟨hring, hrest⟩ := hpop.pop
  refine ⟨sent[got], List.getElem?_eq_getElem hlt, ?_, hlt, by omega, h.idx_eq, ?_, hrest⟩
  · rw [h.last_eq, slot_ofNat hdvd, hring]
  · rw [h.last_eq]
    exact (UInt16.ofNat_add got 1).symm

end Conveys

end Virtio9P.Lib
