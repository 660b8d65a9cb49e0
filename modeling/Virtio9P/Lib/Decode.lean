import Virtio9P.Lib.Bytes

/-!
# Decoders of byte strings

A decoder takes what it needs from the front of a list of bytes and leaves the rest. `Decodes d bs a`: on every input
that starts with `bs`, the decoder `d` returns `a` and leaves what follows. Decoders that run one after the other
decode the bytes one after the other (`Decodes.bind`), so a decoder of a record follows the record. `Yields d P`: on
every input, what `d` returns meets `P`. `Takes k d`: whatever `d` returns, it took `k` bytes at least.
-/

namespace Virtio9P.Lib

/-- A decoder. -/
abbrev Dec := StateT (List UInt8) Option

/-- The next `n` bytes. -/
def decBytes (n : Nat) : Dec (List UInt8) := fun bs =>
  if n ≤ bs.length then some (bs.take n, bs.drop n) else none

/-- The number in the next `k` bytes. -/
def decNat (k : Nat) : Dec Nat := do
  let bs ← decBytes k
  pure (leNat bs)

/-- `n` values one after the other. -/
def decMany {α : Type} (d : Dec α) : Nat → Dec (List α)
  | 0 => pure []
  | n + 1 => do
    let a ← d
    let as ← decMany d n
    pure (a :: as)

/-- `d` decodes `bs` to `a`. -/
def Decodes {α : Type} (d : Dec α) (bs : List UInt8) (a : α) : Prop := ∀ rest, d (bs ++ rest) = some (a, rest)

variable {α β : Type}

theorem decodes_pure (a : α) : Decodes (pure a) [] a := fun _ => rfl

theorem Decodes.bind {d : Dec α} {f : α → Dec β} {as bs : List UInt8} {a : α} {b : β} (hd : Decodes d as a)
    (hf : Decodes (f a) bs b) : Decodes (d >>= f) (as ++ bs) b := by
  intro rest
  show (d (as ++ bs ++ rest)).bind _ = _
  rw [List.append_assoc, hd]
  exact hf rest

/-- A last step that takes no bytes. -/
theorem Decodes.map {d : Dec α} {as : List UInt8} {a : α} (hd : Decodes d as a) (f : α → β) :
    Decodes (d >>= fun a => pure (f a)) as (f a) := by
  have h := hd.bind (f := fun a => pure (f a)) (decodes_pure (f a))
  rwa [List.append_nil] at h

/-- What is left to do after the first bytes. -/
theorem Decodes.then {d : Dec α} {as : List UInt8} {a : α} (hd : Decodes d as a) (f : α → Dec β) (rest : List UInt8) :
    (d >>= f) (as ++ rest) = f a rest := by
  show (d (as ++ rest)).bind _ = _
  rw [hd]
  rfl

theorem decodes_bytes (bs : List UInt8) : Decodes (decBytes bs.length) bs bs := by
  intro rest
  unfold decBytes
  rw [if_pos (by simp), List.take_left, List.drop_left]

/-- Bytes taken as a number. -/
theorem decodes_raw {k : Nat} {bs : List UInt8} (h : bs.length = k) : Decodes (decNat k) bs (leNat bs) :=
  h ▸ (decodes_bytes bs).map leNat

/-- A number that may be too large is cut. -/
theorem decodes_cut (k v : Nat) : Decodes (decNat k) (leBytes k v) (leNat (leBytes k v)) :=
  decodes_raw (length_leBytes k v)

theorem decodes_nat {k v : Nat} (h : v < 256 ^ k) : Decodes (decNat k) (leBytes k v) v := by
  have hb := decodes_cut k v
  rwa [leNat_leBytes_of_lt h] at hb

theorem decodes_many {d : Dec α} {enc : α → List UInt8} :
    ∀ as : List α, (∀ a ∈ as, Decodes d (enc a) a) → Decodes (decMany d as.length) (as.flatMap enc) as
  | [], _ => decodes_pure []
  | a :: as, h => by
    have ha := h a (List.mem_cons_self ..)
    have ih := decodes_many as fun b hb => h b (List.mem_cons_of_mem a hb)
    rw [List.flatMap_cons]
    exact ha.bind (ih.map (a :: ·))

/-- Whatever `d` returns meets `P`. -/
def Yields (d : Dec α) (P : α → Prop) : Prop := ∀ bs a rest, d bs = some (a, rest) → P a

theorem yields_pure {P : α → Prop} {a : α} (h : P a) : Yields (pure a) P := by
  rintro bs a' rest ⟨⟩
  exact h

theorem Yields.bind {d : Dec α} {f : α → Dec β} {P : β → Prop} (h : ∀ a, Yields (f a) P) : Yields (d >>= f) P := by
  intro bs b rest hb
  obtain ⟨⟨a, mid⟩, -, hf⟩ := Option.bind_eq_some_iff.mp (show (d bs).bind _ = some (b, rest) from hb)
  exact h a mid b rest hf

/-- Whatever `d` returns, it took `k` bytes at least. -/
def Takes (k : Nat) (d : Dec α) : Prop := ∀ bs a rest, d bs = some (a, rest) → k + rest.length ≤ bs.length

theorem takes_pure (a : α) : Takes 0 (pure a) := by
  rintro bs a' rest ⟨⟩
  exact (Nat.zero_add _).le

theorem takes_bytes (n : Nat) : Takes n (decBytes n) := by
  intro bs a rest h
  unfold decBytes at h
  split at h
  · cases h
    rw [List.length_drop]
    omega
  · cases h

theorem Takes.bind {j k : Nat} {d : Dec α} {f : α → Dec β} (hd : Takes j d) (hf : ∀ a, Takes k (f a)) :
    Takes (j + k) (d >>= f) := by
  intro bs b rest hb
  obtain ⟨⟨a, mid⟩, ha, hfa⟩ := Option.bind_eq_some_iff.mp (show (d bs).bind _ = some (b, rest) from hb)
  have h₁ := hd bs a mid ha
  have h₂ := hf a mid b rest hfa
  omega

theorem takes_nat (k : Nat) : Takes k (decNat k) := (takes_bytes k).bind fun _ => takes_pure _

end Virtio9P.Lib
