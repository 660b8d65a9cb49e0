import Virtio9P.Virtqueue.Defs

/-!
# Free list and chains: what the two loops of the queue do

The free list is threaded through the `next` fields of the free descriptors in native order (`follow`); a chain in
flight is threaded through the `next` fields of its descriptors in ring order, as far as the `NEXT` flags go
(`Linked`). `addBufLoop_spec` and `freeChain_spec` say what the loops of `VirtQueue_AddBuf` and `VirtQueue_GetBuf` do
to the two.
-/

namespace Virtio9P

variable {κ : Type}

/-! ## The free list -/

/-- The descriptor reached from `i` by `n` links. -/
def link (desc : Nat → VringDesc) : UInt16 → Nat → UInt16
  | i, 0 => i
  | i, n + 1 => link desc (desc i.toNat).next n

/-- The descriptors visited from `i` on by following links, `n` of them. -/
def follow (desc : Nat → VringDesc) : UInt16 → Nat → List Nat
  | _, 0 => []
  | i, n + 1 => i.toNat :: follow desc (desc i.toNat).next n

/-- The free descriptors, in the order of the free list. -/
def Virtqueue.freeList (vq : Virtqueue κ) : List Nat := follow vq.desc vq.freeHead vq.numFree.toNat

@[simp] theorem length_follow (desc : Nat → VringDesc) : ∀ (n : Nat) (i : UInt16), (follow desc i n).length = n
  | 0, _ => rfl
  | n + 1, _ => by simp [follow, length_follow desc n]

theorem follow_add (desc : Nat → VringDesc) : ∀ (a b : Nat) (i : UInt16),
    follow desc i (a + b) = follow desc i a ++ follow desc (link desc i a) b
  | 0, b, i => by simp [follow, link]
  | a + 1, b, i => by
    rw [show a + 1 + b = (a + b) + 1 by omega]
    simp [follow, link, follow_add desc a b]

theorem link_add (desc : Nat → VringDesc) : ∀ (a b : Nat) (i : UInt16),
    link desc i (a + b) = link desc (link desc i a) b
  | 0, b, i => by simp [link]
  | a + 1, b, i => by
    rw [show a + 1 + b = (a + b) + 1 by omega]
    simp [link, link_add desc a b]

theorem take_follow (desc : Nat → VringDesc) (a b : Nat) (i : UInt16) :
    (follow desc i (a + b)).take a = follow desc i a := by
  rw [follow_add, List.take_append_of_le_length (by simp), List.take_of_length_le (by simp)]

/-- The walk only looks at the descriptors it visits. -/
theorem follow_congr (d d' : Nat → VringDesc) : ∀ (n : Nat) (i : UInt16), (∀ j ∈ follow d i n, d' j = d j) →
    follow d' i n = follow d i n ∧ link d' i n = link d i n
  | 0, _, _ => ⟨rfl, rfl⟩
  | n + 1, i, h => by
    have hi : d' i.toNat = d i.toNat := h _ List.mem_cons_self
    have ih := follow_congr d d' n (d i.toNat).next (fun j hj => h j (List.mem_cons_of_mem _ hj))
    simp only [follow, link, hi, ih, and_self]

/-- A freed descriptor comes first in the free list; the rest of the list is as before. -/
theorem follow_pushFree {vq : Virtqueue κ} {i : UInt16} {m : Nat} (h : i.toNat ∉ follow vq.desc vq.freeHead m) :
    follow (vq.pushFree i).desc (vq.pushFree i).freeHead (m + 1) = i.toNat :: follow vq.desc vq.freeHead m ∧
      link (vq.pushFree i).desc (vq.pushFree i).freeHead (m + 1) = link vq.desc vq.freeHead m := by
  have hc := follow_congr vq.desc (vq.pushFree i).desc m vq.freeHead (by
    intro j hj
    have hne : j ≠ i.toNat := fun e => h (e ▸ hj)
    simp [Virtqueue.pushFree, Virtqueue.setDesc, hne])
  simp only [follow, link]
  have hn : ((vq.pushFree i).desc (vq.pushFree i).freeHead.toNat).next = vq.freeHead := by
    simp [Virtqueue.pushFree, Virtqueue.setDesc]
  rw [hn]
  exact ⟨by rw [hc.1]; rfl, hc.2⟩

/-! ## Chains -/

/-- A descriptor's buffer as the device reads it: address, length and flags in the host's terms. -/
structure Buf where
  addr : UInt64
  len : UInt32
  flags : UInt16
  deriving DecidableEq

/-- Descriptor `d` read in the queue's byte order. -/
def VringDesc.buf (modern : Bool) (d : VringDesc) : Buf :=
  { addr := vr64 modern d.addr, len := vr32 modern d.len, flags := vr16 modern d.flags }

/-- The `NEXT` flag of a buffer. -/
def Buf.hasNext (b : Buf) : Prop := b.flags &&& vringDescFNext ≠ 0

instance (b : Buf) : Decidable b.hasNext := inferInstanceAs (Decidable (_ ≠ _))

/-- The descriptors `is` hold the buffers `bs` and are linked in this order; the last one ends the chain. -/
def Linked (modern : Bool) (desc : Nat → VringDesc) : List Nat → List Buf → Prop
  | [i], [b] => (desc i).buf modern = b ∧ ¬ b.hasNext
  | i :: j :: is, b :: bs =>
    (desc i).buf modern = b ∧ b.hasNext ∧ (vr16 modern (desc i).next).toNat = j ∧ Linked modern desc (j :: is) bs
  | _, _ => False

/-- The chain a device reads from descriptor `i` on: at most `n` descriptors, following the `NEXT` flags. -/
def walkChain (modern : Bool) (desc : Nat → VringDesc) : Nat → Nat → List (Nat × Buf)
  | 0, _ => []
  | n + 1, i =>
    (i, (desc i).buf modern) ::
      if ((desc i).buf modern).hasNext then walkChain modern desc n (vr16 modern (desc i).next).toNat else []

theorem Linked.ne_nil {modern : Bool} {desc : Nat → VringDesc} {is : List Nat} {bs : List Buf}
    (h : Linked modern desc is bs) : is ≠ [] := by
  rintro rfl
  simp [Linked] at h

theorem Linked.length_eq {modern : Bool} {desc : Nat → VringDesc} : ∀ {is : List Nat} {bs : List Buf},
    Linked modern desc is bs → is.length = bs.length
  | [], _, h => by simp [Linked] at h
  | [_], [], h => by simp [Linked] at h
  | [_], [_], _ => rfl
  | [_], _ :: _ :: _, h => by simp [Linked] at h
  | _ :: _ :: _, [], h => by simp [Linked] at h
  | _ :: j :: is, _ :: bs, h => by
    have ih : (j :: is).length = bs.length := Linked.length_eq h.2.2.2
    simpa using ih

theorem Linked.congr {modern : Bool} {d d' : Nat → VringDesc} : ∀ {is : List Nat} {bs : List Buf},
    Linked modern d is bs → (∀ j ∈ is, d' j = d j) → Linked modern d' is bs
  | [], _, h, _ => by simp [Linked] at h
  | [_], [], h, _ => by simp [Linked] at h
  | [i], [b], h, hd => by
    simp only [Linked, hd i List.mem_cons_self]
    exact h
  | [_], _ :: _ :: _, h, _ => by simp [Linked] at h
  | _ :: _ :: _, [], h, _ => by simp [Linked] at h
  | i :: j :: is, b :: bs, h, hd => by
    simp only [Linked, hd i List.mem_cons_self]
    exact ⟨h.1, h.2.1, h.2.2.1, Linked.congr h.2.2.2 (fun x hx => hd x (List.mem_cons_of_mem _ hx))⟩

/-- A device with room for the whole chain reads exactly its descriptors and buffers. -/
theorem Linked.walkChain {modern : Bool} {desc : Nat → VringDesc} : ∀ {is : List Nat} {bs : List Buf} {n : Nat},
    Linked modern desc is bs → is.length ≤ n → walkChain modern desc n (is.headD 0) = is.zip bs
  | [], _, _, h, _ => by simp [Linked] at h
  | [_], [], _, h, _ => by simp [Linked] at h
  | [i], [b], n, h, hn => by
    obtain ⟨n, rfl⟩ : ∃ k, n = k + 1 := ⟨n - 1, by simp at hn; omega⟩
    obtain ⟨hb, he⟩ := h
    simp [Virtio9P.walkChain, hb, he]
  | [_], _ :: _ :: _, _, h, _ => by simp [Linked] at h
  | _ :: _ :: _, [], _, h, _ => by simp [Linked] at h
  | i :: j :: is, b :: bs, n, h, hn => by
    obtain ⟨n, rfl⟩ : ∃ k, n = k + 1 := ⟨n - 1, by simp at hn; omega⟩
    obtain ⟨hb, hx, hj, hl⟩ := h
    have ih := Linked.walkChain (n := n) hl (by simpa using hn)
    simp only [List.headD_cons] at ih
    simp [Virtio9P.walkChain, hb, hx, hj, ih]

/-! ## The loop of `VirtQueue_AddBuf` -/

/-- Entry `n` of a request, as the device is to read it. -/
def requestBuf (sg : Nat → VringSg) (outNum total n : Nat) : Buf :=
  { addr := (sg n).addr.toUInt64, len := (sg n).len, flags := descFlags outNum total n }

/-- The buffers of a request: `outNum` to be read by the device, the others to be written by it. -/
def requestBufs (sg : Nat → VringSg) (outNum total : Nat) : List Buf :=
  (List.range total).map (requestBuf sg outNum total)

theorem requestBuf_hasNext (sg : Nat → VringSg) (outNum total n : Nat) :
    (requestBuf sg outNum total n).hasNext ↔ n < total - 1 := by
  unfold Buf.hasNext requestBuf descFlags
  by_cases ho : outNum ≤ n <;> by_cases hn : n < total - 1 <;>
    simp only [ho, hn, if_true, if_false, iff_true, iff_false] <;> decide

/-- Filling `k` descriptors of the free list turns them into a chain; the free list starts behind them. -/
theorem addBufLoop_spec (sg : Nat → VringSg) (outNum total : Nat) : ∀ (k n : Nat) (idx : UInt16) (vq : Virtqueue κ),
    n + (k + 1) = total → (follow vq.desc idx (k + 1)).Nodup → (∀ j ∈ follow vq.desc idx (k + 1), j < vq.num) →
    ∃ d', addBufLoop sg outNum total (k + 1) n idx vq =
        .ok { vq with desc := d', freeHead := link vq.desc idx (k + 1) } ∧
      (∀ j ∉ follow vq.desc idx (k + 1), d' j = vq.desc j) ∧
      Linked vq.modern d' (follow vq.desc idx (k + 1)) ((List.range' n (k + 1)).map (requestBuf sg outNum total))
  | 0, n, idx, vq, hn, _, hlt => by
    have hi : idx.toNat < vq.num := hlt _ List.mem_cons_self
    have hlast : ¬ n < total - 1 := by omega
    refine ⟨Function.update vq.desc idx.toNat
      { addr := vr64 vq.modern (sg n).addr.toUInt64, len := vr32 vq.modern (sg n).len,
        flags := vr16 vq.modern (descFlags outNum total n), next := (vq.desc idx.toNat).next }, ?_, ?_, ?_⟩
    · simp [addBufLoop, Virtqueue.descAt, Virtqueue.setDesc, hi, hlast, bind, Except.bind, link]
    · intro j hj
      simp only [follow, List.mem_cons, List.not_mem_nil, or_false] at hj
      simp [hj]
    · exact ⟨by simp [VringDesc.buf, requestBuf], (requestBuf_hasNext sg outNum total n).not.mpr hlast⟩
  | k + 1, n, idx, vq, hn, hnd, hlt => by
    have hi : idx.toNat < vq.num := hlt _ List.mem_cons_self
    have hmid : n < total - 1 := by omega
    set nextIdx := (vq.desc idx.toNat).next with hnext
    set d₀ : VringDesc :=
      { addr := vr64 vq.modern (sg n).addr.toUInt64, len := vr32 vq.modern (sg n).len,
        flags := vr16 vq.modern (descFlags outNum total n), next := vr16 vq.modern nextIdx } with hd₀
    have hfol : follow vq.desc idx (k + 1 + 1) = idx.toNat :: follow vq.desc nextIdx (k + 1) := rfl
    rw [hfol, List.nodup_cons] at hnd
    -- writing the first descriptor leaves the rest of the free list alone
    have hcong := follow_congr vq.desc (vq.setDesc idx.toNat d₀).desc (k + 1) nextIdx (by
      intro j hj
      have hne : j ≠ idx.toNat := fun e => hnd.1 (e ▸ hj)
      simp [Virtqueue.setDesc, hne])
    obtain ⟨d', hrun, hout, hlink⟩ := addBufLoop_spec sg outNum total k (n + 1) nextIdx (vq.setDesc idx.toNat d₀)
      (by omega) (by rw [hcong.1]; exact hnd.2)
      (by rw [hcong.1]; exact fun j hj => hlt j (List.mem_cons_of_mem _ hj))
    rw [hcong.1] at hout hlink
    rw [hcong.2] at hrun
    refine ⟨d', ?_, ?_, ?_⟩
    · rw [addBufLoop]
      simp only [Virtqueue.descAt, hi, if_true, bind, Except.bind, hmid]
      exact hrun
    · intro j hj
      rw [hfol, List.mem_cons, not_or] at hj
      rw [hout j hj.2]
      simp [Virtqueue.setDesc, hj.1]
    · have hd' : d' idx.toNat = d₀ := by rw [hout _ hnd.1]; simp [Virtqueue.setDesc]
      rw [hfol, List.range'_succ, List.map_cons]
      simp only [follow, Linked, requestBuf_hasNext, hd']
      refine ⟨?_, hmid, ?_, hlink⟩
      · simp [VringDesc.buf, hd₀, requestBuf]
      · simp [hd₀]

/-! ## The loop of `VirtQueue_GetBuf` -/

/-- Freeing a chain clears its descriptors and pushes them onto the free list, the last one on top. -/
theorem freeChain_spec : ∀ (is : List Nat) (bs : List Buf) (fuel : Nat) (idx : UInt16) (freed : Nat)
    (vq : Virtqueue κ), Linked vq.modern vq.desc is bs → is.Nodup → (∀ j ∈ is, j < vq.num) →
    is.headD 0 = idx.toNat → is.length ≤ fuel →
    ∃ d' h', freeChain fuel idx freed vq = .ok (freed + is.length, { vq with desc := d', freeHead := h' }) ∧
      (∀ j ∉ is, d' j = vq.desc j) ∧ (∀ j ∈ is, (d' j).flags = 0) ∧
      ∀ m, (∀ j ∈ is, j ∉ follow vq.desc vq.freeHead m) →
        follow d' h' (m + is.length) = is.reverse ++ follow vq.desc vq.freeHead m ∧
        link d' h' (m + is.length) = link vq.desc vq.freeHead m
  | [], _, _, _, _, _, h, _, _, _, _ => by simp [Linked] at h
  | [_], [], _, _, _, _, h, _, _, _, _ => by simp [Linked] at h
  | [_], _ :: _ :: _, _, _, _, _, h, _, _, _, _ => by simp [Linked] at h
  | _ :: _ :: _, [], _, _, _, _, h, _, _, _, _ => by simp [Linked] at h
  | [i], [b], fuel, idx, freed, vq, h, _, hlt, hidx, hfuel => by
    obtain ⟨fuel, rfl⟩ : ∃ k, fuel = k + 1 := ⟨fuel - 1, by simp at hfuel; omega⟩
    obtain rfl : i = idx.toNat := hidx
    obtain ⟨hb, he⟩ := h
    have hi : idx.toNat < vq.num := hlt _ List.mem_cons_self
    have hflag : vr16 vq.modern (vq.desc idx.toNat).flags &&& vringDescFNext = 0 := by
      subst hb; simpa [Buf.hasNext, VringDesc.buf] using he
    refine ⟨(vq.pushFree idx).desc, idx, ?_, ?_, ?_, ?_⟩
    · simp only [freeChain, Virtqueue.descAt, hi, if_true, bind, Except.bind, hflag]
      rfl
    · intro j hj
      simp only [List.mem_cons, List.not_mem_nil, or_false] at hj
      simp [Virtqueue.pushFree, Virtqueue.setDesc, hj]
    · intro j hj
      rw [List.mem_singleton.mp hj]
      simp [Virtqueue.pushFree, Virtqueue.setDesc]
    · intro m hm
      exact follow_pushFree (hm _ List.mem_cons_self)
  | i :: j :: is, b :: bs, fuel, idx, freed, vq, h, hnd, hlt, hidx, hfuel => by
    obtain ⟨fuel, rfl⟩ : ∃ k, fuel = k + 1 := ⟨fuel - 1, by simp at hfuel; omega⟩
    obtain rfl : i = idx.toNat := hidx
    obtain ⟨hb, hx, hj, hl⟩ := h
    have hi : idx.toNat < vq.num := hlt _ List.mem_cons_self
    rw [List.nodup_cons] at hnd
    have hflag : vr16 vq.modern (vq.desc idx.toNat).flags &&& vringDescFNext ≠ 0 := by
      subst hb; simpa [Buf.hasNext, VringDesc.buf] using hx
    have hrest : ∀ x ∈ j :: is, (vq.pushFree idx).desc x = vq.desc x := by
      intro x hx
      have hne : x ≠ idx.toNat := fun e => hnd.1 (e ▸ hx)
      simp [Virtqueue.pushFree, Virtqueue.setDesc, hne]
    obtain ⟨d', h', hrun, hout, hclear, hfol⟩ := freeChain_spec (j :: is) bs fuel
        (vr16 vq.modern (vq.desc idx.toNat).next)
      (freed + 1) (vq.pushFree idx) (hl.congr hrest) hnd.2 (fun x hx => hlt x (List.mem_cons_of_mem _ hx))
      (by simpa using hj.symm) (by simpa using hfuel)
    refine ⟨d', h', ?_, ?_, ?_, ?_⟩
    · rw [freeChain]
      simp only [Virtqueue.descAt, hi, if_true, bind, Except.bind, hflag, if_false, hrun]
      simp only [List.length_cons, Except.ok.injEq, Prod.mk.injEq]
      exact ⟨by omega, rfl⟩
    · intro x hx
      rw [List.mem_cons, not_or] at hx
      rw [hout x hx.2]
      simp [Virtqueue.pushFree, Virtqueue.setDesc, hx.1]
    · intro x hx
      rcases List.mem_cons.mp hx with rfl | hx
      · rw [hout _ hnd.1]
        simp [Virtqueue.pushFree, Virtqueue.setDesc]
      · exact hclear x hx
    · intro m hm
      have hp := follow_pushFree (hm idx.toNat List.mem_cons_self)
      have hrec := hfol (m + 1) (by
        intro x hx hmem
        rw [hp.1, List.mem_cons] at hmem
        rcases hmem with rfl | hmem
        · exact hnd.1 hx
        · exact hm x (List.mem_cons_of_mem _ hx) hmem)
      rw [hp.1, hp.2] at hrec
      rw [show m + (idx.toNat :: j :: is).length = m + 1 + (j :: is).length by simp; omega]
      exact ⟨by rw [hrec.1]; simp, hrec.2⟩

end Virtio9P
