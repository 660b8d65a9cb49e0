import Virtio9P.Lib.Ring
import Virtio9P.Virtqueue.Rep

/-!
# The two rings between driver and device

Driver and device take turns in any order (`RingStep`): the driver posts and collects, the device takes the next entry
of the avail ring and completes any chain that it has taken. `Traffic` is the queue, what the device remembers, and the
history of the four ends of the rings.

Each ring conveys its entries (`Lib.Conveys`) as long as the sender keeps within `num` of the receiver. It does, because
every entry that is under way belongs to an outstanding chain and these share no descriptor (`Tracks`). So nothing is
lost and nothing comes twice, however often the counters wrap (`exact_run`). Two kinds of request are apart. One of no
buffers takes no descriptor, so nothing keeps it from overwriting an entry; and one with a `NULL` cookie comes back as
`NULL` (`overwritten_and_null`).

The queue then stands for the requests that were posted and not returned (`run_represents`). The size of the queue has
to divide `65536`: on a queue of three the places 65535 and 0 are one slot, and an entry there is lost (`slot_shared`).
-/

namespace Virtio9P

open Lib

variable {κ : Type}

/-! ## Driver and device -/

/-- A request as it was published: the head, and the buffers and the cookie that the driver gave. -/
structure Posting (κ : Type) where
  head : UInt16
  bufs : List Buf
  cookie : Option κ

/-- A chain that the device has taken: the number of its request and its head, as the device read it. -/
structure Taken where
  request : Nat
  head : UInt16

/-- The queue, the device, and what has gone through the rings. -/
structure Traffic (κ : Type) where
  vq : Virtqueue κ
  /-- the device's place in the avail ring -/
  nextAvail : UInt16
  /-- what the device has taken and not completed -/
  inFlight : List Taken
  /-- history: the successful `VirtQueue_AddBuf` -/
  posted : List (Posting κ)
  /-- history: the heads that the device took -/
  taken : List UInt16
  /-- history: the completions, with the length that was written -/
  completed : List (Taken × UInt32)
  /-- history: the successful `VirtQueue_GetBuf` -/
  returned : List (κ × UInt32)

/-- What the driver or the device does next. -/
inductive RingStep (κ : Type) where
  | add (sg : Nat → VringSg) (outNum inNum : UInt32) (cookie : Option κ)
  | get
  /-- the device takes the next avail entry, if there is one -/
  | take
  /-- the device completes the `k`-th of the chains it has taken, if there is one -/
  | complete (k : Nat) (len : UInt32)

/-- The device writes a used entry. -/
def Virtqueue.putUsed (vq : Virtqueue κ) (head : UInt16) (len : UInt32) : Virtqueue κ :=
  let usedIdx := vr16 vq.modern vq.usedIdx
  { vq with
    usedRing := Function.update vq.usedRing (usedIdx.toNat % vq.num) ⟨vr32 vq.modern head.toUInt32, vr32 vq.modern len⟩
    usedIdx := vr16 vq.modern (usedIdx + 1) }

namespace Traffic

/-- A fresh queue and a device that was just reset. -/
def init (num : Nat) (modern : Bool) : Traffic κ := ⟨initQueue num modern, 0, [], [], [], [], []⟩

/-- The driver posts a request. -/
def post (t : Traffic κ) (sg : Nat → VringSg) (outNum inNum : UInt32) (cookie : Option κ) :
    Except VqFault (Int × Traffic κ) := do
  let (r, vq) ← virtQueueAddBuf t.vq sg outNum inNum cookie
  let posting : Posting κ := ⟨t.vq.freeHead, requestBufs sg outNum.toNat (outNum + inNum).toNat, cookie⟩
  if r = 0 then .ok (r, { t with vq := vq, posted := t.posted ++ [posting] })
  else .ok (r, { t with vq := vq })

/-- The driver collects a completion. -/
def collect (t : Traffic κ) : Except VqFault (Option (κ × UInt32) × Traffic κ) := do
  let (g, vq) ← virtQueueGetBuf t.vq
  match g.cookie, g.len with
  | some cookie, some len =>
    .ok (some (cookie, len), { t with vq := vq, returned := t.returned ++ [(cookie, len)] })
  | _, _ => .ok (none, { t with vq := vq })

/-- The device takes the next avail entry. -/
def take (t : Traffic κ) : Traffic κ :=
  if t.nextAvail = vr16 t.vq.modern t.vq.availIdx then t
  else
    let head := vr16 t.vq.modern (t.vq.availRing (t.nextAvail.toNat % t.vq.num))
    { t with
      nextAvail := t.nextAvail + 1
      inFlight := t.inFlight ++ [⟨t.taken.length, head⟩]
      taken := t.taken ++ [head] }

/-- The device completes the `k`-th of the chains it has taken. -/
def complete (t : Traffic κ) (k : Nat) (len : UInt32) : Traffic κ :=
  match t.inFlight[k]? with
  | none => t
  | some c =>
    { t with
      vq := t.vq.putUsed c.head len
      inFlight := t.inFlight.eraseIdx k
      completed := t.completed ++ [(c, len)] }

def step (t : Traffic κ) : RingStep κ → Except VqFault (Traffic κ)
  | .add sg outNum inNum cookie => (t.post sg outNum inNum cookie).map Prod.snd
  | .get => t.collect.map Prod.snd
  | .take => .ok t.take
  | .complete k len => .ok (t.complete k len)

def run (t : Traffic κ) (steps : List (RingStep κ)) : Except VqFault (Traffic κ) := steps.foldlM step t

/-- What the driver is to get for a completion: the cookie of the request, and the length. -/
def result (posted : List (Posting κ)) (c : Taken × UInt32) : Option (κ × UInt32) := do
  let p ← posted[c.1.request]?
  let cookie ← p.cookie
  some (cookie, c.2)

/-- **Nothing is lost and nothing comes twice.** -/
structure Exact (t : Traffic κ) : Prop where
  /-- the device takes the posted heads in order, each once -/
  taken : t.taken <+: t.posted.map Posting.head
  /-- it finds nothing more to take only when it has taken all -/
  all : t.nextAvail = vr16 t.vq.modern t.vq.availIdx → t.taken.length = t.posted.length
  /-- the driver gets the completions in order, each once -/
  returned : t.returned.map some <+: t.completed.map (result t.posted)
  /-- and `NULL` only when it has got all -/
  null : ∀ g vq, virtQueueGetBuf t.vq = .ok (g, vq) → g.cookie = none → t.returned.length = t.completed.length

end Traffic

/-- The request has a buffer and a cookie. -/
def RingStep.Proper : RingStep κ → Prop
  | .add _ outNum inNum cookie => outNum + inNum ≠ 0 ∧ cookie ≠ none
  | _ => True

/-- The request is of a size that the counters can hold, and has a cookie. -/
def RingStep.Sized : RingStep κ → Prop
  | .add _ outNum inNum cookie =>
    1 ≤ outNum.toNat + inNum.toNat ∧ outNum.toNat + inNum.toNat < 65536 ∧ cookie ≠ none
  | _ => True

theorem RingStep.Sized.proper {s : RingStep κ} (h : s.Sized) : s.Proper := by
  cases s with
  | add sg outNum inNum cookie =>
    obtain ⟨hpos, hlt, hcookie⟩ := h
    refine ⟨fun h0 => ?_, hcookie⟩
    have htotal := toNat_total hlt
    rw [h0] at htotal
    exact absurd htotal (Nat.ne_of_lt hpos)
  | get => trivial
  | take => trivial
  | complete k len => trivial

/-- `out` are the requests that were posted and not returned, each with the chain that the queue has for it. -/
structure Traffic.Represents (t : Traffic κ) (out : List (Nat × Chain κ)) : Prop where
  rep : Rep t.vq (out.map Prod.snd)
  posted : ∀ e ∈ out, ∃ p, t.posted[e.1]? = some p ∧ p.head.toNat = e.2.head ∧ p.bufs = e.2.bufs ∧ p.cookie = e.2.cookie
  split : ((t.completed.take t.returned.length).map (·.1.request) ++ out.map Prod.fst).Perm (List.range t.posted.length)

/-! ## The invariant -/

/-- Every chain has a descriptor of its own. -/
theorem Shape.chains_le {vq : Virtqueue κ} {out : List (Chain κ)} (h : Shape vq out) :
    vq.numFree.toNat + out.length ≤ vq.num := by
  have hone : ∀ n ∈ out.map (·.idxs.length), 1 ≤ n := by
    intro n hn
    obtain ⟨c, hc, rfl⟩ := List.mem_map.mp hn
    exact List.length_pos_iff.mpr (h.linked c hc).ne_nil
  have hle := List.length_le_sum_of_one_le _ hone
  rw [List.length_map] at hle
  have hcount := h.count
  omega

/-- The chain was taken off the avail ring under the head of its request. -/
def Taken.Of (posted : List (Posting κ)) (f : Taken) : Prop := (posted[f.request]?).map Posting.head = some f.head

theorem Taken.Of.lt {posted : List (Posting κ)} {f : Taken} (h : f.Of posted) : f.request < posted.length := by
  by_contra hge
  rw [Taken.Of, List.getElem?_eq_none (not_lt.mp hge)] at h
  cases h

theorem Taken.Of.append {posted : List (Posting κ)} {f : Taken} (h : f.Of posted) (p : Posting κ) :
    f.Of (posted ++ [p]) := by
  rw [Taken.Of, List.getElem?_append_left h.lt]
  exact h

theorem Traffic.result_append {posted : List (Posting κ)} {c : Taken × UInt32} (h : c.1.Of posted) (p : Posting κ) :
    Traffic.result (posted ++ [p]) c = Traffic.result posted c := by
  rw [Traffic.result, List.getElem?_append_left h.lt]
  rfl

/-- The used entry of a completion, as the device writes it. -/
def usedElem (modern : Bool) (c : Taken × UInt32) : VringUsedElem := ⟨vr32 modern c.1.head.toUInt32, vr32 modern c.2⟩

/-- **What the rings carry.** `out` are the outstanding chains with the numbers of their requests: of these the driver
is yet to collect, the device yet to complete, or the device yet to take each one. -/
structure Tracks (t : Traffic κ) (out : List (Nat × Chain κ)) : Prop where
  inv : Inv t.vq (out.map Prod.snd)
  dvd : t.vq.num ∣ 65536
  named : ∀ e ∈ out, ∃ p, t.posted[e.1]? = some p ∧ p.head.toNat = e.2.head ∧ p.bufs = e.2.bufs ∧ p.cookie = e.2.cookie
  cookies : ∀ p ∈ t.posted, p.cookie ≠ none
  flying : ∀ f ∈ t.inFlight, f.Of t.posted
  landed : ∀ c ∈ t.completed, c.1.Of t.posted
  live : (out.map Prod.fst).Perm ((t.completed.drop t.returned.length).map (·.1.request) ++
    t.inFlight.map Taken.request ++
    List.range' t.taken.length (t.posted.length - t.taken.length))
  parts : ((t.completed.take t.returned.length).map (·.1.request) ++ out.map Prod.fst).Perm
    (List.range t.posted.length)
  avail : Conveys t.vq.num t.vq.availRing (vr16 t.vq.modern t.vq.availIdx) t.nextAvail
    (t.posted.map fun p => vr16 t.vq.modern p.head) t.taken.length
  used : Conveys t.vq.num t.vq.usedRing (vr16 t.vq.modern t.vq.usedIdx) t.vq.lastUsedIdx
    (t.completed.map (usedElem t.vq.modern)) t.returned.length
  taken : t.taken <+: t.posted.map Posting.head
  returned : t.returned.map some <+: t.completed.map (Traffic.result t.posted)

/-- A list of which `l` is the beginning goes on with its next entry. -/
theorem prefix_snoc {α : Type} {l l' : List α} {a : α} (h : l <+: l') (ha : l'[l.length]? = some a) :
    l ++ [a] <+: l' := by
  rw [List.prefix_iff_eq_take] at h ⊢
  rw [List.length_append, List.length_singleton, List.take_add_one, ha, ← h]
  rfl

section Steps

variable {t : Traffic κ} {out : List (Nat × Chain κ)}

theorem tracks_init {num : Nat} (modern : Bool) (hpos : 0 < num) (hlt : num < 65536) (hdvd : num ∣ 65536) :
    Tracks (Traffic.init (κ := κ) num modern) [] := by
  refine ⟨inv_init modern hpos hlt, hdvd, by simp, ?_, ?_, ?_, List.Perm.refl _, List.Perm.refl _, ?_, ?_,
    List.prefix_rfl, List.prefix_rfl⟩
  · exact fun p hp => absurd hp List.not_mem_nil
  · exact fun f hf => absurd hf List.not_mem_nil
  · exact fun c hc => absurd hc List.not_mem_nil
  · show Conveys num _ (vr16 modern 0) 0 [] 0
    rw [vr16_zero]
    exact .init num _
  · show Conveys num _ (vr16 modern 0) 0 [] 0
    rw [vr16_zero]
    exact .init num _

theorem Tracks.lengths (h : Tracks t out) : t.vq.numFree.toNat + ((t.completed.length - t.returned.length) +
    t.inFlight.length + (t.posted.length - t.taken.length)) ≤ t.vq.num := by
  have hle := h.inv.chains_le
  have hlen := h.live.length_eq
  simp only [List.length_append, List.length_map, List.length_drop, List.length_range'] at hlen hle
  omega

/-- The driver posts a request, if there is room for it. -/
theorem Tracks.post (h : Tracks t out) (sg : Nat → VringSg) {outNum inNum : UInt32} {cookie : Option κ}
    (htotal : outNum + inNum ≠ 0) (hcookie : cookie ≠ none) :
    t.post sg outNum inNum cookie = .ok (-1, t) ∨
    ∃ t' c, t.post sg outNum inNum cookie = .ok (0, t') ∧ Tracks t' (out ++ [(t.posted.length, c)]) ∧
      t'.posted = t.posted ++ [⟨t.vq.freeHead, requestBufs sg outNum.toNat (outNum + inNum).toNat, cookie⟩] ∧
      t'.inFlight = t.inFlight ∧ t'.taken = t.taken ∧ t'.vq.num = t.vq.num ∧ t'.vq.modern = t.vq.modern := by
  by_cases hlt : t.vq.numFree.toNat < (outNum + inNum).toNat
  · refine .inl ?_
    simp only [Traffic.post, addBuf_refuse sg cookie hlt, bind, Except.bind]
    rfl
  right
  have hpos : 0 < (outNum + inNum).toNat := Nat.pos_of_ne_zero fun h0 => htotal (UInt32.toNat_inj.mp h0)
  obtain ⟨d', hadd, hinv⟩ := addBuf_inv sg cookie h.inv hpos (not_lt.mp hlt)
  have hhead : (t.vq.newChain sg outNum.toNat (outNum + inNum).toNat cookie).head = t.vq.freeHead.toNat :=
    newChain_head sg cookie hpos (not_lt.mp hlt)
  set total := outNum + inNum
  set c := t.vq.newChain sg outNum.toNat total.toNat cookie
  set posting : Posting κ := ⟨t.vq.freeHead, requestBufs sg outNum.toNat total.toNat, cookie⟩
  have hlens := h.lengths
  have hle := h.avail.le
  rw [List.length_map] at hle
  refine ⟨{ t with vq := t.vq.posted d' total cookie, posted := t.posted ++ [posting] }, c, ?_,
    ⟨?_, h.dvd, ?_, ?_, fun f hf => (h.flying f hf).append _, fun c hc => (h.landed c hc).append _, ?_, ?_, ?_, h.used,
      ?_, ?_⟩, rfl, rfl, rfl, rfl, rfl⟩
  · simp only [Traffic.post, hadd, bind, Except.bind, if_true]
    rfl
  · rw [List.map_append]
    exact hinv
  · intro e he
    rcases List.mem_append.mp he with he | he
    · obtain ⟨p, hp, hrest⟩ := h.named e he
      refine ⟨p, ?_, hrest⟩
      rw [List.getElem?_append_left (List.getElem?_eq_some_iff.mp hp).1, hp]
    · rw [List.mem_singleton.mp he]
      exact ⟨posting, by simp, hhead.symm, rfl, rfl⟩
  · intro p hp
    rcases List.mem_append.mp hp with hp | hp
    · exact h.cookies p hp
    · rw [List.mem_singleton.mp hp]
      exact hcookie
  · rw [List.length_append, List.length_singleton, Nat.sub_add_comm hle, List.range'_concat, List.map_append,
      ← List.append_assoc, Nat.one_mul, Nat.add_sub_cancel' hle]
    exact h.live.append_right _
  · rw [List.length_append, List.length_singleton, List.range_succ, List.map_append, ← List.append_assoc]
    exact h.parts.append_right _
  · rw [List.map_append]
    have hsend := h.avail.send h.dvd (by rw [List.length_map]; omega) (vr16 t.vq.modern t.vq.freeHead)
    have hidx : vr16 t.vq.modern (t.vq.posted d' total cookie).availIdx = vr16 t.vq.modern t.vq.availIdx + 1 :=
      vr16_vr16 ..
    show Conveys _ _ (vr16 t.vq.modern (t.vq.posted d' total cookie).availIdx) _ _ _
    rw [hidx]
    exact hsend
  · rw [List.map_append]
    exact h.taken.trans (List.prefix_append ..)
  · have hsame : t.completed.map (Traffic.result (t.posted ++ [posting])) =
        t.completed.map (Traffic.result t.posted) :=
      List.map_congr_left fun c hc => Traffic.result_append (h.landed c hc) _
    rw [hsame]
    exact h.returned

/-- The device takes an entry. -/
theorem Tracks.take (h : Tracks t out) : Tracks t.take out := by
  by_cases hidle : t.nextAvail = vr16 t.vq.modern t.vq.availIdx
  · rw [Traffic.take, if_pos hidle]
    exact h
  obtain ⟨a, ha, hring, havail⟩ := h.avail.receive h.dvd hidle
  rw [List.getElem?_map, Option.map_eq_some_iff] at ha
  obtain ⟨p, hp, rfl⟩ := ha
  have hlt := (List.getElem?_eq_some_iff.mp hp).1
  simp only [Traffic.take, hidle, if_false, hring, vr16_vr16]
  refine ⟨h.inv, h.dvd, h.named, h.cookies, ?_, h.landed, ?_, h.parts, ?_, h.used, ?_, h.returned⟩
  · intro f hf
    rcases List.mem_append.mp hf with hf | hf
    · exact h.flying f hf
    · rw [List.mem_singleton.mp hf, Taken.Of, hp]
      rfl
  · have hlive := h.live
    rw [show t.posted.length - t.taken.length = (t.posted.length - (t.taken.length + 1)) + 1 by omega,
      List.range'_succ] at hlive
    simpa using hlive
  · rw [List.length_append, List.length_singleton]
    exact havail
  · refine prefix_snoc h.taken ?_
    rw [List.getElem?_map, hp]
    rfl

/-- The device completes a chain. -/
theorem Tracks.complete (h : Tracks t out) (k : Nat) (len : UInt32) : Tracks (t.complete k len) out := by
  cases hk : t.inFlight[k]? with
  | none =>
    simp only [Traffic.complete, hk]
    exact h
  | some f =>
    obtain ⟨hlt, hf⟩ := List.getElem?_eq_some_iff.mp hk
    have hmem : f ∈ t.inFlight := List.mem_of_getElem? hk
    have hlens := h.lengths
    have hle := h.used.le
    rw [List.length_map] at hle
    simp only [Traffic.complete, hk]
    refine ⟨h.inv.device _ _, h.dvd, h.named, h.cookies, fun g hg => h.flying g (List.mem_of_mem_eraseIdx hg), ?_, ?_,
      ?_, h.avail, ?_, h.taken, ?_⟩
    · intro c hc
      rcases List.mem_append.mp hc with hc | hc
      · exact h.landed c hc
      · rw [List.mem_singleton.mp hc]
        exact h.flying f hmem
    · have herase : (f.request :: (t.inFlight.eraseIdx k).map Taken.request).Perm (t.inFlight.map Taken.request) := by
        rw [← List.map_cons, ← hf]
        exact (List.getElem_cons_eraseIdx_perm hlt).map _
      refine h.live.trans ?_
      rw [List.drop_append_of_le_length hle, List.map_append, List.append_assoc _ _ (List.map _ _)]
      exact (herase.symm.append_left _).append_right _
    · rw [List.take_append_of_le_length hle]
      exact h.parts
    · have hsend := h.used.send h.dvd (by rw [List.length_map]; omega) (usedElem t.vq.modern (f, len))
      have hidx : vr16 t.vq.modern (t.vq.putUsed f.head len).usedIdx = vr16 t.vq.modern t.vq.usedIdx + 1 :=
        vr16_vr16 ..
      show Conveys _ _ (vr16 t.vq.modern (t.vq.putUsed f.head len).usedIdx) _ _ _
      rw [hidx, List.map_append]
      exact hsend
    · rw [List.map_append]
      exact h.returned.trans (List.prefix_append ..)

/-- What `VirtQueue_GetBuf` finds: nothing, when everything was returned, or else the next completion. -/
theorem Tracks.getBuf (h : Tracks t out) :
    (t.returned.length = t.completed.length ∧ virtQueueGetBuf t.vq = .ok (⟨none, none⟩, t.vq)) ∨
    ∃ cookie len vq out', virtQueueGetBuf t.vq = .ok (⟨some cookie, some len⟩, vq) ∧
      Tracks { t with vq := vq, returned := t.returned ++ [(cookie, len)] } out' ∧ out'.length + 1 = out.length ∧
      vq.num = t.vq.num ∧ vq.modern = t.vq.modern := by
  by_cases hidle : t.vq.lastUsedIdx = vr16 t.vq.modern t.vq.usedIdx
  · refine .inl ⟨?_, getBuf_idle hidle⟩
    have hall := (h.used.last_eq_idx_iff h.inv.small).mp hidle
    rwa [List.length_map] at hall
  right
  obtain ⟨a, ha, hring, hused⟩ := h.used.receive h.dvd hidle
  rw [List.getElem?_map, Option.map_eq_some_iff] at ha
  obtain ⟨⟨f, len⟩, hc, rfl⟩ := ha
  obtain ⟨hlt, hget⟩ := List.getElem?_eq_some_iff.mp hc
  have hlive := h.live
  rw [List.drop_eq_getElem_cons hlt, hget] at hlive
  -- the outstanding chain of that completion
  obtain ⟨e, he, hreq⟩ := List.mem_map.mp (hlive.mem_iff.mpr (show f.request ∈ _ by simp))
  obtain ⟨p, hp, hhead, -, hcookie⟩ := h.named e he
  have hof : p.head = f.head := by
    have hf := h.landed _ (List.mem_of_getElem? hc)
    rw [Taken.Of, ← hreq, hp] at hf
    exact Option.some.inj hf
  obtain ⟨out₁, out₂, rfl⟩ := List.append_of_mem he
  have hrep : t.vq.Reports e.2.head len := by
    refine ⟨hidle, ?_, ?_⟩
    · rw [hring, ← hhead, hof]
      show (vr32 t.vq.modern (vr32 t.vq.modern f.head.toUInt32)).toNat = f.head.toNat
      rw [vr32_vr32, UInt16.toNat_toUInt32]
    · rw [hring]
      exact vr32_vr32 ..
  have hinv := h.inv
  rw [List.map_append, List.map_cons] at hinv
  obtain ⟨d', h', hres, hinv'⟩ := getBuf_inv hinv hrep
  obtain ⟨cookie, hsome⟩ := Option.ne_none_iff_exists'.mp (h.cookies p (List.mem_of_getElem? hp))
  rw [← hcookie, hsome] at hres
  refine ⟨cookie, len, _, out₁ ++ out₂, hres, ⟨?_, h.dvd, ?_, h.cookies, h.flying, h.landed, ?_, ?_, h.avail, ?_,
    h.taken, ?_⟩, by simp; omega, rfl, rfl⟩
  · rw [List.map_append]
    exact hinv'
  · intro e' he'
    refine h.named e' ?_
    simp only [List.mem_append, List.mem_cons] at he' ⊢
    tauto
  · rw [List.map_append, List.map_cons, hreq] at hlive
    rw [List.length_append, List.length_singleton, List.map_append]
    exact (List.perm_middle.symm.trans hlive).cons_inv
  · have hparts := h.parts
    rw [List.map_append, List.map_cons, hreq] at hparts
    rw [List.length_append, List.length_singleton, List.take_add_one, hc, List.map_append, List.map_append,
      List.append_assoc]
    refine (List.Perm.append_left _ ?_).trans hparts
    show (f.request :: (out₁.map Prod.fst ++ out₂.map Prod.fst)).Perm _
    exact List.perm_middle.symm
  · rw [List.length_append, List.length_singleton]
    exact hused
  · rw [List.map_append]
    refine prefix_snoc h.returned ?_
    rw [List.length_map, List.getElem?_map, hc, Option.map_some, Traffic.result, ← hreq, hp]
    simp only [Option.bind_eq_bind, Option.bind_some, hsome]

/-- The driver collects a completion, if there is one. -/
theorem Tracks.collect (h : Tracks t out) :
    t.collect = .ok (none, t) ∨
    ∃ cookie len t' out', t.collect = .ok (some (cookie, len), t') ∧ Tracks t' out' ∧ out'.length + 1 = out.length ∧
      t'.posted = t.posted ∧ t'.inFlight = t.inFlight ∧ t'.taken = t.taken ∧ t'.vq.num = t.vq.num ∧
      t'.vq.modern = t.vq.modern := by
  rcases h.getBuf with ⟨-, hnone⟩ | ⟨cookie, len, vq, out', hres, hnext, hlen, hnum, hmodern⟩
  · exact .inl (by simp only [Traffic.collect, hnone, bind, Except.bind])
  · refine .inr ⟨cookie, len, _, out', ?_, hnext, hlen, rfl, rfl, rfl, hnum, hmodern⟩
    simp only [Traffic.collect, hres, bind, Except.bind]

/-- There is nothing to collect when everything that was completed was returned. -/
theorem Tracks.collect_idle (h : Tracks t out) (hall : t.returned.length = t.completed.length) :
    t.collect = .ok (none, t) := by
  have hidle : t.vq.lastUsedIdx = vr16 t.vq.modern t.vq.usedIdx :=
    (h.used.last_eq_idx_iff h.inv.small).mpr (by rw [List.length_map]; exact hall)
  simp only [Traffic.collect, getBuf_idle hidle, bind, Except.bind]

/-- With no chain outstanding, everything was returned. -/
theorem Tracks.all_returned (h : Tracks t []) : t.returned.length = t.completed.length := by
  have hlen := h.live.length_eq
  have hle := h.returned.length_le
  simp only [List.length_append, List.length_map, List.length_drop, List.length_nil] at hlen hle
  omega

theorem post_histories {sg : Nat → VringSg} {outNum inNum : UInt32} {cookie : Option κ} {r : Int} {t' : Traffic κ}
    (h : t.post sg outNum inNum cookie = .ok (r, t')) : t'.completed = t.completed ∧ t'.returned = t.returned := by
  unfold Traffic.post at h
  cases hadd : virtQueueAddBuf t.vq sg outNum inNum cookie with
  | error f =>
    rw [hadd] at h
    cases h
  | ok res =>
    rw [hadd] at h
    simp only [bind, Except.bind] at h
    split at h
    · cases h
      exact ⟨rfl, rfl⟩
    · cases h
      exact ⟨rfl, rfl⟩

/-- A request that fits is posted. -/
theorem Tracks.post_of_room (h : Tracks t out) (sg : Nat → VringSg) {outNum inNum : UInt32} {cookie : Option κ}
    (htotal : outNum + inNum ≠ 0) (hcookie : cookie ≠ none) (hroom : (outNum + inNum).toNat ≤ t.vq.numFree.toNat) :
    ∃ t' c, t.post sg outNum inNum cookie = .ok (0, t') ∧ Tracks t' (out ++ [(t.posted.length, c)]) := by
  rcases h.post sg htotal hcookie with hres | ⟨t', c, hres, ht', -⟩
  · have hpos : 0 < (outNum + inNum).toNat := Nat.pos_of_ne_zero fun h0 => htotal (UInt32.toNat_inj.mp h0)
    obtain ⟨d', hadd, -⟩ := addBuf_inv sg cookie h.inv hpos hroom
    simp only [Traffic.post, hadd, bind, Except.bind, if_true, Except.ok.injEq, Prod.mk.injEq] at hres
    exact absurd hres.1 (by decide)
  · exact ⟨t', c, hres, ht'⟩

theorem take_vq (t : Traffic κ) : t.take.vq = t.vq := by
  unfold Traffic.take
  split <;> rfl

theorem complete_kept (t : Traffic κ) (k : Nat) (len : UInt32) :
    (t.complete k len).vq.num = t.vq.num ∧ (t.complete k len).vq.modern = t.vq.modern := by
  unfold Traffic.complete
  split <;> exact ⟨rfl, rfl⟩

theorem Tracks.step (h : Tracks t out) {s : RingStep κ} (hs : s.Proper) :
    ∃ t' out', t.step s = .ok t' ∧ Tracks t' out' ∧ t'.vq.num = t.vq.num ∧ t'.vq.modern = t.vq.modern := by
  cases s with
  | add sg outNum inNum cookie =>
    rcases h.post sg hs.1 hs.2 with hres | ⟨t', c, hres, h', -, -, -, hkept⟩
    · exact ⟨t, out, by rw [Traffic.step, hres]; rfl, h, rfl, rfl⟩
    · exact ⟨t', _, by rw [Traffic.step, hres]; rfl, h', hkept⟩
  | get =>
    rcases h.collect with hres | ⟨cookie, len, t', out', hres, h', -, -, -, -, hkept⟩
    · exact ⟨t, out, by rw [Traffic.step, hres]; rfl, h, rfl, rfl⟩
    · exact ⟨t', out', by rw [Traffic.step, hres]; rfl, h', hkept⟩
  | take => exact ⟨t.take, out, rfl, h.take, congrArg Virtqueue.num (take_vq t), congrArg Virtqueue.modern (take_vq t)⟩
  | complete k len => exact ⟨t.complete k len, out, rfl, h.complete k len, complete_kept t k len⟩

theorem Tracks.run : ∀ (steps : List (RingStep κ)) {t : Traffic κ} {out : List (Nat × Chain κ)}, Tracks t out →
    (∀ s ∈ steps, s.Proper) →
    ∃ t' out', t.run steps = .ok t' ∧ Tracks t' out' ∧ t'.vq.num = t.vq.num ∧ t'.vq.modern = t.vq.modern
  | [], t, out, h, _ => ⟨t, out, rfl, h, rfl, rfl⟩
  | s :: steps, _, _, h, hs => by
    obtain ⟨t₁, out₁, hstep, h₁, hnum₁, hmodern₁⟩ := h.step (hs s List.mem_cons_self)
    obtain ⟨t', out', hrun, h', hnum', hmodern'⟩ := Tracks.run steps h₁ fun s' hs' => hs s' (List.mem_cons_of_mem _ hs')
    refine ⟨t', out', ?_, h', hnum'.trans hnum₁, hmodern'.trans hmodern₁⟩
    rw [Traffic.run, List.foldlM_cons, hstep]
    exact hrun

theorem Tracks.exact (h : Tracks t out) : t.Exact := by
  refine ⟨h.taken, fun hidle => ?_, h.returned, fun g vq hres hnone => ?_⟩
  · have hall := (h.avail.last_eq_idx_iff h.inv.small).mp hidle
    rwa [List.length_map] at hall
  · rcases h.getBuf with ⟨hall, -⟩ | ⟨cookie, len, vq', out', hget, -⟩
    · exact hall
    · rw [hget, Except.ok.injEq, Prod.mk.injEq] at hres
      rw [← hres.1] at hnone
      cases hnone

theorem Tracks.represents (h : Tracks t out) : t.Represents out := ⟨h.inv.rep, h.named, h.parts⟩

/-- `VirtQueue_GetBuf` returns what belongs to the next completion. -/
theorem Tracks.getBuf_next (h : Tracks t out) {f : Taken} {len : UInt32}
    (hnext : t.completed[t.returned.length]? = some (f, len)) :
    ∃ p cookie vq, t.posted[f.request]? = some p ∧ p.cookie = some cookie ∧
      virtQueueGetBuf t.vq = .ok (⟨some cookie, some len⟩, vq) := by
  rcases h.getBuf with ⟨hall, -⟩ | ⟨cookie, len', vq, out', hget, hnew, -⟩
  · exact absurd (List.getElem?_eq_some_iff.mp hnext).1 (not_lt.mpr hall.ge)
  have hprefix : t.returned.map some ++ [some (cookie, len')] <+: t.completed.map (Traffic.result t.posted) := by
    have hreturned := hnew.returned
    rwa [List.map_append] at hreturned
  have hat : (t.completed.map (Traffic.result t.posted))[t.returned.length]? = some (some (cookie, len')) := by
    rw [List.prefix_iff_getElem?.mp hprefix t.returned.length (by simp)]
    simp
  rw [List.getElem?_map, hnext, Option.map_some, Option.some.injEq] at hat
  obtain ⟨p, hp, hrest⟩ := Option.bind_eq_some_iff.mp hat
  obtain ⟨cookie', hcookie, hpair⟩ := Option.bind_eq_some_iff.mp hrest
  cases hpair
  exact ⟨p, _, vq, hp, hcookie, hget⟩

/-- `VirtQueue_AddBuf` refuses what does not fit, and nothing else. -/
theorem Tracks.addBuf (h : Tracks t out) (sg : Nat → VringSg) {outNum inNum : UInt32} (cookie : κ)
    (hpos : 1 ≤ outNum.toNat + inNum.toNat) (hlt : outNum.toNat + inNum.toNat < 65536) :
    (t.vq.num - (out.map (·.2.bufs.length)).sum < outNum.toNat + inNum.toNat ∧
      virtQueueAddBuf t.vq sg outNum inNum (some cookie) = .ok (-1, t.vq)) ∨
    (outNum.toNat + inNum.toNat ≤ t.vq.num - (out.map (·.2.bufs.length)).sum ∧
      ∃ vq, virtQueueAddBuf t.vq sg outNum inNum (some cookie) = .ok (0, vq)) := by
  have hfree : t.vq.num - (out.map (·.2.bufs.length)).sum = t.vq.numFree.toNat := by
    have hcount := h.inv.rep.numFree
    rw [List.map_map] at hcount
    exact Nat.sub_eq_of_eq_add hcount.symm
  have htotal := toNat_total hlt
  rw [hfree]
  by_cases hfits : t.vq.numFree.toNat < outNum.toNat + inNum.toNat
  · exact .inl ⟨hfits, addBuf_refuse sg _ (htotal.symm ▸ hfits)⟩
  · obtain ⟨d', hadd, -⟩ := addBuf_inv sg (some cookie) h.inv (htotal.symm ▸ hpos) (htotal.symm ▸ not_lt.mp hfits)
    exact .inr ⟨not_lt.mp hfits, _, hadd⟩

end Steps

/-! ## Runs -/

/-- **The rings lose and duplicate nothing**, in any interleaving of any length, if every request has a buffer and a
cookie. -/
theorem exact_run {n : Nat} (hn : n ≤ 15) (modern : Bool) (steps : List (RingStep κ)) (hs : ∀ s ∈ steps, s.Proper) :
    ∃ t, (Traffic.init (2 ^ n) modern).run steps = .ok t ∧ t.Exact := by
  have hle : 2 ^ n ≤ 2 ^ 15 := Nat.pow_le_pow_right (by decide) hn
  have hdvd : 2 ^ n ∣ 65536 := pow_dvd_pow 2 (show n ≤ 16 by omega)
  obtain ⟨t, out, hrun, h, -⟩ := Tracks.run steps (tracks_init modern (Nat.two_pow_pos n) (by omega) hdvd) hs
  exact ⟨t, hrun, h.exact⟩

/-- On a queue of two, two requests that the device completes in the other order. -/
theorem exact_run_swapped :
    let steps : List (RingStep Nat) :=
      [.add (fun _ => ⟨0, 0⟩) 1 0 (some 7), .add (fun _ => ⟨0, 0⟩) 0 1 (some 8), .take, .take, .complete 1 64, .get,
        .complete 0 0, .get]
    ∃ t, (Traffic.init (2 ^ 1) true).run steps = .ok t ∧ t.returned = [(8, 64), (7, 0)] ∧ t.Exact := by
  intro steps
  have hs : ∀ s ∈ steps, s.Proper := by
    simp only [steps, List.mem_cons, List.not_mem_nil, or_false, forall_eq_or_imp, forall_eq, RingStep.Proper]
    decide
  obtain ⟨t, hrun, h⟩ := exact_run (n := 1) (by decide) true steps hs
  refine ⟨t, hrun, ?_, h⟩
  cases hrun
  rfl

/-- On queues of two. Requests of no, one and no buffers post the heads 0, 0 and 1, of which the third is written over
the first, so the device takes head 1 first. A request with a `NULL` cookie is completed, and `VirtQueue_GetBuf` says
`NULL`. -/
theorem overwritten_and_null :
    (∃ t : Traffic Unit, (Traffic.init 2 false).run [.add (fun _ => ⟨0, 0⟩) 0 0 (some ()),
        .add (fun _ => ⟨0, 0⟩) 1 0 (some ()), .add (fun _ => ⟨0, 0⟩) 0 0 (some ()), .take] = .ok t ∧
      t.posted.map Posting.head = [0, 0, 1] ∧ t.taken = [1] ∧ ¬ t.Exact) ∧
    (∃ t : Traffic Unit, (Traffic.init 2 false).run [.add (fun _ => ⟨0, 0⟩) 1 0 none, .take, .complete 0 64] = .ok t ∧
      t.returned.length = 0 ∧ t.completed.length = 1 ∧ (∃ len vq, virtQueueGetBuf t.vq = .ok (⟨none, len⟩, vq)) ∧
      ¬ t.Exact) := by
  refine ⟨⟨_, rfl, by decide, by decide, fun h => ?_⟩, ⟨_, rfl, by decide, by decide, ⟨_, _, rfl⟩, fun h => ?_⟩⟩
  · exact absurd h.taken (by decide)
  · exact absurd (h.null _ _ rfl rfl) (by decide)

/-- **The queue represents the requests in flight**, in any interleaving of any length. The descriptors are the free
list and the chains, each chain as the driver gave it; `VirtQueue_AddBuf` refuses, changing nothing, what does not fit,
and `VirtQueue_GetBuf` returns the cookie and the length of the next completion, or `NULL` when there is none. -/
theorem run_represents {num : Nat} (hdvd : num ∣ 65536) (hnum : num ≤ 32768) (modern : Bool) (steps : List (RingStep κ))
    (hs : ∀ s ∈ steps, s.Sized) :
    ∃ t out, (Traffic.init num modern).run steps = .ok t ∧ t.Represents out ∧ t.vq.num = num ∧ t.vq.modern = modern ∧
      (∀ (sg : Nat → VringSg) (outNum inNum : UInt32) (cookie : κ), 1 ≤ outNum.toNat + inNum.toNat →
        outNum.toNat + inNum.toNat < 65536 →
        (num - (out.map (·.2.bufs.length)).sum < outNum.toNat + inNum.toNat ∧
          virtQueueAddBuf t.vq sg outNum inNum (some cookie) = .ok (-1, t.vq)) ∨
        (outNum.toNat + inNum.toNat ≤ num - (out.map (·.2.bufs.length)).sum ∧
          ∃ vq, virtQueueAddBuf t.vq sg outNum inNum (some cookie) = .ok (0, vq))) ∧
      (∀ f len, t.completed[t.returned.length]? = some (f, len) → ∃ p cookie vq, t.posted[f.request]? = some p ∧
        p.cookie = some cookie ∧ virtQueueGetBuf t.vq = .ok (⟨some cookie, some len⟩, vq)) ∧
      (t.returned.length = t.completed.length → virtQueueGetBuf t.vq = .ok (⟨none, none⟩, t.vq)) := by
  have hpos : 0 < num := Nat.pos_of_dvd_of_pos hdvd (by decide)
  obtain ⟨t, out, hrun, h, hsame, hmodern⟩ :=
    Tracks.run steps (tracks_init modern hpos (by omega) hdvd) fun s hmem => (hs s hmem).proper
  have hsize : t.vq.num = num := hsame
  refine ⟨t, out, hrun, h.represents, hsize, hmodern, fun sg outNum inNum cookie h1 h2 => ?_,
    fun f len hnext => h.getBuf_next hnext, fun hall => ?_⟩
  · rw [← hsize]
    exact h.addBuf sg cookie h1 h2
  · exact getBuf_idle ((h.used.last_eq_idx_iff h.inv.small).mpr (by rw [List.length_map]; exact hall))

/-- On a modern queue of four, of two requests the second was completed and returned. -/
theorem run_represents_four :
    let steps : List (RingStep Nat) :=
      [.add (fun n => ⟨4096 * UInt32.ofNat n, 64⟩) 1 1 (some 7), .add (fun _ => ⟨0, 0⟩) 1 0 (some 8), .take, .take,
        .complete 1 64, .get]
    ∃ t out, (Traffic.init 4 true).run steps = .ok t ∧ t.returned = [(8, 64)] ∧ t.Represents out := by
  intro steps
  have hs : ∀ s ∈ steps, s.Sized := by
    simp only [steps, List.mem_cons, List.not_mem_nil, or_false, forall_eq_or_imp, forall_eq, RingStep.Sized]
    decide
  obtain ⟨t, out, hrun, h, -⟩ := run_represents (by decide : 4 ∣ 65536) (by decide) true steps hs
  refine ⟨t, out, hrun, ?_, h⟩
  cases hrun
  rfl

/-! ## A queue of three -/

section Three

variable {n : UInt16} {t : Traffic Nat}

/-- One request that is taken, completed and returned. -/
def turn : List (RingStep Nat) := [.add (fun _ => ⟨0, 0⟩) 1 0 (some 7), .take, .complete 0 0, .get]

/-- Two requests, both completed before `VirtQueue_GetBuf` is called twice. -/
def pair : List (RingStep Nat) :=
  [.add (fun _ => ⟨0, 0⟩) 1 0 (some 7), .take, .add (fun _ => ⟨0, 0⟩) 1 0 (some 8), .take, .complete 0 64,
    .complete 0 65, .get, .get]

theorem turn_sized : ∀ s ∈ turn, s.Sized := by
  simp only [turn, List.mem_cons, List.not_mem_nil, or_false, forall_eq_or_imp, forall_eq, RingStep.Sized]
  decide

theorem pair_sized : ∀ s ∈ pair, s.Sized := by
  simp only [pair, List.mem_cons, List.not_mem_nil, or_false, forall_eq_or_imp, forall_eq, RingStep.Sized]
  decide

/-- A legacy queue of three at place `n` of both rings, with nothing under way. -/
structure Traffic.At (n : UInt16) (t : Traffic Nat) : Prop where
  vq : t.vq = { initQueue 3 false with availIdx := n, usedIdx := n, lastUsedIdx := n }
  nextAvail : t.nextAvail = n
  inFlight : t.inFlight = []

theorem ne_add_two (n : UInt16) : n ≠ n + 1 + 1 := by
  intro h
  have hzero := congrArg (· - n) h
  simp [UInt16.add_assoc] at hzero

/-- A turn brings both rings one place on. -/
theorem Traffic.At.turn (h : t.At n) : ∃ t', t.run turn = .ok t' ∧ t'.At (n + 1) := by
  obtain ⟨vq, next, flying, posted, taken, completed, returned⟩ := t
  obtain ⟨hvq, hnext, hflying⟩ := h
  dsimp only at hvq hnext hflying
  subst hvq hnext hflying
  simp [Virtio9P.turn, Traffic.run, Traffic.step, Traffic.post, Traffic.take, Traffic.complete, Traffic.collect,
    virtQueueAddBuf, initQueue, virtQueueAllocate, addBufLoop, Virtqueue.descAt, Virtqueue.setDesc, Virtqueue.setCookie,
    bind, Except.bind, vr16, vr32, vr64, descFlags, Except.map, Virtqueue.putUsed, virtQueueGetBuf, freeRequest,
    freeChain, Virtqueue.pushFree, Virtqueue.retire]
  refine ⟨_, rfl, ?_, rfl, rfl⟩
  simp [initQueue, virtQueueAllocate]

theorem turns_at (k : Nat) : ∃ t, (Traffic.init 3 false).run (List.replicate k Virtio9P.turn).flatten = .ok t ∧
    t.At (UInt16.ofNat k) := by
  induction k with
  | zero => exact ⟨_, rfl, rfl, rfl, rfl⟩
  | succ k ih =>
    obtain ⟨t, hrun, h⟩ := ih
    obtain ⟨t', hturn, h'⟩ := h.turn
    refine ⟨t', ?_, by rwa [UInt16.ofNat_add]⟩
    rw [List.replicate_succ', List.flatten_append, List.flatten_singleton, Traffic.run, List.foldlM_append]
    unfold Traffic.run at hrun
    rw [hrun]
    exact hturn

/-- Where the next two places are one slot, the second completion is found twice, and its descriptor freed twice. -/
theorem Traffic.At.pair (h : t.At n) (hslot : n.toNat % 3 = 0) (hsame : (n + 1).toNat % 3 = 0) :
    ∃ t', t.run pair = .ok t' ∧ t'.vq.freeList = [1, 1, 1] := by
  obtain ⟨vq, next, flying, posted, taken, completed, returned⟩ := t
  obtain ⟨hvq, hnext, hflying⟩ := h
  dsimp only at hvq hnext hflying
  subst hvq hnext hflying
  simp [-UInt16.toNat_add, Virtio9P.pair, Traffic.run, Traffic.step, Traffic.post, Traffic.take, Traffic.complete,
    Traffic.collect, virtQueueAddBuf, initQueue, virtQueueAllocate, addBufLoop, Virtqueue.descAt, Virtqueue.setDesc,
    Virtqueue.setCookie, bind, Except.bind, vr16, vr32, vr64, descFlags, Except.map, ne_add_two, hslot, hsame,
    Virtqueue.putUsed, virtQueueGetBuf, freeRequest, freeChain, Virtqueue.pushFree, Virtqueue.retire]
  refine ⟨_, rfl, ?_⟩
  simp [Virtqueue.freeList, follow]

/-- On a queue of three, 65535 requests go through, and then two are completed, each once. Their used entries are at the
places 65535 and 0, which are one slot: the second is found twice, and one descriptor is all of the free list. -/
theorem slot_shared : ∃ steps : List (RingStep Nat), (∀ s ∈ steps, s.Sized) ∧
    ∃ t, (Traffic.init 3 false).run steps = .ok t ∧ t.vq.freeList = [1, 1, 1] ∧ ∀ out, ¬ t.Represents out := by
  obtain ⟨t, hrun, h⟩ := turns_at 65535
  obtain ⟨t', hpair, hfree⟩ := h.pair (by decide) (by decide)
  refine ⟨(List.replicate 65535 Virtio9P.turn).flatten ++ Virtio9P.pair, fun s hs => ?_, t', ?_, hfree,
    fun out hrep => ?_⟩
  · rcases List.mem_append.mp hs with hs | hs
    · obtain ⟨l, hl, hs⟩ := List.mem_flatten.mp hs
      rw [List.eq_of_mem_replicate hl] at hs
      exact turn_sized s hs
    · exact pair_sized s hs
  · rw [Traffic.run, List.foldlM_append]
    unfold Traffic.run at hrun
    rw [hrun]
    exact hpair
  · have hnodup := hrep.rep.freeNodup
    rw [hfree] at hnodup
    exact absurd hnodup (by decide)

end Three

end Virtio9P
