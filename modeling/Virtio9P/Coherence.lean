import Virtio9P.Replies
import Virtio9P.Transport.Wire

/-!
# The wire refines the machine

A `Wire` is in step with its machine when memory holds what the device wrote into `rx_buf` and what the machine has in
`tx_buf` and `flush_buf` (`Wire.InStep`). The cache must not write to these lines on its own: those of `rx_buf` are
always clean, and those of a message are clean again once it was written back. It does not matter
whether chains are outstanding.

* `act_sim`: then what the device does to the memory is what it does to the buffers of `Machine`.
* `cpuStores_rule`, `cacheFlush_rule`: a message that is stored and written back is in memory.
* `cacheInvalidate_rule`: what is read of lines that were given up is what is in memory.
* `clockLoop_rule`: a loop that reads the clock every 4096 looks is a loop of a number of looks.
* `poll_refines`, `drain_refines`: the two halves of `V9P_Transact`.
-/

namespace Virtio9P

open Lib

/-! ## Memory and buffers -/

/-- The messages on the queue fit the buffers that they are in. -/
structure Line.Fits (q : Line) : Prop where
  aligned : q.sent.length = q.traffic.posted.length
  within : ∀ {r head bufs cookie}, q.traffic.posted[r]? = some ⟨head, bufs, some cookie⟩ →
    (q.sent.getD r []).length ≤ Buffers.capacity cookie

theorem Line.Fits.frame {q q' : Line} (h : q.Fits) (hsent : q'.sent = q.sent)
    (hposted : q'.traffic.posted = q.traffic.posted) : q'.Fits := by
  refine ⟨by rw [hsent, hposted, h.aligned], fun hat => ?_⟩
  rw [hposted] at hat
  rw [hsent]
  exact h.within hat

/-- `rx` is in the receive buffer, and the processor reads `texts` in the two others. The cache writes to none of them
but the lines `dirty`. -/
structure Buffers.Holds (lay : Buffers) (dirty : Set UInt32) (texts : Cookie → Mem) (rx : Mem)
    (mem : Cached UInt32 UInt32 UInt8) : Prop where
  rxClean : Cached.Clean lay.rxLines mem
  rxBytes : ∀ i < p9MSize.toNat, mem.ram (lay.rx + UInt32.ofNat i) = rx i
  clean : ∀ cookie, Cached.Clean (lay.linesFor cookie \ dirty) mem
  synced : ∀ cookie, Cached.Synced lineOf (lay.linesFor cookie) mem
  reads : ∀ cookie, ∀ i < Buffers.capacity cookie,
    mem.read lineOf (lay.base cookie + UInt32.ofNat i) = texts cookie i

/-- The wire is in step with its machine, with `rx` in the receive buffer. -/
structure Wire.InStep (lay : Buffers) (rx : Mem) (w : Wire) : Prop where
  holds : lay.Holds ∅ w.m.texts rx w.mem
  fits : ∀ q, w.m.vq = some q → q.Fits

/-- Where a call stands: its machine, the buffers, when the deadline was set, and a time that has passed. -/
structure Wire.Stands (lay : Buffers) (dirty : Set UInt32) (texts : Cookie → Mem) (m : Machine) (rx : Mem)
    (since t : Nat) (w : Wire) : Prop where
  holds : lay.Holds dirty texts rx w.mem
  fits : ∀ q, m.vq = some q → q.Fits
  machine : w.m = m
  since_eq : w.since = since
  later : t ≤ w.t

/-- The call is between two messages. -/
def Wire.Rests (lay : Buffers) (m : Machine) (rx : Mem) (since t : Nat) : Wire → Prop :=
  Wire.Stands lay ∅ m.texts m rx since t

theorem Wire.Rests.inStep {lay : Buffers} {m : Machine} {rx : Mem} {since t : Nat} {w : Wire}
    (h : w.Rests lay m rx since t) : w.InStep lay rx := by
  obtain rfl := h.machine
  exact ⟨h.holds, h.fits⟩

theorem Wire.InStep.rests {lay : Buffers} {rx : Mem} {w₀ : Wire} (h : w₀.InStep lay rx) :
    ∀ w, w = w₀ → w.Rests lay w₀.m rx w₀.since w₀.t := by
  rintro w rfl
  exact ⟨h.holds, h.fits, rfl, rfl, le_rfl⟩

section Whims

variable {lay : Buffers} {dirty dirty' : Set UInt32} {texts : Cookie → Mem} {rx : Mem}
  {mem : Cached UInt32 UInt32 UInt8} {cookie : Cookie}

theorem Buffers.lineOf_mem (lay : Buffers) {i : Nat} (hi : i < Buffers.capacity cookie) :
    lineOf (lay.base cookie + UInt32.ofNat i) ∈ lay.linesFor cookie := lineOf_mem_linesOf _ hi

theorem Buffers.Holds.mono (h : lay.Holds dirty texts rx mem) (hsub : dirty ⊆ dirty') : lay.Holds dirty' texts rx mem :=
  ⟨h.rxClean, h.rxBytes, fun cookie => (h.clean cookie).mono (Set.sdiff_subset_sdiff_right hsub), h.synced, h.reads⟩

theorem Buffers.Holds.whims (h : lay.Holds dirty texts rx mem) (ws : List (Whim UInt32)) :
    lay.Holds dirty texts rx (mem.whims lineOf ws) where
  rxClean := Cached.clean_whims h.rxClean ws
  rxBytes := fun i hi => (Cached.ram_whims h.rxClean ws (lineOf_mem_linesOf _ hi)).trans (h.rxBytes i hi)
  clean := fun cookie => Cached.clean_whims (h.clean cookie) ws
  synced := fun cookie => Cached.synced_whims (h.synced cookie) ws
  reads := fun cookie i hi => (Cached.read_whims (h.synced cookie) ws (lay.lineOf_mem hi)).trans (h.reads cookie i hi)

theorem Wire.Stands.whims {w : Wire} {m : Machine} {since t t' : Nat} (h : w.Stands lay dirty texts m rx since t)
    (ws : List (Whim UInt32)) (ht : w.t ≤ t') :
    Wire.Stands lay dirty texts m rx since t { w with mem := w.mem.whims lineOf ws, t := t' } :=
  ⟨h.holds.whims ws, h.fits, h.machine, h.since_eq, h.later.trans ht⟩

/-- Between two messages they are in memory. -/
theorem Buffers.Holds.ram_eq (h : lay.Holds ∅ texts rx mem) {i : Nat} (hi : i < Buffers.capacity cookie) :
    mem.ram (lay.base cookie + UInt32.ofNat i) = texts cookie i := by
  have hclean : Cached.Clean (lay.linesFor cookie) mem := by
    have := h.clean cookie
    rwa [Set.sdiff_empty] at this
  exact (Cached.read_eq_ram hclean (h.synced cookie) (lay.lineOf_mem hi)).symm.trans (h.reads cookie i hi)

end Whims

/-! ## The device -/

section Device

variable {lay : Buffers} {texts : Cookie → Mem} {rx : Mem} {mem : Cached UInt32 UInt32 UInt8} {cookie : Cookie}
  {q : Line}

/-- The lines of a message are not lines of the receive buffer. -/
theorem Buffers.linesFor_rx (lay : Buffers) (cookie : Cookie) : Disjoint (lay.linesFor cookie) lay.rxLines := by
  cases cookie with
  | tx => exact lay.tx_rx
  | flush => exact lay.flush_rx

theorem Buffers.lineOf_notMem (lay : Buffers) {a : UInt32} (h : lineOf a ∈ lay.linesFor cookie) :
    lineOf a ∉ lay.rxLines :=
  Set.disjoint_left.mp (lay.linesFor_rx cookie) h

/-- The device writes to the receive buffer only. -/
theorem store_rx {bs : List UInt8} (hlen : bs.length ≤ p9MSize.toNat) {a : UInt32} (ha : lineOf a ∈ lay.linesFor cookie)
    (ram : Ram) : ram.store lay.rx bs a = ram a :=
  Ram.patch_of_le _ _ _ fun hlt => gap_of_lineOf (lay.lineOf_notMem ha) (hlt.trans_le hlen)

/-- A reply is written into the buffer. -/
theorem Buffers.Holds.store_rx {dirty : Set UInt32} (h : lay.Holds dirty texts rx mem) (bs : List UInt8) :
    lay.Holds dirty texts (rx.write 0 bs) { mem with ram := Ram.store mem.ram lay.rx (bs.take p9MSize.toNat) } := by
  have hlen : (bs.take p9MSize.toNat).length ≤ p9MSize.toNat := List.length_take_le ..
  refine ⟨h.rxClean, fun i hi => ?_, h.clean, fun cookie => ?_, fun cookie i hi => ?_⟩
  · have hi' : i < 4294967296 := hi.trans (by decide)
    show Ram.store mem.ram lay.rx (bs.take p9MSize.toNat) (lay.rx + UInt32.ofNat i) = _
    unfold Ram.store
    by_cases hin : i < bs.length
    · have htake : i < (bs.take p9MSize.toNat).length := List.length_take .. ▸ lt_min hi hin
      have hwrite := rx.write_add 0 hin
      rw [Nat.zero_add] at hwrite
      rw [Ram.patch_at _ _ _ htake hi', hwrite, List.getD_eq_getElem _ _ htake, List.getElem_take]
    · have hbehind : ¬ i < (bs.take p9MSize.toNat).length := fun hlt => hin (hlt.trans_le (List.length_take_le' ..))
      rw [Ram.patch_of_le _ _ _ (by rwa [gap_add _ hi']), Mem.write_of_ge _ (by omega)]
      exact h.rxBytes i hi
  · exact Cached.synced_ram (h.synced cookie) fun a ha => Virtio9P.store_rx hlen ha _
  · refine Eq.trans ?_ (h.reads cookie i hi)
    unfold Cached.read
    dsimp only
    rw [Virtio9P.store_rx hlen (lay.lineOf_mem hi)]

/-- The device finds the messages that the machine has in its buffers. -/
theorem message_eq (h : lay.Holds ∅ texts rx mem) (hfits : q.Fits) (r : Nat) :
    q.message (lay.texts mem.ram) r = q.message texts r := by
  have hbuffered : q.buffered (lay.texts mem.ram) r = q.buffered texts r := by
    unfold Line.buffered
    cases hat : q.traffic.posted[r]? with
    | none => rfl
    | some p =>
      obtain ⟨head, bufs, _ | cookie⟩ := p
      · rfl
      · refine Mem.read_congr fun i _ hi => h.ram_eq ?_
        have hle := hfits.within hat
        omega
  unfold Line.message
  rw [hbuffered]

theorem act_posted (q : Line) (texts : Cookie → Mem) (rx : Mem) (a : Act) :
    (q.act texts rx a).1.sent = q.sent ∧ (q.act texts rx a).1.traffic.posted = q.traffic.posted := by
  have hacted := q.acted texts rx a
  generalize (q.act texts rx a).1 = q' at hacted
  generalize (q.act texts rx a).2 = rx' at hacted
  cases hacted with
  | idle => exact ⟨rfl, rfl⟩
  | take => exact ⟨rfl, (take_histories q.traffic).1⟩
  | fetch hk => exact ⟨rfl, rfl⟩
  | complete hk hans => exact ⟨rfl, (complete_histories hk _).1⟩

/-- **The device does to the memory what it does to the buffers.** -/
theorem act_sim (h : lay.Holds ∅ texts rx mem) (hfits : q.Fits) (a : Act) :
    (lay.act q mem.ram a).1 = (q.act texts rx a).1 ∧
      lay.Holds ∅ texts (q.act texts rx a).2 { mem with ram := (lay.act q mem.ram a).2 } := by
  cases a with
  | take => exact ⟨rfl, h⟩
  | fetch k =>
    simp only [Line.act, Buffers.act]
    cases q.traffic.inFlight[k]? with
    | none => exact ⟨rfl, h⟩
    | some c =>
      simp only [message_eq h hfits]
      exact ⟨trivial, h⟩
  | complete k answer =>
    simp only [Line.act, Buffers.act]
    cases q.traffic.inFlight[k]? with
    | none => exact ⟨rfl, h⟩
    | some c =>
      simp only [message_eq h hfits]
      exact ⟨trivial, h.store_rx _⟩

theorem acts_sim (hw : Hardware) {w : Wire} (h : lay.Holds ∅ texts rx w.mem) (hfits : q.Fits) (as : List Act) :
    (lay.acts hw q w as).1 = (q.acts texts rx as).1 ∧ (q.acts texts rx as).1.Fits ∧
      lay.Holds ∅ texts (q.acts texts rx as).2 (lay.acts hw q w as).2.mem ∧ w.t ≤ (lay.acts hw q w as).2.t ∧
      (lay.acts hw q w as).2.since = w.since := by
  induction as generalizing q rx w with
  | nil => exact ⟨rfl, hfits, h, le_rfl, rfl⟩
  | cons a as ih =>
    obtain ⟨hline, hholds⟩ := act_sim (h.whims (hw.whims w.t)) hfits a
    obtain ⟨hsent, hposted⟩ := act_posted q texts rx a
    have hline' : (lay.act q (w.elapse hw).mem.ram a).1 = (q.act texts rx a).1 := hline
    simp only [Buffers.acts, Line.acts]
    rw [hline']
    obtain ⟨hline, hfits, hholds, ht, hsince⟩ := ih (w := { w.elapse hw with
      mem := { (w.elapse hw).mem with ram := (lay.act q (w.elapse hw).mem.ram a).2 } }) hholds
      (hfits.frame hsent hposted)
    exact ⟨hline, hfits, hholds, (Nat.le_succ _).trans ht, hsince⟩

end Device

/-! ## Looks -/

section Look

variable {hw : Hardware} {lay : Buffers} {world : World} {m : Machine} {since t : Nat}

/-- **A look at the used ring.** -/
theorem wireLook_rule (rx : Mem) : Triple (Wire.Rests lay m rx since t) (wireLook hw lay world)
    (fun got w => ∃ rx', look world rx m = .ok (got, rx') w.m ∧ w.Rests lay w.m rx' since t)
    fun e w => look world rx m = .error e w.m ∧ e ≠ .hang := by
  intro w h
  obtain rfl := h.machine
  cases hq : w.m.vq with
  | none =>
    have hwire : wireLook hw lay world w = .error .nullQueue w := by
      refine run_bind_error ?_
      unfold onMachine
      rw [theQueue_none hq]
    rw [hwire]
    exact ⟨run_bind_error (theQueue_none hq), by decide⟩
  | some q =>
    have hqueue : onMachine theQueue w = .ok q w := by
      unfold onMachine
      rw [theQueue_eq hq]
    have hsim : ∃ q' rx' w', (if w.m.Live then lay.acts hw q w (world.acts w.m.now) else (q, w)) = (q', w') ∧
        (if w.m.Live then q.acts w.m.texts rx (world.acts w.m.now) else (q, rx)) = (q', rx') ∧ q'.Fits ∧
        lay.Holds ∅ w.m.texts rx' w'.mem ∧ w.t ≤ w'.t ∧ w'.since = w.since := by
      split
      · obtain ⟨hline, hrest⟩ := acts_sim hw h.holds (h.fits q hq) (world.acts w.m.now)
        exact ⟨_, _, _, Prod.ext hline rfl, rfl, hrest⟩
      · exact ⟨q, rx, w, rfl, rfl, h.fits q hq, h.holds, le_rfl, rfl⟩
    obtain ⟨q', rx', w', hwire, habs, hfits, hholds, ht, hsince⟩ := hsim
    unfold wireLook
    rw [run_bind_ok hqueue, get_bind]
    simp only [hwire]
    cases hcollect : q'.traffic.collect with
    | error f =>
      show look world rx w.m = .error (.queue f) w.m ∧ Fault.queue f ≠ .hang
      unfold look
      rw [run_bind_ok (theQueue_eq hq), get_bind]
      simp only [habs, hcollect]
      exact ⟨rfl, by simp⟩
    | ok r =>
      obtain ⟨got, t⟩ := r
      have hlook : look world rx w.m = .ok (got.map Prod.snd, rx')
          { w.m with now := w.m.now + 1, vq := some { q' with traffic := t } } := by
        unfold look
        rw [run_bind_ok (theQueue_eq hq), get_bind]
        simp only [habs, hcollect]
        rfl
      refine ⟨rx', hlook, hholds, fun q'' hq'' => ?_, rfl, hsince.trans h.since_eq, h.later.trans ht⟩
      cases hq''
      exact hfits.frame rfl (collect_histories hcollect).1

end Look

/-! ## Cache instructions -/

section Cache

variable {hw : Hardware} {lay : Buffers} {dirty : Set UInt32} {texts : Cookie → Mem} {m : Machine} {rx : Mem}
  {since t : Nat} {E : Fault → Wire → Prop}

theorem Wire.Stands.elapse {w : Wire} (h : w.Stands lay dirty texts m rx since t) :
    (w.elapse hw).Stands lay dirty texts m rx since (t + 1) :=
  let h' := h.whims (hw.whims w.t) (Nat.le_succ w.t)
  ⟨h'.holds, h'.fits, h'.machine, h'.since_eq, Nat.succ_le_succ h.later⟩

theorem Wire.Stands.earlier {w : Wire} {t' : Nat} (h : w.Stands lay dirty texts m rx since t) (ht : t' ≤ t) :
    w.Stands lay dirty texts m rx since t' := ⟨h.holds, h.fits, h.machine, h.since_eq, ht.trans h.later⟩

/-- **After `cache_invalidate` the processor reads what is in memory.** -/
theorem cacheInvalidate_rule (hw : Hardware) (len : UInt32) (hlen : len ≤ p9MSize) :
    Triple (Wire.Rests lay m rx since t) (cacheInvalidate hw lay.rx len)
      (fun _ w => w.Rests lay m rx since t ∧ Cached.Synced lineOf (linesOf lay.rx len.toNat) w.mem) E := by
  have hspace := lay.rx_space
  have hle : len.toNat ≤ p9MSize.toNat := UInt32.le_iff_toNat_le.mp hlen
  refine (cacheRange_rule (I := fun S w => w.Rests lay m rx since t ∧ Cached.Synced lineOf S w.mem)
    (fun hsub h => ⟨h.1, h.2.mono hsub⟩) (fun S p hp => ?_) (by omega)).pre fun w h => ⟨h, ?_⟩
  · rintro w ⟨hrests, hsynced⟩
    have helapsed : (w.elapse hw).Rests lay m rx since t := hrests.elapse.earlier (Nat.le_succ t)
    -- giving a line up is something that the cache may do on its own
    refine ⟨helapsed.whims [.flush (lineOf p)] le_rfl, ?_⟩
    rw [hp]
    exact Cached.synced_flush (Cached.synced_whims hsynced _) p
  · exact fun a ha => absurd ha (Set.notMem_empty _)

theorem Buffers.base_space (lay : Buffers) (cookie : Cookie) :
    (lay.base cookie).toNat + Buffers.capacity cookie + 32 ≤ 2 ^ 32 := by
  cases cookie with
  | tx => exact lay.tx_space
  | flush => exact lay.flush_space

/-- The lines of a buffer have no other. -/
theorem Buffers.base_inj (lay : Buffers) {cookie cookie' : Cookie} {i k : Nat} (hi : i < Buffers.capacity cookie')
    (hk : k < Buffers.capacity cookie)
    (heq : lay.base cookie' + UInt32.ofNat i = lay.base cookie + UInt32.ofNat k) : cookie' = cookie ∧ i = k := by
  have hline : lineOf (lay.base cookie' + UInt32.ofNat i) ∈ lay.linesFor cookie := heq ▸ lay.lineOf_mem hk
  have hsame : cookie' = cookie := by
    by_contra hne
    have hdisjoint : Disjoint (lay.linesFor cookie') (lay.linesFor cookie) := by
      cases cookie' <;> cases cookie
      · exact absurd rfl hne
      · exact lay.tx_flush
      · exact lay.tx_flush.symm
      · exact absurd rfl hne
    exact Set.disjoint_left.mp hdisjoint (lay.lineOf_mem hi) hline
  subst hsame
  have hspace := lay.base_space cookie'
  have hgap := congrArg (gap (lay.base cookie')) heq
  rw [gap_add _ (by omega), gap_add _ (by omega)] at hgap
  exact ⟨rfl, hgap⟩

/-- The processor writes to a buffer, while the device may read it or the other one. -/
theorem Wire.Stands.write {w : Wire} (h : w.Stands lay dirty texts m rx since t) {cookie : Cookie} {k : Nat}
    (hk : k < Buffers.capacity cookie) (hdirty : lineOf (lay.base cookie + UInt32.ofNat k) ∈ dirty) (b : UInt8) :
    Wire.Stands lay dirty (Function.update texts cookie ((texts cookie).write k [b])) m rx since t
      { w with mem := w.mem.write lineOf (lay.base cookie + UInt32.ofNat k) b } := by
  refine ⟨⟨?_, fun i hi => ?_, fun c => ?_, fun c => Cached.synced_write (h.holds.synced c) _ b, fun c i hi => ?_⟩,
    h.fits, h.machine, h.since_eq, h.later⟩
  · exact Cached.clean_write h.holds.rxClean (lay.lineOf_notMem (lay.lineOf_mem hk)) b
  · exact (congrFun (Cached.ram_write _ _ _) _).trans (h.holds.rxBytes i hi)
  · exact Cached.clean_write (h.holds.clean c) (fun hmem => hmem.2 hdirty) b
  · refine (Cached.read_write (h.holds.synced c) _ b (lay.lineOf_mem hi)).trans ?_
    split
    · rename_i heq
      obtain ⟨rfl, rfl⟩ := lay.base_inj hi hk heq
      have hwrite : (texts c).write i [b] (i + 0) = b := (texts c).write_add i Nat.one_pos
      rw [Function.update_self]
      exact hwrite.symm
    · rename_i hne
      refine (h.holds.reads c i hi).trans ?_
      by_cases hc : c = cookie
      · subst hc
        have hik : i ≠ k := fun heq => hne (by rw [heq])
        rw [Function.update_self]
        rcases Nat.lt_or_gt_of_ne hik with hlt | hgt
        · exact ((texts c).write_of_lt _ hlt).symm
        · exact ((texts c).write_of_ge (show k + [b].length ≤ i from hgt)).symm
      · rw [Function.update_of_ne hc]

/-- The message `put ++ bs` is put into a buffer; `put` is there. -/
theorem cpuStores_rule (hw : Hardware) (cookie : Cookie) : ∀ (bs put : List UInt8),
    put.length + bs.length ≤ Buffers.capacity cookie → linesOf (lay.base cookie) (put.length + bs.length) ⊆ dirty →
    Triple (Wire.Stands lay dirty (Function.update texts cookie ((texts cookie).write 0 put)) m rx since t)
      (cpuStores hw (lay.base cookie + UInt32.ofNat put.length) bs)
      (fun _ => Wire.Stands lay dirty (Function.update texts cookie ((texts cookie).write 0 (put ++ bs))) m rx
        since t) E
  | [], put, _, _ => by
    rw [List.append_nil]
    exact Triple.ret
  | b :: bs, put, hlen, hdirty => by
    have hlen' : put.length + (bs.length + 1) ≤ Buffers.capacity cookie := hlen
    have hsplit : (put ++ [b]).length + bs.length = put.length + (b :: bs).length := by
      simp only [List.length_append, List.length_cons, List.length_nil]
      omega
    have hnext := cpuStores_rule hw cookie bs (put ++ [b]) (hsplit ▸ hlen) (hsplit ▸ hdirty)
    rw [List.append_assoc, List.length_append, List.length_singleton, add_ofNat_add] at hnext
    refine Triple.bind (fun w h => ?_) fun _ => hnext
    have helapsed : (w.elapse hw).Stands lay dirty _ m rx since t := h.elapse.earlier (Nat.le_succ t)
    have hroom : put.length < Buffers.capacity cookie := by omega
    have hstored := helapsed.write hroom (hdirty (lineOf_mem_linesOf _ (by simp))) b
    rw [Function.update_self, Function.update_idem, ← Nat.zero_add put.length, ← Mem.write_append,
      Nat.zero_add] at hstored
    exact hstored

/-- **After `cache_flush` the message is in memory.** -/
theorem cacheFlush_rule (hw : Hardware) (cookie : Cookie) {n : Nat} (hfits : n ≤ Buffers.capacity cookie) :
    Triple (Wire.Stands lay (linesOf (lay.base cookie) n) texts m rx since t)
      (cacheFlush hw (lay.base cookie) (UInt32.ofNat n)) (fun _ => Wire.Stands lay ∅ texts m rx since t) E := by
  have hspace := lay.base_space cookie
  have hlen : (UInt32.ofNat n).toNat = n := UInt32.toNat_ofNat_of_lt' (show n < 2 ^ 32 by omega)
  refine (cacheRange_rule (I := fun S => Wire.Stands lay (linesOf (lay.base cookie) n \ S) texts m rx since t)
    (fun {S T w} hsub h => ⟨h.holds.mono (Set.sdiff_subset_sdiff_right hsub), h.fits, h.machine, h.since_eq, h.later⟩)
    (fun S p hp w h => ?_) (by omega)).conseq (fun w h => ?_) (fun _ w h => ?_) fun _ _ h => h
  · have helapsed : (w.elapse hw).Stands lay _ texts m rx since t := h.elapse.earlier (Nat.le_succ t)
    have hstored := helapsed.whims [.store (lineOf p)] le_rfl
    refine ⟨⟨hstored.holds.rxClean, hstored.holds.rxBytes, fun c => ?_, hstored.holds.synced, hstored.holds.reads⟩,
      h.fits, hstored.machine, hstored.since_eq, hstored.later⟩
    have hclean : Cached.Clean _ ((w.elapse hw).mem.store lineOf p) := Cached.clean_store (helapsed.holds.clean c) p
    rw [← hp] at hclean
    refine hclean.mono fun l hl => ?_
    by_cases heq : l = p
    · exact .inl (heq.trans hp.symm)
    · refine .inr ⟨hl.1, fun hmem => hl.2 ⟨hmem.1, fun hin => ?_⟩⟩
      exact hin.elim heq hmem.2
  · rwa [Set.sdiff_empty]
  · rwa [hlen, Set.sdiff_self] at h

/-- What the processor reads of lines that were given up. -/
theorem read_rx {mem : Cached UInt32 UInt32 UInt8} {n i : Nat} (h : lay.Holds dirty texts rx mem)
    (hsynced : Cached.Synced lineOf (linesOf lay.rx n) mem) (hn : n ≤ p9MSize.toNat) (hi : i < n) :
    mem.read lineOf (lay.rx + UInt32.ofNat i) = rx i := by
  have hclean := h.rxClean.mono (linesOf_mono lay.rx hn)
  exact (Cached.read_eq_ram hclean hsynced (lineOf_mem_linesOf _ hi)).trans (h.rxBytes i (hi.trans_le hn))

/-- A load of the header. -/
theorem cpuLoad_bind {α : Type} {Q : α → Wire → Prop} {f : UInt8 → EStateM Fault Wire α} {i : Nat} (hi : i < 32)
    (hf : Triple (fun w => w.Rests lay m rx since t ∧ Cached.Synced lineOf (linesOf lay.rx 32) w.mem) (f (rx i)) Q E) :
    Triple (fun w => w.Rests lay m rx since t ∧ Cached.Synced lineOf (linesOf lay.rx 32) w.mem)
      (cpuLoad hw (lay.rx + UInt32.ofNat i) >>= f) Q E := by
  rintro w ⟨hrests, hsynced⟩
  have hrests' : (w.elapse hw).Rests lay m rx since t := hrests.elapse.earlier (Nat.le_succ t)
  have hsynced' : Cached.Synced lineOf (linesOf lay.rx 32) (w.elapse hw).mem := Cached.synced_whims hsynced _
  have hload : cpuLoad hw (lay.rx + UInt32.ofNat i) w = .ok (rx i) (w.elapse hw) :=
    congrArg (EStateM.Result.ok · (w.elapse hw)) (read_rx hrests'.holds hsynced' (by decide) hi)
  rw [run_bind_ok hload]
  exact hf _ ⟨hrests', hsynced'⟩

/-- **The test of the poll loop is made on what the device wrote.** -/
theorem wireAccepts_rule (p : Post) (written : UInt32) :
    Triple (Wire.Rests lay m rx since t) (wireAccepts hw lay p written)
      (fun b w => (b = true ↔ accepts p rx written) ∧ w.Rests lay m rx since t) E := by
  have hfirst : lay.rx = lay.rx + UInt32.ofNat 0 := (UInt32.add_zero lay.rx).symm
  unfold wireAccepts
  refine (cacheInvalidate_rule hw 32 (by decide)).bind fun _ => ?_
  refine Triple.ite (fun hbounds => ?_) fun hbounds => Triple.pure fun w h => ⟨?_, h.1⟩
  · refine cpuLoad_bind (i := 5) (by decide) (cpuLoad_bind (i := 6) (by decide) ?_)
    nth_rewrite 2 [hfirst]
    refine cpuLoad_bind (i := 0) (by decide) (cpuLoad_bind (i := 1) (by decide) ?_)
    refine cpuLoad_bind (i := 2) (by decide) (cpuLoad_bind (i := 3) (by decide) ?_)
    refine Triple.pure fun w h => ⟨?_, h.1⟩
    rw [decide_eq_true_iff]
    exact ⟨fun ⟨htag, hsize⟩ => ⟨hbounds.1, hbounds.2, htag, hsize⟩, fun ⟨_, _, htag, hsize⟩ => ⟨htag, hsize⟩⟩
  · exact ⟨fun h => (Bool.false_ne_true h).elim, fun h => absurd ⟨h.1, h.2.1⟩ hbounds⟩

end Cache

/-! ## Loops -/

/-- A loop of looks in `Machine`. -/
def lookLoop {α : Type} (body : Mem → EStateM Fault Machine (Option α × Mem)) :
    Nat → Mem → EStateM Fault Machine (Option α × Mem)
  | 0, rx => pure (none, rx)
  | looks + 1, rx => do
    match ← body rx with
    | (some a, rx) => pure (some a, rx)
    | (none, rx) => lookLoop body looks rx

/-- How many looks it takes at most until the clock has been read at time `T`, or later. -/
def looksUntil (T t : Nat) (count : UInt32) : Nat := (4096 - count.toNat % 4096) + 4096 * (T - t) + 2

section Loops

variable {hw : Hardware} {lay : Buffers} {world : World} {m : Machine} {rx : Mem} {since t T : Nat}
  {deadline : UInt64}

theorem and_mask_eq_zero (count : UInt32) : count &&& 0xFFF = 0 ↔ count.toNat % 4096 = 0 := by
  rw [← UInt32.toNat_inj, UInt32.toNat_and]
  show count.toNat &&& 2 ^ 12 - 1 = 0 ↔ _
  rw [Nat.and_two_pow_sub_one_eq_mod]

theorem toNat_succ_mod (count : UInt32) : (count + 1).toNat % 4096 = (count.toNat + 1) % 4096 := by
  rw [UInt32.toNat_add]
  show (count.toNat + 1) % 2 ^ 32 % 4096 = _
  omega

theorem readTb_rule {rounds : Nat} :
    Triple (Wire.Rests lay m rx since t) (readTb hw rounds)
      (fun v w => w.Rests lay m rx since (t + 3) ∧ ∃ k, t < k ∧ k < w.t ∧ v = hw.ticks k)
      fun e w => e = .hang ∧ w.since = since ∧ (hw.Steady → rounds < 2) := by
  intro w h
  unfold readTb
  rw [get_bind]
  cases hread : hw.v9pReadTb rounds w.t with
  | none =>
    refine ⟨rfl, h.since_eq, fun hsteady => ?_⟩
    by_contra hrounds
    obtain ⟨v, t', hsome, -⟩ := readTb_returns hsteady (not_lt.mp hrounds) w.t
    cases hread.symm.trans hsome
  | some r =>
    obtain ⟨v, t'⟩ := r
    obtain ⟨k, hk, hk', hv⟩ := readTb_eq hread
    have hlater := readTb_later hread
    have hrests : Wire.Rests lay m rx since (t + 3) { w with t := t' } :=
      ⟨h.holds, h.fits, h.machine, h.since_eq, (Nat.add_le_add_right h.later 3).trans hlater⟩
    exact ⟨hrests, k, lt_of_le_of_lt h.later hk, hk', hv⟩

/-- The clock is read every 4096 looks; when `T` is past the deadline, it is found to be over then. -/
theorem expired_rule (hw : Hardware) (T rounds : Nat) (deadline : UInt64) (count : UInt32) :
    Triple (Wire.Rests lay m rx since t) (expired hw rounds deadline count)
      (fun b w => (b = true → count.toNat % 4096 = 0 ∧ deadline ≤ hw.ticks w.t) ∧
        (b = false → deadline ≤ hw.ticks T → count.toNat % 4096 = 0 → t < T) ∧
        w.Rests lay m rx since (if count.toNat % 4096 = 0 then t + 3 else t))
      fun e w => e = .hang ∧ w.since = since ∧ (hw.Steady → rounds < 2) := by
  unfold expired
  refine Triple.ite (fun hzero => ?_) fun hzero => ?_
  · have hmod := (and_mask_eq_zero count).mp hzero
    refine (readTb_rule).bind fun v => Triple.pure fun w h => ?_
    obtain ⟨hrests, k, hk, hk', rfl⟩ := h
    refine ⟨fun hb => ⟨hmod, ?_⟩, fun hb hT _ => ?_, by rwa [if_pos hmod]⟩
    · exact UInt64.le_trans (decide_eq_true_iff.mp hb) (hw.mono hk'.le)
    · by_contra hlt
      exact decide_eq_false_iff_not.mp hb (UInt64.le_trans hT (hw.mono (by omega)))
  · have hmod : ¬ count.toNat % 4096 = 0 := fun h => hzero ((and_mask_eq_zero count).mpr h)
    refine Triple.pure fun w h => ⟨fun hb => (Bool.false_ne_true hb).elim,
      fun _ _ h0 => absurd h0 hmod, by rwa [if_neg hmod]⟩

/-- The looks until `T` from the next look on. -/
theorem looksUntil_le {n : Nat} (hn : 4096 * (T + 1) + 2 ≤ n) : looksUntil T t 0 ≤ n := by
  unfold looksUntil
  rw [UInt32.toNat_zero]
  omega

theorem looksUntil_succ {n : Nat} {count : UInt32} (hT : t < T ∨ (count + 1).toNat % 4096 ≠ 0)
    (h : looksUntil T t count ≤ n + 1) :
    looksUntil T (if (count + 1).toNat % 4096 = 0 then t + 3 else t) (count + 1) ≤ n := by
  have hsucc := toNat_succ_mod count
  unfold looksUntil at h ⊢
  split <;> omega

section ClockLoop

variable {α : Type} {body : EStateM Fault Wire (Option α)} {absBody : Mem → EStateM Fault Machine (Option α × Mem)}

/-- **A loop that watches the clock is a loop of looks**, with a whole number of clock intervals; `absBody` is what the
body does in `Machine`. -/
theorem clockLoop_rule (hsteady : hw.Steady)
    (hbody : ∀ m rx t, Triple (Wire.Rests lay m rx since t) body
      (fun got w => ∃ rx', absBody rx m = .ok (got, rx') w.m ∧ w.Rests lay w.m rx' since t)
      fun e w => absBody rx m = .error e w.m ∧ e ≠ .hang)
    (n : Nat) : ∀ (count : UInt32) (m : Machine) (rx : Mem) (t : Nat),
    (deadline ≤ hw.ticks T → looksUntil T t count ≤ n) →
    Triple (Wire.Rests lay m rx since t) (clockLoop hw body deadline n count)
      (fun r w => ∃ looks rx', 0 < looks ∧ (count.toNat + looks) % 4096 = 0 ∧
        lookLoop absBody looks rx m = .ok (r, rx') w.m ∧ w.Rests lay w.m rx' since t ∧
        (r = none → deadline ≤ hw.ticks w.t))
      fun e w => (e = .hang ∧ w.since = since ∧ hw.ticks T < deadline) ∨
        ∃ looks, 0 < looks ∧ (count.toNat + looks) % 4096 = 0 ∧ lookLoop absBody looks rx m = .error e w.m := by
  induction n with
  | zero =>
    intro count m rx t hfuel w h
    refine .inl ⟨rfl, h.since_eq, UInt64.not_le.mp fun hT => ?_⟩
    have := hfuel hT
    unfold looksUntil at this
    omega
  | succ n ih =>
    intro count m rx t hfuel
    have hsucc := toNat_succ_mod count
    -- the number of looks to the next reading of the clock
    obtain ⟨looks, hlooks⟩ : ∃ looks, (count.toNat + (looks + 1)) % 4096 = 0 := ⟨4095 - count.toNat % 4096, by omega⟩
    unfold clockLoop
    refine ((hbody m rx t).conseq (fun _ h => h) (fun _ _ h => h) fun e w h => ?_).bind fun got => ?_
    · exact .inr ⟨looks + 1, Nat.succ_pos _, hlooks, run_bind_error h.1⟩
    rintro w ⟨rx', habs, hrests⟩
    generalize w.m = m' at habs hrests
    revert w
    cases got with
    | some a =>
      intro w hrests
      obtain rfl := hrests.machine
      exact ⟨looks + 1, rx', Nat.succ_pos _, hlooks, run_bind_ok habs, hrests, fun hr => by cases hr⟩
    | none =>
      have hstep : ∀ k, lookLoop absBody (k + 1) rx m = lookLoop absBody k rx' m' := fun k => run_bind_ok habs
      refine Triple.bind ((expired_rule hw T n deadline (count + 1)).conseq (fun _ h => h) (fun _ _ h => h)
        fun e w h => ?_) fun late => ?_
      · refine .inl ⟨h.1, h.2.1, UInt64.not_le.mp fun hT => ?_⟩
        have hfuel := hfuel hT
        have hrounds := h.2.2 hsteady
        unfold looksUntil at hfuel
        omega
      generalize hnow : (if (count + 1).toNat % 4096 = 0 then t + 3 else t) = now
      have hle : t ≤ now := by
        rw [← hnow]
        split <;> omega
      cases late with
      | true =>
        refine Triple.pure fun w h => ?_
        obtain ⟨hmod, hover⟩ := h.1 rfl
        obtain rfl := h.2.2.machine
        exact ⟨1, rx', Nat.one_pos, by omega, hstep 0, h.2.2.earlier hle, fun _ => hover⟩
      | false =>
        rintro w ⟨-, hearly, hrests⟩
        have hnext : deadline ≤ hw.ticks T → looksUntil T now (count + 1) ≤ n := by
          intro hT
          rw [← hnow]
          exact looksUntil_succ ((em ((count + 1).toNat % 4096 = 0)).imp (hearly rfl hT) id) (hfuel hT)
        refine (ih (count + 1) m' rx' now hnext).conseq (fun _ h => h) ?_ ?_ w hrests
        · rintro r w ⟨k, rx'', hk, hmod, hloop, hrests, hover⟩
          exact ⟨k + 1, rx'', Nat.succ_pos k, by omega, (hstep k).trans hloop, hrests.earlier hle, hover⟩
        · rintro e w (hhang | ⟨k, hk, hmod, hloop⟩)
          · exact .inl hhang
          · exact .inr ⟨k + 1, Nat.succ_pos k, by omega, (hstep k).trans hloop⟩

end ClockLoop

/-- A look of the poll loop in `Machine`. -/
def acceptOnce (world : World) (p : Post) (rx : Mem) : EStateM Fault Machine (Option UInt32 × Mem) := do
  match ← look world rx with
  | (none, rx) => pure (none, rx)
  | (some written, rx) => if accepts p rx written then pure (some written, rx) else pure (none, rx)

theorem pollLoop_eq (p : Post) (looks : Nat) : ∀ rx, pollLoop world p looks rx =
    lookLoop (acceptOnce world p) looks rx >>= fun r =>
    pure (r.1.elim (.timeout r.2) fun written => .reply written r.2) := by
  induction looks with
  | zero => exact fun rx => rfl
  | succ looks ih =>
    intro rx
    unfold pollLoop lookLoop acceptOnce
    rw [bind_assoc, bind_assoc]
    refine congrArg _ (funext fun r => ?_)
    obtain ⟨_ | written, rx'⟩ := r
    · exact ih rx'
    · simp only
      split
      · rfl
      · exact ih rx'

theorem drainOne_eq (looks : Nat) : ∀ rx, drainOne world looks rx =
    lookLoop (look world) looks rx >>= fun r => pure (r.1.isSome, r.2) := by
  induction looks with
  | zero => exact fun rx => rfl
  | succ looks ih =>
    intro rx
    unfold drainOne lookLoop
    rw [bind_assoc]
    refine congrArg _ (funext fun r => ?_)
    obtain ⟨_ | written, rx'⟩ := r
    · exact ih rx'
    · rfl

/-- What the poll loop ends with was accepted. -/
theorem lookLoop_accepts (p : Post) (looks : Nat) :
    ∀ rx, Triple (fun _ => True) (lookLoop (acceptOnce world p) looks rx)
    (fun r _ => ∀ written, r.1 = some written → accepts p r.2 written) fun _ _ => True := by
  have honce : ∀ rx, Triple (fun _ => True) (acceptOnce world p rx)
      (fun r _ => ∀ written, r.1 = some written → accepts p r.2 written) fun _ _ => True := by
    intro rx
    refine Triple.bind (Q := fun _ _ => True) (Triple.top (fun _ _ => trivial) fun _ _ => trivial) fun r => ?_
    obtain ⟨_ | written, rx'⟩ := r
    · exact Triple.pure fun _ _ _ h => by cases h
    · refine Triple.ite (fun haccepts => Triple.pure fun _ _ _ h => ?_) fun _ => Triple.pure fun _ _ _ h => by cases h
      cases h
      exact haccepts
  induction looks with
  | zero => exact fun rx => Triple.pure fun _ _ _ h => by cases h
  | succ looks ih =>
    refine fun rx => (honce rx).bind fun r => ?_
    obtain ⟨_ | written, rx'⟩ := r
    · exact (ih rx').pre fun _ _ => trivial
    · exact Triple.pure fun _ h => h

theorem pollOnce_rule (p : Post) (m : Machine) (rx : Mem) (t : Nat) :
    Triple (Wire.Rests lay m rx since t) (pollOnce hw lay world p)
      (fun got w => ∃ rx', acceptOnce world p rx m = .ok (got, rx') w.m ∧ w.Rests lay w.m rx' since t)
      fun e w => acceptOnce world p rx m = .error e w.m ∧ e ≠ .hang := by
  refine ((wireLook_rule rx).conseq (fun _ h => h) (fun _ _ h => h) fun e w h => ?_).bind fun got => ?_
  · exact ⟨run_bind_error h.1, h.2⟩
  rintro w ⟨rx', hlook, hrests⟩
  generalize w.m = m' at hlook hrests
  revert w
  cases got with
  | none =>
    intro w hrests
    obtain rfl := hrests.machine
    exact ⟨rx', run_bind_ok hlook, hrests⟩
  | some written =>
    refine Triple.bind (wireAccepts_rule p written) fun accepted => ?_
    rintro w ⟨hiff, hrests⟩
    obtain rfl := hrests.machine
    have habs : acceptOnce world p rx m =
        (if accepts p rx' written then pure (some written, rx') else pure (none, rx') :
          EStateM Fault Machine (Option UInt32 × Mem)) w.m := run_bind_ok hlook
    cases accepted with
    | true =>
      rw [if_pos (hiff.mp rfl)] at habs
      exact ⟨rx', habs, hrests⟩
    | false =>
      rw [if_neg fun h => Bool.false_ne_true (hiff.mpr h)] at habs
      exact ⟨rx', habs, hrests⟩

end Loops

/-! ## Posting -/

section Posting

variable {lay : Buffers} {world : World} {m : Machine} {rx : Mem} {since t : Nat}

/-- The code that `VirtQueue_AddBuf` returns, and what it publishes. -/
theorem addBuf_cases {κ : Type} (vq : Virtqueue κ) (sg : Nat → VringSg) (outNum inNum : UInt32) (cookie : Option κ) :
    (∃ f, virtQueueAddBuf vq sg outNum inNum cookie = .error f) ∨
      ∃ r vq', virtQueueAddBuf vq sg outNum inNum cookie = .ok (r, vq') ∧ (r = -1 ∨ r = 0) := by
  unfold virtQueueAddBuf
  dsimp only
  split
  · exact .inr ⟨-1, vq, rfl, .inl rfl⟩
  · cases addBufLoop sg outNum.toNat (outNum + inNum).toNat (outNum + inNum).toNat 0 vq.freeHead vq with
    | error f => exact .inl ⟨f, rfl⟩
    | ok vq₁ =>
      simp only [bind, Except.bind]
      cases Virtqueue.setCookie { vq₁ with numFree := vq₁.numFree - (outNum + inNum).toUInt16 } vq.freeHead.toNat
          cookie with
      | error f => exact .inl ⟨f, rfl⟩
      | ok vq₂ => exact .inr ⟨0, _, rfl, .inr rfl⟩

/-- What comes of posting a message, on any queue. -/
theorem postMessage_cases (world : World) (cookie : Cookie) (p : Post) {q : Line} (hq : m.vq = some q) :
    (∃ e m', postMessage world cookie p m = .error e m') ∨
    (∃ t, postMessage world cookie p m = .ok false { m.stored cookie p.tx with vq := some { q with traffic := t } } ∧
      t.posted = q.traffic.posted) ∨
    ∃ t head bufs, postMessage world cookie p m =
        .ok true { m.stored cookie p.tx with vq := some { q with traffic := t, sent := q.sent ++ [p.tx] } } ∧
      t.posted = q.traffic.posted ++ [⟨head, bufs, some cookie⟩] := by
  set sg : Nat → VringSg := fun n =>
    if n = 0 then ⟨world.phys cookie.block, UInt32.ofNat p.tx.length⟩ else ⟨world.phys .rx, p.msize⟩ with hsg
  rcases addBuf_cases q.traffic.vq sg 1 1 (some cookie) with ⟨f, hadd⟩ | ⟨r, vq, hadd, rfl | rfl⟩
  · refine .inl ⟨.queue f, m.stored cookie p.tx, ?_⟩
    have hpost : q.traffic.post sg 1 1 (some cookie) = .error f := by
      simp only [Traffic.post, hadd, bind, Except.bind]
    unfold postMessage
    rw [run_bind_ok (theQueue_eq hq), modify_bind]
    simp only [← hsg, hpost]
    rfl
  · have hpost : q.traffic.post sg 1 1 (some cookie) = .ok (-1, { q.traffic with vq := vq }) := by
      simp only [Traffic.post, hadd, bind, Except.bind]
      rfl
    exact .inr (.inl ⟨_, postMessage_refused hq hpost, rfl⟩)
  · have hpost : q.traffic.post sg 1 1 (some cookie) = .ok (0, { q.traffic with
        vq := vq
        posted := q.traffic.posted ++ [⟨q.traffic.vq.freeHead, requestBufs sg 1 2, some cookie⟩] }) := by
      simp only [Traffic.post, hadd, bind, Except.bind]
      rfl
    exact .inr (.inr ⟨_, _, _, postMessage_posted hq hpost, rfl⟩)

/-- The queue with one message more. -/
theorem Line.Fits.post {q : Line} (h : q.Fits) {cookie : Cookie} {tx : List UInt8} {t : Traffic Cookie} {head : UInt16}
    {bufs : List Buf} (hlen : tx.length ≤ Buffers.capacity cookie)
    (hposted : t.posted = q.traffic.posted ++ [⟨head, bufs, some cookie⟩]) :
    Line.Fits { q with traffic := t, sent := q.sent ++ [tx] } := by
  refine ⟨?_, fun {r head' bufs' cookie'} hat => ?_⟩
  · show (q.sent ++ [tx]).length = t.posted.length
    rw [hposted, List.length_append, List.length_append, h.aligned]
    rfl
  · have hat' : t.posted[r]? = some ⟨head', bufs', some cookie'⟩ := hat
    show ((q.sent ++ [tx]).getD r []).length ≤ _
    rw [hposted] at hat'
    rcases Nat.lt_or_ge r q.traffic.posted.length with hlt | hge
    · rw [List.getElem?_append_left hlt] at hat'
      rw [List.getD_append _ _ _ _ (h.aligned ▸ hlt)]
      exact h.within hat'
    · rw [List.getElem?_append_right hge, List.getElem?_singleton] at hat'
      split at hat'
      · rename_i hzero
        cases hat'
        rw [List.getD_append_right _ _ _ _ (h.aligned ▸ hge), h.aligned, hzero]
        exact hlen
      · cases hat'

/-- **A message that is in memory is posted.** -/
theorem post_rule (world : World) (cookie : Cookie) (p : Post) (hlen : p.tx.length ≤ Buffers.capacity cookie) :
    Triple (Wire.Stands lay ∅ (m.stored cookie p.tx).texts m rx since t) (onMachine (postMessage world cookie p))
      (fun ok w => postMessage world cookie p m = .ok ok w.m ∧ w.Rests lay w.m rx since t)
      fun e w => postMessage world cookie p m = .error e w.m := by
  intro w h
  obtain rfl := h.machine
  unfold onMachine
  cases hq : w.m.vq with
  | none =>
    have hpost : postMessage world cookie p w.m = .error .nullQueue w.m := run_bind_error (theQueue_none hq)
    rw [hpost]
  | some q =>
    rcases postMessage_cases world cookie p hq with ⟨e, m', hpost⟩ | ⟨t', hpost, hposted⟩ |
      ⟨t', head, bufs, hpost, hposted⟩
    · rw [hpost]
    · rw [hpost]
      refine ⟨rfl, h.holds, fun q' hq' => ?_, rfl, h.since_eq, h.later⟩
      cases hq'
      exact (h.fits q hq).frame rfl hposted
    · rw [hpost]
      refine ⟨rfl, h.holds, fun q' hq' => ?_, rfl, h.since_eq, h.later⟩
      cases hq'
      exact (h.fits q hq).post hlen hposted

/-- **A message is stored, written back and posted**, whatever else is on the queue. -/
theorem send_rule (hw : Hardware) (world : World) (cookie : Cookie) (p : Post) {a : UInt32} (ha : lay.base cookie = a)
    (hlen : p.tx.length ≤ Buffers.capacity cookie) {α : Type} {f : Bool → EStateM Fault Wire α} {Q : α → Wire → Prop}
    {E : Fault → Wire → Prop} (herror : ∀ e w, postMessage world cookie p m = .error e w.m → E e w)
    (hf : ∀ ok, Triple (fun w => postMessage world cookie p m = .ok ok w.m ∧ w.Rests lay w.m rx since t) (f ok) Q E) :
    Triple (Wire.Rests lay m rx since t) (cpuStores hw a p.tx >>= fun _ =>
      cacheFlush hw a (UInt32.ofNat p.tx.length) >>= fun _ => onMachine (postMessage world cookie p) >>= f) Q E := by
  subst ha
  have hstores : Triple (Wire.Stands lay (linesOf (lay.base cookie) p.tx.length)
      (Function.update m.texts cookie ((m.texts cookie).write 0 [])) m rx since t)
      (cpuStores hw (lay.base cookie + UInt32.ofNat 0) p.tx)
      (fun _ => Wire.Stands lay (linesOf (lay.base cookie) p.tx.length) (m.stored cookie p.tx).texts m rx since t) E :=
    cpuStores_rule hw cookie p.tx [] (by simpa using hlen) (by simp)
  rw [Mem.write_nil, Function.update_eq_self, show UInt32.ofNat 0 = 0 from rfl, UInt32.add_zero] at hstores
  refine (hstores.pre fun w h => ?_).bind fun _ => (cacheFlush_rule hw cookie hlen).bind fun _ => ?_
  · exact ⟨h.holds.mono (Set.empty_subset _), h.fits, h.machine, h.since_eq, h.later⟩
  · exact ((post_rule world cookie p hlen).conseq (fun _ h => h) (fun _ _ h => h) herror).bind hf

end Posting

/-! ## Polling -/

/-- The world, with so many readings of the clock before a deadline is over. -/
def World.waits (world : World) (checks : Nat → Nat) : World := { world with checks := checks }

/-- The end of the poll loop in `Machine`. -/
def Ended.toPolled (rx : Mem) : Ended → Polled
  | .refused => .refused
  | .reply written => .reply written rx
  | .timeout => .timeout rx

/-- `w` is where `Machine` is after polling, for some number of clock intervals. If there is a reply, the processor
reads its bytes, whatever the cache does; a timeout comes after ten seconds. -/
def Wire.PolledAs (hw : Hardware) (lay : Buffers) (world : World) (p : Post) (w₀ : Wire) (r : Ended) (w : Wire) :
    Prop :=
  ∃ checks rx, busPoll (world.waits checks) p w₀.m = .ok (r.toPolled rx) w.m ∧ w.InStep lay rx ∧
    (∀ written, r = .reply written → ∀ ws, ∀ i < written.toNat,
      (w.mem.whims lineOf ws).read lineOf (lay.rx + UInt32.ofNat i) = rx i) ∧
    (r = .timeout → (hw.ticks w₀.t).toNat + (v9pTbFreqHz hw.speed).toNat * 10 ≤ (hw.ticks w.t).toNat)

/-- After draining `k` completions. Unless there were two or the `Tflush` was refused, two seconds have passed. -/
def Wire.DrainedAs (hw : Hardware) (lay : Buffers) (world : World) (p : Post) (w₀ : Wire) (k : Nat) (w : Wire) : Prop :=
  ∃ checks rx, busDrain (world.waits checks) p w₀.m = .ok (k, rx) w.m ∧ w.InStep lay rx ∧
    (k < 2 → postMessage world .flush p w₀.m = .ok false w.m ∨
      (hw.ticks w₀.t).toNat + (v9pTbFreqHz hw.speed).toNat * 2 ≤ (hw.ticks w.t).toNat)

/-- A loop has gone on, and at time `T` its deadline is not over yet. -/
def Wire.Waiting (hw : Hardware) (seconds T : Nat) (w : Wire) : Prop :=
  (hw.ticks T).toNat < (hw.ticks w.since).toNat + (v9pTbFreqHz hw.speed).toNat * seconds

section Poll

variable {hw : Hardware} {lay : Buffers} {world : World} {m : Machine} {rx : Mem} {since t : Nat}

theorem pollLoop_waits (p : Post) (checks : Nat → Nat) (looks : Nat) : ∀ rx, pollLoop (world.waits checks) p looks rx =
    pollLoop world p looks rx := by
  induction looks with
  | zero => exact fun _ => rfl
  | succ looks ih =>
    intro rx
    unfold pollLoop
    refine congrArg _ (funext fun r => ?_)
    obtain ⟨_ | written, rx'⟩ := r
    · exact ih rx'
    · show (if accepts p rx' written then _ else pollLoop (world.waits checks) p looks rx') = _
      rw [ih rx']

/-- A whole number of clock intervals. -/
theorem intervals_eq {looks : Nat} (hpos : 0 < looks) (hmod : (0 + looks) % 4096 = 0) :
    (looks / 4096 - 1 + 1) * clockCheckInterval = looks := by
  show (looks / 4096 - 1 + 1) * 4096 = looks
  omega

/-- A deadline is set; it is some seconds from a time after `t`. -/
theorem budget_rule (hsteady : hw.Steady) {n : Nat} (hn : 2 ≤ n) {seconds : UInt64} (hs : seconds.toNat ≤ 10)
    {E : Fault → Wire → Prop} :
    Triple (Wire.Rests lay m rx since t) (budget hw n seconds)
      (fun deadline w => ∃ since', w.Rests lay { m with now := m.now + 1 } rx since' t ∧
        (hw.ticks t).toNat + (v9pTbFreqHz hw.speed).toNat * seconds.toNat ≤ deadline.toNat ∧
        deadline.toNat ≤ (hw.ticks since').toNat + (v9pTbFreqHz hw.speed).toNat * seconds.toNat) E := by
  refine ((readTb_rule).conseq (fun _ h => h) (fun _ _ h => h) fun e w h => ?_).bind fun now => ?_
  · exact absurd (h.2.2 hsteady) (by omega)
  rintro w ⟨hrests, k, hk, hk', rfl⟩
  have hbefore : (hw.ticks t).toNat ≤ (hw.ticks k).toNat := UInt64.le_iff_toNat_le.mp (hw.mono hk.le)
  have hafter : (hw.ticks k).toNat ≤ (hw.ticks w.t).toNat := UInt64.le_iff_toNat_le.mp (hw.mono hk'.le)
  have hdeadline := deadlineTb_toNat hw.toTimebase k hw.speed hs
  refine ⟨w.t, ⟨hrests.holds, hrests.fits, ?_, rfl, ?_⟩, ?_, ?_⟩
  · exact congrArg (fun m : Machine => { m with now := m.now + 1 }) hrests.machine
  · exact (Nat.le_add_right t 3).trans hrests.later
  · rw [hdeadline]
    omega
  · rw [hdeadline]
    omega

end Poll

/-! ## Draining -/

section Drain

variable {hw : Hardware} {lay : Buffers} {world : World} {m : Machine} {rx : Mem} {since t : Nat}

/-- Time does not go back. -/
theorem look_now (n : Nat) (rx : Mem) :
    Triple (fun m => n ≤ m.now) (look world rx) (fun _ m => n ≤ m.now) fun _ _ => True := by
  refine theQueue_bind (fun _ _ _ => trivial) fun q => ?_
  rintro m ⟨-, hn⟩
  rw [get_bind]
  generalize (if m.Live then q.acts m.texts rx (world.acts m.now) else (q, rx)) = acted
  cases hcollect : acted.1.traffic.collect with
  | error f => trivial
  | ok r => exact Nat.le_succ_of_le hn

theorem drainOne_now (n looks : Nat) : ∀ rx,
    Triple (fun m => n ≤ m.now) (drainOne world looks rx) (fun _ m => n ≤ m.now) fun _ _ => True := by
  induction looks with
  | zero => exact fun rx => Triple.ret
  | succ looks ih =>
    refine fun rx => (look_now n rx).bind fun r => ?_
    obtain ⟨_ | written, rx'⟩ := r
    · exact ih rx'
    · exact Triple.ret

theorem drainOne_waits (checks : Nat → Nat) (looks : Nat) : ∀ rx, drainOne (world.waits checks) looks rx =
    drainOne world looks rx := by
  induction looks with
  | zero => exact fun _ => rfl
  | succ looks ih =>
    intro rx
    unfold drainOne
    refine congrArg _ (funext fun r => ?_)
    obtain ⟨_ | written, rx'⟩ := r
    · exact ih rx'
    · rfl

/-- A round of the drain loop in `Machine`, with so many looks. -/
theorem drainLoop_step {checks : Nat → Nat} {looks : Nat} (hpos : 0 < looks) (hmod : (0 + looks) % 4096 = 0)
    (hchecks : checks m.now = looks / 4096 - 1) (rounds : Nat) (rx : Mem) :
    drainLoop (world.waits checks) (rounds + 1) rx m = (lookLoop (look world) looks rx >>= fun r =>
      if r.1.isSome then drainLoop (world.waits checks) rounds r.2 >>= fun r => pure (r.1 + 1, r.2)
      else pure (0, r.2)) { m with now := m.now + 1 } := by
  have hdeadline : deadline (world.waits checks) m = .ok looks { m with now := m.now + 1 } := by
    show EStateM.Result.ok ((checks m.now + 1) * clockCheckInterval) { m with now := m.now + 1 } = _
    rw [hchecks, intervals_eq hpos hmod]
  refine (run_bind_ok hdeadline).trans ?_
  rw [drainOne_waits, drainOne_eq, bind_assoc]
  refine congrFun (congrArg _ (funext fun r => ?_)) _
  obtain ⟨_ | written, rx'⟩ := r
  · rfl
  · rfl

/-- Only the deadlines to come matter. -/
theorem drainLoop_congr {checks checks' : Nat → Nat} (rounds : Nat) : ∀ (rx : Mem) (m : Machine),
    (∀ t, m.now ≤ t → checks t = checks' t) →
    drainLoop (world.waits checks) rounds rx m = drainLoop (world.waits checks') rounds rx m := by
  induction rounds with
  | zero => exact fun _ _ _ => rfl
  | succ rounds ih =>
    intro rx m h
    have hdeadline : ∀ c : Nat → Nat, deadline (world.waits c) m =
        .ok ((c m.now + 1) * clockCheckInterval) { m with now := m.now + 1 } := fun _ => rfl
    unfold drainLoop
    rw [run_bind_ok (hdeadline checks), run_bind_ok (hdeadline checks'), h m.now le_rfl, drainOne_waits, drainOne_waits]
    cases hone : drainOne world ((checks' m.now + 1) * clockCheckInterval) rx { m with now := m.now + 1 } with
    | error e m' => rw [run_bind_error hone, run_bind_error hone]
    | ok r m' =>
      have hnow : m.now + 1 ≤ m'.now := (drainOne_now (m.now + 1) _ rx).ok (le_refl (m.now + 1)) hone
      rw [run_bind_ok hone, run_bind_ok hone]
      obtain ⟨_ | _, rx'⟩ := r
      · rfl
      · exact run_bind_congr (ih rx' m' fun t ht => h t (by omega)) _

/-- **The drain loop is that of `Machine`**, with a deadline for each round. -/
theorem drainLoop_rule (hsteady : hw.Steady) {T n : Nat} (hn : 4096 * (T + 1) + 2 ≤ n) (rounds : Nat) :
    ∀ (m : Machine) (rx : Mem) (since : Nat), Triple (Wire.Rests lay m rx since t)
      (wireDrainLoop hw lay world n rounds)
      (fun k w => ∃ checks rx' since', drainLoop (world.waits checks) rounds rx m = .ok (k, rx') w.m ∧
        w.Rests lay w.m rx' since' t ∧
        (k < rounds → (hw.ticks t).toNat + (v9pTbFreqHz hw.speed).toNat * 2 ≤ (hw.ticks w.t).toNat))
      fun e w => (∃ checks, drainLoop (world.waits checks) rounds rx m = .error e w.m) ∨
        e = .hang ∧ (hw.ticks T).toNat < (hw.ticks w.since).toNat + (v9pTbFreqHz hw.speed).toNat * 2 := by
  induction rounds with
  | zero =>
    intro m rx since w h
    obtain rfl := h.machine
    exact ⟨fun _ => 0, rx, since, rfl, h, fun hlt => absurd hlt (Nat.not_lt_zero _)⟩
  | succ rounds ih =>
    intro m rx since
    refine Triple.bind (budget_rule hsteady (by omega) (by decide)) fun deadline => ?_
    rintro w ⟨since, hrests, hfrom, huntil⟩
    refine Triple.bind ((clockLoop_rule hsteady (fun _ rx _ => wireLook_rule rx) n 0 _ _ _
      fun _ => looksUntil_le hn).conseq (fun _ h => h) (fun _ _ h => h) fun e w h => ?_) (fun got => ?_) w hrests
    · rcases h with ⟨rfl, hsince, hlt⟩ | ⟨looks, hpos, hmod, hloop⟩
      · refine .inr ⟨rfl, lt_of_lt_of_le (UInt64.lt_iff_toNat_lt.mp hlt) ?_⟩
        rw [hsince]
        exact huntil
      · exact .inl ⟨fun _ => looks / 4096 - 1, (drainLoop_step hpos hmod rfl rounds rx).trans (run_bind_error hloop)⟩
    rintro w ⟨looks, rx', hpos, hmod, hloop, hrests, hover⟩
    cases got with
    | none =>
      refine ⟨fun _ => looks / 4096 - 1, rx', since, (drainLoop_step hpos hmod rfl rounds rx).trans (run_bind_ok hloop),
        hrests, fun _ => hfrom.trans (UInt64.le_iff_toNat_le.mp (hover rfl))⟩
    | some written =>
      -- the clock intervals of this round, then those of the others
      have habs : ∀ checks, ∃ checks', drainLoop (world.waits checks') (rounds + 1) rx m =
          (drainLoop (world.waits checks) rounds rx' >>= fun r => pure (r.1 + 1, r.2)) w.m := by
        intro checks
        have hone : drainOne world looks rx { m with now := m.now + 1 } = .ok (true, rx') w.m := by
          rw [drainOne_eq]
          exact run_bind_ok hloop
        have hnow : m.now + 1 ≤ w.m.now := (drainOne_now (m.now + 1) looks rx).ok (le_refl (m.now + 1)) hone
        obtain ⟨checks', hat, hafter⟩ : ∃ checks' : Nat → Nat, checks' m.now = looks / 4096 - 1 ∧
            ∀ s, m.now + 1 ≤ s → checks' s = checks s :=
          ⟨fun s => if s ≤ m.now then looks / 4096 - 1 else checks s, if_pos le_rfl, fun s hs => if_neg (by omega)⟩
        refine ⟨checks', (drainLoop_step hpos hmod hat rounds rx).trans ((run_bind_ok hloop).trans ?_)⟩
        exact run_bind_congr (drainLoop_congr rounds rx' w.m fun s hs => hafter s (hnow.trans hs)) _
      refine Triple.bind ((ih w.m rx' since).conseq (fun _ h => h) (fun _ _ h => h) fun e w' h => ?_)
        (fun k => ?_) w hrests
      · refine h.imp_left fun ⟨checks, herr⟩ => ?_
        obtain ⟨checks', habs⟩ := habs checks
        exact ⟨checks', habs.trans (run_bind_error herr)⟩
      · rintro w' ⟨checks, rx'', since', hdrain, hrests, hwaited⟩
        obtain ⟨checks', habs⟩ := habs checks
        exact ⟨checks', rx'', since', habs.trans (run_bind_ok hdrain), hrests,
          fun hk => hwaited (Nat.lt_of_succ_lt_succ hk)⟩

end Drain

/-! ## Three aligned buffers -/

section Witness

/-- Buffers that are one after the other have no line in common, if the second one starts with a line. -/
theorem linesOf_disjoint {a b : UInt32} {n k : Nat} (hb : b.toNat + k ≤ 2 ^ 32) (hab : a.toNat + n ≤ b.toNat)
    (halign : b.toNat % 32 = 0) : Disjoint (linesOf a n) (linesOf b k) := by
  rw [Set.disjoint_left]
  rintro l ⟨i, hi, rfl⟩ ⟨j, hj, heq⟩
  have hle := b.toNat_lt
  have hfirst := lineOf_toNat (a + UInt32.ofNat i)
  have hsecond := lineOf_toNat (b + UInt32.ofNat j)
  rw [toNat_add_ofNat (by omega)] at hfirst hsecond
  rw [heq] at hsecond
  omega

def alignedBuffers : Buffers where
  tx := 0x100000
  rx := 0x200000
  flush := 0x300000
  tx_space := by decide
  rx_space := by decide
  flush_space := by decide
  tx_rx := linesOf_disjoint (by decide) (by decide) (by decide)
  tx_flush := linesOf_disjoint (by decide) (by decide) (by decide)
  flush_rx := (linesOf_disjoint (by decide) (by decide) (by decide)).symm

theorem clock_toNat (t : Nat) : (UInt64.ofNat (min (33 * t) (2 ^ 60))).toNat = min (33 * t) (2 ^ 60) :=
  UInt64.toNat_ofNat_of_lt' (show min (33 * t) (2 ^ 60) < 2 ^ 64 by omega)

/-- A clock of 33 MHz and an instruction every microsecond; the cache keeps loading the first line of `rx_buf`. -/
def plainHardware : Hardware where
  ticks := fun t => UInt64.ofNat (min (33 * t) (2 ^ 60))
  mono := fun {s t} h => by
    rw [UInt64.le_iff_toNat_le, clock_toNat, clock_toNat]
    omega
  early := fun t => by
    rw [clock_toNat]
    omega
  whims := fun _ => [.load 0x200000]
  speed := 33000000

theorem plain_steady : plainHardware.Steady := by
  intro t
  show (UInt64.ofNat (min (33 * (t + 5)) (2 ^ 60))).toNat < (UInt64.ofNat (min (33 * t) (2 ^ 60))).toNat + 2 ^ 32
  rw [clock_toNat, clock_toNat]
  omega

/-- A queue of 8. -/
def idleLine : Line := ⟨0, vringSize 8, 1, .init 8 false, [], [], [], 0⟩

/-- A device that has been set up with it. -/
def idleMachine : Machine :=
  { Machine.boot with
    status := virtioStatusAcknowledge ||| virtioStatusDriver ||| virtioStatusDriverOk
    programmed := some 0
    vq := some idleLine }

/-- An attach. -/
def firstPost : Post := ⟨attachMessage 1, 1, fun _ => 0, p9MSize⟩

/-- The attach is on the queue and in `tx_buf`, and the cache is empty. -/
def pendingWire : Wire where
  m := finalState (postMessage heedfulWorld .tx firstPost idleMachine)
  mem := ⟨Ram.store (fun _ => 0) alignedBuffers.tx firstPost.tx, fun _ => 0, fun _ => none⟩
  t := 0
  since := 0

/-- A message in `tx_buf`, and nothing else. -/
theorem store_tx {bs : List UInt8} (hlen : bs.length ≤ p9MSize.toNat) {cookie : Cookie} {i : Nat}
    (hi : i < Buffers.capacity cookie) :
    Ram.store (fun _ => 0) alignedBuffers.tx bs (alignedBuffers.base cookie + UInt32.ofNat i) =
      (idleMachine.stored .tx bs).texts cookie i := by
  have hspace := alignedBuffers.base_space cookie
  unfold Ram.store
  cases cookie with
  | tx =>
    show _ = Function.update (fun _ _ => (0 : UInt8)) Cookie.tx (Mem.write (fun _ => 0) 0 bs) Cookie.tx i
    rw [Function.update_self]
    by_cases hin : i < bs.length
    · have hwrite := Mem.write_add (fun _ => 0) 0 hin
      rw [Nat.zero_add] at hwrite
      exact (Ram.patch_at _ _ _ hin (by omega)).trans ((List.getD_eq_getElem _ _ hin).trans hwrite.symm)
    · rw [Mem.write_of_ge _ (by omega)]
      refine Ram.patch_of_le _ _ _ ?_
      show ¬ gap alignedBuffers.tx (alignedBuffers.tx + UInt32.ofNat i) < bs.length
      rwa [gap_add _ (by omega)]
  | flush =>
    show _ = Function.update (fun _ _ => (0 : UInt8)) Cookie.tx (Mem.write (fun _ => 0) 0 bs) Cookie.flush i
    rw [Function.update_of_ne (by decide)]
    refine Ram.patch_of_le _ _ _ (gap_of_lineOf fun hmem => ?_)
    exact Set.disjoint_left.mp alignedBuffers.tx_flush (linesOf_mono _ hlen hmem) (alignedBuffers.lineOf_mem hi)

theorem pending_posted :
    finalValue (postMessage heedfulWorld .tx firstPost idleMachine) = some true := by decide +kernel

theorem pending_inStep : pendingWire.InStep alignedBuffers fun _ => 0 := by
  have hfits : idleLine.Fits := ⟨rfl, fun hat => absurd hat (by simp [idleLine, Traffic.init])⟩
  have hlen : firstPost.tx.length ≤ Buffers.capacity .tx := by decide
  have hdone := pending_posted
  unfold pendingWire
  rcases postMessage_cases heedfulWorld .tx firstPost (m := idleMachine) rfl with
    ⟨e, m', hpost⟩ | ⟨t, hpost, -⟩ | ⟨t, head, bufs, hpost, hposted⟩
  · rw [hpost] at hdone
    cases hdone
  · rw [hpost] at hdone
    cases hdone
  rw [hpost]
  have hnever : ∀ S : Set UInt32, Cached.Clean S (⟨Ram.store (fun _ => 0) alignedBuffers.tx firstPost.tx, fun _ => 0,
      fun _ => none⟩ : Cached UInt32 UInt32 UInt8) := fun S i _ => (Option.some_ne_none true).symm
  refine ⟨⟨hnever _, fun i hi => ?_, fun _ => hnever _, fun c a _ hheld => absurd hheld.symm (by simp),
    fun c i hi => ?_⟩, fun q hq => ?_⟩
  · show Ram.store (fun _ => 0) alignedBuffers.tx firstPost.tx (alignedBuffers.rx + UInt32.ofNat i) = 0
    refine Ram.patch_of_le _ _ _ (gap_of_lineOf fun hmem => ?_)
    exact Set.disjoint_left.mp alignedBuffers.tx_rx (linesOf_mono _ hlen hmem) (lineOf_mem_linesOf _ hi)
  · exact store_tx hlen hi
  · cases hq
    exact hfits.post hlen hposted

end Witness

end Virtio9P
