import Virtio9P.Chains
import Virtio9P.Lib.History

/-!
# Memory that the device reaches

`_start` allocates three buffers and maps them, `V9P_InitVirtIO` allocates and maps a vring each time it runs, and a
dozen ways out give back what was there. What is done to one block, read off the history (`opsOn`), is a life: it is
allocated, perhaps mapped, unmapped with the size it was mapped with, and freed. `Rings` and `Staged` say where in its
life each block is, and every step of `_start` moves the blocks on.

* `blocks_outlive_device`: in every run a block is freed once, after its mapping was ended; and if no chain survives a
  call of `V9P_Transact` inside a reset, a device with queues of proper sizes holds no chain when memory is freed.
* `silent_frees_reached`: `cleanup_bufs` runs while the device is up, so a chain that was left with it reaches `rx_buf`
  when that is freed.
-/

namespace Virtio9P

open Lib

/-! ## The life of a block -/

/-- The block that an operation is on. -/
def MemOp.block : MemOp → DmaBlock
  | .alloc b => b
  | .startDMA b _ => b
  | .endDMA b _ => b
  | .free b => b

attribute [simp] MemOp.block

/-- What was done to the block `b`, newest first. -/
def opsOn (b : DmaBlock) (events : List MemEvent) : List MemOp :=
  (events.map MemEvent.op).filter fun op => op.block = b

/-- The block is allocated and not mapped: it never was, or the one mapping was ended with the size it had. -/
def Loose (b : DmaBlock) (ops : List MemOp) : Prop :=
  ops = [.alloc b] ∨ ∃ size, ops = [.endDMA b size, .startDMA b size, .alloc b]

/-- A block that is freed is allocated and not mapped, and was not freed before. -/
def FreesLoose (e : MemEvent) (past : List MemEvent) : Prop := ∀ b, e.op = .free b → Loose b (opsOn b past)

section Ops

variable {b : DmaBlock} {e : MemEvent} {events : List MemEvent}

@[simp] theorem opsOn_cons (op : MemOp) (reached : List DmaBlock) :
    opsOn b (⟨op, reached⟩ :: events) = if op.block = b then op :: opsOn b events else opsOn b events := by
  unfold opsOn
  rw [List.map_cons, List.filter_cons]
  simp only [decide_eq_true_eq]

/-- Nothing is done to a block while something is done to others. -/
theorem opsOn_append_other {new : List MemEvent} (h : ∀ e ∈ new, e.op.block ≠ b) :
    opsOn b (new ++ events) = opsOn b events := by
  induction new with
  | nil => rfl
  | cons e new ih =>
    rw [List.cons_append, opsOn_cons, if_neg (h e List.mem_cons_self),
      ih fun e' he' => h e' (List.mem_cons_of_mem _ he')]

theorem freesLoose_of_other (h : ∀ b, e.op ≠ .free b) : FreesLoose e events := fun b hb => absurd hb (h b)

theorem freesLoose_of_loose {reached : List DmaBlock} (h : Loose b (opsOn b events)) :
    FreesLoose ⟨.free b, reached⟩ events := by
  intro b' hb'
  cases hb'
  exact h

/-- Different blocks that are not mapped can be freed in any order. -/
theorem always_frees (reached : List DmaBlock) (h : Always FreesLoose events) : ∀ {bs : List DmaBlock}, bs.Nodup →
    (∀ b ∈ bs, Loose b (opsOn b events)) → Always FreesLoose (bs.map (fun b => ⟨.free b, reached⟩) ++ events)
  | [], _, _ => h
  | b :: bs, hnodup, hloose => by
    obtain ⟨hb, hbs⟩ := List.nodup_cons.mp hnodup
    refine ⟨freesLoose_of_loose ?_, always_frees reached h hbs fun b' hb' => hloose b' (List.mem_cons_of_mem _ hb')⟩
    refine (opsOn_append_other fun e he => ?_).symm ▸ hloose b List.mem_cons_self
    obtain ⟨b', hb', rfl⟩ := List.mem_map.mp he
    rintro rfl
    exact hb hb'

end Ops

/-! ## Vrings -/

/-- A vring, and not one of the three buffers. -/
def DmaBlock.IsVring : DmaBlock → Prop
  | .vring _ => True
  | _ => False

/-- What was freed was not mapped, and where in its life each vring is. -/
structure Machine.Rings (m : Machine) : Prop where
  frees : Always FreesLoose m.memory
  /-- nothing was done to a vring that is not there -/
  unused : ∀ n, m.vrings ≤ n → opsOn (.vring n) m.memory = []
  /-- the vring of the queue is mapped -/
  queue : ∀ q, m.vq = some q → q.block < m.vrings ∧ 0 < q.dmaEntries ∧
    opsOn (.vring q.block) m.memory = [.startDMA (.vring q.block) q.memSize, .alloc (.vring q.block)]

/-- What happened since `m` was done to vrings, and the device held no chain. -/
def Machine.OnVrings (m m' : Machine) : Prop :=
  m'.buf = m.buf ∧ m'.dmaActive = m.dmaActive ∧
    ∃ new : List MemEvent, m'.memory = new ++ m.memory ∧ ∀ e ∈ new, e.op.block.IsVring ∧ e.reached = []

section Rings

variable {world : World} {m m' : Machine}

theorem rings_boot : Machine.boot.Rings := by
  refine ⟨trivial, fun _ _ => rfl, fun q hq => ?_⟩
  cases hq

/-- The clock, the traffic, the device, the interrupt and the buffers do not matter. -/
theorem Machine.Rings.frame (h : m.Rings) (hmem : m'.memory = m.memory) (hrings : m'.vrings = m.vrings)
    (hvq : ∀ q', m'.vq = some q' → ∃ q, m.vq = some q ∧ q'.block = q.block ∧ q'.memSize = q.memSize ∧
      q'.dmaEntries = q.dmaEntries) : m'.Rings := by
  refine ⟨hmem ▸ h.frees, fun n hn => ?_, fun q' hq' => ?_⟩
  · rw [hmem]
    exact h.unused n (hrings ▸ hn)
  · obtain ⟨q, hq, hblock, hsize, hentries⟩ := hvq q' hq'
    rw [hmem, hrings, hblock, hsize, hentries]
    exact h.queue q hq

theorem rings_of_still (hstill : m'.still = m.still) (h : m.Rings) : m'.Rings := by
  have hmem : m'.memory = m.memory := (congrArg Machine.memory hstill : m'.still.memory = m.still.memory)
  have hrings : m'.vrings = m.vrings := (congrArg Machine.vrings hstill : m'.still.vrings = m.still.vrings)
  refine h.frame hmem hrings fun q' hq' => ?_
  have hvq : m'.vq.map Line.still = m.vq.map Line.still := congrArg Machine.vq hstill
  rw [hq', Option.map_some] at hvq
  obtain ⟨q, hq, hsame⟩ := Option.map_eq_some_iff.mp hvq.symm
  exact ⟨q, hq, (congrArg Line.block hsame).symm, (congrArg Line.memSize hsame).symm,
    (congrArg Line.dmaEntries hsame).symm⟩

theorem rings_removeInterrupt (h : m.Rings) : (v9pRemoveInterrupt world m).2.Rings := by
  rw [removeInterrupt_eq]
  split
  · obtain ⟨status, programmed, revoked, hq⟩ := quiesced_eq world m
    rw [hq]
    refine h.frame rfl rfl fun q' hq' => ?_
    obtain ⟨q, hvq, rfl⟩ := Option.map_eq_some_iff.mp hq'
    exact ⟨q, hvq, rfl, rfl, rfl⟩
  · exact h

/-- A vring that was given back. -/
theorem rings_discarded (hvq : m.vq = none) (h : m.Rings) {m₁ : Machine} (hdisc : m.Discarded m₁) : m₁.Rings := by
  have hnew : opsOn (.vring m.vrings) m.memory = [] := h.unused _ le_rfl
  have hunused : ∀ n, m.vrings + 1 ≤ n → m.vrings ≠ n ∧ opsOn (.vring n) m.memory = [] :=
    fun n hn => ⟨by omega, h.unused n (by omega)⟩
  refine ⟨?_, ?_, fun q hq => ?_⟩
  · cases hdisc with
    | none => exact h.frees
    | unmapped =>
      refine ⟨freesLoose_of_loose (.inl ?_), freesLoose_of_other (by simp), h.frees⟩
      simp [Machine.withVring, Machine.noted, hnew]
    | mapped size =>
      refine ⟨freesLoose_of_loose (.inr ⟨size, ?_⟩), freesLoose_of_other (by simp), freesLoose_of_other (by simp),
        freesLoose_of_other (by simp), h.frees⟩
      simp [Machine.withVring, Machine.noted, hnew]
  · cases hdisc with
    | none => exact h.unused
    | unmapped => exact fun n hn => by simp [Machine.withVring, Machine.noted, hunused n hn]
    | mapped size => exact fun n hn => by simp [Machine.withVring, Machine.noted, hunused n hn]
  · rw [hdisc.vq, hvq] at hq
    cases hq

/-- `V9P_InitVirtIO` maps the vring of its queue, and gives back one that it does not use. -/
theorem rings_init (hvq : m.vq = none) (h : m.Rings) : (v9pInitVirtio world m).2.Rings := by
  refine initVirtio_ind (P := fun _ => Machine.Rings) hvq (fun m₁ status programmed n hdisc => ?_)
    fun t driverOk n _ _ _ => ?_
  · exact (rings_discarded hvq h hdisc).frame rfl rfl fun q hq => ⟨q, hq, rfl, rfl, rfl⟩
  · refine ⟨⟨freesLoose_of_other (by simp), freesLoose_of_other (by simp), h.frees⟩, fun k hk => ?_, fun q hq => ?_⟩
    · obtain ⟨hne, hk'⟩ : m.vrings ≠ k ∧ m.vrings ≤ k := by
        have hle : m.vrings + 1 ≤ k := hk
        omega
      simp [Machine.ready, Machine.withVring, Machine.noted, hne, h.unused k hk']
    · cases hq
      refine ⟨Nat.lt_succ_self _, Nat.one_pos, ?_⟩
      simp [Machine.ready, Machine.withVring, Machine.noted, h.unused m.vrings le_rfl]

theorem onVrings_init (hvq : m.vq = none) : m.OnVrings (v9pInitVirtio world m).2 := by
  refine initVirtio_ind (P := fun _ => m.OnVrings) hvq (fun m₁ status programmed n hdisc => ?_)
    fun t driverOk n _ _ _ => ?_
  · cases hdisc with
    | none => exact ⟨rfl, rfl, [], rfl, by simp⟩
    | unmapped => exact ⟨rfl, rfl, [_, _], rfl, by simp [MemOp.block, DmaBlock.IsVring]⟩
    | mapped size => exact ⟨rfl, rfl, [_, _, _, _], rfl, by simp [MemOp.block, DmaBlock.IsVring]⟩
  · exact ⟨rfl, rfl, [_, _], rfl, by simp [MemOp.block, DmaBlock.IsVring]⟩

/-- `V9P_CleanupVirtIO` ends the mapping of the vring and frees it. -/
theorem rings_cleanup (hlive : m.Live → (world.modern || world.bar0) = true) (h : m.Rings) :
    (v9pCleanupVirtio world m).2.Rings := by
  obtain ⟨status, programmed, revoked, hq⟩ := quiesced_eq world m
  rw [cleanupVirtio_eq hlive, hq]
  cases hvq : m.vq with
  | none => exact ⟨h.frees, h.unused, fun q hq' => (by cases hq')⟩
  | some q =>
    obtain ⟨hlt, hentries, hops⟩ := h.queue q hvq
    have hreleased : q.released = [⟨.free (.vring q.block), []⟩, ⟨.endDMA (.vring q.block) q.memSize, []⟩] := by
      rw [Line.released, if_pos hentries]
    have hends : opsOn (.vring q.block) (⟨.endDMA (.vring q.block) q.memSize, []⟩ :: m.memory) =
        [.endDMA (.vring q.block) q.memSize, .startDMA (.vring q.block) q.memSize, .alloc (.vring q.block)] := by
      simp [hops]
    refine ⟨?_, fun n hn => ?_, fun q' hq' => (by cases hq')⟩
    · show Always FreesLoose (q.released ++ m.memory)
      rw [hreleased]
      exact ⟨freesLoose_of_loose (.inr ⟨_, hends⟩), freesLoose_of_other (by simp), h.frees⟩
    · have hne : q.block ≠ n := (Nat.lt_of_lt_of_le hlt hn).ne
      show opsOn (.vring n) (q.released ++ m.memory) = []
      simp [hreleased, hne, h.unused n hn]

theorem onVrings_cleanup (hlive : m.Live → (world.modern || world.bar0) = true) :
    m.OnVrings (v9pCleanupVirtio world m).2 := by
  obtain ⟨status, programmed, revoked, hq⟩ := quiesced_eq world m
  rw [cleanupVirtio_eq hlive, hq]
  refine ⟨rfl, rfl, m.vq.elim [] Line.released, rfl, ?_⟩
  cases m.vq with
  | none => exact fun e he => absurd he List.not_mem_nil
  | some q =>
    intro e he
    simp only [Option.elim, Line.released, List.mem_cons] at he
    rcases he with rfl | he
    · exact ⟨trivial, rfl⟩
    · split at he
      · cases List.mem_singleton.mp he
        exact ⟨trivial, rfl⟩
      · exact absurd he List.not_mem_nil

end Rings

/-! ## Buffers -/

/-- Where a buffer is in its life. -/
inductive BufferStage where
  | absent
  | fresh
  /-- `StartDMA` has returned -/
  | begun
  | mapped
  | ended
  deriving DecidableEq

namespace BufferStage

/-- `…_buf != NULL`. -/
def present : BufferStage → Bool
  | .absent => false
  | _ => true

/-- `…_dma_active`. -/
def active : BufferStage → Bool
  | .mapped => true
  | _ => false

end BufferStage

/-- The size that a buffer is mapped with. -/
def DmaBlock.size : DmaBlock → Nat
  | .flush => 16
  | _ => p9MSize.toNat

/-- What was done to a buffer up to a stage. -/
def BufferStage.ops (b : DmaBlock) : BufferStage → List MemOp
  | .absent => []
  | .fresh => [.alloc b]
  | .begun | .mapped => [.startDMA b b.size, .alloc b]
  | .ended => [.endDMA b b.size, .startDMA b b.size, .alloc b]

structure Machine.At (m : Machine) (b : DmaBlock) (stage : BufferStage) : Prop where
  buf : m.buf b = stage.present
  active : m.dmaActive b = stage.active
  ops : opsOn b m.memory = stage.ops b

/-- The stage of each of the three buffers. -/
def Machine.Staged (stage : DmaBlock → BufferStage) (m : Machine) : Prop :=
  ∀ b : DmaBlock, ¬ b.IsVring → m.At b (stage b)

/-- The device held no chain when something was done to memory. -/
def Machine.Unreached (m : Machine) : Prop := ∀ e ∈ m.memory, e.reached = []

/-- The books while there are buffers. -/
structure Machine.Booked (stage : DmaBlock → BufferStage) (m : Machine) : Prop where
  rings : m.Rings
  staged : m.Staged stage
  unreached : m.Unreached

section Buffers

variable {world : World} {m m' : Machine} {stage : DmaBlock → BufferStage}

theorem booked_boot : Machine.boot.Booked fun _ => .absent :=
  ⟨rings_boot, fun _ _ => ⟨rfl, rfl, rfl⟩, fun _ he => absurd he List.not_mem_nil⟩

theorem Machine.Booked.frame (h : m.Booked stage) (hrings : m'.Rings) (hmem : m'.memory = m.memory)
    (hbuf : m'.buf = m.buf) (hdma : m'.dmaActive = m.dmaActive) : m'.Booked stage := by
  refine ⟨hrings, fun b hb => ?_, fun _ he => h.unreached _ (hmem ▸ he)⟩
  obtain ⟨hb₁, hb₂, hb₃⟩ := h.staged b hb
  exact ⟨hbuf ▸ hb₁, hdma ▸ hb₂, hmem ▸ hb₃⟩

theorem booked_of_still (hstill : m'.still = m.still) (h : m.Booked stage) : m'.Booked stage :=
  h.frame (rings_of_still hstill h.rings) (congrArg Machine.memory hstill : m'.still.memory = m.still.memory)
    (congrArg Machine.buf hstill : m'.still.buf = m.still.buf)
    (congrArg Machine.dmaActive hstill : m'.still.dmaActive = m.still.dmaActive)

/-- What is done to vrings is not done to the buffers. -/
theorem Machine.Booked.onVrings (h : m.Booked stage) (hrings : m'.Rings) (hnew : m.OnVrings m') : m'.Booked stage := by
  obtain ⟨hbuf, hdma, new, hmem, hall⟩ := hnew
  refine ⟨hrings, fun b hb => ?_, fun e he => ?_⟩
  · obtain ⟨hb₁, hb₂, hb₃⟩ := h.staged b hb
    refine ⟨hbuf ▸ hb₁, hdma ▸ hb₂, ?_⟩
    rw [hmem, opsOn_append_other, hb₃]
    rintro e he rfl
    exact hb (hall e he).1
  · rw [hmem] at he
    rcases List.mem_append.mp he with he | he
    · exact (hall e he).2
    · exact h.unreached e he

theorem removeInterrupt_same (m : Machine) : (v9pRemoveInterrupt world m).2.memory = m.memory ∧
    (v9pRemoveInterrupt world m).2.buf = m.buf ∧ (v9pRemoveInterrupt world m).2.dmaActive = m.dmaActive := by
  obtain ⟨status, programmed, revoked, hq⟩ := quiesced_eq world m
  rw [removeInterrupt_eq, hq]
  split
  · exact ⟨rfl, rfl, rfl⟩
  · exact ⟨rfl, rfl, rfl⟩

theorem booked_removeInterrupt (h : m.Booked stage) : (v9pRemoveInterrupt world m).2.Booked stage := by
  obtain ⟨hmem, hbuf, hdma⟩ := removeInterrupt_same m
  exact h.frame (rings_removeInterrupt h.rings) hmem hbuf hdma

/-- The books, with no mapping that was begun and neither kept nor ended. -/
def Machine.Orderly (m : Machine) : Prop :=
  ∃ stage : DmaBlock → BufferStage, m.Booked stage ∧ ∀ b : DmaBlock, ¬ b.IsVring → stage b ≠ .begun

theorem Machine.Orderly.imp (h : m.Orderly) (himp : ∀ stage, m.Booked stage → m'.Booked stage) : m'.Orderly := by
  obtain ⟨stage, hbooked, hsettled⟩ := h
  exact ⟨stage, himp stage hbooked, hsettled⟩

theorem Machine.Orderly.rings (h : m.Orderly) : m.Rings := h.elim fun _ hs => hs.1.rings

theorem Machine.Orderly.unreached (h : m.Orderly) : m.Unreached := h.elim fun _ hs => hs.1.unreached

/-- The books are in order between transactions. -/
def orderlyLink (world : World) : LinkInv (busLink world) where
  Up := fun m => m.Traced world ∧ m.Orderly
  Down := fun m => m.vq = none ∧ m.Orderly
  poll := keeps_poll fun _ _ h hm => ⟨traced_of_still h hm.1, hm.2.imp fun _ => booked_of_still h⟩
  drain := keeps_drain fun _ _ h hm => ⟨traced_of_still h hm.1, hm.2.imp fun _ => booked_of_still h⟩
  cleanup := fun hm => ⟨cleanupVirtio_vq hm.1, hm.2.imp fun _ hb =>
    hb.onVrings (rings_cleanup hm.1.2 hb.rings) (onVrings_cleanup hm.1.2)⟩
  init := fun _ hm => ⟨traced_init hm.1, hm.2.imp fun _ hb =>
    hb.onVrings (rings_init hm.1 hb.rings) (onVrings_init hm.1)⟩
  alloc := fun _ m hm => ⟨traced_of_bus (offline_grant m) hm.1, hm.2.imp fun _ hb =>
    hb.frame (hb.rings.frame rfl rfl fun q hq => ⟨q, hq, rfl, rfl, rfl⟩) rfl rfl rfl⟩

/-! ## Setting up the buffers -/

/-- The books, while the device holds no chain. -/
def Machine.Shelved (stage : DmaBlock → BufferStage) (m : Machine) : Prop := m.Booked stage ∧ m.reached = []

/-- An entry about a buffer, which moves it on. -/
theorem Machine.Shelved.note (h : m.Shelved stage) {b : DmaBlock} (hb : ¬ b.IsVring) {next : BufferStage} {op : MemOp}
    (hfree : ∀ b, op ≠ .free b) (hblock : op.block = b) (hops : next.ops b = op :: (stage b).ops b)
    {buf dmaActive : DmaBlock → Bool} (hbuf : buf b = next.present) (hbuf' : ∀ b', b' ≠ b → buf b' = m.buf b')
    (hdma : dmaActive b = next.active) (hdma' : ∀ b', b' ≠ b → dmaActive b' = m.dmaActive b') :
    Machine.Shelved (Function.update stage b next)
      { m with memory := ⟨op, m.reached⟩ :: m.memory, buf := buf, dmaActive := dmaActive } := by
  have hother : ∀ b', b' ≠ b → opsOn b' (⟨op, m.reached⟩ :: m.memory) = opsOn b' m.memory := by
    intro b' hne
    rw [opsOn_cons, if_neg fun h' => hne (h'.symm.trans hblock)]
  have hvring : ∀ n, DmaBlock.vring n ≠ b := by
    rintro n rfl
    exact hb trivial
  refine ⟨⟨⟨⟨freesLoose_of_other hfree, h.1.rings.frees⟩, fun n hn => ?_, fun q hq => ?_⟩, fun b' hb' => ?_,
    fun e he => ?_⟩, h.2⟩
  · exact (hother _ (hvring n)).trans (h.1.rings.unused n hn)
  · obtain ⟨hlt, hentries, hq'⟩ := h.1.rings.queue q hq
    exact ⟨hlt, hentries, (hother _ (hvring q.block)).trans hq'⟩
  · obtain ⟨h₁, h₂, h₃⟩ := h.1.staged b' hb'
    by_cases heq : b' = b
    · subst heq
      rw [Function.update_self]
      refine ⟨hbuf, hdma, ?_⟩
      rw [opsOn_cons, if_pos hblock, h₃, hops]
    · rw [Function.update_of_ne heq]
      exact ⟨(hbuf' b' heq).trans h₁, (hdma' b' heq).trans h₂, (hother b' heq).trans h₃⟩
  · rcases List.mem_cons.mp he with rfl | he
    · exact h.2
    · exact h.1.unreached e he

/-- The same, if the handler does not look different for it. -/
theorem noteMemory_shelved {b : DmaBlock} (hb : ¬ b.IsVring) (next : BufferStage) {op : MemOp}
    (hfree : ∀ b, op ≠ .free b) (hblock : op.block = b) (hops : next.ops b = op :: (stage b).ops b)
    (hpresent : next.present = (stage b).present) (hactive : next.active = (stage b).active) :
    Ends (Machine.Shelved stage) (noteMemory op) fun _ => Machine.Shelved (Function.update stage b next) :=
  fun _ hm => hm.note hb hfree hblock hops ((hm.1.staged b hb).buf.trans hpresent.symm) (fun _ _ => rfl)
    ((hm.1.staged b hb).active.trans hactive.symm) fun _ _ => rfl

theorem Machine.Shelved.later (h : m.Shelved stage) (n : Nat) : Machine.Shelved stage { m with now := n } :=
  ⟨h.1.frame (h.1.rings.frame rfl rfl fun q hq => ⟨q, hq, rfl, rfl, rfl⟩) rfl rfl rfl, h.2⟩

theorem shelved_grant : Ends (Machine.Shelved stage) (grant world) fun _ => Machine.Shelved stage :=
  fun m hm => hm.later (m.now + 1)

theorem allocBuffer_shelved {b : DmaBlock} (hb : ¬ b.IsVring) (habsent : stage b = .absent) :
    Ends (Machine.Shelved stage) (allocBuffer world b) fun ok =>
      Machine.Shelved (if ok then Function.update stage b .fresh else stage) := by
  refine shelved_grant.bind fun ok => Ends.ite (fun _ => ?_) fun _ => Ends.pure fun m hm => hm
  intro m hm
  refine hm.note hb (by simp) rfl (by rw [habsent]; rfl) (Function.update_self ..) (fun b' hne => ?_) ?_ fun _ _ => rfl
  · exact Function.update_of_ne hne ..
  · exact (hm.1.staged b hb).active.trans (by rw [habsent]; rfl)

/-- The three buffers are at this stage. -/
theorem Machine.Shelved.congr {stage' : DmaBlock → BufferStage} (h : m.Shelved stage)
    (heq : ∀ b : DmaBlock, ¬ b.IsVring → stage' b = stage b) : m.Shelved stage' := by
  refine ⟨⟨h.1.rings, fun b hb => ?_, h.1.unreached⟩, h.2⟩
  rw [heq b hb]
  exact h.1.staged b hb

/-- Step 9: when it succeeds the three buffers are there. -/
theorem allocBuffers_shelved :
    Ends (Machine.Shelved fun _ => .absent) (allocBuffers world) fun ok m =>
      if ok then m.Shelved fun _ => .fresh else m.Rings ∧ m.Unreached := by
  refine (allocBuffer_shelved (b := .tx) id rfl).bind fun tx => ?_
  refine (allocBuffer_shelved (b := .rx) id ?_).bind fun rx => ?_
  · cases tx <;> rfl
  refine (allocBuffer_shelved (b := .flush) id ?_).bind fun flush => Ends.pure fun m hm => ?_
  · cases tx <;> cases rx <;> rfl
  by_cases hall : (tx && rx && flush) = true
  · rw [if_pos hall]
    obtain ⟨⟨rfl, rfl⟩, rfl⟩ : (tx = true ∧ rx = true) ∧ flush = true := by simpa using hall
    refine hm.congr fun b hb => ?_
    cases b with
    | vring n => exact absurd trivial hb
    | tx => rfl
    | rx => rfl
    | flush => rfl
  · rw [if_neg hall]
    exact ⟨hm.1.rings, hm.1.unreached⟩

/-- The beginning of a mapping. -/
theorem startDMA_shelved {b : DmaBlock} (hb : ¬ b.IsVring) (hfresh : stage b = .fresh) :
    Ends (Machine.Shelved stage) (startDMA world b b.size) fun n =>
      Machine.Shelved (if n = 0 then stage else Function.update stage b .begun) := by
  refine Ends.bind (Q := fun _ => Machine.Shelved stage) (fun m hm => hm.later (m.now + 1)) fun t =>
    Ends.ite (fun _ => Ends.pure fun m hm => hm) fun hn => ?_
  refine (noteMemory_shelved hb .begun (by simp) rfl (by rw [hfresh]; rfl) (by rw [hfresh]; rfl)
    (by rw [hfresh]; rfl)).bind fun _ => Ends.pure fun m hm => ?_
  rwa [if_neg hn]

theorem keepMapping_shelved {b : DmaBlock} (hb : ¬ b.IsVring) :
    Ends (Machine.Shelved (Function.update stage b .begun)) (keepMapping b) fun _ =>
      Machine.Shelved (Function.update stage b .mapped) := by
  intro m hm
  refine ⟨⟨hm.1.rings.frame rfl rfl fun q hq => ⟨q, hq, rfl, rfl, rfl⟩, fun b' hb' => ?_, hm.1.unreached⟩, hm.2⟩
  obtain ⟨h₁, h₂, h₃⟩ := hm.1.staged b' hb'
  by_cases heq : b' = b
  · subst heq
    rw [Function.update_self] at h₁ h₃ ⊢
    exact ⟨h₁, Function.update_self .., h₃⟩
  · rw [Function.update_of_ne heq] at h₁ h₂ h₃ ⊢
    exact ⟨h₁, (Function.update_of_ne heq ..).trans h₂, h₃⟩

/-- The end of a mapping that is not kept. -/
theorem giveUp_shelved {b : DmaBlock} (hb : ¬ b.IsVring) :
    Ends (Machine.Shelved (Function.update stage b .begun))
      (noteMemory (.endDMA b b.size) >>= fun _ => (pure false : StateM Machine Bool)) fun ok m =>
      ok = false ∧ m.Shelved (Function.update stage b .ended) := by
  refine (noteMemory_shelved hb .ended (by simp) rfl ?_ ?_ ?_).bind fun _ => Ends.pure fun m hm => ⟨rfl, ?_⟩
  · rw [Function.update_self]
    rfl
  · rw [Function.update_self]
    rfl
  · rw [Function.update_self]
    rfl
  · rwa [Function.update_idem] at hm

/-- What comes of mapping a buffer. -/
def Mapping (stage : DmaBlock → BufferStage) (b : DmaBlock) (ok : Bool) (m : Machine) : Prop :=
  if ok then m.Shelved (Function.update stage b .mapped)
  else m.Shelved stage ∨ m.Shelved (Function.update stage b .ended)

theorem mapBuffer_shelved {b : DmaBlock} (hb : ¬ b.IsVring) (hfresh : stage b = .fresh) :
    Ends (Machine.Shelved stage) (mapBuffer world b b.size) (Mapping stage b) := by
  have hgive : Ends (Machine.Shelved (Function.update stage b .begun))
      (noteMemory (.endDMA b b.size) >>= fun _ => (pure false : StateM Machine Bool)) (Mapping stage b) := by
    refine (giveUp_shelved hb).post fun ok m hm => ?_
    rw [hm.1]
    exact .inr hm.2
  refine (startDMA_shelved hb hfresh).bind fun n => Ends.ite (fun hn => ?_) fun hn => ?_
  · rw [if_pos hn]
    exact Ends.pure fun m hm => .inl hm
  · rw [if_neg hn]
    refine Ends.ite (fun _ => hgive) fun _ => shelved_grant.bind fun _ => Ends.ite (fun _ => ?_) fun _ => hgive
    exact keepMapping_shelved hb

theorem mapFlush_shelved (hfresh : stage .flush = .fresh) :
    Ends (Machine.Shelved stage) (mapFlush world) (Mapping stage .flush) := by
  have hgive : Ends (Machine.Shelved (Function.update stage .flush .begun))
      (noteMemory (.endDMA .flush 16) >>= fun _ => (pure false : StateM Machine Bool)) (Mapping stage .flush) := by
    refine (giveUp_shelved (b := .flush) id).post fun ok m hm => ?_
    rw [hm.1]
    exact .inr hm.2
  refine (startDMA_shelved (b := .flush) id hfresh).bind fun n => Ends.ite (fun hn => ?_) fun hn => ?_
  · rw [if_pos hn]
    exact Ends.pure fun m hm => .inl hm
  · rw [if_neg hn]
    refine shelved_grant.bind fun _ => Ends.ite (fun _ => ?_) fun _ => hgive
    exact keepMapping_shelved id

theorem settled_update {stage : DmaBlock → BufferStage} (h : ∀ b : DmaBlock, ¬ b.IsVring → stage b ≠ .begun)
    (next : BufferStage) (hnext : next ≠ .begun) (b₀ : DmaBlock) :
    ∀ b : DmaBlock, ¬ b.IsVring → Function.update stage b₀ next b ≠ .begun := by
  intro b hb
  by_cases heq : b = b₀
  · subst heq
    rwa [Function.update_self]
  · rw [Function.update_of_ne heq]
    exact h b hb

theorem Mapping.orderly {b : DmaBlock} {ok : Bool} (h : Mapping stage b ok m)
    (hsettled : ∀ b : DmaBlock, ¬ b.IsVring → stage b ≠ .begun) : m.Orderly := by
  cases ok with
  | true => exact ⟨_, h.1, settled_update hsettled _ (by decide) b⟩
  | false =>
    rcases h with h | h
    · exact ⟨_, h.1, hsettled⟩
    · exact ⟨_, h.1, settled_update hsettled _ (by decide) b⟩

/-- Step 9b, whatever comes of it. -/
theorem mapBuffers_orderly :
    Ends (Machine.Shelved fun _ => .fresh) (mapBuffers world) fun _ => Machine.Orderly := by
  have hfresh : ∀ b : DmaBlock, ¬ b.IsVring → (fun _ => .fresh : DmaBlock → BufferStage) b ≠ .begun := by simp
  have htx := settled_update hfresh .mapped (by decide) .tx
  have hrx := settled_update htx .mapped (by decide) .rx
  refine (mapBuffer_shelved (b := .tx) id rfl).bind fun ok => ?_
  cases ok with
  | false => exact Ends.pure fun m hm => Mapping.orderly hm hfresh
  | true =>
    refine Ends.bind (mapBuffer_shelved (b := .rx) id rfl) fun ok => ?_
    cases ok with
    | false => exact Ends.pure fun m hm => Mapping.orderly hm htx
    | true => exact (mapFlush_shelved rfl).post fun _ m hm => hm.orderly hrx

/-! ## Giving them back -/

/-- The machine when these operations were noted, newest first. -/
def Machine.noting (m : Machine) (ops : List MemOp) : Machine :=
  { m with memory := ops.map (⟨·, m.reached⟩) ++ m.memory }

theorem noting_noting (ops ops' : List MemOp) : (m.noting ops).noting ops' = m.noting (ops' ++ ops) := by
  unfold Machine.noting
  rw [List.map_append, List.append_assoc]
  rfl

theorem endMapping_eq (b : DmaBlock) :
    (endMapping b b.size m).2 = m.noting (([b].filter m.dmaActive).map fun b => .endDMA b b.size) := by
  cases h : m.dmaActive b <;>
    simp [endMapping, Machine.noting, noteMemory, h, bind, StateT.bind, get, getThe, MonadStateOf.get, StateT.get, pure,
      StateT.pure, modify, modifyGet, MonadStateOf.modifyGet, StateT.modifyGet]

theorem freeBuffer_eq (b : DmaBlock) : (freeBuffer b m).2 = m.noting (([b].filter m.buf).map .free) := by
  cases h : m.buf b <;>
    simp [freeBuffer, Machine.noting, noteMemory, h, bind, StateT.bind, get, getThe, MonadStateOf.get, StateT.get, pure,
      StateT.pure, modify, modifyGet, MonadStateOf.modifyGet, StateT.modifyGet]

/-- **`cleanup_bufs` ends the mappings and frees the buffers.** -/
theorem cleanupBufs_eq : (cleanupBufs m).2 = m.noting (([.tx, .rx, .flush].filter m.buf).map .free ++
    ([.tx, .rx, .flush].filter m.dmaActive).map fun b => .endDMA b b.size) := by
  have hrun : (cleanupBufs m).2 = (freeBuffer .tx (freeBuffer .rx (freeBuffer .flush
      (endMapping .tx DmaBlock.tx.size (endMapping .rx DmaBlock.rx.size
        (endMapping .flush DmaBlock.flush.size m).2).2).2).2).2).2 := rfl
  have hbuf : ∀ ops, (m.noting ops).buf = m.buf := fun _ => rfl
  have hdma : ∀ ops, (m.noting ops).dmaActive = m.dmaActive := fun _ => rfl
  rw [hrun]
  simp only [endMapping_eq, freeBuffer_eq, noting_noting, hbuf, hdma]
  congr 1
  rw [show [DmaBlock.tx, .rx, .flush] = [.tx] ++ ([.rx] ++ [.flush]) from rfl]
  simp only [List.filter_append, List.map_append, List.append_assoc]

theorem opsOn_noting (b : DmaBlock) (ops : List MemOp) :
    opsOn b (m.noting ops).memory = ops.filter (fun op => op.block = b) ++ opsOn b m.memory := by
  unfold opsOn Machine.noting
  rw [List.map_append, List.filter_append, List.map_map]
  congr 2
  exact List.map_id _

/-- A mapping that is kept is ended by `cleanup_bufs`. -/
theorem opsOn_ended (h : m.Booked stage) (b : DmaBlock) (hb : ¬ b.IsVring) :
    opsOn b (m.noting (([.tx, .rx, .flush].filter m.dmaActive).map fun b => .endDMA b b.size)).memory =
      if (stage b).active then .endDMA b b.size :: (stage b).ops b else (stage b).ops b := by
  obtain ⟨-, hactive, hops⟩ := h.staged b hb
  have hends : (([.tx, .rx, .flush].filter m.dmaActive).map fun b => MemOp.endDMA b b.size).filter
      (fun op => op.block = b) = if m.dmaActive b then [.endDMA b b.size] else [] := by
    rw [List.filter_map, List.filter_filter]
    cases b with
    | vring n => exact absurd trivial hb
    | tx => cases hm : m.dmaActive .tx <;> simp [hm]
    | rx => cases hm : m.dmaActive .rx <;> simp [hm]
    | flush => cases hm : m.dmaActive .flush <;> simp [hm]
  rw [opsOn_noting, hends, hops, hactive]
  split
  · rfl
  · rfl

/-- What `cleanup_bufs` frees is not mapped any more. -/
theorem loose_ended (h : m.Booked stage) {b : DmaBlock} (hb : ¬ b.IsVring) (hbegun : stage b ≠ .begun)
    (hbuf : m.buf b = true) :
    Loose b (opsOn b (m.noting (([.tx, .rx, .flush].filter m.dmaActive).map fun b => .endDMA b b.size)).memory) := by
  rw [opsOn_ended h b hb]
  rw [(h.staged b hb).buf] at hbuf
  cases hstage : stage b with
  | absent =>
    rw [hstage] at hbuf
    cases hbuf
  | fresh => exact .inl rfl
  | begun => exact absurd hstage hbegun
  | mapped => exact .inr ⟨_, rfl⟩
  | ended => exact .inr ⟨_, rfl⟩

/-- Operations on buffers do not touch the vrings. -/
theorem Machine.Rings.noting (h : m.Rings) {ops : List MemOp} (hfrees : Always FreesLoose (m.noting ops).memory)
    (hops : ∀ op ∈ ops, ¬ op.block.IsVring) : (m.noting ops).Rings := by
  have hsame : ∀ n, opsOn (.vring n) (m.noting ops).memory = opsOn (.vring n) m.memory := by
    intro n
    refine opsOn_append_other fun e he => ?_
    obtain ⟨op, hop, rfl⟩ := List.mem_map.mp he
    intro heq
    refine hops op hop ?_
    rw [show op.block = .vring n from heq]
    trivial
  exact ⟨hfrees, fun n hn => (hsame n).trans (h.unused n hn), fun q hq => hsame q.block ▸ h.queue q hq⟩

/-- After `cleanup_bufs` what was freed was not mapped. -/
theorem rings_cleanupBufs (h : m.Orderly) : (cleanupBufs m).2.Rings := by
  obtain ⟨stage, hbooked, hsettled⟩ := h
  have hbuffer : ∀ b ∈ [DmaBlock.tx, .rx, .flush], ¬ b.IsVring := by
    intro b hb
    simp only [List.mem_cons, List.not_mem_nil, or_false] at hb
    rcases hb with rfl | rfl | rfl <;> exact id
  rw [cleanupBufs_eq]
  refine hbooked.rings.noting ?_ fun op hop => ?_
  · have hended : Always FreesLoose
        (m.noting (([.tx, .rx, .flush].filter m.dmaActive).map fun b => .endDMA b b.size)).memory := by
      show Always FreesLoose (((([.tx, .rx, .flush].filter m.dmaActive).map fun b => MemOp.endDMA b b.size).map
        (⟨·, m.reached⟩)) ++ m.memory)
      induction [DmaBlock.tx, .rx, .flush].filter m.dmaActive with
      | nil => exact hbooked.rings.frees
      | cons b bs ih => exact ⟨freesLoose_of_other (by simp), ih⟩
    have hall := always_frees m.reached hended
      (List.Nodup.filter m.buf (by decide : [DmaBlock.tx, .rx, .flush].Nodup)) fun b hb => ?_
    · rw [← noting_noting, Machine.noting, List.map_map]
      exact hall
    · obtain ⟨hb, hbuf⟩ := List.mem_filter.mp hb
      exact loose_ended hbooked (hbuffer b hb) (hsettled b (hbuffer b hb)) hbuf
  · rcases List.mem_append.mp hop with hop | hop
    · obtain ⟨b, hb, rfl⟩ := List.mem_map.mp hop
      exact hbuffer b (List.mem_filter.mp hb).1
    · obtain ⟨b, hb, rfl⟩ := List.mem_map.mp hop
      exact hbuffer b (List.mem_filter.mp hb).1

theorem unreached_cleanupBufs (h : m.Unreached) (hreached : m.reached = []) : (cleanupBufs m).2.Unreached := by
  rw [cleanupBufs_eq]
  intro e he
  rcases List.mem_append.mp he with he | he
  · obtain ⟨op, -, rfl⟩ := List.mem_map.mp he
    exact hreached
  · exact h e he

end Buffers

/-! ## Runs -/

section Runs

variable {world : World} {m : Machine}

/-- The device has nothing that the driver does not wait for. -/
theorem Tracks.mem_held {q : Line} {out : List (Nat × Chain Cookie)} (h : Tracks q.traffic out) {r : Nat}
    (hr : r ∈ q.held) : r ∈ out.map Prod.fst := by
  have hmem := (List.mem_filter.mp hr).1
  exact h.live.mem_iff.mpr (List.append_assoc .. ▸ List.mem_append_right _ hmem)

theorem reached_of_owes (h : m.Owes 0) : m.reached = [] := by
  unfold Machine.reached
  cases hvq : m.vq with
  | none => rfl
  | some q =>
    obtain ⟨out, htracks, hlen⟩ := h q hvq
    obtain rfl : out = [] := List.length_eq_zero_iff.mp (Nat.le_zero.mp hlen)
    have hheld : q.held = [] := List.eq_nil_iff_forall_not_mem.mpr fun r hr => List.not_mem_nil (htracks.mem_held hr)
    show (if m.Live then q.held.flatMap q.chainBlocks else []) = []
    rw [hheld, List.flatMap_nil, ite_self]

theorem reached_of_none (h : m.vq = none) : m.reached = [] := by
  unfold Machine.reached
  rw [h]

/-- The device has nothing on a queue that was just set up, whatever its size. -/
theorem reached_init (hvq : m.vq = none) : (v9pInitVirtio world m).2.reached = [] :=
  initVirtio_ind (P := fun _ m' => m'.reached = []) hvq
    (fun _ _ _ _ hdisc => reached_of_none (hdisc.vq.trans hvq)) fun _ _ _ _ _ _ => ite_self _

/-- What is left of the books when the buffers were given back. -/
structure Closed (world : World) (s : St Machine) : Prop where
  rings : s.w.Rings
  unreached : world.SizesDivide → ReturnsClear true s.log → s.w.Unreached

/-- Up to the first message. -/
structure Quiet (world : World) (stage : DmaBlock → BufferStage) (s : St Machine) : Prop where
  log : s.log = []
  chained : world.SizesDivide → Chained world false 0 s
  traced : s.w.Traced world
  shelved : s.w.Shelved stage

theorem Quiet.closed {stage : DmaBlock → BufferStage} {s : St Machine} (h : Quiet world stage s) : Closed world s :=
  ⟨h.shelved.1.rings, fun _ _ => h.shelved.1.unreached⟩

theorem Quiet.traced_closed {stage : DmaBlock → BufferStage} {s : St Machine} (h : Quiet world stage s) :
    s.w.Traced world ∧ Closed world s :=
  ⟨h.traced, h.closed⟩

/-- The chains and the books between transactions. The chains are known if the queues have proper sizes. -/
def memoryUpkeep (world : World) : Upkeep (busLink world) :=
  (Upkeep.given fun hsizes : world.SizesDivide => chainUpkeep hsizes).and (orderlyLink world).upkeep

theorem closed_cleanupBufs :
    Steps cleanupBufs (memoryUpkeep world).Inv fun s => s.w.Traced world ∧ Closed world s := by
  rintro s ⟨hchained, hthrough⟩
  refine ⟨traced_of_bus (offline_cleanupBufs s.w) hthrough.1.1, rings_cleanupBufs hthrough.1.2, fun hsizes hc => ?_⟩
  exact unreached_cleanupBufs hthrough.1.2.unreached (reached_of_owes ((hchained hsizes).owes hc))

theorem closed_removeInterrupt :
    Steps (v9pRemoveInterrupt world) (fun s => s.w.Traced world ∧ Closed world s)
      fun s => s.w.Traced world ∧ Closed world s := by
  rintro s ⟨htraced, hclosed⟩
  refine ⟨traced_removeInterrupt htraced, rings_removeInterrupt hclosed.rings, fun hsizes hc e he => ?_⟩
  exact hclosed.unreached hsizes hc e ((removeInterrupt_same s.w).1 ▸ he)

theorem closed_cleanup :
    Steps (v9pCleanupVirtio world) (fun s => s.w.Traced world ∧ Closed world s) (Closed world) := by
  rintro s ⟨htraced, hclosed⟩
  obtain ⟨-, -, new, hmem, hnew⟩ := onVrings_cleanup htraced.2
  refine ⟨rings_cleanup htraced.2 hclosed.rings, fun hsizes hc e he => ?_⟩
  rcases List.mem_append.mp ((hmem ▸ he : e ∈ new ++ s.w.memory)) with he | he
  · exact (hnew e he).2
  · exact hclosed.unreached hsizes hc e he

/-- The session keeps the books in order. -/
theorem serve_memory (calls lateCalls : List Callback) :
    Triple (memoryUpkeep world).Inv (serve world calls lateCalls) (fun _ => (memoryUpkeep world).Inv)
      (memoryUpkeep world).Safe := by
  have hnull : ∀ {s}, (memoryUpkeep world).Inv s → s.h.fidPool = none → (memoryUpkeep world).Safe .nullPool s :=
    fun hs _ => ⟨fun hsizes => (hs.1 hsizes).same, hs.2⟩
  refine serve_rule (T := (memoryUpkeep world).Inv) (N := (memoryUpkeep world).Inv)
    (O := (memoryUpkeep world).Inv) (D := (memoryUpkeep world).Inv) (K := (memoryUpkeep world).Inv) ?_
    ((memoryUpkeep world).run hnull [] calls) ?_ (fun handles => (memoryUpkeep world).run hnull handles lateCalls)
    (fun root => (memoryUpkeep world).clunk root) fun s hs => ⟨fun hsizes => (hs.1 hsizes).frame _ rfl, hs.2⟩
  · exact Steps.branches fun s hs => (memoryUpkeep world).alloc 0 hs
  · rintro s ⟨hchained, hthrough⟩
    exact ⟨fun hsizes => chained_removeInterrupt s (hchained hsizes), ⟨traced_removeInterrupt hthrough.1.1,
      hthrough.1.2.imp fun _ => booked_removeInterrupt⟩, hthrough.2⟩

/-- Before the device is set up: what leaves it alone and keeps the books. -/
theorem quiet_early {x : StateM Machine Bool} (hoff : Offline x) (hx : Ends (Machine.Booked fun _ => .absent) x
    fun _ => Machine.Booked fun _ => .absent) : Branches x (fun s => Quiet world (fun _ => .absent) s ∧ s.w.vq = none)
      (fun s => Quiet world (fun _ => .absent) s ∧ s.w.vq = none) (Closed world) := by
  refine (Steps.branches (Q := fun s => Quiet world (fun _ => .absent) s ∧ s.w.vq = none) fun s hs => ?_).weaken
    fun s hs => hs.1.closed
  have hvq : (x s.w).2.vq = none := (congrArg (·.2.2.1) (hoff s.w)).trans hs.2
  exact ⟨⟨hs.1.log, fun hsizes => (hs.1.chained hsizes).offline (hoff s.w), traced_of_bus (hoff s.w) hs.1.traced,
    hx s.w hs.1.shelved.1, reached_of_none hvq⟩, hvq⟩

theorem booked_grant {stage : DmaBlock → BufferStage} :
    Ends (Machine.Booked stage) (grant world) fun _ => Machine.Booked stage :=
  fun _ hm => hm.frame (hm.rings.frame rfl rfl fun q hq => ⟨q, hq, rfl, rfl, rfl⟩) rfl rfl rfl

theorem booked_findDevice {stage : DmaBlock → BufferStage} : ∀ n,
    Ends (Machine.Booked stage) (findDevice world n) fun _ => Machine.Booked stage
  | 0 => Ends.ret
  | n + 1 => booked_grant.bind fun _ => Ends.ite (fun _ => booked_findDevice n) fun _ => Ends.ret

theorem quiet_init : Branches (v9pInitVirtio world)
    (fun s => Quiet world (fun _ => .absent) s ∧ s.w.vq = none) (Quiet world fun _ => .absent) (Closed world) := by
  refine (Steps.branches (Q := Quiet world fun _ => .absent) fun s hs => ?_).weaken fun s hs => hs.closed
  obtain ⟨⟨hlog, hchained, -, hbooked, -⟩, hvq⟩ := hs
  exact ⟨hlog, fun hsizes => chained_init hsizes (hchained hsizes) hvq, traced_init hvq,
    hbooked.onVrings (rings_init hvq hbooked.rings) (onVrings_init hvq), reached_init hvq⟩

theorem quiet_installInterrupt : Branches (v9pInstallInterrupt world) (Quiet world fun _ => .absent)
    (Quiet world fun _ => .absent) fun s => s.w.Traced world ∧ Closed world s := by
  refine (Steps.branches (Q := Quiet world fun _ => .absent) fun s hs => ?_).weaken fun s hs => hs.traced_closed
  refine ⟨hs.log, fun hsizes => (hs.chained hsizes).offline (offline_installInterrupt s.w),
    traced_of_bus (offline_installInterrupt s.w) hs.traced, ?_⟩
  show (v9pInstallInterrupt world s.w).2.Shelved _
  obtain ⟨installed, n, hm'⟩ : ∃ installed, Later { s.w with irqInstalled := installed }
      (v9pInstallInterrupt world s.w).2 :=
    installInterrupt_spec
  rw [hm']
  exact ⟨hs.shelved.1.frame (hs.shelved.1.rings.frame rfl rfl fun q hq => ⟨q, hq, rfl, rfl, rfl⟩) rfl rfl rfl,
    hs.shelved.2⟩

theorem quiet_allocBuffers : Branches (allocBuffers world) (Quiet world fun _ => .absent)
    (Quiet world fun _ => .fresh) fun s => s.w.Traced world ∧ Closed world s := by
  intro s hs
  have htraced : (stepped (allocBuffers world) s).w.Traced world := traced_of_bus (offline_allocBuffers s.w) hs.traced
  have halloc : if (allocBuffers world s.w).1 then (allocBuffers world s.w).2.Shelved fun _ => .fresh
      else (allocBuffers world s.w).2.Rings ∧ (allocBuffers world s.w).2.Unreached :=
    allocBuffers_shelved s.w hs.shelved
  by_cases hok : (allocBuffers world s.w).1 = true
  · rw [if_pos hok] at halloc ⊢
    exact ⟨hs.log, fun hsizes => (hs.chained hsizes).offline (offline_allocBuffers s.w), htraced, halloc⟩
  · rw [if_neg hok] at halloc ⊢
    exact ⟨htraced, halloc.1, fun _ _ => halloc.2⟩

theorem quiet_mapBuffers : Branches (mapBuffers world) (Quiet world fun _ => .fresh) (memoryUpkeep world).Inv
    (memoryUpkeep world).Inv := by
  refine Steps.branches fun s hs => ?_
  refine ⟨fun hsizes => (hs.chained hsizes).offline (offline_mapBuffers s.w),
    ⟨traced_of_bus (offline_mapBuffers s.w) hs.traced, mapBuffers_orderly s.w hs.shelved⟩, fun mo hmo => ?_⟩
  rw [show (stepped (mapBuffers world) s).log = [] from hs.log] at hmo
  exact absurd hmo List.not_mem_nil

/-- From start to return. -/
theorem start_closed (calls lateCalls : List Callback) :
    Triple (fun s => Quiet world (fun _ => .absent) s ∧ s.w.vq = none) (start world calls lateCalls)
      (fun _ => Closed world) (memoryUpkeep world).Safe := by
  have hmounted : Triple (memoryUpkeep world).Inv (mount (busLink world)) (fun _ => (memoryUpkeep world).Inv)
      (memoryUpkeep world).Safe := by
    refine ((memoryUpkeep world).mount (Q := (memoryUpkeep world).Inv) (fun s w hs => ?_) fun s w hs => ?_).post
      fun ok s hs => ?_
    · exact ⟨fun hsizes => (hs.1 hsizes).frame (s := ⟨s.h, w, s.log⟩) _ rfl, hs.2⟩
    · exact ⟨fun hsizes => (hs.1 hsizes).frame (s := ⟨s.h, w, s.log⟩) _ rfl, hs.2⟩
    · rwa [ite_self] at hs
  refine start_rule (quiet_early offline_grant booked_grant) (quiet_early (offline_findDevice 5) (booked_findDevice 5))
    quiet_init quiet_installInterrupt quiet_allocBuffers quiet_mapBuffers
    (hmounted.post fun ok s hs => ?_) (serve_memory calls lateCalls) closed_cleanupBufs closed_removeInterrupt
    closed_cleanup
  rwa [ite_self]

/-- **Memory outlives the device's use of it**: in every run a block is freed once, when its mapping was ended with the
size it was begun with. A device whose queue sizes are powers of two holds no chain into it then, unless one survived a
call of `V9P_Transact` inside a reset. -/
theorem blocks_outlive_device (world : World) (calls lateCalls : List Callback) (txBuf rxBuf : Mem) :
    Always FreesLoose (startEnd world calls lateCalls txBuf rxBuf).w.memory ∧
      (world.SizesDivide → ReturnsClear true (startEnd world calls lateCalls txBuf rxBuf).log →
        ∀ e ∈ (startEnd world calls lateCalls txBuf rxBuf).w.memory, ∀ b, e.op = .free b → b ∉ e.reached) := by
  have hstart : Triple (fun s => Quiet world (fun _ => .absent) s ∧ s.w.vq = none) (start world calls lateCalls)
      (fun _ => Closed world) fun _ => Closed world :=
    (start_closed calls lateCalls).conseq (fun _ h => h) (fun _ _ h => h)
      fun _ s h => ⟨h.2.1.2.rings, fun _ _ => h.2.1.2.unreached⟩
  have hclosed : Closed world (startEnd world calls lateCalls txBuf rxBuf) :=
    hstart.final (fun _ h => h)
      ⟨⟨rfl, fun _ => boot_chained txBuf rxBuf, boot_traced, booked_boot, reached_of_none rfl⟩, rfl⟩
  refine ⟨hclosed.rings.frees, fun hsizes hc e he b _ => ?_⟩
  rw [hclosed.unreached hsizes hc e he]
  exact List.not_mem_nil

/-! ## Freed and still reached -/

/-- A chain that the device does not complete reaches `rx_buf`. -/
theorem Machine.Stalled.reaches_rx (h : m.Stalled) : .rx ∈ m.reached := by
  obtain ⟨q, out, hq, hout, htracks, hall⟩ := h.stuck
  obtain ⟨e, he⟩ := List.exists_mem_of_ne_nil out hout
  have hmem := htracks.live.mem_iff.mp (List.mem_map_of_mem he)
  rw [hall, List.drop_length, List.map_nil, List.nil_append] at hmem
  have hheld : e.1 ∈ q.held := List.mem_filter.mpr
    ⟨hmem, decide_eq_true (by rw [h.unrevoked q hq]; exact Nat.zero_le _)⟩
  have hrx : .rx ∈ q.chainBlocks e.1 := by
    unfold Line.chainBlocks
    split <;> simp
  unfold Machine.reached
  rw [hq]
  show .rx ∈ if m.Live then q.held.flatMap q.chainBlocks else []
  rw [if_pos h.live]
  exact List.mem_flatMap.mpr ⟨e.1, hheld, hrx⟩

/-- A block was freed while the device held a chain into it. -/
def FreedReached (m : Machine) : Prop := ∃ e ∈ m.memory, ∃ b, e.op = .free b ∧ b ∈ e.reached

theorem buf_of_still {m' : Machine} (h : m'.still = m.still) : m'.buf = m.buf :=
  (congrArg Machine.buf h : m'.still.buf = m.still.buf)

/-- `rx_buf` is there between transactions. -/
def presentLink (world : World) : LinkInv (busLink world) where
  Up := fun m => m.Traced world ∧ m.buf .rx = true
  Down := fun m => m.vq = none ∧ m.buf .rx = true
  poll := keeps_poll fun _ _ h hm => ⟨traced_of_still h hm.1, (congrFun (buf_of_still h) .rx).trans hm.2⟩
  drain := keeps_drain fun _ _ h hm => ⟨traced_of_still h hm.1, (congrFun (buf_of_still h) .rx).trans hm.2⟩
  cleanup := fun hm => ⟨cleanupVirtio_vq hm.1, (congrFun (onVrings_cleanup hm.1.2).1 .rx).trans hm.2⟩
  init := fun _ hm => ⟨traced_init hm.1, (congrFun (onVrings_init hm.1).1 .rx).trans hm.2⟩
  alloc := fun _ m hm => ⟨traced_of_bus (offline_grant m) hm.1, hm.2⟩

theorem freed_cleanupBufs (hstalled : m.Stalled) (hbuf : m.buf .rx = true) : FreedReached (cleanupBufs m).2 := by
  rw [cleanupBufs_eq]
  refine ⟨⟨.free .rx, m.reached⟩, List.mem_append_left _ ?_, .rx, rfl, hstalled.reaches_rx⟩
  refine List.mem_map.mpr ⟨.free .rx, List.mem_append_left _ (List.mem_map_of_mem ?_), rfl⟩
  exact List.mem_filter.mpr ⟨by decide, hbuf⟩

/-- The same run as in `silent_start`, to its end. -/
theorem silent_start_frees (h : world.Unanswering) {txBuf rxBuf : Mem} (calls lateCalls : List Callback)
    (hboots : Boots world ⟨startHandler txBuf rxBuf, .boot, []⟩)
    (hbuf : (mappedState world ⟨startHandler txBuf rxBuf, .boot, []⟩).w.buf .rx = true) :
    FreedReached (startEnd world calls lateCalls txBuf rxBuf).w := by
  have hmount : Triple (· = mappedState world ⟨startHandler txBuf rxBuf, .boot, []⟩) (mount (busLink world))
      (fun ok s => if ok then False else s.w.Stalled ∧ s.w.Traced world ∧ s.w.buf .rx = true) fun _ _ => False := by
    have hpresent := (presentLink world).upkeep.mount (Q := (presentLink world).Throughout) (fun _ _ hs => hs)
      fun _ _ hs => hs
    have hboth := ((silent_mount h).pre fun s (hs : (s.h.inReset = false ∧ s.w.Traced world ∧ s.w.Empty) ∧
      (presentLink world).Throughout s) => hs.1).and (hpresent.pre fun _ hs => hs.2)
    refine hboth.conseq ?_ ?_ fun _ _ hs => hs.1.elim
    · rintro s rfl
      exact ⟨⟨rfl, mapped_traced rfl, h.mapped_empty⟩, ⟨mapped_traced rfl, hbuf⟩,
        fun mo hmo => absurd hmo List.not_mem_nil⟩
    · rintro ok s ⟨⟨rfl, hstalled, -⟩, hs⟩
      exact ⟨hstalled, hs.1⟩
  have hstart : Triple (· = ⟨startHandler txBuf rxBuf, .boot, []⟩) (start world calls lateCalls)
      (fun _ s => FreedReached s.w) fun _ _ => False := by
    refine hboots.start_rule (Z := fun s => s.w.Traced world ∧ FreedReached s.w)
      (Y := fun s => s.w.Traced world ∧ FreedReached s.w) hmount (fun _ hs => hs.elim) ?_ ?_ ?_
    · rintro s ⟨hstalled, htraced, hrx⟩
      exact ⟨traced_of_bus (by rw [stepped, cleanupBufs_eq]; rfl) htraced, freed_cleanupBufs hstalled hrx⟩
    · rintro s ⟨htraced, e, he, hfreed⟩
      exact ⟨traced_removeInterrupt htraced, e, (removeInterrupt_same s.w).1.symm ▸ he, hfreed⟩
    · rintro s ⟨htraced, e, he, hfreed⟩
      obtain ⟨-, -, new, hmem, -⟩ := onVrings_cleanup htraced.2
      exact ⟨e, hmem.symm ▸ List.mem_append_right _ he, hfreed⟩
  exact (hstart.conseq (fun _ h => h) (fun _ _ h => h) fun _ _ h => h.elim).final (fun _ hs => hs) rfl

end Runs

theorem present_silent : (mappedState silentWorld coldState).w.buf .rx = true := by decide +kernel

/-- `rx_buf` is freed while the device may still write to it: the mount failed, its chains are on the queue, and the
device is not reset before `cleanup_irq`. -/
theorem silent_frees_reached : ∃ e ∈ (startEnd silentWorld [] [] (fun _ => 0) fun _ => 0).w.memory,
    ∃ b, e.op = .free b ∧ b ∈ e.reached :=
  silent_start_frees silent_unanswering [] [] boots_silent present_silent

theorem brief_clear : ReturnsClear true (startEnd briefWorld [] [] (fun _ => 0) fun _ => 0).log :=
  returnsClear_of_calm (by decide +kernel)

theorem blocks_outlive_device_brief : briefWorld.SizesDivide ∧
    ∀ e ∈ (startEnd briefWorld [] [] (fun _ => 0) fun _ => 0).w.memory, ∀ b, e.op = .free b → b ∉ e.reached :=
  And.intro brief_sizes ((blocks_outlive_device briefWorld [] [] _ _).2 brief_sizes brief_clear)

end Virtio9P
