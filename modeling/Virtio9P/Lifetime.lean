import Virtio9P.Reply
import Virtio9P.Start
import Virtio9P.Transport.Frame

/-!
# From start to return

`_start` is a ladder of set-up steps and of labels that undo them. `start_rule` has one assertion for each rung: a
statement about every run of `_start` names what holds there, and shows that each step leads from one to the next.

The first use is about the device. The driver writes its status in four places, and the order of these writes decides
whether a message meets a device that runs on the queue it is posted on: it does when the last of them was a successful
`V9P_InitVirtIO` (`live_iff_set_up`). The last clunk of every session that ended well comes after
`V9P_RemoveInterrupt` (`serve_unheard`).
-/

namespace Virtio9P

open Lib

variable {W α : Type}

/-! ## The ladder -/

section Ladder

/-- The machine takes a step. -/
def stepped (x : StateM Machine α) (s : St Machine) : St Machine := { s with w := (x s.w).2 }

/-- The step `x` leads from `P` to `Q`. -/
def Steps (x : StateM Machine α) (P Q : St Machine → Prop) : Prop := ∀ s, P s → Q (stepped x s)

/-- The step `x` leads from `P` to `Q` when it succeeds, and to `R` when it fails. -/
def Branches (x : StateM Machine Bool) (P Q R : St Machine → Prop) : Prop :=
  ∀ s, P s → if (x s.w).1 = true then Q (stepped x s) else R (stepped x s)

variable {E : Fault → St Machine → Prop} {P Q R : St Machine → Prop}

theorem Steps.triple {x : StateM Machine α} (h : Steps x P Q) : Triple P (onLink x) (fun _ => Q) E := h

theorem Branches.triple {x : StateM Machine Bool} (h : Branches x P Q R) :
    Triple P (onLink x) (fun ok s => if ok = true then Q s else R s) E := h

/-- The machine has no hand in the log. -/
theorem steps_log {x : StateM Machine α} {Q : List (Moment Machine) → Prop} :
    Steps x (fun s => Q s.log) fun s => Q s.log := by
  intro s hs
  unfold stepped
  exact hs

theorem Steps.branches {x : StateM Machine Bool} (h : Steps x P Q) : Branches x P Q Q := by
  intro s hs
  rw [ite_self]
  exact h s hs

theorem Branches.weaken {x : StateM Machine Bool} {R' : St Machine → Prop} (h : Branches x P Q R)
    (hR : ∀ s, R s → R' s) : Branches x P Q R' := by
  intro s hs
  have hb := h s hs
  by_cases hok : (x s.w).1 = true
  · rw [if_pos hok] at hb ⊢
    exact hb
  · rw [if_neg hok] at hb ⊢
    exact hR _ hb

variable {world : World} {calls lateCalls : List Callback} {A C G V I B M S T N O D K X Y Z F : St Machine → Prop}

/-- The session: `S` when it was mounted, `T` in the event loop, `N` after it, `O` in `FbxCleanupFS`, `D` before the
last clunk and `K` after it. -/
theorem serve_rule (hsetup : Branches (grant world) S T D)
    (hrun : Triple T (run (busLink world) [] calls) (fun _ => N) E)
    (hremove : Steps (v9pRemoveInterrupt world) N O)
    (hlate : ∀ handles, Triple O (run (busLink world) handles lateCalls) (fun _ => D) E)
    (hclunk : ∀ root, Triple D (p9Clunk (v9pTransact (busLink world)) root) (fun _ => K) E)
    (hdestroy : ∀ s, K s → X { s with h := { s.h with fidPool := none } }) :
    Triple S (serve world calls lateCalls) (fun _ => X) E := by
  have hlast : ∀ ret : Int32, Triple D
      (handler >>= fun h => p9Clunk (v9pTransact (busLink world)) h.rootFid >>= fun _ =>
      modifyHandler (fun h => { h with fidPool := none }) >>= fun _ => pure ret) (fun _ => X) E := by
    intro ret s hs
    rw [handler_bind]
    refine (hclunk s.h.rootFid).bind (fun _ => ?_) s hs
    exact Triple.bind (Q := fun _ => X) (Triple.modify hdestroy) fun _ => Triple.ret
  unfold serve
  refine hsetup.triple.bind fun ok => ?_
  cases ok with
  | false => exact hlast returnFail
  | true =>
    refine hrun.bind fun r => hremove.triple.bind fun _ => ?_
    exact (hlate r.2).bind fun _ => hlast returnOk

/-- **The life of the handler.** `A`, `C` and `G` are before the device is set up; then there is a queue (`V`), an
interrupt (`I`), the buffers (`B`), mapped (`M`), and the session. `X`, `Z` and `Y` hold at `cleanup_bufs`,
`cleanup_irq` and `cleanup_virtio`, and `F` at the end. -/
theorem start_rule (hasked : Branches (grant world) A C F)
    (hfound : Branches (findDevice world 5) C G F)
    (hinit : Branches (v9pInitVirtio world) G V F)
    (hinstall : Branches (v9pInstallInterrupt world) V I Y)
    (halloc : Branches (allocBuffers world) I B Z)
    (hmap : Branches (mapBuffers world) B M X)
    (hmount : Triple M (mount (busLink world)) (fun ok s => if ok then S s else X s) E)
    (hserve : Triple S (serve world calls lateCalls) (fun _ => X) E)
    (hfree : Steps cleanupBufs X Z)
    (hremove : Steps (v9pRemoveInterrupt world) Z Y)
    (hdown : Steps (v9pCleanupVirtio world) Y F) :
    Triple A (start world calls lateCalls) (fun _ => F) E := by
  have hbufs : ∀ ret : Int32, Triple X (onLink cleanupBufs >>= fun _ => pure ret) (fun _ => Z) E :=
    fun ret => hfree.triple.bind fun _ => Triple.ret
  have hirq : ∀ ret : Int32, Triple Z (onLink (v9pRemoveInterrupt world) >>= fun _ => pure ret) (fun _ => Y) E :=
    fun ret => hremove.triple.bind fun _ => Triple.ret
  have hvirtio : ∀ ret : Int32, Triple Y (onLink (v9pCleanupVirtio world) >>= fun _ => pure ret) (fun _ => F) E :=
    fun ret => hdown.triple.bind fun _ => Triple.ret
  have hbuffers : Triple B (startBuffers world calls lateCalls) (fun _ => Z) E := by
    unfold startBuffers
    refine hmap.triple.bind fun ok => ?_
    cases ok with
    | false => exact hbufs returnOk
    | true =>
      refine hmount.bind fun ok => ?_
      cases ok with
      | false => exact hbufs returnOk
      | true => exact hserve.bind fun ret => hbufs ret
  have hstartIrq : Triple I (startIrq world calls lateCalls) (fun _ => Y) E := by
    unfold startIrq
    refine halloc.triple.bind fun ok => ?_
    cases ok with
    | false => exact hirq returnOk
    | true => exact hbuffers.bind fun ret => hirq ret
  have hstartVirtio : Triple V (startVirtio world calls lateCalls) (fun _ => F) E := by
    unfold startVirtio
    refine hinstall.triple.bind fun ok => ?_
    cases ok with
    | false => exact hvirtio returnOk
    | true => exact hstartIrq.bind fun ret => hvirtio ret
  unfold start
  refine hasked.triple.bind fun ok => ?_
  cases ok with
  | false => exact Triple.pure fun s hs => hs
  | true =>
    refine hfound.triple.bind fun ok => ?_
    cases ok with
    | false => exact Triple.pure fun s hs => hs
    | true =>
      refine hinit.triple.bind fun ok => ?_
      cases ok with
      | false => exact Triple.pure fun s hs => hs
      | true => exact hstartVirtio

end Ladder

/-! ## Steps that leave the device alone -/

section Offline

variable {world : World}

theorem offline_allocBuffer (b : DmaBlock) : Offline (allocBuffer world b) :=
  offline_grant.bind fun _ => .ite
    ((offline_noteMemory _).bind fun _ => Offline.bind (fun _ => rfl) fun _ => offline_pure _) (offline_pure _)

theorem offline_allocBuffers : Offline (allocBuffers world) :=
  (offline_allocBuffer .tx).bind fun _ => (offline_allocBuffer .rx).bind fun _ =>
    (offline_allocBuffer .flush).bind fun _ => offline_pure _

theorem offline_keepMapping (b : DmaBlock) : Offline (keepMapping b) := fun _ => rfl

theorem offline_giveUpMapping (b : DmaBlock) (size : Nat) :
    Offline (noteMemory (.endDMA b size) >>= fun _ => (pure false : StateM Machine Bool)) :=
  (offline_noteMemory _).bind fun _ => offline_pure _

theorem offline_mapBuffer (b : DmaBlock) (size : Nat) : Offline (mapBuffer world b size) := by
  refine (offline_startDMA b size).bind fun _ => .ite (offline_pure _) (.ite (offline_giveUpMapping b size) ?_)
  exact offline_grant.bind fun _ => .ite (offline_keepMapping b) (offline_giveUpMapping b size)

theorem offline_mapFlush : Offline (mapFlush world) := by
  refine (offline_startDMA .flush 16).bind fun _ => .ite (offline_pure _) ?_
  exact offline_grant.bind fun _ => .ite (offline_keepMapping .flush) (offline_giveUpMapping .flush 16)

theorem offline_mapBuffers : Offline (mapBuffers world) := by
  refine (offline_mapBuffer .tx _).bind fun _ => .ite ?_ (offline_pure _)
  exact (offline_mapBuffer .rx _).bind fun _ => .ite offline_mapFlush (offline_pure _)

theorem offline_findDevice : ∀ n, Offline (findDevice world n)
  | 0 => offline_pure _
  | n + 1 => offline_grant.bind fun _ => .ite (offline_findDevice n) (offline_pure _)

theorem offline_endMapping (b : DmaBlock) (size : Nat) : Offline (endMapping b size) :=
  Offline.bind (fun _ => rfl) fun _ => .ite (offline_noteMemory _) (offline_pure _)

theorem offline_freeBuffer (b : DmaBlock) : Offline (freeBuffer b) :=
  Offline.bind (fun _ => rfl) fun _ => .ite (offline_noteMemory _) (offline_pure _)

theorem offline_cleanupBufs : Offline cleanupBufs :=
  (offline_endMapping .flush _).bind fun _ => (offline_endMapping .rx _).bind fun _ =>
    (offline_endMapping .tx _).bind fun _ => (offline_freeBuffer .flush).bind fun _ =>
      (offline_freeBuffer .rx).bind fun _ => offline_freeBuffer .tx

end Offline

/-! ## Invariants between transactions -/

section Upkeep

variable {world : World} {calls lateCalls : List Callback} {U V : Upkeep (busLink world)}
  {A Q F : St Machine → Prop}

/-- **What holds between transactions holds from start to return**: `U` is for the mount and `V` for the session, when
there is a pool. Before the device is set up there is `A`; `Q` is what is left of them while the handler takes down what
it set up, and `F` at the end. -/
theorem Upkeep.start (hsafe : ∀ e s, V.Safe e s → U.Safe e s)
    (hfirst : ∀ {s : St Machine} (m : Machine), m.bus = s.w.bus → A s → A { s with w := m })
    (hbus : ∀ {s : St Machine} (m : Machine), m.bus = s.w.bus → U.Inv s → U.Inv { s with w := m })
    (hbus' : ∀ {s : St Machine} (m : Machine), m.bus = s.w.bus → V.Inv s → V.Inv { s with w := m })
    (hinit : Steps (v9pInitVirtio world) A U.Inv)
    (hpool : ∀ (s : St Machine) w, U.Inv ⟨s.h, w, s.log⟩ → V.Inv (s.pooled (some freshPool) w))
    (hnone : ∀ (s : St Machine) w, U.Inv ⟨s.h, w, s.log⟩ → U.Inv (s.pooled none w))
    (hnull : ∀ {s}, V.Inv s → s.h.fidPool = none → V.Safe .nullPool s)
    (hremove : Steps (v9pRemoveInterrupt world) V.Inv V.Inv)
    (hempty : ∀ s, A s → Q s) (hlog : ∀ s, U.Inv s → Q s)
    (hlog' : ∀ s, V.Inv s → Q { s with h := { s.h with fidPool := none } }) (hend : ∀ s, Q s → F s)
    (hfree : Steps cleanupBufs Q Q) (hirq : Steps (v9pRemoveInterrupt world) Q Q)
    (hdown : Steps (v9pCleanupVirtio world) Q F) :
    Triple A (Virtio9P.start world calls lateCalls) (fun _ => F) U.Safe := by
  have hoff : ∀ {β : Type} {x : StateM Machine β}, Offline x → Steps x U.Inv U.Inv :=
    fun {_ _} hx s hs => hbus _ (hx s.w) hs
  have hsession : Triple V.Inv (serve world calls lateCalls) (fun _ => Q) V.Safe := by
    refine serve_rule (T := V.Inv) (N := V.Inv) (O := V.Inv) (D := V.Inv) (K := V.Inv)
      (Steps.branches fun s hs => hbus' _ (offline_grant s.w) hs) (V.run hnull [] calls) hremove
      (fun handles => V.run hnull handles lateCalls) (fun root => V.clunk root) fun s hs => hlog' s hs
  refine start_rule (C := A) (G := A) (V := U.Inv) (I := U.Inv) (B := U.Inv) (M := U.Inv) (S := V.Inv) (X := Q) (Y := Q)
    (Z := Q) ?_ ?_ ?_ ?_ ?_ ?_ ?_ ?_ hfree hirq hdown
  · exact (Steps.branches fun s hs => hfirst _ (offline_grant s.w) hs).weaken fun s hs => hend s (hempty s hs)
  · exact (Steps.branches fun s hs => hfirst _ (offline_findDevice 5 s.w) hs).weaken fun s hs => hend s (hempty s hs)
  · exact hinit.branches.weaken fun s hs => hend s (hlog s hs)
  · exact (hoff offline_installInterrupt).branches.weaken hlog
  · exact (hoff offline_allocBuffers).branches.weaken hlog
  · exact (hoff offline_mapBuffers).branches.weaken hlog
  · refine (U.mount hpool hnone).post fun ok s hs => ?_
    cases ok with
    | false => exact hlog s hs
    | true => exact hs
  · exact hsession.conseq (fun _ h => h) (fun _ _ h => h) hsafe

end Upkeep

/-! ## The device and its queue -/

section Live

variable {world : World}

theorem vq_of_bus {m m' : Machine} {o : Option Line} (h : m'.bus = m.bus) (hvq : m.vq = o) : m'.vq = o :=
  (congrArg (·.2.2.1) h : m'.vq = m.vq).trans hvq

theorem not_live_of_none {m : Machine} (hvq : m.vq = none) : ¬ m.Live := fun h => h.2.1 hvq

/-- The device runs exactly when a set-up was the last thing done to it, and there is a way to reset it. -/
def Machine.Traced (world : World) (m : Machine) : Prop :=
  (m.Live ↔ m.transport.head? = some (.init true)) ∧ (m.Live → (world.modern || world.bar0) = true)

theorem traced_of_still {m m' : Machine} (h : m'.still = m.still) (hm : m.Traced world) : m'.Traced world := by
  unfold Machine.Traced at hm ⊢
  rwa [live_of_still h, transport_of_still h]

/-- Whether the device runs is seen on its side of the machine. -/
theorem live_of_bus {m m' : Machine} (h : m'.bus = m.bus) : m'.Live ↔ m.Live := by
  have hstatus : m'.status = m.status := congrArg Prod.fst h
  have hprog : m'.programmed = m.programmed := congrArg (·.2.1) h
  have hvq : m'.vq = m.vq := congrArg (·.2.2.1) h
  unfold Machine.Live
  rw [hstatus, hprog, hvq]

theorem traced_of_bus {m m' : Machine} (h : m'.bus = m.bus) (hm : m.Traced world) : m'.Traced world := by
  unfold Machine.Traced at hm ⊢
  have htr : m'.transport = m.transport := congrArg (·.2.2.2) h
  rwa [live_of_bus h, htr]

theorem traced_init {m : Machine} (hvq : m.vq = none) : (v9pInitVirtio world m).2.Traced world := by
  refine initVirtio_ind (P := fun _ => Machine.Traced world) hvq (fun m₁ status programmed n hdisc => ?_)
    fun t driverOk n hworld hbit _ => ?_
  · have hdead := not_live_of_none (m := { m₁ with
      status := status, programmed := programmed, transport := .init false :: m.transport, now := n })
      (hdisc.vq.trans hvq)
    exact ⟨⟨fun h => absurd h hdead, fun h => by cases h⟩, fun h => absurd h hdead⟩
  · exact ⟨⟨fun _ => rfl, fun _ => ⟨hbit, Option.some_ne_none _, rfl⟩⟩, fun _ => hworld⟩

theorem cleanupVirtio_vq {m : Machine} (hm : m.Traced world) : (v9pCleanupVirtio world m).2.vq = none := by
  rw [cleanupVirtio_eq hm.2]

theorem traced_removeInterrupt {m : Machine} (hm : m.Traced world) : (v9pRemoveInterrupt world m).2.Traced world := by
  rw [removeInterrupt_eq]
  split
  · obtain ⟨-, hdead⟩ := quiesced_reached hm.2
    have hdead' : ¬ Machine.Live { m.quiesced world with
        irqInstalled := false, transport := .removeInterrupt :: m.transport } := hdead
    exact ⟨⟨fun h => absurd h hdead', fun h => by cases h⟩, fun h => absurd h hdead'⟩
  · exact hm

/-- The invariant of the link. -/
def tracedLink (world : World) : LinkInv (busLink world) where
  Up := Machine.Traced world
  Down := fun m => m.vq = none
  poll := keeps_poll fun _ _ h hm => traced_of_still h hm
  drain := keeps_drain fun _ _ h hm => traced_of_still h hm
  cleanup := cleanupVirtio_vq
  init := fun _ hvq => traced_init hvq
  alloc := fun _ m hm => traced_of_bus (offline_grant m) hm

theorem boot_traced : Machine.boot.Traced world :=
  ⟨⟨fun h => absurd rfl h.2.1, fun h => by cases h⟩, fun h => absurd rfl h.2.1⟩

/-- **A message meets a live device exactly when a set-up was the last thing done to the transport**: not after
`V9P_RemoveInterrupt`, and not after a set-up that failed. -/
theorem live_iff_set_up (world : World) (calls lateCalls : List Callback) (txBuf rxBuf : Mem) :
    ∀ mo ∈ (startEnd world calls lateCalls txBuf rxBuf).log, ∀ tx, mo.event = .send tx →
      (mo.w.Live ↔ mo.w.transport.head? = some (.init true)) := by
  have hstart : Triple (fun s => s.log = [] ∧ s.w.vq = none) (start world calls lateCalls)
      (fun _ s => ∀ mo ∈ s.log, mo.w.Traced world) (tracedLink world).upkeep.Safe := by
    have hnil : ∀ s : St Machine, s.log = [] → ∀ mo ∈ s.log, mo.w.Traced world := fun s hs mo hmo => by simp [hs] at hmo
    refine Upkeep.start (A := fun s => s.log = [] ∧ s.w.vq = none) (V := (tracedLink world).upkeep)
      (Q := fun s => ∀ mo ∈ s.log, mo.w.Traced world) (fun _ _ h => h) (fun _ h hs => ⟨hs.1, vq_of_bus h hs.2⟩)
      (fun _ h hs => ⟨traced_of_bus h hs.1, hs.2⟩) (fun _ h hs => ⟨traced_of_bus h hs.1, hs.2⟩) ?_ (fun _ _ hs => hs)
      (fun _ _ hs => hs) (fun hs _ => hs) (fun s hs => ⟨traced_removeInterrupt hs.1, hs.2⟩) (fun s hs => hnil s hs.1)
      (fun _ hs => hs.2) (fun _ hs => hs.2) (fun _ hs => hs) (fun _ hs => hs) (fun _ hs => hs) fun _ hs => hs
    exact fun s hs => ⟨traced_init hs.2, hnil s hs.1⟩
  have hall : ∀ mo ∈ (startEnd world calls lateCalls txBuf rxBuf).log, mo.w.Traced world :=
    (hstart.conseq (fun _ h => h) (fun _ _ h => h) fun _ _ h => h.2).final (fun _ h => h) ⟨rfl, rfl⟩
  exact fun mo hmo _ _ => (hall mo hmo).1

end Live

/-! ## Shutting down -/

/-- The state in which `_start` comes to step 10, when nothing before fails. -/
def mappedState (world : World) (s : St Machine) : St Machine :=
  stepped (mapBuffers world) (stepped (allocBuffers world) (stepped (v9pInstallInterrupt world)
    (stepped (v9pInitVirtio world) (stepped (findDevice world 5) (stepped (grant world) s)))))

/-- Nothing fails before step 10. -/
def Boots (world : World) (s : St Machine) : Prop :=
  let s₁ := stepped (grant world) s
  let s₂ := stepped (findDevice world 5) s₁
  let s₃ := stepped (v9pInitVirtio world) s₂
  let s₄ := stepped (v9pInstallInterrupt world) s₃
  let s₅ := stepped (allocBuffers world) s₄
  (grant world s.w).1 = true ∧ (findDevice world 5 s₁.w).1 = true ∧ (v9pInitVirtio world s₂.w).1 = true ∧
    (v9pInstallInterrupt world s₃.w).1 = true ∧ (allocBuffers world s₄.w).1 = true ∧ (mapBuffers world s₅.w).1 = true

instance (world : World) (s : St Machine) : Decidable (Boots world s) := by
  unfold Boots
  infer_instance

section Shutdown

variable {world : World} {calls lateCalls : List Callback} {S X Y Z F : St Machine → Prop}
  {E : Fault → St Machine → Prop} {s₀ : St Machine}

/-- A step that is known to succeed. -/
theorem branches_of_eq {x : StateM Machine Bool} {s₀ : St Machine} {R : St Machine → Prop} (hok : (x s₀.w).1 = true) :
    Branches x (· = s₀) (· = stepped x s₀) R := by
  rintro s rfl
  rw [if_pos hok]

/-- The rest of a run of which nothing fails before step 10. -/
theorem Boots.start_rule (h : Boots world s₀)
    (hmount : Triple (· = mappedState world s₀) (mount (busLink world)) (fun ok s => if ok then S s else X s) E)
    (hserve : Triple S (serve world calls lateCalls) (fun _ => X) E) (hfree : Steps cleanupBufs X Z)
    (hremove : Steps (v9pRemoveInterrupt world) Z Y) (hdown : Steps (v9pCleanupVirtio world) Y F) :
    Triple (· = s₀) (start world calls lateCalls) (fun _ => F) E := by
  obtain ⟨h₁, h₂, h₃, h₄, h₅, h₆⟩ := h
  exact Virtio9P.start_rule (branches_of_eq h₁) (branches_of_eq h₂) (branches_of_eq h₃) (branches_of_eq h₄)
    (branches_of_eq h₅) (branches_of_eq h₆) hmount hserve hfree hremove hdown

/-- A message was sent to a device that did not run on the queue. -/
def Unheard (mo : Moment Machine) : Prop := (∃ tx, mo.event = .send tx) ∧ ¬ mo.w.Live

/-- What was logged stays logged. -/
def logged (P : Moment W → Prop) : LogInv W where
  Out := fun _ log => ∃ mo ∈ log, P mo
  In := fun log => ∃ mo ∈ log, P mo
  out_in := fun h => h
  returned := fun _ _ h => h.imp fun _ hmo => ⟨List.mem_cons_of_mem _ hmo.1, hmo.2⟩
  escalate := fun _ h => h.imp fun _ hmo => ⟨List.mem_cons_of_mem _ hmo.1, hmo.2⟩
  nested := fun _ _ h => h.imp fun _ hmo => ⟨List.mem_cons_of_mem _ hmo.1, hmo.2⟩
  reset := fun _ _ h => h.imp fun _ hmo => ⟨List.mem_cons_of_mem _ hmo.1, hmo.2⟩

/-- A clunk on a device that was reset. -/
theorem clunk_unheard (fid : UInt32) : Triple (fun s => s.h.inReset = false ∧ ¬ s.w.Live)
    (p9Clunk (v9pTransact (busLink world)) fid) (fun _ s => ∃ mo ∈ s.log, Unheard mo)
    fun _ s => ∃ mo ∈ s.log, Unheard mo := by
  rw [p9Clunk_eq]
  refine request_rule (S := fun s : St Machine => s.h.inReset = false ∧ ¬ s.w.Live) (fun s hs => hs) ?_
    fun _ _ hs => hs
  refine (((logged Unheard).transact_keeps _).pre fun s hs => ⟨hs.1, ?_⟩).post fun _ _ hs => hs.2
  exact ⟨_, List.mem_cons_self, ⟨_, rfl⟩, hs.2⟩

/-- The device does not run after `V9P_RemoveInterrupt`. -/
theorem removeInterrupt_dead {m : Machine} (hm : m.Traced world) (hirq : m.irqInstalled = true) :
    ¬ (v9pRemoveInterrupt world m).2.Live := by
  rw [removeInterrupt_eq, if_pos hirq]
  exact (quiesced_reached hm.2).2

/-- The session is about to begin. -/
structure Serving (world : World) (s : St Machine) : Prop where
  inReset : s.h.inReset = false
  traced : s.w.Traced world
  irq : s.w.irqInstalled = true
  /-- `FbxSetupFS` will succeed -/
  granted : world.grants s.w.now = true

/-- **The last clunk of a session is not heard**: the device was reset before. -/
theorem serve_unheard : Triple (Serving world) (serve world [] []) (fun _ s => ∃ mo ∈ s.log, Unheard mo)
    fun _ s => ∃ mo ∈ s.log, Unheard mo := by
  refine serve_rule (T := fun s => s.h.inReset = false ∧ s.w.Traced world ∧ s.w.irqInstalled = true)
    (N := fun s => s.h.inReset = false ∧ s.w.Traced world ∧ s.w.irqInstalled = true)
    (O := fun s => s.h.inReset = false ∧ ¬ s.w.Live) (D := fun s => s.h.inReset = false ∧ ¬ s.w.Live)
    (K := fun s => ∃ mo ∈ s.log, Unheard mo) ?_ Triple.ret ?_ (fun _ => Triple.ret) clunk_unheard fun _ hs => hs
  · intro s hs
    rw [if_pos (show (grant world s.w).1 = true from hs.granted)]
    exact ⟨hs.inReset, traced_of_bus (offline_grant s.w : (grant world s.w).2.bus = _) hs.traced, hs.irq⟩
  · exact fun s hs => ⟨hs.1, removeInterrupt_dead hs.2.1 hs.2.2⟩

/-- The mount succeeded and the session can begin. -/
def mounted (world : World) : EStateM.Result Fault (St Machine) Bool → Bool
  | .ok ok s => ok && (!s.h.inReset && (s.w.irqInstalled && world.grants s.w.now))
  | .error .. => false

/-- The machine before it is set up has no queue. -/
theorem found_vq {s : St Machine} (hvq : s.w.vq = none) :
    (stepped (findDevice world 5) (stepped (grant world) s)).w.vq = none := by
  have hbus : (stepped (findDevice world 5) (stepped (grant world) s)).w.bus = s.w.bus :=
    (offline_findDevice 5 _).trans (offline_grant s.w : (grant world s.w).2.bus = _)
  exact (congrArg (·.2.2.1) hbus).trans hvq

/-- After the device was set up nothing was done to it. -/
theorem mapped_bus (world : World) (s : St Machine) : (mappedState world s).w.bus =
    (v9pInitVirtio world (stepped (findDevice world 5) (stepped (grant world) s)).w).2.bus :=
  (offline_mapBuffers _).trans ((offline_allocBuffers _).trans (offline_installInterrupt _))

theorem mapped_traced {s : St Machine} (hvq : s.w.vq = none) : (mappedState world s).w.Traced world :=
  traced_of_bus (mapped_bus world s) (traced_init (found_vq hvq))

/-- A mount that is known to succeed. -/
theorem mount_serving (hvq : s₀.w.vq = none) (hlog : s₀.log = [])
    (h : mounted world (mount (busLink world) (mappedState world s₀)) = true) :
    Triple (· = mappedState world s₀) (mount (busLink world)) (fun ok s => if ok then Serving world s else X s) E := by
  have hthrough : (tracedLink world).Throughout (mappedState world s₀) := by
    refine ⟨mapped_traced hvq, fun mo hmo => ?_⟩
    rw [show (mappedState world s₀).log = [] from hlog] at hmo
    exact absurd hmo List.not_mem_nil
  have hkeeps := (tracedLink world).upkeep.mount (Q := fun s => s.w.Traced world) (fun _ _ hs => hs.1) fun _ _ hs => hs
  rintro s rfl
  cases hres : mount (busLink world) (mappedState world s₀) with
  | error e s' =>
    rw [hres] at h
    cases h
  | ok ok s' =>
    have hs' := hkeeps.ok hthrough hres
    simp only [hres, mounted, Bool.and_eq_true, Bool.not_eq_true'] at h
    rw [h.1] at hs' ⊢
    exact ⟨h.2.1, hs', h.2.2.1, h.2.2.2⟩

/-- A session without a callback. -/
theorem unheard_of_mounted {txBuf rxBuf : Mem} (hboots : Boots world ⟨startHandler txBuf rxBuf, .boot, []⟩)
    (hmounted :
      mounted world (mount (busLink world) (mappedState world ⟨startHandler txBuf rxBuf, .boot, []⟩)) = true) :
    ∃ mo ∈ (startEnd world [] [] txBuf rxBuf).log, Unheard mo := by
  have hstart : Triple (· = ⟨startHandler txBuf rxBuf, .boot, []⟩) (start world [] [])
      (fun _ s => ∃ mo ∈ s.log, Unheard mo) fun _ s => ∃ mo ∈ s.log, Unheard mo :=
    hboots.start_rule (mount_serving rfl rfl hmounted) serve_unheard
    (steps_log (Q := fun log => ∃ mo ∈ log, Unheard mo))
      (steps_log (Q := fun log => ∃ mo ∈ log, Unheard mo)) (steps_log (Q := fun log => ∃ mo ∈ log, Unheard mo))
  exact hstart.final (fun _ hs => hs) rfl

end Shutdown

/-! A session with a device that answers at once. -/

/-- The replies of the device. -/
def greet (tx : List UInt8) : List UInt8 :=
  if tx[4]? = some p9TVersion then (RMsg.version p9MSize p9VersionStr).frame p9NoTag
  else (RMsg.attach ⟨0, 0, 0⟩).frame (p9GetU16 (fun i => tx.getD i 0) 5).1

def politeWorld : World where
  modern := false
  bar0 := true
  phys := fun _ => 0
  acts := fun _ => [.take, .complete 0 fun tx => (greet tx, UInt32.ofNat (greet tx).length)]
  checks := fun _ => 0
  readStatus := fun _ => 0
  queueSize := fun _ => 128
  dmaEntries := fun _ => 1
  grants := fun _ => true

def coldState : St Machine := ⟨startHandler (fun _ => 0) (fun _ => 0), .boot, []⟩

theorem boots_polite : Boots politeWorld coldState := by decide +kernel

theorem mounted_polite :
    mounted politeWorld (mount (busLink politeWorld) (mappedState politeWorld coldState)) = true := by
  decide +kernel

/-- With the last clunk of a session the handler talks to a device that does not run. -/
theorem shutdown_clunk_unheard : ∃ mo ∈ (startEnd politeWorld [] [] (fun _ => 0) fun _ => 0).log,
    (∃ tx, mo.event = .send tx) ∧ ¬ mo.w.Live := unheard_of_mounted boots_polite mounted_polite

/-- A device that answers at once, and no `FbxSetupFS`: the last clunk meets a device that runs. -/
def briefWorld : World := { politeWorld with grants := fun t => t != 31 }

/-- The moment of a message right after a set-up. -/
def meetsSetUp (mo : Moment Machine) : Bool :=
  (match mo.event with
    | .send _ => true
    | _ => false) && mo.w.transport.head? = some (.init true)

theorem brief_meets : (startEnd briefWorld [] [] (fun _ => 0) fun _ => 0).log.any meetsSetUp = true := by decide +kernel

/-- The messages of the mount meet a live device, and the last clunk of a session does not. -/
theorem live_iff_set_up_both :
    (∃ mo ∈ (startEnd briefWorld [] [] (fun _ => 0) fun _ => 0).log, ∃ tx, mo.event = .send tx ∧ mo.w.Live) ∧
    ∃ mo ∈ (startEnd politeWorld [] [] (fun _ => 0) fun _ => 0).log, ∃ tx, mo.event = .send tx ∧
      mo.w.transport.head? ≠ some (.init true) := by
  constructor
  · obtain ⟨mo, hmo, hmeets⟩ := List.any_eq_true.mp brief_meets
    obtain ⟨hsend, hset⟩ := Bool.and_eq_true_iff.mp hmeets
    cases htx : mo.event with
    | send tx =>
      exact ⟨mo, hmo, tx, htx,
        (live_iff_set_up briefWorld [] [] _ _ mo hmo tx htx).mpr (of_decide_eq_true hset)⟩
    | _ =>
      rw [htx] at hsend
      cases hsend
  · obtain ⟨mo, hmo, ⟨tx, htx⟩, hdead⟩ := unheard_of_mounted boots_polite mounted_polite
    exact ⟨mo, hmo, tx, htx, fun hset => hdead ((live_iff_set_up politeWorld [] [] _ _ mo hmo tx htx).mpr hset)⟩

end Virtio9P
