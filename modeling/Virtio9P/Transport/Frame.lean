import Virtio9P.Transport.Machine

/-!
# What the transport leaves alone

Posting and polling change the clock and the traffic on the queue, and nothing else (`busPoll_still`, `busDrain_still`).
Asking the system and keeping account of memory leave whatever shows neither the clock nor the books (`Blind`), so the
device and the queue (`Offline`). What
`V9P_InitVirtIO`, `V9P_CleanupVirtIO` and `V9P_RemoveInterrupt` do to them comes down to a few writes
(`initVirtio_spec`, `cleanupVirtio_eq`, `removeInterrupt_eq`).
-/

namespace Virtio9P

open Lib

/-! ## Posting and polling -/

/-- The queue without its traffic. -/
def Line.still (q : Line) : Line := { q with traffic := .init 0 false, sent := [], fetched := [], written := [] }

/-- The machine without the clock and the traffic. -/
def Machine.still (m : Machine) : Machine := { m with now := 0, texts := fun _ _ => 0, vq := m.vq.map Line.still }

theorem act_still (q : Line) (texts : Cookie → Mem) (rx : Mem) (a : Act) : (q.act texts rx a).1.still = q.still := by
  cases a with
  | take => rfl
  | fetch k =>
    simp only [Line.act]
    cases q.traffic.inFlight[k]? <;> rfl
  | complete k answer =>
    simp only [Line.act]
    cases q.traffic.inFlight[k]? <;> rfl

theorem acts_still (texts : Cookie → Mem) (as : List Act) : ∀ (q : Line) (rx : Mem),
    (q.acts texts rx as).1.still = q.still := by
  induction as with
  | nil => exact fun _ _ => rfl
  | cons a as ih => exact fun q rx => (ih _ _).trans (act_still q texts rx a)

section Polling

variable {world : World} {m₀ : Machine}

/-- A fault of the transport: the machine is as it was, and a `NULL` queue is one. -/
def StillFault (m₀ : Machine) (e : Fault) (m : Machine) : Prop :=
  m.still = m₀.still ∧ (e = .nullQueue → m.vq = none) ∧ e ≠ .nullPool

theorem stillFault_queue {m : Machine} (hm : m.still = m₀.still) (f : VqFault) : StillFault m₀ (.queue f) m := by
  refine ⟨hm, fun h => ?_, fun h => ?_⟩
  · cases h
  · cases h

/-- `h->vq` is there, or this is a fault. -/
theorem theQueue_bind {α : Type} {f : Line → EStateM Fault Machine α} {Q : α → Machine → Prop}
    {P : Machine → Prop} {E : Fault → Machine → Prop} (hnull : ∀ m, P m → m.vq = none → E .nullQueue m)
    (hf : ∀ q, Triple (fun m => m.vq = some q ∧ P m) (f q) Q E) : Triple P (theQueue >>= f) Q E := by
  intro m hm
  cases hq : m.vq with
  | none =>
    have : theQueue m = .error .nullQueue m := by
      unfold theQueue
      rw [get_bind, hq]
      rfl
    rw [run_bind_error this]
    exact hnull m hm hq
  | some q =>
    have : theQueue m = .ok q m := by
      unfold theQueue
      rw [get_bind, hq]
      rfl
    rw [run_bind_ok this]
    exact hf q m ⟨hq, hm⟩

theorem postMessage_still (cookie : Cookie) (p : Post) :
    Triple (fun m => m.still = m₀.still) (postMessage world cookie p) (fun _ m => m.still = m₀.still)
      (StillFault m₀) := by
  refine theQueue_bind (fun m hm hnone => ⟨hm, fun _ => hnone, by decide⟩) fun q => ?_
  dsimp only
  have hset : ∀ q' : Line, q'.still = q.still → ∀ m : Machine, m.vq = some q ∧ m.still = m₀.still →
      Machine.still { m with vq := some q' } = m₀.still := by
    rintro q' hq' m ⟨hq, hm⟩
    rw [← hm]
    unfold Machine.still
    rw [hq, Option.map_some, Option.map_some, hq']
  have hstored : Triple (fun m : Machine => m.vq = some q ∧ m.still = m₀.still) (modify (Machine.stored · cookie p.tx))
      (fun _ m => m.vq = some q ∧ m.still = m₀.still) (StillFault m₀) := Triple.modify fun m hm => hm
  refine hstored.bind fun _ => ?_
  cases q.traffic.post _ 1 1 (some cookie) with
  | error f => exact Triple.throw fun m hm => stillFault_queue hm.2 f
  | ok r =>
    refine Triple.ite (fun _ => ?_) fun _ => ?_
    · exact Triple.bind (Triple.modify fun m hm => hset _ rfl m hm) fun _ => Triple.ret
    · exact Triple.bind (Triple.modify fun m hm => hset _ rfl m hm) fun _ => Triple.ret

theorem look_still (rx : Mem) :
    Triple (fun m => m.still = m₀.still) (look world rx) (fun _ m => m.still = m₀.still) (StillFault m₀) := by
  refine theQueue_bind (fun m hm hnone => ⟨hm, fun _ => hnone, by decide⟩) fun q => ?_
  intro m hm
  rw [get_bind]
  generalize hacted : (if m.Live then q.acts m.texts rx (world.acts m.now) else (q, rx)) = acted
  have hstill : acted.1.still = q.still := by
    rw [← hacted]
    split
    · exact acts_still _ _ q rx
    · rfl
  dsimp only
  cases acted.1.traffic.collect with
  | error f => exact stillFault_queue hm.2 f
  | ok r =>
    show Machine.still { m with now := m.now + 1, vq := some { acted.1 with traffic := r.2 } } = _
    rw [← hm.2]
    unfold Machine.still
    rw [hm.1, Option.map_some, Option.map_some]
    congr 2

theorem deadline_still :
    Triple (fun m => m.still = m₀.still) (deadline world) (fun _ m => m.still = m₀.still) (StillFault m₀) :=
  Triple.modifyGet fun _ hm => hm

theorem pollLoop_still (p : Post) (polls : Nat) : ∀ rx,
    Triple (fun m => m.still = m₀.still) (pollLoop world p polls rx) (fun _ m => m.still = m₀.still)
      (StillFault m₀) := by
  induction polls with
  | zero => exact fun rx => Triple.ret
  | succ polls ih =>
    refine fun rx => (look_still rx).bind fun r => ?_
    obtain ⟨_ | written, rx'⟩ := r
    · exact ih rx'
    · exact Triple.ite (fun _ => Triple.ret) fun _ => ih rx'

theorem drainOne_still (polls : Nat) : ∀ rx,
    Triple (fun m => m.still = m₀.still) (drainOne world polls rx) (fun _ m => m.still = m₀.still)
      (StillFault m₀) := by
  induction polls with
  | zero => exact fun rx => Triple.ret
  | succ polls ih =>
    refine fun rx => (look_still rx).bind fun r => ?_
    obtain ⟨_ | written, rx'⟩ := r
    · exact ih rx'
    · exact Triple.ret

theorem drainLoop_still (rounds : Nat) : ∀ rx,
    Triple (fun m => m.still = m₀.still) (drainLoop world rounds rx) (fun _ m => m.still = m₀.still)
      (StillFault m₀) := by
  induction rounds with
  | zero => exact fun rx => Triple.ret
  | succ rounds ih =>
    refine fun rx => deadline_still.bind fun polls => (drainOne_still polls rx).bind fun r => ?_
    obtain ⟨_ | _, rx'⟩ := r
    · exact Triple.ret
    · exact (ih rx').bind fun _ => Triple.ret

/-- **Polling changes the clock and the traffic only.** -/
theorem busPoll_still (p : Post) :
    Triple (fun m => m.still = m₀.still) (busPoll world p) (fun _ m => m.still = m₀.still) (StillFault m₀) := by
  refine (postMessage_still .tx p).bind fun _ => Triple.ite (fun _ => ?_) fun _ => Triple.ret
  exact deadline_still.bind fun polls => pollLoop_still p polls _

theorem busDrain_still (p : Post) :
    Triple (fun m => m.still = m₀.still) (busDrain world p) (fun _ m => m.still = m₀.still) (StillFault m₀) :=
  (postMessage_still .flush p).bind fun _ => Triple.ite (fun _ => drainLoop_still 2 _) fun _ => Triple.ret

/-- What does not depend on the clock and the traffic is kept. -/
theorem keeps_poll {P : Machine → Prop} (hP : ∀ m m' : Machine, m'.still = m.still → P m → P m') (p : Post) :
    Keeps P (busPoll world p) := by
  intro m hm
  have hstill : Triple (fun m' => m'.still = m.still) (busPoll world p) (fun _ => P) fun _ => P :=
    (busPoll_still p).conseq (fun _ h => h) (fun _ m' h => hP m m' h hm) fun _ m' h => hP m m' h.1 hm
  exact hstill m rfl

theorem keeps_drain {P : Machine → Prop} (hP : ∀ m m' : Machine, m'.still = m.still → P m → P m') (p : Post) :
    Keeps P (busDrain world p) := by
  intro m hm
  have hstill : Triple (fun m' => m'.still = m.still) (busDrain world p) (fun _ => P) fun _ => P :=
    (busDrain_still p).conseq (fun _ h => h) (fun _ m' h => hP m m' h hm) fun _ m' h => hP m m' h.1 hm
  exact hstill m rfl

end Polling

/-- The device runs on its queue as it did. -/
theorem live_of_still {m m' : Machine} (h : m'.still = m.still) : m'.Live ↔ m.Live := by
  have hlive : ∀ m : Machine, m.still.Live ↔ m.Live := by
    intro m
    unfold Machine.Live Machine.still
    rw [Option.map_map, show Line.block ∘ Line.still = Line.block from rfl, ne_eq, ne_eq, Option.map_eq_none_iff]
  rw [← hlive m', h, hlive m]

theorem transport_of_still {m m' : Machine} (h : m'.still = m.still) : m'.transport = m.transport :=
  (congrArg Machine.transport h : m'.still.transport = m.still.transport)

/-! ## Asking and accounting -/

/-- `f` shows neither the clock nor the books nor how many vrings there were. -/
structure Blind {γ : Type} (f : Machine → γ) : Prop where
  now : ∀ m n, f { m with now := n } = f m
  memory : ∀ m events, f { m with memory := events } = f m
  vrings : ∀ m n, f { m with vrings := n } = f m

section Blind

variable {γ : Type} {f : Machine → γ} {world : World}

theorem fixes_tick (hf : Blind f) : Fixes f tick := fun m => hf.now m _

theorem fixes_grant (hf : Blind f) : Fixes f (grant world) := fun m => hf.now m _

theorem fixes_noteMemory (op : MemOp) (hf : Blind f) : Fixes f (noteMemory op) := fun m => hf.memory m _

theorem fixes_startDMA (b : DmaBlock) (size : Nat) (hf : Blind f) : Fixes f (startDMA world b size) :=
  (fixes_tick hf).bind fun _ => .ite (.pure _) ((fixes_noteMemory _ hf).bind fun _ => .pure _)

theorem fixes_awaitReset (tries : Nat) (hf : Blind f) : Fixes f (awaitReset world tries) := by
  induction tries with
  | zero => exact .pure _
  | succ tries ih => exact (fixes_tick hf).bind fun _ => .ite (.pure _) ih

theorem fixes_allocateQueue (queueSize : Nat) (hf : Blind f) : Fixes f (allocateQueue world queueSize) := by
  have hgive : ∀ n, Fixes f (noteMemory (.free (.vring n)) >>= fun _ => (pure none : StateM Machine (Option Line))) :=
    fun n => (fixes_noteMemory _ hf).bind fun _ => .pure _
  refine (fixes_grant hf).bind fun _ => .ite ?_ (.pure _)
  refine Fixes.bind (fun m => hf.vrings m _) fun n => (fixes_noteMemory _ hf).bind fun _ => ?_
  refine (fixes_grant hf).bind fun _ => .ite ?_ (hgive n)
  refine (fixes_grant hf).bind fun _ => .ite ?_ (hgive n)
  exact (fixes_grant hf).bind fun _ => .ite (.pure _) (hgive n)

theorem fixes_virtQueueFree (q : Line) (hf : Blind f) : Fixes f (virtQueueFree q) :=
  .ite ((fixes_noteMemory _ hf).bind fun _ => fixes_noteMemory _ hf) (fixes_noteMemory _ hf)

end Blind

/-- What the driver knows of the device. -/
def Machine.bus (m : Machine) : UInt8 × Option Nat × Option Line × List Transition :=
  (m.status, m.programmed, m.vq, m.transport)

theorem blind_bus : Blind Machine.bus := ⟨fun _ _ => rfl, fun _ _ => rfl, fun _ _ => rfl⟩

/-- `x` leaves the device and the queue alone. -/
def Offline {α : Type} (x : StateM Machine α) : Prop := ∀ m, (x m).2.bus = m.bus

section Offline

variable {α β : Type} {world : World}

theorem Offline.bind {x : StateM Machine α} {f : α → StateM Machine β} (hx : Offline x) (hf : ∀ a, Offline (f a)) :
    Offline (x >>= f) := Fixes.bind hx hf

theorem Offline.ite {c : Prop} [Decidable c] {x y : StateM Machine α} (hx : Offline x) (hy : Offline y) :
    Offline (if c then x else y) := Fixes.ite hx hy

theorem offline_pure (a : α) : Offline (pure a : StateM Machine α) := fun _ => rfl

theorem offline_tick : Offline tick := fixes_tick blind_bus

theorem offline_grant : Offline (grant world) := fixes_grant blind_bus

variable (world) in
/-- A new pool is made off the bus. -/
theorem offline_fidPoolCreate : Offline (fidPoolCreate (busLink world).allocVec) :=
  fidPoolCreate_frame fun _ m => offline_grant m

theorem offline_noteMemory (op : MemOp) : Offline (noteMemory op) := fixes_noteMemory op blind_bus

theorem offline_startDMA (b : DmaBlock) (size : Nat) : Offline (startDMA world b size) :=
  fixes_startDMA b size blind_bus

theorem offline_allocateQueue (queueSize : Nat) : Offline (allocateQueue world queueSize) :=
  fixes_allocateQueue queueSize blind_bus

theorem offline_virtQueueFree (q : Line) : Offline (virtQueueFree q) := fixes_virtQueueFree q blind_bus

theorem offline_installInterrupt : Offline (v9pInstallInterrupt world) := by
  refine offline_grant.bind fun _ => .ite ?_ (offline_pure _)
  refine offline_grant.bind fun _ => .ite ?_ (offline_pure _)
  exact Offline.bind (fun _ => rfl) fun _ => offline_pure _

end Offline

/-! ## Set-up and clean-up -/

/-- The machine at another time. -/
def Later (m m' : Machine) : Prop := ∃ n, m' = { m with now := n }

/-- The machine when the operation was noted, with no queue. -/
def Machine.noted (m : Machine) (op : MemOp) : Machine := { m with memory := ⟨op, []⟩ :: m.memory }

section Setup

variable {world : World} {m : Machine}

theorem later_tick : Ends (Later m) tick fun _ => Later m := by
  rintro _ ⟨n, rfl⟩
  exact ⟨n + 1, rfl⟩

theorem later_grant : Ends (Later m) (grant world) fun _ => Later m := by
  rintro _ ⟨n, rfl⟩
  exact ⟨n + 1, rfl⟩

theorem later_awaitReset : ∀ tries, Ends (Later m) (awaitReset world tries) fun _ => Later m
  | 0 => Ends.ret
  | tries + 1 => later_tick.bind fun _ => Ends.ite (fun _ => Ends.ret) fun _ => later_awaitReset tries

theorem later_writeStatus {v : UInt8} (hv : v ≠ 0) :
    Ends (Later m) (writeStatus v) fun _ => Later { m with status := v } := by
  rintro _ ⟨n, rfl⟩
  refine ⟨n, ?_⟩
  show (if v = 0 then _ else _ : Machine) = _
  rw [if_neg hv]

theorem later_noteMemory (hvq : m.vq = none) (op : MemOp) :
    Ends (Later m) (noteMemory op) fun _ => Later (m.noted op) := by
  rintro _ ⟨n, rfl⟩
  refine ⟨n, ?_⟩
  have hreached : Machine.reached { m with now := n } = [] := by simp only [Machine.reached, hvq]
  show ({ m with now := n, memory := ⟨op, Machine.reached { m with now := n }⟩ :: m.memory } : Machine) = _
  rw [hreached]
  rfl

theorem later_virtQueueFree (hvq : m.vq = none) (q : Line) (hq : q.dmaEntries = 0) :
    Ends (Later m) (virtQueueFree q) fun _ => Later (m.noted (.free (.vring q.block))) := by
  unfold virtQueueFree
  rw [if_neg (by omega)]
  exact later_noteMemory hvq _

/-- A fresh vring. -/
def Machine.withVring (m : Machine) : Machine :=
  Machine.noted { m with vrings := m.vrings + 1 } (.alloc (.vring m.vrings))

/-- A vring that was given back, and what was done to it. -/
inductive Machine.Discarded (m : Machine) : Machine → Prop
  | none : m.Discarded m
  | unmapped : m.Discarded (m.withVring.noted (.free (.vring m.vrings)))
  | mapped (size : Nat) : m.Discarded (((m.withVring.noted (.startDMA (.vring m.vrings) size)).noted
      (.endDMA (.vring m.vrings) size)).noted (.free (.vring m.vrings)))

theorem allocateQueue_spec (hvq : m.vq = none) (queueSize : Nat) :
    Ends (Later m) (allocateQueue world queueSize) fun r m' =>
      (r = none ∧ ∃ m₁, m.Discarded m₁ ∧ Later m₁ m') ∨
      (r = some ⟨m.vrings, vringSize queueSize, 0, .init queueSize false, [], [], [], 0⟩ ∧ Later m.withVring m') := by
  have hgive : Ends (Later m.withVring)
      (noteMemory (.free (.vring m.vrings)) >>= fun _ => (pure none : StateM Machine (Option Line))) fun r m' =>
      (r = none ∧ ∃ m₁, m.Discarded m₁ ∧ Later m₁ m') ∨
      (r = some ⟨m.vrings, vringSize queueSize, 0, .init queueSize false, [], [], [], 0⟩ ∧ Later m.withVring m') :=
    (later_noteMemory (m := m.withVring) hvq _).bind fun _ => Ends.pure fun m' hm' => .inl ⟨rfl, _, .unmapped, hm'⟩
  refine later_grant.bind fun _ => Ends.ite (fun _ => ?_)
    fun _ => Ends.pure fun m' hm' => .inl ⟨rfl, m, .none, hm'⟩
  refine Ends.bind (Q := fun n m' => n = m.vrings ∧ Later { m with vrings := m.vrings + 1 } m') ?_
    fun n => Ends.fact fun hn => ?_
  · rintro _ ⟨n, rfl⟩
    exact ⟨rfl, n, rfl⟩
  subst hn
  refine (later_noteMemory (m := { m with vrings := m.vrings + 1 }) hvq _).bind fun _ => ?_
  refine later_grant.bind fun _ => Ends.ite (fun _ => ?_) fun _ => hgive
  refine later_grant.bind fun _ => Ends.ite (fun _ => ?_) fun _ => hgive
  refine later_grant.bind fun _ => Ends.ite (fun _ => ?_) fun _ => hgive
  exact Ends.pure fun m' hm' => .inr ⟨rfl, hm'⟩

/-- The machine when a queue of this size was set up. -/
def Machine.ready (m : Machine) (num : Nat) (modern : Bool) (driverOk : UInt8) : Machine :=
  { m.withVring.noted (.startDMA (.vring m.vrings) (vringSize num)) with
    status := driverOk
    programmed := some m.vrings
    vq := some ⟨m.vrings, vringSize num, 1, .init num modern, [], [], [], 0⟩ }

/-- What comes of setting up the queue: nothing, or a queue of a size that the device reported. -/
inductive SetupResult (world : World) (modern : Bool) (driverOk : UInt8) (m : Machine) : Bool → Machine → Prop
  | failed {m₁ m' : Machine} : m.Discarded m₁ → Later m₁ m' → SetupResult world modern driverOk m false m'
  | ready {m' : Machine} (t : Nat) : world.queueSize t ≠ 0 →
      Later (m.ready (world.queueSize t).toNat modern driverOk) m' → SetupResult world modern driverOk m true m'

/-- `StartDMA` of a vring fails, or the mapping is begun. -/
theorem startDMA_spec (hvq : m.vq = none) (b : DmaBlock) (size : Nat) :
    Ends (Later m) (startDMA world b size) fun n m' =>
      (n = 0 ∧ Later m m') ∨ (n ≠ 0 ∧ Later (m.noted (.startDMA b size)) m') := by
  refine later_tick.bind fun t => Ends.ite (fun _ => Ends.pure fun m' hm' => .inl ⟨rfl, hm'⟩) fun hn => ?_
  exact (later_noteMemory hvq _).bind fun _ => Ends.pure fun m' hm' => .inr ⟨hn, hm'⟩

theorem setupQueue_spec (hvq : m.vq = none) (modern : Bool) {driverOk : UInt8} (hok : driverOk ≠ 0) :
    Ends (Later m) (setupQueue world modern driverOk) (SetupResult world modern driverOk m) := by
  refine Ends.bind later_tick fun t => Ends.ite (fun _ => ?_) fun hsize => ?_
  · exact Ends.pure fun m' hm' => .failed .none hm'
  refine (allocateQueue_spec hvq _).bind fun r => Ends.or (Ends.fact fun hr => ?_) (Ends.fact fun hr => ?_)
  · subst hr
    refine Ends.pure fun m' hm' => ?_
    obtain ⟨m₁, hdisc, hm'⟩ := hm'
    exact .failed hdisc hm'
  subst hr
  generalize hsz : vringSize (world.queueSize t).toNat = size
  have hvq₁ : m.withVring.vq = none := hvq
  have hvq₂ : (m.withVring.noted (.startDMA (.vring m.vrings) size)).vq = none := hvq
  -- a mapping that was begun is ended before the vring is freed
  have hgive : Ends (Later (m.withVring.noted (.startDMA (.vring m.vrings) size)))
      (noteMemory (.endDMA (.vring m.vrings) size) >>= fun _ =>
        virtQueueFree ⟨m.vrings, size, 0, .init (world.queueSize t).toNat false, [], [], [], 0⟩ >>= fun _ => pure false)
      (SetupResult world modern driverOk m) := by
    have hvq₃ : ((m.withVring.noted (.startDMA (.vring m.vrings) size)).noted
        (.endDMA (.vring m.vrings) size)).vq = none := hvq
    refine (later_noteMemory hvq₂ _).bind fun _ => (later_virtQueueFree hvq₃ _ rfl).bind fun _ => ?_
    exact Ends.pure fun m' hm' => .failed (.mapped size) hm'
  refine (startDMA_spec hvq₁ _ _).bind fun n => Ends.ite (fun hn => ?_) fun hn => Ends.ite (fun _ => ?_) fun hone => ?_
  · refine ((later_virtQueueFree hvq₁ _ rfl).bind fun _ => Ends.pure fun m' hm' => .failed .unmapped hm').pre ?_
    exact fun m' hm' => hm'.elim (fun h => h.2) fun h => absurd hn h.1
  · exact hgive.pre fun m' hm' => hm'.elim (fun h => absurd h.1 hn) fun h => h.2
  · have h1 : n = 1 := by omega
    subst h1
    refine ((later_grant (m := m.withVring.noted (.startDMA (.vring m.vrings) size))).bind fun _ =>
      Ends.ite (fun _ => ?_) fun _ => hgive).pre fun m' hm' => hm'.elim (fun h => absurd h.1 hn) fun h => h.2
    refine Ends.bind (Ends.modify fun m' hm' => ?_) fun _ =>
      (later_writeStatus (m := { m.ready (world.queueSize t).toNat modern driverOk with status := m.status }) hok).bind
        fun _ => Ends.pure fun m' hm' => .ready t hsize hm'
    obtain ⟨n, rfl⟩ := hm'
    refine ⟨n, ?_⟩
    rw [Machine.ready, hsz]
    rfl

theorem later_reset (hvq : m.vq = none) :
    Ends (Later m) (writeStatus 0) fun _ => Later { m with status := 0, programmed := none } := by
  rintro _ ⟨n, rfl⟩
  refine ⟨n, ?_⟩
  show ({ m with now := n, status := 0, programmed := none, vq := m.vq.map _ } : Machine) = _
  rw [hvq]
  rfl

/-- What comes of `V9P_InitVirtIO` when there is no queue. -/
inductive InitResult (world : World) (m : Machine) : Bool → Machine → Prop
  | failed {m₁ m' : Machine} (status : UInt8) (programmed : Option Nat) : m.Discarded m₁ →
      Later { m₁ with status := status, programmed := programmed, transport := .init false :: m.transport } m' →
      InitResult world m false m'
  | ready {m' : Machine} (t : Nat) (driverOk : UInt8) : (world.modern || world.bar0) = true →
      driverOk &&& virtioStatusDriverOk ≠ 0 → world.queueSize t ≠ 0 →
      Later { m.ready (world.queueSize t).toNat world.modern driverOk with transport := .init true :: m.transport } m' →
      InitResult world m true m'

/-- A vring that was given back does not depend on the device. -/
theorem Machine.Discarded.device {status : UInt8} {programmed : Option Nat} {m₁ : Machine}
    (h : Machine.Discarded { m with status := status, programmed := programmed } m₁) :
    ∃ m₂, m.Discarded m₂ ∧ m₁ = { m₂ with status := status, programmed := programmed } := by
  cases h with
  | none => exact ⟨m, .none, rfl⟩
  | unmapped => exact ⟨_, .unmapped, rfl⟩
  | mapped size => exact ⟨_, .mapped size, rfl⟩

theorem Machine.Discarded.transport {m₁ : Machine} (h : m.Discarded m₁) : m₁.transport = m.transport := by
  cases h <;> rfl

theorem Machine.Discarded.vq {m₁ : Machine} (h : m.Discarded m₁) : m₁.vq = m.vq := by
  cases h <;> rfl

/-- The note at the end of `V9P_InitVirtIO`. -/
theorem noteInit_failed (status : UInt8) (programmed : Option Nat) {m₁ m' : Machine} (hdisc : m.Discarded m₁)
    (hm' : Later { m₁ with status := status, programmed := programmed } m') :
    InitResult world m false { m' with transport := .init false :: m'.transport } := by
  obtain ⟨n, rfl⟩ := hm'
  refine .failed status programmed hdisc ⟨n, ?_⟩
  rw [← hdisc.transport]

theorem noteInit_setup {driverOk : UInt8} (hworld : (world.modern || world.bar0) = true)
    (hok : driverOk &&& virtioStatusDriverOk ≠ 0) {status : UInt8} {programmed : Option Nat} {ok : Bool} {m' : Machine}
    (h : SetupResult world world.modern driverOk { m with status := status, programmed := programmed } ok m') :
    InitResult world m ok { m' with transport := .init ok :: m'.transport } := by
  cases h with
  | failed hdisc hm' =>
    obtain ⟨m₂, hdisc₂, rfl⟩ := hdisc.device
    exact noteInit_failed status programmed hdisc₂ hm'
  | ready t hsize hm' =>
    obtain ⟨n, rfl⟩ := hm'
    exact .ready t driverOk hworld hok hsize ⟨n, rfl⟩

/-- A set-up from a device that was told nothing wrong. -/
abbrev InitNoted (world : World) (m : Machine) (ok : Bool) (m' : Machine) : Prop :=
  InitResult world m ok { m' with transport := .init ok :: m'.transport }

theorem initModern_spec (hvq : m.vq = none) (hmodern : world.modern = true) :
    Ends (Later m) (v9pInitVirtioModern world) (InitNoted world m) := by
  refine (later_reset hvq).bind fun _ => (later_awaitReset 1000).bind fun _ => Ends.ite (fun _ => ?_) fun _ => ?_
  · refine (later_writeStatus (by decide)).bind fun _ => (later_writeStatus (by decide)).bind fun _ =>
      (later_writeStatus (by decide)).bind fun _ => later_tick.bind fun t => Ends.ite (fun _ => ?_) fun _ => ?_
    · refine (later_writeStatus (by decide)).bind fun _ => Ends.pure fun m' hm' => ?_
      exact noteInit_failed _ _ .none hm'
    · refine (setupQueue_spec (m := { m with
        status := virtioStatusAcknowledge ||| virtioStatusDriver ||| virtioStatusFeaturesOk, programmed := none })
        hvq true (by decide)).post fun ok m' hm' => ?_
      rw [← hmodern] at hm'
      exact noteInit_setup (by rw [hmodern]; rfl) (by decide) hm'
  · exact Ends.pure fun m' hm' => noteInit_failed _ _ .none hm'

theorem initLegacy_spec (hvq : m.vq = none) (hmodern : world.modern = false) :
    Ends (Later m) (v9pInitVirtioLegacy world) (InitNoted world m) := by
  refine Ends.ite (fun hbar => ?_) fun _ => Ends.pure fun m' hm' => noteInit_failed m.status m.programmed .none hm'
  refine (later_reset hvq).bind fun _ => (later_awaitReset 1000).bind fun _ => Ends.ite (fun _ => ?_) fun _ => ?_
  · refine (later_writeStatus (by decide)).bind fun _ => (later_writeStatus (by decide)).bind fun _ => ?_
    refine (setupQueue_spec (m := { m with
      status := virtioStatusAcknowledge ||| virtioStatusDriver, programmed := none })
      hvq false (by decide)).post fun ok m' hm' => ?_
    rw [← hmodern] at hm'
    exact noteInit_setup (by rw [hbar, Bool.or_true]) (by decide) hm'
  · exact Ends.pure fun m' hm' => noteInit_failed _ _ .none hm'

/-- **`V9P_InitVirtIO` sets up a queue or leaves none**, and gives back what it allocated in vain. -/
theorem initVirtio_spec (hvq : m.vq = none) :
    InitResult world m (v9pInitVirtio world m).1 (v9pInitVirtio world m).2 := by
  unfold v9pInitVirtio
  by_cases hmodern : world.modern = true
  · rw [if_pos hmodern]
    exact initModern_spec hvq hmodern m ⟨m.now, rfl⟩
  · rw [if_neg hmodern]
    exact initLegacy_spec hvq (Bool.eq_false_iff.mpr hmodern) m ⟨m.now, rfl⟩

/-- What holds after `V9P_InitVirtIO`, by the two ways in which it ends. -/
theorem initVirtio_ind {P : Bool → Machine → Prop} (hvq : m.vq = none)
    (hfailed : ∀ (m₁ : Machine) (status : UInt8) (programmed : Option Nat) (n : Nat), m.Discarded m₁ →
      P false { m₁ with
        status := status, programmed := programmed, transport := .init false :: m.transport, now := n })
    (hready : ∀ (t : Nat) (driverOk : UInt8) (n : Nat), (world.modern || world.bar0) = true →
      driverOk &&& virtioStatusDriverOk ≠ 0 → world.queueSize t ≠ 0 →
      P true { m.ready (world.queueSize t).toNat world.modern driverOk with
        transport := .init true :: m.transport, now := n }) :
    P (v9pInitVirtio world m).1 (v9pInitVirtio world m).2 := by
  have hspec : InitResult world m (v9pInitVirtio world m).1 (v9pInitVirtio world m).2 := initVirtio_spec hvq
  generalize v9pInitVirtio world m = r at hspec
  obtain ⟨ok, m'⟩ := r
  cases hspec with
  | @failed m₁ _ status programmed hdisc hlater =>
    obtain ⟨n, rfl⟩ := hlater
    exact hfailed m₁ status programmed n hdisc
  | ready t driverOk hworld hbit hsize hlater =>
    obtain ⟨n, rfl⟩ := hlater
    exact hready t driverOk n hworld hbit hsize

end Setup

/-! ## Taking down -/

section Down

variable {world : World} {m : Machine}

/-- What is done to the memory of a queue that is given up, newest first. -/
def Line.released (q : Line) : List MemEvent :=
  ⟨.free (.vring q.block), []⟩ :: if 0 < q.dmaEntries then [⟨.endDMA (.vring q.block) q.memSize, []⟩] else []

theorem writeStatus_zero (m : Machine) : (writeStatus 0 m).2 = { m with
    status := 0
    programmed := none
    vq := m.vq.map fun q => { q with revoked := q.traffic.posted.length } } := rfl

/-- The machine after `quiesce`. -/
def Machine.quiesced (world : World) (m : Machine) : Machine := (quiesce world m).2

/-- The device holds nothing: it was reset, or it was never set up. -/
theorem quiesced_reached (hlive : m.Live → (world.modern || world.bar0) = true) :
    (m.quiesced world).reached = [] ∧ ¬ (m.quiesced world).Live := by
  have hdead : ¬ (m.quiesced world).Live := by
    unfold Machine.quiesced quiesce
    by_cases hworld : (world.modern || world.bar0) = true
    · rw [if_pos hworld, writeStatus_zero]
      exact fun h => h.1 (show (0 : UInt8) &&& virtioStatusDriverOk = 0 by decide)
    · rw [if_neg hworld]
      exact fun h => hworld (hlive h)
  refine ⟨?_, hdead⟩
  unfold Machine.reached
  cases (m.quiesced world).vq with
  | none => rfl
  | some q => exact if_neg hdead

/-- `quiesce` writes to the device. -/
theorem quiesced_eq (world : World) (m : Machine) :
    ∃ (status : UInt8) (programmed : Option Nat) (revoked : Line → Nat), m.quiesced world = { m with
    status := status
    programmed := programmed
    vq := m.vq.map fun q => { q with revoked := revoked q } } := by
  unfold Machine.quiesced quiesce
  by_cases hworld : (world.modern || world.bar0) = true
  · rw [if_pos hworld]
    exact ⟨0, none, fun q => q.traffic.posted.length, rfl⟩
  · rw [if_neg hworld]
    refine ⟨m.status, m.programmed, fun q => q.revoked, ?_⟩
    show m = { m with vq := m.vq.map fun q => q }
    rw [Option.map_id']

/-- `VirtQueue_Free` on a device that holds nothing. -/
theorem virtQueueFree_eq (q : Line) (hreached : m.reached = []) :
    (virtQueueFree q m).2 = { m with memory := q.released ++ m.memory } := by
  have hnote : ∀ (op : MemOp) (events : List MemEvent), (noteMemory op { m with memory := events }).2 =
      { m with memory := ⟨op, []⟩ :: events } := by
    intro op events
    show ({ m with memory := ⟨op, Machine.reached { m with memory := events }⟩ :: events } : Machine) = _
    rw [show Machine.reached { m with memory := events } = [] from hreached]
  unfold virtQueueFree Line.released
  by_cases hq : 0 < q.dmaEntries
  · rw [if_pos hq, if_pos hq]
    show (noteMemory _ (noteMemory _ m).2).2 = _
    rw [show (noteMemory (.endDMA (.vring q.block) q.memSize) m).2 = _ from hnote _ m.memory, hnote]
    rfl
  · rw [if_neg hq, if_neg hq]
    exact hnote _ m.memory

/-- The machine when `V9P_CleanupVirtIO` has freed the queue. -/
def Machine.withoutQueue (m : Machine) : Machine := { m with vq := none, transport := .cleanup :: m.transport }

/-- **`V9P_CleanupVirtIO` resets the device and frees the queue.** -/
theorem cleanupVirtio_eq (hlive : m.Live → (world.modern || world.bar0) = true) :
    (v9pCleanupVirtio world m).2 = { m.quiesced world with
      vq := none
      memory := m.vq.elim [] Line.released ++ m.memory
      transport := .cleanup :: m.transport } := by
  obtain ⟨hreached, -⟩ := quiesced_reached hlive
  obtain ⟨status, programmed, revoked, hq⟩ := quiesced_eq world m
  have hmem : (m.quiesced world).memory = m.memory := by rw [hq]
  have htr : (m.quiesced world).transport = m.transport := by rw [hq]
  have hrun : quiesce world m = ((), m.quiesced world) := rfl
  unfold v9pCleanupVirtio
  cases hvq : m.vq with
  | none =>
    have hnone : (m.quiesced world).vq = none := by rw [hq, hvq]; rfl
    simp only [bind, StateT.bind, get, getThe, MonadStateOf.get, StateT.get, pure, hrun, hnone]
    show ({ m.quiesced world with transport := .cleanup :: (m.quiesced world).transport } : Machine) = _
    rw [hq, hvq]
    rfl
  | some q =>
    have hsome : (m.quiesced world).vq = some { q with revoked := revoked q } := by rw [hq, hvq]; rfl
    simp only [bind, StateT.bind, get, getThe, MonadStateOf.get, StateT.get, pure, hrun, hsome]
    show (virtQueueFree { q with revoked := revoked q } (m.quiesced world)).2.withoutQueue = _
    rw [virtQueueFree_eq _ hreached, Machine.withoutQueue, htr, hmem]
    rfl

/-- **`V9P_RemoveInterrupt` resets the device and keeps the queue.** -/
theorem removeInterrupt_eq : (v9pRemoveInterrupt world m).2 =
    if m.irqInstalled then
      { m.quiesced world with irqInstalled := false, transport := .removeInterrupt :: m.transport }
    else m := by
  obtain ⟨status, programmed, revoked, hq⟩ := quiesced_eq world m
  have htr : (m.quiesced world).transport = m.transport := by rw [hq]
  unfold v9pRemoveInterrupt
  by_cases hirq : m.irqInstalled = true
  · rw [if_pos hirq]
    simp only [bind, StateT.bind, get, getThe, MonadStateOf.get, StateT.get, pure, hirq, if_true]
    show ({ m.quiesced world with
      irqInstalled := false, transport := .removeInterrupt :: (m.quiesced world).transport } : Machine) = _
    rw [htr]
  · rw [if_neg hirq]
    simp only [bind, StateT.bind, get, getThe, MonadStateOf.get, StateT.get, pure, hirq]
    rfl

/-- The queue stays, with more of its chains revoked. -/
theorem removeInterrupt_vq {q' : Line} (h : (v9pRemoveInterrupt world m).2.vq = some q') :
    ∃ q revoked, m.vq = some q ∧ q' = { q with revoked := revoked } := by
  rw [removeInterrupt_eq] at h
  split at h
  · obtain ⟨status, programmed, revoked, hq⟩ := quiesced_eq world m
    rw [hq] at h
    obtain ⟨q, hvq, rfl⟩ := Option.map_eq_some_iff.mp h
    exact ⟨q, revoked q, hvq, rfl⟩
  · exact ⟨q', q'.revoked, h, rfl⟩

theorem installInterrupt_spec :
    ∃ installed, Later { m with irqInstalled := installed } (v9pInstallInterrupt world m).2 := by
  have hspec : Ends (Later m) (v9pInstallInterrupt world) fun _ m' =>
      ∃ installed, Later { m with irqInstalled := installed } m' := by
    refine later_grant.bind fun _ => Ends.ite (fun _ => ?_) fun _ => Ends.pure fun m' hm' => ⟨m.irqInstalled, hm'⟩
    refine later_grant.bind fun _ => Ends.ite (fun _ => ?_) fun _ => Ends.pure fun m' hm' => ⟨m.irqInstalled, hm'⟩
    refine Ends.bind (Ends.modify (Q := fun _ => Later { m with irqInstalled := true }) ?_) fun _ =>
      Ends.pure fun m' hm' => ⟨true, hm'⟩
    rintro _ ⟨n, rfl⟩
    exact ⟨n, rfl⟩
  exact hspec m ⟨m.now, rfl⟩

end Down

end Virtio9P
