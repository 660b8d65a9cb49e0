import Virtio9P.Chains

/-!
# After a reset that failed

`V9P_Reset` frees the queue before it knows that it can set up another, and destroys the pool before there is a new one.
When `V9P_InitVirtIO` or `FidPool_Create` fails then, `h->vq` or `h->fid_pool` stays `NULL`, and nothing that runs later
asks. A handshake that fails leaves both in place.

* `restored_never_null`: a run in which every `V9P_InitVirtIO` and every `FidPool_Create` of a reset succeeded does not
  dereference `NULL`, whatever else failed.
* `broken_statfs_crashes`: a call that timed out, whose reset could not set up the device, and the next call.
-/

namespace Virtio9P

open Lib

/-- What the resets took away they put back: `V9P_InitVirtIO` did not fail, and neither did `FidPool_Create`. -/
def Restored (transport : List Transition) (log : List (Moment Machine)) : Prop :=
  .init false ∉ transport ∧ ∀ mo ∈ log, mo.event = .newPool → mo.h.fidPool ≠ none

/-- The device is set up as often as it is asked to be, and there is memory for a pool. -/
structure World.Provides (world : World) : Prop where
  willing : ∀ m : Machine, m.vq = none → (v9pInitVirtio world m).1 = true
  grants : ∀ t, world.grants t = true

/-- There is a queue, and a pool if there was one, unless a reset failed to put it back. -/
structure Standing (world : World) (pool : Bool) (s : St Machine) : Prop where
  traced : s.w.Traced world
  provided : world.Provides → Restored s.w.transport s.log
  up : Restored s.w.transport s.log → s.w.vq ≠ none
  pooled : Restored s.w.transport s.log → pool = true → s.h.fidPool ≠ none

/-- A fault that is not about `NULL`, unless a reset failed to put back what it took away. -/
structure NotNull (world : World) (e : Fault) (s : St Machine) : Prop where
  provided : world.Provides → Restored s.w.transport s.log
  notNull : Restored s.w.transport s.log → e ≠ .nullQueue ∧ e ≠ .nullPool

section Standing

variable {world : World} {pool : Bool} {s : St Machine}

theorem restored_of_cons {transport : List Transition} {mo : Moment Machine} {log : List (Moment Machine)}
    (h : Restored transport (mo :: log)) : Restored transport log :=
  ⟨h.1, fun mo' hmo' => h.2 mo' (List.mem_cons_of_mem _ hmo')⟩

/-- What is done to a queue is not a set-up that failed. -/
theorem restored_cons {transport : List Transition} {log : List (Moment Machine)} {e : Transition}
    (he : .init false ≠ e) : Restored (e :: transport) log ↔ Restored transport log := by
  unfold Restored
  rw [List.mem_cons, not_or, and_iff_right he]

theorem restored_cleanup {m : Machine} {log : List (Moment Machine)} (hm : m.Traced world) :
    Restored (v9pCleanupVirtio world m).2.transport log ↔ Restored m.transport log := by
  rw [cleanupVirtio_eq hm.2]
  exact restored_cons (by rintro ⟨⟩)

theorem restored_removeInterrupt {m : Machine} {log : List (Moment Machine)} :
    Restored (v9pRemoveInterrupt world m).2.transport log ↔ Restored m.transport log := by
  rw [removeInterrupt_eq]
  split
  · exact restored_cons (by rintro ⟨⟩)
  · exact Iff.rfl

theorem vq_of_still {m m' : Machine} (h : m'.still = m.still) : m'.vq = none ↔ m.vq = none := by
  have hvq : m'.vq.map Line.still = m.vq.map Line.still := congrArg Machine.vq h
  rw [← Option.map_eq_none_iff, hvq, Option.map_eq_none_iff]

theorem Standing.moved (h : Standing world pool s) {w : Machine} (hstill : w.still = s.w.still) :
    Standing world pool { s with w := w } := by
  have htr := transport_of_still hstill
  refine ⟨traced_of_still hstill h.traced, fun hw => htr.symm ▸ h.provided hw, fun hr hnone => ?_,
    fun hr => h.pooled (htr ▸ hr)⟩
  exact h.up (htr ▸ hr) ((vq_of_still hstill).mp hnone)

theorem Standing.offline (h : Standing world pool s) {w : Machine} (hbus : w.bus = s.w.bus) :
    Standing world pool { s with w := w } := by
  have htr : w.transport = s.w.transport := congrArg (·.2.2.2) hbus
  have hvq : w.vq = s.w.vq := congrArg (·.2.2.1) hbus
  refine ⟨traced_of_bus hbus h.traced, fun hw => htr.symm ▸ h.provided hw, fun hr hnone => ?_,
    fun hr => h.pooled (htr ▸ hr)⟩
  exact h.up (htr ▸ hr) (hvq.symm.trans hnone)

theorem Standing.frame (h : Standing world pool s) (h' : Handler)
    (hpool : s.h.fidPool ≠ none → h'.fidPool ≠ none) : Standing world pool { s with h := h' } :=
  ⟨h.traced, h.provided, h.up, fun hr hp => hpool (h.pooled hr hp)⟩

theorem Standing.logged (h : Standing world pool s) {e : Event} (he : e ≠ .newPool) :
    Standing world pool (s.logged e) := by
  refine ⟨h.traced, fun hw => ⟨(h.provided hw).1, fun mo hmo hnew => ?_⟩, fun hr => h.up (restored_of_cons hr),
    fun hr => h.pooled (restored_of_cons hr)⟩
  rcases List.mem_cons.mp hmo with rfl | hold
  · exact absurd hnew he
  · exact (h.provided hw).2 mo hold hnew

/-- A fault of the transport. -/
theorem Standing.fault (h : Standing world pool s) {e : Fault} {w : Machine} (hfault : StillFault s.w e w) :
    NotNull world e { s with w := w } := by
  obtain ⟨hstill, hnull, hpool⟩ := hfault
  refine ⟨(h.moved hstill).provided, fun hr => ⟨fun he => ?_, hpool⟩⟩
  exact (h.moved hstill).up hr (hnull he)

theorem Standing.sent (h : Standing world pool s) (txSize : Nat) : Standing world pool (s.sent txSize) :=
  h.logged (by rintro ⟨⟩)

theorem standing_transactWith {reset : Client Machine Bool}
    (hreset : Triple (fun s => s.h.inReset = false ∧ Standing world pool s) reset (fun _ => Standing world pool)
      (NotNull world)) (txSize : Nat) :
    Triple (Standing world pool) (v9pTransactWith (busLink world) reset txSize) (fun _ => Standing world pool)
      (NotNull world) := by
  refine transact_rule (R := fun _ => Standing world pool) (T := fun _ _ => Standing world pool) ?_ ?_ ?_ ?_
    (fun tx tag => ?_) fun n s hs => hs.logged (by rintro ⟨⟩)
  · exact fun s e w hs hpoll => (hs.sent txSize).fault ((busPoll_still _).error rfl hpoll)
  · exact fun s w hs hpoll => (hs.sent txSize).moved ((busPoll_still _).ok rfl hpoll)
  · exact fun s n rx w hs hpoll => ((hs.sent txSize).moved ((busPoll_still _).ok rfl hpoll)).frame _ id
  · exact fun s rx w hs hpoll => ((hs.sent txSize).moved ((busPoll_still _).ok rfl hpoll)).frame _ id
  · refine abandon_rule ?_ ?_ ?_ hreset
    · exact fun s e w hs hdrain => (hs.frame s.tagged.h id).fault ((busDrain_still _).error rfl hdrain)
    · exact fun s k rx w hs hdrain _ => (hs.moved ((busDrain_still _).ok rfl hdrain)).frame _ id
    · intro s k rx w hs hdrain _ hin
      have hmoved : Standing world pool (s.tagged.received w rx) :=
        (hs.moved ((busDrain_still _).ok rfl hdrain)).frame _ id
      exact ⟨hin, hmoved.logged (by rintro ⟨⟩)⟩

/-- A request inside a reset. -/
theorem standing_nested {α : Type} {nextTag : Client Machine UInt16}
    (htag : Triple (Standing world pool) nextTag (fun _ => Standing world pool) (NotNull world)) (m : TMsg)
    (parse : Mem → UInt32 → Except Int32 α) :
    Triple (Standing world pool) (p9Request (v9pTransactAt (busLink world) 0) nextTag m parse)
      (fun _ => Standing world pool) (NotNull world) := by
  refine request_rule (htag.post fun _ s hs => hs.frame _ id) (standing_transactWith (Triple.throw fun s hs => ?_) _)
    fun _ _ hs => hs
  exact ⟨hs.2.provided, fun _ => ⟨by decide, by decide⟩⟩

/-- `V9P_InitVirtIO` succeeds with a queue, and what it returned is noted. -/
theorem initVirtio_noted {m : Machine} (hvq : m.vq = none) :
    ∃ ok, (v9pInitVirtio world m).1 = ok ∧ (v9pInitVirtio world m).2.transport = .init ok :: m.transport ∧
      (ok = true → (v9pInitVirtio world m).2.vq ≠ none) := by
  refine initVirtio_ind (P := fun r m' => ∃ ok, r = ok ∧ m'.transport = .init ok :: m.transport ∧
    (ok = true → m'.vq ≠ none)) hvq (fun m₁ status programmed n hdisc => ?_) fun t driverOk n _ _ _ => ?_
  · exact ⟨false, rfl, rfl, fun h => by cases h⟩
  · exact ⟨true, rfl, rfl, fun _ => Option.some_ne_none _⟩

/-- `V9P_InitVirtIO` when there is no queue. -/
theorem standing_init (hvq : s.w.vq = none) (hprovided : world.Provides → Restored s.w.transport s.log)
    (hpool : Restored s.w.transport s.log → pool = true → s.h.fidPool ≠ none) :
    Standing world pool (stepped (v9pInitVirtio world) s) := by
  obtain ⟨ok, hok, htr, hup⟩ : ∃ ok, (v9pInitVirtio world s.w).1 = ok ∧
      (v9pInitVirtio world s.w).2.transport = .init ok :: s.w.transport ∧
      (ok = true → (v9pInitVirtio world s.w).2.vq ≠ none) := initVirtio_noted hvq
  have hbefore : ∀ {e}, e ∈ s.w.transport → e ∈ (stepped (v9pInitVirtio world) s).w.transport := by
    intro e he
    rw [show (stepped (v9pInitVirtio world) s).w.transport = _ from htr]
    exact List.mem_cons_of_mem _ he
  refine ⟨traced_init hvq, fun hw => ?_, fun hr => hup ?_, fun hr => hpool ⟨fun hmem => hr.1 (hbefore hmem), hr.2⟩⟩
  · obtain rfl : ok = true := hok.symm.trans (hw.willing s.w hvq)
    refine ⟨fun hmem => ?_, (hprovided hw).2⟩
    rw [show (stepped (v9pInitVirtio world) s).w.transport = _ from htr] at hmem
    rcases List.mem_cons.mp hmem with hhead | hold
    · cases hhead
    · exact (hprovided hw).1 hold
  · cases ok with
    | true => rfl
    | false => exact absurd (htr ▸ List.mem_cons_self : _ ∈ (v9pInitVirtio world s.w).2.transport) hr.1

/-- `FidPool_Create` when there is memory. -/
theorem fidPoolCreate_provided (hw : world.Provides) (m : Machine) :
    (fidPoolCreate (busLink world).allocVec m).1 = some freshPool := by
  have hgrant : ∀ (bytes : UInt32) (m : Machine),
      (busLink world).allocVec bytes m = (true, { m with now := m.now + 1 }) := by
    intro bytes m
    show (world.grants m.now, { m with now := m.now + 1 }) = _
    rw [hw.grants]
  unfold fidPoolCreate
  simp only [bind, StateT.bind, hgrant, if_true]
  rfl

theorem standing_reset :
    Triple (fun s => s.h.inReset = false ∧ Standing world pool s)
      (v9pReset (busLink world) (v9pTransactAt (busLink world) 0)) (fun _ => Standing world pool) (NotNull world) := by
  refine reset_rule (A := fun s => s.w.vq = none ∧ (world.Provides → Restored s.w.transport s.log) ∧
      (Restored s.w.transport s.log → pool = true → s.h.fidPool ≠ none))
    (C := Standing world pool) (D := Standing world pool) (G := Standing world pool) (Z := fun _ => Standing world pool)
    ?_ ?_ ?_ ?_ (fun root => ?_) ?_ (fun s hs _ => hs) fun ok s hs => ?_
  · rintro s ⟨hin, hs⟩
    have hkept : Restored (v9pCleanupVirtio world s.w).2.transport s.log ↔ Restored s.w.transport s.log :=
      restored_cleanup hs.traced
    exact ⟨hin, cleanupVirtio_vq hs.traced, fun hw => hkept.mpr (hs.provided hw), fun hr => hs.pooled (hkept.mp hr)⟩
  · intro s w hs hinit
    have hup : Standing world pool (stepped (v9pInitVirtio world) s) := standing_init hs.1 hs.2.1 hs.2.2
    rw [stepped, show v9pInitVirtio world s.w = (true, w) from hinit] at hup
    exact hup.frame _ id
  · intro s w hs hinit
    have hup : Standing world pool (stepped (v9pInitVirtio world) s) := standing_init hs.1 hs.2.1 hs.2.2
    rwa [stepped, show v9pInitVirtio world s.w = (false, w) from hinit] at hup
  · refine (standing_nested (fun _ hs => hs) _ _).post fun r s hs => ?_
    cases r with
    | error e => exact hs
    | ok msize => exact hs.frame _ id
  · refine ((standing_nested (fun s hs => hs.frame s.tagged.h id) _ _).pre fun s hs => hs.2).post fun r s hs => ?_
    cases r <;> exact hs
  · intro s p w hs _ hcreate
    have hbus := offline_fidPoolCreate world s.w
    rw [hcreate] at hbus
    have hoff : Standing world pool { s with w := w } := hs.offline hbus
    refine ⟨hoff.traced, fun hw => ⟨(hoff.provided hw).1, fun mo hmo hnew => ?_⟩,
      fun hr => hoff.up (restored_of_cons hr), fun hr _ => hr.2 _ List.mem_cons_self rfl⟩
    rcases List.mem_cons.mp hmo with rfl | hold
    · obtain rfl : some freshPool = p := (fidPoolCreate_provided hw s.w).symm.trans (congrArg Prod.fst hcreate)
      exact Option.some_ne_none _
    · exact (hoff.provided hw).2 mo hold hnew
  · exact (hs.frame { s.h with inReset := false } id).logged (by rintro ⟨⟩)

/-- It holds between transactions. -/
def standingUpkeep (world : World) (pool : Bool) : Upkeep (busLink world) where
  Inv := Standing world pool
  Safe := NotNull world
  hang := fun hs => ⟨hs.provided, fun _ => ⟨by decide, by decide⟩⟩
  frame := fun h _ hpool hs => hs.frame h fun hne => hpool.symm ▸ hne
  pooled := fun _ _ hs => hs.frame _ fun _ => Option.some_ne_none _
  alloc := fun {s} _ hs => hs.offline (offline_grant s.w)
  record := fun he hs => hs.logged (by rintro rfl; exact he)
  transact := standing_transactWith standing_reset

theorem standing_removeInterrupt : Steps (v9pRemoveInterrupt world) (Standing world pool) (Standing world pool) := by
  intro s hs
  have hkept : Restored (v9pRemoveInterrupt world s.w).2.transport s.log ↔ Restored s.w.transport s.log :=
    restored_removeInterrupt
  obtain ⟨status, programmed, revoked, hq⟩ := quiesced_eq world s.w
  have hvq : (v9pRemoveInterrupt world s.w).2.vq = none → s.w.vq = none := by
    rw [removeInterrupt_eq, hq]
    split
    · exact fun h => Option.map_eq_none_iff.mp h
    · exact id
  exact ⟨traced_removeInterrupt hs.traced, fun hw => hkept.mpr (hs.provided hw),
    fun hr hnone => hs.up (hkept.mp hr) (hvq hnone), fun hr => hs.pooled (hkept.mp hr)⟩

/-- While the handler takes down what it set up. -/
def Dismantled (world : World) (s : St Machine) : Prop :=
  s.w.Traced world ∧ (world.Provides → Restored s.w.transport s.log)

theorem Dismantled.offline {m : Machine} (h : Dismantled world s) (hbus : m.bus = s.w.bus) :
    Dismantled world { s with w := m } := by
  have htr : m.transport = s.w.transport := congrArg (·.2.2.2) hbus
  exact ⟨traced_of_bus hbus h.1, fun hw => htr.symm ▸ h.2 hw⟩

/-- From start to return. -/
theorem start_notNull (calls lateCalls : List Callback) :
    Triple (fun s => s.w.vq = none ∧ Dismantled world s) (start world calls lateCalls)
      (fun _ s => world.Provides → Restored s.w.transport s.log) (NotNull world) := by
  refine Upkeep.start (U := standingUpkeep world false) (V := standingUpkeep world true)
    (A := fun s => s.w.vq = none ∧ Dismantled world s) (Q := Dismantled world) (fun _ _ h => h)
    (fun _ h hs => ⟨vq_of_bus h hs.1, hs.2.offline h⟩) (fun _ h hs => hs.offline h) (fun _ h hs => hs.offline h) ?_
    (fun s w hs => ?_) (fun s w hs => ?_) (fun hs hnone => ⟨hs.provided, fun hr => ?_⟩) standing_removeInterrupt
    (fun _ hs => hs.2) (fun _ hs => ⟨hs.traced, hs.provided⟩) (fun _ hs => ⟨hs.traced, hs.provided⟩) (fun _ hs => hs.2)
    (fun s hs => hs.offline (offline_cleanupBufs s.w)) (fun s hs => ?_) fun s hs hw => ?_
  · exact fun s hs => standing_init hs.1 hs.2.2 fun _ h => by cases h
  · exact ⟨hs.traced, hs.provided, hs.up, fun _ _ => Option.some_ne_none _⟩
  · exact ⟨hs.traced, hs.provided, hs.up, fun _ h => by cases h⟩
  · exact absurd hnone (hs.pooled hr rfl)
  · exact ⟨traced_removeInterrupt hs.1, fun hw => restored_removeInterrupt.mpr (hs.2 hw)⟩
  · exact (restored_cleanup hs.1).mpr (hs.2 hw)

theorem boot_dismantled (txBuf rxBuf : Mem) : Dismantled world ⟨startHandler txBuf rxBuf, .boot, []⟩ :=
  ⟨boot_traced, fun _ => ⟨List.not_mem_nil, fun _ hmo => absurd hmo List.not_mem_nil⟩⟩

/-- Whatever the device answers, a run in which the resets get what they ask for puts everything back. -/
theorem startEnd_restored (hw : world.Provides) (calls lateCalls : List Callback) (txBuf rxBuf : Mem) :
    Restored (startEnd world calls lateCalls txBuf rxBuf).w.transport
      (startEnd world calls lateCalls txBuf rxBuf).log := by
  have hstart : Triple (fun s => s.w.vq = none ∧ Dismantled world s) (start world calls lateCalls)
      (fun _ s => Restored s.w.transport s.log) fun _ s => Restored s.w.transport s.log :=
    (start_notNull calls lateCalls).conseq (fun _ h => h) (fun _ _ h => h hw) fun _ _ h => h.provided hw
  exact hstart.final (fun _ h => h) ⟨rfl, boot_dismantled txBuf rxBuf⟩

end Standing

/-- The fault in which a run ends. -/
def faultOf {σ α : Type} : EStateM.Result Fault σ α → Option Fault
  | .ok .. => none
  | .error e _ => some e

/-- **No run dereferences `NULL` unless a reset failed to put back what it took away**: a queue that
`V9P_InitVirtIO` could not set up, or a pool that `FidPool_Create` could not allocate. A handshake that fails is not
enough. -/
theorem restored_never_null (world : World) (calls lateCalls : List Callback) (txBuf rxBuf : Mem)
    (h : Restored (startEnd world calls lateCalls txBuf rxBuf).w.transport
      (startEnd world calls lateCalls txBuf rxBuf).log) :
    faultOf (start world calls lateCalls ⟨startHandler txBuf rxBuf, .boot, []⟩) ≠ some .nullQueue ∧
      faultOf (start world calls lateCalls ⟨startHandler txBuf rxBuf, .boot, []⟩) ≠ some .nullPool := by
  unfold startEnd at h
  cases hres : start world calls lateCalls ⟨startHandler txBuf rxBuf, .boot, []⟩ with
  | ok ret s => exact ⟨(Option.some_ne_none _).symm, (Option.some_ne_none _).symm⟩
  | error e s =>
    rw [hres] at h
    obtain ⟨hqueue, hpool⟩ := ((start_notNull calls lateCalls).error ⟨rfl, boot_dismantled _ _⟩ hres).notNull h
    exact ⟨fun heq => hqueue (Option.some.inj heq), fun heq => hpool (Option.some.inj heq)⟩

/-- A device that is set up as often as it is asked to be, and answers up to the end of the mount. -/
def lapsedWorld : World := { politeWorld with acts := fun t => if t < 31 then politeWorld.acts t else [] }

theorem lapsed_provides : lapsedWorld.Provides := ⟨fun _ _ => rfl, fun _ => rfl⟩

/-- Two calls and the last clunk time out, and each asks for a reset that fails at its `P9_Version`. -/
theorem restored_never_null_lapsed :
    Restored (startEnd lapsedWorld [.statfs, .statfs] [] (fun _ => 0) fun _ => 0).w.transport
      (startEnd lapsedWorld [.statfs, .statfs] [] (fun _ => 0) fun _ => 0).log ∧
    (faultOf (start lapsedWorld [.statfs, .statfs] [] ⟨startHandler (fun _ => 0) fun _ => 0, .boot, []⟩) ≠
        some .nullQueue ∧
      faultOf (start lapsedWorld [.statfs, .statfs] [] ⟨startHandler (fun _ => 0) fun _ => 0, .boot, []⟩) ≠
        some .nullPool) :=
  And.intro (startEnd_restored lapsed_provides _ _ _ _)
    (restored_never_null lapsedWorld _ _ _ _ (startEnd_restored lapsed_provides _ _ _ _))

/-! ## A device that breaks down -/

section Broken

variable {world : World} {T : Nat}

/-- From the time `T` on the device does nothing, and it does not come out of a reset. -/
structure World.Breaks (world : World) (T : Nat) : Prop where
  legacy : world.modern = false
  silent : ∀ t, T ≤ t → world.acts t = []
  stuck : ∀ t, T ≤ t → world.readStatus t ≠ 0

theorem World.Breaks.hush (h : world.Breaks T) {m : Machine} (hlate : T ≤ m.now) : m.Silent world :=
  fun t ht => h.silent t (hlate.trans ht)

theorem awaitReset_stuck (h : world.Breaks T) : ∀ tries,
    Ends (fun m => T ≤ m.now) (awaitReset world tries) fun ok _ => ok = false
  | 0 => Ends.pure fun _ _ => rfl
  | tries + 1 => by
    have htick : Ends (fun m => T ≤ m.now) tick fun t m => T ≤ t ∧ T ≤ m.now :=
      fun m hm => ⟨hm, Nat.le_succ_of_le hm⟩
    refine htick.bind fun t => Ends.fact fun ht => ?_
    rw [if_neg (h.stuck t ht)]
    exact awaitReset_stuck h tries

/-- `V9P_InitVirtIO` fails. -/
theorem initVirtio_stuck (h : world.Breaks T) {m : Machine} (hm : T ≤ m.now) : (v9pInitVirtio world m).1 = false := by
  have hwrite : Ends (fun m => T ≤ m.now) (writeStatus 0) fun _ m => T ≤ m.now := fun _ hm => hm
  have hlegacy : Ends (fun m => T ≤ m.now) (v9pInitVirtioLegacy world) fun ok _ => ok = false := by
    refine Ends.ite (fun _ => ?_) fun _ => Ends.pure fun _ _ => rfl
    refine hwrite.bind fun _ => (awaitReset_stuck h 1000).bind fun ok => ?_
    cases ok with
    | false => exact Ends.pure fun _ _ => rfl
    | true => exact fun _ hm => by cases hm
  have hinit : Ends (fun m => T ≤ m.now) (v9pInitVirtio world) fun ok _ => ok = false := by
    unfold v9pInitVirtio
    rw [h.legacy]
    refine hlegacy.bind fun ok => Ends.bind (Q := fun _ _ => ok = false) (fun _ hok => hok) fun _ => ?_
    exact Ends.pure fun _ hok => hok
  exact hinit m hm

/-- Nothing was logged inside a reset. -/
def Unreset (log : List (Moment Machine)) : Prop := log.all (fun mo => !mo.h.inReset) = true

theorem Unreset.logged {s : St Machine} (h : Unreset s.log) (hin : s.h.inReset = false) (e : Event) :
    Unreset (s.logged e).log := by
  show ((⟨e, s.h, s.w⟩ : Moment Machine) :: s.log).all (fun mo => !mo.h.inReset) = true
  rw [List.all_cons, hin]
  exact h

/-- The device broke down, and nothing asked for it yet. -/
structure Afloat (world : World) (T : Nat) (s : St Machine) : Prop where
  inReset : s.h.inReset = false
  traced : s.w.Traced world
  empty : s.w.Empty
  late : T ≤ s.w.now
  calm : Unreset s.log

/-- A reset failed, and left no queue. -/
structure Aground (s : St Machine) : Prop where
  inReset : s.h.inReset = false
  vq : s.w.vq = none
  calm : Unreset s.log

/-- The reset fails at once, and leaves no queue. -/
theorem reset_breaks (h : world.Breaks T) :
    Triple (fun s => s.h.inReset = false ∧ s.w.Traced world ∧ T ≤ s.w.now ∧ Unreset s.log)
      (v9pReset (busLink world) (v9pTransactAt (busLink world) 0)) (fun _ => Aground) fun _ _ => False := by
  refine reset_rule (A := fun s => s.w.vq = none ∧ T ≤ s.w.now ∧ Unreset s.log) (C := fun _ => False)
    (D := fun _ => False) (G := fun _ => False) (Z := fun _ s => s.w.vq = none ∧ Unreset s.log) ?_ ?_ ?_
    (fun _ hs => hs.elim) (fun _ _ hs => hs.2.elim) (fun _ _ _ hs => hs.elim) (fun _ hs => hs.elim) fun _ s hs => ?_
  · rintro s ⟨hin, htraced, hlate, hcalm⟩
    refine ⟨hin, cleanupVirtio_vq htraced, ?_, hcalm⟩
    show T ≤ (v9pCleanupVirtio world s.w).2.now
    obtain ⟨status, programmed, revoked, hq⟩ := quiesced_eq world s.w
    rw [cleanupVirtio_eq htraced.2, hq]
    exact hlate
  · intro s w hs hinit
    have hfails := initVirtio_stuck h hs.2.1
    rw [show v9pInitVirtio world s.w = (true, w) from hinit] at hfails
    cases hfails
  · intro s w hs hinit
    have hspec : InitResult world s.w _ _ := initVirtio_spec hs.1
    rw [show v9pInitVirtio world s.w = (false, w) from hinit] at hspec
    cases hspec with
    | failed status programmed hdisc hlater =>
      obtain ⟨n, hm'⟩ := hlater
      refine ⟨?_, hs.2.2⟩
      show (false, w).2.vq = none
      rw [hm']
      exact hdisc.vq.trans hs.1
  · exact ⟨rfl, hs.1, Unreset.logged (s := { s with h := { s.h with inReset := false } }) hs.2 rfl _⟩

/-- The first call after the device broke down is an error, and leaves no queue. -/
theorem transact_breaks (h : world.Breaks T) (txSize : Nat) :
    Triple (Afloat world T) (v9pTransact (busLink world) txSize) (fun _ => Aground) fun _ _ => False := by
  refine transact_unanswered
    (T := fun s => s.h.inReset = false ∧ s.w.Traced world ∧ s.w.Stuck ∧ T ≤ s.w.now ∧ Unreset s.log) (R := Aground) ?_
    (fun tx tag => abandon_unanswered ?_ (reset_breaks h)) fun s hs => ⟨hs.inReset, hs.vq, hs.calm.logged hs.inReset _⟩
  · rintro s ⟨hin, htraced, hempty, hlate, hcalm⟩
    obtain ⟨w, hpoll, hstuck, hle⟩ := busPoll_silent hempty (h.hush hlate) (s.post txSize)
    exact ⟨_, w, hpoll, hin, traced_of_still ((busPoll_still _).ok rfl hpoll) htraced, hstuck, hlate.trans hle,
      hcalm.logged hin _⟩
  · rintro s ⟨hin, htraced, hstuck, hlate, hcalm⟩
    obtain ⟨w, hdrain, -, hle⟩ := busDrain_silent hstuck (h.hush hlate) (s.flush tag)
    refine ⟨_, w, hdrain, fun ht => absurd (hin.symm.trans ht) (by decide), fun _ => ?_⟩
    exact ⟨hin, traced_of_still ((busDrain_still _).ok rfl hdrain) htraced, hlate.trans hle,
      Unreset.logged (s := s.tagged.received w _) hcalm hin _⟩

/-- The next call dereferences `h->vq`. -/
theorem transact_crashes (txSize : Nat) :
    Triple Aground (v9pTransact (busLink world) txSize) (fun _ _ => False)
      fun e s => e = .nullQueue ∧ Unreset s.log := by
  have hnull : ∀ {s : St Machine} {r}, s.w.vq = none → busPoll world (s.post txSize) s.w = r →
      .error .nullQueue s.w = r := by
    rintro s r hvq rfl
    have hqueue : theQueue s.w = .error .nullQueue s.w := by
      unfold theQueue
      rw [get_bind, hvq]
      rfl
    unfold busPoll postMessage
    rw [bind_assoc, run_bind_error hqueue]
  refine transact_rule (R := fun _ _ => False) (T := fun _ _ _ => False) ?_ ?_ ?_ ?_ (fun _ _ _ hs => hs.elim)
    fun _ _ hs => hs
  · intro s e w hs hpoll
    cases hnull hs.vq hpoll
    exact ⟨rfl, hs.calm.logged hs.inReset _⟩
  · exact fun s w hs hpoll => by cases hnull hs.vq hpoll
  · exact fun s n rx w hs hpoll => by cases hnull hs.vq hpoll
  · exact fun s rx w hs hpoll => by cases hnull hs.vq hpoll

/-- `v9p_statfs` is one request. -/
theorem statfs_rule {L : Link Machine} {handles : List UInt32} {P Q : St Machine → Prop} {E : Fault → St Machine → Prop}
    (h : ∀ root, Triple P (p9Request (v9pTransact L) p9NextTag (.statfs root) parseStatfs) (fun _ => Q) E) :
    Triple P (exec L handles .statfs) (fun _ => Q) E := by
  have hstatfs : Triple P (v9pStatfs L) (fun _ => Q) E := by
    intro s hs
    unfold v9pStatfs
    rw [handler_bind, p9Statfs_eq]
    exact (h s.h.rootFid).bind (fun _ => Triple.ret) s hs
  exact hstatfs.bind fun _ => Triple.ret

/-- Two calls after the device broke down. -/
theorem run_crashes (h : world.Breaks T) :
    Triple (Afloat world T) (run (busLink world) [] [.statfs, .statfs]) (fun _ _ => False)
      fun e s => e = .nullQueue ∧ Unreset s.log := by
  have hfirst : Triple (Afloat world T) (exec (busLink world) [] .statfs) (fun _ => Aground)
      fun e s => e = .nullQueue ∧ Unreset s.log := by
    refine statfs_rule fun root => request_rule (S := Afloat world T) (fun s hs => ?_)
      ((transact_breaks h _).conseq (fun _ hs => hs) (fun _ _ hs => hs) fun _ _ hs => hs.elim) fun _ _ hs => hs
    exact ⟨hs.inReset, hs.traced, hs.empty, hs.late, hs.calm⟩
  have hsecond : ∀ handles, Triple Aground (exec (busLink world) handles .statfs) (fun _ _ => False)
      fun e s => e = .nullQueue ∧ Unreset s.log := fun handles => statfs_rule fun root =>
    request_rule (S := Aground) (fun s hs => ⟨hs.inReset, hs.vq, hs.calm⟩) (transact_crashes _) fun _ _ hs => hs
  refine hfirst.bind fun r => Triple.bind (Q := fun _ _ => False) ?_ fun _ _ hs => hs.elim
  exact (hsecond r.2).bind fun _ _ hs => hs.elim

theorem mapped_chained (hsizes : world.SizesDivide) {txBuf rxBuf : Mem} :
    Chained world false 0 (mappedState world ⟨startHandler txBuf rxBuf, .boot, []⟩) := by
  have hfound : Chained world false 0
      (stepped (findDevice world 5) (stepped (grant world) ⟨startHandler txBuf rxBuf, .boot, []⟩)) :=
    (boot_chained txBuf rxBuf).offline ((offline_findDevice 5 _).trans (offline_grant _ : (grant world _).2.bus = _))
  exact (chained_init hsizes hfound (found_vq rfl)).offline (mapped_bus world _)

/-- The session begins in time to see the device break down. -/
def doomed (world : World) (T : Nat) : EStateM.Result Fault (St Machine) Bool → Bool
  | .ok ok s => ok && (!s.h.inReset && (s.w.vq.any (fun q => decide (2 ≤ q.traffic.vq.num)) &&
      (s.log.all (fun mo => !mo.h.inReset) && (decide (T ≤ s.w.now) && world.grants s.w.now))))
  | .error .. => false

/-- A run of which nothing fails up to the session. -/
theorem start_doomed (h : world.Breaks T) (hsizes : world.SizesDivide) {txBuf rxBuf : Mem}
    (hboots : Boots world ⟨startHandler txBuf rxBuf, .boot, []⟩)
    (hdoomed :
      doomed world T (mount (busLink world) (mappedState world ⟨startHandler txBuf rxBuf, .boot, []⟩)) = true) :
    Triple (· = ⟨startHandler txBuf rxBuf, .boot, []⟩) (start world [.statfs, .statfs] []) (fun _ _ => False)
      fun e s => e = .nullQueue ∧ Unreset s.log := by
  have hmount : Triple (· = mappedState world ⟨startHandler txBuf rxBuf, .boot, []⟩) (mount (busLink world))
      (fun ok s => if ok then Afloat world T s ∧ world.grants s.w.now = true else False)
      fun e s => e = .nullQueue ∧ Unreset s.log := by
    rintro s rfl
    have hchained : Chained world false 0 (mappedState world ⟨startHandler txBuf rxBuf, .boot, []⟩) :=
      mapped_chained hsizes
    have hkeeps := (chainUpkeep hsizes).mount (Q := Chained world false 0)
      (fun s w hs => hs.frame (s := ⟨s.h, w, s.log⟩) _ rfl) fun s w hs => hs.frame (s := ⟨s.h, w, s.log⟩) _ rfl
    cases hres : mount (busLink world) (mappedState world ⟨startHandler txBuf rxBuf, .boot, []⟩) with
    | error e s' =>
      rw [hres] at hdoomed
      cases hdoomed
    | ok ok s' =>
      have hs' := hkeeps.ok hchained hres
      rw [hres] at hdoomed
      simp only [doomed, Bool.and_eq_true, Bool.not_eq_true', Option.any_eq_true, decide_eq_true_eq] at hdoomed
      obtain ⟨rfl, hin, ⟨q, hq, htwo⟩, hall, hlate, hgrant⟩ := hdoomed
      obtain ⟨out, htracks, hlen⟩ := Chained.owes hs' (returnsClear_of_calm hall) q hq
      obtain rfl : out = [] := List.length_eq_zero_iff.mp (Nat.le_zero.mp hlen)
      exact ⟨⟨hin, Chained.traced hs', ⟨q, hq, htracks, htwo⟩, hlate, hall⟩, hgrant⟩
  have hserve : Triple (fun s => Afloat world T s ∧ world.grants s.w.now = true) (serve world [.statfs, .statfs] [])
      (fun _ _ => False) fun e s => e = .nullQueue ∧ Unreset s.log := by
    refine serve_rule (T := Afloat world T) (N := fun _ => False) (O := fun _ => False) (D := fun _ => False)
      (K := fun _ => False) ?_ (run_crashes h) (fun _ hs => hs.elim) (fun _ _ hs => hs.elim) (fun _ _ hs => hs.elim)
      fun _ hs => hs.elim
    rintro s ⟨hs, hgrant⟩
    rw [if_pos (show (grant world s.w).1 = true from hgrant)]
    exact ⟨hs.inReset, traced_of_bus (offline_grant s.w : (grant world s.w).2.bus = _) hs.traced, hs.empty,
      Nat.le_succ_of_le hs.late, hs.calm⟩
  exact hboots.start_rule (Z := fun _ => False) (Y := fun _ => False) hmount hserve (fun _ hs => hs.elim)
    (fun _ hs => hs.elim) fun _ hs => hs.elim

/-- It ends at the second call. -/
theorem start_crashes (h : world.Breaks T) (hsizes : world.SizesDivide) {txBuf rxBuf : Mem}
    (hboots : Boots world ⟨startHandler txBuf rxBuf, .boot, []⟩)
    (hdoomed :
      doomed world T (mount (busLink world) (mappedState world ⟨startHandler txBuf rxBuf, .boot, []⟩)) = true) :
    faultOf (start world [.statfs, .statfs] [] ⟨startHandler txBuf rxBuf, .boot, []⟩) = some .nullQueue ∧
      ReturnsClear true (startEnd world [.statfs, .statfs] [] txBuf rxBuf).log := by
  have hstart := start_doomed h hsizes hboots hdoomed
  unfold startEnd
  cases hres : start world [.statfs, .statfs] [] ⟨startHandler txBuf rxBuf, .boot, []⟩ with
  | ok ret s => exact (hstart.ok rfl hres).elim
  | error e s =>
    obtain ⟨rfl, hcalm⟩ := hstart.error rfl hres
    exact ⟨rfl, returnsClear_of_calm hcalm⟩

end Broken

/-- A device that answers up to the end of the mount. -/
def brokenWorld : World :=
  { politeWorld with
    acts := fun t => if t < 31 then politeWorld.acts t else []
    readStatus := fun t => if t < 31 then 0 else 1 }

theorem broken_breaks : brokenWorld.Breaks 31 := by
  refine ⟨rfl, fun t ht => if_neg (not_lt.mpr ht), fun t ht => ?_⟩
  rw [show brokenWorld.readStatus t = 1 from if_neg (not_lt.mpr ht)]
  decide

theorem broken_sizes : brokenWorld.SizesDivide := fun _ _ => (by decide : 128 ∣ 65536)

theorem boots_broken : Boots brokenWorld coldState := by decide +kernel

theorem doomed_broken :
    doomed brokenWorld 31 (mount (busLink brokenWorld) (mappedState brokenWorld coldState)) = true := by
  decide +kernel

/-- `statfs` is called twice after the device broke down. The first call times out, and its reset gives up when the
device does not come out of reset; the second dereferences `h->vq`. -/
theorem broken_statfs_crashes : faultOf (start brokenWorld [.statfs, .statfs] []
    ⟨startHandler (fun _ => 0) fun _ => 0, .boot, []⟩) = some .nullQueue :=
  (start_crashes broken_breaks broken_sizes boots_broken doomed_broken).1

/-- No call was made inside the reset. -/
theorem broken_clear :
    ReturnsClear true (startEnd brokenWorld [.statfs, .statfs] [] (fun _ => 0) fun _ => 0).log :=
  (start_crashes broken_breaks broken_sizes boots_broken doomed_broken).2

/-- The call that timed out left its chains on the queue, and returned when the reset had taken it away. -/
theorem no_chain_survives_broken : brokenWorld.SizesDivide ∧
    ReturnsClear true (startEnd brokenWorld [.statfs, .statfs] [] (fun _ => 0) fun _ => 0).log ∧
    ∀ mo ∈ (startEnd brokenWorld [.statfs, .statfs] [] (fun _ => 0) fun _ => 0).log, ∀ n, mo.event = .returned n →
      mo.h.inReset = false → mo.w.Clear :=
  ⟨broken_sizes, broken_clear, no_chain_survives brokenWorld broken_sizes _ _ _ _ broken_clear⟩

end Virtio9P
