import Virtio9P.Discipline

/-!
# Invariants between transactions

Many invariants of the handler do not follow the fids: they hold between two calls of `V9P_Transact`, and the callbacks
in between only build messages, parse replies and work on the pool. An `Upkeep` is such an invariant, with what it has
to be kept by; it is a discipline of the callbacks (`Upkeep.discipline`), and it holds through the mount
(`Upkeep.mount`). `Calm` is about the surroundings only: what flushes and resets leave alone, so that the effect of a
request is that of its own message (`Calm.request`).
-/

namespace Virtio9P

open Lib

variable {W α : Type}

/-- The log entries of the callbacks and of the pool. -/
def Event.AboutFid : Event → Prop
  | .alloc _ | .free _ | .orphan _ | .hold _ | .opened _ => True
  | _ => False

/-- An invariant between transactions. `Safe` is what is left of it at a fault. -/
structure Upkeep (L : Link W) where
  Inv : St W → Prop
  Safe : Fault → St W → Prop
  hang : ∀ {s}, Inv s → Safe .hang s
  /-- messages, tags and the negotiated size do not matter -/
  frame : ∀ {s : St W} (h : Handler), h.inReset = s.h.inReset → h.fidPool = s.h.fidPool → Inv s →
    Inv { s with h := h }
  pooled : ∀ {s : St W} {pool : FidPool} (pool' : FidPool), s.h.fidPool = some pool → Inv s →
    Inv { s with h := { s.h with fidPool := some pool' } }
  alloc : ∀ {s : St W} (bytes : UInt32), Inv s → Inv { s with w := (L.allocVec bytes s.w).2 }
  record : ∀ {s : St W} {e : Event}, e.AboutFid → Inv s → Inv (s.logged e)
  transact : ∀ txSize, Triple Inv (v9pTransact L txSize) (fun _ => Inv) Safe

namespace Upkeep

variable {L : Link W} (U : Upkeep L)

theorem request (m : TMsg) (parse : Mem → UInt32 → Except Int32 α) :
    Triple U.Inv (p9Request (v9pTransact L) p9NextTag m parse) (fun _ => U.Inv) U.Safe := by
  refine request_rule (S := U.Inv) ?_ (U.transact _) fun _ _ hs => hs
  exact fun s hs => U.frame (s := s) _ rfl rfl hs

theorem version (parse : Mem → UInt32 → Except Int32 α) (m : TMsg) :
    Triple U.Inv (p9Request (v9pTransact L) (pure p9NoTag) m parse) (fun _ => U.Inv) U.Safe := by
  refine request_rule (S := U.Inv) ?_ (U.transact _) fun _ _ hs => hs
  exact fun s hs => U.frame (s := s) _ rfl rfl hs

theorem clunk (fid : UInt32) : Triple U.Inv (p9Clunk (v9pTransact L) fid) (fun _ => U.Inv) U.Safe := by
  rw [p9Clunk_eq]
  exact U.request _ _

theorem walk (root fid : UInt32) (path : Str) :
    Triple U.Inv (p9Walk (v9pTransact L) root fid path) (fun _ => U.Inv) U.Safe := by
  rw [p9Walk_eq]
  refine Triple.ite (fun _ => Triple.ret) fun _ => (U.request _ _).bind fun r => ?_
  cases r with
  | error e => exact Triple.ret
  | ok nwqid =>
    refine Triple.ite (fun _ => ?_) fun _ => Triple.ret
    exact Triple.ite (fun _ => (U.clunk fid).bind fun _ => Triple.ret) fun _ => Triple.ret

/-- The pool asks for memory. -/
theorem keeps_alloc (h : Handler) (log : List (Moment W)) (bytes : UInt32) :
    Ends (fun w => U.Inv ⟨h, w, log⟩) (L.allocVec bytes) fun _ w => U.Inv ⟨h, w, log⟩ := fun _ hs => U.alloc bytes hs

section Pool

variable (hnull : ∀ {s}, U.Inv s → s.h.fidPool = none → U.Safe .nullPool s)

include hnull

theorem draw : Triple U.Inv drawFid (fun _ => U.Inv) U.Safe :=
  draw_rule (fun _ hs hnone => hnull hs hnone) fun _ _ hs hpool => U.record trivial (U.pooled _ hpool hs)

theorem free (fid : UInt32) : Triple U.Inv (freeFid L fid) (fun _ => U.Inv) U.Safe := by
  refine free_rule (fun _ hs hnone => hnull hs hnone) fun s pool pool' w hs hpool hfree => U.record trivial ?_
  have hw : U.Inv ⟨s.h, w, s.log⟩ := by
    have hkeeps := fidPoolFree_keeps (U.keeps_alloc s.h s.log) pool fid s.w hs
    rwa [hfree] at hkeeps
  exact U.pooled (s := ⟨s.h, w, s.log⟩) pool' hpool hw

theorem orphan (fid : UInt32) : Triple U.Inv (orphanFid L fid) (fun _ => U.Inv) U.Safe := by
  refine orphan_rule (fun _ hs hnone => hnull hs hnone) fun s pool pool' w hs hpool horphan => U.record trivial ?_
  have hw : U.Inv ⟨s.h, w, s.log⟩ := by
    have hkeeps := fidPoolMarkOrphan_keeps (U.keeps_alloc s.h s.log) pool fid s.w hs
    rwa [horphan] at hkeeps
  exact U.pooled (s := ⟨s.h, w, s.log⟩) pool' hpool hw

end Pool

/-- The discipline that looks at no fid. -/
def discipline (hnull : ∀ {s}, U.Inv s → s.h.fidPool = none → U.Safe .nullPool s) : Discipline L where
  Inv := fun _ => U.Inv
  Fresh := fun _ _ => U.Inv
  Safe := U.Safe
  safe := U.hang
  perm := fun _ hs => hs
  draw := fun _ => U.draw hnull
  walk := fun _ fid root path => (U.walk root fid path).pre fun _ hs => hs.2
  hold := fun _ _ _ hs => U.record trivial hs
  clunk := fun _ fid _ _ => U.clunk fid
  free := fun _ fid _ _ => U.free hnull fid
  orphan := fun _ fid => U.orphan hnull fid
  request := fun _ _ m parse _ _ => (U.request m parse).pre fun _ hs => hs.2
  adopt := fun _ _ _ hs => U.record trivial hs

/-- **Every run keeps the invariant.** -/
theorem run (hnull : ∀ {s}, U.Inv s → s.h.fidPool = none → U.Safe .nullPool s) (handles : List UInt32)
    (cs : List Callback) : Triple U.Inv (Virtio9P.run L handles cs) (fun _ => U.Inv) U.Safe :=
  (U.discipline hnull).run_inv handles cs

/-- The mount keeps the invariant; `Q` is what a pool adds to it. -/
theorem mount {Q : St W → Prop}
    (hpool : ∀ (s : St W) w, U.Inv ⟨s.h, w, s.log⟩ → Q (s.pooled (some freshPool) w))
    (hnone : ∀ (s : St W) w, U.Inv ⟨s.h, w, s.log⟩ → U.Inv (s.pooled none w)) :
    Triple U.Inv (Virtio9P.mount L) (fun ok s => if ok then Q s else U.Inv s) U.Safe := by
  have hcreate : ∀ (s : St W) pool w, U.Inv s → fidPoolCreate L.allocVec s.w = (pool, w) → U.Inv ⟨s.h, w, s.log⟩ := by
    intro s pool w hs hres
    have hkeeps := fidPoolCreate_keeps (U.keeps_alloc s.h s.log) s.w hs
    rwa [hres] at hkeeps
  refine mount_rule (D := U.Inv) (G := U.Inv) (N := U.Inv) ?_ (fun root => ?_)
    (fun s w hs hres => hpool s w (hcreate s _ w hs hres)) (fun s w hs hres => hnone s w (hcreate s _ w hs hres))
    fun root => U.clunk root
  · refine (U.version _ _).post fun r s hs => ?_
    cases r with
    | error e => exact hs
    | ok msize => exact U.frame (s := s) _ rfl rfl hs
  · refine ((U.request _ _).pre fun s hs => hs.2).post fun r s hs => ?_
    cases r <;> exact hs

/-- Two invariants hold together. -/
protected def and (V : Upkeep L) : Upkeep L where
  Inv := fun s => U.Inv s ∧ V.Inv s
  Safe := fun e s => U.Safe e s ∧ V.Safe e s
  hang := fun hs => ⟨U.hang hs.1, V.hang hs.2⟩
  frame := fun h hin hpool hs => ⟨U.frame h hin hpool hs.1, V.frame h hin hpool hs.2⟩
  pooled := fun pool hpool hs => ⟨U.pooled pool hpool hs.1, V.pooled pool hpool hs.2⟩
  alloc := fun bytes hs => ⟨U.alloc bytes hs.1, V.alloc bytes hs.2⟩
  record := fun he hs => ⟨U.record he hs.1, V.record he hs.2⟩
  transact := fun txSize =>
    ((U.transact txSize).pre fun _ hs => hs.1).and ((V.transact txSize).pre fun _ hs => hs.2)

/-- An invariant that is kept under a condition on the surroundings. -/
def given {c : Prop} (U : c → Upkeep L) : Upkeep L where
  Inv := fun s => ∀ h, (U h).Inv s
  Safe := fun e s => ∀ h, (U h).Safe e s
  hang := fun hs h => (U h).hang (hs h)
  frame := fun handler hin hpool hs h => (U h).frame handler hin hpool (hs h)
  pooled := fun pool hpool hs h => (U h).pooled pool hpool (hs h)
  alloc := fun bytes hs h => (U h).alloc bytes (hs h)
  record := fun he hs h => (U h).record he (hs h)
  transact := fun txSize => Triple.all fun h => (U h).transact txSize

end Upkeep

/-! ## What was logged stays logged -/

section Logged

variable {Q : List (Moment W) → Prop} (hQ : ∀ mo log, Q log → Q (mo :: log)) (L : Link W)

include hQ

theorem logged_transactWith {reset : Client W Bool}
    (hreset : Triple (fun s => s.h.inReset = false ∧ Q s.log) reset (fun _ s => Q s.log) fun _ s => Q s.log)
    (txSize : Nat) : Keeps (fun s => Q s.log) (v9pTransactWith L reset txSize) := by
  refine transact_rule (R := fun _ s => Q s.log) (T := fun _ _ s => Q s.log) (fun _ _ _ hs _ => hQ _ _ hs)
    (fun _ _ hs _ => hQ _ _ hs) (fun _ _ _ _ hs _ => hQ _ _ hs) (fun _ _ _ hs _ => hQ _ _ hs) (fun _ _ => ?_)
    fun _ _ hs => hQ _ _ hs
  exact abandon_rule (fun _ _ _ hs _ => hs) (fun _ _ _ _ hs _ _ => hs)
    (fun _ _ _ _ hs _ _ hin => ⟨hin, hQ _ _ hs⟩) hreset

theorem logged_nested {nextTag : Client W UInt16} (htag : Keeps (fun s => Q s.log) nextTag) (m : TMsg)
    (parse : Mem → UInt32 → Except Int32 α) :
    Keeps (fun s => Q s.log) (p9Request (v9pTransactAt L 0) nextTag m parse) :=
  request_rule (htag.post fun _ _ hs => hs) (logged_transactWith hQ L (Triple.throw fun _ hs => hs.2) _)
    fun _ _ hs => hs

theorem logged_reset : Triple (fun s => s.h.inReset = false ∧ Q s.log) (v9pReset L (v9pTransactAt L 0))
    (fun _ s => Q s.log) fun _ s => Q s.log := by
  refine reset_rule (A := fun s => Q s.log) (C := fun s => Q s.log) (D := fun s => Q s.log) (G := fun s => Q s.log)
    (Z := fun _ s => Q s.log) (fun _ hs => hs) (fun _ _ hs _ => hs) (fun _ _ hs _ => hs) ?_ (fun root => ?_)
    (fun _ _ _ hs _ _ => hQ _ _ hs) (fun _ hs _ => hs) fun _ _ hs => hQ _ _ hs
  · refine (logged_nested hQ L (fun _ hs => hs) _ _).post fun r s hs => ?_
    cases r <;> exact hs
  · refine ((logged_nested hQ L (fun _ hs => hs) _ _).pre fun s hs => hs.2).post fun r s hs => ?_
    cases r <;> exact hs

/-- What is true of a log and of every longer one is an invariant. -/
def loggedUpkeep : Upkeep L where
  Inv := fun s => Q s.log
  Safe := fun _ s => Q s.log
  hang := fun hs => hs
  frame := fun _ _ _ hs => hs
  pooled := fun _ _ hs => hs
  alloc := fun _ hs => hs
  record := fun _ hs => hQ _ _ hs
  transact := logged_transactWith hQ L (logged_reset hQ L)

end Logged

/-! ## What the transport leaves alone -/

/-- What the transport does by itself, around the requests of the operations, keeps `Q`. -/
structure Calm (L : Link W) (Q : W → Prop) : Prop where
  handshake : ∀ p, (Event.send p.tx).Nested → Keeps Q (L.poll p)
  drain : ∀ p, Keeps Q (L.drain p)
  cleanup : ∀ {w}, Q w → Q (L.cleanupVirtio w)
  init : Ends Q L.initVirtio fun _ => Q
  alloc : ∀ bytes, Ends Q (L.allocVec bytes) fun _ => Q

namespace Calm

variable {L : Link W} {Q : W → Prop} (hQ : Calm L Q)

include hQ

/-- A transaction leads to `Q`, if the poll of its message does. -/
theorem transactWith {P : St W → Prop} {txSize : Nat} {reset : Client W Bool}
    (hreset : Triple (fun s => s.h.inReset = false ∧ Q s.w) reset (fun _ s => Q s.w) fun _ s => Q s.w)
    (hpoll : ∀ s, P s → Q (finalState (L.poll (s.post txSize) s.w))) :
    Triple P (v9pTransactWith L reset txSize) (fun _ s => Q s.w) fun _ s => Q s.w := by
  have hend : ∀ {s r}, P s → L.poll (s.post txSize) s.w = r → Q (finalState r) := fun hs hr => hr ▸ hpoll _ hs
  refine transact_rule (R := fun _ s => Q s.w) (T := fun _ _ s => Q s.w) (fun s e w hs hp => hend hs hp)
    (fun s w hs hp => hend hs hp) (fun s n rx w hs hp => hend hs hp) (fun s rx w hs hp => hend hs hp) (fun tx tag => ?_)
    fun n s hs => hs
  exact abandon_rule (fun s e w hs hd => (hQ.drain _).error hs hd) (fun s k rx w hs hd _ => (hQ.drain _).ok hs hd)
    (fun s k rx w hs hd _ hin => ⟨hin, (hQ.drain _).ok hs hd⟩) hreset

/-- A request inside a reset. -/
theorem nested {nextTag : Client W UInt16} (htag : Keeps (fun s : St W => Q s.w) nextTag) {m : TMsg}
    (hm : ∀ tag, (Event.send (m.frame tag)).Nested) (parse : Mem → UInt32 → Except Int32 α) :
    Keeps (fun s : St W => Q s.w) (p9Request (v9pTransactAt L 0) nextTag m parse) := by
  refine request_rule (S := fun s => Q s.w ∧ (Event.send (s.h.txBuf.read 0 (7 + m.body.length))).Nested)
    (htag.post fun tag s hs => ⟨hs, (loaded_write m tag s).symm ▸ hm tag⟩) ?_ fun _ _ hs => hs
  exact hQ.transactWith (Triple.throw fun _ hs => hs.2) fun s hs => (hQ.handshake (s.post _) hs.2).final
    (fun _ h => h) hs.1

theorem reset : Triple (fun s => s.h.inReset = false ∧ Q s.w) (v9pReset L (v9pTransactAt L 0)) (fun _ s => Q s.w)
    fun _ s => Q s.w := by
  refine reset_rule (A := fun s => Q s.w) (C := fun s => Q s.w) (D := fun s => Q s.w) (G := fun s => Q s.w)
    (Z := fun _ s => Q s.w) (fun s hs => ⟨hs.1, hQ.cleanup hs.2⟩) ?_ ?_ ?_ (fun root => ?_) ?_ (fun s hs _ => hs)
    fun ok s hs => hs
  · intro s w hs hinit
    have h := hQ.init s.w hs
    rwa [hinit] at h
  · intro s w hs hinit
    have h := hQ.init s.w hs
    rwa [hinit] at h
  · refine (hQ.nested (fun _ hs => hs) .version _).post fun r s hs => ?_
    cases r <;> exact hs
  · refine ((hQ.nested (fun _ hs => hs) (.attach root) _).pre fun s hs => hs.2).post fun r s hs => ?_
    cases r <;> exact hs
  · intro s pool w hs _ hcreate
    have h := fidPoolCreate_keeps hQ.alloc s.w hs
    rwa [hcreate] at h

/-- **A request leads to `Q`, if the poll of its message does**, whatever else the transport has to do for it. -/
theorem request {P : St W → Prop} {m : TMsg} (parse : Mem → UInt32 → Except Int32 α)
    (hpoll : ∀ s, P s → Q (finalState (L.poll (s.ask m) s.w))) :
    Triple P (p9Request (v9pTransact L) p9NextTag m parse) (fun _ s => Q s.w) fun _ s => Q s.w := by
  refine request_rule (S := fun s => ∃ s₀, P s₀ ∧ s = s₀.loaded m) (fun s hs => ⟨s, hs, rfl⟩) ?_ fun _ _ hs => hs
  refine hQ.transactWith hQ.reset ?_
  rintro s ⟨s₀, hs₀, rfl⟩
  rw [St.post_loaded]
  exact hpoll s₀ hs₀

end Calm

/-! ## Invariants of the link -/

/-- An invariant of what the client runs on, kept by every step of the link. `Down` is what holds when the transport was
taken down. -/
structure LinkInv (L : Link W) where
  Up : W → Prop
  Down : W → Prop
  poll : ∀ p, Keeps Up (L.poll p)
  drain : ∀ p, Keeps Up (L.drain p)
  cleanup : ∀ {w}, Up w → Down (L.cleanupVirtio w)
  init : Ends Down L.initVirtio fun _ => Up
  alloc : ∀ bytes, Ends Up (L.allocVec bytes) fun _ => Up

namespace LinkInv

variable {L : Link W} (I : LinkInv L)

/-- The invariant holds, and it did at every entry of the log. -/
def Throughout (s : St W) : Prop := I.Up s.w ∧ ∀ mo ∈ s.log, I.Up mo.w

variable {I} in
theorem Throughout.logged {s : St W} (h : I.Throughout s) (e : Event) : I.Throughout (s.logged e) := by
  refine ⟨h.1, fun mo hmo => ?_⟩
  rcases List.mem_cons.mp hmo with rfl | hmo
  · exact h.1
  · exact h.2 mo hmo

theorem transactWith {reset : Client W Bool}
    (hreset : Triple (fun s => s.h.inReset = false ∧ I.Throughout s) reset (fun _ => I.Throughout)
      fun _ => I.Throughout) (txSize : Nat) : Keeps I.Throughout (v9pTransactWith L reset txSize) := by
  refine transact_rule (R := fun _ => I.Throughout) (T := fun _ _ => I.Throughout) ?_ ?_ ?_ ?_ (fun tx tag => ?_)
    fun n s hs => hs.logged _
  · exact fun s e w hs hpoll => ⟨(I.poll _).error hs.1 hpoll, (hs.logged _).2⟩
  · exact fun s w hs hpoll => ⟨(I.poll _).ok hs.1 hpoll, (hs.logged _).2⟩
  · exact fun s n rx w hs hpoll => ⟨(I.poll _).ok hs.1 hpoll, (hs.logged _).2⟩
  · exact fun s rx w hs hpoll => ⟨(I.poll _).ok hs.1 hpoll, (hs.logged _).2⟩
  · refine abandon_rule ?_ ?_ ?_ hreset
    · exact fun s e w hs hdrain => ⟨(I.drain _).error hs.1 hdrain, hs.2⟩
    · exact fun s k rx w hs hdrain _ => ⟨(I.drain _).ok hs.1 hdrain, hs.2⟩
    · intro s k rx w hs hdrain _ hin
      exact ⟨hin, Throughout.logged (s := s.tagged.received w rx) ⟨(I.drain _).ok hs.1 hdrain, hs.2⟩ _⟩

/-- A request inside a reset. -/
theorem nested {nextTag : Client W UInt16} (htag : Keeps I.Throughout nextTag) (m : TMsg)
    (parse : Mem → UInt32 → Except Int32 α) : Keeps I.Throughout (p9Request (v9pTransactAt L 0) nextTag m parse) :=
  request_rule (htag.post fun _ _ hs => hs) (I.transactWith (Triple.throw fun _ hs => hs.2) _) fun _ _ hs => hs

theorem reset : Triple (fun s => s.h.inReset = false ∧ I.Throughout s) (v9pReset L (v9pTransactAt L 0))
    (fun _ => I.Throughout) fun _ => I.Throughout := by
  refine reset_rule (A := fun s => I.Down s.w ∧ ∀ mo ∈ s.log, I.Up mo.w) (C := I.Throughout) (D := I.Throughout)
    (G := I.Throughout) (Z := fun _ => I.Throughout) ?_ ?_ ?_ ?_ (fun root => ?_) ?_ (fun s hs _ => hs)
    fun ok s hs => Throughout.logged (s := { s with h := { s.h with inReset := false } }) hs _
  · exact fun s hs => ⟨hs.1, I.cleanup hs.2.1, hs.2.2⟩
  · intro s w hs hinit
    have hup := I.init s.w hs.1
    rw [hinit] at hup
    exact ⟨hup, hs.2⟩
  · intro s w hs hinit
    have hup := I.init s.w hs.1
    rw [hinit] at hup
    exact ⟨hup, hs.2⟩
  · refine (I.nested (fun _ hs => hs) _ _).post fun r s hs => ?_
    cases r <;> exact hs
  · refine ((I.nested (fun _ hs => hs) _ _).pre fun s hs => hs.2).post fun r s hs => ?_
    cases r <;> exact hs
  · intro s pool w hs _ hcreate
    have hup := fidPoolCreate_keeps I.alloc s.w hs.1
    rw [hcreate] at hup
    exact Throughout.logged (s := s.pooled pool w) ⟨hup, hs.2⟩ _

/-- An invariant of the link is one between transactions. -/
def upkeep : Upkeep L where
  Inv := I.Throughout
  Safe := fun _ => I.Throughout
  hang := fun hs => hs
  frame := fun _ _ _ hs => hs
  pooled := fun _ _ hs => hs
  alloc := fun bytes hs => ⟨I.alloc bytes _ hs.1, hs.2⟩
  record := fun _ hs => hs.logged _
  transact := I.transactWith I.reset

end LinkInv

end Virtio9P
