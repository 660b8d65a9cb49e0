import Virtio9P.Transact
import Virtio9P.Transport.Machine

/-!
# Recovery from a timeout

`V9P_Transact` resets the transport when a request times out, and `V9P_Reset` shakes hands again with two calls of
`V9P_Transact`. `Call` is all that such a call can leave in the log: the message and the return, and in between at most
one reset, with at most two calls nested in it that leave nothing but their own message and return (`Handshake`). Every
call is of this form, `in_reset` is at its return what it was at its start, and if it ends at a fault, it got part of
the way (`transact_log`). It never hangs if the waits for the device do not (`Link.Waits`), as those of the transport
do not (`busLink_waits`).

The `Tflush` of a request has another tag than the request (`request_flushes`, `version_flushes`).
-/

namespace Virtio9P

open Lib

variable {W α : Type}

/-! ## The log of a call -/

/-- The entry is `e`, made with `in_reset` being `b`. -/
def Moment.Is (mo : Moment W) (e : Event) (b : Bool) : Prop := mo.event = e ∧ mo.h.inReset = b

/-- Another entry could be made then. -/
theorem Moment.Is.other {mo : Moment W} {e : Event} {b : Bool} (h : mo.Is e b) (e' : Event) :
    ∃ mo' : Moment W, mo'.Is e' b := ⟨⟨e', mo.h, mo.w⟩, rfl, h.2⟩

/-- The entries of a call on `tx` in which nothing else is called. The newest entry of a log is first. -/
inductive Plain (b : Bool) (tx : List UInt8) : List (Moment W) → Prop
  | intro {ret send : Moment W} {n : UInt32} : send.Is (.send tx) b → ret.Is (.returned n) b → Plain b tx [ret, send]

/-- The `Tversion` of the handshake. -/
def versionFrame : List UInt8 := TMsg.frame (.version p9MSize p9VersionStr) p9NoTag

/-- The `Tattach` of the handshake. -/
def attachFrame (root : UInt32) (tag : UInt16) : List UInt8 := TMsg.frame (.attach root p9NoFid [] [] 0) tag

/-- The entries that `V9P_Reset` makes before its return: it calls `V9P_Transact` twice at most, and no call starts
another reset. -/
inductive Handshake : List (Moment W) → Prop
  | none : Handshake []
  | version {call : List (Moment W)} : Plain true versionFrame call → Handshake call
  | attach {call call' : List (Moment W)} {root : UInt32} {tag : UInt16} :
    Plain true versionFrame call → Plain true (attachFrame root tag) call' → Handshake (call' ++ call)
  | pool {call call' : List (Moment W)} {root : UInt32} {tag : UInt16} {pool : Moment W} :
    Plain true versionFrame call → Plain true (attachFrame root tag) call' → pool.Is .newPool true →
      Handshake (pool :: (call' ++ call))

/-- The entries of a call on `tx` before its return, if `in_reset` is `b` at its start. -/
inductive Open (tx : List UInt8) : Bool → List (Moment W) → Prop
  | sent {b : Bool} {send : Moment W} : send.Is (.send tx) b → Open tx b [send]
  | reset {send escalate reset : Moment W} {ok : Bool} {nested : List (Moment W)} : send.Is (.send tx) false →
    escalate.Is (.escalate tx) false → Handshake nested → reset.Is (.reset ok) false →
      Open tx false (reset :: (nested ++ [escalate, send]))

/-- The entries of a call on `tx`, if `in_reset` is `b` at its start. -/
inductive Call (tx : List UInt8) (b : Bool) : List (Moment W) → Prop
  | intro {ret : Moment W} {new : List (Moment W)} {n : UInt32} : Open tx b new → ret.Is (.returned n) b →
    Call tx b (ret :: new)

/-- The oldest entries of such a log. -/
def Begun (C : List (Moment W) → Prop) (new : List (Moment W)) : Prop := ∃ rest, C (rest ++ new)

/-- The waits for the device come to an end. -/
def Link.Waits (L : Link W) : Prop :=
  (∀ p w w', L.poll p w ≠ .error .hang w') ∧ ∀ p w w', L.drain p w ≠ .error .hang w'

/-- A fault, with the log since `base`. -/
def FaultAt (L : Link W) (base : List (Moment W)) (C : List (Moment W) → Prop) (e : Fault) (s : St W) : Prop :=
  (L.Waits → e ≠ .hang) ∧ Since base C s

theorem FaultAt.mono {L : Link W} {base : List (Moment W)} {C C' : List (Moment W) → Prop} {e : Fault} {s : St W}
    (h : FaultAt L base C e s) (hC : ∀ new, C new → C' new) : FaultAt L base C' e s := ⟨h.1, h.2.mono hC⟩

/-! ## Calls inside a reset -/

section Nested

variable {L : Link W} (base : List (Moment W))

/-- The call on `tx` has just been logged. -/
def JustSent (b : Bool) (tx : List UInt8) (base : List (Moment W)) (s : St W) : Prop :=
  s.h.inReset = b ∧ ∃ send : Moment W, s.log = send :: base ∧ send.Is (.send tx) b

variable {base} in
theorem sent_sent {b : Bool} {txSize : Nat} {s : St W} (hin : s.h.inReset = b) (hlog : s.log = base) :
    JustSent b (s.h.txBuf.read 0 txSize) base (s.sent txSize) :=
  ⟨hin, _, congrArg _ hlog, rfl, hin⟩

/-- Inside a reset nothing else is called. -/
theorem inner_transact (reset : Client W Bool) (txSize : Nat) (tx : List UInt8) :
    Triple (fun s => s.h.inReset = true ∧ s.h.txBuf.read 0 txSize = tx ∧ s.log = base) (v9pTransactWith L reset txSize)
      (fun _ s => s.h.inReset = true ∧ Since base (Plain true tx) s)
      (FaultAt L base (Begun (Plain true tx))) := by
  have hsent : ∀ {s : St W}, s.h.inReset = true ∧ s.h.txBuf.read 0 txSize = tx ∧ s.log = base →
      JustSent true tx base (s.sent txSize) := by
    rintro s ⟨hin, rfl, hlog⟩
    exact sent_sent hin hlog
  have hbegun : ∀ {s : St W}, JustSent true tx base s → Since base (Begun (Plain true tx)) s := by
    rintro s ⟨-, send, hlog, hsend⟩
    obtain ⟨ret, hret⟩ := hsend.other (.returned 0)
    exact ⟨[send], hlog, [ret], .intro hsend hret⟩
  refine transact_rule (R := fun _ => JustSent true tx base) (T := fun _ _ => JustSent true tx base) ?_
    (fun s w hs _ => hsent hs) (fun s n rx w hs _ => hsent hs) (fun s rx w hs _ => hsent hs) (fun tx' tag => ?_) ?_
  · intro s e w hs hpoll
    refine ⟨?_, hbegun (hsent hs)⟩
    rintro hwaits rfl
    exact hwaits.1 _ _ _ hpoll
  · refine abandon_rule (B := fun _ => False) ?_ (fun s k rx w hs _ _ => hs) ?_ fun s hs => hs.elim
    · intro s e w hs hdrain
      refine ⟨?_, hbegun hs⟩
      rintro hwaits rfl
      exact hwaits.2 _ _ _ hdrain
    · intro s k rx w hs _ _ hin
      exact absurd (hs.1.symm.trans hin) (by decide)
  · rintro n s ⟨hin, send, hlog, hsend⟩
    exact ⟨hin, [_, send], congrArg _ hlog, .intro hsend ⟨rfl, hin⟩⟩

/-- A request inside a reset. -/
theorem inner_request {reset : Client W Bool} {nextTag : Client W UInt16} {m : TMsg} {Tag : UInt16 → Prop}
    (htag : ∀ s : St W, ∃ tag s', nextTag s = .ok tag s' ∧ Tag tag ∧ s'.h.inReset = s.h.inReset ∧ s'.log = s.log)
    (parse : Mem → UInt32 → Except Int32 α) :
    Triple (fun s => s.h.inReset = true ∧ s.log = base) (p9Request (v9pTransactWith L reset) nextTag m parse)
      (fun _ s => s.h.inReset = true ∧ ∃ tag, Tag tag ∧ Since base (Plain true (m.frame tag)) s)
      (FaultAt L base fun new => ∃ tag, Tag tag ∧ Begun (Plain true (m.frame tag)) new) := by
  intro s hs
  obtain ⟨tag, s₁, hrun, ht, hin, hlog⟩ := htag s
  have hrule : Triple (· = s) (p9Request (v9pTransactWith L reset) nextTag m parse)
      (fun _ s => s.h.inReset = true ∧ Since base (Plain true (m.frame tag)) s)
      (FaultAt L base (Begun (Plain true (m.frame tag)))) := by
    refine request_rule ?_ (inner_transact base reset _ (m.frame tag)) fun _ _ hs => hs
    rintro s rfl
    rw [hrun]
    exact ⟨hin.trans hs.1, loaded_write m tag s₁, hlog.trans hs.2⟩
  have h := hrule.conseq (P := (· = s)) (fun _ hs => hs)
    (Q := fun _ s => s.h.inReset = true ∧ ∃ tag, Tag tag ∧ Since base (Plain true (m.frame tag)) s)
    (E := FaultAt L base fun new => ∃ tag, Tag tag ∧ Begun (Plain true (m.frame tag)) new)
    (fun _ _ hs => ⟨hs.1, tag, ht, hs.2⟩) fun _ _ hs => hs.mono fun _ hnew => ⟨tag, ht, hnew⟩
  exact h s rfl

theorem noTag_stays (s : St W) : ∃ tag s', (pure p9NoTag : Client W UInt16) s = .ok tag s' ∧ tag = p9NoTag ∧
    s'.h.inReset = s.h.inReset ∧ s'.log = s.log := ⟨_, s, rfl, rfl, rfl, rfl⟩

theorem nextTag_stays (s : St W) : ∃ tag s', (p9NextTag : Client W UInt16) s = .ok tag s' ∧ True ∧
    s'.h.inReset = s.h.inReset ∧ s'.log = s.log := ⟨_, s.tagged, nextTag_eq s, trivial, rfl, rfl⟩

/-- The handshake is at the point where the log since `base` is in `C`. -/
def Shaking (base : List (Moment W)) (C : List (Moment W) → Prop) (s : St W) : Prop :=
  s.h.inReset = true ∧ Since base C s

/-- The session is attached again. -/
def Attached (new : List (Moment W)) : Prop :=
  ∃ call call' root tag, Plain true versionFrame call ∧ Plain true (attachFrame root tag) call' ∧ new = call' ++ call

/-- **A reset** ends outside of a reset, on every path. -/
theorem reset_log {transact : Nat → Client W UInt32} {inner : Client W Bool} (ht : transact = v9pTransactWith L inner) :
    Triple (fun s => s.h.inReset = false ∧ s.log = base) (v9pReset L transact)
      (fun ok s => s.h.inReset = false ∧ ∃ reset : Moment W, reset.Is (.reset ok) false ∧
        Since base (fun new => ∃ nested, Handshake nested ∧ new = reset :: nested) s)
      (FaultAt L base (Begun Handshake)) := by
  subst ht
  refine reset_rule (A := Shaking base (· = [])) (C := Shaking base (· = []))
    (D := Shaking base (Plain true versionFrame))
    (G := Shaking base Attached) (Z := fun _ => Shaking base Handshake) ?_ (fun s w hs _ => hs) ?_ ?_ (fun root => ?_)
    ?_ ?_ ?_
  · exact fun s hs => ⟨hs.1, rfl, [], hs.2, rfl⟩
  · exact fun s w hs _ => ⟨hs.1, hs.2.mono fun new hnew => hnew ▸ .none⟩
  · refine (inner_request base noTag_stays _).conseq ?_ ?_ ?_
    · rintro s ⟨hin, new, hlog, rfl⟩
      exact ⟨hin, hlog⟩
    · rintro r s ⟨hin, tag, rfl, hcall⟩
      cases r with
      | error e => exact ⟨hin, hcall.mono fun new hnew => .version hnew⟩
      | ok msize => exact ⟨hin, hcall⟩
    · intro e s hs
      refine hs.mono ?_
      rintro new ⟨tag, rfl, rest, hcall⟩
      exact ⟨rest, .version hcall⟩
  · intro s ⟨hroot, hin, call, hlog, hcall⟩
    refine (inner_request s.log nextTag_stays _).conseq (P := (· = s)) ?_ ?_ ?_ s rfl
    · rintro s rfl
      exact ⟨hin, rfl⟩
    · rintro r s' ⟨hin', tag, -, call', hlog', hcall'⟩
      have hlog'' : s'.log = (call' ++ call) ++ base := by rw [hlog', hlog, List.append_assoc]
      cases r with
      | error e => exact ⟨hin', _, hlog'', .attach hcall hcall'⟩
      | ok _ => exact ⟨hin', _, hlog'', call, call', root, tag, hcall, hcall', rfl⟩
    · rintro e s' ⟨hwaits, new, hlog', tag, -, rest, hcall'⟩
      refine ⟨hwaits, new ++ call, by rw [hlog', hlog, List.append_assoc], rest, ?_⟩
      rw [← List.append_assoc]
      exact .attach hcall hcall'
  · rintro s pool w ⟨hin, new, hlog, call, call', root, tag, hcall, hcall', rfl⟩ _ _
    exact ⟨hin, _, congrArg _ hlog, .pool hcall hcall' ⟨rfl, hin⟩⟩
  · rintro s ⟨hin, new, hlog, call, call', root, tag, hcall, hcall', rfl⟩ _
    exact ⟨hin, _, hlog, .attach hcall hcall'⟩
  · rintro ok s ⟨-, nested, hlog, hnested⟩
    exact ⟨rfl, _, ⟨rfl, rfl⟩, _, congrArg _ hlog, nested, hnested, rfl⟩

end Nested

/-! ## Calls -/

section Calls

variable {L : Link W} {base : List (Moment W)} {b : Bool}

/-- The call on `tx` is about to reset the transport. -/
def Escalated (b : Bool) (tx : List UInt8) (base : List (Moment W)) (s : St W) : Prop :=
  b = false ∧ s.h.inReset = false ∧ ∃ escalate send : Moment W, s.log = escalate :: send :: base ∧
    escalate.Is (.escalate tx) false ∧ send.Is (.send tx) false

/-- A call that has not returned yet. -/
theorem Open.begun {tx : List UInt8} {new : List (Moment W)} (h : Open tx b new) : Begun (Call tx b) new := by
  have hret : ∃ ret : Moment W, ret.Is (.returned 0) b := by
    cases h with
    | sent hsend => exact hsend.other _
    | reset hsend _ _ _ => exact hsend.other _
  obtain ⟨ret, hret⟩ := hret
  exact ⟨[ret], .intro h hret⟩

/-- The reset that a call escalates to. -/
theorem escalated_reset {tx : List UInt8} :
    Triple (Escalated b tx base) (v9pReset L (v9pTransactAt L 0))
      (fun _ s => s.h.inReset = b ∧ Since base (Open tx b) s) (FaultAt L base (Begun (Call tx b))) := by
  rintro s ⟨rfl, hin, escalate, send, hlog, hescalate, hsend⟩
  have hreset := reset_log s.log (transactAt_zero L)
  refine hreset.conseq (P := (· = s)) ?_ ?_ ?_ s rfl
  · rintro s rfl
    exact ⟨hin, rfl⟩
  · rintro ok s' ⟨hin', reset, hreset, new, hlog', nested, hnested, rfl⟩
    refine ⟨hin', reset :: (nested ++ [escalate, send]), ?_, .reset hsend hescalate hnested hreset⟩
    rw [hlog', hlog]
    simp
  · rintro e s' ⟨hwaits, new, hlog', rest, hnested⟩
    obtain ⟨reset, hreset⟩ := hsend.other (.reset false)
    obtain ⟨ret, hret⟩ := hsend.other (.returned 0)
    refine ⟨hwaits, new ++ [escalate, send], by rw [hlog', hlog]; simp, ret :: reset :: rest, ?_⟩
    have hopen := Open.reset hsend hescalate hnested hreset
    rw [List.append_assoc] at hopen
    exact .intro hopen hret

/-- **What a call of `V9P_Transact` leaves behind**, whatever the link does. -/
theorem transact_log (base : List (Moment W)) (b : Bool) (txSize : Nat) (tx : List UInt8) :
    Triple (fun s => s.h.inReset = b ∧ s.h.txBuf.read 0 txSize = tx ∧ s.log = base) (v9pTransact L txSize)
      (fun _ s => s.h.inReset = b ∧ Since base (Call tx b) s) (FaultAt L base (Begun (Call tx b))) := by
  have hsent : ∀ {s : St W}, s.h.inReset = b ∧ s.h.txBuf.read 0 txSize = tx ∧ s.log = base →
      JustSent b tx base (s.sent txSize) := by
    rintro s ⟨hin, rfl, hlog⟩
    exact sent_sent hin hlog
  have hopen : ∀ {s : St W}, JustSent b tx base s → s.h.inReset = b ∧ Since base (Open tx b) s := by
    rintro s ⟨hin, send, hlog, hsend⟩
    exact ⟨hin, [send], hlog, .sent hsend⟩
  refine transact_rule (R := fun _ s => s.h.inReset = b ∧ Since base (Open tx b) s)
    (T := fun tx' _ s => tx' = tx ∧ JustSent b tx base s) ?_ (fun s w hs _ => hopen (hsent hs))
    (fun s n rx w hs _ => hopen (hsent hs)) (fun s rx w hs _ => ⟨hs.2.1, hsent hs⟩) (fun tx' tag => ?_) ?_
  · intro s e w hs hpoll
    refine ⟨?_, (hopen (hsent hs)).2.mono fun _ => Open.begun⟩
    rintro hwaits rfl
    exact hwaits.1 _ _ _ hpoll
  · refine abandon_rule (B := Escalated b tx base) ?_ (fun s k rx w hs _ _ => hopen hs.2) ?_ escalated_reset
    · intro s e w hs hdrain
      refine ⟨?_, (hopen hs.2).2.mono fun _ => Open.begun⟩
      rintro hwaits rfl
      exact hwaits.2 _ _ _ hdrain
    · rintro s k rx w ⟨rfl, hin, send, hlog, hsend⟩ _ _ hout
      have hb : b = false := hin.symm.trans hout
      exact ⟨hb, hout, _, send, congrArg _ hlog, ⟨rfl, hout⟩, hb ▸ hsend⟩
  · rintro n s ⟨hin, new, hlog, hnew⟩
    exact ⟨hin, _, congrArg _ hlog, .intro hnew ⟨rfl, hin⟩⟩

/-- **What a request leaves behind.** -/
theorem request_log (m : TMsg) (parse : Mem → UInt32 → Except Int32 α) (s₀ : St W) :
    Triple (· = s₀) (p9Request (v9pTransact L) p9NextTag m parse)
      (fun _ s => s.h.inReset = s₀.h.inReset ∧ Since s₀.log (Call (m.frame s₀.h.nextTag) s₀.h.inReset) s)
      (FaultAt L s₀.log (Begun (Call (m.frame s₀.h.nextTag) s₀.h.inReset))) := by
  refine request_rule ?_ (transact_log s₀.log s₀.h.inReset _ (m.frame s₀.h.nextTag)) fun _ _ hs => hs
  rintro s rfl
  exact ⟨rfl, loaded_write m s.h.nextTag s.tagged, rfl⟩

end Calls

/-! ## How many calls -/

/-- What is counted in a log: calls of `V9P_Transact`, and calls of `V9P_Reset` that it makes. -/
def Event.cost : Event → Nat × Nat
  | .send _ => (1, 0)
  | .escalate _ => (0, 1)
  | _ => (0, 0)

/-- The number of calls of `V9P_Transact`, and of `V9P_Reset`. -/
def cost : List (Moment W) → Nat × Nat
  | [] => (0, 0)
  | mo :: log => mo.event.cost + cost log

section Counts

theorem cost_append (new log : List (Moment W)) : cost (new ++ log) = cost new + cost log := by
  induction new with
  | nil => simp [cost]
  | cons mo new ih => rw [List.cons_append, cost, cost, ih, add_assoc]

theorem cost_cons {mo : Moment W} {e : Event} {b : Bool} (h : mo.Is e b) (log : List (Moment W)) :
    cost (mo :: log) = e.cost + cost log := by
  rw [cost, h.1]

theorem Plain.cost_eq {b : Bool} {tx : List UInt8} {call : List (Moment W)} (h : Plain b tx call) :
    cost call = (1, 0) := by
  cases h with
  | intro hsend hret =>
    rw [cost_cons hret, cost_cons hsend]
    rfl

/-- A handshake takes two calls at most. -/
theorem Handshake.cost_le {nested : List (Moment W)} (h : Handshake nested) : cost nested ≤ (2, 0) := by
  cases h with
  | none => exact Prod.mk_le_mk.mpr ⟨Nat.zero_le 2, le_rfl⟩
  | version hcall =>
    rw [hcall.cost_eq]
    decide
  | attach hcall hcall' =>
    rw [cost_append, hcall.cost_eq, hcall'.cost_eq]
    decide
  | pool hcall hcall' hpool =>
    rw [cost_cons hpool, cost_append, hcall.cost_eq, hcall'.cost_eq]
    decide

/-- **A call takes two calls more at most**, and one reset. -/
theorem Call.cost_le {tx : List UInt8} {b : Bool} {new : List (Moment W)} (h : Call tx b new) : cost new ≤ (3, 1) := by
  obtain ⟨hopen, hret⟩ := h
  rw [cost_cons hret]
  cases hopen with
  | sent hsend =>
    rw [cost_cons hsend]
    exact Prod.mk_le_mk.mpr ⟨Nat.le_add_left 1 2, Nat.zero_le 1⟩
  | reset hsend hescalate hnested hreset =>
    have hle := hnested.cost_le
    rw [cost_cons hreset, cost_append, cost_cons hescalate, cost_cons hsend]
    calc (0, 0) + ((0, 0) + (cost _ + ((0, 1) + ((1, 0) + (0, 0)))))
      _ ≤ (0, 0) + ((0, 0) + ((2, 0) + ((0, 1) + ((1, 0) + (0, 0))))) := by gcongr
      _ = (3, 1) := rfl

theorem Begun.cost_le {tx : List UInt8} {b : Bool} {new : List (Moment W)} (h : Begun (Call tx b) new) :
    cost new ≤ (3, 1) := by
  obtain ⟨rest, h⟩ := h
  have hle := h.cost_le
  rw [cost_append] at hle
  exact le_trans le_add_self hle

end Counts

/-! ## Tags -/

section Tags

/-- Run `x`, and keep a history of it. -/
def beside {ε σ τ : Type} (x : EStateM ε σ α) (note : τ → τ) : EStateM ε (σ × τ) α := fun s =>
  match x s.1 with
  | .ok a w => .ok a (w, note s.2)
  | .error e w => .error e (w, note s.2)

/-- The link, with a history of what is posted to cancel a request. -/
def Link.recording (L : Link W) : Link (W × List Post) where
  poll p := beside (L.poll p) id
  drain p := beside (L.drain p) (p :: ·)
  cleanupVirtio s := (L.cleanupVirtio s.1, s.2)
  initVirtio := fun s => ((L.initVirtio s.1).1, (L.initVirtio s.1).2, s.2)
  allocVec := fun bytes s => ((L.allocVec bytes s.1).1, (L.allocVec bytes s.1).2, s.2)

/-- All that is posted to cancel a request is a `Tflush` with a tag of its own. -/
def FlushesOk (posts : List Post) : Prop :=
  ∀ p ∈ posts, ∃ tag old, decode p.tx = some (tag, .flush old) ∧ tag ≠ old

theorem beside_final {ε σ τ : Type} (x : EStateM ε σ α) (note : τ → τ) (s : σ × τ) :
    (finalState (beside x note s)).2 = note s.2 := by
  unfold beside
  cases x s.1 <;> rfl

theorem decode_flush (tag stalledTag : UInt16) :
    decode (flushFrame tag stalledTag) = some (tag, .flush stalledTag) := by
  rw [flushFrame_eq]
  exact decode_frame (m := .flush stalledTag) trivial (by simp [TMsg.body]) tag

/-- The next tag is another one. -/
theorem next_ne (tag : UInt16) : (if tag + 1 = p9NoTag then 0 else tag + 1) ≠ tag := by
  split
  · rename_i h
    rintro rfl
    exact absurd h (by decide)
  · intro h
    have := congrArg UInt16.toNat h
    rw [UInt16.toNat_add] at this
    have := tag.toNat_lt
    simp at *

variable {L : Link W}

/-- The history is in order. -/
def Ordered (s : St (W × List Post)) : Prop := FlushesOk s.w.2

theorem ordered_transact {reset : Client (W × List Post) Bool}
    (hreset : Triple (fun s => s.h.inReset = false ∧ Ordered s) reset (fun _ => Ordered) fun _ => Ordered)
    (txSize : Nat) :
    Triple (fun s => Ordered s ∧ s.h.nextTag ≠ (p9GetU16 s.h.txBuf 5).1) (v9pTransactWith L.recording reset txSize)
      (fun _ => Ordered) fun _ => Ordered := by
  have hpoll : ∀ {p s r}, L.recording.poll p s = r → FlushesOk s.2 → FlushesOk (finalState r).2 := by
    rintro p s r rfl hs
    rw [show (finalState (L.recording.poll p s)).2 = s.2 from beside_final ..]
    exact hs
  have hdrain : ∀ {s : St (W × List Post)} {tag r}, L.recording.drain (s.flush tag) s.w = r → s.h.nextTag ≠ tag →
      Ordered s → FlushesOk (finalState r).2 := by
    rintro s tag r rfl hne hs
    rw [show (finalState (L.recording.drain (s.flush tag) s.w)).2 = s.flush tag :: s.w.2 from beside_final ..]
    exact List.forall_mem_cons.mpr ⟨⟨_, _, decode_flush .., hne⟩, hs⟩
  refine transact_rule (R := fun _ => Ordered) (T := fun _ tag s => Ordered s ∧ s.h.nextTag ≠ tag)
    (fun s e w hs h => hpoll h hs.1) (fun s w hs h => hpoll h hs.1) (fun s n rx w hs h => hpoll h hs.1)
    (fun s rx w hs h => ⟨hpoll h hs.1, hs.2⟩) (fun tx tag => ?_) fun n s hs => hs
  exact abandon_rule (fun s e w hs h => hdrain h hs.2 hs.1) (fun s k rx w hs h _ => hdrain h hs.2 hs.1)
    (fun s k rx w hs h _ hin => ⟨hin, hdrain h hs.2 hs.1⟩) hreset

theorem ordered_request {reset : Client (W × List Post) Bool}
    (hreset : Triple (fun s => s.h.inReset = false ∧ Ordered s) reset (fun _ => Ordered) fun _ => Ordered)
    {nextTag : Client (W × List Post) UInt16} {P : St (W × List Post) → Prop}
    (htag : Triple P nextTag (fun tag s => Ordered s ∧ s.h.nextTag ≠ tag) fun _ => Ordered) (m : TMsg)
    (parse : Mem → UInt32 → Except Int32 α) :
    Triple P (p9Request (v9pTransactWith L.recording reset) nextTag m parse) (fun _ => Ordered) fun _ => Ordered := by
  refine request_rule (htag.post fun tag s hs => ⟨hs.1, ?_⟩) (ordered_transact hreset _) fun _ _ hs => hs
  rw [(loaded_write m tag s).tag]
  exact hs.2

theorem ordered_nextTag :
    Triple Ordered (p9NextTag : Client (W × List Post) UInt16) (fun tag s => Ordered s ∧ s.h.nextTag ≠ tag)
      fun _ => Ordered := fun s hs => ⟨hs, next_ne s.h.nextTag⟩

theorem ordered_noTag :
    Triple (fun s : St (W × List Post) => Ordered s ∧ s.h.nextTag ≠ p9NoTag)
    (pure p9NoTag : Client (W × List Post) UInt16)
      (fun tag s => Ordered s ∧ s.h.nextTag ≠ tag) fun _ => Ordered := fun _ hs => hs

theorem ordered_reset : Triple (fun s => s.h.inReset = false ∧ Ordered s)
    (v9pReset L.recording (v9pTransactAt L.recording 0)) (fun _ => Ordered) fun _ => Ordered := by
  have hstart : Triple (fun s => s.h.inReset = false ∧ Ordered s) (throw .hang : Client (W × List Post) Bool)
      (fun _ => Ordered) fun _ => Ordered := Triple.throw fun _ hs => hs.2
  rw [transactAt_zero]
  refine reset_rule (A := Ordered) (C := fun s => Ordered s ∧ s.h.nextTag ≠ p9NoTag) (D := Ordered) (G := Ordered)
    (Z := fun _ => Ordered) (fun s hs => ⟨hs.1, hs.2⟩) ?_ ?_ ?_ (fun root => ?_) ?_ (fun s hs _ => hs) fun ok s hs => hs
  · intro s w hs hinit
    obtain rfl : w = _ := (congrArg Prod.snd hinit).symm
    exact ⟨hs, show (1 : UInt16) ≠ p9NoTag by decide⟩
  · intro s w hs hinit
    obtain rfl : w = _ := (congrArg Prod.snd hinit).symm
    exact hs
  · refine (ordered_request hstart ordered_noTag _ _).post fun r s hs => ?_
    cases r <;> exact hs
  · refine ((ordered_request hstart ordered_nextTag _ _).pre fun s hs => hs.2).post fun r s hs => ?_
    cases r <;> exact hs
  · intro s pool w hs _ hcreate
    have halloc : ∀ bytes, Ends (fun w => FlushesOk w.2) (L.recording.allocVec bytes) fun _ w => FlushesOk w.2 :=
      fun _ _ hw => hw
    have hkept := fidPoolCreate_keeps halloc s.w hs
    rwa [hcreate] at hkept

/-- **A request is cancelled under another tag than its own**, and so are those of a reset. -/
theorem request_flushes (m : TMsg) (parse : Mem → UInt32 → Except Int32 α) :
    Keeps Ordered (p9Request (v9pTransact L.recording) p9NextTag m parse) := by
  rw [transact_eq]
  exact ordered_request ordered_reset ordered_nextTag m parse

/-- The same for `P9_Version`, which has no tag. -/
theorem version_flushes (m : TMsg) (parse : Mem → UInt32 → Except Int32 α) :
    Triple (fun s => Ordered s ∧ s.h.nextTag ≠ p9NoTag) (p9Request (v9pTransact L.recording) (pure p9NoTag) m parse)
      (fun _ => Ordered) fun _ => Ordered := by
  rw [transact_eq]
  exact ordered_request ordered_reset ordered_noTag m parse

end Tags

/-! ## The transport does not hang -/

section Waits

/-- `x` ends, with a value or with a crash. -/
def Stops {σ : Type} (x : EStateM Fault σ α) : Prop := Triple (fun _ => True) x (fun _ _ => True) fun e _ => e ≠ .hang

theorem Stops.bind {σ β : Type} {x : EStateM Fault σ α} {f : α → EStateM Fault σ β} (hx : Stops x)
    (hf : ∀ a, Stops (f a)) : Stops (x >>= f) := Triple.bind hx hf

theorem Stops.ne {σ : Type} {x : EStateM Fault σ α} (h : Stops x) (s s' : σ) : x s ≠ .error .hang s' :=
  fun hx => h.error trivial hx rfl

theorem stops_of_ok {σ : Type} {x : EStateM Fault σ α} (h : ∀ s, ∃ a s', x s = .ok a s') : Stops x := by
  intro s _
  obtain ⟨a, s', hx⟩ := h s
  rw [hx]
  trivial

variable (world : World)

theorem stops_theQueue : Stops theQueue := by
  intro m _
  unfold theQueue
  rw [get_bind]
  cases m.vq with
  | none => exact Fault.noConfusion
  | some q => trivial

theorem stops_postMessage (cookie : Cookie) (p : Post) : Stops (postMessage world cookie p) := by
  refine stops_theQueue.bind fun q => (stops_of_ok fun m => ⟨_, _, rfl⟩).bind fun _ => ?_
  dsimp only
  split
  · exact Triple.throw fun _ _ => Fault.noConfusion
  · split
    · exact stops_of_ok fun m => ⟨_, _, rfl⟩
    · exact stops_of_ok fun m => ⟨_, _, rfl⟩

theorem stops_look (rx : Mem) : Stops (look world rx) := by
  have hget : Stops (get : EStateM Fault Machine Machine) := Triple.get fun _ _ => trivial
  refine stops_theQueue.bind fun q => hget.bind fun m => ?_
  dsimp only
  split
  · exact Triple.throw fun _ _ => Fault.noConfusion
  · exact stops_of_ok fun m => ⟨_, _, rfl⟩

theorem stops_pollLoop (p : Post) : ∀ (polls : Nat) (rx : Mem), Stops (pollLoop world p polls rx)
  | 0, rx => Triple.ret
  | polls + 1, rx => by
    refine (stops_look world rx).bind fun r => ?_
    obtain ⟨got, rx'⟩ := r
    cases got with
    | none => exact stops_pollLoop p polls rx'
    | some written => exact Triple.ite (fun _ => Triple.ret) fun _ => stops_pollLoop p polls rx'

theorem stops_drainOne : ∀ (polls : Nat) (rx : Mem), Stops (drainOne world polls rx)
  | 0, rx => Triple.ret
  | polls + 1, rx => by
    refine (stops_look world rx).bind fun r => ?_
    obtain ⟨got, rx'⟩ := r
    cases got with
    | none => exact stops_drainOne polls rx'
    | some written => exact Triple.ret

theorem stops_deadline : Stops (deadline world) := stops_of_ok fun _ => ⟨_, _, rfl⟩

theorem stops_drainLoop : ∀ (rounds : Nat) (rx : Mem), Stops (drainLoop world rounds rx)
  | 0, rx => Triple.ret
  | rounds + 1, rx => by
    refine (stops_deadline world).bind fun polls => (stops_drainOne world polls rx).bind fun r => ?_
    obtain ⟨came, rx'⟩ := r
    cases came with
    | false => exact Triple.ret
    | true => exact (stops_drainLoop rounds rx').bind fun _ => Triple.ret

/-- **The waits of the transport end**, since a deadline is over after some looks at the clock. -/
theorem busLink_waits : (busLink world).Waits := by
  constructor
  · intro p
    refine Stops.ne ((stops_postMessage world .tx p).bind fun room => ?_)
    exact Triple.ite (fun _ => (stops_deadline world).bind fun polls => stops_pollLoop world p polls _)
      fun _ => Triple.ret
  · intro p
    refine Stops.ne ((stops_postMessage world .flush p).bind fun room => ?_)
    exact Triple.ite (fun _ => stops_drainLoop world 2 _) fun _ => Triple.ret

end Waits

/-! ## Recovery ends -/

/-- A call of `V9P_Transact` on `tx` comes back with `in_reset` as it was; it took two calls more at most, inside of one
reset at most, and they started none. -/
structure CameBack (tx : List UInt8) (s s' : St W) : Prop where
  inReset : s'.h.inReset = s.h.inReset
  log : Since s.log (fun new => Call tx s.h.inReset new ∧ cost new ≤ (3, 1)) s'

/-- A call of `V9P_Transact` on `tx` crashes, part of the way to its return. -/
structure Crashed (tx : List UInt8) (s : St W) (e : Fault) (s' : St W) : Prop where
  crash : e ≠ .hang
  log : Since s.log (fun new => Begun (Call tx s.h.inReset) new ∧ cost new ≤ (3, 1)) s'

/-- **Recovery from a timeout ends.** The recursion between `V9P_Transact` and `V9P_Reset` is the same at every depth;
no call hangs if the waits for the device end; a call makes one reset at most and two calls more at most, which start
none; `in_reset` is as before after every call, and off after every reset; and the `Tflush` has another tag than what it
cancels. -/
theorem recovery_ends {L : Link W} (hL : L.Waits) :
    (∀ depth, v9pTransactAt L (depth + 1) = v9pTransact L) ∧
    (∀ txSize s, Triple (· = s) (v9pTransact L txSize) (fun _ => CameBack (s.h.txBuf.read 0 txSize) s)
      (Crashed (s.h.txBuf.read 0 txSize) s)) ∧
    Triple (fun s => s.h.inReset = false) (v9pReset L (v9pTransact L)) (fun _ s => s.h.inReset = false)
      (fun e _ => e ≠ .hang) ∧
    (∀ (m : TMsg) (parse : Mem → UInt32 → Except Int32 α),
      Keeps Ordered (p9Request (v9pTransact L.recording) p9NextTag m parse) ∧
      Triple (fun s => Ordered s ∧ s.h.nextTag ≠ p9NoTag) (p9Request (v9pTransact L.recording) (pure p9NoTag) m parse)
        (fun _ => Ordered) fun _ => Ordered) := by
  refine ⟨transactAt_succ L, fun txSize s => ?_, ?_, fun m parse => ⟨request_flushes m parse, version_flushes m parse⟩⟩
  · have hlog := transact_log (L := L) s.log s.h.inReset txSize (s.h.txBuf.read 0 txSize)
    refine hlog.conseq (fun s' hs => ?_) (fun n s' hs => ?_) fun e s' hs => ?_
    · subst hs
      exact ⟨rfl, rfl, rfl⟩
    · exact ⟨hs.1, hs.2.mono fun new hcall => ⟨hcall, hcall.cost_le⟩⟩
    · exact ⟨hs.1 hL, hs.2.mono fun new hcall => ⟨hcall, hcall.cost_le⟩⟩
  · intro s hs
    refine (reset_log s.log (transact_eq L)).conseq (P := (· = s)) ?_ (fun ok s' h => h.1) (fun e s' h => h.1 hL) s rfl
    rintro s rfl
    exact ⟨hs, rfl⟩

/-- A transport that can be set up again and never answers. -/
def deafLink : Link Unit where
  poll p := pure (.timeout p.rxBuf)
  drain p := pure (0, p.rxBuf)
  cleanupVirtio := id
  initVirtio := pure true
  allocVec := fun _ => pure true

theorem deaf_waits : deafLink.Waits := by
  constructor
  · rintro p w w' ⟨⟩
  · rintro p w w' ⟨⟩

def deafState : St Unit := ⟨⟨p9MSize, 0, none, 1, fun _ => 0, fun _ => 0, false⟩, (), []⟩

/-- A call times out, and so does the call that the reset makes: two calls and one reset, and then it is over. Over the
transport no call hangs. -/
theorem recovery_ends_deaf :
    (∃ s', v9pTransact deafLink 7 deafState = .ok 0 s' ∧ cost s'.log = (2, 1) ∧
      CameBack (deafState.h.txBuf.read 0 7) deafState s' ∧ s'.h.inReset = false) ∧
    ∀ world txSize s s', v9pTransact (busLink world) txSize s ≠ .error .hang s' := by
  constructor
  · obtain ⟨-, hcall, -, -⟩ := recovery_ends (α := Unit) deaf_waits
    have hrun : v9pTransact deafLink 7 deafState = .ok 0 (finalState (v9pTransact deafLink 7 deafState)) := rfl
    have hback : CameBack _ deafState (finalState (v9pTransact deafLink 7 deafState)) := (hcall 7 deafState).ok rfl hrun
    exact ⟨_, hrun, rfl, hback, hback.inReset⟩
  · intro world txSize s s' hrun
    obtain ⟨-, hcall, -, -⟩ := recovery_ends (α := Unit) (busLink_waits world)
    exact ((hcall txSize s).error rfl hrun).crash rfl

end Virtio9P
