import Virtio9P.Message

/-!
# Rules for transactions

One rule for each function between a callback and the link: `V9P_Transact` (`transact_rule`), its timeout path
(`abandon_rule`), `V9P_Reset` (`reset_rule`) and the request frame of the operations (`request_rule`). A rule names
what holds at each point where the function talks to the link or writes in the log, and no proof about transactions
looks inside these functions again.

The recursion between `V9P_Transact` and `V9P_Reset` was cut at a depth of nesting. In a reset no other reset is
started, so every depth from `1` on is the same function (`transactAt_succ`).
-/

namespace Virtio9P

open Lib

variable {W α β : Type}

namespace St

/-- The state with one more entry in the log. -/
def logged (s : St W) (e : Event) : St W := { s with log := ⟨e, s.h, s.w⟩ :: s.log }

/-- What `V9P_Transact` posts. -/
def post (s : St W) (txSize : Nat) : Post :=
  ⟨s.h.txBuf.read 0 txSize, (p9GetU16 s.h.txBuf 5).1, s.h.rxBuf, s.h.msize⟩

/-- The state when `V9P_Transact` starts to poll. -/
def sent (s : St W) (txSize : Nat) : St W := s.logged (.send (s.h.txBuf.read 0 txSize))

/-- The state when the link is left with `rx` in the receive buffer. -/
def received (s : St W) (w : W) (rx : Mem) : St W := { s with h := { s.h with rxBuf := rx }, w := w }

/-- The state after `p9_next_tag`. -/
def tagged (s : St W) : St W :=
  { s with h := { s.h with nextTag := if s.h.nextTag + 1 = p9NoTag then 0 else s.h.nextTag + 1 } }

/-- The state with another pool. -/
def pooled (s : St W) (pool : Option FidPool) (w : W) : St W := { s with h := { s.h with fidPool := pool }, w := w }

/-- The `Tflush` that is posted when polling is given up. -/
def flush (s : St W) (stalledTag : UInt16) : Post :=
  ⟨flushFrame s.h.nextTag stalledTag, s.h.nextTag, s.h.rxBuf, s.h.msize⟩

end St

theorem nextTag_eq (s : St W) : p9NextTag s = .ok s.h.nextTag s.tagged := rfl

/-! ## The request frame -/

/-- What an operation makes of a reply of `n` bytes, for `n ≠ 0`. -/
def answer (parse : Mem → UInt32 → Except Int32 α) (n : UInt32) (rx : Mem) : Except Int32 α :=
  if p9CheckError rx n ≠ 0 then .error (p9CheckError rx n) else parse rx n

/-- What an operation makes of the return of `V9P_Transact`. -/
def resultOf (parse : Mem → UInt32 → Except Int32 α) (n : UInt32) (rx : Mem) : Except Int32 α :=
  if n = 0 then .error (-5) else answer parse n rx

/-- The message `m` is in `tx_buf`, with the tag `tag`. -/
def Loaded (m : TMsg) (tag : UInt16) (s : St W) : Prop :=
  s.h.txBuf.read 0 (7 + m.body.length) = m.frame tag

theorem loaded_write (m : TMsg) (tag : UInt16) (s : St W) :
    Loaded m tag { s with h := { s.h with txBuf := s.h.txBuf.write 0 (m.frame tag) } } := by
  have h := Mem.read_write_self s.h.txBuf 0 (m.frame tag)
  rwa [TMsg.length_frame] at h

/-- The tag that `V9P_Transact` reads back. -/
theorem Loaded.tag {m : TMsg} {tag : UInt16} {s : St W} (h : Loaded m tag s) : (p9GetU16 s.h.txBuf 5).1 = tag := by
  have hread : s.h.txBuf.read 5 2 = leBytes 2 tag.toNat := by
    have h₇ : (s.h.txBuf.read 0 (7 + m.body.length)).take 7 = s.h.txBuf.read 0 7 := Mem.take_read _ _ (by omega)
    have h₅ : (s.h.txBuf.read 0 7).drop 5 = s.h.txBuf.read 5 2 := by rw [Mem.drop_read _ _ (by omega)]
    rw [← h₅, ← h₇, h]
    simp only [TMsg.frame, frame, List.take_append, List.drop_append, length_leBytes]
    simp [leBytes]
  rw [getU16_eq, hread, leNat_leBytes_of_lt tag.toNat_lt]
  exact UInt16.ofNat_toNat

theorem request_rule {transact : Nat → Client W UInt32} {nextTag : Client W UInt16} {m : TMsg}
    {parse : Mem → UInt32 → Except Int32 α} {P S : St W → Prop} {R : UInt32 → St W → Prop}
    {Q : Except Int32 α → St W → Prop} {E : Fault → St W → Prop}
    (htag : Triple P nextTag
      (fun tag s => S { s with h := { s.h with txBuf := s.h.txBuf.write 0 (m.frame tag) } }) E)
    (htransact : Triple S (transact (7 + m.body.length)) R E)
    (hresult : ∀ n s, R n s → Q (resultOf parse n s.h.rxBuf) s) :
    Triple P (p9Request transact nextTag m parse) Q E := by
  refine htag.bind fun tag => Triple.bind (Q := fun _ => S) (Triple.modify fun s hs => hs) fun _ => ?_
  refine htransact.bind fun n s hs => ?_
  have h := hresult n s hs
  unfold resultOf at h
  by_cases hn : n = 0
  · rw [if_pos hn] at h ⊢
    exact h
  · rw [if_neg hn] at h ⊢
    rw [handler_bind]
    unfold answer at h
    by_cases he : p9CheckError s.h.rxBuf n ≠ 0
    · rw [if_pos he] at h ⊢
      exact h
    · rw [if_neg he] at h ⊢
      exact h

/-! ## `V9P_Transact` -/

theorem transactAt_zero (L : Link W) : v9pTransactAt L 0 = v9pTransactWith L (throw .hang) := rfl

theorem transact_eq (L : Link W) : v9pTransact L = v9pTransactWith L (v9pReset L (v9pTransactAt L 0)) := rfl

section Rules

variable {L : Link W} {E : Fault → St W → Prop}

/-- `R n` holds when `V9P_Transact` is about to return `n`; `T` when it has given up polling. -/
theorem transact_rule {reset : Client W Bool} {txSize : Nat} {P : St W → Prop} {Q R : UInt32 → St W → Prop}
    {T : List UInt8 → UInt16 → St W → Prop}
    (hfault : ∀ s e w, P s → L.poll (s.post txSize) s.w = .error e w → E e { s.sent txSize with w := w })
    (hrefused : ∀ s w, P s → L.poll (s.post txSize) s.w = .ok .refused w → R 0 { s.sent txSize with w := w })
    (hreply : ∀ s n rx w, P s → L.poll (s.post txSize) s.w = .ok (.reply n rx) w → R n ((s.sent txSize).received w rx))
    (htimeout : ∀ s rx w, P s → L.poll (s.post txSize) s.w = .ok (.timeout rx) w →
      T (s.post txSize).tx (s.post txSize).expectedTag ((s.sent txSize).received w rx))
    (habandon : ∀ tx tag, Triple (T tx tag) (abandon L reset tx tag) (fun _ => R 0) E)
    (hreturn : ∀ n s, R n s → Q n (s.logged (.returned n))) : Triple P (v9pTransactWith L reset txSize) Q E := by
  intro s hs
  unfold v9pTransactWith
  rw [handler_bind, record_bind]
  cases hr : L.poll (s.post txSize) s.w with
  | error e w =>
    unfold St.post at hr
    rw [tryLink_bind_error hr]
    exact hfault s e w hs hr
  | ok polled w =>
    unfold St.post at hr
    rw [tryLink_bind_ok hr]
    cases polled with
    | refused => exact hreturn 0 _ (hrefused s w hs hr)
    | reply n rx => exact hreturn n _ (hreply s n rx w hs hr)
    | timeout rx =>
      refine Triple.bind (habandon (s.post txSize).tx (s.post txSize).expectedTag) (fun _ => ?_) _
        (htimeout s rx w hs hr)
      exact fun s' hs' => hreturn 0 s' hs'

/-- `B` holds when the transport is about to be reset. -/
theorem abandon_rule {reset : Client W Bool} {tx : List UInt8} {stalledTag : UInt16} {T B R : St W → Prop}
    (hfault : ∀ s e w, T s → L.drain (s.flush stalledTag) s.w = .error e w → E e { s.tagged with w := w })
    (hdrained : ∀ s k rx w, T s → L.drain (s.flush stalledTag) s.w = .ok (k, rx) w →
      ¬ (k < 2 ∧ s.h.inReset = false) → R (s.tagged.received w rx))
    (hescalate : ∀ s k rx w, T s → L.drain (s.flush stalledTag) s.w = .ok (k, rx) w → k < 2 → s.h.inReset = false →
      B ((s.tagged.received w rx).logged (.escalate tx)))
    (hreset : Triple B reset (fun _ => R) E) : Triple T (abandon L reset tx stalledTag) (fun _ => R) E := by
  intro s hs
  unfold abandon p9NextTag
  rw [bind_assoc, handler_bind, bind_assoc, modifyHandler_bind, pure_bind, handler_bind]
  cases hr : L.drain (s.flush stalledTag) s.w with
  | error e w =>
    unfold St.flush at hr
    rw [tryLink_bind_error hr]
    exact hfault s e w hs hr
  | ok drained w =>
    unfold St.flush at hr
    rw [tryLink_bind_ok hr, modifyHandler_bind]
    by_cases hk : drained.1 < 2 ∧ s.h.inReset = false
    · rw [if_pos hk, record_bind]
      exact Triple.bind hreset (fun _ => Triple.ret) _ (hescalate s _ _ w hs hr hk.1 hk.2)
    · rw [if_neg hk]
      exact hdrained s _ _ w hs hr hk

/-! ## `V9P_Reset` -/

/-- `A` holds when the device has been reset, `C` when it is set up again, `D` after the version handshake, `G`
after the attach; `Z ok` holds when `V9P_Reset` is about to return. -/
theorem reset_rule {transact : Nat → Client W UInt32} {B A C D G : St W → Prop} {Z R : Bool → St W → Prop}
    (hclean : ∀ s, B s → s.h.inReset = false ∧
      A { s with h := { s.h with inReset := true }, w := L.cleanupVirtio s.w })
    (hinit : ∀ s w, A s → L.initVirtio s.w = (true, w) → C { s with h := { s.h with nextTag := 1 }, w := w })
    (hfailed : ∀ s w, A s → L.initVirtio s.w = (false, w) → Z false { s with w := w })
    (hversion : Triple C (p9Request transact (pure p9NoTag) (.version p9MSize p9VersionStr) parseVersion)
      (fun r s => match r with
        | .error _ => Z false s
        | .ok msize => D { s with h := { s.h with msize := msize } }) E)
    (hattach : ∀ root, Triple (fun s => s.h.rootFid = root ∧ D s)
      (p9Request transact p9NextTag (.attach root p9NoFid [] [] 0) noFields)
      (fun r s => match r with | .error _ => Z false s | .ok _ => G s) E)
    (hpool : ∀ s pool w, G s → s.h.fidPool.isSome = true → fidPoolCreate L.allocVec s.w = (pool, w) →
      Z pool.isSome ((s.pooled pool w).logged .newPool))
    (hnone : ∀ s, G s → s.h.fidPool = none → Z true s)
    (hend : ∀ ok s, Z ok s → R ok (St.logged { s with h := { s.h with inReset := false } } (.reset ok))) :
    Triple B (v9pReset L transact) R E := by
  intro s hs
  obtain ⟨hin, hs⟩ := hclean s hs
  unfold v9pReset
  rw [handler_bind, if_neg (by rw [hin]; decide), modifyHandler_bind, onLink_bind]
  refine Triple.bind (Q := Z) (P := A) ?_ (fun ok s hz => hend ok s hz) _ hs
  intro s hs
  unfold rehandshake
  rw [onLink_bind]
  rcases hi : L.initVirtio s.w with ⟨_ | _, w⟩
  · exact hfailed s w hs hi
  · simp only [if_true]
    rw [modifyHandler_bind, p9Version_eq, bind_assoc]
    refine Triple.bind (P := C) hversion (fun r => ?_) _ (hinit s w hs hi)
    cases r with
    | error e => exact Triple.pure fun _ h => h
    | ok msize =>
      intro s hs
      rw [bind_assoc, modifyHandler_bind, pure_bind]
      simp only []
      rw [handler_bind, p9Attach_eq]
      refine Triple.bind (hattach s.h.rootFid) (fun r => ?_) _ ⟨rfl, hs⟩
      cases r with
      | error e => exact Triple.pure fun _ h => h
      | ok _ =>
        intro s hs
        simp only []
        rw [handler_bind]
        cases hsome : s.h.fidPool with
        | none => exact hnone s hs hsome
        | some pool => exact hpool s _ _ hs (by rw [hsome]; rfl) rfl

end Rules

/-! ## The pool -/

section Pool

variable {L : Link W} {P : St W → Prop} {E : Fault → St W → Prop}

theorem draw_rule {Q : UInt32 → St W → Prop} (hnull : ∀ s, P s → s.h.fidPool = none → E .nullPool s)
    (hdraw : ∀ s pool, P s → s.h.fidPool = some pool →
      Q (fidPoolAlloc pool).1 ((s.pooled (some (fidPoolAlloc pool).2) s.w).logged (.alloc (fidPoolAlloc pool).1))) :
    Triple P drawFid Q E := by
  intro s hs
  unfold drawFid thePool
  rw [bind_assoc, handler_bind]
  cases hpool : s.h.fidPool with
  | none => exact hnull s hs hpool
  | some pool => exact hdraw s pool hs hpool

theorem free_rule {fid : UInt32} {Q : Unit → St W → Prop} (hnull : ∀ s, P s → s.h.fidPool = none → E .nullPool s)
    (hfree : ∀ s pool pool' w, P s → s.h.fidPool = some pool → fidPoolFree L.allocVec pool fid s.w = (pool', w) →
      Q () ((s.pooled (some pool') w).logged (.free fid))) : Triple P (freeFid L fid) Q E := by
  intro s hs
  unfold freeFid thePool
  rw [bind_assoc, handler_bind]
  cases hpool : s.h.fidPool with
  | none => exact hnull s hs hpool
  | some pool => exact hfree s pool _ _ hs hpool rfl

theorem orphan_rule {fid : UInt32} {Q : Unit → St W → Prop} (hnull : ∀ s, P s → s.h.fidPool = none → E .nullPool s)
    (horphan : ∀ s pool pool' w, P s → s.h.fidPool = some pool →
      fidPoolMarkOrphan L.allocVec pool fid s.w = (pool', w) → Q () ((s.pooled (some pool') w).logged (.orphan fid))) :
    Triple P (orphanFid L fid) Q E := by
  intro s hs
  unfold orphanFid thePool
  rw [bind_assoc, handler_bind]
  cases hpool : s.h.fidPool with
  | none => exact hnull s hs hpool
  | some pool => exact horphan s pool _ _ hs hpool rfl

end Pool

/-! ## Replies -/

section Replies

variable {L : Link W}

/-- The only way to a return other than `0` is a reply. -/
theorem transact_reply (reset : Client W Bool) (txSize : Nat) (s₀ : St W) :
    Triple (· = s₀) (v9pTransactWith L reset txSize)
      (fun n s => n ≠ 0 → ∃ w rx, L.poll (s₀.post txSize) s₀.w = .ok (.reply n rx) w ∧
        s = ((s₀.sent txSize).received w rx).logged (.returned n)) fun _ _ => True := by
  refine transact_rule (T := fun _ _ _ => True) (R := fun n s => n ≠ 0 → ∃ w rx,
      L.poll (s₀.post txSize) s₀.w = .ok (.reply n rx) w ∧ s = (s₀.sent txSize).received w rx)
    (fun _ _ _ _ _ => trivial) (fun s w _ _ h => absurd rfl h) ?_ (fun _ _ _ _ _ => trivial) (fun tx tag => ?_) ?_
  · rintro s n rx w rfl hpoll -
    exact ⟨w, rx, hpoll, rfl⟩
  · exact Triple.top (fun _ _ h => absurd rfl h) fun _ _ => trivial
  · intro n s hs hn
    obtain ⟨w, rx, hpoll, rfl⟩ := hs hn
    exact ⟨w, rx, hpoll, rfl⟩

/-- The state in which a request is handed to `V9P_Transact`. -/
def St.loaded (s : St W) (m : TMsg) : St W :=
  { s.tagged with h := { s.tagged.h with txBuf := s.h.txBuf.write 0 (m.frame s.h.nextTag) } }

/-- What is posted for the request `m`. -/
def St.ask (s : St W) (m : TMsg) : Post := ⟨m.frame s.h.nextTag, s.h.nextTag, s.h.rxBuf, s.h.msize⟩

/-- The state when the request `m` was sent. -/
def St.asked (s : St W) (m : TMsg) : St W := (s.loaded m).logged (.send (m.frame s.h.nextTag))

/-- The state when the request `m` was answered with `n` bytes in `rx`. -/
def St.replied (s : St W) (m : TMsg) (n : UInt32) (rx : Mem) (w : W) : St W :=
  ((s.asked m).received w rx).logged (.returned n)

theorem St.replied_log (s : St W) (m : TMsg) (n : UInt32) (rx : Mem) (w : W) :
    ∃ ret sent, (s.replied m n rx w).log = ret :: sent :: s.log ∧ ret.event = .returned n ∧
      sent.event = .send (m.frame s.h.nextTag) ∧ sent.h.rootFid = s.h.rootFid := ⟨_, _, rfl, rfl, rfl, rfl⟩

theorem St.post_loaded (s : St W) (m : TMsg) : (s.loaded m).post (7 + m.body.length) = s.ask m := by
  have hload : Loaded m s.h.nextTag (s.loaded m) := loaded_write m s.h.nextTag s.tagged
  unfold St.post
  rw [hload.tag, hload]
  rfl

theorem St.sent_loaded (s : St W) (m : TMsg) : (s.loaded m).sent (7 + m.body.length) = s.asked m := by
  unfold St.sent St.asked
  rw [show (s.loaded m).h.txBuf.read 0 (7 + m.body.length) = m.frame s.h.nextTag from
    loaded_write m s.h.nextTag s.tagged]

/-- A request ends with a transport error, or with what it makes of a reply. -/
theorem request_reply (m : TMsg) (parse : Mem → UInt32 → Except Int32 α) (s₀ : St W) :
    Triple (· = s₀) (p9Request (v9pTransact L) p9NextTag m parse)
      (fun r s => r = .error (-5) ∨ ∃ n w rx, n ≠ 0 ∧ L.poll (s₀.ask m) s₀.w = .ok (.reply n rx) w ∧
        r = answer parse n rx ∧ s = s₀.replied m n rx w) fun _ _ => True := by
  refine request_rule (S := (· = s₀.loaded m)) (by rintro s rfl; rfl) (transact_reply _ _ (s₀.loaded m))
    fun n s hs => ?_
  by_cases hn : n = 0
  · exact .inl (if_pos hn)
  · obtain ⟨w, rx, hpoll, rfl⟩ := hs hn
    rw [St.post_loaded] at hpoll
    refine .inr ⟨n, w, rx, hn, hpoll, if_neg hn, ?_⟩
    rw [St.sent_loaded]
    rfl

theorem transact_of_reply {reset : Client W Bool} {txSize : Nat} {s : St W} {n : UInt32} {rx : Mem} {w : W}
    (hpoll : L.poll (s.post txSize) s.w = .ok (.reply n rx) w) :
    v9pTransactWith L reset txSize s = .ok n (((s.sent txSize).received w rx).logged (.returned n)) := by
  unfold v9pTransactWith
  rw [handler_bind, record_bind]
  unfold St.post at hpoll
  rw [tryLink_bind_ok hpoll]
  rfl

theorem transact_of_refused {reset : Client W Bool} {txSize : Nat} {s : St W} {w : W}
    (hpoll : L.poll (s.post txSize) s.w = .ok .refused w) :
    v9pTransactWith L reset txSize s = .ok 0 (St.logged { s.sent txSize with w := w } (.returned 0)) := by
  unfold v9pTransactWith
  rw [handler_bind, record_bind]
  unfold St.post at hpoll
  rw [tryLink_bind_ok hpoll]
  rfl

/-- A request as the call of `V9P_Transact` and what follows. -/
theorem request_eq (transact : Nat → Client W UInt32) (m : TMsg) (parse : Mem → UInt32 → Except Int32 α) (s : St W) :
    p9Request transact p9NextTag m parse s = (transact (7 + m.body.length) >>= fun rxLen =>
      if rxLen = 0 then pure (.error (-5))
      else do
        let rxBuf := (← handler).rxBuf
        if p9CheckError rxBuf rxLen ≠ 0 then pure (.error (p9CheckError rxBuf rxLen))
        else pure (parse rxBuf rxLen)) (s.loaded m) := rfl

/-- A request that cannot be posted. -/
theorem request_of_refused {m : TMsg} {s : St W} {w : W} (hpoll : L.poll (s.ask m) s.w = .ok .refused w)
    (parse : Mem → UInt32 → Except Int32 α) :
    p9Request (v9pTransact L) p9NextTag m parse s =
      .ok (.error (-5)) (St.logged { s.asked m with w := w } (.returned 0)) := by
  rw [← St.post_loaded] at hpoll
  rw [request_eq, run_bind_ok (show v9pTransact L _ (s.loaded m) = _ from transact_of_refused hpoll), St.sent_loaded]
  rfl

/-- A request that is answered, be it with nothing. -/
theorem request_of_poll {m : TMsg} {s : St W} {n : UInt32} {rx : Mem} {w : W}
    (hpoll : L.poll (s.ask m) s.w = .ok (.reply n rx) w) (parse : Mem → UInt32 → Except Int32 α) :
    p9Request (v9pTransact L) p9NextTag m parse s = .ok (resultOf parse n rx) (s.replied m n rx w) := by
  have htransact : v9pTransact L (7 + m.body.length) (s.loaded m) = .ok n (s.replied m n rx w) := by
    rw [← St.post_loaded] at hpoll
    unfold St.replied
    rw [← St.sent_loaded]
    exact transact_of_reply hpoll
  rw [request_eq, run_bind_ok htransact]
  unfold resultOf
  by_cases hn : n = 0
  · rw [if_pos hn, if_pos hn]
    rfl
  · rw [if_neg hn, if_neg hn, handler_bind]
    unfold answer
    show (if p9CheckError rx n ≠ 0 then _ else _ : Client W (Except Int32 α)) _ = _
    split <;> rfl

/-- A request that is answered. -/
theorem request_of_reply {m : TMsg} {s : St W} {n : UInt32} {rx : Mem} {w : W} (hn : n ≠ 0)
    (hpoll : L.poll (s.ask m) s.w = .ok (.reply n rx) w) (parse : Mem → UInt32 → Except Int32 α) :
    p9Request (v9pTransact L) p9NextTag m parse s = .ok (answer parse n rx) (s.replied m n rx w) := by
  rw [request_of_poll hpoll, resultOf, if_neg hn]

end Replies

/-! ## Invariants of the log -/

/-- The log since `base`. -/
def Since (base : List (Moment W)) (T : List (Moment W) → Prop) (s : St W) : Prop := ∃ new, s.log = new ++ base ∧ T new

theorem Since.mono {base : List (Moment W)} {T T' : List (Moment W) → Prop} {s : St W} (h : Since base T s)
    (hT : ∀ new, T new → T' new) : Since base T' s := by
  obtain ⟨new, hlog, ht⟩ := h
  exact ⟨new, hlog, hT new ht⟩

/-- What is logged inside a reset. -/
inductive Event.Nested : Event → Prop
  | version (tag : UInt16) : Nested (.send (TMsg.frame (.version p9MSize p9VersionStr) tag))
  | attach (root : UInt32) (tag : UInt16) : Nested (.send (TMsg.frame (.attach root p9NoFid [] [] 0) tag))
  | returned (n : UInt32) : Nested (.returned n)
  | newPool : Nested .newPool

/-- An invariant that depends on the log and the negotiated size only: `Out` between transactions, `In` inside a reset
and at a fault. -/
structure LogInv (W : Type) where
  Out : UInt32 → List (Moment W) → Prop
  In : List (Moment W) → Prop
  out_in : ∀ {v log}, Out v log → In log
  returned : ∀ {log n} mo, mo.event = .returned n → Out mo.h.msize log → Out mo.h.msize (mo :: log)
  escalate : ∀ {mo log tx}, mo.event = .escalate tx → Out mo.h.msize log → In (mo :: log)
  nested : ∀ {mo log}, mo.h.inReset = true → mo.event.Nested → In log → In (mo :: log)
  reset : ∀ {log ok} mo, mo.event = .reset ok → In log → Out mo.h.msize (mo :: log)

namespace LogInv

variable (I : LogInv W) {L : Link W}

/-- Between transactions. -/
def Between (s : St W) : Prop := s.h.inReset = false ∧ I.Out s.h.msize s.log

/-- Inside a reset. -/
def Within (s : St W) : Prop := s.h.inReset = true ∧ I.In s.log

theorem Within.logged {I : LogInv W} {s : St W} (hs : I.Within s) {e : Event} (he : e.Nested) :
    I.Within (s.logged e) := ⟨hs.1, I.nested hs.1 he hs.2⟩

theorem within_transact {reset : Client W Bool} {txSize : Nat} :
    Triple (fun s => I.Within s ∧ (Event.send (s.h.txBuf.read 0 txSize)).Nested) (v9pTransactWith L reset txSize)
      (fun _ => I.Within) fun _ s => I.In s.log := by
  refine transact_rule (R := fun _ => I.Within) (T := fun _ _ => I.Within)
    (fun s e w hs _ => (hs.1.logged hs.2).2) (fun s w hs _ => hs.1.logged hs.2) (fun s n rx w hs _ => hs.1.logged hs.2)
    (fun s rx w hs _ => hs.1.logged hs.2) (fun tx tag => ?_) fun n s hs => hs.logged (.returned n)
  refine abandon_rule (B := fun _ => False) (fun s e w hs _ => hs.2) (fun s k rx w hs _ _ => hs) ?_ fun s hs => hs.elim
  exact fun s k rx w hs _ _ hin => absurd (hs.1.symm.trans hin) (by decide)

theorem within_request {nextTag : Client W UInt16}
    (htag : Triple I.Within nextTag (fun _ => I.Within) fun _ s => I.In s.log) {m : TMsg}
    (hm : ∀ tag, (Event.send (m.frame tag)).Nested) (parse : Mem → UInt32 → Except Int32 α) :
    Triple I.Within (p9Request (v9pTransactAt L 0) nextTag m parse) (fun _ => I.Within) fun _ s => I.In s.log := by
  refine request_rule (htag.post fun tag s hs => ?_) I.within_transact fun _ _ hs => hs
  exact ⟨hs, (loaded_write m tag s).symm ▸ hm tag⟩

theorem reset_keeps :
    Triple (fun s => s.h.inReset = false ∧ I.In s.log) (v9pReset L (v9pTransactAt L 0)) (fun _ => I.Between)
      fun _ s => I.In s.log := by
  refine reset_rule (A := I.Within) (C := I.Within) (D := I.Within) (G := I.Within) (Z := fun _ => I.Within)
    (fun s hs => ⟨hs.1, rfl, hs.2⟩) (fun s w hs _ => hs) (fun s w hs _ => hs) ?_ (fun root => ?_)
    (fun s pool w hs _ _ => Within.logged (s := s.pooled pool w) hs .newPool) (fun s hs _ => hs)
    fun ok s hs => ⟨rfl, I.reset ⟨.reset ok, { s.h with inReset := false }, s.w⟩ rfl hs.2⟩
  · refine (I.within_request (fun _ hs => hs) .version _).post fun r s hs => ?_
    cases r <;> exact hs
  · refine ((I.within_request (fun _ hs => hs) (.attach root) _).pre fun s hs => hs.2).post fun r s hs => ?_
    cases r <;> exact hs

/-- A transaction keeps the invariant when its message may be sent. -/
theorem transact_keeps (txSize : Nat) :
    Triple (fun s => s.h.inReset = false ∧ I.Out s.h.msize (s.sent txSize).log) (v9pTransact L txSize)
      (fun _ => I.Between) fun _ s => I.In s.log := by
  refine transact_rule (R := fun _ => I.Between) (T := fun _ _ => I.Between) (fun s e w hs _ => I.out_in hs.2)
    (fun s w hs _ => hs) (fun s n rx w hs _ => hs) (fun s rx w hs _ => hs) (fun tx tag => ?_)
    fun n s hs => ⟨hs.1, I.returned ⟨.returned n, s.h, s.w⟩ rfl hs.2⟩
  refine abandon_rule (fun s e w hs _ => I.out_in hs.2) (fun s k rx w hs _ _ => hs) ?_
    (I.reset_keeps.post fun _ _ hs => hs)
  exact fun s k rx w hs _ _ _ => ⟨hs.1, I.escalate rfl hs.2⟩

theorem request_keeps (m : TMsg) (parse : Mem → UInt32 → Except Int32 α) :
    Triple (fun s => s.h.inReset = false ∧
        ∀ tag (mo : Moment W), mo.event = .send (m.frame tag) → mo.h.msize = s.h.msize → mo.h.inReset = false →
          I.Out s.h.msize (mo :: s.log))
      (p9Request (v9pTransact L) p9NextTag m parse) (fun _ => I.Between) fun _ s => I.In s.log := by
  refine request_rule (fun s hs => ?_) (I.transact_keeps _) fun _ _ hs => hs
  refine ⟨hs.1, hs.2 s.h.nextTag _ ?_ rfl hs.1⟩
  exact congrArg Event.send (loaded_write m s.h.nextTag s.tagged)

end LogInv

/-! ## Depth -/

section Depth

/-- `x` and `y` do the same inside a reset, and do not leave it. -/
def SameInReset (x y : Client W α) : Prop :=
  ∀ s : St W, s.h.inReset = true → x s = y s ∧ (finalState (x s)).h.inReset = true

theorem SameInReset.bind {x y : Client W α} {f g : α → Client W β} (hx : SameInReset x y)
    (hf : ∀ a, SameInReset (f a) (g a)) : SameInReset (x >>= f) (y >>= g) := by
  intro s hs
  obtain ⟨heq, hin⟩ := hx s hs
  cases hr : x s with
  | ok a s' =>
    rw [hr] at hin
    rw [run_bind_ok hr, run_bind_ok (heq ▸ hr)]
    exact hf a s' hin
  | error e s' =>
    rw [hr] at hin
    rw [run_bind_error hr, run_bind_error (heq ▸ hr)]
    exact ⟨rfl, hin⟩

theorem same_pure (a : α) : SameInReset (pure a : Client W α) (pure a) := fun _ hs => ⟨rfl, hs⟩

theorem same_handler : SameInReset (handler : Client W Handler) handler := fun _ hs => ⟨rfl, hs⟩

theorem same_record (e : Event) : SameInReset (record e : Client W Unit) (record e) := fun _ hs => ⟨rfl, hs⟩

theorem same_modifyHandler_bind {f : Handler → Handler} {g g' : Unit → Client W α}
    (hf : ∀ h, (f h).inReset = h.inReset) (hg : SameInReset (g ()) (g' ())) :
    SameInReset (modifyHandler f >>= g) (modifyHandler f >>= g') := by
  intro s hs
  rw [modifyHandler_bind, modifyHandler_bind]
  exact hg _ ((hf s.h).trans hs)

theorem same_onLink (x : StateM W α) : SameInReset (onLink x) (onLink x) := fun _ hs => ⟨rfl, hs⟩

theorem same_tryLink (x : EStateM Fault W α) : SameInReset (tryLink x) (tryLink x) := by
  intro s hs
  refine ⟨rfl, ?_⟩
  unfold tryLink
  cases x s.w <;> exact hs

theorem same_nextTag : SameInReset (p9NextTag : Client W UInt16) p9NextTag :=
  same_handler.bind fun _ => same_modifyHandler_bind (fun _ => rfl) (same_pure _)

variable (L : Link W)

theorem same_abandon (reset reset' : Client W Bool) (tx : List UInt8) (tag : UInt16) :
    SameInReset (abandon L reset tx tag) (abandon L reset' tx tag) := by
  refine same_nextTag.bind fun _ s hs => ?_
  rw [handler_bind, handler_bind]
  refine (same_tryLink _).bind (fun _ => ?_) s hs
  refine same_modifyHandler_bind (fun _ => rfl) ?_
  have hno : ∀ k : Nat, ¬ (k < 2 ∧ s.h.inReset = false) := fun k h => by rw [hs] at h; exact absurd h.2 (by decide)
  rw [if_neg (hno _), if_neg (hno _)]
  exact same_pure ()

/-- Inside a reset, `V9P_Transact` does not start another one. -/
theorem same_transactWith (reset reset' : Client W Bool) (txSize : Nat) :
    SameInReset (v9pTransactWith L reset txSize) (v9pTransactWith L reset' txSize) := by
  have hfinish : ∀ n, SameInReset (finish n : Client W UInt32) (finish n) :=
    fun n => (same_record _).bind fun _ => same_pure n
  refine same_handler.bind fun h => (same_record _).bind fun _ => (same_tryLink _).bind fun polled => ?_
  cases polled with
  | refused => exact hfinish 0
  | reply n rx => exact same_modifyHandler_bind (fun _ => rfl) (hfinish n)
  | timeout rx =>
    exact same_modifyHandler_bind (fun _ => rfl) ((same_abandon L reset reset' _ _).bind fun _ => hfinish 0)

variable {L} {transact transact' : Nat → Client W UInt32} (ht : ∀ n, SameInReset (transact n) (transact' n))

include ht

theorem same_call {nextTag : Client W UInt16} (htag : SameInReset nextTag nextTag) (type : UInt8) (body : Put)
    (parse : Mem → UInt32 → Except Int32 α) :
    SameInReset (p9Call transact type nextTag body parse) (p9Call transact' type nextTag body parse) := by
  refine htag.bind fun tag => same_handler.bind fun h => same_modifyHandler_bind (fun _ => rfl) ?_
  refine (ht _).bind fun n => ?_
  by_cases hn : n = 0
  · rw [if_pos hn]
    exact same_pure _
  · rw [if_neg hn]
    refine same_handler.bind fun h => ?_
    by_cases he : p9CheckError h.rxBuf n ≠ 0
    · rw [if_pos he]; exact same_pure _
    · rw [if_neg he]; exact same_pure _

theorem same_rehandshake : SameInReset (rehandshake L transact) (rehandshake L transact') := by
  refine (same_onLink _).bind fun ok => ?_
  cases ok with
  | false => exact same_pure false
  | true =>
    refine same_modifyHandler_bind (fun _ => rfl) (SameInReset.bind ?_ fun r => ?_)
    · refine (same_call ht (same_pure _) _ _ _).bind fun r => ?_
      cases r with
      | error e => exact same_pure _
      | ok msize => exact same_modifyHandler_bind (fun _ => rfl) (same_pure _)
    · cases r with
      | error e => exact same_pure _
      | ok _ =>
        refine same_handler.bind fun h => (same_call ht same_nextTag _ _ _).bind fun r => ?_
        cases r with
        | error e => exact same_pure _
        | ok _ =>
          refine same_handler.bind fun h => ?_
          cases h.fidPool.isSome with
          | false => exact same_pure _
          | true =>
            exact (same_onLink _).bind fun pool =>
              same_modifyHandler_bind (fun _ => rfl) ((same_record _).bind fun _ => same_pure _)

theorem reset_same : v9pReset L transact = v9pReset L transact' := by
  funext s
  unfold v9pReset
  rw [handler_bind, handler_bind]
  cases hin : s.h.inReset with
  | true => rfl
  | false =>
    rw [if_neg (by decide), if_neg (by decide), modifyHandler_bind, modifyHandler_bind, onLink_bind, onLink_bind]
    generalize hs₁ : (St.mk _ _ _ : St W) = s₁
    have hin₁ : s₁.h.inReset = true := by rw [← hs₁]
    obtain ⟨heq, -⟩ := same_rehandshake (L := L) ht s₁ hin₁
    show EStateM.bind _ _ _ = EStateM.bind _ _ _
    unfold EStateM.bind
    rw [heq]

omit ht in
/-- **A reset never nests: the depth at which the recursion is cut does not matter.** -/
theorem transactAt_succ (L : Link W) (depth : Nat) : v9pTransactAt L (depth + 1) = v9pTransact L := by
  funext txSize
  show v9pTransactWith L (v9pReset L (v9pTransactAt L depth)) txSize =
    v9pTransactWith L (v9pReset L (v9pTransactAt L 0)) txSize
  have hsame : ∀ n, SameInReset (v9pTransactAt L depth n) (v9pTransactAt L 0 n) := by
    intro n
    cases depth with
    | zero => exact same_transactWith L _ _ n
    | succ depth => exact same_transactWith L _ _ n
  rw [reset_same hsame]

end Depth

end Virtio9P
