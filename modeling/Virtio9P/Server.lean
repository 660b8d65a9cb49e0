import Virtio9P.Lib.History
import Virtio9P.Discipline
import Virtio9P.Reply

/-!
# Servers with a fid table

A server keeps a table of fids, and what a request does to the table is fixed by the protocol (`Executes`): a version
handshake drops every fid, a walk may bind its new fid, a clunk releases its fid. `FidServer` is a link with such a
server at its end. A request that times out at the client may or may not have been executed.

`request_fate` says once what a request of the client leaves behind: two entries in the log, the table after the
request, and the pool as it was; or it ends in a reset, which is left to the caller of the rule.
-/

namespace Virtio9P

open Lib

variable {W α F : Type}

/-! ## The table -/

/-- The fids that are bound, and to what. -/
abbrev FidTable (F : Type) := UInt32 → Option F

/-- The request `m` was executed and answered with `n` bytes in `rx`: the table went from `t` to `t'`. A walk that
stops on the way may or may not bind the new fid, but only when it reports a qid. -/
def Executes (m : TMsg) (n : UInt32) (rx : Mem) (t t' : FidTable F) : Prop :=
  match m with
  | .version .. => t' = fun _ => none
  | .attach fid .. => t' = t ∨ ∃ f, t' = Function.update t fid (some f)
  | .walk _ newfid names => t' = t ∨ ∃ f qids, t' = Function.update t newfid (some f) ∧ Carries (.walk qids) n rx ∧
      qids.length ≤ names.length ∧ (qids.length = names.length ∨ qids ≠ [])
  | .clunk fid => t' = Function.update t fid none
  | .lcreate fid .. => t' = t ∨ (t fid ≠ none ∧ ∃ f, t' = Function.update t fid (some f))
  | _ => t' = t

/-- The message `tx` was executed; bytes that are no message change nothing. -/
def Serves (tx : List UInt8) (n : UInt32) (rx : Mem) (t t' : FidTable F) : Prop :=
  match decode tx with
  | some (_, m) => Executes m n rx t t'
  | none => t' = t

/-- The message `tx` was executed, with whatever reply, or it was not. -/
def MayServe (tx : List UInt8) (t t' : FidTable F) : Prop := t' = t ∨ ∃ n rx, Serves tx n rx t t'

/-- A link to a server with a fid table. -/
structure FidServer (L : Link W) (F : Type) where
  table : W → FidTable F
  refused : ∀ {post w w'}, L.poll post w = .ok .refused w' → table w' = table w
  reply : ∀ {post w n rx w'}, L.poll post w = .ok (.reply n rx) w' → Serves post.tx n rx (table w) (table w')
  /-- executed or not: the flush that follows finds it so -/
  timeout : ∀ {post w rx w'}, L.poll post w = .ok (.timeout rx) w' → MayServe post.tx (table w) (table w')
  drain : ∀ {post w d w'}, L.drain post w = .ok d w' → table w' = table w
  cleanup : ∀ w, table (L.cleanupVirtio w) = table w
  init : ∀ w, table (L.initVirtio w).2 = table w
  allocVec : ∀ bytes w, table (L.allocVec bytes w).2 = table w

/-! ## The type of a message is in its bytes -/

theorem yields_body (ty : UInt8) : Yields (decBody ty) fun m => m.type = ty := by
  unfold decBody
  split
  case' h_21 => exact fun _ _ _ h => absurd h (by simp)
  all_goals
    repeat refine Yields.bind fun _ => ?_
    exact yields_pure (UInt8.toNat_inj.mp (Eq.symm ‹ty.toNat = _›))

/-- Whatever the strings of a message are, its bytes are not taken for a message of another type. -/
theorem decode_type {m m' : TMsg} {tag tag' : UInt16} (h : decode (m.frame tag) = some (tag', m')) :
    m'.type = m.type := by
  have hframe : decFrame (m.frame tag) =
      (decBody m.type >>= fun m' => pure (leNat (leBytes 4 (7 + m.body.length)), tag, m')) m.body := by
    unfold decFrame TMsg.frame frame
    rw [(decodes_cut 4 _).then, (decodes_8 m.type).then, (decodes_16 tag).then]
  unfold decode at h
  split at h
  · rename_i size tag₀ m₀ hdec
    split at h
    · cases h
      rw [hframe] at hdec
      obtain ⟨⟨m₁, rest⟩, hbody, hr⟩ := Option.bind_eq_some_iff.mp (show (decBody m.type m.body).bind _ = _ from hdec)
      cases hr
      exact yields_body m.type _ _ _ hbody
    · cases h
  · cases h

/-- The request can bind the fid. -/
def TMsg.Binds (fid : UInt32) : TMsg → Prop
  | .attach fid' .. => fid' = fid
  | .walk _ newfid _ => newfid = fid
  | _ => False

/-- A fid that is not bound stays so, unless a request binds it. -/
theorem executes_unbound {m : TMsg} {n : UInt32} {rx : Mem} {t t' : FidTable F} (h : Executes m n rx t t')
    {fid : UInt32} (hm : ¬ m.Binds fid) (ht : t fid = none) : t' fid = none := by
  cases m with
  | version => rw [show t' = fun _ => none from h]
  | attach fid' =>
    rcases h with rfl | ⟨f, rfl⟩
    · exact ht
    · rw [Function.update_of_ne (fun h => hm h.symm), ht]
  | walk root newfid names =>
    rcases h with rfl | ⟨f, qids, rfl, -⟩
    · exact ht
    · rw [Function.update_of_ne (fun h => hm h.symm), ht]
  | clunk fid' =>
    rw [show t' = Function.update t fid' none from h]
    by_cases heq : fid = fid'
    · rw [heq, Function.update_self]
    · rw [Function.update_of_ne heq, ht]
  | lcreate fid' =>
    rcases h with rfl | ⟨hbound, f, rfl⟩
    · exact ht
    · rw [Function.update_of_ne (by rintro rfl; exact hbound ht), ht]
  | _ =>
    rw [show t' = t from h, ht]

/-- The request can change what the fid stands for. -/
def TMsg.Recasts (fid : UInt32) : TMsg → Prop
  | .lcreate fid' .. => fid' = fid
  | m => m.Binds fid

/-- Other requests leave a fid alone, or release it. -/
theorem executes_kept {m : TMsg} {n : UInt32} {rx : Mem} {t t' : FidTable F} (h : Executes m n rx t t')
    {fid : UInt32} (hm : ¬ m.Recasts fid) : t' fid = t fid ∨ t' fid = none := by
  cases m with
  | version => exact .inr (by rw [show t' = fun _ => none from h])
  | attach fid' =>
    rcases h with rfl | ⟨f, rfl⟩
    · exact .inl rfl
    · exact .inl (Function.update_of_ne (fun h => hm h.symm) ..)
  | walk root newfid names =>
    rcases h with rfl | ⟨f, qids, rfl, -⟩
    · exact .inl rfl
    · exact .inl (Function.update_of_ne (fun h => hm h.symm) ..)
  | clunk fid' =>
    rw [show t' = Function.update t fid' none from h]
    by_cases heq : fid = fid'
    · exact .inr (by rw [heq, Function.update_self])
    · exact .inl (Function.update_of_ne heq ..)
  | lcreate fid' =>
    rcases h with rfl | ⟨-, f, rfl⟩
    · exact .inl rfl
    · exact .inl (Function.update_of_ne (fun h => hm h.symm) ..)
  | _ => exact .inl (by rw [show t' = t from h])

theorem MayServe.kept {tx : List UInt8} {t t' : FidTable F} (h : MayServe tx t t') {fid : UInt32}
    (hm : ∀ tag m, decode tx = some (tag, m) → ¬ m.Recasts fid) : t' fid = t fid ∨ t' fid = none := by
  rcases h with rfl | ⟨n, rx, h⟩
  · exact .inl rfl
  · unfold Serves at h
    cases hd : decode tx with
    | none => rw [hd] at h; exact .inl (by rw [h])
    | some r => rw [hd] at h; exact executes_kept h (hm r.1 r.2 hd)

theorem TMsg.Binds.type {m : TMsg} {fid : UInt32} (h : m.Binds fid) : m.type = p9TWalk ∨ m.type = p9TAttach := by
  cases m with
  | walk => exact .inl rfl
  | attach => exact .inr rfl
  | _ => exact h.elim

theorem Allowed.not_binds {own : Owned} {m m' : TMsg} {tag tag' : UInt16} (h : Allowed own m)
    (hd : decode (m.frame tag) = some (tag', m')) (fid : UInt32) : ¬ m'.Binds fid := by
  intro hb
  have hty := hb.type
  rw [decode_type hd] at hty
  cases m with
  | version | attach | walk | clunk | flush => exact h
  | _ => exact absurd hty (by simp only [TMsg.type]; decide)

/-- After a walk, the new fid is bound only if the reply tells so. -/
theorem executes_walk {root newfid : UInt32} {names : List Str} {n : UInt32} {rx : Mem} {t t' : FidTable F}
    (h : Executes (.walk root newfid names) n rx t t') (hlen : names.length < 65536) (ht : t newfid = none) :
    t' newfid = none ∨ ∃ k, k ≤ names.length ∧ answer parseWalk n rx = .ok (UInt16.ofNat k) ∧
      (k = names.length ∨ k ≠ 0) := by
  rcases h with rfl | ⟨f, qids, -, hcarries, hle, hcount⟩
  · exact .inl ht
  · refine .inr ⟨qids.length, hle, answer_walk hcarries (by omega), hcount.imp_right fun hne => ?_⟩
    rwa [ne_eq, List.length_eq_zero_iff]

theorem MayServe.unbound {tx : List UInt8} {t t' : FidTable F} (h : MayServe tx t t') {fid : UInt32}
    (hm : ∀ tag m, decode tx = some (tag, m) → ¬ m.Binds fid) (ht : t fid = none) : t' fid = none := by
  rcases h with rfl | ⟨n, rx, h⟩
  · exact ht
  · unfold Serves at h
    cases hd : decode tx with
    | none => rw [hd] at h; rw [h, ht]
    | some r => rw [hd] at h; exact executes_unbound h (hm r.1 r.2 hd) ht

/-! ## What a request leaves behind -/

/-- The entry for the message `tx`, sent in the state `s`. -/
def SentIn (s : St W) (tx : List UInt8) (mo : Moment W) : Prop :=
  mo.event = .send tx ∧ mo.w = s.w ∧ mo.h.fidPool = s.h.fidPool

/-- The log of `s₀` with the message `tx` sent. -/
def Sent (tx : List UInt8) (s₀ s : St W) : Prop := ∃ sent, s.log = sent :: s₀.log ∧ SentIn s₀ tx sent

/-- The log of `s₀` with the message `tx` sent and then the event `e`, with which the state is `s`. -/
def SentThen (tx : List UInt8) (e : Event) (s₀ s : St W) : Prop :=
  ∃ mo sent, s.log = mo :: sent :: s₀.log ∧ mo.event = e ∧ mo.w = s.w ∧ mo.h.fidPool = s.h.fidPool ∧ SentIn s₀ tx sent

variable {L : Link W}

/-- The message `tx`, sent in `s₀`, has been executed or not, and nothing else has happened up to `s`. -/
structure Passed (S : FidServer L F) (tx : List UInt8) (s₀ s : St W) : Prop where
  pool : s.h.fidPool = s₀.h.fidPool
  root : s.h.rootFid = s₀.h.rootFid
  inReset : s.h.inReset = s₀.h.inReset
  table : MayServe tx (S.table s₀.w) (S.table s.w)

/-- A request without a reset: sent in `s₀`, it returned `n` in `s`. -/
structure Fate (S : FidServer L F) (tx : List UInt8) (s₀ : St W) (n : UInt32) (s : St W) : Prop
    extends Passed S tx s₀ s where
  log : SentThen tx (.returned n) s₀ s
  answered : n ≠ 0 → Serves tx n s.h.rxBuf (S.table s₀.w) (S.table s.w)

/-- A request that is given up: the transport is about to be reset. -/
structure GivenUp (S : FidServer L F) (tx : List UInt8) (s₀ s : St W) : Prop extends Passed S tx s₀ s where
  log : SentThen tx (.escalate tx) s₀ s
  outside : s.h.inReset = false

theorem Sent.then {tx : List UInt8} {s₀ s : St W} (h : Sent tx s₀ s) (e : Event) : SentThen tx e s₀ (s.logged e) := by
  obtain ⟨sent, hlog, hsent⟩ := h
  exact ⟨⟨e, s.h, s.w⟩, sent, congrArg (_ :: ·) hlog, rfl, rfl, rfl, hsent⟩

theorem Passed.of_table {S : FidServer L F} {tx : List UInt8} {s₀ s : St W} (h : Passed S tx s₀ s) {s' : St W}
    (hpool : s'.h.fidPool = s.h.fidPool) (hroot : s'.h.rootFid = s.h.rootFid) (hin : s'.h.inReset = s.h.inReset)
    (htable : S.table s'.w = S.table s.w) : Passed S tx s₀ s' :=
  ⟨hpool.trans h.pool, hroot.trans h.root, hin.trans h.inReset, htable ▸ h.table⟩

/-- What a call of `V9P_Transact` ends with. -/
theorem transact_fate (S : FidServer L F) {reset : Client W Bool} {txSize : Nat} (s₀ : St W) {Z : St W → Prop}
    {E : Fault → St W → Prop} (hfault : ∀ e s, Sent (s₀.post txSize).tx s₀ s → E e s)
    (hreset : Triple (GivenUp S (s₀.post txSize).tx s₀) reset (fun _ => Z) E) :
    Triple (· = s₀) (v9pTransactWith L reset txSize)
      (fun n s => Fate S (s₀.post txSize).tx s₀ n s ∨ n = 0 ∧ ∃ s', Z s' ∧ s = s'.logged (.returned 0)) E := by
  have hsent : ∀ w, Sent (s₀.post txSize).tx s₀ { s₀.sent txSize with w := w } :=
    fun w => ⟨_, rfl, rfl, rfl, rfl⟩
  let Mid : St W → Prop := fun s => Passed S (s₀.post txSize).tx s₀ s ∧ Sent (s₀.post txSize).tx s₀ s
  refine transact_rule
    (R := fun n s =>
      (Mid s ∧ (n ≠ 0 → Serves (s₀.post txSize).tx n s.h.rxBuf (S.table s₀.w) (S.table s.w))) ∨ n = 0 ∧ Z s)
    (T := fun tx _ s => tx = (s₀.post txSize).tx ∧ Mid s) ?_ ?_ ?_ ?_ ?_ ?_
  · rintro s e w rfl -
    exact hfault e _ (hsent w)
  · rintro s w rfl hpoll
    exact .inl ⟨⟨⟨rfl, rfl, rfl, .inl (S.refused hpoll)⟩, hsent w⟩, fun h => absurd rfl h⟩
  · rintro s n rx w rfl hpoll
    have hserves := S.reply hpoll
    exact .inl ⟨⟨⟨rfl, rfl, rfl, .inr ⟨n, rx, hserves⟩⟩, hsent w⟩, fun _ => hserves⟩
  · rintro s rx w rfl hpoll
    exact ⟨rfl, ⟨rfl, rfl, rfl, S.timeout hpoll⟩, hsent w⟩
  · intro tx tag
    refine abandon_rule (B := GivenUp S (s₀.post txSize).tx s₀) ?_ ?_ ?_ ?_
    · rintro s e w ⟨-, -, sent, hlog, hs⟩ -
      exact hfault e _ ⟨sent, hlog, hs⟩
    · rintro s k rx w ⟨-, hmid, sent, hlog, hs⟩ hdrain -
      exact .inl ⟨⟨hmid.of_table rfl rfl rfl (S.drain hdrain), sent, hlog, hs⟩, fun h => absurd rfl h⟩
    · rintro s k rx w ⟨rfl, hmid, hlog⟩ hdrain - hin
      exact ⟨hmid.of_table rfl rfl rfl (S.drain hdrain), Sent.then (s := s.tagged.received w rx) hlog _, hin⟩
    · exact hreset.post fun _ s hs => .inr ⟨rfl, hs⟩
  · rintro n s (⟨⟨hmid, hlog⟩, hserves⟩ | ⟨hn, hs⟩)
    · exact .inl ⟨hmid.of_table rfl rfl rfl rfl, hlog.then _, hserves⟩
    · subst hn
      exact .inr ⟨rfl, s, hs, rfl⟩

/-- A source of tags that touches nothing else. -/
def OnlyTags (nextTag : Client W UInt16) : Prop :=
  ∀ s, ∃ tag t, nextTag s = .ok tag { s with h := { s.h with nextTag := t } }

theorem onlyTags_next : OnlyTags (p9NextTag : Client W UInt16) := fun _ => ⟨_, _, rfl⟩

theorem onlyTags_noTag : OnlyTags (pure p9NoTag : Client W UInt16) := fun s => ⟨_, s.h.nextTag, rfl⟩

/-- **What a request ends with**: its fate, or the return after a reset. -/
theorem request_fate (S : FidServer L F) {reset : Client W Bool} {nextTag : Client W UInt16} (htag : OnlyTags nextTag)
    (m : TMsg) (parse : Mem → UInt32 → Except Int32 α) {s₀ : St W} {Z : St W → Prop} {E : Fault → St W → Prop}
    (hfault : ∀ tag e s, Sent (m.frame tag) s₀ s → E e s)
    (hreset : ∀ tag, Triple (GivenUp S (m.frame tag) s₀) reset (fun _ => Z) E) :
    Triple (· = s₀) (p9Request (v9pTransactWith L reset) nextTag m parse)
      (fun r s => (∃ tag n, Fate S (m.frame tag) s₀ n s ∧ r = resultOf parse n s.h.rxBuf) ∨
        r = .error (-5) ∧ ∃ s', Z s' ∧ s = s'.logged (.returned 0)) E := by
  obtain ⟨tag, t, hs₀⟩ := htag s₀
  let s₁ : St W := { s₀ with h := { s₀.h with nextTag := t, txBuf := s₀.h.txBuf.write 0 (m.frame tag) } }
  have htx : (s₁.post (7 + m.body.length)).tx = m.frame tag := loaded_write m tag s₀
  refine request_rule (S := (· = s₁))
    (R := fun n s => Fate S (m.frame tag) s₀ n s ∨ n = 0 ∧ ∃ s', Z s' ∧ s = s'.logged (.returned 0))
    (by rintro s rfl; rw [hs₀]) ((transact_fate S s₁ (Z := Z) ?_ ?_).post ?_) ?_
  · rw [htx]
    exact hfault tag
  · rw [htx]
    exact (hreset tag).pre fun s h => ⟨⟨h.pool, h.root, h.inReset, h.table⟩, h.log, h.outside⟩
  · rw [htx]
    exact fun n s h => h.imp_left fun h => ⟨⟨h.pool, h.root, h.inReset, h.table⟩, h.log, h.answered⟩
  · rintro n s (h | ⟨rfl, h⟩)
    · exact .inl ⟨tag, n, h, rfl⟩
    · exact .inr ⟨rfl, h⟩

/-! ## A scripted server -/

/-- What becomes of a request: it is executed and answered; it is dropped, and so is the flush that follows, with both
chains returned; it is executed, and its reply is lost in the same way; or nothing comes back any more. -/
inductive Turn where
  | answer
  | drop
  | mute
  | stick
  deriving DecidableEq

/-- A server that binds fids to paths, with a script of what becomes of the requests. -/
structure Scripted where
  fids : List (UInt32 × List Str)
  turns : List Turn
  /-- the number of chains that come back to a flush -/
  returned : Nat

namespace Scripted

/-- Some qid. -/
def qid : P9Qid := ⟨0, 0, 0⟩

/-- The reply to a request, and the fids after it. -/
def serve (fids : List (UInt32 × List Str)) : TMsg → RMsg × List (UInt32 × List Str)
  | .version msize ver => (.version msize ver, [])
  | .attach fid .. => (.attach qid, (fid, []) :: fids)
  | .walk fid newfid names =>
    match fids.lookup fid with
    | some path =>
      if names.length ≤ 16 then (.walk (names.map fun _ => qid), (newfid, path ++ names) :: fids)
      else (.lerror 36, fids)
    | none => (.lerror 9, fids)
  | .clunk fid => (.clunk, fids.filter fun p => p.1 ≠ fid)
  | .lopen .. => (.lopen qid 0, fids)
  | .read .. => (.read [], fids)
  | _ => (.lerror 95, fids)

/-- The reply to the bytes of a request. -/
def serveBytes (fids : List (UInt32 × List Str)) (tx : List UInt8) : RMsg × List (UInt32 × List Str) :=
  match decode tx with
  | some (_, m) => serve fids m
  | none => (.lerror 71, fids)

/-- The link to it. -/
def link : Link Scripted where
  poll := fun post w =>
    let served := serveBytes w.fids post.tx
    match w.turns with
    | .drop :: turns => .ok (.timeout post.rxBuf) { w with turns := turns, returned := 2 }
    | .mute :: turns => .ok (.timeout post.rxBuf) ⟨served.2, turns, 2⟩
    | .stick :: turns => .ok (.timeout post.rxBuf) { w with turns := turns, returned := 0 }
    | _ => .ok (served.1.polled post.expectedTag post.rxBuf) { w with fids := served.2, turns := w.turns.tail }
  drain := fun post w => .ok (w.returned, post.rxBuf) w
  cleanupVirtio := id
  initVirtio := pure true
  allocVec := fun _ => pure true

theorem lookup_cons (fids : List (UInt32 × List Str)) (fid : UInt32) (path : List Str) :
    (fun g => ((fid, path) :: fids).lookup g) = Function.update (fun g => fids.lookup g) fid (some path) := by
  funext g
  by_cases h : g = fid
  · rw [h, Function.update_self, List.lookup_cons_self]
  · rw [Function.update_of_ne h, List.lookup_cons, beq_false_of_ne h]

theorem lookup_filter (fids : List (UInt32 × List Str)) (fid : UInt32) :
    (fun g => (fids.filter fun p => p.1 ≠ fid).lookup g) = Function.update (fun g => fids.lookup g) fid none := by
  induction fids with
  | nil =>
    funext g
    by_cases h : g = fid
    · rw [h, Function.update_self]; rfl
    · rw [Function.update_of_ne h]; rfl
  | cons p fids ih =>
    obtain ⟨a, path⟩ := p
    by_cases ha : a = fid
    · subst ha
      rw [List.filter_cons_of_neg (by simp), ih, lookup_cons, Function.update_idem]
    · rw [List.filter_cons_of_pos (by simpa using ha), lookup_cons, ih, lookup_cons, Function.update_comm ha]

theorem executes_serve (fids : List (UInt32 × List Str)) (m : TMsg) (tag : UInt16) (rx : Mem) :
    Executes m (UInt32.ofNat (7 + (serve fids m).1.body.length)) (rx.write 0 ((serve fids m).1.frame tag))
      (fun g => fids.lookup g) fun g => (serve fids m).2.lookup g := by
  cases m with
  | version msize ver => rfl
  | attach fid => exact .inr ⟨[], lookup_cons fids fid []⟩
  | clunk fid => exact lookup_filter fids fid
  | walk fid newfid names =>
    cases hpath : fids.lookup fid with
    | none =>
      rw [show serve fids (.walk fid newfid names) = (.lerror 9, fids) by rw [serve, hpath]]
      exact .inl rfl
    | some path =>
      by_cases hlen : names.length ≤ 16
      · rw [show serve fids (.walk fid newfid names) =
          (.walk (names.map fun _ => qid), (newfid, path ++ names) :: fids) by simp only [serve, hpath, hlen, if_true]]
        have hcount : (names.map fun _ => qid).length = names.length := List.length_map ..
        refine .inr ⟨path ++ names, names.map fun _ => qid, lookup_cons .., carries_write ?_ tag rx, hcount.le,
          .inl hcount⟩
        rw [length_qids, hcount]
        omega
      · rw [show serve fids (.walk fid newfid names) = (.lerror 36, fids) by simp only [serve, hpath, hlen, if_false]]
        exact .inl rfl
  | lcreate => exact .inl rfl
  | _ => rfl

theorem serves_serveBytes (fids : List (UInt32 × List Str)) (tx : List UInt8) (tag : UInt16) (rx : Mem) :
    Serves tx (UInt32.ofNat (7 + (serveBytes fids tx).1.body.length)) (rx.write 0 ((serveBytes fids tx).1.frame tag))
      (fun g => fids.lookup g) fun g => (serveBytes fids tx).2.lookup g := by
  unfold Serves serveBytes
  cases decode tx with
  | none => rfl
  | some r => exact executes_serve fids r.2 tag rx

/-- The scripted server keeps a fid table. -/
def server : FidServer link (List Str) where
  table := fun w fid => w.fids.lookup fid
  refused := by
    intro post w w' h
    unfold link at h
    rcases hturns : w.turns with _ | ⟨_ | _ | _ | _, turns⟩ <;> simp only [hturns] at h <;> cases h
  reply := by
    intro post w n rx w' h
    unfold link at h
    rcases hturns : w.turns with _ | ⟨_ | _ | _ | _, turns⟩ <;> simp only [hturns] at h <;> cases h <;>
      exact serves_serveBytes ..
  timeout := by
    intro post w rx w' h
    unfold link at h
    rcases hturns : w.turns with _ | ⟨_ | _ | _ | _, turns⟩ <;> simp only [hturns] at h <;> cases h
    · exact .inl rfl
    · exact .inr ⟨_, _, serves_serveBytes w.fids post.tx 0 post.rxBuf⟩
    · exact .inl rfl
  drain := by
    rintro post w d w' ⟨⟩
    rfl
  cleanup := fun _ => rfl
  init := fun _ => rfl
  allocVec := fun _ _ => rfl

end Scripted

/-! ## Sessions -/

/-- A message is given up and the transport is reset. -/
def Event.isEscalate : Event → Bool
  | .escalate _ => true
  | _ => false

/-- Nothing was reset. -/
abbrev NoReset (log : List (Moment W)) : Prop := Always (fun mo _ => mo.event.isEscalate = false) log

/-- The counter of the pool never ran over. -/
abbrev NoWrap (log : List (Moment W)) : Prop := Always (fun mo _ => ∀ pool ∈ mo.h.fidPool, pool.nextFid ≠ 0) log

/-- A session: mount, and the callbacks if that succeeds. -/
def session (L : Link W) (cs : List Callback) : Client W Unit := do
  if ← mount L then
    let _ ← run L [] cs

/-- The state in which a session ends, from the start of the handler. -/
@[irreducible] def sessionEnd (L : Link W) (cs : List Callback) (txBuf rxBuf : Mem) (w : W) : St W :=
  finalState (session L cs ⟨startHandler txBuf rxBuf, w, []⟩)

/-- A session with the scripted server. -/
def Scripted.session (cs : List Callback) (turns : List Turn) : St Scripted :=
  sessionEnd Scripted.link cs (fun _ => 0) (fun _ => 0) ⟨[], turns, 0⟩

end Virtio9P
