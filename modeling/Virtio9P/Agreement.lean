import Virtio9P.Server

/-!
# Client and server agree on the free fids

As long as nothing is reset, a fid that the pool can hand out should not be bound at the server: a `Twalk` to a bound
fid fails, or moves a fid that somebody holds. `Agree` states it for every moment of a session. `walk_to` keeps to it,
since it marks a fid as an orphan when its walk got no reply. The other callers do not look at what became of their
`Tclunk` and `Tlcreate`, and free the fid. So the agreement lasts while those two are answered (`fids_agree`), and one
`Tclunk` that is lost ends it (`clunk_lost`).
-/

namespace Virtio9P

open Lib

variable {W α F : Type} {L : Link W}

/-! ## The statement -/

/-- The request walks, creates or clunks the fid. -/
def TMsg.Concerns (fid : UInt32) : TMsg → Prop
  | .walk _ newfid _ => newfid = fid
  | .lcreate fid' .. => fid' = fid
  | .clunk fid' => fid' = fid
  | _ => False

/-- The request that got no reply, if `ret` is the return of `V9P_Transact` after `sent`. -/
def lostWith (ret sent : Moment W) : List TMsg :=
  match ret.event, sent.event with
  | .returned n, .send tx => if n = 0 then ((decode tx).map Prod.snd).toList else []
  | _, _ => []

/-- The requests for which `V9P_Transact` returned `0`. -/
def lost : List (Moment W) → List TMsg
  | [] => []
  | [_] => []
  | ret :: sent :: past => lostWith ret sent ++ lost (sent :: past)

/-- No fid that the pool can hand out is bound, the new fid of every walk is unbound, and no fid is freed after one of
its requests got no reply. -/
structure Agree (S : FidServer L F) (mo : Moment W) (past : List (Moment W)) : Prop where
  unbound : ∀ pool fid, mo.h.fidPool = some pool → pool.Available fid → S.table mo.w fid = none
  newfid : ∀ tx tag fid newfid names, mo.event = .send tx → decode tx = some (tag, .walk fid newfid names) →
    S.table mo.w newfid = none
  spared : ∀ fid, mo.event = .free fid → ∀ m ∈ lost past, ¬ m.Concerns fid

/-- Every `Tclunk` and every `Tlcreate` was answered. -/
abbrev Answered (log : List (Moment W)) : Prop := ∀ m ∈ lost log, m.type ≠ p9TClunk ∧ m.type ≠ p9TLCreate

/-! ## The log -/

/-- The sessions in which client and server agree. -/
def Orderly (log : List (Moment W)) : Prop := NoReset log ∧ NoWrap log ∧ Answered log

theorem lost_cons_subset (mo : Moment W) : ∀ log : List (Moment W), lost log ⊆ lost (mo :: log)
  | [] => fun _ h => h
  | _ :: _ => List.subset_append_right ..

theorem lost_cons {mo : Moment W} (he : ∀ n, mo.event ≠ .returned n) :
    ∀ log : List (Moment W), lost (mo :: log) = lost log
  | [] => rfl
  | sent :: past => by
    have hnone : lostWith mo sent = [] := by
      unfold lostWith
      cases hev : mo.event with
      | returned n => exact absurd hev (he n)
      | _ => rfl
    rw [lost, hnone, List.nil_append]

theorem lost_returned {ret sent : Moment W} {n : UInt32} {tx : List UInt8} (hret : ret.event = .returned n)
    (hsent : sent.event = .send tx) (log : List (Moment W)) :
    lost (ret :: sent :: log) = (if n = 0 then ((decode tx).map Prod.snd).toList else []) ++ lost log := by
  rw [lost, lostWith, hret, hsent, lost_cons (by simp [hsent])]

theorem Orderly.tail {mo : Moment W} {log : List (Moment W)} (h : Orderly (mo :: log)) : Orderly log :=
  ⟨h.1.2, h.2.1.2, fun m hm => h.2.2 m (lost_cons_subset mo log hm)⟩

/-- Disorder stays. -/
def disorder : LogInv W :=
  have hcons : ∀ {mo : Moment W} {log}, ¬ Orderly log → ¬ Orderly (mo :: log) := fun h h' => h h'.tail
  { Out := fun _ log => ¬ Orderly log
    In := fun log => ¬ Orderly log
    out_in := fun h => h
    returned := fun _ _ h => hcons h
    escalate := fun _ h => hcons h
    nested := fun _ _ h => hcons h
    reset := fun _ _ h => hcons h }

/-! ## The fids of a callback -/

section Invariant

variable (S : FidServer L F)

/-- No request about the fid got lost. -/
def Spared (log : List (Moment W)) (fid : UInt32) : Prop := ∀ m ∈ lost log, ¬ m.Concerns fid

/-- The fid can be handed out. -/
def Clean (s : St W) (fid : UInt32) : Prop := S.table s.w fid = none ∧ Spared s.log fid

/-- What is known of a fid at each stage. -/
def Fit (s : St W) : UInt32 × Stage → Prop
  | (fid, .drawn) | (fid, .closed) => Clean S s fid
  | (fid, .walked) | (fid, .held) | (fid, .handle) => Spared s.log fid
  | (_, .doubtful) => True

/-- The invariant of an orderly session. -/
structure Good (own : Owned) (s : St W) : Prop where
  outside : s.h.inReset = false
  distinct : (own.map Prod.fst).Nodup
  pool : ∀ {pool}, s.h.fidPool = some pool → pool.nextFid ≠ 0 ∧ pool.InUse (own.map Prod.fst) ∧
    ∀ fid, pool.Available fid → Clean S s fid
  fit : ∀ p ∈ own, Fit S s p
  agreed : Always (Agree S) s.log

/-- The invariant, for as long as the session is orderly. -/
def Agreed (own : Owned) (s : St W) : Prop := Orderly s.log → Good S own s

/-- What is left of it at a fault. -/
def AgreedSoFar (s : St W) : Prop := Orderly s.log → Always (Agree S) s.log

variable {S} {own : Owned} {s s' : St W}

theorem Good.perm {own' : Owned} (h : Good S own s) (hp : own.Perm own') : Good S own' s := by
  refine ⟨h.outside, (hp.map _).nodup_iff.mp h.distinct, fun hpool => ?_,
    fun p hmem => h.fit p (hp.mem_iff.mpr hmem), h.agreed⟩
  obtain ⟨hnext, huse, hclean⟩ := h.pool hpool
  exact ⟨hnext, huse.perm (hp.map _), hclean⟩

/-- A fid reaches another stage. -/
theorem Good.relabel {fid : UInt32} {stage stage' : Stage} (h : Good S ((fid, stage) :: own) s)
    (hfit : Fit S s (fid, stage')) : Good S ((fid, stage') :: own) s := by
  refine ⟨h.outside, h.distinct, h.pool, fun p hmem => ?_, h.agreed⟩
  rcases List.mem_cons.mp hmem with rfl | hmem
  · exact hfit
  · exact h.fit p (List.mem_cons_of_mem _ hmem)

/-- What is known of the fids does not depend on more than the table and the requests that were lost. -/
theorem Clean.of_eq {fid : UInt32} (h : Clean S s fid) (htable : S.table s'.w = S.table s.w)
    (hlost : lost s'.log = lost s.log) : Clean S s' fid :=
  ⟨htable ▸ h.1, fun m hm => h.2 m (hlost ▸ hm)⟩

theorem Fit.of_eq {p : UInt32 × Stage} (h : Fit S s p) (htable : S.table s'.w = S.table s.w)
    (hlost : lost s'.log = lost s.log) : Fit S s' p := by
  obtain ⟨fid, stage⟩ := p
  cases stage with
  | drawn | closed => exact Clean.of_eq h htable hlost
  | walked | held | handle => exact fun m hm => h m (hlost ▸ hm)
  | doubtful => trivial

theorem Fit.spared {fid : UInt32} {stage : Stage} (h : Fit S s (fid, stage)) (hne : stage ≠ .doubtful) :
    Spared s.log fid := by
  cases stage with
  | drawn | closed => exact h.2
  | walked | held | handle => exact h
  | doubtful => exact absurd rfl hne

/-- An entry that only the pool can break. -/
theorem agree_of_pool {mo : Moment W} {past : List (Moment W)} (hsend : ∀ tx, mo.event ≠ .send tx)
    (hfree : ∀ fid, mo.event = .free fid → Spared past fid)
    (hpool : ∀ pool fid, mo.h.fidPool = some pool → pool.Available fid → S.table mo.w fid = none) : Agree S mo past :=
  ⟨hpool, fun tx _ _ _ _ he _ => absurd he (hsend tx), hfree⟩

/-- A good state with another pool and one more entry. -/
theorem Good.pooled {own' : Owned} (h : Good S own s) {pool : FidPool} {w : W} {e : Event}
    (htable : S.table w = S.table s.w) (hnext : pool.nextFid ≠ 0) (huse : pool.InUse (own'.map Prod.fst))
    (hclean : ∀ fid, pool.Available fid → Clean S s fid) (hfit : ∀ p ∈ own', Fit S s p)
    (hret : ∀ n, e ≠ .returned n) (hsend : ∀ tx, e ≠ .send tx) (hfree : ∀ fid, e = .free fid → Spared s.log fid) :
    Good S own' ((s.pooled (some pool) w).logged e) := by
  have hlost : lost ((s.pooled (some pool) w).logged e).log = lost s.log := lost_cons hret s.log
  refine ⟨h.outside, huse.distinct, ?_, fun p hp => (hfit p hp).of_eq htable hlost, agree_of_pool hsend hfree ?_,
    h.agreed⟩
  · rintro pool' ⟨⟩
    exact ⟨hnext, huse, fun fid hfid => (hclean fid hfid).of_eq htable hlost⟩
  rintro pool' fid ⟨⟩ hfid
  show S.table w fid = none
  rw [htable]
  exact (hclean fid hfid).1

theorem agreed_draw (own : Owned) :
    Triple (Agreed S own) drawFid (fun fid => Agreed S ((fid, .drawn) :: own)) fun _ => AgreedSoFar S := by
  refine draw_rule (fun s hs _ hord => (hs hord).agreed) fun s pool hs hpool hord => ?_
  have hg := hs hord.tail
  obtain ⟨hnext, huse, hclean⟩ := hg.pool hpool
  have hwrap : (fidPoolAlloc pool).2.nextFid ≠ 0 := hord.2.1.1 _ rfl
  obtain ⟨huse', havail, hless⟩ := huse.alloc hwrap hnext
  refine hg.pooled rfl hwrap huse' (fun fid hfid => hclean fid (hless fid hfid)) (fun p hp => ?_)
    (by simp) (by simp) (by simp)
  rcases List.mem_cons.mp hp with rfl | hp
  · exact hclean _ havail
  · exact hg.fit p hp

theorem Good.fit_tail {p : UInt32 × Stage} (h : Good S (p :: own) s) : ∀ q ∈ own, Fit S s q :=
  fun q hq => h.fit q (List.mem_cons_of_mem p hq)

theorem agreed_free (own : Owned) (fid : UInt32) (stage : Stage) (hstage : stage = .drawn ∨ stage = .closed) :
    Triple (Agreed S ((fid, stage) :: own)) (freeFid L fid) (fun _ => Agreed S own) fun _ => AgreedSoFar S := by
  refine free_rule (fun s hs _ hord => (hs hord).agreed) fun s pool pool' w hs hpool hfree hord => ?_
  have hg := hs hord.tail
  obtain ⟨hnext, huse, hclean⟩ := hg.pool hpool
  have hfid : Clean S s fid := by
    have hfit := hg.fit (fid, stage) (List.mem_cons_self ..)
    rcases hstage with rfl | rfl <;> exact hfit
  have hkept := fidPoolFree_cases L.allocVec pool fid s.w
  have htable := fidPoolFree_frame S.allocVec pool fid s.w
  rw [hfree] at hkept htable
  obtain ⟨huse', havail⟩ := huse.free hkept.1 hkept.2.2
  refine hg.pooled htable (hkept.1 ▸ hnext) huse' (fun g hg' => ?_) hg.fit_tail (by simp) (by simp) ?_
  · rcases havail g hg' with rfl | hg'
    · exact hfid
    · exact hclean g hg'
  · rintro g ⟨⟩
    exact hfid.2

theorem agreed_orphan (own : Owned) (fid : UInt32) :
    Triple (Agreed S ((fid, .doubtful) :: own)) (orphanFid L fid) (fun _ => Agreed S own) fun _ => AgreedSoFar S := by
  refine orphan_rule (fun s hs _ hord => (hs hord).agreed)
    fun s pool pool' w hs hpool horphan hord => ?_
  have hg := hs hord.tail
  obtain ⟨hnext, huse, hclean⟩ := hg.pool hpool
  have hkept := fidPoolMarkOrphan_kept L.allocVec pool fid s.w
  have htable := fidPoolMarkOrphan_frame S.allocVec pool fid s.w
  rw [horphan] at hkept htable
  refine hg.pooled htable (hkept.1 ▸ hnext) ((huse.sublist (List.sublist_cons_self ..)).same hkept.1 hkept.2)
    (fun g hg' => hclean g ?_) hg.fit_tail (by simp) (by simp) (by simp)
  unfold FidPool.Available at hg' ⊢
  rwa [hkept.1, hkept.2] at hg'

/-- An entry of the callback itself. -/
theorem agreed_record {fid : UInt32} {stage stage' : Stage} {e : Event} (hret : ∀ n, e ≠ .returned n)
    (hsend : ∀ tx, e ≠ .send tx) (hfree : ∀ g, e ≠ .free g)
    (hfit : ∀ s, Fit S s (fid, stage) → Fit S s (fid, stage')) :
    Triple (Agreed S ((fid, stage) :: own)) (record e) (fun _ => Agreed S ((fid, stage') :: own))
      fun _ => AgreedSoFar S := by
  intro s hs hord
  have hg := hs hord.tail
  have hlost : lost (s.logged e).log = lost s.log := lost_cons hret s.log
  have hg' : Good S ((fid, stage) :: own) (s.logged e) := by
    refine ⟨hg.outside, hg.distinct, fun hpool => ?_, fun p hp => (hg.fit p hp).of_eq rfl hlost,
      agree_of_pool hsend (fun g h => absurd h (hfree g)) fun pool g hpool h => ((hg.pool hpool).2.2 g h).1, hg.agreed⟩
    obtain ⟨hnext, huse, hclean⟩ := hg.pool hpool
    exact ⟨hnext, huse, fun g h => (hclean g h).of_eq rfl hlost⟩
  exact hg'.relabel (hfit _ (hg'.fit _ (List.mem_cons_self ..)))

/-- A request that got lost concerns only a fid that it could bind. -/
theorem Orderly.binds {m : TMsg} {log : List (Moment W)} (hord : Orderly log) (hm : m ∈ lost log) {fid : UInt32}
    (hc : m.Concerns fid) : m.Binds fid := by
  obtain ⟨hclunk, hlcreate⟩ := hord.2.2 m hm
  cases m with
  | walk => exact hc
  | clunk => exact absurd rfl hclunk
  | lcreate => exact absurd rfl hlcreate
  | _ => exact hc.elim

/-- The entry of a request that is sent. -/
theorem Good.agree_sent (hg : Good S own s) {tx : List UInt8} {sent : Moment W} (hsent : SentIn s tx sent)
    (hnew : ∀ tag root newfid names, decode tx = some (tag, .walk root newfid names) → S.table s.w newfid = none) :
    Agree S sent s.log := by
  obtain ⟨he, hw, hp⟩ := hsent
  refine ⟨fun pool fid hpool hfid => ?_, fun tx' tag root newfid names he' hd => ?_, fun fid he' => ?_⟩
  · rw [hw]
    exact ((hg.pool (hp.symm.trans hpool)).2.2 fid hfid).1
  · rw [he] at he'
    cases he'
    rw [hw]
    exact hnew tag root newfid names hd
  · rw [he] at he'
    cases he'

/-- A request does not touch what it does not concern. -/
theorem Fate.spared {tx : List UInt8} {n : UInt32} (hf : Fate S tx s n s') {fid : UInt32} (h : Spared s.log fid)
    (hm : ∀ tag m, decode tx = some (tag, m) → m ∈ lost s'.log → ¬ m.Concerns fid) : Spared s'.log fid := by
  obtain ⟨ret, sent, hlog, hret, -, -, hsent, -⟩ := hf.log
  intro m hmem
  have hmem' := hmem
  rw [hlog, lost_returned hret hsent, List.mem_append] at hmem'
  rcases hmem' with hnew | hold
  · split at hnew
    · obtain ⟨⟨tag, m'⟩, hd, rfl⟩ := Option.map_eq_some_iff.mp (Option.mem_toList.mp hnew)
      exact hm tag m' hd hmem
    · exact absurd hnew List.not_mem_nil
  · exact h m hold

/-- A request that binds nothing but fids in doubt keeps the invariant. -/
theorem Good.step {tx : List UInt8} {n : UInt32} (hg : Good S own s) (hf : Fate S tx s n s') (hord : Orderly s'.log)
    (hm : ∀ tag m fid, decode tx = some (tag, m) → m.Binds fid → (fid, .doubtful) ∈ own)
    (hnew : ∀ tag root newfid names, decode tx = some (tag, .walk root newfid names) → S.table s.w newfid = none) :
    Good S own s' := by
  obtain ⟨ret, sent, hlog, hret, hretw, hretp, hsent, hsentw, hsentp⟩ := hf.log
  have hspared : ∀ fid, (fid, .doubtful) ∉ own → Spared s.log fid → Spared s'.log fid := fun fid hfid h =>
    hf.spared h fun tag m hd hmem hc => hfid (hm tag m fid hd (hord.binds hmem hc))
  have hkept : ∀ fid, (fid, .doubtful) ∉ own → Clean S s fid → Clean S s' fid := fun fid hfid h =>
    ⟨hf.table.unbound (fun tag m hd hb => hfid (hm tag m fid hd hb)) h.1, hspared fid hfid h.2⟩
  have hpool : ∀ {pool}, s'.h.fidPool = some pool → ∀ fid, pool.Available fid → Clean S s' fid := by
    intro pool hpool fid hfid
    obtain ⟨-, huse, hclean⟩ := hg.pool (hf.pool.symm.trans hpool)
    exact hkept fid (fun hmem => huse.not_available (List.mem_map_of_mem hmem) hfid) (hclean fid hfid)
  refine ⟨hf.inReset.trans hg.outside, hg.distinct, fun h => ?_, ?_, ?_⟩
  · obtain ⟨hnext, huse, -⟩ := hg.pool (hf.pool.symm.trans h)
    exact ⟨hnext, huse, hpool h⟩
  · rintro ⟨fid, stage⟩ hp
    have hfit := hg.fit _ hp
    by_cases hstage : stage = .doubtful
    · rw [hstage]
      trivial
    have hfid : (fid, .doubtful) ∉ own := fun hmem => hstage (congrArg Prod.snd
      (List.inj_on_of_nodup_map hg.distinct hp hmem rfl))
    cases stage with
    | drawn | closed => exact hkept fid hfid hfit
    | walked | held | handle => exact hspared fid hfid hfit
    | doubtful => trivial
  · rw [hlog]
    refine ⟨agree_of_pool (by simp [hret]) (by simp [hret]) ?_,
      hg.agree_sent ⟨hsent, hsentw, hsentp⟩ hnew, hg.agreed⟩
    intro pool fid hmo hfid
    rw [hretw]
    exact (hpool (hretp.symm.trans hmo) fid hfid).1

theorem disorder_of_escalate {mo : Moment W} {tx : List UInt8} (he : mo.event = .escalate tx) (log : List (Moment W)) :
    ¬ Orderly (mo :: log) := by
  intro h
  have hno : mo.event.isEscalate = false := h.1.1
  rw [he] at hno
  cases hno

/-- **A request keeps the invariant**, and leaves its fate behind. -/
theorem agreed_request {own₀ : Owned} (own : Owned) {P : St W → Prop} {nextTag : Client W UInt16}
    (htag : OnlyTags nextTag)
    {m : TMsg} (parse : Mem → UInt32 → Except Int32 α) (hweak : ∀ s, Good S own₀ s → Good S own s)
    (hm : ∀ s tag tag' m' fid, P s → decode (m.frame tag) = some (tag', m') → m'.Binds fid → (fid, .doubtful) ∈ own)
    (hnew : ∀ s tag tag' root newfid names, Good S own₀ s →
      decode (m.frame tag) = some (tag', .walk root newfid names) → S.table s.w newfid = none) :
    Triple (fun s => Orderly s.log → P s ∧ Good S own₀ s) (p9Request (v9pTransact L) nextTag m parse)
      (fun r s => Orderly s.log → Good S own s ∧ ∃ s₀ tag n, P s₀ ∧ Good S own₀ s₀ ∧ Fate S (m.frame tag) s₀ n s ∧
        r = resultOf parse n s.h.rxBuf) fun _ => AgreedSoFar S := by
  intro s₀ hs₀
  have hfault : ∀ tag (e : Fault) s, Sent (m.frame tag) s₀ s → AgreedSoFar S s := by
    rintro tag e s ⟨sent, hlog, hsent⟩ hord
    rw [hlog] at hord ⊢
    have hg := (hs₀ hord.tail).2
    exact ⟨hg.agree_sent hsent fun tag' root newfid names hd => hnew s₀ tag tag' root newfid names hg hd, hg.agreed⟩
  have hreset : ∀ tag, Triple (GivenUp S (m.frame tag) s₀) (v9pReset L (v9pTransactAt L 0)) (fun _ s => ¬ Orderly s.log)
      fun _ => AgreedSoFar S := by
    refine fun tag => disorder.reset_keeps.conseq (fun s h => ⟨h.outside, ?_⟩) (fun _ s h => h.2)
      fun _ s h hord => absurd hord h
    obtain ⟨esc, sent, hlog, hesc, -⟩ := h.log
    rw [hlog]
    exact disorder_of_escalate hesc _
  refine (request_fate S htag m parse hfault hreset).post ?_ s₀ rfl
  rintro r s (⟨tag, n, hf, hr⟩ | ⟨-, s', hz, rfl⟩) hord
  · obtain ⟨hP, hg⟩ := hs₀ (by
      obtain ⟨ret, sent, hlog, -⟩ := hf.log
      rw [hlog] at hord
      exact hord.tail.tail)
    exact ⟨(hweak s₀ hg).step hf hord (fun tag' m' fid => hm s₀ tag tag' m' fid hP)
      fun tag' root newfid names => hnew s₀ tag tag' root newfid names hg, s₀, tag, n, hP, hg, hf, hr⟩
  · exact absurd hord.tail hz

theorem agreed_allowed (own : Owned) (m : TMsg) (parse : Mem → UInt32 → Except Int32 α) (hm : Allowed own m) :
    Triple (Agreed S own) (p9Request (v9pTransact L) p9NextTag m parse) (fun _ => Agreed S own)
      fun _ => AgreedSoFar S := by
  refine ((agreed_request own onlyTags_next parse (fun _ h => h)
    (fun _ tag tag' m' fid _ hd hb => absurd hb (hm.not_binds hd fid)) ?_).pre fun s hs hord => ⟨trivial, hs hord⟩).post
    fun r s h hord => (h hord).1
  exact fun s tag tag' root newfid names _ hd => absurd rfl (hm.not_binds hd newfid)

theorem Fate.lost_eq {tx : List UInt8} {n : UInt32} (hf : Fate S tx s n s') (hn : n ≠ 0) :
    lost s'.log = lost s.log := by
  obtain ⟨ret, sent, hlog, hret, -, -, hsent, -⟩ := hf.log
  rw [hlog, lost_returned hret hsent, if_neg hn]
  rfl

/-- In an orderly session, a `Tclunk` is answered. -/
theorem Fate.clunk_answered {fid : UInt32} {tag : UInt16} {n : UInt32} (hf : Fate S ((TMsg.clunk fid).frame tag) s n s')
    (hord : Orderly s'.log) : n ≠ 0 := by
  rintro rfl
  obtain ⟨ret, sent, hlog, hret, -, -, hsent, -⟩ := hf.log
  refine (hord.2.2 (.clunk fid) ?_).1 rfl
  rw [hlog, lost_returned hret hsent, if_pos rfl, decode_clunk]
  exact List.mem_append_left _ (List.mem_singleton_self _)

/-- In an orderly session, a `Tclunk` releases its fid. -/
theorem agreed_release (own : Owned) (fid : UInt32) :
    Triple (Agreed S own) (p9Clunk (v9pTransact L) fid)
      (fun _ s => Orderly s.log → Good S own s ∧ S.table s.w fid = none) fun _ => AgreedSoFar S := by
  rw [p9Clunk_eq]
  refine ((agreed_request own onlyTags_next _ (fun _ h => h) ?_ ?_).pre
    fun s hs hord => ⟨trivial, hs hord⟩).post ?_
  · intro s tag tag' m' g _ hd hb
    rw [decode_clunk] at hd
    cases hd
    exact hb.elim
  · intro s tag tag' root newfid names _ hd
    rw [decode_clunk] at hd
    cases hd
  · intro r s h hord
    obtain ⟨hg, s₀, tag, n, -, -, hf, -⟩ := h hord
    have hserved := hf.answered (hf.clunk_answered hord)
    unfold Serves at hserved
    rw [decode_clunk] at hserved
    refine ⟨hg, ?_⟩
    rw [show S.table s.w = Function.update (S.table s₀.w) fid none from hserved, Function.update_self]

theorem agreed_clunk (own : Owned) (fid : UInt32) (stage : Stage) (hstage : stage ≠ .doubtful) :
    Triple (Agreed S ((fid, stage) :: own)) (p9Clunk (v9pTransact L) fid) (fun _ => Agreed S ((fid, .closed) :: own))
      fun _ => AgreedSoFar S := by
  refine (agreed_release _ fid).post fun _ s h hord => ?_
  obtain ⟨hg, hnone⟩ := h hord
  exact hg.relabel ⟨hnone, (hg.fit _ (List.mem_cons_self ..)).spared hstage⟩

/-- What is known after the reply to a walk of a fresh fid. -/
theorem walk_answered {root fid : UInt32} {names : List Str} {tag : UInt16} {n : UInt32} (hlen : names.length < 65536)
    (hdec : decode ((TMsg.walk root fid names).frame tag) = some (tag, .walk root fid names))
    (hg : Good S ((fid, .drawn) :: own) s) (hf : Fate S ((TMsg.walk root fid names).frame tag) s n s') (hn : n ≠ 0) :
    Spared s'.log fid ∧ (S.table s'.w fid = none ∨ ∃ k, k ≤ names.length ∧
      resultOf parseWalk n s'.h.rxBuf = .ok (UInt16.ofNat k) ∧ (k = names.length ∨ k ≠ 0)) := by
  have hfit := hg.fit _ (List.mem_cons_self ..)
  have hserved := hf.answered hn
  unfold Serves at hserved
  rw [hdec] at hserved
  refine ⟨by unfold Spared; rw [hf.lost_eq hn]; exact hfit.2, ?_⟩
  unfold resultOf
  rw [if_neg hn]
  exact executes_walk hserved hlen hfit.1

theorem agreed_walkEnd (own : Owned) (root fid : UInt32) {names : List Str} (hlen : names.length < 65536)
    (hdec : ∀ tag, decode ((TMsg.walk root fid names).frame tag) = some (tag, .walk root fid names))
    (r : Except Int32 UInt16) :
    Triple (fun s => Orderly s.log → Good S ((fid, .doubtful) :: own) s ∧ ∃ s₀ tag n,
        Good S ((fid, .drawn) :: own) s₀ ∧ Fate S ((TMsg.walk root fid names).frame tag) s₀ n s ∧
        r = resultOf parseWalk n s.h.rxBuf)
      (walkEnd (v9pTransact L) fid names.length r) (fun r => Agreed S ((fid, walkStage r) :: own))
      fun _ => AgreedSoFar S := by
  cases r with
  | error e =>
    refine Triple.pure fun s h hord => ?_
    obtain ⟨hg, s₀, tag, n, hg₀, hf, hr⟩ := h hord
    by_cases he : e = -5
    · rw [walkStage, if_pos he]
      exact hg
    rw [walkStage, if_neg he]
    have hn : n ≠ 0 := by
      rintro rfl
      exact he (by cases hr; rfl)
    obtain ⟨hspared, hnone | ⟨k, -, hk, -⟩⟩ := walk_answered hlen (hdec tag) hg₀ hf hn
    · exact hg.relabel ⟨hnone, hspared⟩
    · rw [hk] at hr
      cases hr
  | ok nwqid =>
    have hreplied : ∀ s₀ (s : St W) tag n, Fate S ((TMsg.walk root fid names).frame tag) s₀ n s →
        Except.ok nwqid = resultOf parseWalk n s.h.rxBuf → n ≠ 0 := by
      rintro s₀ s tag n - hr rfl
      cases hr
    refine Triple.ite (fun hne => ?_) fun _ => Triple.pure fun s h hord => ?_
    · refine Triple.ite (fun _ => ?_) fun hzero => Triple.pure fun s h hord => ?_
      · have hclunk := agreed_clunk (S := S) own fid .walked (by simp)
        refine (hclunk.pre fun s h hord => ?_).bind fun _ => Triple.pure fun s hs hord => ?_
        · obtain ⟨hg, s₀, tag, n, hg₀, hf, hr⟩ := h hord
          exact hg.relabel (walk_answered hlen (hdec tag) hg₀ hf (hreplied s₀ s tag n hf hr)).1
        · exact (hs hord).relabel (show Fit S s (fid, .drawn) from (hs hord).fit (fid, .closed) (List.mem_cons_self ..))
      · obtain ⟨hg, s₀, tag, n, hg₀, hf, hr⟩ := h hord
        obtain ⟨hspared, hnone | ⟨k, hle, hk, hcount⟩⟩ :=
          walk_answered hlen (hdec tag) hg₀ hf (hreplied s₀ s tag n hf hr)
        · exact hg.relabel ⟨hnone, hspared⟩
        · obtain rfl : nwqid = UInt16.ofNat k := Except.ok.inj (hr.trans hk)
          rcases hcount with rfl | hk
          · exact absurd rfl hne
          · refine absurd (UInt16.lt_iff_toNat_lt.mpr ?_) hzero
            rw [UInt16.toNat_ofNat', Nat.mod_eq_of_lt (by omega)]
            exact Nat.pos_of_ne_zero hk
    · obtain ⟨hg, s₀, tag, n, hg₀, hf, hr⟩ := h hord
      exact hg.relabel (walk_answered hlen (hdec tag) hg₀ hf (hreplied s₀ s tag n hf hr)).1

theorem agreed_walk (own : Owned) (fid root : UInt32) (path : Str) :
    Triple (Agreed S ((fid, .drawn) :: own)) (p9Walk (v9pTransact L) root fid path)
      (fun r => Agreed S ((fid, walkStage r) :: own)) fun _ => AgreedSoFar S := by
  rw [p9Walk_eq]
  refine Triple.ite (fun _ => Triple.pure fun s hs => hs) fun hok => ?_
  rw [not_or, not_le, not_lt] at hok
  have hdec := decode_walk root fid hok.1 hok.2
  have hwf := walk_wf root fid hok.1 hok.2
  refine Triple.bind ((agreed_request ((fid, .doubtful) :: own) (P := fun _ => True) onlyTags_next parseWalk
    (fun s h => h.relabel trivial) ?_ ?_).pre fun s hs hord => ⟨trivial, hs hord⟩) fun r => ?_
  · intro s tag tag' m' g _ hd hb
    rw [hdec] at hd
    cases hd
    rw [show fid = g from hb]
    exact List.mem_cons_self ..
  · intro s tag tag' root' newfid names hg hd
    rw [hdec] at hd
    cases hd
    exact (hg.fit _ (List.mem_cons_self ..)).1
  · refine (agreed_walkEnd own root fid hwf.1 hdec r).pre fun s h hord => ?_
    obtain ⟨hg, s₀, tag, n, -, h⟩ := h hord
    exact ⟨hg, s₀, tag, n, h⟩

/-- The invariant as a discipline of the callbacks. -/
def agreement (S : FidServer L F) : Discipline L where
  Inv := Agreed S
  Fresh := fun own fid => Agreed S ((fid, .drawn) :: own)
  Safe := fun _ => AgreedSoFar S
  safe := fun h hord => (h hord).agreed
  perm := fun hp h hord => (h hord).perm hp
  draw := agreed_draw
  walk := fun own fid root path => (agreed_walk own fid root path).pre fun _ hs => hs.2
  hold := fun _ _ => agreed_record (by simp) (by simp) (by simp) fun _ h => h
  clunk := fun own fid stage h => agreed_clunk own fid stage (by rcases h with rfl | rfl <;> simp)
  free := agreed_free
  orphan := agreed_orphan
  request := fun own _ m parse hm _ => (agreed_allowed own m parse hm).pre fun _ hs => hs.2
  adopt := fun _ _ => agreed_record (by simp) (by simp) (by simp) fun _ h => h

end Invariant

/-! ## Mounting -/

section Mount

variable {S : FidServer L F}

/-- While there is no pool, `Tattach` may bind the root fid. -/
structure Mounting (S : FidServer L F) (s : St W) : Prop where
  pool : s.h.fidPool = none
  root : s.h.rootFid = 0
  spared : ∀ fid, Spared s.log fid
  good : Good S [(0, .doubtful)] s

/-- A request other than a walk, a create or a clunk. -/
theorem Mounting.step {s₀ s : St W} {tx : List UInt8} {n : UInt32} (h : Mounting S s₀) (hf : Fate S tx s₀ n s)
    (hg : Good S [(0, .doubtful)] s) (hm : ∀ tag m fid, decode tx = some (tag, m) → ¬ m.Concerns fid) : Mounting S s :=
  ⟨hf.pool.trans h.pool, hf.root.trans h.root, fun fid => hf.spared (h.spared fid) fun tag m hd _ => hm tag m fid hd,
    hg⟩

/-- The version handshake drops every fid. -/
theorem mount_version :
    Triple (fun s => Orderly s.log → Mounting S s)
      (p9Request (v9pTransact L) (pure p9NoTag) (.version p9MSize p9VersionStr) parseVersion)
      (fun r s => Orderly s.log → Mounting S s ∧ ((∃ msize, r = .ok msize) → ∀ fid, S.table s.w fid = none))
      fun _ => AgreedSoFar S := by
  refine ((agreed_request [(0, .doubtful)] (P := Mounting S) onlyTags_noTag parseVersion (fun _ h => h)
    ?_ ?_).pre fun s hs hord => ⟨hs hord, (hs hord).good⟩).post ?_
  · intro s tag tag' m' fid _ hd hb
    rw [decode_version] at hd
    cases hd
    exact hb.elim
  · intro s tag tag' root newfid names _ hd
    rw [decode_version] at hd
    cases hd
  · intro r s h hord
    obtain ⟨hg, s₀, tag, n, hmount, -, hf, hr⟩ := h hord
    refine ⟨hmount.step hf hg fun tag' m fid hd hc => ?_, ?_⟩
    · rw [decode_version] at hd
      cases hd
      exact hc
    rintro ⟨msize, rfl⟩ fid
    have hn : n ≠ 0 := by
      rintro rfl
      cases hr
    have hserved := hf.answered hn
    unfold Serves at hserved
    rw [decode_version] at hserved
    rw [show S.table s.w = fun _ => none from hserved]

/-- The attach binds the root fid and no other. -/
theorem mount_attach (root : UInt32) :
    Triple (fun s => s.h.rootFid = root ∧ (Orderly s.log → Mounting S s ∧ ∀ fid, S.table s.w fid = none))
      (p9Request (v9pTransact L) p9NextTag (.attach root p9NoFid [] [] 0) noFields)
      (fun _ s => Orderly s.log → Mounting S s ∧ ∀ fid, fid ≠ 0 → S.table s.w fid = none) fun _ => AgreedSoFar S := by
  refine ((agreed_request [(0, .doubtful)]
    (P := fun s => (Mounting S s ∧ root = 0) ∧ ∀ fid, S.table s.w fid = none)
    onlyTags_next noFields (fun _ h => h) ?_ ?_).pre ?_).post ?_
  · intro s tag tag' m' fid hP hd hb
    rw [decode_attach] at hd
    cases hd
    rw [← show root = fid from hb, hP.1.2]
    exact List.mem_cons_self ..
  · intro s tag tag' root newfid names _ hd
    rw [decode_attach] at hd
    cases hd
  · rintro s ⟨hroot, hs⟩ hord
    obtain ⟨hmount, hnone⟩ := hs hord
    exact ⟨⟨⟨hmount, hroot.symm.trans hmount.root⟩, hnone⟩, hmount.good⟩
  · intro r s h hord
    obtain ⟨hg, s₀, tag, n, ⟨⟨hmount, rfl⟩, hnone⟩, -, hf, -⟩ := h hord
    refine ⟨hmount.step hf hg fun tag' m fid hd hc => ?_, fun fid hfid => ?_⟩
    · rw [decode_attach] at hd
      cases hd
      exact hc
    · refine hf.table.unbound (fun tag' m hd hb => ?_) (hnone fid)
      rw [decode_attach] at hd
      cases hd
      exact hfid hb.symm

/-- Mounting ends with an empty table and a fresh pool, or fails. -/
theorem agreed_mount :
    Triple (fun s => Orderly s.log → Mounting S s) (mount L)
      (fun ok s => (ok = true → Agreed S [] s) ∧ AgreedSoFar S s) fun _ => AgreedSoFar S := by
  refine mount_rule (D := fun s => Orderly s.log → Mounting S s ∧ ∀ fid, S.table s.w fid = none)
    (G := fun s => Orderly s.log → Mounting S s ∧ ∀ fid, fid ≠ 0 → S.table s.w fid = none) (N := Agreed S [])
    ?_ (fun root => ?_) ?_ ?_ fun root => ?_
  · refine mount_version.post fun r s hs => ?_
    cases r with
    | error e => exact ⟨(by simp), fun hord => (hs hord).1.good.agreed⟩
    | ok msize =>
      intro hord
      obtain ⟨⟨hpool, hroot, hspared, hg⟩, hnone⟩ := hs hord
      exact ⟨⟨hpool, hroot, hspared, hg.outside, hg.distinct, hg.pool, hg.fit, hg.agreed⟩, hnone ⟨msize, rfl⟩⟩
  · refine (mount_attach root).post fun r s hs => ?_
    cases r with
    | error e => exact ⟨(by simp), fun hord => (hs hord).1.good.agreed⟩
    | ok _ => exact hs
  · intro s w hs hcreate
    refine ⟨fun _ hord => ?_, fun hord => (hs hord).1.good.agreed⟩
    obtain ⟨hmount, hnone⟩ := hs hord
    have htable := fidPoolCreate_frame S.allocVec s.w
    rw [hcreate] at htable
    refine ⟨hmount.good.outside, List.nodup_nil, ?_, fun _ hp => (absurd hp List.not_mem_nil), hmount.good.agreed⟩
    rintro pool ⟨⟩
    refine ⟨by decide, FidPool.InUse.fresh, fun fid hfid => ⟨?_, hmount.spared fid⟩⟩
    show S.table w fid = none
    rw [htable]
    refine hnone fid ?_
    rintro rfl
    exact absurd hfid (by unfold FidPool.Available freshPool; simp)
  · intro s w hs _ hord
    have hg := (hs hord).1.good
    exact ⟨hg.outside, List.nodup_nil, (by rintro pool ⟨⟩), fun _ hp => (absurd hp List.not_mem_nil), hg.agreed⟩
  · exact (agreed_release [] root).post fun _ s hs => ⟨(by simp), fun hord => (hs hord).1.agreed⟩

end Mount

/-! ## Sessions -/

/-- **While every `Tclunk` and `Tlcreate` is answered, client and server agree on the free fids**, at every moment of
every session without a reset. -/
theorem fids_agree (S : FidServer L F) (txBuf rxBuf : Mem) (w : W) (cs : List Callback)
    (hreset : NoReset (sessionEnd L cs txBuf rxBuf w).log) (hwrap : NoWrap (sessionEnd L cs txBuf rxBuf w).log)
    (hanswered : Answered (sessionEnd L cs txBuf rxBuf w).log) :
    Always (Agree S) (sessionEnd L cs txBuf rxBuf w).log := by
  have hsession : Triple (fun s => Orderly s.log → Mounting S s) (session L cs) (fun _ => AgreedSoFar S)
      fun _ => AgreedSoFar S := by
    refine agreed_mount.bind fun ok => ?_
    cases ok with
    | false => exact Triple.pure fun s hs => hs.2
    | true =>
      have hrun := (agreement S).run_inv [] cs
      exact (hrun.pre fun s hs => hs.1 rfl).bind fun r => Triple.pure fun s hs hord => (hs hord).agreed
  unfold sessionEnd at hreset hwrap hanswered ⊢
  refine hsession.final (fun _ h => h) (fun _ => ⟨rfl, rfl, fun _ _ h => (absurd h List.not_mem_nil), ?_⟩)
    ⟨hreset, hwrap, hanswered⟩
  refine ⟨rfl, List.nodup_singleton _, (by rintro pool ⟨⟩), fun p hp => ?_, trivial⟩
  rw [List.mem_singleton.mp hp]
  trivial

/-- A session with the scripted server: mount it, and get the attributes of `/a`. -/
def getattrSession (turns : List Turn) : St Scripted :=
  sessionEnd Scripted.link [.getattr [slash, 0x61]] (fun _ => 0) (fun _ => 0) ⟨[], turns, 0⟩

/-- The reply to the `Twalk` is lost: fid `1` stays bound at the server, and the client does not free it. -/
theorem fids_agree_walk_lost :
    .walk 0 1 [[0x61]] ∈ lost (getattrSession [.answer, .answer, .mute]).log ∧
      Scripted.server.table (getattrSession [.answer, .answer, .mute]).w 1 = some [[0x61]] ∧
      Always (Agree Scripted.server) (getattrSession [.answer, .answer, .mute]).log :=
  ⟨by decide +kernel, by decide +kernel, fids_agree Scripted.server (fun _ => 0) (fun _ => 0)
    ⟨[], [.answer, .answer, .mute], 0⟩ [.getattr [slash, 0x61]] (by decide +kernel) (by decide +kernel)
    (by decide +kernel)⟩

/-- The server drops the `Tclunk`: nothing is reset, and fid `1` is free for the client and bound at the server. -/
theorem clunk_lost :
    let s := getattrSession [.answer, .answer, .answer, .answer, .drop]
    NoReset s.log ∧ NoWrap s.log ∧ (∃ pool, s.h.fidPool = some pool ∧ 1 ∈ pool.freeList) ∧
      Scripted.server.table s.w 1 = some [[0x61]] ∧ ¬ Always (Agree Scripted.server) s.log := by
  intro s
  have hfree : s.h.fidPool.map (·.freeList) = some [1] := by decide +kernel
  have hlast : s.log.head?.map (fun mo => (mo.h.fidPool.map (·.freeList), mo.w.fids.lookup 1)) =
      some (some [1], some [[0x61]]) := by decide +kernel
  refine ⟨by decide +kernel, by decide +kernel, ?_, by decide +kernel, ?_⟩
  · obtain ⟨pool, hpool, hone⟩ := Option.map_eq_some_iff.mp hfree
    exact ⟨pool, hpool, by rw [hone]; exact List.mem_singleton_self 1⟩
  · intro h
    cases hlog : s.log with
    | nil => rw [hlog] at hlast; cases hlast
    | cons mo past =>
      rw [hlog] at h hlast
      obtain ⟨hpool, hbound⟩ := Prod.mk.inj (Option.some.inj hlast)
      obtain ⟨pool, hpool, hone⟩ := Option.map_eq_some_iff.mp hpool
      have hnone := h.1.unbound pool 1 hpool (.inl (by rw [hone]; exact List.mem_singleton_self 1))
      exact absurd (hnone.symm.trans hbound) (by simp)

end Virtio9P
