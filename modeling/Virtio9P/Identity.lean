import Virtio9P.Server

/-!
# A fid stands for one file

Callers keep fids: in `fi->fh` of an open file, and in a callback between `walk_to` and the end. `Identity` states for
every moment of a session that these fids are different from each other and from the root's, and that the fid of an
open file is bound to the file it was opened on or to nothing, also after the transport was reset.

`V9P_Reset` starts with a fresh pool, which knows nothing of the fids that are still kept, and hands them out again. A
reset does no harm if nobody keeps a fid: no file is open, and the request that was given up is the walk of the only fid
of its callback, or a request on the root (`fids_keep_identity`). With one open file it does (`reset_aliases`).
-/

namespace Virtio9P

open Lib

variable {W α F : Type} {L : Link W}

/-! ## The statement -/

/-- The fids that were drawn, and neither freed nor given up as orphans. -/
def drawnFids : List (Moment W) → List UInt32
  | [] => []
  | mo :: past =>
    match mo.event with
    | .alloc fid => fid :: drawnFids past
    | .free fid | .orphan fid => (drawnFids past).erase fid
    | _ => drawnFids past

/-- The fids in the hands of callers: handed out by `walk_to` and not freed. -/
def heldFids : List (Moment W) → List UInt32
  | [] => []
  | mo :: past =>
    match mo.event with
    | .hold fid => fid :: heldFids past
    | .free fid => (heldFids past).erase fid
    | _ => heldFids past

/-- The fids of the open files, with what they were bound to when the open returned. -/
def openFids (S : FidServer L F) : List (Moment W) → List (UInt32 × Option F)
  | [] => []
  | mo :: past =>
    match mo.event with
    | .opened fid => (fid, S.table mo.w fid) :: openFids S past
    | .free fid => (openFids S past).filter fun p => p.1 ≠ fid
    | _ => openFids S past

/-- The fids of callers are different from each other and from the root's, and the fid of an open file is bound to the
file it was opened on or to nothing. -/
structure Identity (S : FidServer L F) (mo : Moment W) (past : List (Moment W)) : Prop where
  distinct : (heldFids (mo :: past)).Nodup
  notRoot : 0 ∉ heldFids (mo :: past)
  same : ∀ p ∈ openFids S (mo :: past), S.table mo.w p.1 = none ∨ S.table mo.w p.1 = p.2

/-- The new fid of a message, if it is a walk. -/
def walkedBy (tx : List UInt8) : Option UInt32 :=
  match decode tx with
  | some (_, .walk _ newfid _) => some newfid
  | _ => none

/-- The new fid of the request that was given up last, if it was a walk. -/
def interruptedWalk : List (Moment W) → Option UInt32
  | [] => none
  | mo :: past =>
    match mo.event with
    | .escalate tx => walkedBy tx
    | _ => interruptedWalk past

/-- When the pool was replaced, no fid was drawn but the one whose walk had just been given up. -/
abbrev ResetsIdle (log : List (Moment W)) : Prop :=
  Always (fun mo past => mo.event = .newPool → ∀ fid ∈ drawnFids past, interruptedWalk past = some fid) log

-- decided on the fids that were drawn: there are too many others
instance (log : List (Moment W)) : Decidable (ResetsIdle log) :=
  have (mo : Moment W) (past : List (Moment W)) :
      Decidable (mo.event = .newPool → ∀ fid ∈ drawnFids past, interruptedWalk past = some fid) :=
    have : Decidable (∀ fid ∈ drawnFids past, interruptedWalk past = some fid) := List.decidableBAll _ _
    inferInstance
  inferInstanceAs (Decidable (Always _ log))

/-! ## The log -/

/-- The sessions in which fids keep their identity. -/
def Idle (log : List (Moment W)) : Prop := NoWrap log ∧ ResetsIdle log

theorem Idle.tail {mo : Moment W} {log : List (Moment W)} (h : Idle (mo :: log)) : Idle log := ⟨h.1.2, h.2.2⟩

/-- The event is about the fids of callers. -/
def Event.moves : Event → Bool
  | .alloc _ | .free _ | .orphan _ | .hold _ | .opened _ => true
  | _ => false

section Moves

variable {mo : Moment W} (hmo : mo.event.moves = false) (past : List (Moment W))

include hmo

theorem drawnFids_cons : drawnFids (mo :: past) = drawnFids past := by
  rw [drawnFids]
  cases h : mo.event with
  | alloc | free | orphan | hold | opened => simp [h, Event.moves] at hmo
  | _ => rfl

theorem heldFids_cons : heldFids (mo :: past) = heldFids past := by
  rw [heldFids]
  cases h : mo.event with
  | alloc | free | orphan | hold | opened => simp [h, Event.moves] at hmo
  | _ => rfl

theorem openFids_cons (S : FidServer L F) : openFids S (mo :: past) = openFids S past := by
  rw [openFids]
  cases h : mo.event with
  | alloc | free | orphan | hold | opened => simp [h, Event.moves] at hmo
  | _ => rfl

end Moves

theorem interruptedWalk_cons {mo : Moment W} (hmo : ∀ tx, mo.event ≠ .escalate tx) (past : List (Moment W)) :
    interruptedWalk (mo :: past) = interruptedWalk past := by
  rw [interruptedWalk]
  cases h : mo.event with
  | escalate tx => exact absurd h (hmo tx)
  | _ => rfl

/-! ## The fids of a callback -/

namespace Stage

/-- The pool must not hand the fid out. -/
def live : Stage → Bool
  | .doubtful => false
  | _ => true

/-- The fid is in the hands of a caller. -/
def inHands : Stage → Bool
  | .held | .closed | .handle => true
  | _ => false

/-- The fid may be that of an open file. -/
def mayBeOpen : Stage → Bool
  | .closed | .handle => true
  | _ => false

end Stage

/-- The fids in the stages `P`. -/
def fidsAt (P : Stage → Bool) (own : Owned) : List UInt32 := (own.filter fun p => P p.2).map Prod.fst

section FidsAt

variable {P Q : Stage → Bool} {own own' : Owned} {fid : UInt32} {stage : Stage}

theorem fidsAt_cons_pos (h : P stage = true) : fidsAt P ((fid, stage) :: own) = fid :: fidsAt P own := by
  rw [fidsAt, List.filter_cons_of_pos (by exact h)]
  rfl

theorem fidsAt_cons_neg (h : P stage = false) : fidsAt P ((fid, stage) :: own) = fidsAt P own := by
  rw [fidsAt, List.filter_cons_of_neg (by rw [h]; exact Bool.false_ne_true)]
  rfl

theorem fidsAt_perm (P : Stage → Bool) (h : own.Perm own') : (fidsAt P own).Perm (fidsAt P own') :=
  (h.filter _).map _

theorem fidsAt_sublist (h : ∀ stage, P stage = true → Q stage = true) (own : Owned) :
    (fidsAt P own).Sublist (fidsAt Q own) :=
  (List.monotone_filter_right own fun p hp => h p.2 hp).map _

theorem mem_fidsAt : fid ∈ fidsAt P own ↔ ∃ stage, (fid, stage) ∈ own ∧ P stage = true := by
  unfold fidsAt
  rw [List.mem_map]
  constructor
  · rintro ⟨⟨_, stage⟩, hmem, rfl⟩
    exact ⟨stage, List.mem_filter.mp hmem⟩
  · rintro ⟨stage, hmem⟩
    exact ⟨(fid, stage), List.mem_filter.mpr hmem, rfl⟩

theorem live_of_inHands : ∀ stage : Stage, stage.inHands = true → stage.live = true := by
  intro stage h
  cases stage <;> first | rfl | cases h

theorem inHands_of_mayBeOpen : ∀ stage : Stage, stage.mayBeOpen = true → stage.inHands = true := by
  intro stage h
  cases stage <;> first | rfl | cases h

theorem mayBeOpen_sublist_live (own : Owned) : (fidsAt Stage.mayBeOpen own).Sublist (fidsAt Stage.live own) :=
  (fidsAt_sublist inHands_of_mayBeOpen own).trans (fidsAt_sublist live_of_inHands own)

/-- A fid that the pool must not hand out stands in one stage. -/
theorem not_mem_mayBeOpen (hd : (fidsAt Stage.live own).Nodup) (hmem : (fid, stage) ∈ own) (hlive : stage.live = true)
    (hshut : stage.mayBeOpen = false) : fid ∉ fidsAt Stage.mayBeOpen own := by
  intro hopen
  obtain ⟨stage', hmem', hopen'⟩ := mem_fidsAt.mp hopen
  have hlive' := live_of_inHands stage' (inHands_of_mayBeOpen stage' hopen')
  have heq := List.inj_on_of_nodup_map hd (List.mem_filter.mpr ⟨hmem, hlive⟩) (List.mem_filter.mpr ⟨hmem', hlive'⟩) rfl
  cases heq
  exact absurd (hopen'.symm.trans hshut) (by decide)

end FidsAt

section Invariant

variable (S : FidServer L F)

/-- The fids of callers and of the pool, outside of a reset or in one. -/
structure Upheld (inReset : Bool) (own : Owned) (s : St W) : Prop where
  inReset : s.h.inReset = inReset
  root : s.h.rootFid = 0
  pool : ∀ {pool}, s.h.fidPool = some pool → pool.nextFid ≠ 0 ∧ pool.InUse (fidsAt Stage.live own)
  distinct : (fidsAt Stage.live own).Nodup
  nonzero : 0 ∉ fidsAt Stage.live own
  drawn : (drawnFids s.log).Perm (own.map Prod.fst)
  held : (heldFids s.log).Perm (fidsAt Stage.inHands own)
  opened : ∀ p ∈ openFids S s.log,
    p.1 ∈ fidsAt Stage.mayBeOpen own ∧ (S.table s.w p.1 = none ∨ S.table s.w p.1 = p.2)

/-- The invariant, for as long as resets find nobody with a fid. -/
def Steady (own : Owned) (s : St W) : Prop := Idle s.log → Upheld S false own s ∧ Always (Identity S) s.log

/-- What is left of it at a fault. -/
def SteadySoFar (s : St W) : Prop := Idle s.log → Always (Identity S) s.log

variable {S} {inReset : Bool} {own own' : Owned} {s s' : St W}

/-- What the last entry has to meet. -/
theorem Upheld.identity (h : Upheld S inReset own s) {mo : Moment W} {past : List (Moment W)}
    (hlog : s.log = mo :: past) (hw : S.table mo.w = S.table s.w) : Identity S mo past := by
  have hlive := fidsAt_sublist live_of_inHands own
  have hheld := h.held
  rw [hlog] at hheld
  refine ⟨hheld.nodup_iff.mpr (h.distinct.sublist hlive), fun hmem => h.nonzero (hlive.subset (hheld.mem_iff.mp hmem)),
    fun p hp => ?_⟩
  rw [← hlog] at hp
  rw [hw]
  exact (h.opened p hp).2

theorem Upheld.perm (h : Upheld S inReset own s) (hp : own.Perm own') : Upheld S inReset own' s := by
  have hlive := fidsAt_perm Stage.live hp
  refine ⟨h.inReset, h.root, fun hpool => ?_, hlive.nodup_iff.mp h.distinct,
    fun hmem => h.nonzero (hlive.mem_iff.mpr hmem), h.drawn.trans (hp.map _), h.held.trans (fidsAt_perm _ hp),
    fun p hmem => ?_⟩
  · obtain ⟨hnext, huse⟩ := h.pool hpool
    exact ⟨hnext, huse.perm hlive⟩
  · obtain ⟨hopen, hsame⟩ := h.opened p hmem
    exact ⟨(fidsAt_perm _ hp).mem_iff.mp hopen, hsame⟩

/-- One more entry that does not move fids. -/
theorem Upheld.grow (h : Upheld S inReset own s) {mo : Moment W} (hmo : mo.event.moves = false) {inReset' : Bool}
    (hlog : s'.log = mo :: s.log) (hin : s'.h.inReset = inReset') (hroot : s'.h.rootFid = s.h.rootFid)
    (hpool : ∀ {pool}, s'.h.fidPool = some pool → pool.nextFid ≠ 0 ∧ pool.InUse (fidsAt Stage.live own))
    (htable : ∀ fid ∈ fidsAt Stage.mayBeOpen own, S.table s'.w fid = S.table s.w fid ∨ S.table s'.w fid = none) :
    Upheld S inReset' own s' := by
  refine ⟨hin, hroot.trans h.root, hpool, h.distinct, h.nonzero, ?_, ?_, fun p hp => ?_⟩
  · rw [hlog, drawnFids_cons hmo]
    exact h.drawn
  · rw [hlog, heldFids_cons hmo]
    exact h.held
  · rw [hlog, openFids_cons hmo] at hp
    obtain ⟨hopen, hsame⟩ := h.opened p hp
    refine ⟨hopen, ?_⟩
    rcases htable p.1 hopen with heq | hnone
    · rwa [heq]
    · exact .inl hnone

/-- Executing the message leaves the fids of open files alone, or releases them. -/
def Tame (F : Type) (tx : List UInt8) (own : Owned) : Prop :=
  ∀ fid ∈ fidsAt Stage.mayBeOpen own, ∀ t t' : FidTable F, MayServe tx t t' → t' fid = t fid ∨ t' fid = none

theorem Upheld.sent {tx : List UInt8} (h : Upheld S inReset own s) {sent : Moment W} (hsent : SentIn s tx sent) :
    Upheld S inReset own { s with log := sent :: s.log } ∧ Identity S sent s.log := by
  have hkept : Upheld S inReset own { s with log := sent :: s.log } :=
    h.grow (by rw [hsent.1]; rfl) rfl h.inReset rfl h.pool fun _ _ => .inl rfl
  exact ⟨hkept, hkept.identity rfl (by rw [hsent.2.1])⟩

/-- A message that was sent, and the entry after it. -/
theorem Upheld.sentThen {tx : List UInt8} {e : Event} (h : Upheld S inReset own s) (hsafe : Always (Identity S) s.log)
    (hpass : Passed S tx s s') (hlog : SentThen tx e s s') (he : e.moves = false) (htame : Tame F tx own) :
    Upheld S inReset own s' ∧ Always (Identity S) s'.log := by
  obtain ⟨mo, sent, hlog, hmo, hw, -, hsent⟩ := hlog
  obtain ⟨hkept, hid⟩ := h.sent hsent
  have hkept' : Upheld S inReset own s' :=
    hkept.grow (by rw [hmo]; exact he) hlog (hpass.inReset.trans h.inReset) hpass.root
      (fun hpool => h.pool (hpass.pool.symm.trans hpool)) fun fid hfid => htame fid hfid _ _ hpass.table
  refine ⟨hkept', ?_⟩
  have hid' := hkept'.identity hlog (by rw [hw])
  rw [hlog]
  exact ⟨hid', hid, hsafe⟩

/-- One more entry of the handler itself. -/
theorem Upheld.logged (h : Upheld S inReset own s) {e : Event} (he : e.moves = false) :
    Upheld S inReset own (s.logged e) :=
  h.grow he rfl h.inReset rfl h.pool fun _ _ => .inl rfl

/-! ## Resets -/

/-- A request inside a reset, or outside of one: it keeps the invariant, unless it is given up. -/
theorem upheld_request {reset : Client W Bool} {nextTag : Client W UInt16} (htag : OnlyTags nextTag) (m : TMsg)
    (parse : Mem → UInt32 → Except Int32 α) {P : St W → Prop} {Z : St W → Prop}
    (htame : ∀ s tag, P s → Upheld S inReset own s → Tame F (m.frame tag) own)
    (hreset : ∀ s₀ tag, (Idle s₀.log → P s₀ ∧ Upheld S inReset own s₀ ∧ Always (Identity S) s₀.log) →
      Triple (GivenUp S (m.frame tag) s₀) reset (fun _ => Z) fun _ => SteadySoFar S) :
    Triple (fun s => Idle s.log → P s ∧ Upheld S inReset own s ∧ Always (Identity S) s.log)
      (p9Request (v9pTransactWith L reset) nextTag m parse)
      (fun r s => (Idle s.log → Upheld S inReset own s ∧ Always (Identity S) s.log ∧
          ∃ s₀ tag n, P s₀ ∧ Fate S (m.frame tag) s₀ n s) ∨
        r = .error (-5) ∧ ∃ s', Z s' ∧ s = s'.logged (.returned 0)) fun _ => SteadySoFar S := by
  intro s₀ hs₀
  refine (request_fate S htag m parse (fun tag e s hsent => ?_) fun tag => hreset s₀ tag hs₀).post ?_ s₀ rfl
  · obtain ⟨sent, hlog, hsent⟩ := hsent
    intro hidle
    rw [hlog] at hidle ⊢
    obtain ⟨-, hkept, hsafe⟩ := hs₀ hidle.tail
    exact ⟨(hkept.sent hsent).2, hsafe⟩
  · rintro r s (⟨tag, n, hf, -⟩ | hz)
    · refine .inl fun hidle => ?_
      obtain ⟨hP, hkept, hsafe⟩ := hs₀ (by
        obtain ⟨ret, sent, hlog, -⟩ := hf.log
        rw [hlog] at hidle
        exact hidle.tail.tail)
      obtain ⟨hkept', hsafe'⟩ := hkept.sentThen hsafe hf.toPassed hf.log rfl (htame s₀ tag hP hkept)
      exact ⟨hkept', hsafe', s₀, tag, n, hP, hf⟩
    · exact .inr hz

/-- A state that differs in nothing that matters. -/
theorem Upheld.move (h : Upheld S inReset own s) {inReset' : Bool} (hlog : s'.log = s.log)
    (hin : s'.h.inReset = inReset')
    (hroot : s'.h.rootFid = s.h.rootFid) (hpool : s'.h.fidPool = s.h.fidPool) (htable : S.table s'.w = S.table s.w) :
    Upheld S inReset' own s' := by
  refine ⟨hin, hroot.trans h.root, fun hs => h.pool (hpool.symm.trans hs), h.distinct, h.nonzero, hlog ▸ h.drawn,
    hlog ▸ h.held, fun p hp => ?_⟩
  rw [htable]
  exact h.opened p (hlog ▸ hp)

/-- If no fid is drawn but the one that the message walks, no fid matters to the pool. -/
def Cleared (tx : List UInt8) (own : Owned) : Prop :=
  (∀ fid ∈ own.map Prod.fst, walkedBy tx = some fid) → fidsAt Stage.live own = []

/-- A reset is started by giving up the message `tx`, or is under way. -/
def Resetting (S : FidServer L F) (inReset : Bool) (tx : List UInt8) (own : Owned) (s : St W) : Prop :=
  Idle s.log → Upheld S inReset own s ∧ Always (Identity S) s.log ∧ interruptedWalk s.log = walkedBy tx ∧ Cleared tx own

theorem resetting_request {nextTag : Client W UInt16} (htag : OnlyTags nextTag) (m : TMsg)
    (parse : Mem → UInt32 → Except Int32 α) {tx : List UInt8} (root : UInt32)
    (htame : root = 0 → 0 ∉ fidsAt Stage.mayBeOpen own → ∀ tag, Tame F (m.frame tag) own) :
    Triple (fun s => s.h.rootFid = root ∧ Resetting S true tx own s) (p9Request (v9pTransactAt L 0) nextTag m parse)
      (fun _ => Resetting S true tx own) fun _ => SteadySoFar S := by
  have hopen := mayBeOpen_sublist_live own
  have hgiven : ∀ s₀ tag, (Idle s₀.log →
      (s₀.h.rootFid = root ∧ interruptedWalk s₀.log = walkedBy tx ∧ Cleared tx own) ∧
        Upheld S true own s₀ ∧ Always (Identity S) s₀.log) →
      Triple (GivenUp S (m.frame tag) s₀) (throw .hang : Client W Bool) (fun _ _ => False) fun _ => SteadySoFar S := by
    refine fun s₀ tag hs₀ => Triple.throw fun s hgiven hidle => ?_
    obtain ⟨esc, sent, hlog, -⟩ := hgiven.log
    rw [hlog] at hidle
    obtain ⟨-, hkept, -⟩ := hs₀ hidle.tail.tail
    exact absurd (hgiven.outside.symm.trans (hgiven.inReset.trans hkept.inReset)) (by decide)
  have hrequest := upheld_request htag m parse
    (P := fun s => s.h.rootFid = root ∧ interruptedWalk s.log = walkedBy tx ∧ Cleared tx own)
    (fun s tag hP hkept => htame (hP.1.symm.trans hkept.root) (fun hmem => hkept.nonzero (hopen.subset hmem)) tag)
    hgiven
  rw [transactAt_zero]
  refine hrequest.conseq ?_ ?_ fun _ _ h => h
  · rintro s ⟨hroot, hs⟩ hidle
    obtain ⟨hkept, hsafe, hwalk⟩ := hs hidle
    exact ⟨⟨hroot, hwalk⟩, hkept, hsafe⟩
  · rintro r s (h | ⟨-, s', hfalse, -⟩) hidle
    · obtain ⟨hkept, hsafe, s₀, tag, n, ⟨-, hwalk, hclear⟩, hf⟩ := h hidle
      obtain ⟨ret, sent, hlog, hret, -, -, hsent, -⟩ := hf.log
      refine ⟨hkept, hsafe, ?_, hclear⟩
      rw [hlog, interruptedWalk_cons (by simp [hret]),
        interruptedWalk_cons (by simp [hsent]), hwalk]
    · exact hfalse.elim

theorem tame_of {tx : List UInt8} (h : ∀ tag m fid, decode tx = some (tag, m) → m.Recasts fid →
    fid ∉ fidsAt Stage.mayBeOpen own) : Tame F tx own :=
  fun fid hfid _ _ hserve => hserve.kept fun tag m hd hm => h tag m fid hd hm hfid

theorem resetting_version {tx : List UInt8} :
    Triple (Resetting S true tx own)
      (p9Request (v9pTransactAt L 0) (pure p9NoTag) (.version p9MSize p9VersionStr) parseVersion)
      (fun _ => Resetting S true tx own) fun _ => SteadySoFar S := by
  intro s hs
  refine resetting_request onlyTags_noTag _ _ s.h.rootFid (fun _ _ tag => tame_of fun tag' m fid hd hm => ?_) s
    ⟨rfl, hs⟩
  rw [decode_version] at hd
  cases hd
  exact hm.elim

theorem resetting_attach {tx : List UInt8} (root : UInt32) :
    Triple (fun s => s.h.rootFid = root ∧ Resetting S true tx own s)
      (p9Request (v9pTransactAt L 0) p9NextTag (.attach root p9NoFid [] [] 0) noFields)
      (fun _ => Resetting S true tx own) fun _ => SteadySoFar S := by
  refine resetting_request onlyTags_next _ _ root fun hroot hopen tag => tame_of fun tag' m fid hd hm => ?_
  rw [decode_attach] at hd
  cases hd
  rwa [← show root = fid from hm, hroot]

/-- A reset that replaces the pool needs the fids of callers to be gone. -/
theorem upheld_reset (tx : List UInt8) :
    Triple (fun s => s.h.inReset = false ∧ Resetting S false tx own s) (v9pReset L (v9pTransactAt L 0))
      (fun _ => Steady S own) fun _ => SteadySoFar S := by
  -- setting the device up again leaves the fids of the server alone, whether it succeeds or not
  have hup : ∀ {s : St W} {ok : Bool} {w : W} (tag : UInt16), Resetting S true tx own s →
      L.initVirtio s.w = (ok, w) → Resetting S true tx own ⟨{ s.h with nextTag := tag }, w, s.log⟩ := by
    intro s ok w tag hs hinit hidle
    obtain ⟨hkept, hsafe⟩ := hs hidle
    have htable := S.init s.w
    rw [hinit] at htable
    exact ⟨hkept.move rfl hkept.inReset rfl rfl htable, hsafe⟩
  refine reset_rule (A := Resetting S true tx own) (C := Resetting S true tx own) (D := Resetting S true tx own)
    (G := Resetting S true tx own) (Z := fun _ => Resetting S true tx own) ?_ (fun s w hs => hup 1 hs)
    (fun s w hs => hup s.h.nextTag hs) ?_ ?_ ?_ (fun s hs _ => hs) ?_
  · rintro s ⟨hin, hs⟩
    refine ⟨hin, fun hidle => ?_⟩
    obtain ⟨hkept, hsafe⟩ := hs hidle
    exact ⟨hkept.move rfl rfl rfl rfl (S.cleanup s.w), hsafe⟩
  · refine resetting_version.post fun r s hs => ?_
    cases r with
    | error e => exact hs
    | ok msize =>
      intro hidle
      obtain ⟨hkept, hsafe⟩ := hs hidle
      exact ⟨hkept.move rfl hkept.inReset rfl rfl rfl, hsafe⟩
  · refine fun root => (resetting_attach root).post fun r s hs => ?_
    cases r <;> exact hs
  · intro s pool w hs hsome hcreate hidle
    obtain ⟨hkept, hsafe, hwalk, hclear⟩ := hs hidle.tail
    have htable := fidPoolCreate_frame S.allocVec s.w
    have hcases := fidPoolCreate_cases L.allocVec s.w
    rw [hcreate] at htable hcases
    have hgone : fidsAt Stage.live own = [] := hclear fun fid hfid =>
      hwalk ▸ hidle.2.1 rfl fid (hkept.drawn.mem_iff.mpr hfid)
    have hkept' : Upheld S true own ((s.pooled pool w).logged .newPool) := by
      refine hkept.grow rfl rfl hkept.inReset rfl (fun {pool'} hpool' => ?_) fun _ _ => .inl (congrFun htable _)
      rw [hgone]
      rcases hcases with h | h
      · obtain rfl : pool' = freshPool := Option.some.inj (hpool'.symm.trans h)
        exact ⟨by decide, FidPool.InUse.fresh⟩
      · exact absurd (hpool'.symm.trans h) (by simp)
    exact ⟨hkept', ⟨hkept'.identity rfl rfl, hsafe⟩, hwalk, hclear⟩
  · intro ok s hs hidle
    obtain ⟨hkept, hsafe, -⟩ := hs hidle.tail
    have hkept' : Upheld S false own (St.logged { s with h := { s.h with inReset := false } } (.reset ok)) :=
      hkept.grow rfl rfl rfl rfl hkept.pool fun _ _ => .inl rfl
    exact ⟨hkept', hkept'.identity rfl rfl, hsafe⟩

/-! ## The steps of a callback -/

theorem Steady.logged (h : Steady S own s) {e : Event} (he : e.moves = false) : Steady S own (s.logged e) := by
  intro hidle
  obtain ⟨hkept, hsafe⟩ := h hidle.tail
  exact ⟨hkept.logged he, (hkept.logged he).identity rfl rfl, hsafe⟩

/-- **A request keeps the invariant.** When it is given up, it returns `-EIO`, and the fids may be those of `own'`. -/
theorem steady_request (own' : Owned) {nextTag : Client W UInt16} (htag : OnlyTags nextTag) (m : TMsg)
    (parse : Mem → UInt32 → Except Int32 α)
    (htame : (fidsAt Stage.live own).Nodup → ∀ tag, Tame F (m.frame tag) own)
    (hweak : ∀ s, Upheld S false own s → Upheld S false own' s)
    (hclear : (fidsAt Stage.live own).Nodup → ∀ tag, Cleared (m.frame tag) own') :
    Triple (Steady S own) (p9Request (v9pTransact L) nextTag m parse)
      (fun r s => Steady S own s ∨ r = .error (-5) ∧ Steady S own' s) fun _ => SteadySoFar S := by
  have hreset : ∀ s₀ tag, (Idle s₀.log → True ∧ Upheld S false own s₀ ∧ Always (Identity S) s₀.log) →
      Triple (GivenUp S (m.frame tag) s₀) (v9pReset L (v9pTransactAt L 0)) (fun _ => Steady S own')
        fun _ => SteadySoFar S := by
    refine fun s₀ tag hs₀ => (upheld_reset (m.frame tag)).pre fun s hgiven => ⟨hgiven.outside, fun hidle => ?_⟩
    obtain ⟨esc, sent, hlog, hesc, -⟩ := hgiven.log
    obtain ⟨-, hkept, hsafe⟩ := hs₀ (by rw [hlog] at hidle; exact hidle.tail.tail)
    obtain ⟨hkept', hsafe'⟩ := hkept.sentThen hsafe hgiven.toPassed hgiven.log rfl (htame hkept.distinct tag)
    refine ⟨hweak s hkept', hsafe', ?_, hclear hkept.distinct tag⟩
    rw [hlog, interruptedWalk, hesc]
  have hrequest := upheld_request htag m parse (P := fun _ => True)
    (fun _ tag _ hkept => htame hkept.distinct tag) hreset
  rw [transact_eq]
  refine hrequest.conseq (fun s hs hidle => ⟨trivial, hs hidle⟩) ?_ fun _ _ h => h
  rintro r s (h | ⟨hr, s', hs', rfl⟩)
  · refine .inl fun hidle => ?_
    obtain ⟨hkept, hsafe, -⟩ := h hidle
    exact ⟨hkept, hsafe⟩
  · exact .inr ⟨hr, hs'.logged rfl⟩

/-- The same where nothing can be lost on the way. -/
theorem steady_request_same {nextTag : Client W UInt16} (htag : OnlyTags nextTag) (m : TMsg)
    (parse : Mem → UInt32 → Except Int32 α)
    (htame : (fidsAt Stage.live own).Nodup → ∀ tag, Tame F (m.frame tag) own)
    (hwalk : ∀ tag, walkedBy (m.frame tag) = none) :
    Triple (Steady S own) (p9Request (v9pTransact L) nextTag m parse) (fun _ => Steady S own)
      fun _ => SteadySoFar S := by
  refine (steady_request own htag m parse htame (fun _ h => h) fun _ tag hall => ?_).post fun r s h => ?_
  · cases own with
    | nil => rfl
    | cons p own => exact absurd ((hwalk tag).symm.trans (hall p.1 (List.mem_cons_self ..))) (by simp)
  · rcases h with h | ⟨-, h⟩
    · exact h
    · exact h

theorem walkedBy_other {m : TMsg} (hm : m.type ≠ p9TWalk) (tag : UInt16) : walkedBy (m.frame tag) = none := by
  unfold walkedBy
  cases hd : decode (m.frame tag) with
  | none => rfl
  | some r =>
    obtain ⟨tag', m'⟩ := r
    cases m' with
    | walk => exact absurd (decode_type hd).symm hm
    | _ => rfl

theorem Allowed.not_walk {m : TMsg} (h : Allowed own m) : m.type ≠ p9TWalk := by
  cases m with
  | version | attach | walk | clunk | flush => exact h.elim
  | _ => simp only [TMsg.type]; decide

theorem steady_allowed (own : Owned) (m : TMsg) (parse : Mem → UInt32 → Except Int32 α) (hm : Allowed own m) :
    Triple (Steady S own) (p9Request (v9pTransact L) p9NextTag m parse) (fun _ => Steady S own)
      fun _ => SteadySoFar S := by
  refine steady_request_same onlyTags_next m parse (fun hd tag => tame_of fun tag' m' fid hdec hr => ?_)
    (walkedBy_other hm.not_walk)
  have hbinds := hm.not_binds hdec fid
  have htype := decode_type hdec
  cases m' with
  | lcreate fid' name flags mode gid =>
    cases m with
    | lcreate fid₀ name₀ =>
      obtain ⟨hheld, hname⟩ := hm
      rw [decode_lcreate fid₀ hname] at hdec
      cases hdec
      rw [← show fid' = fid from hr]
      exact not_mem_mayBeOpen hd hheld rfl rfl
    | _ => exact absurd htype (by simp only [TMsg.type]; decide)
  | _ => exact absurd hr hbinds

theorem steady_clunk (own : Owned) (fid : UInt32) :
    Triple (Steady S own) (p9Clunk (v9pTransact L) fid) (fun _ => Steady S own) fun _ => SteadySoFar S := by
  rw [p9Clunk_eq]
  refine steady_request_same onlyTags_next _ _ (fun _ tag => tame_of fun tag' m' fid' hd hr => ?_)
    (walkedBy_other (by simp only [TMsg.type]; decide))
  rw [decode_clunk] at hd
  cases hd
  exact hr.elim

/-- A fid moves on between two stages in which no caller has it. -/
theorem Upheld.relabel {fid : UInt32} {stage stage' : Stage} (h : Upheld S inReset ((fid, stage) :: own) s)
    (hlive : stage.live = true) (hhands : stage.inHands = false) (hhands' : stage'.inHands = false) :
    Upheld S inReset ((fid, stage') :: own) s := by
  have hopen : ∀ stage : Stage, stage.inHands = false → stage.mayBeOpen = false := by
    intro stage h
    cases stage <;> first | rfl | cases h
  have hsub : (fidsAt Stage.live ((fid, stage') :: own)).Sublist (fidsAt Stage.live ((fid, stage) :: own)) := by
    rw [fidsAt_cons_pos hlive]
    cases hlive' : stage'.live with
    | true => rw [fidsAt_cons_pos hlive']
    | false => rw [fidsAt_cons_neg hlive']; exact List.sublist_cons_self ..
  refine ⟨h.inReset, h.root, fun hpool => ?_, h.distinct.sublist hsub, fun hmem => h.nonzero (hsub.subset hmem),
    h.drawn, ?_, fun p hp => ?_⟩
  · obtain ⟨hnext, huse⟩ := h.pool hpool
    exact ⟨hnext, huse.sublist hsub⟩
  · have hheld := h.held
    rw [fidsAt_cons_neg hhands] at hheld
    rwa [fidsAt_cons_neg hhands']
  · have hopened := h.opened p hp
    rw [fidsAt_cons_neg (hopen stage hhands)] at hopened
    rwa [fidsAt_cons_neg (hopen stage' hhands')]

theorem Steady.relabel {fid : UInt32} {stage stage' : Stage} (h : Steady S ((fid, stage) :: own) s)
    (hlive : stage.live = true) (hhands : stage.inHands = false) (hhands' : stage'.inHands = false) :
    Steady S ((fid, stage') :: own) s :=
  fun hidle => ⟨(h hidle).1.relabel hlive hhands hhands', (h hidle).2⟩

theorem inHands_walkStage (r : Except Int32 Unit) : (walkStage r).inHands = false := by
  cases r with
  | ok _ => rfl
  | error e =>
    rw [walkStage]
    split <;> rfl

theorem steady_walk (own : Owned) (fid root : UInt32) (path : Str) :
    Triple (Steady S ((fid, .drawn) :: own)) (p9Walk (v9pTransact L) root fid path)
      (fun r => Steady S ((fid, walkStage r) :: own)) fun _ => SteadySoFar S := by
  have hdone : ∀ (r : Except Int32 Unit) (s : St W), Steady S ((fid, .drawn) :: own) s →
      Steady S ((fid, walkStage r) :: own) s := fun r s hs => hs.relabel rfl rfl (inHands_walkStage r)
  rw [p9Walk_eq]
  refine Triple.ite (fun _ => Triple.pure fun s hs => hdone _ s hs) fun hok => ?_
  rw [not_or, not_le, not_lt] at hok
  have hdec := decode_walk root fid hok.1 hok.2
  refine Triple.bind (steady_request ((fid, .doubtful) :: own) onlyTags_next _ _ ?_
    (fun s h => h.relabel rfl rfl rfl) ?_) fun r => ?_
  · refine fun hd tag => tame_of fun tag' m' fid' hdec' hr => ?_
    rw [hdec] at hdec'
    cases hdec'
    rw [← show fid = fid' from hr]
    exact not_mem_mayBeOpen hd (List.mem_cons_self ..) rfl rfl
  · intro hd tag hall
    rw [fidsAt_cons_pos rfl] at hd
    rw [fidsAt_cons_neg rfl]
    refine List.eq_nil_iff_forall_not_mem.mpr fun g hg => (List.nodup_cons.mp hd).1 ?_
    obtain ⟨stage, hmem, -⟩ := mem_fidsAt.mp hg
    have hwalked := hall g (List.mem_cons_of_mem _ (List.mem_map_of_mem hmem))
    unfold walkedBy at hwalked
    rw [hdec] at hwalked
    cases hwalked
    exact hg
  · cases r with
    | error e =>
      refine Triple.pure fun s hs => ?_
      rcases hs with hs | ⟨he, hs⟩
      · exact hdone (.error e) s hs
      · cases he
        exact hs
    | ok nwqid =>
      have hkept : ∀ s, Steady S ((fid, .drawn) :: own) s ∨ Except.ok nwqid = .error (-5 : Int32) ∧
          Steady S ((fid, .doubtful) :: own) s → Steady S ((fid, .drawn) :: own) s := by
        rintro s (hs | ⟨he, -⟩)
        · exact hs
        · cases he
      refine Triple.pre ?_ hkept
      refine Triple.ite (fun _ => ?_) fun _ => Triple.pure fun s hs => hdone _ s hs
      refine Triple.ite (fun _ => ?_) fun _ => Triple.pure fun s hs => hdone _ s hs
      exact (steady_clunk _ fid).bind fun _ => Triple.pure fun s hs => hdone _ s hs

theorem steady_draw (own : Owned) :
    Triple (Steady S own) drawFid (fun fid => Steady S ((fid, .drawn) :: own)) fun _ => SteadySoFar S := by
  refine draw_rule (fun s hs _ hidle => (hs hidle).2) fun s pool hs hpool hidle => ?_
  obtain ⟨hkept, hsafe⟩ := hs hidle.tail
  obtain ⟨hnext, huse⟩ := hkept.pool hpool
  have hwrap : (fidPoolAlloc pool).2.nextFid ≠ 0 := hidle.1.1 _ rfl
  obtain ⟨huse', -, -⟩ := huse.alloc hwrap hnext
  have hkept' : Upheld S false (((fidPoolAlloc pool).1, .drawn) :: own)
      ((s.pooled (some (fidPoolAlloc pool).2) s.w).logged (.alloc (fidPoolAlloc pool).1)) := by
    refine ⟨hkept.inReset, hkept.root, ?_, ?_, ?_, ?_, ?_, ?_⟩
    · rintro pool' ⟨⟩
      rw [fidsAt_cons_pos rfl]
      exact ⟨hwrap, huse'⟩
    · rw [fidsAt_cons_pos rfl]
      exact huse'.distinct
    · rw [fidsAt_cons_pos rfl]
      exact fun hmem => (huse'.below 0 (List.mem_append_left _ hmem)).1 rfl
    · exact hkept.drawn.cons _
    · rw [fidsAt_cons_neg rfl]
      exact hkept.held
    · rw [fidsAt_cons_neg rfl]
      exact hkept.opened
  exact ⟨hkept', hkept'.identity rfl rfl, hsafe⟩

theorem steady_hold (own : Owned) (fid : UInt32) :
    Triple (Steady S ((fid, .walked) :: own)) (record (.hold fid)) (fun _ => Steady S ((fid, .held) :: own))
      fun _ => SteadySoFar S := by
  intro s hs hidle
  obtain ⟨hkept, hsafe⟩ := hs hidle.tail
  have hkept' : Upheld S false ((fid, .held) :: own) (s.logged (.hold fid)) := by
    refine ⟨hkept.inReset, hkept.root, hkept.pool, hkept.distinct, hkept.nonzero, hkept.drawn, ?_, hkept.opened⟩
    rw [fidsAt_cons_pos rfl]
    exact hkept.held.cons _
  exact ⟨hkept', hkept'.identity rfl rfl, hsafe⟩

theorem steady_adopt (own : Owned) (fid : UInt32) :
    Triple (Steady S ((fid, .held) :: own)) (record (.opened fid)) (fun _ => Steady S ((fid, .handle) :: own))
      fun _ => SteadySoFar S := by
  intro s hs hidle
  obtain ⟨hkept, hsafe⟩ := hs hidle.tail
  have hkept' : Upheld S false ((fid, .handle) :: own) (s.logged (.opened fid)) := by
    refine ⟨hkept.inReset, hkept.root, hkept.pool, hkept.distinct, hkept.nonzero, hkept.drawn, hkept.held, ?_⟩
    intro p hp
    rw [fidsAt_cons_pos rfl]
    rcases List.mem_cons.mp hp with rfl | hp
    · exact ⟨List.mem_cons_self .., .inr rfl⟩
    · obtain ⟨hopen, hsame⟩ := hkept.opened p hp
      exact ⟨List.mem_cons_of_mem _ hopen, hsame⟩
  exact ⟨hkept', hkept'.identity rfl rfl, hsafe⟩

/-- A fid that was clunked is still in the hands of its caller. -/
theorem Upheld.close {fid : UInt32} {stage : Stage} (hstage : stage = .held ∨ stage = .handle)
    (h : Upheld S inReset ((fid, stage) :: own) s) : Upheld S inReset ((fid, .closed) :: own) s := by
  rcases hstage with rfl | rfl
  · refine ⟨h.inReset, h.root, h.pool, h.distinct, h.nonzero, h.drawn, h.held, fun p hp => ?_⟩
    obtain ⟨hopen, hsame⟩ := h.opened p hp
    rw [fidsAt_cons_neg rfl] at hopen
    exact ⟨by rw [fidsAt_cons_pos rfl]; exact List.mem_cons_of_mem _ hopen, hsame⟩
  · exact ⟨h.inReset, h.root, h.pool, h.distinct, h.nonzero, h.drawn, h.held, h.opened⟩

theorem steady_free (own : Owned) (fid : UInt32) (stage : Stage) (hstage : stage = .drawn ∨ stage = .closed) :
    Triple (Steady S ((fid, stage) :: own)) (freeFid L fid) (fun _ => Steady S own) fun _ => SteadySoFar S := by
  refine free_rule (fun s hs _ hidle => (hs hidle).2) fun s pool pool' w hs hpool hfree hidle => ?_
  obtain ⟨hkept, hsafe⟩ := hs hidle.tail
  have hlive : stage.live = true := by rcases hstage with rfl | rfl <;> rfl
  have hcases := fidPoolFree_cases L.allocVec pool fid s.w
  have htable := fidPoolFree_frame S.allocVec pool fid s.w
  rw [hfree] at hcases htable
  obtain ⟨hnext, huse⟩ := hkept.pool hpool
  have hdistinct := hkept.distinct
  have hnonzero := hkept.nonzero
  rw [fidsAt_cons_pos hlive] at huse hdistinct hnonzero
  obtain ⟨huse', -⟩ := huse.free hcases.1 hcases.2.2
  have hkept' : Upheld S false own ((s.pooled (some pool') w).logged (.free fid)) := by
    refine ⟨hkept.inReset, hkept.root, ?_, (List.nodup_cons.mp hdistinct).2,
      fun hmem => hnonzero (List.mem_cons_of_mem _ hmem), ?_, ?_, ?_⟩
    · rintro pool₁ ⟨⟩
      exact ⟨hcases.1 ▸ hnext, huse'⟩
    · have hdrawn := hkept.drawn.erase fid
      rwa [List.map_cons, List.erase_cons_head] at hdrawn
    · have hheld := hkept.held.erase fid
      rcases hstage with rfl | rfl
      · have hnot : fid ∉ fidsAt Stage.inHands own := fun hmem =>
          (List.nodup_cons.mp hdistinct).1 ((fidsAt_sublist live_of_inHands own).subset hmem)
        rwa [fidsAt_cons_neg rfl, List.erase_of_not_mem hnot] at hheld
      · rwa [fidsAt_cons_pos rfl, List.erase_cons_head] at hheld
    · intro p hp
      obtain ⟨hp, hne⟩ := List.mem_filter.mp hp
      obtain ⟨hopen, hsame⟩ := hkept.opened p hp
      refine ⟨?_, ?_⟩
      · obtain ⟨stage', hmem, hopen'⟩ := mem_fidsAt.mp hopen
        rcases List.mem_cons.mp hmem with heq | hmem
        · exact absurd (congrArg Prod.fst heq) (by simpa using hne)
        · exact mem_fidsAt.mpr ⟨stage', hmem, hopen'⟩
      · show S.table w p.1 = none ∨ S.table w p.1 = p.2
        rwa [htable]
  exact ⟨hkept', hkept'.identity rfl rfl, hsafe⟩

theorem steady_orphan (own : Owned) (fid : UInt32) :
    Triple (Steady S ((fid, .doubtful) :: own)) (orphanFid L fid) (fun _ => Steady S own) fun _ => SteadySoFar S := by
  refine orphan_rule (fun s hs _ hidle => (hs hidle).2) fun s pool pool' w hs hpool horphan hidle => ?_
  obtain ⟨hkept, hsafe⟩ := hs hidle.tail
  have hsame := fidPoolMarkOrphan_kept L.allocVec pool fid s.w
  have htable := fidPoolMarkOrphan_frame S.allocVec pool fid s.w
  rw [horphan] at hsame htable
  obtain ⟨hnext, huse⟩ := hkept.pool hpool
  have hkept' : Upheld S false own ((s.pooled (some pool') w).logged (.orphan fid)) := by
    refine ⟨hkept.inReset, hkept.root, ?_, hkept.distinct, hkept.nonzero, ?_, hkept.held, fun p hp => ?_⟩
    · rintro pool₁ ⟨⟩
      exact ⟨hsame.1 ▸ hnext, huse.same hsame.1 hsame.2⟩
    · have hdrawn := hkept.drawn.erase fid
      rwa [List.map_cons, List.erase_cons_head] at hdrawn
    · obtain ⟨hopen, hbound⟩ := hkept.opened p hp
      refine ⟨hopen, ?_⟩
      show S.table w p.1 = none ∨ S.table w p.1 = p.2
      rwa [htable]
  exact ⟨hkept', hkept'.identity rfl rfl, hsafe⟩

/-- The invariant as a discipline of the callbacks. -/
def identityDiscipline (S : FidServer L F) : Discipline L where
  Inv := Steady S
  Fresh := fun own fid => Steady S ((fid, .drawn) :: own)
  Safe := fun _ => SteadySoFar S
  safe := fun h hidle => (h hidle).2
  perm := fun hp h hidle => ⟨(h hidle).1.perm hp, (h hidle).2⟩
  draw := steady_draw
  walk := fun own fid root path => (steady_walk own fid root path).pre fun _ hs => hs.2
  hold := steady_hold
  clunk := fun _ fid _ hstage => (steady_clunk _ fid).post fun _ _ hs hidle =>
    ⟨(hs hidle).1.close hstage, (hs hidle).2⟩
  free := steady_free
  orphan := steady_orphan
  request := fun own _ m parse hm _ => (steady_allowed own m parse hm).pre fun _ hs => hs.2
  adopt := steady_adopt

/-! ## Sessions -/

/-- While nobody has a fid, every request is harmless. -/
theorem steady_request_nil {nextTag : Client W UInt16} (htag : OnlyTags nextTag) (m : TMsg)
    (parse : Mem → UInt32 → Except Int32 α) (hm : m.type ≠ p9TWalk) :
    Triple (Steady S []) (p9Request (v9pTransact L) nextTag m parse) (fun _ => Steady S []) fun _ => SteadySoFar S :=
  steady_request_same htag m parse (fun _ _ => tame_of fun _ _ _ _ _ hmem => absurd hmem List.not_mem_nil)
    (walkedBy_other hm)

theorem steady_mount : Triple (Steady S []) (mount L) (fun _ => Steady S []) fun _ => SteadySoFar S := by
  refine mount_rule (D := Steady S []) (G := Steady S []) (N := Steady S []) ?_ (fun root => ?_) ?_ ?_
    fun root => steady_clunk [] root
  · refine (steady_request_nil onlyTags_noTag _ _ (by simp only [TMsg.type]; decide)).post fun r s hs => ?_
    cases r with
    | error e => exact hs
    | ok msize => exact fun hidle => ⟨(hs hidle).1.move rfl (hs hidle).1.inReset rfl rfl rfl, (hs hidle).2⟩
  · refine ((steady_request_nil onlyTags_next _ _ (by simp only [TMsg.type]; decide)).pre fun _ hs => hs.2).post
      fun r s hs => ?_
    cases r <;> exact hs
  · intro s w hs _ hidle
    obtain ⟨hkept, hsafe⟩ := hs hidle
    refine ⟨⟨hkept.inReset, hkept.root, ?_, hkept.distinct, hkept.nonzero, hkept.drawn, hkept.held,
      fun p hp => absurd (hkept.opened p hp).1 (by simp [fidsAt])⟩, hsafe⟩
    rintro pool ⟨⟩
    exact ⟨by decide, FidPool.InUse.fresh⟩
  · intro s w hs _ hidle
    obtain ⟨hkept, hsafe⟩ := hs hidle
    exact ⟨⟨hkept.inReset, hkept.root, (by rintro pool ⟨⟩), hkept.distinct, hkept.nonzero, hkept.drawn, hkept.held,
      fun p hp => absurd (hkept.opened p hp).1 (by simp [fidsAt])⟩, hsafe⟩

end Invariant

/-- **Fids keep their identity in every session** whose resets find nobody with a fid, at every moment of it. -/
theorem fids_keep_identity (S : FidServer L F) (txBuf rxBuf : Mem) (w : W) (cs : List Callback)
    (hwrap : NoWrap (sessionEnd L cs txBuf rxBuf w).log) (hresets : ResetsIdle (sessionEnd L cs txBuf rxBuf w).log) :
    Always (Identity S) (sessionEnd L cs txBuf rxBuf w).log := by
  have hsession : Triple (Steady S []) (session L cs) (fun _ => SteadySoFar S) fun _ => SteadySoFar S := by
    refine steady_mount.bind fun ok => ?_
    cases ok with
    | false => exact Triple.pure fun s hs hidle => (hs hidle).2
    | true =>
      exact ((identityDiscipline S).run_inv [] cs).bind fun r => Triple.pure fun s hs hidle => (hs hidle).2
  have hstart : Steady S [] ⟨startHandler txBuf rxBuf, w, []⟩ := fun _ =>
    ⟨⟨rfl, rfl, (by rintro pool ⟨⟩), List.nodup_nil, List.not_mem_nil, List.Perm.refl _, List.Perm.refl _,
      fun p hp => absurd hp List.not_mem_nil⟩, trivial⟩
  unfold sessionEnd at hwrap hresets ⊢
  exact hsession.final (fun _ h => h) hstart ⟨hwrap, hresets⟩

/-- The walk of a `getattr` is given up and the transport reset; then a file is opened, read and closed. -/
theorem fids_keep_identity_read :
    let s := Scripted.session [.getattr [slash, 0x61], .open [slash, 0x62] 0, .read 2 0 4 0, .release 0]
      [.answer, .answer, .stick]
    (∃ mo ∈ s.log, mo.event = .newPool) ∧ Always (Identity Scripted.server) s.log :=
  ⟨by decide +kernel, fids_keep_identity Scripted.server (fun _ => 0) (fun _ => 0) ⟨[], [.answer, .answer, .stick], 0⟩
    [.getattr [slash, 0x61], .open [slash, 0x62] 0, .read 2 0 4 0, .release 0] (by decide +kernel) (by decide +kernel)⟩

/-- `/a` is opened, the walk of a `getattr` is given up and the transport reset, `/c` is opened. Both files have fid
`1`, and a read of `/a` names the fid that the server has bound to `/c`. -/
theorem reset_aliases :
    let s := Scripted.session
      [.open [slash, 0x61] 0, .getattr [slash, 0x62], .open [slash, 0x63] 0, .read 2 1 4 0]
      [.answer, .answer, .answer, .answer, .stick]
    NoWrap s.log ∧ heldFids s.log = [1, 1] ∧
      (∃ mo past tag, mo :: past <:+ s.log ∧ mo.event = .send ((TMsg.read 1 0 4).frame tag) ∧
        (1, some [[0x61]]) ∈ openFids Scripted.server (mo :: past) ∧ Scripted.server.table mo.w 1 = some [[0x63]]) ∧
      ¬ Always (Identity Scripted.server) s.log := by
  intro s
  have hheld : heldFids s.log = [1, 1] := by decide +kernel
  refine ⟨by decide +kernel, hheld, ?_, ?_⟩
  · have hsent : s.log.tail.head?.map (fun mo => (mo.event, mo.w.fids.lookup 1)) =
        some (.send ((TMsg.read 1 0 4).frame 4), some [[0x63]]) := by decide +kernel
    have hopen : (1, some [[0x61]]) ∈ openFids Scripted.server s.log.tail := by decide +kernel
    have hsuffix : s.log.tail <:+ s.log := List.tail_suffix _
    generalize s.log.tail = past at hsent hopen hsuffix
    cases past with
    | nil => cases hsent
    | cons mo past =>
      obtain ⟨hevent, hbound⟩ := Prod.mk.inj (Option.some.inj hsent)
      exact ⟨mo, past, 4, hsuffix, hevent, hopen, hbound⟩
  · intro h
    generalize s.log = log at hheld h
    cases log with
    | nil => cases hheld
    | cons mo past =>
      have hdistinct := h.1.distinct
      rw [hheld] at hdistinct
      exact absurd hdistinct (by decide)

end Virtio9P
