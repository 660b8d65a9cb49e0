import Virtio9P.Server

/-!
# Fid accounting

The log of a callback is read as the entries of a ledger of fids. `Entry` says what one event does to the ledger: a
fid that was drawn is walked once, a fid whose walk succeeded is used, then clunked once, and after its `Tclunk` nothing
but `FidPool_Free` is left for it. `Books` is a whole log kept in this way.

`fid_accounting`: as long as no transport reset happens during it, every callback keeps its books, from the fids of the
files open before it to those of the files open after it, whatever the link answers. What each callback leaves open is
`FilesAfter`, and the fids that were drawn balance those that were freed, orphaned or kept.
-/

namespace Virtio9P

open Lib

variable {W α : Type}

/-! ## The ledger -/

/-- Where the ledger has a fid. -/
inductive Mark where
  /-- `FidPool_Alloc` returned it -/
  | drawn
  /-- its `Twalk` was sent -/
  | asked
  /-- its walk succeeded -/
  | held
  /-- it is in `fi->fh` -/
  | kept
  /-- its `Tclunk` was sent -/
  | clunked
  deriving DecidableEq

/-- A fid that was drawn twice has two entries. -/
abbrev Ledger := Multiset (UInt32 × Mark)

/-- A message that works on fids: all that it names are held or kept, or it asks about the root. -/
def Works (root : UInt32) (l : Ledger) : TMsg → Prop
  | .version .. | .attach .. | .walk .. | .clunk .. | .flush .. => False
  | .statfs fid => fid = root
  | m => ∀ fid ∈ m.fids, (fid, .held) ∈ l ∨ (fid, .kept) ∈ l

/-- What one event does to the ledger. -/
inductive Entry (root : UInt32) : Event → Ledger → Ledger → Prop
  | draw (fid l) : Entry root (.alloc fid) l ((fid, .drawn) ::ₘ l)
  | walk (fid names tag l) :
    Entry root (.send ((TMsg.walk root fid names).frame tag)) ((fid, .drawn) ::ₘ l) ((fid, .asked) ::ₘ l)
  | hold (fid l) : Entry root (.hold fid) ((fid, .asked) ::ₘ l) ((fid, .held) ::ₘ l)
  | work (m tag l) : Works root l m → Entry root (.send (m.frame tag)) l l
  /-- of a fid that was walked in part, or held, or kept -/
  | clunk (fid mark tag l) : mark ∈ [Mark.asked, .held, .kept] →
    Entry root (.send ((TMsg.clunk fid).frame tag)) ((fid, mark) ::ₘ l) ((fid, .clunked) ::ₘ l)
  /-- of a fid whose walk failed, or that was clunked -/
  | free (fid mark l) : mark ∈ [Mark.drawn, .asked, .clunked] → Entry root (.free fid) ((fid, mark) ::ₘ l) l
  | orphan (fid l) : Entry root (.orphan fid) ((fid, .asked) ::ₘ l) l
  | keep (fid l) : Entry root (.opened fid) ((fid, .held) ::ₘ l) ((fid, .kept) ::ₘ l)
  | returned (n l) : Entry root (.returned n) l l

/-- The events, newest first, lead from one ledger to another. -/
inductive Books (root : UInt32) (l₀ : Ledger) : List Event → Ledger → Prop
  | nil : Books root l₀ [] l₀
  | cons {e past l l'} : Books root l₀ past l → Entry root e l l' → Books root l₀ (e :: past) l'

/-! ## Balances -/

section Balance

variable {root : UInt32} {l₀ l l' : Ledger} {e : Event} {evs : List Event}

/-- The entries for a fid. -/
def Ledger.of (l : Ledger) (fid : UInt32) : Nat := (l.map Prod.fst).count fid

theorem Entry.balance (h : Entry root e l l') (fid : UInt32) :
    [e].count (.alloc fid) + l.of fid = [e].count (.free fid) + [e].count (.orphan fid) + l'.of fid := by
  cases h <;> simp [Ledger.of, List.count_cons, Multiset.count_cons, Nat.add_comm, eq_comm (a := fid)]

/-- **Every draw of a fid is matched** by a free, an orphan or an entry that is left. -/
theorem Books.balance (h : Books root l₀ evs l) (fid : UInt32) :
    evs.count (.alloc fid) + l₀.of fid = evs.count (.free fid) + evs.count (.orphan fid) + l.of fid := by
  induction h with
  | nil => simp
  | @cons e past l l' _ he ih =>
    have hstep := he.balance fid
    rw [← List.singleton_append]
    simp only [List.count_append]
    omega

/-- The draws, frees and orphans among events. -/
def Event.isDraw : Event → Bool
  | .alloc _ => true
  | _ => false

@[inherit_doc Event.isDraw]
def Event.isFree : Event → Bool
  | .free _ => true
  | _ => false

@[inherit_doc Event.isDraw]
def Event.isOrphan : Event → Bool
  | .orphan _ => true
  | _ => false

theorem Entry.total (h : Entry root e l l') :
    [e].countP Event.isDraw + l.card = [e].countP Event.isFree + [e].countP Event.isOrphan + l'.card := by
  cases h <;> simp [Event.isDraw, Event.isFree, Event.isOrphan, List.countP_cons] <;> omega

theorem Books.total (h : Books root l₀ evs l) :
    evs.countP Event.isDraw + l₀.card = evs.countP Event.isFree + evs.countP Event.isOrphan + l.card := by
  induction h with
  | nil => simp
  | @cons e past l l' _ he ih =>
    have hstep := he.total
    rw [← List.singleton_append]
    simp only [List.countP_append]
    omega

/-- The event is a `Tclunk` of the fid. -/
def Event.clunks (fid : UInt32) : Event → Bool
  | .send tx => decide ((decode tx).map Prod.snd = some (.clunk fid))
  | _ => false

theorem clunks_frame {m : TMsg} (hm : m.type ≠ p9TClunk) (tag : UInt16) (fid : UInt32) :
    (Event.send (m.frame tag)).clunks fid = false := by
  unfold Event.clunks
  refine decide_eq_false fun h => ?_
  obtain ⟨⟨tag', m'⟩, hdec, rfl⟩ := Option.map_eq_some_iff.mp h
  exact hm (decode_type hdec).symm

theorem Works.not_clunk {m : TMsg} (h : Works root l m) : m.type ≠ p9TClunk := by
  cases m with
  | clunk => exact h.elim
  | _ => simp only [TMsg.type]; decide

/-- The entries of a fid at one of the marks. -/
def Ledger.at (l : Ledger) (fid : UInt32) (marks : List Mark) : Nat := l.countP fun e => e.1 = fid ∧ e.2 ∈ marks

theorem Ledger.at_cons (fid fid' : UInt32) (mark : Mark) (marks : List Mark) (l : Ledger) :
    Ledger.at ((fid', mark) ::ₘ l) fid marks = l.at fid marks + if fid' = fid ∧ mark ∈ marks then 1 else 0 :=
  Multiset.countP_cons ..

theorem clunks_clunk (fid fid' : UInt32) (tag : UInt16) :
    (Event.send ((TMsg.clunk fid').frame tag)).clunks fid = decide (fid' = fid) := by
  simp [Event.clunks, decode_clunk]

/-- A fid stops being held or kept by a `Tclunk` only. -/
theorem Entry.held_le (h : Entry root e l l') (fid : UInt32) :
    [e].count (.hold fid) + l.at fid [.held, .kept] ≤ [e].countP (Event.clunks fid) + l'.at fid [.held, .kept] := by
  cases h with
  | hold fid' l => simp [Ledger.at_cons, Event.clunks, List.count_cons, Nat.add_comm]
  | clunk fid' mark tag l hmark =>
    simp only [Ledger.at_cons, List.countP_singleton, clunks_clunk]
    by_cases hfid : fid' = fid <;> simp [hfid]
    split_ifs <;> omega
  | free fid' mark l hmark =>
    have hnot : mark ∉ [Mark.held, .kept] := by
      simp only [List.mem_cons, List.not_mem_nil, or_false] at hmark
      rcases hmark with rfl | rfl | rfl <;> decide
    simp [Ledger.at_cons, hnot]
  | _ => simp [Ledger.at_cons]

/-- A fid is clunked once at most. -/
theorem Entry.clunks_le (h : Entry root e l l') (fid : UInt32) :
    [e].countP (Event.clunks fid) + [e].count (.orphan fid) + l'.at fid [.drawn, .asked, .held, .kept] ≤
      [e].count (.alloc fid) + l.at fid [.drawn, .asked, .held, .kept] := by
  cases h with
  | work m tag l hm => simp [clunks_frame hm.not_clunk]
  | walk fid' names tag l =>
    simp [Ledger.at_cons, clunks_frame (m := .walk root fid' names) (by simp only [TMsg.type]; decide)]
  | clunk fid' mark tag l hmark =>
    have hin : mark ∈ [Mark.drawn, .asked, .held, .kept] := List.mem_cons_of_mem _ hmark
    simp only [Ledger.at_cons, List.countP_singleton, clunks_clunk, hin]
    by_cases hfid : fid' = fid <;> simp [hfid]
    omega
  | free fid' mark l hmark => simp [Ledger.at_cons, Event.clunks]
  | _ => simp [Ledger.at_cons, Event.clunks, List.count_cons, Nat.add_comm]

/-- **The `Tclunk`s of a fid**: at least one for each time that it was held and not kept, at most one for each draw. -/
theorem Books.clunks (h : Books root l₀ evs l) (fid : UInt32) :
    evs.count (.hold fid) + l₀.at fid [.held, .kept] ≤ evs.countP (Event.clunks fid) + l.at fid [.held, .kept] ∧
      evs.countP (Event.clunks fid) + evs.count (.orphan fid) + l.at fid [.drawn, .asked, .held, .kept] ≤
        evs.count (.alloc fid) + l₀.at fid [.drawn, .asked, .held, .kept] := by
  induction h with
  | nil => simp
  | @cons e past l l' _ he ih =>
    have hheld := he.held_le fid
    have hclunks := he.clunks_le fid
    rw [← List.singleton_append]
    simp only [List.count_append, List.countP_append]
    omega

end Balance

/-! ## Logs without a reset -/

/-- What was logged. -/
def events (log : List (Moment W)) : List Event := log.map (·.event)

/-- Without a reset so far, the events meet `K`. -/
def Unbroken (root : UInt32) (K : List Event → Prop) (s : St W) : Prop :=
  NoReset s.log → s.h.rootFid = root ∧ K (events s.log)

section Unbroken

variable {L : Link W} {root : UInt32} {K K' : List Event → Prop} {s s' : St W}

theorem Unbroken.mono (h : Unbroken root K s) (hK : ∀ evs, K evs → K' evs) : Unbroken root K' s :=
  fun hno => ⟨(h hno).1, hK _ (h hno).2⟩

theorem Unbroken.step {mo : Moment W} (h : Unbroken root K s) (hroot : s'.h.rootFid = s.h.rootFid)
    (hlog : s'.log = mo :: s.log) (hK : ∀ evs, K evs → K' (mo.event :: evs)) : Unbroken root K' s' := by
  intro hno
  rw [hlog] at hno ⊢
  obtain ⟨hr, hk⟩ := h hno.2
  exact ⟨hroot.trans hr, hK _ hk⟩

/-- A reset stays in the log. -/
def broken (W : Type) : LogInv W where
  Out := fun _ log => ¬ NoReset log
  In := fun log => ¬ NoReset log
  out_in := fun h => h
  returned := fun _ _ h hno => h hno.2
  escalate := fun _ h hno => h hno.2
  nested := fun _ _ h hno => h hno.2
  reset := fun _ _ h hno => h hno.2

/-- **A request adds two entries**: it is sent, and it returns. -/
theorem unbroken_request (m : TMsg) (parse : Mem → UInt32 → Except Int32 α) :
    Triple (Unbroken root K) (p9Request (v9pTransact L) p9NextTag m parse)
      (fun _ => Unbroken root fun evs => ∃ n tag past, evs = .returned n :: .send (m.frame tag) :: past ∧ K past)
      fun _ => Unbroken root fun evs => ∃ tag past, evs = .send (m.frame tag) :: past ∧ K past := by
  let Sending : List Event → Prop := fun evs => ∃ tag past, evs = .send (m.frame tag) :: past ∧ K past
  refine request_rule (S := fun s => Unbroken root K s ∧ ∃ tag, s.h.txBuf.read 0 (7 + m.body.length) = m.frame tag)
    (R := fun _ => Unbroken root fun evs => ∃ n tag past, evs = .returned n :: .send (m.frame tag) :: past ∧ K past)
    (fun s hs => ⟨hs, s.h.nextTag, loaded_write m s.h.nextTag s.tagged⟩) ?_ fun _ _ hs => hs
  have hsent : ∀ s : St W, (Unbroken root K s ∧ ∃ tag, s.h.txBuf.read 0 (7 + m.body.length) = m.frame tag) →
      Unbroken root Sending (s.sent (7 + m.body.length)) := by
    rintro s ⟨hs, tag, htag⟩
    exact hs.step rfl rfl fun evs hk => ⟨tag, evs, by rw [htag], hk⟩
  refine transact_rule (R := fun _ => Unbroken root Sending) (T := fun _ _ => Unbroken root Sending)
    (fun s e w hs _ => hsent s hs) (fun s w hs _ => hsent s hs) (fun s n rx w hs _ => hsent s hs)
    (fun s rx w hs _ => hsent s hs) (fun tx tag => ?_) ?_
  · refine abandon_rule (B := fun s => s.h.inReset = false ∧ ¬ NoReset s.log) (fun s e w hs _ => hs)
      (fun s k rx w hs _ _ => hs) (fun s k rx w _ _ _ hin => ⟨hin, fun hno => Bool.noConfusion hno.1⟩) ?_
    exact (broken W).reset_keeps.conseq (fun _ hs => hs) (fun _ s hs hno => absurd hno hs.2)
      fun _ s hs hno => absurd hno hs
  · intro n s hs
    refine hs.step rfl rfl ?_
    rintro evs ⟨tag, past, rfl, hk⟩
    exact ⟨n, tag, past, rfl, hk⟩

end Unbroken

/-! ## Keeping the books -/

section Booked

variable {L : Link W} {root : UInt32} {l₀ : Ledger} {P Q : Ledger → Prop} {s s' : St W} {own : Owned}

/-- The books are kept, and the ledger meets `P`. -/
def Booked (root : UInt32) (l₀ : Ledger) (P : Ledger → Prop) : St W → Prop :=
  Unbroken root fun evs => ∃ l, Books root l₀ evs l ∧ P l

theorem Booked.mono (h : Booked root l₀ P s) (hPQ : ∀ l, P l → Q l) : Booked root l₀ Q s := by
  refine Unbroken.mono h ?_
  rintro evs ⟨l, hl, hp⟩
  exact ⟨l, hl, hPQ l hp⟩

theorem Booked.entry {mo : Moment W} (h : Booked root l₀ P s) (hroot : s'.h.rootFid = s.h.rootFid)
    (hlog : s'.log = mo :: s.log) (he : ∀ l, P l → ∃ l', Entry root mo.event l l' ∧ Q l') :
    Booked root l₀ Q s' := by
  refine Unbroken.step h hroot hlog ?_
  rintro evs ⟨l, hl, hp⟩
  obtain ⟨l', hentry, hq⟩ := he l hp
  exact ⟨l', hl.cons hentry, hq⟩

theorem booked_request {m : TMsg} (parse : Mem → UInt32 → Except Int32 α)
    (he : ∀ tag l, P l → ∃ l', Entry root (.send (m.frame tag)) l l' ∧ Q l') :
    Triple (Booked root l₀ P) (p9Request (v9pTransact L) p9NextTag m parse) (fun _ => Booked root l₀ Q)
      fun _ => Booked root l₀ fun _ => True := by
  refine (unbroken_request m parse).conseq (fun _ hs => hs) (fun _ s hs => hs.mono ?_) fun _ s hs => hs.mono ?_
  · rintro evs ⟨n, tag, past, rfl, l, hl, hp⟩
    obtain ⟨l', hentry, hq⟩ := he tag l hp
    exact ⟨l', (hl.cons hentry).cons (.returned n l'), hq⟩
  · rintro evs ⟨tag, past, rfl, l, hl, hp⟩
    obtain ⟨l', hentry, -⟩ := he tag l hp
    exact ⟨l', hl.cons hentry, trivial⟩

/-- Where the ledger may have a fid at a stage. -/
def Stage.marks : Stage → List Mark
  | .drawn => [.drawn, .asked, .clunked]
  | .doubtful | .walked => [.asked]
  | .held => [.held]
  | .closed => [.clunked]
  | .handle => [.kept]

/-- The ledger has the fids in use, and no others. -/
def Tally (own : Owned) : Ledger → Prop :=
  Multiset.Rel (fun o e => o.1 = e.1 ∧ e.2 ∈ o.2.marks) (own : Multiset (UInt32 × Stage))

theorem tally_cons {fid : UInt32} {stage : Stage} {l : Ledger} :
    Tally ((fid, stage) :: own) l ↔ ∃ mark l', mark ∈ stage.marks ∧ Tally own l' ∧ l = (fid, mark) ::ₘ l' := by
  unfold Tally
  rw [← Multiset.cons_coe, Multiset.rel_cons_left]
  constructor
  · rintro ⟨⟨fid', mark⟩, l', ⟨rfl, hmark⟩, hl', rfl⟩
    exact ⟨mark, l', hmark, hl', rfl⟩
  · rintro ⟨mark, l', hmark, hl', rfl⟩
    exact ⟨(fid, mark), l', ⟨rfl, hmark⟩, hl', rfl⟩

theorem Tally.inUse {l : Ledger} {fid : UInt32} (h : Tally own l) (hfid : InUse own fid) :
    (fid, .held) ∈ l ∨ (fid, .kept) ∈ l := by
  rcases hfid with hmem | hmem
  all_goals
    obtain ⟨⟨fid', mark⟩, hmem', heq, hmark⟩ := Multiset.exists_mem_of_rel_of_mem h (Multiset.mem_coe.mpr hmem)
    obtain rfl : fid = fid' := heq
    obtain rfl := List.mem_singleton.mp hmark
  · exact .inl hmem'
  · exact .inr hmem'

theorem Tally.works {l : Ledger} {m : TMsg} (h : Tally own l) (hm : Allowed own m) (hin : InHand own root m) :
    Works root l m := by
  cases m with
  | version | attach | walk | clunk | flush => exact hm.elim
  | statfs fid => exact hin
  | _ => exact fun fid hfid => h.inUse (hin fid hfid)

/-- The ledger of the open files. -/
def keptFids (handles : List UInt32) : Ledger := handles.map fun fh => (fh, Mark.kept)

theorem tally_owned {handles : List UInt32} {l : Ledger} :
    Tally (Discipline.owned handles) l ↔ l = keptFids handles := by
  induction handles generalizing l with
  | nil => exact Multiset.rel_zero_left
  | cons fh handles ih =>
    rw [Discipline.owned, List.map_cons, tally_cons]
    constructor
    · rintro ⟨mark, l', hmark, hl', rfl⟩
      rw [List.mem_singleton.mp hmark, ih.mp hl']
      rfl
    · rintro rfl
      exact ⟨.kept, keptFids handles, List.mem_singleton_self _, ih.mpr rfl, rfl⟩

theorem booked_clunk {fid : UInt32} {stage τ : Stage}
    (hmarks : ∀ mark ∈ stage.marks, mark ∈ [Mark.asked, .held, .kept]) (hclunked : Mark.clunked ∈ τ.marks) :
    Triple (Booked root l₀ (Tally ((fid, stage) :: own))) (p9Clunk (v9pTransact L) fid)
      (fun _ => Booked root l₀ (Tally ((fid, τ) :: own))) fun _ => Booked root l₀ fun _ => True := by
  rw [p9Clunk_eq]
  refine booked_request _ fun tag l hl => ?_
  obtain ⟨mark, l', hmark, hl', rfl⟩ := tally_cons.mp hl
  exact ⟨_, .clunk fid mark tag l' (hmarks mark hmark), tally_cons.mpr ⟨.clunked, l', hclunked, hl', rfl⟩⟩

/-- The ledger when a fid was just drawn. -/
def JustDrawn (own : Owned) (fid : UInt32) (l : Ledger) : Prop := ∃ l', Tally own l' ∧ l = (fid, .drawn) ::ₘ l'

/-- A fid that was walked, in one way or another. -/
theorem Booked.walked {fid : UInt32} (r : Except Int32 Unit)
    (h : Booked root l₀ (Tally ((fid, .walked) :: own)) s) :
    Booked root l₀ (Tally ((fid, walkStage r) :: own)) s := by
  refine h.mono fun l hl => ?_
  obtain ⟨mark, l', hmark, hl', rfl⟩ := tally_cons.mp hl
  refine tally_cons.mpr ⟨mark, l', ?_, hl', rfl⟩
  obtain rfl := List.mem_singleton.mp hmark
  cases r with
  | ok _ => exact List.mem_singleton_self _
  | error e =>
    rw [walkStage]
    split <;> decide

/-- The root fid of the handler is that of the books. -/
theorem Booked.rooted {root' : UInt32} (h : Booked root l₀ P s) (hroot' : s.h.rootFid = root') :
    Booked root l₀ (fun l => root' = root ∧ P l) s := by
  intro hno
  obtain ⟨hroot, l, hl, hp⟩ := h hno
  exact ⟨hroot, l, hl, hroot'.symm.trans hroot, hp⟩

theorem booked_walk (fid root' : UInt32) (path : Str) :
    Triple (fun s => s.h.rootFid = root' ∧ Booked root l₀ (JustDrawn own fid) s) (p9Walk (v9pTransact L) root' fid path)
      (fun r => Booked root l₀ (Tally ((fid, walkStage r) :: own))) fun _ => Booked root l₀ fun _ => True := by
  rw [p9Walk_eq]
  refine Triple.ite (fun _ => Triple.pure fun s hs => hs.2.mono ?_) fun _ => ?_
  · rintro l ⟨l', hl', rfl⟩
    exact tally_cons.mpr ⟨.drawn, l', List.mem_cons_self .., hl', rfl⟩
  refine Triple.bind ((booked_request (Q := Tally ((fid, .walked) :: own)) _ ?_).pre fun s hs => hs.2.rooted hs.1)
    fun r => ?_
  · rintro tag l ⟨rfl, l', hl', rfl⟩
    exact ⟨_, .walk fid _ tag l', tally_cons.mpr ⟨.asked, l', List.mem_singleton_self _, hl', rfl⟩⟩
  · cases r with
    | error e => exact Triple.pure fun s hs => hs.walked (.error e)
    | ok nwqid =>
      refine Triple.ite (fun _ => ?_) fun _ => Triple.pure fun s hs => hs.walked (.ok ())
      refine Triple.ite (fun _ => ?_) fun _ => Triple.pure fun s hs => hs.walked (.error (-2))
      -- the server walked a part of the way: the fid is clunked before the walk is reported as failed
      refine (booked_clunk (τ := .drawn) ?_ ?_).bind fun _ => Triple.pure fun s hs => hs
      · decide
      · decide

/-- Keeping the books is a discipline of the callbacks. -/
def bookkeeping (L : Link W) (root : UInt32) (l₀ : Ledger) : Discipline L where
  Inv := fun own => Booked root l₀ (Tally own)
  Fresh := fun own fid => Booked root l₀ (JustDrawn own fid)
  Safe := fun _ => Booked root l₀ fun _ => True
  safe := fun h => h.mono fun _ _ => trivial
  perm := fun hp h => h.mono fun l hl => by
    unfold Tally at hl ⊢
    rwa [← Multiset.coe_eq_coe.mpr hp]
  draw := fun own => draw_rule (fun s hs _ => hs.mono fun _ _ => trivial) fun s pool hs _ =>
    hs.entry rfl rfl fun l hl => ⟨_, .draw _ l, l, hl, rfl⟩
  walk := fun _ => booked_walk
  hold := fun own fid s hs => hs.entry rfl rfl fun l hl => by
    obtain ⟨mark, l', hmark, hl', rfl⟩ := tally_cons.mp hl
    obtain rfl := List.mem_singleton.mp hmark
    exact ⟨_, .hold fid l', tally_cons.mpr ⟨.held, l', List.mem_singleton_self _, hl', rfl⟩⟩
  clunk := fun own fid stage hstage => booked_clunk (by rcases hstage with rfl | rfl <;> decide) (by decide)
  free := fun own fid stage hstage => free_rule (fun s hs _ => hs.mono fun _ _ => trivial) fun s pool pool' w hs _ _ =>
    hs.entry rfl rfl fun l hl => by
      obtain ⟨mark, l', hmark, hl', rfl⟩ := tally_cons.mp hl
      refine ⟨_, .free fid mark l' ?_, hl'⟩
      rcases hstage with rfl | rfl
      · exact hmark
      · rw [List.mem_singleton.mp hmark]
        decide
  orphan := fun own fid => orphan_rule (fun s hs _ => hs.mono fun _ _ => trivial) fun s pool pool' w hs _ _ =>
    hs.entry rfl rfl fun l hl => by
      obtain ⟨mark, l', hmark, hl', rfl⟩ := tally_cons.mp hl
      obtain rfl := List.mem_singleton.mp hmark
      exact ⟨_, .orphan fid l', hl'⟩
  request := fun own root' m parse hm hin => by
    refine (booked_request parse ?_).pre fun s hs => hs.2.rooted hs.1
    rintro tag l ⟨rfl, hl⟩
    exact ⟨l, .work m tag l (hl.works hm hin), hl⟩
  adopt := fun own fid s hs => hs.entry rfl rfl fun l hl => by
    obtain ⟨mark, l', hmark, hl', rfl⟩ := tally_cons.mp hl
    obtain rfl := List.mem_singleton.mp hmark
    exact ⟨_, .keep fid l', tally_cons.mpr ⟨.kept, l', List.mem_singleton_self _, hl', rfl⟩⟩

end Booked

/-! ## What a callback leaves open -/

/-- The outcome of a call and the files open after it. -/
def FilesAfter (handles : List UInt32) (r : Outcome × List UInt32) : Callback → Prop
  | .opendir _ | .open _ _ | .create .. =>
    (∃ fid, r = (.code (.ok ()), fid :: handles)) ∨ ∃ e, r = (.code (.error e), handles)
  | .release fi | .releasedir fi =>
    (handles[fi]? = none ∧ r = (.noHandle, handles)) ∨
      ∃ fh, handles[fi]? = some fh ∧ r = (.code (.ok ()), handles.eraseIdx fi)
  | _ => r.2 = handles

/-- The change in the number of live fids. -/
def Callback.liveChange (handles : List UInt32) (r : Outcome) : Callback → Int
  | .opendir _ | .open _ _ | .create .. =>
    match r with
    | .code (.ok _) => 1
    | _ => 0
  | .release fi | .releasedir fi => if fi < handles.length then -1 else 0
  | _ => 0

theorem FilesAfter.length {handles : List UInt32} {r : Outcome × List UInt32} {c : Callback}
    (h : FilesAfter handles r c) : (r.2.length : Int) - handles.length = c.liveChange handles r.1 := by
  have hopen : ((∃ fid, r = (.code (.ok ()), fid :: handles)) ∨ ∃ e, r = (.code (.error e), handles)) →
      (r.2.length : Int) - handles.length = (Callback.opendir []).liveChange handles r.1 := by
    rintro (⟨fid, rfl⟩ | ⟨e, rfl⟩)
    · simp [Callback.liveChange]
    · simp [Callback.liveChange]
  have hclose : ∀ fi, ((handles[fi]? = none ∧ r = (.noHandle, handles)) ∨
      ∃ fh, handles[fi]? = some fh ∧ r = (.code (.ok ()), handles.eraseIdx fi)) →
      (r.2.length : Int) - handles.length = (Callback.release fi).liveChange handles r.1 := by
    rintro fi (⟨hnone, rfl⟩ | ⟨fh, hfh, rfl⟩)
    · have hle := List.getElem?_eq_none_iff.mp hnone
      simp [Callback.liveChange, Nat.not_lt.mpr hle]
    · obtain ⟨hlt, -⟩ := List.getElem?_eq_some_iff.mp hfh
      simp only [Callback.liveChange, if_pos hlt, List.length_eraseIdx_of_lt hlt]
      omega
  cases c with
  | opendir | «open» | create => exact hopen h
  | release fi | releasedir fi => exact hclose fi h
  | _ => simp [Callback.liveChange, show r.2 = handles from h]

section Files

variable {L : Link W} {handles : List UInt32}

theorem onPath_files (call : Client W α) (outcome : α → Outcome) :
    Triple (fun _ => True) (onPath handles call outcome) (fun r _ => r.2 = handles) fun _ _ => True :=
  Triple.bind (Q := fun _ _ => True) (Triple.top (fun _ _ => trivial) fun _ _ => trivial)
    fun _ => Triple.pure fun _ _ => rfl

theorem onHandle_files (fi : Nat) (call : UInt32 → Client W Outcome) :
    Triple (fun _ => True) (onHandle handles fi call) (fun r _ => r.2 = handles) fun _ _ => True := by
  unfold onHandle
  cases handles[fi]? with
  | none => exact Triple.pure fun _ _ => rfl
  | some fh => exact onPath_files (call fh) id

theorem onOpen_files (call : Client W (Except Int32 UInt32)) :
    Triple (fun _ => True) (onOpen handles call)
      (fun r _ => (∃ fid, r = (.code (.ok ()), fid :: handles)) ∨ ∃ e, r = (.code (.error e), handles))
      fun _ _ => True := by
  refine Triple.bind (Q := fun _ _ => True) (Triple.top (fun _ _ => trivial) fun _ _ => trivial) fun r => ?_
  cases r with
  | error e => exact Triple.pure fun _ _ => .inr ⟨e, rfl⟩
  | ok fh =>
    exact Triple.bind (Q := fun _ _ => True) (fun _ _ => trivial) fun _ => Triple.pure fun _ _ => .inl ⟨fh, rfl⟩

theorem onClose_files (fi : Nat) :
    Triple (fun _ => True) (onClose handles fi (v9pRelease L))
      (fun r _ => (handles[fi]? = none ∧ r = (.noHandle, handles)) ∨
        ∃ fh, handles[fi]? = some fh ∧ r = (.code (.ok ()), handles.eraseIdx fi))
      fun _ _ => True := by
  unfold onClose
  cases hfi : handles[fi]? with
  | none => exact Triple.pure fun _ _ => .inl ⟨rfl, rfl⟩
  | some fh =>
    refine Triple.bind (Q := fun r _ => r = .ok ()) ?_ fun r => Triple.pure fun _ hr => .inr ⟨fh, rfl, by rw [hr]⟩
    exact Triple.bind (Q := fun _ _ => True) (Triple.top (fun _ _ => trivial) fun _ _ => trivial)
      fun _ => Triple.pure fun _ _ => rfl

/-- **What a call returns and leaves open.** -/
theorem exec_files (c : Callback) :
    Triple (fun _ => True) (exec L handles c) (fun r _ => FilesAfter handles r c) fun _ _ => True := by
  cases c with
  | opendir | «open» | create => exact onOpen_files _
  | release fi | releasedir fi => exact onClose_files fi
  | readdir | read | write | ftruncate => exact onHandle_files _ _
  | fsync fi datasync =>
    cases fi with
    | none => exact onPath_files _ _
    | some fi => exact onHandle_files _ _
  | _ => exact onPath_files _ _

end Files

/-! ## The accounting of a callback -/

/-- The place of the file that a call closes. -/
def Callback.closes : Callback → Option Nat
  | .release fi | .releasedir fi => some fi
  | _ => none

/-- The books of a call, with its outcome and its events. -/
structure Accounted (root : UInt32) (c : Callback) (handles : List UInt32) (r : Outcome × List UInt32)
    (evs : List Event) : Prop where
  files : FilesAfter handles r c
  books : Books root (keptFids handles) evs (keptFids r.2)
  balance : ∀ fid, evs.count (.alloc fid) + handles.count fid =
    evs.count (.free fid) + evs.count (.orphan fid) + r.2.count fid
  clunks : ∀ fid, evs.count (.hold fid) + handles.count fid ≤ evs.countP (Event.clunks fid) + r.2.count fid ∧
    evs.countP (Event.clunks fid) + evs.count (.orphan fid) + r.2.count fid ≤ evs.count (.alloc fid) + handles.count fid
  live : (evs.countP Event.isDraw : Int) - evs.countP Event.isFree - evs.countP Event.isOrphan =
    c.liveChange handles r.1
  closed : ∀ fi fh, c.closes = some fi → handles[fi]? = some fh →
    ∃ n tag, evs = [.free fh, .returned n, .send ((TMsg.clunk fh).frame tag)]

theorem of_keptFids (handles : List UInt32) (fid : UInt32) : (keptFids handles).of fid = handles.count fid := by
  simp [Ledger.of, keptFids, Function.comp_def]

theorem at_keptFids (handles : List UInt32) (fid : UInt32) {marks : List Mark} (h : Mark.kept ∈ marks) :
    (keptFids handles).at fid marks = handles.count fid := by
  simp [Ledger.at, keptFids, List.countP_map, h, List.count, Function.comp_def, Bool.beq_eq_decide_eq]

theorem closeFid_events (L : Link W) (root fh : UInt32) :
    Triple (Unbroken root (· = [])) (closeFid L fh)
      (fun _ => Unbroken root fun evs => ∃ n tag, evs = [.free fh, .returned n, .send ((TMsg.clunk fh).frame tag)])
      fun _ _ => True := by
  unfold closeFid
  rw [p9Clunk_eq]
  refine ((unbroken_request _ _).conseq (fun _ hs => hs) (fun _ _ hs => hs) fun _ _ _ => trivial).bind fun _ => ?_
  refine free_rule (fun _ _ _ => trivial) fun s pool pool' w hs _ _ => hs.step rfl rfl ?_
  rintro evs ⟨n, tag, past, rfl, rfl⟩
  exact ⟨n, tag, rfl⟩

theorem exec_closes {L : Link W} {handles : List UInt32} {c : Callback} {fi : Nat} {fh : UInt32}
    (hc : c.closes = some fi) (hfi : handles[fi]? = some fh) (root : UInt32) :
    Triple (Unbroken root (· = [])) (exec L handles c)
      (fun _ => Unbroken root fun evs => ∃ n tag, evs = [.free fh, .returned n, .send ((TMsg.clunk fh).frame tag)])
      fun _ _ => True := by
  have hclose : Triple (Unbroken root (· = [])) (onClose handles fi (v9pRelease L))
      (fun _ => Unbroken root fun evs => ∃ n tag, evs = [.free fh, .returned n, .send ((TMsg.clunk fh).frame tag)])
      fun _ _ => True := by
    unfold onClose
    rw [hfi]
    exact ((closeFid_events L root fh).bind fun _ => Triple.ret).bind fun _ => Triple.ret
  cases c with
  | release | releasedir => cases hc; exact hclose
  | _ => cases hc

/-- **Fid accounting of every callback.** Without a reset, the books of a call are kept up to a fault, and when it
returns they are closed. -/
theorem fid_accounting (L : Link W) (handles : List UInt32) (c : Callback) (h : Handler) (w : W)
    (hno : NoReset (finalState (exec L handles c ⟨h, w, []⟩)).log) :
    (∀ r s, exec L handles c ⟨h, w, []⟩ = .ok r s → Accounted h.rootFid c handles r (events s.log)) ∧
      ∀ e s, exec L handles c ⟨h, w, []⟩ = .error e s → ∃ l, Books h.rootFid (keptFids handles) (events s.log) l := by
  have hinv := (bookkeeping L h.rootFid (keptFids handles)).exec_inv handles c
  have hstart : Booked h.rootFid (keptFids handles) (Tally (Discipline.owned handles)) (⟨h, w, []⟩ : St W) :=
    fun _ => ⟨rfl, _, .nil, tally_owned.mpr rfl⟩
  constructor
  · intro r s hrun
    rw [hrun] at hno
    obtain ⟨-, l, hbooks, hl⟩ := hinv.ok hstart hrun hno
    rw [tally_owned.mp hl] at hbooks
    have hfiles := (exec_files c).ok trivial hrun
    refine ⟨hfiles, hbooks, fun fid => ?_, fun fid => ?_, ?_, fun fi fh hc hfi => ?_⟩
    · rw [← of_keptFids handles, ← of_keptFids r.2]
      exact hbooks.balance fid
    · have hclunks := hbooks.clunks fid
      rwa [at_keptFids _ _ (by decide), at_keptFids _ _ (by decide), at_keptFids _ _ (by decide),
        at_keptFids _ _ (by decide)] at hclunks
    · rw [← hfiles.length]
      have htotal := hbooks.total
      simp only [keptFids, Multiset.coe_card, List.length_map] at htotal
      omega
    · exact ((exec_closes hc hfi h.rootFid).ok (fun _ => ⟨rfl, rfl⟩) hrun hno).2
  · intro e s hrun
    rw [hrun] at hno
    obtain ⟨-, l, hbooks, -⟩ := hinv.error hstart hrun hno
    exact ⟨l, hbooks⟩

/-- The handler after a mount, for a run by hand. -/
def mountedHandler : Handler := { startHandler (fun _ => 0) (fun _ => 0) with fidPool := some freshPool }

/-- An open file of the scripted server. -/
theorem fid_accounting_open :
    ∃ r s, exec Scripted.link [] (.open [slash, 0x61] 0) ⟨mountedHandler, ⟨[(0, [])], [], 0⟩, []⟩ = .ok r s ∧
      r.2 = [1] ∧ Accounted 0 (.open [slash, 0x61] 0) [] r (events s.log) := by
  have hno : NoReset (finalState (exec Scripted.link [] (.open [slash, 0x61] 0)
      ⟨mountedHandler, ⟨[(0, [])], [], 0⟩, []⟩)).log := by decide +kernel
  have hvalue : (finalValue (exec Scripted.link [] (.open [slash, 0x61] 0)
      ⟨mountedHandler, ⟨[(0, [])], [], 0⟩, []⟩)).map Prod.snd = some [1] := by decide +kernel
  have haccount := fid_accounting Scripted.link [] (.open [slash, 0x61] 0) mountedHandler ⟨[(0, [])], [], 0⟩ hno
  cases hrun : exec Scripted.link [] (.open [slash, 0x61] 0) ⟨mountedHandler, ⟨[(0, [])], [], 0⟩, []⟩ with
  | error e s =>
    rw [hrun] at hvalue
    cases hvalue
  | ok r s =>
    rw [hrun] at hvalue
    exact ⟨r, s, rfl, Option.some.inj hvalue, haccount.1 r s hrun⟩

end Virtio9P
