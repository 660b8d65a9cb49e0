import Virtio9P.Lifetime

/-!
# Chains that are left with the device

`V9P_Transact` posts one chain, and a second one when it gives up. The chains that are on the queue can be counted:
posting adds one, and a completion takes one away (`busPoll_owes`, `busDrain_owes`). So a transaction that starts with
none ends with none, or with a reset; and the reset ends with whatever its own two transactions left. These may not
reset the transport again, so a handshake that is not answered is left with the device.

* `returns_clear_iff`: in every run, no chain survives a call of `V9P_Transact` exactly when none survives a call inside
  `V9P_Reset`.
* `silent_keeps_chains`: a device that does not answer at all.
-/

namespace Virtio9P

open Lib

/-! ## Counting chains -/

/-- No chain on the queue is outstanding. -/
def Machine.Clear (m : Machine) : Prop := ∀ q, m.vq = some q → q.outstanding = []

/-- The queue is sound, and `n` chains are outstanding at most. -/
def Machine.Owes (n : Nat) (m : Machine) : Prop :=
  ∀ q, m.vq = some q → ∃ out, Tracks q.traffic out ∧ out.length ≤ n

/-- The queue is as new: no chain was revoked. -/
def Machine.Unrevoked (m : Machine) : Prop := ∀ q, m.vq = some q → q.revoked = 0

section Counting

variable {world : World} {m : Machine} {n : Nat}

theorem Machine.Owes.mono {k : Nat} (h : m.Owes k) (hle : k ≤ n) : m.Owes n := by
  intro q hq
  obtain ⟨out, htracks, hlen⟩ := h q hq
  exact ⟨out, htracks, hlen.trans hle⟩

theorem owes_of_none (hvq : m.vq = none) : m.Owes n := by
  intro q hq
  rw [hvq] at hq
  cases hq

/-- The requests that the driver waits for are those of the outstanding chains. -/
theorem Tracks.mem_outstanding {q : Line} {out : List (Nat × Chain Cookie)} (h : Tracks q.traffic out) (r : Nat) :
    r ∈ q.outstanding ↔ q.revoked ≤ r ∧ r ∈ out.map Prod.fst := by
  have hnodup : (q.collected ++ out.map Prod.fst).Nodup := h.parts.nodup_iff.mpr List.nodup_range
  have hmem : r ∈ q.collected ++ out.map Prod.fst ↔ r ∈ List.range q.traffic.posted.length := h.parts.mem_iff
  rw [Line.outstanding, List.mem_filter, decide_eq_true_eq, ← hmem, List.mem_append]
  constructor
  · rintro ⟨hr | hr, hrev, hnot⟩
    · exact absurd hr hnot
    · exact ⟨hrev, hr⟩
  · rintro ⟨hrev, hr⟩
    exact ⟨.inr hr, hrev, fun hc => List.disjoint_of_nodup_append hnodup hc hr⟩

theorem clear_of_owes (h : m.Owes 0) : m.Clear := by
  intro q hq
  obtain ⟨out, htracks, hlen⟩ := h q hq
  obtain rfl : out = [] := List.length_eq_zero_iff.mp (Nat.le_zero.mp hlen)
  refine List.eq_nil_iff_forall_not_mem.mpr fun r hr => ?_
  exact List.not_mem_nil ((htracks.mem_outstanding r).mp hr).2

theorem owes_of_clear (hclear : m.Clear) (hrev : m.Unrevoked) (h : m.Owes n) : m.Owes 0 := by
  intro q hq
  obtain ⟨out, htracks, -⟩ := h q hq
  refine ⟨out, htracks, (List.length_eq_zero_iff.mpr ?_).le⟩
  refine List.eq_nil_iff_forall_not_mem.mpr fun e he => ?_
  have hmem : e.1 ∈ q.outstanding :=
    (htracks.mem_outstanding e.1).mpr ⟨by rw [hrev q hq]; omega, List.mem_map_of_mem he⟩
  rw [hclear q hq] at hmem
  exact List.not_mem_nil hmem

/-! ## The loops -/

theorem act_tracks {q : Line} {out : List (Nat × Chain Cookie)} (h : Tracks q.traffic out) (texts : Cookie → Mem)
    (rx : Mem) (a : Act) : Tracks (q.act texts rx a).1.traffic out := by
  cases a with
  | take => exact h.take
  | fetch k =>
    simp only [Line.act]
    cases q.traffic.inFlight[k]? with
    | none => exact h
    | some c => exact h
  | complete k answer =>
    simp only [Line.act]
    cases q.traffic.inFlight[k]? with
    | none => exact h
    | some c => exact h.complete k _

theorem acts_tracks (texts : Cookie → Mem) (as : List Act) : ∀ {q : Line} {out : List (Nat × Chain Cookie)} (rx : Mem),
    Tracks q.traffic out → Tracks (q.acts texts rx as).1.traffic out := by
  induction as with
  | nil => exact fun _ h => h
  | cons a as ih => exact fun rx h => ih _ (act_tracks h texts rx a)

/-- Posting adds a chain. -/
theorem postMessage_owes (cookie : Cookie) (p : Post) :
    Triple (Machine.Owes n) (postMessage world cookie p) (fun ok m => m.Owes (if ok then n + 1 else n))
      fun _ _ => True := by
  refine theQueue_bind (fun _ _ _ => trivial) fun q => ?_
  rintro m ⟨hq, hm⟩
  obtain ⟨out, htracks, hlen⟩ := hm q hq
  rw [modify_bind]
  dsimp only
  rcases htracks.post _ (by decide : (1 : UInt32) + 1 ≠ 0) (Option.some_ne_none cookie) with
    hres | ⟨t, c, hres, ht, -⟩
  · rw [hres]
    refine fun q' hq' => ⟨out, ?_, hlen⟩
    cases hq'
    exact htracks
  · rw [hres]
    refine fun q' hq' => ⟨_, ?_, show (out ++ [(q.traffic.posted.length, c)]).length ≤ n + 1 by simpa using hlen⟩
    cases hq'
    exact ht

/-- A completion takes a chain away, and the device cannot add one. -/
theorem look_owes (rx : Mem) :
    Triple (Machine.Owes n) (look world rx)
      (fun r m => m.Owes n ∧ (r.1 ≠ none → 1 ≤ n ∧ m.Owes (n - 1))) fun _ _ => True := by
  refine theQueue_bind (fun _ _ _ => trivial) fun q => ?_
  rintro m ⟨hq, hm⟩
  obtain ⟨out, htracks, hlen⟩ := hm q hq
  rw [get_bind]
  generalize hacted : (if m.Live then q.acts m.texts rx (world.acts m.now) else (q, rx)) = acted
  have hafter : Tracks acted.1.traffic out := by
    rw [← hacted]
    split
    · exact acts_tracks _ _ rx htracks
    · exact htracks
  dsimp only
  rcases hafter.collect with hres | ⟨cookie, len, t, out', hres, ht, hlen', -⟩
  · rw [hres]
    refine ⟨fun q' hq' => ⟨out, ?_, hlen⟩, fun h => absurd rfl h⟩
    cases hq'
    exact hafter
  · rw [hres]
    have hless : ∀ k, out'.length ≤ k →
        Machine.Owes k { m with now := m.now + 1, vq := some { acted.1 with traffic := t } } := by
      intro k hk q' hq'
      cases hq'
      exact ⟨out', ht, hk⟩
    exact ⟨hless n (by omega), fun _ => ⟨by omega, hless (n - 1) (by omega)⟩⟩

/-- What is left when the poll loop ends. -/
def Polled.Left (n : Nat) : Polled → Machine → Prop
  | .refused, _ => False
  | .reply .., m => 1 ≤ n ∧ m.Owes (n - 1)
  | .timeout _, m => m.Owes n

theorem Polled.Left.mono {k : Nat} {r : Polled} (h : r.Left k m) (hle : k ≤ n) : r.Left n m := by
  cases r with
  | refused => exact h
  | reply => exact ⟨h.1.trans hle, h.2.mono (by omega)⟩
  | timeout => exact Machine.Owes.mono h hle

theorem deadline_owes : Triple (Machine.Owes n) (deadline world) (fun _ => Machine.Owes n) fun _ _ => True :=
  Triple.modifyGet fun _ hm => hm

theorem pollLoop_owes (p : Post) (polls : Nat) : ∀ n rx,
    Triple (Machine.Owes n) (pollLoop world p polls rx) (fun r => r.Left n) fun _ _ => True := by
  induction polls with
  | zero => exact fun n rx => Triple.pure fun m hm => hm
  | succ polls ih =>
    refine fun n rx => (look_owes rx).bind fun r => ?_
    obtain ⟨_ | written, rx'⟩ := r
    · exact (ih n rx').pre fun m hm => hm.1
    · refine Triple.ite (fun _ => Triple.pure fun m hm => hm.2 (Option.some_ne_none _)) fun _ => ?_
      refine ((ih (n - 1) rx').pre fun m hm => (hm.2 (Option.some_ne_none _)).2).post fun r m hm => hm.mono ?_
      exact Nat.sub_le n 1

theorem drainOne_owes (polls : Nat) : ∀ rx,
    Triple (Machine.Owes n) (drainOne world polls rx) (fun r m => if r.1 then 1 ≤ n ∧ m.Owes (n - 1) else m.Owes n)
      fun _ _ => True := by
  induction polls with
  | zero => exact fun rx => Triple.pure fun m hm => hm
  | succ polls ih =>
    refine fun rx => (look_owes rx).bind fun r => ?_
    obtain ⟨_ | written, rx'⟩ := r
    · exact (ih rx').pre fun m hm => hm.1
    · exact Triple.pure fun m hm => hm.2 (Option.some_ne_none _)

theorem drainLoop_owes (rounds : Nat) : ∀ n rx,
    Triple (Machine.Owes n) (drainLoop world rounds rx) (fun r m => m.Owes (n - r.1)) fun _ _ => True := by
  induction rounds with
  | zero => exact fun n rx => Triple.pure fun m hm => hm
  | succ rounds ih =>
    refine fun n rx => deadline_owes.bind fun polls => (drainOne_owes polls rx).bind fun r => ?_
    obtain ⟨_ | _, rx'⟩ := r
    · exact Triple.pure fun m hm => hm
    · refine ((ih (n - 1) rx').pre fun m hm => hm.2).bind fun r => Triple.pure fun m hm => ?_
      rwa [Nat.sub_sub, Nat.add_comm] at hm

/-- **Polling with no chain outstanding leaves none, unless it is given up.** -/
theorem busPoll_owes (p : Post) :
    Triple (Machine.Owes 0) (busPoll world p) (fun r m => m.Owes 1 ∧ ((∀ rx, r ≠ .timeout rx) → m.Owes 0))
      fun _ _ => True := by
  refine (postMessage_owes .tx p).bind fun ok => ?_
  cases ok with
  | false => exact Triple.pure fun m hm => ⟨Machine.Owes.mono hm (by decide), fun _ => hm⟩
  | true =>
    refine deadline_owes.bind fun polls => (pollLoop_owes p polls 1 p.rxBuf).post fun r m hm => ?_
    cases r with
    | refused => exact hm.elim
    | reply => exact ⟨hm.2.mono (by decide), fun _ => hm.2⟩
    | timeout rx => exact ⟨hm, fun h => absurd rfl (h rx)⟩

/-- **The drain loop counts the chains that came back.** -/
theorem busDrain_owes (p : Post) :
    Triple (Machine.Owes 1) (busDrain world p) (fun r m => m.Owes (2 - r.1)) fun _ _ => True := by
  refine (postMessage_owes .flush p).bind fun ok => ?_
  cases ok with
  | false => exact Triple.pure fun m hm => Machine.Owes.mono hm (show 1 ≤ 2 by decide)
  | true => exact drainLoop_owes 2 2 p.rxBuf

end Counting

/-! ## What a transaction leaves -/

/-- The calls of `V9P_Transact` with this `in_reset` returned with no chain outstanding. -/
def ReturnsClear (inReset : Bool) (log : List (Moment Machine)) : Prop :=
  ∀ mo ∈ log, ∀ n, mo.event = .returned n → mo.h.inReset = inReset → mo.w.Clear

/-- The device reports queue sizes that are powers of two, as it has to. -/
def World.SizesDivide (world : World) : Prop := ∀ t, world.queueSize t ≠ 0 → (world.queueSize t).toNat ∣ 65536

section Log

variable {b : Bool} {log : List (Moment Machine)} {mo : Moment Machine}

theorem returnsClear_cons_other (h : ∀ n, mo.event ≠ .returned n) :
    ReturnsClear b (mo :: log) ↔ ReturnsClear b log := by
  refine ⟨fun hall mo' hmo' => hall mo' (List.mem_cons_of_mem _ hmo'), fun hall mo' hmo' => ?_⟩
  rcases List.mem_cons.mp hmo' with rfl | hmo'
  · exact fun n hn => absurd hn (h n)
  · exact hall mo' hmo'

theorem returnsClear_returned {s : St Machine} {n : UInt32} : ReturnsClear b (s.logged (.returned n)).log ↔
    (s.h.inReset = b → s.w.Clear) ∧ ReturnsClear b s.log := by
  refine ⟨fun hall => ⟨hall _ List.mem_cons_self n rfl, fun mo' hmo' => hall mo' (List.mem_cons_of_mem _ hmo')⟩, ?_⟩
  rintro ⟨hmo, hall⟩ mo' hmo'
  rcases List.mem_cons.mp hmo' with rfl | hmo'
  · exact fun _ _ => hmo
  · exact hall mo' hmo'

theorem returnsClear_of_calm {log : List (Moment Machine)} (h : log.all (fun mo => !mo.h.inReset) = true) :
    ReturnsClear true log := by
  intro mo hmo n _ hin
  have hout := List.all_eq_true.mp h mo hmo
  rw [hin] at hout
  cases hout

end Log

section Fresh

variable {world : World} {m m' : Machine}

theorem unrevoked_of_still (h : m'.still = m.still) (hm : m.Unrevoked) : m'.Unrevoked := by
  intro q hq
  have hvq : m'.vq.map Line.still = m.vq.map Line.still := congrArg Machine.vq h
  rw [hq, Option.map_some] at hvq
  obtain ⟨q₀, hq₀, hsame⟩ := Option.map_eq_some_iff.mp hvq.symm
  exact (congrArg Line.revoked hsame).symm.trans (hm q₀ hq₀)

/-- A queue that was just set up has no chain on it. -/
theorem initVirtio_owes (hsizes : world.SizesDivide) (hvq : m.vq = none) :
    (v9pInitVirtio world m).2.Owes 0 ∧ (v9pInitVirtio world m).2.Unrevoked := by
  refine initVirtio_ind (P := fun _ m' => m'.Owes 0 ∧ m'.Unrevoked) hvq
    (fun m₁ status programmed n hdisc => ?_) fun t driverOk n _ _ hsize => ?_
  · have hnone : m₁.vq = none := hdisc.vq.trans hvq
    exact ⟨owes_of_none hnone, fun q hq => by cases hnone.symm.trans hq⟩
  · have hpos : 0 < (world.queueSize t).toNat := Nat.pos_of_ne_zero fun h0 => hsize (UInt16.toNat_inj.mp h0)
    refine ⟨fun q hq => ⟨[], ?_, le_rfl⟩, fun q hq => ?_⟩
    · cases hq
      exact tracks_init world.modern hpos (world.queueSize t).toNat_lt (hsizes t hsize)
    · cases hq
      rfl

end Fresh

/-- Where a run stands: `k` chains are outstanding at most, and so far the calls outside resets left chains behind
exactly if calls inside did. -/
structure Chained (world : World) (b : Bool) (k : Nat) (s : St Machine) : Prop where
  inReset : s.h.inReset = b
  traced : s.w.Traced world
  unrevoked : b = true → s.w.Unrevoked
  owes : ReturnsClear true s.log → s.w.Owes k
  same : ReturnsClear false s.log ↔ ReturnsClear true s.log

/-- A call of `V9P_Transact` or `V9P_Reset` is about to return, and it may have left chains behind. -/
structure Ending (world : World) (b : Bool) (s : St Machine) : Prop where
  inReset : s.h.inReset = b
  traced : s.w.Traced world
  owes : ReturnsClear true s.log → s.w.Owes 0
  outer : ReturnsClear true s.log → ReturnsClear false s.log
  nested : ReturnsClear false s.log → s.w.Clear → ReturnsClear true s.log

section Steps

variable {world : World} {b : Bool} {k : Nat} {s : St Machine}

theorem Chained.ending (h : Chained world b 0 s) : Ending world b s :=
  ⟨h.inReset, h.traced, h.owes, h.same.mpr, fun hc _ => h.same.mp hc⟩

theorem Chained.mono {k' : Nat} (h : Chained world b k s) (hle : k ≤ k') : Chained world b k' s :=
  ⟨h.inReset, h.traced, h.unrevoked, fun hc => (h.owes hc).mono hle, h.same⟩

theorem Chained.frame (h : Chained world b k s) (h' : Handler) (hin : h'.inReset = s.h.inReset) :
    Chained world b k { s with h := h' } := ⟨hin.trans h.inReset, h.traced, h.unrevoked, h.owes, h.same⟩

theorem Chained.moved {k' : Nat} (h : Chained world b k s) {w : Machine} (hstill : w.still = s.w.still)
    (howes : s.w.Owes k → w.Owes k') : Chained world b k' { s with w := w } :=
  ⟨h.inReset, traced_of_still hstill h.traced, fun hb => unrevoked_of_still hstill (h.unrevoked hb),
    fun hc => howes (h.owes hc), h.same⟩

theorem Chained.offline (h : Chained world b k s) {w : Machine} (hbus : w.bus = s.w.bus) :
    Chained world b k { s with w := w } := by
  have hvq : w.vq = s.w.vq := congrArg (·.2.2.1) hbus
  refine ⟨h.inReset, traced_of_bus hbus h.traced, fun hb q hq => ?_, fun hc q hq => ?_, h.same⟩
  · exact h.unrevoked hb q (hvq.symm.trans hq)
  · exact h.owes hc q (hvq.symm.trans hq)

theorem Chained.logged (h : Chained world b k s) {e : Event} (he : ∀ n, e ≠ .returned n) :
    Chained world b k (s.logged e) := by
  refine ⟨h.inReset, h.traced, h.unrevoked, fun hc => h.owes ?_, ?_⟩
  · exact (returnsClear_cons_other he).mp hc
  · exact (returnsClear_cons_other he).trans (h.same.trans (returnsClear_cons_other he).symm)

theorem chained_nextTag {E : Fault → St Machine → Prop} :
    Triple (Chained world b k) p9NextTag (fun _ => Chained world b k) E := by
  intro s hs
  exact (hs.frame _ rfl : Chained world b k s.tagged)

/-- The handshake of a reset returns from a transaction. -/
theorem Chained.returned (h : Chained world true k s) (n : UInt32) : Ending world true (s.logged (.returned n)) := by
  have hout : s.h.inReset = false → s.w.Clear := fun hf => by rw [h.inReset] at hf; cases hf
  refine ⟨h.inReset, h.traced, fun hc => ?_, fun hc => ?_, fun hc hclear => ?_⟩
  · obtain ⟨hclear, hc⟩ := returnsClear_returned.mp hc
    exact owes_of_clear (hclear h.inReset) (h.unrevoked rfl) (h.owes hc)
  · exact returnsClear_returned.mpr ⟨hout, h.same.mpr (returnsClear_returned.mp hc).2⟩
  · exact returnsClear_returned.mpr ⟨fun _ => hclear, h.same.mp (returnsClear_returned.mp hc).2⟩

/-- It returns with the reply, and nothing is outstanding. -/
theorem Chained.answered (h : Chained world true 0 s) (n : UInt32) : Chained world true 0 (s.logged (.returned n)) := by
  have hend := h.returned n
  refine ⟨hend.inReset, hend.traced, h.unrevoked, hend.owes, fun hc => ?_, hend.outer⟩
  refine hend.nested hc (clear_of_owes (h.owes (h.same.mp ?_)))
  exact fun mo hmo => hc mo (List.mem_cons_of_mem _ hmo)

/-- `V9P_Transact` returns to an operation. -/
theorem Ending.returned (h : Ending world false s) (n : UInt32) : Chained world false 0 (s.logged (.returned n)) := by
  have hin : s.h.inReset = true → s.w.Clear := fun ht => by rw [h.inReset] at ht; cases ht
  refine ⟨h.inReset, h.traced, fun hb => (by cases hb), fun hc => h.owes (returnsClear_returned.mp hc).2,
    fun hc => ?_, fun hc => ?_⟩
  · obtain ⟨hclear, hc⟩ := returnsClear_returned.mp hc
    exact returnsClear_returned.mpr ⟨hin, h.nested hc (hclear h.inReset)⟩
  · have hc := (returnsClear_returned.mp hc).2
    exact returnsClear_returned.mpr ⟨fun _ => clear_of_owes (h.owes hc), h.outer hc⟩

end Steps

/-! ## Runs -/

section Runs

variable {world : World}

/-- What is left of it at a fault. -/
def SameReturns (s : St Machine) : Prop := ReturnsClear false s.log ↔ ReturnsClear true s.log

/-- A transaction polls. -/
theorem chained_poll {b : Bool} {txSize : Nat} {s : St Machine} (hs : Chained world b 0 s) {polled : Polled}
    {w : Machine} (hpoll : busPoll world (s.post txSize) s.w = .ok polled w) :
    Chained world b 1 { s.sent txSize with w := w } ∧
      ((∀ rx, polled ≠ .timeout rx) → Chained world b 0 { s.sent txSize with w := w }) := by
  have hsent : Chained world b 0 (s.sent txSize) := hs.logged (by simp)
  have hstill : w.still = s.w.still := (busPoll_still _).ok rfl hpoll
  refine ⟨hsent.moved hstill fun ho => ?_, fun hr => hsent.moved hstill fun ho => ?_⟩
  · exact ((busPoll_owes _).ok ho hpoll).1
  · exact ((busPoll_owes _).ok ho hpoll).2 hr

/-- It drains the queue. -/
theorem chained_drain {b : Bool} {tag : UInt16} {s : St Machine} (hs : Chained world b 1 s) {k : Nat} {rx : Mem}
    {w : Machine} (hdrain : busDrain world (s.flush tag) s.w = .ok (k, rx) w) :
    Chained world b (2 - k) (s.tagged.received w rx) := by
  have htagged : Chained world b 1 s.tagged := hs.frame _ rfl
  have hmoved : Chained world b (2 - k) { s.tagged with w := w } :=
    htagged.moved ((busDrain_still _).ok rfl hdrain) fun ho => (busDrain_owes _).ok ho hdrain
  exact hmoved.frame _ rfl

theorem chained_nested (reset : Client Machine Bool) (txSize : Nat) :
    Triple (Chained world true 0) (v9pTransactWith (busLink world) reset txSize)
      (fun n s => Ending world true s ∧ (n ≠ 0 → Chained world true 0 s)) fun _ => SameReturns := by
  refine transact_rule (R := fun n s => Chained world true 2 s ∧ (n ≠ 0 → Chained world true 0 s))
    (T := fun _ _ => Chained world true 1) ?_ ?_ ?_ ?_ (fun tx tag => ?_) ?_
  · intro s e w hs _
    exact (hs.logged (e := .send _) (by simp)).same
  · intro s w hs hpoll
    exact ⟨(chained_poll hs hpoll).1.mono (by decide), fun h => absurd rfl h⟩
  · intro s n rx w hs hpoll
    have hchained : Chained world true 0 ((s.sent txSize).received w rx) :=
      ((chained_poll hs hpoll).2 (by simp)).frame _ rfl
    exact ⟨hchained.mono (by decide), fun _ => hchained⟩
  · intro s rx w hs hpoll
    exact (chained_poll hs hpoll).1.frame _ rfl
  · refine abandon_rule (B := fun _ => False) ?_ ?_ ?_ fun s hs => hs.elim
    · exact fun s e w hs _ => hs.same
    · exact fun s k rx w hs hdrain _ => ⟨(chained_drain hs hdrain).mono (by omega), fun h => absurd rfl h⟩
    · exact fun s k rx w hs _ _ hin => absurd (hs.inReset.symm.trans hin) (by decide)
  · exact fun n s hs => ⟨hs.1.returned n, fun hn => (hs.2 hn).answered n⟩

/-- A request of the handshake: when it is answered, nothing is left. -/
theorem chained_request {α : Type} {nextTag : Client Machine UInt16}
    (htag : Triple (Chained world true 0) nextTag (fun _ => Chained world true 0) fun _ => SameReturns) (m : TMsg)
    (parse : Mem → UInt32 → Except Int32 α) :
    Triple (Chained world true 0) (p9Request (v9pTransactAt (busLink world) 0) nextTag m parse)
      (fun r s => Ending world true s ∧ (∀ a, r = .ok a → Chained world true 0 s)) fun _ => SameReturns := by
  refine request_rule (htag.post fun _ s hs => hs.frame _ rfl) (chained_nested _ _) fun n s hs =>
    ⟨hs.1, fun a ha => hs.2 ?_⟩
  rintro rfl
  cases ha

/-- A reset ends with what its handshake left. -/
theorem chained_reset (hsizes : world.SizesDivide) :
    Triple (fun s => s.h.inReset = false ∧ s.w.Traced world ∧ SameReturns s)
      (v9pReset (busLink world) (v9pTransactAt (busLink world) 0)) (fun _ => Ending world false)
      fun _ => SameReturns := by
  refine reset_rule (A := fun s => s.h.inReset = true ∧ s.w.vq = none ∧ SameReturns s) (C := Chained world true 0)
    (D := Chained world true 0) (G := Chained world true 0) (Z := fun _ => Ending world true) ?_ ?_ ?_ ?_
    (fun root => ?_) ?_ ?_ ?_
  · exact fun s hs => ⟨hs.1, rfl, cleanupVirtio_vq hs.2.1, hs.2.2⟩
  · intro s w hs hinit
    have howes := initVirtio_owes hsizes hs.2.1
    have htraced : (v9pInitVirtio world s.w).2.Traced world := traced_init hs.2.1
    rw [show v9pInitVirtio world s.w = (true, w) from hinit] at howes htraced
    exact ⟨hs.1, htraced, fun _ => howes.2, fun _ => howes.1, hs.2.2⟩
  · intro s w hs hinit
    have howes := initVirtio_owes hsizes hs.2.1
    have htraced : (v9pInitVirtio world s.w).2.Traced world := traced_init hs.2.1
    rw [show v9pInitVirtio world s.w = (false, w) from hinit] at howes htraced
    exact ⟨hs.1, htraced, fun _ => howes.1, hs.2.2.mpr, fun hc _ => hs.2.2.mp hc⟩
  · refine (chained_request (fun _ hs => hs) _ _).post fun r s hs => ?_
    cases r with
    | error e => exact hs.1
    | ok msize => exact (hs.2 msize rfl).frame _ rfl
  · refine ((chained_request chained_nextTag _ _).pre fun s hs => hs.2).post fun r s hs => ?_
    cases r with
    | error e => exact hs.1
    | ok u => exact hs.2 u rfl
  · intro s pool w hs _ hcreate
    have hbus := offline_fidPoolCreate world s.w
    rw [hcreate] at hbus
    have hpooled : Chained world true 0 (s.pooled pool w) := (hs.offline hbus).frame _ rfl
    exact (hpooled.logged (by simp)).ending
  · exact fun s hs _ => hs.ending
  · intro ok s hs
    have hlog : ∀ b, ReturnsClear b (St.logged { s with h := { s.h with inReset := false } } (.reset ok)).log ↔
        ReturnsClear b s.log := fun b => returnsClear_cons_other (by simp)
    exact ⟨rfl, hs.traced, fun hc => hs.owes ((hlog true).mp hc), fun hc => (hlog false).mpr
      (hs.outer ((hlog true).mp hc)), fun hc hclear => (hlog true).mpr (hs.nested ((hlog false).mp hc) hclear)⟩

/-- **A transaction outside a reset.** -/
theorem chained_transact (hsizes : world.SizesDivide) (txSize : Nat) :
    Triple (Chained world false 0) (v9pTransact (busLink world) txSize) (fun _ => Chained world false 0)
      fun _ => SameReturns := by
  refine transact_rule (R := fun _ => Ending world false) (T := fun _ _ => Chained world false 1) ?_ ?_ ?_ ?_
    (fun tx tag => ?_) fun n s hs => hs.returned n
  · intro s e w hs _
    exact (hs.logged (e := .send _) (by simp)).same
  · exact fun s w hs hpoll => ((chained_poll hs hpoll).2 (by simp)).ending
  · intro s n rx w hs hpoll
    have hchained : Chained world false 0 ((s.sent txSize).received w rx) :=
      ((chained_poll hs hpoll).2 (by simp)).frame _ rfl
    exact hchained.ending
  · exact fun s rx w hs hpoll => (chained_poll hs hpoll).1.frame _ rfl
  · refine abandon_rule ?_ ?_ ?_ (chained_reset hsizes)
    · exact fun s e w hs _ => hs.same
    · intro s k rx w hs hdrain hk
      -- outside a reset the queue is left as it is only when both chains came back
      have hk2 : 2 - k = 0 := by
        have hnot : ¬ k < 2 := fun hlt => hk ⟨hlt, hs.inReset⟩
        omega
      exact (hk2 ▸ chained_drain hs hdrain : Chained world false 0 _).ending
    · intro s k rx w hs hdrain _ hin
      have hlogged := (chained_drain hs hdrain).logged (e := .escalate tx) (by simp)
      exact ⟨hin, hlogged.traced, hlogged.same⟩

/-- It holds between transactions. -/
def chainUpkeep (hsizes : world.SizesDivide) : Upkeep (busLink world) where
  Inv := Chained world false 0
  Safe := fun _ => SameReturns
  hang := fun hs => hs.same
  frame := fun h hin _ hs => hs.frame h hin
  pooled := fun _ _ hs => hs.frame _ rfl
  alloc := fun {s} _ hs => hs.offline (offline_grant s.w)
  record := fun {s e} he hs => hs.logged fun n hn => by rw [hn] at he; exact he
  transact := chained_transact hsizes

/-- Taking the interrupt away revokes chains, and there are none. -/
theorem owes_removeInterrupt {m : Machine} {n : Nat} (h : m.Owes n) : (v9pRemoveInterrupt world m).2.Owes n := by
  intro q' hq'
  obtain ⟨q, revoked, hvq, rfl⟩ := removeInterrupt_vq hq'
  exact h q hvq

theorem chained_removeInterrupt : Steps (v9pRemoveInterrupt world) (Chained world false 0) (Chained world false 0) := by
  intro s hs
  refine ⟨hs.inReset, traced_removeInterrupt hs.traced, fun hb => ?_, fun hc => owes_removeInterrupt (hs.owes hc),
    hs.same⟩
  cases hb

theorem chained_init (hsizes : world.SizesDivide) {s : St Machine} (hs : Chained world false 0 s)
    (hvq : s.w.vq = none) : Chained world false 0 (stepped (v9pInitVirtio world) s) := by
  refine ⟨hs.inReset, traced_init hvq, fun hb => ?_, fun _ => (initVirtio_owes hsizes hvq).1, hs.same⟩
  cases hb

theorem boot_chained (txBuf rxBuf : Mem) : Chained world false 0 ⟨startHandler txBuf rxBuf, .boot, []⟩ := by
  refine ⟨rfl, boot_traced, fun hb => ?_, fun _ => owes_of_none rfl, fun _ => ?_, fun _ => ?_⟩
  · cases hb
  · exact fun mo hmo => absurd hmo List.not_mem_nil
  · exact fun mo hmo => absurd hmo List.not_mem_nil

theorem startEnd_sameReturns (hsizes : world.SizesDivide) (calls lateCalls : List Callback) (txBuf rxBuf : Mem) :
    SameReturns (startEnd world calls lateCalls txBuf rxBuf) := by
  have hstart : Triple (fun s => Chained world false 0 s ∧ s.w.vq = none) (start world calls lateCalls)
      (fun _ => SameReturns) fun _ => SameReturns :=
    Upkeep.start (U := chainUpkeep hsizes) (V := chainUpkeep hsizes)
      (Q := SameReturns) (fun _ _ h => h)
      (fun _ h hs => ⟨hs.1.offline h, vq_of_bus h hs.2⟩) (fun _ h hs => hs.offline h) (fun _ h hs => hs.offline h)
      (fun s hs => chained_init hsizes hs.1 hs.2) (fun s w hs => hs.frame (s := ⟨s.h, w, s.log⟩) _ rfl)
      (fun s w hs => hs.frame (s := ⟨s.h, w, s.log⟩) _ rfl) (fun hs _ => hs.same) chained_removeInterrupt
      (fun _ hs => hs.1.same) (fun _ hs => hs.same) (fun _ hs => hs.same) (fun _ hs => hs) (fun _ hs => hs)
      (fun _ hs => hs) fun _ hs => hs
  exact hstart.final (fun _ h => h) ⟨boot_chained txBuf rxBuf, rfl⟩

/-- **No chain survives a call of `V9P_Transact`, exactly when none survives a call inside `V9P_Reset`**, in every run
of `_start` with every device. -/
theorem returns_clear_iff (world : World) (hsizes : world.SizesDivide) (calls lateCalls : List Callback)
    (txBuf rxBuf : Mem) : ReturnsClear false (startEnd world calls lateCalls txBuf rxBuf).log ↔
      ReturnsClear true (startEnd world calls lateCalls txBuf rxBuf).log :=
  startEnd_sameReturns hsizes calls lateCalls txBuf rxBuf

/-- **A call of `V9P_Transact` returns with no chain on the queue**, on every path and in every run, unless one that
`V9P_Reset` made for its handshake returned with chains outstanding. -/
theorem no_chain_survives (world : World) (hsizes : world.SizesDivide) (calls lateCalls : List Callback)
    (txBuf rxBuf : Mem) (hclear : ReturnsClear true (startEnd world calls lateCalls txBuf rxBuf).log) :
    ∀ mo ∈ (startEnd world calls lateCalls txBuf rxBuf).log, ∀ n, mo.event = .returned n →
      mo.h.inReset = false → mo.w.Clear :=
  (startEnd_sameReturns hsizes calls lateCalls txBuf rxBuf).mpr hclear

end Runs

/-! ## A device that does not answer -/

/-- From now on the device does nothing. -/
def Machine.Silent (world : World) (m : Machine) : Prop := ∀ t, m.now ≤ t → world.acts t = []

/-- There is a queue with room for a request, and nothing on it. -/
def Machine.Empty (m : Machine) : Prop := ∃ q, m.vq = some q ∧ Tracks q.traffic [] ∧ 2 ≤ q.traffic.vq.num

/-- There is a chain on the queue, and the device has not completed it. -/
def Machine.Stuck (m : Machine) : Prop :=
  ∃ q out, m.vq = some q ∧ out ≠ [] ∧ Tracks q.traffic out ∧ q.traffic.returned.length = q.traffic.completed.length

section Silence

variable {world : World} {m : Machine} {q : Line}

theorem Machine.Silent.later (h : m.Silent world) {m' : Machine} (hle : m.now ≤ m'.now) : m'.Silent world :=
  fun t ht => h t (hle.trans ht)

theorem theQueue_eq (hq : m.vq = some q) : theQueue m = .ok q m := by
  unfold theQueue
  rw [get_bind, hq]
  rfl

/-- The driver looks in vain. -/
theorem look_silent (hq : m.vq = some q) (hsilent : m.Silent world) (hidle : q.traffic.collect = .ok (none, q.traffic))
    (rx : Mem) : look world rx m = .ok (none, rx) { m with now := m.now + 1 } := by
  have hacted : (if m.Live then q.acts m.texts rx (world.acts m.now) else (q, rx)) = (q, rx) := by
    rw [hsilent m.now le_rfl, Line.acts, ite_self]
  unfold look
  rw [run_bind_ok (theQueue_eq hq), get_bind]
  simp only [hacted, hidle]
  show EStateM.Result.ok (none, rx) { m with now := m.now + 1, vq := some q } = _
  rw [← hq]

theorem pollLoop_silent (hidle : q.traffic.collect = .ok (none, q.traffic)) (p : Post) (rx : Mem) (polls : Nat) :
    ∀ {m : Machine}, m.vq = some q → m.Silent world →
      pollLoop world p polls rx m = .ok (.timeout rx) { m with now := m.now + polls } := by
  induction polls with
  | zero => exact fun _ _ => rfl
  | succ polls ih =>
    intro m hq hsilent
    unfold pollLoop
    rw [run_bind_ok (look_silent hq hsilent hidle rx)]
    refine (ih (m := { m with now := m.now + 1 }) hq (hsilent.later (Nat.le_succ _))).trans ?_
    rw [Nat.add_assoc, Nat.add_comm 1]

theorem drainOne_silent (hidle : q.traffic.collect = .ok (none, q.traffic)) (rx : Mem) (polls : Nat) :
    ∀ {m : Machine}, m.vq = some q → m.Silent world →
      drainOne world polls rx m = .ok (false, rx) { m with now := m.now + polls } := by
  induction polls with
  | zero => exact fun _ _ => rfl
  | succ polls ih =>
    intro m hq hsilent
    unfold drainOne
    rw [run_bind_ok (look_silent hq hsilent hidle rx)]
    refine (ih (m := { m with now := m.now + 1 }) hq (hsilent.later (Nat.le_succ _))).trans ?_
    rw [Nat.add_assoc, Nat.add_comm 1]

/-- The queue after posting: what was to be collected before is what is to be collected. -/
theorem postMessage_posted {cookie : Cookie} {p : Post} {t : Traffic Cookie} (hq : m.vq = some q)
    (hpost : q.traffic.post (fun n => if n = 0 then ⟨world.phys cookie.block, UInt32.ofNat p.tx.length⟩ else
      ⟨world.phys .rx, p.msize⟩) 1 1 (some cookie) = .ok (0, t)) :
    postMessage world cookie p m =
      .ok true { m.stored cookie p.tx with vq := some { q with traffic := t, sent := q.sent ++ [p.tx] } } := by
  unfold postMessage
  rw [run_bind_ok (theQueue_eq hq), modify_bind]
  simp only [hpost]
  rfl

theorem postMessage_refused {cookie : Cookie} {p : Post} {t : Traffic Cookie} (hq : m.vq = some q)
    (hpost : q.traffic.post (fun n => if n = 0 then ⟨world.phys cookie.block, UInt32.ofNat p.tx.length⟩ else
      ⟨world.phys .rx, p.msize⟩) 1 1 (some cookie) = .ok (-1, t)) :
    postMessage world cookie p m = .ok false { m.stored cookie p.tx with vq := some { q with traffic := t } } := by
  unfold postMessage
  rw [run_bind_ok (theQueue_eq hq), modify_bind]
  simp only [hpost]
  rfl

/-- A message on an empty queue is posted, and nothing comes of it. -/
theorem busPoll_silent (hempty : m.Empty) (hsilent : m.Silent world) (p : Post) :
    ∃ m', busPoll world p m = .ok (.timeout p.rxBuf) m' ∧ m'.Stuck ∧ m.now ≤ m'.now := by
  obtain ⟨q, hq, htracks, htwo⟩ := hempty
  have hroom : ((1 : UInt32) + 1).toNat ≤ q.traffic.vq.numFree.toNat := by
    have hcount := htracks.inv.count
    rw [List.map_nil, List.map_nil, List.sum_nil, Nat.add_zero] at hcount
    rw [hcount]
    exact htwo
  obtain ⟨t, c, hpost, ht⟩ := htracks.post_of_room _ (by decide) (Option.some_ne_none Cookie.tx) hroom
  obtain ⟨hcompleted, hreturned⟩ := post_histories hpost
  have hall : t.returned.length = t.completed.length := by
    rw [hcompleted, hreturned]
    exact htracks.all_returned
  set q' : Line := { q with traffic := t, sent := q.sent ++ [p.tx] } with hq'
  have hidle : q'.traffic.collect = .ok (none, q'.traffic) := ht.collect_idle hall
  set posted : Machine := { m.stored .tx p.tx with now := m.now + 1, vq := some q' }
  have hlater : posted.Silent world := hsilent.later (Nat.le_succ _)
  refine ⟨{ posted with now := posted.now + (world.checks m.now + 1) * clockCheckInterval }, ?_,
    ⟨q', _, rfl, List.append_ne_nil_of_right_ne_nil _ (List.cons_ne_nil _ _), ht, hall⟩,
    (Nat.le_succ _).trans (Nat.le_add_right _ _)⟩
  unfold busPoll
  rw [run_bind_ok (postMessage_posted hq hpost)]
  exact pollLoop_silent hidle p p.rxBuf _ rfl hlater

/-- Neither does anything come of the flush, whether there is room for it or not. -/
theorem busDrain_silent (hstuck : m.Stuck) (hsilent : m.Silent world) (p : Post) :
    ∃ m', busDrain world p m = .ok (0, p.rxBuf) m' ∧ m'.Stuck ∧ m.now ≤ m'.now := by
  obtain ⟨q, out, hq, hout, htracks, hall⟩ := hstuck
  rcases htracks.post _ (by decide : (1 : UInt32) + 1 ≠ 0) (Option.some_ne_none Cookie.flush) with
    hpost | ⟨t, c, hpost, ht, -⟩
  · refine ⟨{ m.stored .flush p.tx with vq := some q }, ?_, ⟨q, out, rfl, hout, htracks, hall⟩, le_rfl⟩
    unfold busDrain
    rw [run_bind_ok (postMessage_refused hq hpost)]
    rfl
  · obtain ⟨hcompleted, hreturned⟩ := post_histories hpost
    have hall' : t.returned.length = t.completed.length := by rw [hcompleted, hreturned, hall]
    set q' : Line := { q with traffic := t, sent := q.sent ++ [p.tx] } with hq'
    have hidle : q'.traffic.collect = .ok (none, q'.traffic) := ht.collect_idle hall'
    set posted : Machine := { m.stored .flush p.tx with now := m.now + 1, vq := some q' }
    have hlater : posted.Silent world := hsilent.later (Nat.le_succ _)
    have hdeadline : deadline world { m.stored .flush p.tx with vq := some q' } =
        .ok ((world.checks m.now + 1) * clockCheckInterval) posted := rfl
    refine ⟨{ posted with now := posted.now + (world.checks m.now + 1) * clockCheckInterval }, ?_,
      ⟨q', _, rfl, List.append_ne_nil_of_right_ne_nil _ (List.cons_ne_nil _ _), ht, hall'⟩,
      (Nat.le_succ _).trans (Nat.le_add_right _ _)⟩
    unfold busDrain
    rw [run_bind_ok (postMessage_posted hq hpost)]
    simp only [if_true]
    unfold drainLoop
    rw [run_bind_ok hdeadline, run_bind_ok (drainOne_silent hidle p.rxBuf _ rfl hlater)]
    rfl

/-- A device that sets up its queue whenever it is asked to, and does nothing else. -/
structure World.Unanswering (world : World) : Prop where
  silent : ∀ t, world.acts t = []
  sizes : world.SizesDivide
  room : ∀ t, 2 ≤ (world.queueSize t).toNat
  willing : ∀ m : Machine, m.vq = none → (v9pInitVirtio world m).1 = true

/-- The device runs on the queue, and holds a chain that it does not complete. -/
structure Machine.Stalled (m : Machine) : Prop where
  live : m.Live
  unrevoked : m.Unrevoked
  stuck : m.Stuck

theorem Machine.Stalled.not_clear (h : m.Stalled) : ¬ m.Clear := by
  obtain ⟨q, out, hq, hout, htracks, -⟩ := h.stuck
  obtain ⟨e, he⟩ := List.exists_mem_of_ne_nil out hout
  intro hclear
  have hmem : e.1 ∈ q.outstanding :=
    (htracks.mem_outstanding e.1).mpr ⟨(h.unrevoked q hq).le.trans (Nat.zero_le _), List.mem_map_of_mem he⟩
  rw [hclear q hq] at hmem
  exact List.not_mem_nil hmem

theorem World.Unanswering.hush (h : world.Unanswering) : m.Silent world := fun t _ => h.silent t

/-- The device runs on a fresh queue. -/
theorem World.Unanswering.init (h : world.Unanswering) (hvq : m.vq = none) :
    (v9pInitVirtio world m).2.Live ∧ (v9pInitVirtio world m).2.Unrevoked ∧ (v9pInitVirtio world m).2.Empty := by
  have hup : (v9pInitVirtio world m).1 = true → (v9pInitVirtio world m).2.Live ∧ (v9pInitVirtio world m).2.Empty := by
    refine initVirtio_ind (P := fun ok m' => ok = true → m'.Live ∧ m'.Empty) hvq
      (fun _ _ _ _ _ h => by cases h) fun t driverOk n _ hbit hsize _ => ?_
    have hpos : 0 < (world.queueSize t).toNat := Nat.pos_of_ne_zero fun h0 => hsize (UInt16.toNat_inj.mp h0)
    exact ⟨⟨hbit, Option.some_ne_none _, rfl⟩, _, rfl,
      tracks_init world.modern hpos (world.queueSize t).toNat_lt (h.sizes t hsize), h.room t⟩
  obtain ⟨hlive, hempty⟩ := hup (h.willing m hvq)
  exact ⟨hlive, (initVirtio_owes h.sizes hvq).2, hempty⟩

/-- A transaction whose poll is known to be given up, with no completion to the flush. -/
theorem transact_unanswered {L : Link Machine} {reset : Client Machine Bool} {txSize : Nat}
    {P T R : St Machine → Prop} {Q : UInt32 → St Machine → Prop} {E : Fault → St Machine → Prop}
    (hpoll : ∀ s, P s → ∃ rx w, L.poll (s.post txSize) s.w = .ok (.timeout rx) w ∧ T ((s.sent txSize).received w rx))
    (habandon : ∀ tx tag, Triple T (abandon L reset tx tag) (fun _ => R) E)
    (hreturn : ∀ s, R s → Q 0 (s.logged (.returned 0))) : Triple P (v9pTransactWith L reset txSize) Q E := by
  have honly : ∀ {s r}, P s → L.poll (s.post txSize) s.w = r →
      ∃ rx w, r = .ok (.timeout rx) w ∧ T ((s.sent txSize).received w rx) := by
    intro s r hs hr
    obtain ⟨rx, w, hok, ht⟩ := hpoll s hs
    exact ⟨rx, w, hr.symm.trans hok, ht⟩
  refine transact_rule (R := fun n s => n = 0 ∧ R s) (T := fun _ _ => T) ?_ ?_ ?_ ?_
    (fun tx tag => (habandon tx tag).post fun _ s hs => ⟨rfl, hs⟩) ?_
  · intro s e w hs hr
    obtain ⟨rx, w', hok, -⟩ := honly hs hr
    cases hok
  · intro s w hs hr
    obtain ⟨rx, w', hok, -⟩ := honly hs hr
    cases hok
  · intro s n rx w hs hr
    obtain ⟨rx', w', hok, -⟩ := honly hs hr
    cases hok
  · intro s rx w hs hr
    obtain ⟨rx', w', hok, ht⟩ := honly hs hr
    cases hok
    exact ht
  · rintro n s ⟨rfl, hs⟩
    exact hreturn s hs

theorem abandon_unanswered {L : Link Machine} {reset : Client Machine Bool} {tx : List UInt8} {tag : UInt16}
    {T B R : St Machine → Prop} {E : Fault → St Machine → Prop}
    (hdrain : ∀ s, T s → ∃ rx w, L.drain (s.flush tag) s.w = .ok (0, rx) w ∧
      (s.h.inReset = true → R (s.tagged.received w rx)) ∧
      (s.h.inReset = false → B ((s.tagged.received w rx).logged (.escalate tx))))
    (hreset : Triple B reset (fun _ => R) E) : Triple T (abandon L reset tx tag) (fun _ => R) E := by
  refine abandon_rule ?_ ?_ ?_ hreset
  · intro s e w hs hr
    obtain ⟨rx, w', hok, -⟩ := hdrain s hs
    cases hok.symm.trans hr
  · intro s k rx w hs hr hk
    obtain ⟨rx', w', hok, hin, -⟩ := hdrain s hs
    cases hok.symm.trans hr
    refine hin (Bool.eq_true_of_not_eq_false fun hf => hk ⟨by decide, hf⟩)
  · intro s k rx w hs hr _ hf
    obtain ⟨rx', w', hok, -, hout⟩ := hdrain s hs
    cases hok.symm.trans hr
    exact hout hf

/-- A transaction of the handshake: its chains stay with the device. -/
theorem silent_nested (h : world.Unanswering) (reset : Client Machine Bool) (txSize : Nat) :
    Triple (fun s => s.h.inReset = true ∧ s.w.Live ∧ s.w.Unrevoked ∧ s.w.Empty)
      (v9pTransactWith (busLink world) reset txSize) (fun n s => n = 0 ∧ s.h.inReset = true ∧ s.w.Stalled)
      fun _ _ => False := by
  refine transact_unanswered (T := fun s => s.h.inReset = true ∧ s.w.Stalled) ?_
    (fun tx tag => abandon_unanswered (B := fun _ => False) ?_ fun s hs => hs.elim) fun s hs => ⟨rfl, hs⟩
  · rintro s ⟨hin, hlive, hrev, hempty⟩
    obtain ⟨w, hpoll, hstuck, -⟩ := busPoll_silent hempty h.hush (s.post txSize)
    have hstill : w.still = s.w.still := (busPoll_still _).ok rfl hpoll
    exact ⟨_, w, hpoll, hin, (live_of_still hstill).mpr hlive, unrevoked_of_still hstill hrev, hstuck⟩
  · rintro s ⟨hin, hlive, hrev, hstuck⟩
    obtain ⟨w, hdrain, hstuck', -⟩ := busDrain_silent hstuck h.hush (s.flush tag)
    have hstill : w.still = s.w.still := (busDrain_still _).ok rfl hdrain
    refine ⟨_, w, hdrain, fun _ => ?_, fun hf => absurd (hin.symm.trans hf) (by decide)⟩
    exact ⟨hin, (live_of_still hstill).mpr hlive, unrevoked_of_still hstill hrev, hstuck'⟩

/-- So do those of the transaction that was reset for. -/
theorem silent_transact (h : world.Unanswering) (txSize : Nat) :
    Triple (fun s => s.h.inReset = false ∧ s.w.Traced world ∧ s.w.Empty) (v9pTransact (busLink world) txSize)
      (fun n s => n = 0 ∧ s.w.Stalled ∧ ¬ ReturnsClear false s.log) fun _ _ => False := by
  refine transact_unanswered (T := fun s => s.h.inReset = false ∧ s.w.Traced world ∧ s.w.Stuck)
    (R := fun s => s.h.inReset = false ∧ s.w.Stalled) ?_
    (fun tx tag => abandon_unanswered (B := fun s => s.h.inReset = false ∧ s.w.Traced world) ?_ ?_) ?_
  · rintro s ⟨hin, htraced, hempty⟩
    obtain ⟨w, hpoll, hstuck, -⟩ := busPoll_silent hempty h.hush (s.post txSize)
    exact ⟨_, w, hpoll, hin, traced_of_still ((busPoll_still _).ok rfl hpoll) htraced, hstuck⟩
  · rintro s ⟨hin, htraced, hstuck⟩
    obtain ⟨w, hdrain, -⟩ := busDrain_silent hstuck h.hush (s.flush tag)
    refine ⟨_, w, hdrain, fun ht => absurd (hin.symm.trans ht) (by decide), fun _ => ?_⟩
    exact ⟨hin, traced_of_still ((busDrain_still _).ok rfl hdrain) htraced⟩
  · refine reset_rule (A := fun s => s.h.inReset = true ∧ s.w.vq = none)
      (C := fun s => s.h.inReset = true ∧ s.w.Live ∧ s.w.Unrevoked ∧ s.w.Empty) (D := fun _ => False)
      (G := fun _ => False) (Z := fun _ s => s.w.Stalled) ?_ ?_ ?_ ?_ (fun _ => ?_) ?_ ?_ ?_
    · exact fun s hs => ⟨hs.1, rfl, cleanupVirtio_vq hs.2⟩
    · intro s w hs hinit
      have hup := h.init hs.2
      rw [show v9pInitVirtio world s.w = (true, w) from hinit] at hup
      exact ⟨hs.1, hup⟩
    · intro s w hs hinit
      have hok := h.willing s.w hs.2
      rw [show v9pInitVirtio world s.w = (false, w) from hinit] at hok
      cases hok
    · refine request_rule (S := fun s : St Machine => s.h.inReset = true ∧ s.w.Live ∧ s.w.Unrevoked ∧ s.w.Empty)
        (fun s hs => hs) (silent_nested h _ _) ?_
      rintro n s ⟨rfl, hs⟩
      exact hs.2
    · exact fun s hs => hs.2.elim
    · exact fun s pool w hs => hs.elim
    · exact fun s hs => hs.elim
    · exact fun ok s hs => ⟨rfl, hs⟩
  · rintro s ⟨hin, hstalled⟩
    refine ⟨rfl, hstalled, fun hall => hstalled.not_clear ?_⟩
    exact hall _ List.mem_cons_self 0 rfl hin

/-- The mount fails, and leaves a chain with a device that runs. -/
theorem silent_mount (h : world.Unanswering) :
    Triple (fun s => s.h.inReset = false ∧ s.w.Traced world ∧ s.w.Empty) (mount (busLink world))
      (fun ok s => ok = false ∧ s.w.Stalled ∧ ¬ ReturnsClear false s.log) fun _ _ => False := by
  refine mount_rule (D := fun _ => False) (G := fun _ => False) (N := fun _ => False) ?_ (fun _ => ?_) ?_ ?_
    fun _ s hs => hs.elim
  · refine request_rule (S := fun s : St Machine => s.h.inReset = false ∧ s.w.Traced world ∧ s.w.Empty)
      (fun s hs => hs) (silent_transact h _) ?_
    rintro n s ⟨rfl, hs⟩
    exact ⟨rfl, hs⟩
  · exact fun s hs => hs.2.elim
  · exact fun s w hs => hs.elim
  · exact fun s w hs => hs.elim

/-- The queue is empty when the handshake begins. -/
theorem World.Unanswering.mapped_empty (h : world.Unanswering) {txBuf rxBuf : Mem} :
    (mappedState world ⟨startHandler txBuf rxBuf, .boot, []⟩).w.Empty := by
  have hvq : (stepped (findDevice world 5) (stepped (grant world) ⟨startHandler txBuf rxBuf, .boot, []⟩)).w.vq = none :=
    found_vq rfl
  obtain ⟨-, -, q, hq, hrest⟩ := h.init hvq
  exact ⟨q, (congrArg (·.2.2.1) (mapped_bus world _)).trans hq, hrest⟩

/-- What `_start` leaves when nothing fails before the handshake. -/
theorem silent_start (h : world.Unanswering) {txBuf rxBuf : Mem} (calls lateCalls : List Callback)
    (hboots : Boots world ⟨startHandler txBuf rxBuf, .boot, []⟩) :
    ¬ ReturnsClear false (startEnd world calls lateCalls txBuf rxBuf).log := by
  have hmount : Triple (· = mappedState world ⟨startHandler txBuf rxBuf, .boot, []⟩) (mount (busLink world))
      (fun ok s => if ok then False else ¬ ReturnsClear false s.log) fun _ s => ¬ ReturnsClear false s.log := by
    refine (silent_mount h).conseq ?_ ?_ fun _ _ hs => hs.elim
    · rintro s rfl
      exact ⟨rfl, mapped_traced rfl, h.mapped_empty⟩
    · rintro ok s ⟨rfl, -, hs⟩
      exact hs
  have hstart : Triple (· = ⟨startHandler txBuf rxBuf, .boot, []⟩) (start world calls lateCalls)
      (fun _ s => ¬ ReturnsClear false s.log) fun _ s => ¬ ReturnsClear false s.log :=
    hboots.start_rule hmount (fun _ hs => hs.elim) (steps_log (Q := fun log => ¬ ReturnsClear false log))
      (steps_log (Q := fun log => ¬ ReturnsClear false log)) (steps_log (Q := fun log => ¬ ReturnsClear false log))
  exact hstart.final (fun _ hs => hs) rfl

end Silence

/-- A device that is set up and never answers. -/
def silentWorld : World := { politeWorld with acts := fun _ => [] }

theorem silent_unanswering : silentWorld.Unanswering := by
  refine ⟨fun _ => rfl, fun _ _ => ?_, fun _ => ?_, fun _ _ => rfl⟩
  · exact (by decide : 128 ∣ 65536)
  · exact (by decide : 2 ≤ 128)

theorem boots_silent : Boots silentWorld coldState := by decide +kernel

theorem brief_sizes : briefWorld.SizesDivide := fun _ _ => (by decide : 128 ∣ 65536)

/-- The handshake of the mount times out, and so does that of the reset: `V9P_Transact` returns with chains that the
device may still complete. -/
theorem silent_keeps_chains :
    ¬ ReturnsClear false (startEnd silentWorld [] [] (fun _ => 0) fun _ => 0).log :=
  silent_start silent_unanswering [] [] boots_silent

theorem returns_clear_iff_silent : silentWorld.SizesDivide ∧
    (ReturnsClear false (startEnd silentWorld [] [] (fun _ => 0) fun _ => 0).log ↔
      ReturnsClear true (startEnd silentWorld [] [] (fun _ => 0) fun _ => 0).log) :=
  ⟨silent_unanswering.sizes, returns_clear_iff silentWorld silent_unanswering.sizes [] [] _ _⟩

end Virtio9P
