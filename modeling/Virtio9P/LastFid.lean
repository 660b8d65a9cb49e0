import Virtio9P.Sessions
import Virtio9P.Upkeep

/-!
# As long as the fids last

A callback draws a fid for each path that it walks to, and a session counts how many are left. When none is left, the
counter of the pool runs over with the next one (`Overruns`). `UnlessOver` is what can be said without counting: a
computation does what it should, unless the counter has run over when it ends. A rule with one fid left is such a rule
(`UnlessOver.of_session`), and they can be put together (`UnlessOver.bind`).
-/

namespace Virtio9P

open Lib

variable {W F N α β : Type} {L : Link W} {sys : FileSystem F N}

/-- The counter of the pool ran over at some moment. -/
def RanOver (s : St W) : Prop := ¬ NoWrap s.log

/-- No fid is left. -/
def NoneLeft (s : St W) : Prop := ∃ pool, s.h.fidPool = some pool ∧ pool.left = 0

/-- From `P`, the computation ends with a value in `Q`, unless the counter runs over. -/
def UnlessOver (P : St W → Prop) (x : Client W α) (Q : α → St W → Prop) : Prop :=
  Triple P x (fun a s => NoWrap s.log → Q a s) fun _ => RanOver

/-- With no fid left, the counter runs over. -/
def Overruns (x : Client W α) : Prop := Triple NoneLeft x (fun _ => RanOver) fun _ => RanOver

/-! ## The counter has run over for good -/

/-- What was logged stays logged. -/
def overUpkeep (L : Link W) : Upkeep L := loggedUpkeep (Q := fun log => ¬ NoWrap log) (fun _ _ h hn => h hn.2) L

/-- Nothing more is asked of a client whose fids have run out. -/
def overDiscipline (L : Link W) : Discipline L := (overUpkeep L).discipline fun hs _ => hs

theorem request_over (m : TMsg) (parse : Mem → UInt32 → Except Int32 α) :
    Keeps RanOver (p9Request (v9pTransact L) p9NextTag m parse) := (overUpkeep L).request m parse

theorem closeFid_over (fid : UInt32) : Keeps RanOver (closeFid L fid) := by
  have hclose : Triple ((overDiscipline L).Inv [(fid, .held)]) (closeFid L fid) _ _ :=
    (overDiscipline L).closeFid fid (.inl rfl)
  exact hclose

theorem walkTo_over (path : Str) : Keeps RanOver (walkTo L path) := by
  have hwalk : Triple ((overDiscipline L).Inv []) (walkTo L path) _ _ := (overDiscipline L).walkTo path
  refine hwalk.post fun r s hs => ?_
  cases r <;> exact hs

/-! ## The last fid -/

theorem Overruns.bind {x : Client W α} {f : α → Client W β} (hx : Overruns x) (hf : ∀ a, Keeps RanOver (f a)) :
    Overruns (x >>= f) := Triple.bind hx hf

theorem draw_overruns : Overruns (drawFid : Client W UInt32) := by
  refine draw_rule (fun s hs hnone => ?_) fun s pool hs hsome => ?_
  · obtain ⟨pool, hsome, -⟩ := hs
    rw [hnone] at hsome
    cases hsome
  · obtain ⟨pool', hsome', hleft⟩ := hs
    obtain rfl : pool = pool' := Option.some.inj (hsome.symm.trans hsome')
    exact fun hwrap => hwrap.1 _ rfl (fidPoolAlloc_of_none_left hleft)

theorem walkTo_overruns (path : Str) : Overruns (walkTo L path) := by
  have hdraw : Triple NoneLeft drawFid ((overDiscipline L).Fresh []) (overDiscipline L).Safe :=
    draw_overruns
  refine ((overDiscipline L).walkFrom hdraw path).post fun r s hs => ?_
  cases r <;> exact hs

theorem withFid_overruns (path : Str) {work : UInt32 → Client W (Except Int32 α)}
    (hwork : ∀ fid, Keeps RanOver (work fid)) : Overruns (withFid L path work) := by
  refine (walkTo_overruns path).bind fun r => ?_
  cases r with
  | error e => exact Triple.ret
  | ok fid => exact (hwork fid).bind fun r => (closeFid_over fid).bind fun _ => Triple.ret

theorem keepFid_overruns (path : Str) {opening : UInt32 → Client W (Except Int32 UInt32)}
    (hopen : ∀ fid, Keeps RanOver (opening fid)) : Overruns (keepFid L path opening) := by
  refine (walkTo_overruns path).bind fun r => ?_
  cases r with
  | error e => exact Triple.ret
  | ok fid =>
    refine (hopen fid).bind fun r => ?_
    cases r with
    | error e => exact (closeFid_over fid).bind fun _ => Triple.ret
    | ok _ => exact Triple.ret

/-! ## Rules -/

namespace UnlessOver

variable {P P' : St W → Prop} {Q Q' : α → St W → Prop} {R : β → St W → Prop} {x : Client W α}

theorem of_total (h : Total P x Q) : UnlessOver P x Q :=
  h.conseq (fun _ hs => hs) (fun _ _ hs _ => hs) fun _ _ hs => hs.elim

/-- Once the counter has run over, it does not matter what comes. -/
theorem bind {f : α → Client W β} (hx : UnlessOver P x Q) (hf : ∀ a, UnlessOver (Q a) (f a) R)
    (hover : ∀ a, Keeps RanOver (f a)) : UnlessOver P (x >>= f) R := by
  refine Triple.bind hx fun a s hs => ?_
  by_cases hwrap : NoWrap s.log
  · exact hf a s (hs hwrap)
  · exact (hover a).conseq (fun _ h => h) (fun _ _ h hn => absurd hn h) (fun _ _ h => h) s hwrap

/-- The computation comes to its end, with the value. -/
theorem run (h : UnlessOver P x Q) {s : St W} (hs : P s) (hwrap : NoWrap (finalState (x s)).log) :
    ∃ a s', x s = .ok a s' ∧ Q a s' := by
  have h' := h s hs
  cases hr : x s with
  | ok a s' =>
    rw [hr] at h' hwrap
    exact ⟨a, s', rfl, h' hwrap⟩
  | error e s' =>
    rw [hr] at h' hwrap
    exact absurd hwrap h'

/-- **A rule for one fid holds as long as the fids last.** -/
theorem of_session {S : Served L sys} {root : N} {v : UInt32} {held : List UInt32} {d : Disk F N}
    (h : Total (Session S root v held 1 d) x Q) (hover : Overruns x) : UnlessOver (Session S root v held 0 d) x Q := by
  intro s hs
  obtain ⟨pool, hsome, huse, hpos, -, hfree⟩ := hs.pool
  by_cases hleft : pool.left = 0
  · exact hover.conseq (fun _ h => h) (fun _ _ h hn => absurd hn h) (fun _ _ h => h) s ⟨pool, hsome, hleft⟩
  · exact of_total h s ⟨hs.disk, hs.msize, hs.rootFid, hs.root, pool, hsome, huse, hpos, by omega, hfree⟩

end UnlessOver

end Virtio9P
