import Virtio9P.Lib.Bytes
import Virtio9P.Lib.Snapshot

/-!
# The mount tag (`V9P_ReadMountTag` in `virtio_init.c`, and `_start` in `main.c`)

The tag is in the configuration space of the device, which the device may change at any time. A modern device counts the
changes in `config_generation`, an eight-bit register; `V9P_ReadMountTag` reads it before and after the tag, and starts
again if it has changed. So the tag that it returns with is one that the device had at one time, and it does return if
the device leaves its configuration alone at last (`mountTag_snapshot`). A legacy device has no such register, and there
the statement is about a configuration that does not change.
-/

namespace Virtio9P

open Lib

/-! ## The source -/

/-- The configuration space: `tag_len`, and the bytes of the tag. -/
structure TagConfig where
  tagLen : UInt16
  tag : Nat → UInt8

/-- The number of the next access to the device, and `mount_tag`. -/
structure TagReader where
  now : Nat
  mountTag : Mem

section Source

variable (space : Versioned TagConfig)

/-- Read a field of the configuration. -/
def readConfig {α : Type} (field : TagConfig → α) : StateM TagReader α :=
  modifyGet fun r => (field (space.value r.now), { r with now := r.now + 1 })

/-- Read `config_generation`. -/
def readGeneration : StateM TagReader UInt8 :=
  modifyGet fun r => (UInt8.ofNat (space.changes r.now), { r with now := r.now + 1 })

/-- Store a character. -/
def putChar (i : Nat) (c : UInt8) : StateM TagReader Unit :=
  modify fun r => { r with mountTag := Function.update r.mountTag i c }

/-- The next `n` bytes of the tag, from `i` on. -/
def copyTag : Nat → Nat → StateM TagReader Unit
  | 0, _ => pure ()
  | n + 1, i => do
    putChar i (← readConfig space (·.tag i))
    copyTag n (i + 1)

/-- The length, 32 at most, and so many bytes. -/
def readTag : StateM TagReader UInt16 := do
  let tagLen ← readConfig space (·.tagLen)
  let tagLen := if 32 < tagLen then 32 else tagLen
  copyTag space tagLen.toNat 0
  pure tagLen

/-- The loop for a modern device, this many rounds at most. -/
def readTagModern : Nat → StateM TagReader (Option UInt16)
  | 0 => pure none
  | rounds + 1 => do
    let gen1 ← readGeneration space
    let tagLen ← readTag space
    let gen2 ← readGeneration space
    if gen1 = gen2 then pure (some tagLen) else readTagModern rounds

/-- Truncate at the first of the `n` characters from `i` on that is not printable. -/
def cutTag : Nat → Nat → StateM TagReader Unit
  | 0, _ => pure ()
  | n + 1, i => do
    let ch := (← get).mountTag i
    if ch = 0 ∨ ch < 0x20 ∨ 0x7E < ch then putChar i 0 else cutTag n (i + 1)

/-- What `V9P_ReadMountTag` does after the reading, if that ends. -/
def finishTag : Option UInt16 → StateM TagReader Bool
  | none => pure false
  | some tagLen => do
    putChar tagLen.toNat 0
    cutTag tagLen.toNat 0
    pure true

/-- `V9P_ReadMountTag`: does it return? -/
def v9pReadMountTag (modern : Bool) (rounds : Nat) : StateM TagReader Bool :=
  if modern then readTagModern space rounds >>= finishTag else readTag space >>= fun tagLen => finishTag (some tagLen)

/-- Without a tag the name is `9P`, which `strncpy` fills up with zeros. -/
def defaultTag : StateM TagReader Unit := do
  if (← get).mountTag 0 = 0 then
    modify fun r => { r with mountTag := Function.update (r.mountTag.write 0 ([0x39, 0x50] ++ .replicate 30 0)) 32 0 }

/-- The tag in `_start`: is it reached? -/
def startMountTag (modern : Bool) (rounds : Nat) : StateM TagReader Bool := do
  if ← v9pReadMountTag space modern rounds then do
    defaultTag
    pure true
  else pure false

end Source

/-! ## The tag as a string -/

/-- From a space to a tilde. -/
def Printable (c : UInt8) : Prop := 0x20 ≤ c ∧ c ≤ 0x7E

instance (c : UInt8) : Decidable (Printable c) := inferInstanceAs (Decidable (_ ∧ _))

/-- The name in a configuration: its printable beginning. -/
def TagConfig.name (c : TagConfig) : List UInt8 :=
  ((List.range (min c.tagLen.toNat 32)).map c.tag).takeWhile fun b => Printable b

/-- The C string at the start of the memory. -/
structure Spells (m : Mem) (s : List UInt8) : Prop where
  text : m.read 0 s.length = s
  stop : m s.length = 0
  noNul : 0 ∉ s

theorem printable_iff (c : UInt8) : Printable c ↔ ¬ (c = 0 ∨ c < 0x20 ∨ 0x7E < c) := by
  unfold Printable
  constructor
  · rintro ⟨hlo, hhi⟩ (rfl | h | h)
    · exact absurd hlo (by decide)
    · exact absurd hlo (UInt8.not_le.mpr h)
    · exact absurd hhi (UInt8.not_le.mpr h)
  · intro h
    exact ⟨UInt8.not_lt.mp fun hlt => h (.inr (.inl hlt)), UInt8.not_lt.mp fun hlt => h (.inr (.inr hlt))⟩

theorem nul_not_printable : ¬ Printable 0 := by decide

/-! ## Reading -/

section Reading

variable {space : Versioned TagConfig}

theorem copyTag_eq : ∀ (n i : Nat) (r : TagReader), (copyTag space n i r).2 =
    { now := r.now + n
      mountTag := fun j => if i ≤ j ∧ j < i + n then (space.value (r.now + (j - i))).tag j else r.mountTag j }
  | 0, i, r => by
    have hno : ∀ j, ¬ (i ≤ j ∧ j < i + 0) := fun j => by omega
    simp only [hno, if_false]
    rfl
  | n + 1, i, r => by
    have hstep : copyTag space (n + 1) i r = copyTag space n (i + 1)
        ⟨r.now + 1, Function.update r.mountTag i ((space.value r.now).tag i)⟩ := rfl
    rw [hstep, copyTag_eq n (i + 1)]
    congr 1
    · show r.now + 1 + n = r.now + (n + 1)
      omega
    · funext j
      rcases Nat.lt_trichotomy j i with hlt | rfl | hgt
      · rw [if_neg (by omega), if_neg (by omega)]
        exact Function.update_of_ne (by omega) _ _
      · rw [if_neg (by omega), if_pos (by omega), Nat.sub_self]
        exact Function.update_self _ _ _
      · have htime : r.now + 1 + (j - (i + 1)) = r.now + (j - i) := by omega
        have hin : (i + 1 ≤ j ∧ j < i + 1 + n) ↔ (i ≤ j ∧ j < i + (n + 1)) := by omega
        simp only [hin, htime]
        split
        · rfl
        · exact Function.update_of_ne (by omega) _ _

/-- `tag_len`, 32 at most. -/
def TagConfig.clamped (c : TagConfig) : UInt16 := if 32 < c.tagLen then 32 else c.tagLen

theorem TagConfig.toNat_clamped (c : TagConfig) : c.clamped.toNat = min c.tagLen.toNat 32 := by
  unfold TagConfig.clamped
  split
  · rename_i h
    have hlt : 32 < c.tagLen.toNat := UInt16.lt_iff_toNat_lt.mp h
    show 32 = _
    omega
  · rename_i h
    have hle : c.tagLen.toNat ≤ 32 := UInt16.le_iff_toNat_le.mp (UInt16.not_lt.mp h)
    omega

theorem readTag_eq (r : TagReader) : readTag space r = ((space.value r.now).clamped,
    { now := r.now + 1 + (space.value r.now).clamped.toNat
      mountTag := fun j => if j < (space.value r.now).clamped.toNat then (space.value (r.now + 1 + j)).tag j
        else r.mountTag j }) := by
  have hfirst : readTag space r = ((space.value r.now).clamped,
      (copyTag space (space.value r.now).clamped.toNat 0 ⟨r.now + 1, r.mountTag⟩).2) := rfl
  rw [hfirst, copyTag_eq]
  simp only [Nat.zero_le, true_and, Nat.zero_add, Nat.sub_zero]

/-- However the configuration changes, a reading is at least one access and at most 33, and stores at most 32 bytes. -/
theorem readTag_frame (space : Versioned TagConfig) (r : TagReader) :
    r.now < (readTag space r).2.now ∧ (readTag space r).2.now ≤ r.now + 33 ∧
    (readTag space r).1.toNat ≤ 32 ∧ ∀ j, 32 ≤ j → (readTag space r).2.mountTag j = r.mountTag j := by
  have hlen := (space.value r.now).toNat_clamped
  rw [readTag_eq]
  refine ⟨?_, ?_, ?_, fun j hj => ?_⟩
  · show r.now < r.now + 1 + _
    omega
  · show r.now + 1 + _ ≤ r.now + 33
    omega
  · show (space.value r.now).clamped.toNat ≤ 32
    omega
  · exact if_neg (by omega)

end Reading

/-! ## Truncation -/

section Cutting

/-- How many of the `n` characters from `i` on are printable, up to the first that is not. -/
def printableLength (m : Mem) (i n : Nat) : Nat := ((m.read i n).takeWhile fun b => Printable b).length

/-- The cut is where the first character is that is not printable, or at the end, where there is a `NUL` already. -/
theorem cutTag_eq : ∀ (n i : Nat) (r : TagReader), r.mountTag (i + n) = 0 → (cutTag n i r).2 =
    { r with mountTag := Function.update r.mountTag (i + printableLength r.mountTag i n) 0 }
  | 0, i, r, hend => by
    have hlast : Function.update r.mountTag (i + 0) 0 = r.mountTag := by rw [← hend, Function.update_eq_self]
    show r = { r with mountTag := Function.update r.mountTag (i + 0) 0 }
    rw [hlast]
  | n + 1, i, r, hend => by
    have hstep : cutTag (n + 1) i r = (if r.mountTag i = 0 ∨ r.mountTag i < 0x20 ∨ 0x7E < r.mountTag i then
      putChar i 0 else cutTag n (i + 1)) r := rfl
    rw [hstep, printableLength, Mem.read_succ]
    by_cases hprint : Printable (r.mountTag i)
    · rw [if_neg ((printable_iff _).mp hprint), List.takeWhile_cons_of_pos (by simpa using hprint), List.length_cons,
        cutTag_eq n (i + 1) r (by rw [Nat.add_assoc, Nat.add_comm 1 n]; exact hend)]
      congr 2
      show i + 1 + printableLength r.mountTag (i + 1) n = i + (printableLength r.mountTag (i + 1) n + 1)
      omega
    · rw [if_pos (by_contra fun h => hprint ((printable_iff _).mpr h)),
        List.takeWhile_cons_of_neg (by simpa using hprint)]
      rfl

/-- A text of `n` characters, up to the first that is not printable. -/
def cutAt (m : Mem) (n : Nat) : Mem := Function.update (Function.update m n 0) (printableLength m 0 n) 0

theorem finishTag_eq (len : UInt16) (r : TagReader) :
    finishTag (some len) r = (true, { r with mountTag := cutAt r.mountTag len.toNat }) := by
  have hcut := cutTag_eq len.toNat 0 { r with mountTag := Function.update r.mountTag len.toNat 0 }
    (by rw [Nat.zero_add]; exact Function.update_self _ _ _)
  have hread : Mem.read (Function.update r.mountTag len.toNat 0) 0 len.toNat = r.mountTag.read 0 len.toNat :=
    Mem.read_congr fun j _ hj => Function.update_of_ne (by omega) _ _
  rw [Nat.zero_add, printableLength, hread] at hcut
  show (true, (cutTag len.toNat 0 { r with mountTag := Function.update r.mountTag len.toNat 0 }).2) = _
  rw [hcut]
  rfl

theorem printableLength_le (m : Mem) (i n : Nat) : printableLength m i n ≤ n :=
  ((List.takeWhile_sublist _).length_le).trans (Mem.length_read m i n).le

theorem spells_cutAt {m : Mem} {n : Nat} : Spells (cutAt m n) ((m.read 0 n).takeWhile fun b => Printable b) := by
  have hle := printableLength_le m 0 n
  refine ⟨?_, Function.update_self _ _ _, fun hmem => ?_⟩
  · have hsame : (cutAt m n).read 0 (printableLength m 0 n) = m.read 0 (printableLength m 0 n) :=
      Mem.read_congr fun j _ hj => by rw [cutAt, Function.update_of_ne (by omega), Function.update_of_ne (by omega)]
    refine hsame.trans ?_
    rw [← Mem.take_read m 0 hle]
    exact List.prefix_iff_eq_take.mp (List.takeWhile_prefix _) |>.symm
  · have := List.mem_takeWhile_imp hmem
    exact nul_not_printable (by simpa using this)

end Cutting

/-! ## The loop -/

/-- The tag that was read is the one of the time `t`, at its place; nothing is stored behind the 32 characters. -/
structure TagReader.Taken (space : Versioned TagConfig) (r : TagReader) (t : Nat) (len : UInt16) (r' : TagReader) :
    Prop where
  since : r.now ≤ t
  length : len = (space.value t).clamped
  text : ∀ j, j < len.toNat → r'.mountTag j = (space.value t).tag j
  frame : ∀ j, 32 ≤ j → r'.mountTag j = r.mountTag j

section Loop

variable {space : Versioned TagConfig} {r : TagReader}

/-- One reading, at a time when the configuration stands still. -/
theorem readTag_taken (h : ∀ t, r.now ≤ t → t < (readTag space r).2.now → space.value t = space.value r.now) :
    r.Taken space r.now (readTag space r).1 (readTag space r).2 := by
  have hlen := (space.value r.now).toNat_clamped
  rw [readTag_eq] at h ⊢
  refine ⟨le_rfl, rfl, fun j hj => ?_, fun j hj => if_neg (by omega)⟩
  refine (if_pos hj).trans ?_
  have hj' : j < (space.value r.now).clamped.toNat := hj
  rw [h (r.now + 1 + j) (by omega) (show r.now + 1 + j < r.now + 1 + (space.value r.now).clamped.toNat by omega)]

/-- The state with which a round looks at `config_generation` again. -/
def TagReader.reread (space : Versioned TagConfig) (r : TagReader) : UInt16 × TagReader :=
  readTag space { r with now := r.now + 1 }

theorem readTagModern_succ (rounds : Nat) : readTagModern space (rounds + 1) r =
    if UInt8.ofNat (space.changes r.now) = UInt8.ofNat (space.changes (r.reread space).2.now) then
      (some (r.reread space).1, { (r.reread space).2 with now := (r.reread space).2.now + 1 })
    else readTagModern space rounds { (r.reread space).2 with now := (r.reread space).2.now + 1 } := by
  show (if UInt8.ofNat (space.changes r.now) = UInt8.ofNat (space.changes (r.reread space).2.now) then
      pure (some (r.reread space).1) else readTagModern space rounds : StateM TagReader (Option UInt16))
      { (r.reread space).2 with now := (r.reread space).2.now + 1 } = _
  split
  · rfl
  · rfl

theorem ofNat_eq_iff {a b : Nat} : UInt8.ofNat a = UInt8.ofNat b ↔ a % 256 = b % 256 := by
  rw [← UInt8.toNat_inj, UInt8.toNat_ofNat', UInt8.toNat_ofNat']

/-- A round between two equal readings of `config_generation` has taken one configuration. -/
theorem reread_taken (hslow : ∀ t, space.changes (t + 34) < space.changes t + 256)
    (hgen : UInt8.ofNat (space.changes r.now) = UInt8.ofNat (space.changes (r.reread space).2.now)) :
    r.Taken space (r.now + 1) (r.reread space).1 (r.reread space).2 := by
  obtain ⟨hbegin, hend, -, -⟩ := readTag_frame space { r with now := r.now + 1 }
  have hlast : (r.reread space).2.now ≤ r.now + 34 := hend
  have hfirst : r.now + 1 < (r.reread space).2.now := hbegin
  have hfew : space.changes (r.reread space).2.now < space.changes r.now + 256 :=
    (space.mono hlast).trans_lt (hslow r.now)
  have hsteady : ∀ t, r.now ≤ t → t ≤ (r.reread space).2.now → space.value t = space.value r.now := fun t h h' =>
    space.steady h h' (ofNat_eq_iff.mp hgen) hfew
  obtain ⟨-, hlen, htext, hframe⟩ := readTag_taken (r := { r with now := r.now + 1 }) fun t h h' => by
    rw [hsteady t ((Nat.le_succ _).trans h) h'.le, ← hsteady (r.now + 1) (Nat.le_succ _) hfirst.le]
  exact ⟨Nat.le_succ _, hlen, htext, hframe⟩

theorem readTagModern_taken (hslow : ∀ t, space.changes (t + 34) < space.changes t + 256) {len : UInt16} :
    ∀ (rounds : Nat) (r : TagReader), (readTagModern space rounds r).1 = some len →
      ∃ t, r.Taken space t len (readTagModern space rounds r).2
  | 0, r, h => by cases h
  | rounds + 1, r, h => by
    rw [readTagModern_succ] at h ⊢
    split at h
    · rename_i hgen
      rw [if_pos hgen]
      obtain ⟨hsince, hlen, htext, hframe⟩ := reread_taken hslow hgen
      cases h
      exact ⟨r.now + 1, hsince, hlen, htext, hframe⟩
    · rename_i hgen
      rw [if_neg hgen]
      obtain ⟨hnow, -, -, hkept⟩ := readTag_frame space { r with now := r.now + 1 }
      obtain ⟨t, hsince, hlen, htext, hframe⟩ := readTagModern_taken hslow rounds _ h
      refine ⟨t, ?_, hlen, htext, fun j hj => (hframe j hj).trans (hkept j hj)⟩
      have hlater : r.now + 1 < (r.reread space).2.now := hnow
      have hend : (r.reread space).2.now + 1 ≤ t := hsince
      omega

/-- The loop ends when the device leaves its configuration alone. -/
theorem readTagModern_returns {C : Nat} : ∀ (rounds T : Nat) (r : TagReader),
    (∀ t, r.now + T ≤ t → space.changes t = C) → T < rounds → ∃ len, (readTagModern space rounds r).1 = some len
  | 0, _, _, _, h => absurd h (Nat.not_lt_zero _)
  | rounds + 1, T, r, hrest, h => by
    obtain ⟨hnow, -, -, -⟩ := readTag_frame space { r with now := r.now + 1 }
    have hlater : r.now + 1 < (r.reread space).2.now := hnow
    rw [readTagModern_succ]
    split
    · exact ⟨_, rfl⟩
    · rename_i hgen
      -- while the configuration changes, each round brings its end nearer
      have hpos : T ≠ 0 := by
        rintro rfl
        exact hgen (by rw [hrest r.now (by omega), hrest (r.reread space).2.now (by omega)])
      refine readTagModern_returns rounds (T - 1) _ (fun t ht => hrest t ?_) (by omega)
      have hbound : (r.reread space).2.now + 1 + (T - 1) ≤ t := ht
      omega

end Loop

/-! ## The tag of the volume -/

/-- The name of the volume: that in the configuration, or else `9P`. -/
def TagConfig.volumeName (c : TagConfig) : List UInt8 := if c.name = [] then [0x39, 0x50] else c.name

section Volume

variable {space : Versioned TagConfig} {r r' : TagReader} {t : Nat} {len : UInt16}

theorem TagReader.Taken.read (h : r.Taken space t len r') :
    (r'.mountTag.read 0 len.toNat).takeWhile (fun b => Printable b) = (space.value t).name := by
  unfold TagConfig.name
  rw [← TagConfig.toNat_clamped, ← h.length]
  congr 1
  refine List.map_congr_left fun j hj => ?_
  rw [Nat.zero_add]
  exact h.text j (List.mem_range.mp hj)

theorem TagReader.Taken.finish (h : r.Taken space t len r') : (finishTag (some len) r').1 = true ∧
    Spells (finishTag (some len) r').2.mountTag (space.value t).name ∧
    ∀ j, 33 ≤ j → (finishTag (some len) r').2.mountTag j = r.mountTag j := by
  have hlen : len.toNat ≤ 32 := by
    rw [h.length, TagConfig.toNat_clamped]
    exact Nat.min_le_right _ _
  have hcut := printableLength_le r'.mountTag 0 len.toNat
  rw [finishTag_eq]
  refine ⟨rfl, ?_, fun j hj => ?_⟩
  · rw [← h.read]
    exact spells_cutAt
  · show cutAt r'.mountTag len.toNat j = _
    rw [cutAt, Function.update_of_ne (by omega), Function.update_of_ne (by omega), h.frame j (by omega)]

/-- Whatever the mode, `V9P_ReadMountTag` returns with the name at one time. -/
theorem readMountTag_spells {modern : Bool} {rounds T C : Nat}
    (hslow : ∀ t, space.changes (t + 34) < space.changes t + 256)
    (hrest : ∀ t, r.now + T ≤ t → space.changes t = C) (hrounds : T < rounds) (hlegacy : modern = false → T = 0) :
    ∃ t, r.now ≤ t ∧ (v9pReadMountTag space modern rounds r).1 = true ∧
      Spells (v9pReadMountTag space modern rounds r).2.mountTag (space.value t).name ∧
      ∀ j, 33 ≤ j → (v9pReadMountTag space modern rounds r).2.mountTag j = r.mountTag j := by
  cases modern with
  | true =>
    obtain ⟨len, hlen⟩ := readTagModern_returns rounds T r hrest hrounds
    obtain ⟨t, htaken⟩ := readTagModern_taken hslow rounds r hlen
    have hrun : v9pReadMountTag space true rounds r = finishTag (some len) (readTagModern space rounds r).2 := by
      rw [← hlen]
      rfl
    rw [hrun]
    exact ⟨t, htaken.since, htaken.finish⟩
  | false =>
    have hstill : ∀ t, r.now ≤ t → space.value t = space.value r.now := fun t ht => by
      have hnow := hlegacy rfl
      exact space.same t r.now (by rw [hrest t (by omega), hrest r.now (by omega)])
    have htaken := readTag_taken fun t ht _ => hstill t ht
    have hrun : v9pReadMountTag space false rounds r = finishTag (some (readTag space r).1) (readTag space r).2 := rfl
    rw [hrun]
    exact ⟨r.now, le_rfl, htaken.finish⟩

theorem Spells.first {m : Mem} {s : List UInt8} (h : Spells m s) : m 0 = 0 ↔ s = [] := by
  constructor
  · intro hzero
    cases s with
    | nil => rfl
    | cons c s =>
      have htext := h.text
      rw [List.length_cons, Mem.read_succ] at htext
      have hc : m 0 = c := (List.cons.inj htext).1
      exact absurd (hc ▸ hzero ▸ List.mem_cons_self) h.noNul
  · rintro rfl
    exact h.stop

/-- Where there is no name, the default is stored. -/
theorem defaultTag_spells {c : TagConfig} (h : Spells r.mountTag c.name) :
    Spells (defaultTag r).2.mountTag c.volumeName ∧ ∀ j, 33 ≤ j → (defaultTag r).2.mountTag j = r.mountTag j := by
  have hrun : defaultTag r = (if r.mountTag 0 = 0 then
      ((), { r with mountTag := Function.update (r.mountTag.write 0 ([0x39, 0x50] ++ .replicate 30 0)) 32 0 })
    else ((), r)) := by
    show (if r.mountTag 0 = 0 then _ else _ : StateM TagReader Unit) r = _
    split
    · rfl
    · rfl
  rw [hrun, TagConfig.volumeName]
  by_cases hzero : r.mountTag 0 = 0
  · rw [if_pos hzero, if_pos (h.first.mp hzero)]
    refine ⟨⟨?_, ?_, by decide⟩, fun j hj => ?_⟩
    · rfl
    · rfl
    · show Function.update _ 32 0 j = _
      rw [Function.update_of_ne (by omega), Mem.write_of_ge _ (by simp; omega)]
  · rw [if_neg hzero, if_neg (mt h.first.mpr hzero)]
    exact ⟨h, fun _ _ => rfl⟩

/-- **The name of the volume is one that the device had**: read while the device may change it, it is the printable
beginning of the tag of one configuration, or `9P`, and nothing is stored outside of `mount_tag`. -/
theorem mountTag_snapshot {modern : Bool} {rounds T C : Nat}
    (hslow : ∀ t, space.changes (t + 34) < space.changes t + 256)
    (hrest : ∀ t, r.now + T ≤ t → space.changes t = C) (hrounds : T < rounds) (hlegacy : modern = false → T = 0) :
    ∃ t, r.now ≤ t ∧ (startMountTag space modern rounds r).1 = true ∧
      Spells (startMountTag space modern rounds r).2.mountTag (space.value t).volumeName ∧
      ∀ j, 33 ≤ j → (startMountTag space modern rounds r).2.mountTag j = r.mountTag j := by
  obtain ⟨t, hsince, hret, hspells, hframe⟩ := readMountTag_spells hslow hrest hrounds hlegacy
  obtain ⟨hname, hkept⟩ := defaultTag_spells hspells
  have hrun : startMountTag space modern rounds r =
      (true, (defaultTag (v9pReadMountTag space modern rounds r).2).2) := by
    show (if (v9pReadMountTag space modern rounds r).1 = true then _ else _ : StateM TagReader Bool)
      (v9pReadMountTag space modern rounds r).2 = _
    rw [hret]
    rfl
  rw [hrun]
  exact ⟨t, hsince, rfl, hname, fun j hj => (hkept j hj).trans (hframe j hj)⟩

end Volume

/-- A device that changes its tag at the sixth access, in the middle of the first reading. -/
def renamedSpace : Versioned TagConfig where
  value t := if t < 5 then ⟨32, fun _ => 0x61⟩ else ⟨32, fun i => if i < 4 then 0x62 else 0⟩
  changes t := if t < 5 then 0 else 1
  mono s t h := by
    show (if s < 5 then 0 else 1) ≤ (if t < 5 then 0 else 1)
    split <;> split <;> omega
  same s t h := by
    by_cases hs : s < 5 <;> by_cases ht : t < 5
    · rw [if_pos hs, if_pos ht]
    · simp only [if_pos hs, if_neg ht, Nat.zero_ne_one] at h
    · simp only [if_neg hs, if_pos ht, Nat.one_ne_zero] at h
    · rw [if_neg hs, if_neg ht]

theorem mountTag_snapshot_renamed : (∀ t, renamedSpace.changes (t + 34) < renamedSpace.changes t + 256) ∧
    ∃ t, 0 ≤ t ∧ (startMountTag renamedSpace true 6 ⟨0, fun _ => 0⟩).1 = true ∧
      Spells (startMountTag renamedSpace true 6 ⟨0, fun _ => 0⟩).2.mountTag (renamedSpace.value t).volumeName ∧
      ∀ j, 33 ≤ j → (startMountTag renamedSpace true 6 ⟨0, fun _ => 0⟩).2.mountTag j = 0 := by
  have hone : ∀ t, renamedSpace.changes t ≤ 1 := fun t => by
    show (if t < 5 then 0 else 1) ≤ 1
    split <;> omega
  have hslow : ∀ t, renamedSpace.changes (t + 34) < renamedSpace.changes t + 256 := fun t => by
    have := hone (t + 34)
    omega
  have hrest : ∀ t, 0 + 5 ≤ t → renamedSpace.changes t = 1 := fun t ht => if_neg (by omega)
  exact ⟨hslow, mountTag_snapshot (r := ⟨0, fun _ => 0⟩) hslow hrest (by decide) fun h => by cases h⟩

end Virtio9P
