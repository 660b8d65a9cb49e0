import Mathlib

/-!
# A write-back cache

`Cached` is a memory with a cache in front of it. The processor reads and writes through the cache, line by line; a
device reads and writes the memory itself, and the cache does not notice. Besides, the cache may load a line, write a
dirty one back or give one up at any time (`Whim`).

Two properties of a set of lines are kept by every whim:

* `Clean`: no line is dirty. The cache then leaves the memory alone (`ram_whims`).
* `Synced`: the copies that are not dirty agree with the memory. What the processor reads then does not depend on the
  whims of the cache (`read_whims`).

Of lines with both the processor reads what is in memory (`read_eq_ram`). A line becomes clean when it is written back,
and synced when it is given up.
-/

namespace Virtio9P.Lib

/-- A memory of bytes `β` at addresses `α` with a cache of lines `ι`. -/
structure Cached (α ι β : Type) where
  /-- what the device sees -/
  ram : α → β
  /-- the copies in the cache, of the lines that it holds -/
  copy : α → β
  /-- the lines that it holds, and whether they are dirty -/
  held : ι → Option Bool

/-- What the cache does on its own. -/
inductive Whim (ι : Type) where
  | load (i : ι)
  | store (i : ι)
  | flush (i : ι)

namespace Cached

variable {α ι β : Type} [DecidableEq ι] (line : α → ι)

/-- What the processor reads. -/
def read (c : Cached α ι β) (a : α) : β := if c.held (line a) = none then c.ram a else c.copy a

/-- Load a line that is not there. -/
def load (c : Cached α ι β) (i : ι) : Cached α ι β :=
  if c.held i = none then
    { c with
      copy := fun a => if line a = i then c.ram a else c.copy a
      held := Function.update c.held i (some false) }
  else c

/-- Write a dirty line back. -/
def store (c : Cached α ι β) (i : ι) : Cached α ι β :=
  if c.held i = some true then
    { c with
      ram := fun a => if line a = i then c.copy a else c.ram a
      held := Function.update c.held i (some false) }
  else c

/-- Write a dirty line back, and give the line up. -/
def flush (c : Cached α ι β) (i : ι) : Cached α ι β :=
  { c.store line i with held := Function.update (c.store line i).held i none }

/-- The processor writes a byte. -/
def write [DecidableEq α] (c : Cached α ι β) (a : α) (b : β) : Cached α ι β :=
  { c.load line (line a) with
    copy := Function.update (c.load line (line a)).copy a b
    held := Function.update (c.load line (line a)).held (line a) (some true) }

def whim (c : Cached α ι β) : Whim ι → Cached α ι β
  | .load i => c.load line i
  | .store i => c.store line i
  | .flush i => c.flush line i

def whims (c : Cached α ι β) (ws : List (Whim ι)) : Cached α ι β := ws.foldl (whim line) c

/-! ## One line -/

section Lines

variable {line} (c : Cached α ι β) (i : ι)

@[grind =] theorem held_load (j : ι) :
    (c.load line i).held j = if j = i ∧ c.held i = none then some false else c.held j := by
  unfold load
  split <;> simp_all [Function.update_apply]

@[grind =] theorem copy_load (a : α) :
    (c.load line i).copy a = if line a = i ∧ c.held i = none then c.ram a else c.copy a := by
  unfold load
  split <;> simp_all

@[grind =] theorem ram_load : (c.load line i).ram = c.ram := by
  unfold load
  split <;> rfl

@[grind =] theorem held_store (j : ι) :
    (c.store line i).held j = if j = i ∧ c.held i = some true then some false else c.held j := by
  unfold store
  split <;> simp_all [Function.update_apply]

@[grind =] theorem copy_store : (c.store line i).copy = c.copy := by
  unfold store
  split <;> rfl

@[grind =] theorem ram_store (a : α) :
    (c.store line i).ram a = if line a = i ∧ c.held i = some true then c.copy a else c.ram a := by
  unfold store
  split <;> simp_all

@[grind =] theorem held_flush (j : ι) : (c.flush line i).held j = if j = i then none else c.held j := by
  simp only [flush, Function.update_apply, held_store]
  grind

@[grind =] theorem copy_flush (a : α) : (c.flush line i).copy a = c.copy a := congrFun (copy_store c i) a

@[grind =] theorem ram_flush (a : α) :
    (c.flush line i).ram a = if line a = i ∧ c.held i = some true then c.copy a else c.ram a := ram_store c i a

variable [DecidableEq α]

@[grind =] theorem held_write (a : α) (b : β) (j : ι) :
    (c.write line a b).held j = if j = line a then some true else c.held j := by
  simp only [write, Function.update_apply, held_load]
  grind

@[grind =] theorem copy_write (a : α) (b : β) (x : α) :
    (c.write line a b).copy x = if x = a then b else (c.load line (line a)).copy x := by
  simp only [write, Function.update_apply]

@[grind =] theorem ram_write (a : α) (b : β) : (c.write line a b).ram = c.ram := ram_load c (line a)

end Lines

/-- No line of `S` is dirty. -/
def Clean (S : Set ι) (c : Cached α ι β) : Prop := ∀ i ∈ S, c.held i ≠ some true

/-- The copies of the lines of `S` that are not dirty agree with the memory. -/
def Synced (S : Set ι) (c : Cached α ι β) : Prop := ∀ a, line a ∈ S → c.held (line a) = some false → c.copy a = c.ram a

variable {line} {c : Cached α ι β} {S T : Set ι}

omit [DecidableEq ι] in
theorem Clean.mono (h : Clean T c) (hST : S ⊆ T) : Clean S c := fun i hi => h i (hST hi)

omit [DecidableEq ι] in
theorem Synced.mono (h : Synced line T c) (hST : S ⊆ T) : Synced line S c := fun a ha => h a (hST ha)

omit [DecidableEq ι] in
/-- **Of clean and synced lines the processor reads what is in memory.** -/
theorem read_eq_ram (hclean : Clean S c) (hsynced : Synced line S c) {a : α} (ha : line a ∈ S) :
    c.read line a = c.ram a := by
  unfold read
  split
  · rfl
  · rename_i hheld
    refine hsynced a ha ?_
    cases hline : c.held (line a) with
    | none => exact absurd hline hheld
    | some dirty =>
      cases dirty with
      | false => rfl
      | true => exact absurd hline (hclean _ ha)

/-! ## The whims -/

theorem clean_whim (h : Clean S c) (w : Whim ι) : Clean S (c.whim line w) := by
  intro i hi
  have hnot := h i hi
  cases w <;> grind [whim]

theorem ram_whim (h : Clean S c) (w : Whim ι) {a : α} (ha : line a ∈ S) : (c.whim line w).ram a = c.ram a := by
  have hnot := h _ ha
  cases w <;> grind [whim]

theorem synced_whim (h : Synced line S c) (w : Whim ι) : Synced line S (c.whim line w) := by
  intro a ha
  have hsync := h a ha
  cases w <;> grind [whim]

theorem read_whim (h : Synced line S c) (w : Whim ι) {a : α} (ha : line a ∈ S) :
    (c.whim line w).read line a = c.read line a := by
  have hsync := h a ha
  cases hline : c.held (line a) with
  | none => cases w <;> grind [whim, read]
  | some dirty => cases dirty <;> cases w <;> grind [whim, read]

theorem clean_whims (h : Clean S c) (ws : List (Whim ι)) : Clean S (c.whims line ws) := by
  induction ws generalizing c with
  | nil => exact h
  | cons w ws ih => exact ih (clean_whim h w)

theorem ram_whims (h : Clean S c) (ws : List (Whim ι)) {a : α} (ha : line a ∈ S) :
    (c.whims line ws).ram a = c.ram a := by
  induction ws generalizing c with
  | nil => rfl
  | cons w ws ih => exact (ih (clean_whim h w)).trans (ram_whim h w ha)

theorem synced_whims (h : Synced line S c) (ws : List (Whim ι)) : Synced line S (c.whims line ws) := by
  induction ws generalizing c with
  | nil => exact h
  | cons w ws ih => exact ih (synced_whim h w)

theorem read_whims (h : Synced line S c) (ws : List (Whim ι)) {a : α} (ha : line a ∈ S) :
    (c.whims line ws).read line a = c.read line a := by
  induction ws generalizing c with
  | nil => rfl
  | cons w ws ih => exact (ih (synced_whim h w)).trans (read_whim h w ha)

/-! ## Processor and device -/

/-- A line that was written back is clean. -/
theorem clean_store (h : Clean S c) (i : ι) : Clean (insert i S) (c.store line i) := by
  intro j hj
  rcases Set.mem_insert_iff.mp hj with rfl | hj
  · grind
  · have hwhim : Clean S (c.whim line (.store i)) := clean_whim h (.store i)
    exact hwhim j hj

/-- A line that was given up is synced. -/
theorem synced_flush (h : Synced line S c) (i : ι) : Synced line (insert i S) (c.flush line i) := by
  intro a ha hheld
  rcases Set.mem_insert_iff.mp ha with heq | ha
  · rw [held_flush, if_pos heq] at hheld
    cases hheld
  · exact synced_whim h (.flush i) a ha hheld

section Write

variable [DecidableEq α]

theorem clean_write (h : Clean S c) {a : α} (ha : line a ∉ S) (b : β) : Clean S (c.write line a b) := by
  intro i hi
  have hne : i ≠ line a := fun heq => ha (heq ▸ hi)
  rw [held_write, if_neg hne]
  exact h i hi

/-- A write keeps what is synced: its own line is dirty. -/
theorem synced_write (h : Synced line S c) (a : α) (b : β) : Synced line S (c.write line a b) := by
  intro x hx
  have hsync := h x hx
  grind

/-- The processor reads back what it wrote. -/
theorem read_write (h : Synced line S c) (a : α) (b : β) {x : α} (hx : line x ∈ S) :
    (c.write line a b).read line x = if x = a then b else c.read line x := by
  have hsync := h x hx
  grind [read]

end Write

omit [DecidableEq ι] in
/-- The device writes to memory, but not to `S`. -/
theorem synced_ram (h : Synced line S c) {ram : α → β} (hram : ∀ a, line a ∈ S → ram a = c.ram a) :
    Synced line S { c with ram := ram } := fun a ha hheld => (h a ha hheld).trans (hram a ha).symm

end Cached

end Virtio9P.Lib
