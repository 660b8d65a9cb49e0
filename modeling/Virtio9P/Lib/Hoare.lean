import Mathlib

/-!
# Triples for computations with state and errors

`Triple P x Q E`: from a state with `P`, the computation `x` ends with a value and a state in `Q`, or with an error
and a state in `E`. The state survives an error, so `E` can say what held when the computation stopped. There is one
rule for each way to build a computation; `Triple.loop` is the invariant rule for a loop with a bound on its rounds.
`Keeps I x` is the case where `I` holds before and after, whatever the outcome, and `Total P x Q` the one where `x`
does not fail.

`Ends P x Q` is the same for a computation with state that cannot fail, and `Fixes f x` the case where what `f` shows of
the state stays the same.
-/

namespace Virtio9P.Lib

variable {ε σ α β γ : Type}

/-- `x` takes states with `P` to results with `Q` or errors with `E`. -/
def Triple (P : σ → Prop) (x : EStateM ε σ α) (Q : α → σ → Prop) (E : ε → σ → Prop) : Prop :=
  ∀ s, P s → match x s with
    | .ok a s' => Q a s'
    | .error e s' => E e s'

/-- `x` keeps `I`, also when it fails. -/
def Keeps (I : σ → Prop) (x : EStateM ε σ α) : Prop := Triple I x (fun _ => I) fun _ => I

namespace Triple

variable {P P' : σ → Prop} {Q Q' : α → σ → Prop} {R : β → σ → Prop} {E E' : ε → σ → Prop}

theorem ok {x : EStateM ε σ α} (h : Triple P x Q E) {s s' : σ} {a : α} (hs : P s) (hx : x s = .ok a s') : Q a s' := by
  have := h s hs
  rwa [hx] at this

theorem error {x : EStateM ε σ α} (h : Triple P x Q E) {s s' : σ} {e : ε} (hs : P s) (hx : x s = .error e s') :
    E e s' := by
  have := h s hs
  rwa [hx] at this

protected theorem pure {a : α} (h : ∀ s, P s → Q a s) : Triple P (pure a : EStateM ε σ α) Q E := h

theorem ret {a : α} : Triple P (pure a : EStateM ε σ α) (fun _ => P) E := fun _ h => h

protected theorem throw {e : ε} (h : ∀ s, P s → E e s) : Triple P (throw e : EStateM ε σ α) Q E := h

protected theorem get {Q : σ → σ → Prop} (h : ∀ s, P s → Q s s) : Triple P (get : EStateM ε σ σ) Q E := h

protected theorem modify {f : σ → σ} {Q : PUnit → σ → Prop} (h : ∀ s, P s → Q () (f s)) :
    Triple P (modify f : EStateM ε σ PUnit) Q E := h

protected theorem modifyGet {f : σ → α × σ} (h : ∀ s, P s → Q (f s).1 (f s).2) :
    Triple P (modifyGet f : EStateM ε σ α) Q E := by
  intro s hs
  exact h s hs

protected theorem bind {x : EStateM ε σ α} {f : α → EStateM ε σ β} (hx : Triple P x Q E)
    (hf : ∀ a, Triple (Q a) (f a) R E) : Triple P (x >>= f) R E := by
  intro s hs
  have h := hx s hs
  show match EStateM.bind x f s with | .ok a s' => R a s' | .error e s' => E e s'
  unfold EStateM.bind
  cases hr : x s with
  | ok a s' => rw [hr] at h; exact hf a s' h
  | error e s' => rw [hr] at h; exact h

theorem mapped {x : EStateM ε σ α} {f : α → β} (hx : Triple P x (fun a => R (f a)) E) : Triple P (f <$> x) R E := by
  intro s hs
  have h := hx s hs
  show match EStateM.map f x s with | .ok b s' => R b s' | .error e s' => E e s'
  unfold EStateM.map
  cases hr : x s with
  | ok a s' => rw [hr] at h; exact h
  | error e s' => rw [hr] at h; exact h

protected theorem map {x : EStateM ε σ α} {f : α → β} (hx : Triple P x (fun _ => P') E) :
    Triple P (f <$> x) (fun _ => P') E := mapped hx

/-- Strengthen what holds before, weaken what holds after. -/
theorem conseq {x : EStateM ε σ α} (h : Triple P' x Q' E') (hP : ∀ s, P s → P' s) (hQ : ∀ a s, Q' a s → Q a s)
    (hE : ∀ e s, E' e s → E e s) : Triple P x Q E := by
  intro s hs
  have h' := h s (hP s hs)
  cases hr : x s with
  | ok a s' => rw [hr] at h'; exact hQ a s' h'
  | error e s' => rw [hr] at h'; exact hE e s' h'

theorem pre {x : EStateM ε σ α} (h : Triple P' x Q E) (hP : ∀ s, P s → P' s) : Triple P x Q E :=
  h.conseq hP (fun _ _ hq => hq) fun _ _ he => he

theorem post {x : EStateM ε σ α} (h : Triple P x Q' E) (hQ : ∀ a s, Q' a s → Q a s) : Triple P x Q E :=
  h.conseq (fun _ hp => hp) hQ fun _ _ he => he

theorem top {x : EStateM ε σ α} (hQ : ∀ a s, Q a s) (hE : ∀ e s, E e s) : Triple P x Q E := by
  intro s _
  cases x s with
  | ok a s' => exact hQ a s'
  | error e s' => exact hE e s'

protected theorem and {x : EStateM ε σ α} (h : Triple P x Q E) (h' : Triple P x Q' E') :
    Triple P x (fun a s => Q a s ∧ Q' a s) fun e s => E e s ∧ E' e s := by
  intro s hs
  have h₁ := h s hs
  have h₂ := h' s hs
  cases hr : x s with
  | ok a s' => rw [hr] at h₁ h₂; exact ⟨h₁, h₂⟩
  | error e s' => rw [hr] at h₁ h₂; exact ⟨h₁, h₂⟩

/-- A family of triples, such as one that depends on a condition. -/
protected theorem all {ι : Sort*} {P : ι → σ → Prop} {Q : ι → α → σ → Prop} {E : ι → ε → σ → Prop}
    {x : EStateM ε σ α} (h : ∀ i, Triple (P i) x (Q i) (E i)) :
    Triple (fun s => ∀ i, P i s) x (fun a s => ∀ i, Q i a s) fun e s => ∀ i, E i e s := by
  intro s hs
  have h' := fun i => h i s (hs i)
  cases hr : x s with
  | ok a s' => rw [hr] at h'; exact h'
  | error e s' => rw [hr] at h'; exact h'

protected theorem ite {c : Prop} [Decidable c] {x y : EStateM ε σ α} (hx : c → Triple P x Q E)
    (hy : ¬ c → Triple P y Q E) : Triple P (if c then x else y) Q E := by
  by_cases h : c
  · rw [if_pos h]; exact hx h
  · rw [if_neg h]; exact hy h

end Triple

/-- From a state with `P`, `x` ends with a value, in `Q`. -/
abbrev Total (P : σ → Prop) (x : EStateM ε σ α) (Q : α → σ → Prop) : Prop := Triple P x Q fun _ _ => False

theorem Total.run {P : σ → Prop} {x : EStateM ε σ α} {Q : α → σ → Prop} (h : Total P x Q) {s : σ} (hs : P s) :
    ∃ a s', x s = .ok a s' ∧ Q a s' := by
  have h' := h s hs
  cases hr : x s with
  | ok a s' => rw [hr] at h'; exact ⟨a, s', rfl, h'⟩
  | error e s' => rw [hr] at h'; exact h'.elim

theorem Total.of_run {P : σ → Prop} {x : EStateM ε σ α} {Q : α → σ → Prop}
    (h : ∀ s, P s → ∃ a s', x s = .ok a s' ∧ Q a s') : Total P x Q := by
  intro s hs
  obtain ⟨a, s', hx, hq⟩ := h s hs
  rw [hx]
  exact hq

protected theorem Keeps.bind {I : σ → Prop} {x : EStateM ε σ α} {f : α → EStateM ε σ β} (hx : Keeps I x)
    (hf : ∀ a, Keeps I (f a)) : Keeps I (x >>= f) := Triple.bind hx hf

/-! ## Running a computation -/

/-- The state a computation ends in, with a value or with an error. -/
def finalState : EStateM.Result ε σ α → σ
  | .ok _ s => s
  | .error _ s => s

/-- The value a computation ends with, if it does. -/
def finalValue : EStateM.Result ε σ α → Option α
  | .ok a _ => some a
  | .error _ _ => none

/-- What holds of the state in which a computation ends, however it ends. -/
theorem Triple.final {P Q E : σ → Prop} {x : EStateM ε σ α} (h : Triple P x (fun _ => Q) fun _ => E)
    (hQ : ∀ s, Q s → E s) {s : σ} (hs : P s) : E (finalState (x s)) := by
  have h' := h s hs
  cases hr : x s with
  | ok a s' => rw [hr] at h'; exact hQ s' h'
  | error e s' => rw [hr] at h'; exact h'

theorem get_bind (f : σ → EStateM ε σ β) (s : σ) : ((get : EStateM ε σ σ) >>= f) s = f s s := rfl

theorem modify_bind (g : σ → σ) (f : PUnit → EStateM ε σ β) (s : σ) :
    ((modify g : EStateM ε σ PUnit) >>= f) s = f ⟨⟩ (g s) := rfl

theorem run_bind_ok {x : EStateM ε σ α} {f : α → EStateM ε σ β} {s s' : σ} {a : α} (h : x s = .ok a s') :
    (x >>= f) s = f a s' := by
  show EStateM.bind x f s = f a s'
  unfold EStateM.bind
  rw [h]

theorem run_bind_congr {x y : EStateM ε σ α} {s : σ} (h : x s = y s) (f : α → EStateM ε σ β) :
    (x >>= f) s = (y >>= f) s := by
  show EStateM.bind x f s = EStateM.bind y f s
  unfold EStateM.bind
  rw [h]

theorem run_bind_error {x : EStateM ε σ α} {f : α → EStateM ε σ β} {s s' : σ} {e : ε} (h : x s = .error e s') :
    (x >>= f) s = .error e s' := by
  show EStateM.bind x f s = .error e s'
  unfold EStateM.bind
  rw [h]

/-! ## Computations that cannot fail -/

/-- From a state with `P`, `x` returns with `Q`. -/
def Ends (P : σ → Prop) (x : StateM σ α) (Q : α → σ → Prop) : Prop := ∀ s, P s → Q (x s).1 (x s).2

namespace Ends

variable {P P' : σ → Prop} {Q Q' : α → σ → Prop} {R : β → σ → Prop}

protected theorem pure {a : α} (h : ∀ s, P s → Q a s) : Ends P (pure a : StateM σ α) Q := h

theorem ret {a : α} : Ends P (pure a : StateM σ α) fun _ => P := fun _ h => h

protected theorem modify {f : σ → σ} {Q : PUnit → σ → Prop} (h : ∀ s, P s → Q () (f s)) :
    Ends P (modify f : StateM σ PUnit) Q := h

protected theorem bind {x : StateM σ α} {f : α → StateM σ β} (hx : Ends P x Q) (hf : ∀ a, Ends (Q a) (f a) R) :
    Ends P (x >>= f) R := fun s hs => hf _ _ (hx s hs)

/-- Look at the state, and go on. -/
theorem getBind {f : σ → StateM σ β} (h : ∀ s₀, Ends (fun s => s = s₀ ∧ P s) (f s₀) R) : Ends P (get >>= f) R :=
  fun s hs => h s s ⟨rfl, hs⟩

protected theorem ite {c : Prop} [Decidable c] {x y : StateM σ α} (hx : c → Ends P x Q) (hy : ¬ c → Ends P y Q) :
    Ends P (if c then x else y) Q := by
  by_cases h : c
  · rw [if_pos h]; exact hx h
  · rw [if_neg h]; exact hy h

/-- A fact that is not about the state. -/
theorem fact {p : Prop} {x : StateM σ α} (h : p → Ends P x Q) : Ends (fun s => p ∧ P s) x Q :=
  fun s hs => h hs.1 s hs.2

theorem some {ι : Type} {P : ι → σ → Prop} {x : StateM σ α} (h : ∀ i, Ends (P i) x Q) :
    Ends (fun s => ∃ i, P i s) x Q := fun s ⟨i, hs⟩ => h i s hs

protected theorem or {x : StateM σ α} (h : Ends P x Q) (h' : Ends P' x Q) : Ends (fun s => P s ∨ P' s) x Q :=
  fun s hs => hs.elim (h s) (h' s)

theorem pre {x : StateM σ α} (h : Ends P' x Q) (hP : ∀ s, P s → P' s) : Ends P x Q := fun s hs => h s (hP s hs)

theorem post {x : StateM σ α} (h : Ends P x Q') (hQ : ∀ a s, Q' a s → Q a s) : Ends P x Q :=
  fun s hs => hQ _ _ (h s hs)

end Ends

/-- `x` leaves what `f` shows of the state. -/
def Fixes (f : σ → γ) (x : StateM σ α) : Prop := ∀ s, f (x s).2 = f s

namespace Fixes

variable {f : σ → γ}

protected theorem pure (a : α) : Fixes f (pure a : StateM σ α) := fun _ => rfl

protected theorem bind {x : StateM σ α} {g : α → StateM σ β} (hx : Fixes f x) (hg : ∀ a, Fixes f (g a)) :
    Fixes f (x >>= g) := fun s => (hg _ _).trans (hx s)

protected theorem ite {c : Prop} [Decidable c] {x y : StateM σ α} (hx : Fixes f x) (hy : Fixes f y) :
    Fixes f (if c then x else y) := by
  split
  · exact hx
  · exact hy

end Fixes

/-! ## Loops -/

/-- Repeat `body` from `b` on until it returns a result, `fuel` rounds at most; then fail with `stuck`. -/
def loop (stuck : ε) (body : β → EStateM ε σ (α ⊕ β)) : Nat → β → EStateM ε σ α
  | 0, _ => throw stuck
  | fuel + 1, b => do
    match ← body b with
    | .inl a => pure a
    | .inr b' => loop stuck body fuel b'

/-- The invariant rule: `I b` holds before a round from `b`. -/
theorem Triple.loop {stuck : ε} {body : β → EStateM ε σ (α ⊕ β)} {I : β → σ → Prop} {Q : α → σ → Prop}
    {E : ε → σ → Prop} (hbody : ∀ b, Triple (I b) (body b) (fun r => r.elim Q I) E)
    (hstuck : ∀ b s, I b s → E stuck s) (fuel : Nat) (b : β) : Triple (I b) (loop stuck body fuel b) Q E := by
  induction fuel generalizing b with
  | zero => exact Triple.throw (hstuck b)
  | succ fuel ih =>
    refine Triple.bind (hbody b) fun r => ?_
    cases r with
    | inl a => exact Triple.pure fun _ h => h
    | inr b' => exact ih b'

/-- `k` rounds lead from `b` in the state `s` to `b'` in the state `s'`. -/
inductive Rounds (body : β → EStateM ε σ (α ⊕ β)) : Nat → β → σ → β → σ → Prop
  | zero (b : β) (s : σ) : Rounds body 0 b s b s
  | next {k : Nat} {b b' b'' : β} {s s' s'' : σ} : Rounds body k b s b' s' → body b' s' = .ok (.inr b'') s'' →
      Rounds body (k + 1) b s b'' s''

section Rounds

variable {stuck : ε} {body : β → EStateM ε σ (α ⊕ β)} {b b' : β} {s s' : σ} {k : Nat}

/-- After `k` rounds the loop goes on from where they led. -/
theorem Rounds.loop_eq (h : Rounds body k b s b' s') (fuel : Nat) :
    loop stuck body (k + fuel) b s = loop stuck body fuel b' s' := by
  induction h generalizing fuel with
  | zero b s => rw [Nat.zero_add]
  | next h hround ih =>
    rw [Nat.add_right_comm, Nat.add_assoc, ih]
    exact run_bind_ok hround

theorem Rounds.loop_done (h : Rounds body k b s b' s') {a : α} {s'' : σ} (hdone : body b' s' = .ok (.inl a) s'')
    {fuel : Nat} (hfuel : k < fuel) : loop stuck body fuel b s = .ok a s'' := by
  obtain ⟨j, rfl⟩ := Nat.exists_eq_add_of_lt hfuel
  rw [Nat.add_assoc, h.loop_eq]
  exact run_bind_ok hdone

theorem Rounds.loop_error (h : Rounds body k b s b' s') {e : ε} {s'' : σ} (hfail : body b' s' = .error e s'')
    {fuel : Nat} (hfuel : k < fuel) : loop stuck body fuel b s = .error e s'' := by
  obtain ⟨j, rfl⟩ := Nat.exists_eq_add_of_lt hfuel
  rw [Nat.add_assoc, h.loop_eq]
  exact run_bind_error hfail

/-- Every round that does not end the loop adds to `size`, up to `bound`. -/
def Progress (body : β → EStateM ε σ (α ⊕ β)) (size : β → Nat) (bound : Nat) : Prop :=
  ∀ b s b' s', size b ≤ bound → body b s = .ok (.inr b') s' → size b < size b' ∧ size b' ≤ bound

variable {size : β → Nat} {bound : Nat}

theorem Rounds.size_le (hp : Progress body size bound) (h : Rounds body k b s b' s') (hb : size b ≤ bound) :
    k + size b ≤ size b' ∧ size b' ≤ bound := by
  induction h with
  | zero b s => exact ⟨by omega, hb⟩
  | next h hround ih =>
    have hle := ih hb
    have hlt := hp _ _ _ _ hle.2 hround
    exact ⟨by omega, hlt.2⟩

/-- A loop whose rounds are bounded has a last one. -/
theorem exists_last_of_bounded (hbound : ∀ {k b' s'}, Rounds body k b s b' s' → k ≤ bound) :
    ∃ k b' s', Rounds body k b s b' s' ∧ ∀ c t, body b' s' ≠ .ok (.inr c) t := by
  -- were there always one more round, there would be more rounds than the bound allows
  by_contra hno
  push Not at hno
  have hmany : ∀ n, ∃ b' s', Rounds body n b s b' s' := by
    intro n
    induction n with
    | zero => exact ⟨b, s, .zero b s⟩
    | succ n ih =>
      obtain ⟨b', s', h⟩ := ih
      obtain ⟨c, t, hround⟩ := hno n b' s' h
      exact ⟨c, t, .next h hround⟩
  obtain ⟨b', s', h⟩ := hmany (bound + 1)
  have hle := hbound h
  omega

/-- **A loop with progress ends**: some round is the last. -/
theorem exists_last_round (hp : Progress body size bound) (b : β) (s : σ) (hb : size b ≤ bound) :
    ∃ k b' s', Rounds body k b s b' s' ∧ ∀ c t, body b' s' ≠ .ok (.inr c) t :=
  exists_last_of_bounded fun {k _ _} h => show k ≤ bound by
    have hle := h.size_le hp hb
    omega

end Rounds

end Virtio9P.Lib
