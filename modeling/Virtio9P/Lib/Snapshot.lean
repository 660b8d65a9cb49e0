import Mathlib

/-!
# Snapshots

A value that changes while it is read piece by piece, with a count of its changes of which only the remainder by `k` can
be read. If the count reads the same before and after, and there were fewer than `k` changes between, then the pieces
are pieces of one value (`Versioned.steady`).
-/

namespace Virtio9P.Lib

/-- A value that changes over time, with the number of its changes. -/
structure Versioned (α : Type) where
  value : Nat → α
  changes : Nat → Nat
  mono : Monotone changes
  same : ∀ s t, changes s = changes t → value s = value t

namespace Versioned

variable {α : Type} (v : Versioned α)

theorem changes_eq {k s t : Nat} (hst : s ≤ t) (hread : v.changes s % k = v.changes t % k)
    (hslow : v.changes t < v.changes s + k) : v.changes t = v.changes s := by
  have hle := v.mono hst
  have hdvd : k ∣ v.changes t - v.changes s := (Nat.modEq_iff_dvd' hle).mp hread
  have hzero := Nat.eq_zero_of_dvd_of_lt hdvd (by omega)
  omega

/-- Nothing changed between two equal readings. -/
theorem steady {k s t u : Nat} (hsu : s ≤ u) (hut : u ≤ t) (hread : v.changes s % k = v.changes t % k)
    (hslow : v.changes t < v.changes s + k) : v.value u = v.value s := by
  have hend := v.changes_eq (hsu.trans hut) hread hslow
  have hfirst := v.mono hsu
  have hlast := v.mono hut
  exact v.same u s (by omega)

end Versioned

end Virtio9P.Lib
