import Mathlib

/-!
# Histories

A history is a list of what happened, with the newest entry first. `Always P` says that every entry meets `P`, together
with what was before it: a statement about every moment of a run, and not only about its end.
-/

namespace Virtio9P.Lib

variable {α : Type}

/-- Every entry meets `P`, with the entries before it. -/
def Always (P : α → List α → Prop) : List α → Prop
  | [] => True
  | a :: past => P a past ∧ Always P past

instance (P : α → List α → Prop) [∀ a past, Decidable (P a past)] : ∀ log, Decidable (Always P log)
  | [] => isTrue trivial
  | a :: past =>
    have := instDecidableAlways P past
    inferInstanceAs (Decidable (P a past ∧ Always P past))

variable {P : α → List α → Prop}

theorem Always.of_suffix : ∀ {log : List α}, Always P log → ∀ {a past}, a :: past <:+ log → P a past
  | [], _, _, _, hs => absurd (List.eq_nil_of_suffix_nil hs) (List.cons_ne_nil _ _)
  | b :: log, h, a, past, hs => by
    rcases List.suffix_cons_iff.mp hs with heq | hs
    · cases heq
      exact h.1
    · exact Always.of_suffix h.2 hs

/-- The statement at every moment. -/
theorem always_iff {log : List α} : Always P log ↔ ∀ a past, a :: past <:+ log → P a past := by
  refine ⟨fun h a past hs => h.of_suffix hs, ?_⟩
  induction log with
  | nil => exact fun _ => trivial
  | cons b log ih =>
    exact fun h => ⟨h b log (List.suffix_refl _), ih fun a past hs => h a past (hs.trans (List.suffix_cons b log))⟩

end Virtio9P.Lib
