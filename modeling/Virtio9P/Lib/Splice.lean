import Mathlib

/-!
# Writing into a list

`splice z l off bs` is the list `l` with `bs` written over it from position `off` on. It grows as far as needed, and a
gap before `off` is filled with `z`; writing nothing changes nothing. Two runs written one after the other are one run
(`splice_splice`), and what was written can be read back (`take_drop_splice`).
-/

namespace Virtio9P.Lib

variable {α : Type}

/-- `l` with `bs` written over it from `off` on. -/
def splice (z : α) (l : List α) (off : Nat) (bs : List α) : List α :=
  if bs = [] then l else (l ++ List.replicate (off - l.length) z).take off ++ (bs ++ l.drop (off + bs.length))

variable (z : α) (l : List α) (off : Nat)

@[simp] theorem splice_nil : splice z l off [] = l := if_pos rfl

/-- The list before `off`, filled up. -/
theorem length_filled : ((l ++ List.replicate (off - l.length) z).take off).length = off := by
  rw [List.length_take, List.length_append, List.length_replicate]
  omega

/-- What stands at each position. -/
theorem getElem?_splice {bs : List α} (hbs : bs ≠ []) (i : Nat) :
    (splice z l off bs)[i]? =
      if i < off then some (l[i]?.getD z) else if i < off + bs.length then bs[i - off]? else l[i]? := by
  have hlen := length_filled z l off
  unfold splice
  rw [if_neg hbs]
  by_cases h₁ : i < off
  · rw [if_pos h₁, List.getElem?_append_left (by omega), List.getElem?_take_of_lt h₁]
    by_cases hc : i < l.length
    · rw [List.getElem?_append_left hc, List.getElem?_eq_getElem hc]
      rfl
    · rw [List.getElem?_append_right (by omega), List.getElem?_replicate_of_lt (by omega),
        List.getElem?_eq_none (by omega)]
      rfl
  rw [if_neg h₁, List.getElem?_append_right (by omega), hlen]
  by_cases h₂ : i < off + bs.length
  · rw [if_pos h₂, List.getElem?_append_left (by omega)]
  · rw [if_neg h₂, List.getElem?_append_right (by omega), List.getElem?_drop]
    congr 1
    omega

/-- **Two runs written one after the other are one run.** -/
theorem splice_splice (as bs : List α) :
    splice z (splice z l off as) (off + as.length) bs = splice z l off (as ++ bs) := by
  by_cases ha : as = []
  · subst ha; simp
  by_cases hb : bs = []
  · subst hb; simp
  apply List.ext_getElem?
  intro i
  rw [getElem?_splice z _ _ hb, getElem?_splice z l off ha, getElem?_splice z l off (by simp [ha]), List.length_append]
  by_cases h₁ : i < off
  · rw [if_pos (by omega), if_pos h₁, if_pos h₁]
    rfl
  by_cases h₂ : i < off + as.length
  · rw [if_pos h₂, if_neg h₁, if_pos h₂, if_neg h₁, if_pos (by omega), List.getElem?_append_left (by omega),
      List.getElem?_eq_getElem (by omega)]
    rfl
  rw [if_neg h₂, if_neg h₁, if_neg h₂, if_neg h₁]
  by_cases h₃ : i < off + as.length + bs.length
  · rw [if_pos h₃, if_pos (by omega), List.getElem?_append_right (by omega)]
    congr 1
    omega
  · rw [if_neg h₃, if_neg (by omega)]

/-- What was written is there. -/
theorem take_drop_splice (bs : List α) : ((splice z l off bs).drop off).take bs.length = bs := by
  by_cases hb : bs = []
  · subst hb; simp
  unfold splice
  rw [if_neg hb, List.drop_append_of_le_length (length_filled z l off).ge,
    List.drop_of_length_le (length_filled z l off).le, List.nil_append, List.take_left]

end Virtio9P.Lib
