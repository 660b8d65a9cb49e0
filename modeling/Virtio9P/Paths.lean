import Virtio9P.Message

/-!
# Paths

The components of a path are what stands between its slashes, without the empty ones (`components`). `P9_Walk`'s
tokeniser finds exactly these, or gives up at the seventeenth (`tokenise_eq`), so `P9_Walk` posts the walk along the
components of its path (`p9Walk_eq`).

`split_path` cuts a path at its last slash and then cuts both parts to their buffers (`splitPath`). Before that cut,
the parts are the components but the last, and the last (`components_split`).
-/

namespace Virtio9P

open Lib

/-! ## Components -/

/-- The non-empty components of a path. -/
def components (path : Str) : List Str := (path.splitOn slash).filter (· ≠ [])

theorem components_nil : components [] = [] := by decide

/-- A slash separates components. -/
theorem components_append (p q : Str) : components (p ++ slash :: q) = components p ++ components q := by
  unfold components
  rw [List.splitOn_eq_splitOnP, List.splitOnP_append_cons _ _ (by simp), List.filter_append]
  rfl

theorem components_slash (p : Str) : components (slash :: p) = components p := by
  have h := components_append [] p
  rwa [components_nil] at h

theorem components_name {p : Str} (hp : slash ∉ p) (hne : p ≠ []) : components p = [p] := by
  unfold components
  rw [List.splitOn_eq_singleton hp]
  simp [hne]

/-- A component has no slash, is not empty, and is no longer than the path. -/
theorem mem_components : ∀ {p c : Str}, c ∈ components p → slash ∉ c ∧ c ≠ [] ∧ c.length ≤ p.length := by
  intro p
  induction hn : p.length using Nat.strong_induction_on generalizing p with
  | _ n ih =>
    intro c hc
    by_cases hs : slash ∈ p
    · obtain ⟨q, r, rfl⟩ := List.append_of_mem hs
      rw [List.length_append, List.length_cons] at hn
      rw [components_append] at hc
      rcases List.mem_append.mp hc with h | h
      · have := ih q.length (by omega) rfl h
        exact ⟨this.1, this.2.1, by omega⟩
      · have := ih r.length (by omega) rfl h
        exact ⟨this.1, this.2.1, by omega⟩
    · by_cases hne : p = []
      · rw [hne, components_nil] at hc
        cases hc
      · rw [components_name hs hne, List.mem_singleton] at hc
        subst hc
        exact ⟨hs, hne, hn.le⟩

/-- Leading slashes say nothing. -/
theorem components_dropWhile : ∀ p : Str, components (p.dropWhile (· = slash)) = components p
  | [] => rfl
  | c :: p => by
    by_cases hc : c = slash
    · rw [List.dropWhile_cons_of_pos (by simpa using hc), components_dropWhile p, hc, components_slash]
    · rw [List.dropWhile_cons_of_neg (by simpa using hc)]

/-! ## The tokeniser of `P9_Walk` -/

/-- Up to the next slash stands the first component. -/
theorem components_takeWhile {p : Str} {c : UInt8} {q : Str} (hp : p = c :: q) (hc : c ≠ slash) :
    components p = p.takeWhile (· ≠ slash) :: components ((p.dropWhile (· ≠ slash)).drop 1) := by
  have hsplit := List.takeWhile_append_dropWhile (p := (· ≠ slash)) (l := p)
  have hname : slash ∉ p.takeWhile (· ≠ slash) := fun h => by simpa using List.mem_takeWhile_imp h
  have hne : p.takeWhile (· ≠ slash) ≠ [] := by simp [hp, hc]
  cases hr : p.dropWhile (· ≠ slash) with
  | nil =>
    rw [hr, List.append_nil] at hsplit
    rw [List.drop_nil, components_nil, hsplit]
    rw [hsplit] at hname
    exact components_name hname (by simp [hp])
  | cons d r =>
    have hd : d = slash := by
      have := List.head_dropWhile_not (p := (· ≠ slash)) (l := p) (by rw [hr]; exact List.cons_ne_nil d r)
      simpa only [hr, List.head_cons, decide_eq_false_iff_not, not_not] using this
    rw [hr, hd] at hsplit
    rw [List.drop_succ_cons, List.drop_zero]
    conv_lhs => rw [← hsplit]
    rw [components_append, components_name hname hne]
    rfl

theorem tokenise_spec (fuel : Nat) (p : Str) (acc : List Str) (hfuel : p.length ≤ fuel)
    (hacc : acc.length ≤ p9MaxWElem) :
    tokenise fuel p acc =
      if acc.length + (components p).length ≤ p9MaxWElem then some (acc ++ components p) else none := by
  induction fuel generalizing p acc with
  | zero =>
    have hp : p = [] := List.length_eq_zero_iff.mp (Nat.le_zero.mp hfuel)
    subst hp
    rw [components_nil, List.append_nil, List.length_nil, Nat.add_zero, if_pos hacc]
    rfl
  | succ fuel ih =>
    unfold tokenise
    by_cases hp : p = []
    · rw [if_pos hp, hp, components_nil, List.append_nil, List.length_nil, Nat.add_zero, if_pos hacc]
    rw [if_neg hp, ← components_dropWhile p]
    have hle : (p.dropWhile (· = slash)).length ≤ p.length := List.IsSuffix.length_le (List.dropWhile_suffix _)
    cases hq : p.dropWhile (· = slash) with
    | nil => simp only [if_true, components_nil, List.append_nil, List.length_nil, Nat.add_zero, if_pos hacc]
    | cons c q =>
      have hc : c ≠ slash := by
        have := List.head_dropWhile_not (p := (· = slash)) (l := p) (by simp [hq])
        simpa [hq] using this
      have hcomp := components_takeWhile (p := c :: q) rfl hc
      simp only [reduceCtorEq, if_false]
      by_cases hfull : p9MaxWElem ≤ acc.length
      · rw [if_pos hfull, if_neg (by rw [hcomp, List.length_cons]; omega)]
      · have hlen : (((c :: q).dropWhile (· ≠ slash)).drop 1).length ≤ fuel := by
          have h1 : ((c :: q).dropWhile (· ≠ slash)).length ≤ (c :: q).length :=
            List.IsSuffix.length_le (List.dropWhile_suffix _)
          rw [hq] at hle
          rw [List.length_drop]
          omega
        rw [if_neg hfull, ih _ _ hlen (by rw [List.length_append, List.length_singleton]; omega), hcomp]
        simp only [List.length_append, List.length_cons, List.length_nil, List.append_assoc, List.singleton_append,
          Nat.add_assoc, Nat.zero_add, Nat.add_comm 1]

/-- **The tokeniser finds the components**, sixteen at most. -/
theorem tokenise_eq (path : Str) :
    tokenise path.length path [] =
      if (components path).length ≤ p9MaxWElem then some (components path) else none := by
  simpa using tokenise_spec path.length path [] le_rfl (Nat.zero_le _)

section Walk

/-- The paths that `P9_Walk` refuses. -/
def Refused (path : Str) : Prop := 1024 ≤ path.length ∨ p9MaxWElem < (components path).length

/-- A walk that `P9_Walk` does not refuse is short. -/
theorem length_walk_le (fid newfid : UInt32) {path : Str} (hlen : path.length < 1024)
    (hdeep : (components path).length ≤ p9MaxWElem) :
    7 + (TMsg.walk fid newfid (components path)).body.length ≤ 16417 := by
  have hnames : ((components path).flatMap strBytes).length ≤ (components path).length * 1025 := by
    rw [List.length_flatMap, ← List.length_map (fun c => (strBytes c).length), ← smul_eq_mul]
    refine List.sum_le_card_nsmul _ _ fun n hn => ?_
    obtain ⟨c, hc, rfl⟩ := List.mem_map.mp hn
    have := (mem_components hc).2.2
    rw [length_strBytes]
    omega
  unfold p9MaxWElem at hdeep
  unfold TMsg.body
  simp only [List.length_append, length_leBytes]
  omega

theorem walk_wf (fid newfid : UInt32) {path : Str} (hlen : path.length < 1024)
    (hdeep : (components path).length ≤ p9MaxWElem) : (TMsg.walk fid newfid (components path)).Wf := by
  unfold p9MaxWElem at hdeep
  exact ⟨by omega, fun c hc => by have := (mem_components hc).2.2; omega⟩

theorem decode_walk (fid newfid : UInt32) {path : Str} (hlen : path.length < 1024)
    (hdeep : (components path).length ≤ p9MaxWElem) (tag : UInt16) :
    decode ((TMsg.walk fid newfid (components path)).frame tag) = some (tag, .walk fid newfid (components path)) := by
  have hle := length_walk_le fid newfid hlen hdeep
  exact decode_frame (walk_wf fid newfid hlen hdeep) (by omega) tag

variable {W : Type} (transact : Nat → Client W UInt32)

/-- What `P9_Walk` does with the number of qids in the reply to a walk of `nwname` names. -/
def walkEnd (newfid : UInt32) (nwname : Nat) : Except Int32 UInt16 → Client W (Except Int32 Unit)
  | .error e => pure (.error e)
  | .ok nwqid =>
    if nwqid ≠ UInt16.ofNat nwname then do
      if 0 < nwqid then
        let _ ← p9Clunk transact newfid
      pure (.error (-2))
    else pure (.ok ())

theorem walkEnd_full (newfid : UInt32) (nwname : Nat) :
    walkEnd transact newfid nwname (.ok (UInt16.ofNat nwname)) = pure (.ok ()) := by
  simp only [walkEnd, ne_eq, not_true_eq_false, if_false]

/-- `P9_Walk` refuses a path that is too long or too deep, and else posts the walk along its components. -/
theorem p9Walk_eq (fid newfid : UInt32) (path : Str) :
    p9Walk transact fid newfid path =
      if 1024 ≤ path.length ∨ p9MaxWElem < (components path).length then pure (.error (-36))
      else p9Request transact p9NextTag (.walk fid newfid (components path)) parseWalk >>=
        walkEnd transact newfid (components path).length := by
  unfold p9Walk
  by_cases hlen : 1024 ≤ path.length
  · rw [if_pos hlen, if_pos (.inl hlen)]
  rw [if_neg hlen, tokenise_eq]
  by_cases hdeep : (components path).length ≤ p9MaxWElem
  · rw [if_pos hdeep, if_neg (by omega)]
    have hnames : ∀ c ∈ components path, wireStr c = c := fun c hc =>
      wireStr_of_lt (by have := (mem_components hc).2.2; omega)
    have hcount : (UInt16.ofNat (components path).length).toNat = (components path).length := by
      rw [UInt16.toNat_ofNat', Nat.mod_eq_of_lt (by unfold p9MaxWElem at hdeep; omega)]
    have hbody : Emits (do
        p9PutU32 fid
        p9PutU32 newfid
        p9PutU16 (UInt16.ofNat (components path).length)
        (components path).forM p9PutStr) (TMsg.walk fid newfid (components path)).body := by
      refine ((emits_u32 _).bind ((emits_u32 _).bind ((emits_u16 _).bind (emits_strs _)))).cast ?_
      rw [hcount, TMsg.body, List.flatMap_congr fun c hc => by rw [hnames c hc]]
    rw [← p9Call_eq transact (.walk fid newfid (components path)) hbody]
    show _ >>= _ = _ >>= _
    congr 1
  · rw [if_neg hdeep, if_pos (.inr (by omega))]

theorem p9Walk_of_refused (fid newfid : UInt32) {path : Str} (h : Refused path) :
    p9Walk transact fid newfid path = pure (.error (-36)) := by
  unfold Refused at h
  rw [p9Walk_eq, if_pos h]

theorem p9Walk_of_not_refused (fid newfid : UInt32) {path : Str} (h : ¬ Refused path) :
    p9Walk transact fid newfid path = p9Request transact p9NextTag (.walk fid newfid (components path)) parseWalk >>=
      walkEnd transact newfid (components path).length := by
  unfold Refused at h
  rw [p9Walk_eq, if_neg h]

end Walk

/-! ## `split_path` -/

/-- `strrchr(s, '/')`: the index of the last slash. -/
def strrchr : Str → Option Nat
  | [] => none
  | c :: s =>
    match strrchr s with
    | some i => some (i + 1)
    | none => if c = slash then some 0 else none

/-- `split_path`, for buffers of `parentMax` and `nameMax` bytes. -/
def splitPath (path : Str) (parentMax nameMax : Nat) : Str × Str :=
  if path = [slash] then ([slash], [])
  else
    match strrchr path with
    | none => ([slash], path.take (nameMax - 1))
    | some 0 => ([slash], (path.drop 1).take (nameMax - 1))
    | some (i + 1) =>
      let plen := if parentMax ≤ i + 1 then parentMax - 1 else i + 1
      (path.take plen, (path.drop (i + 2)).take (nameMax - 1))

/-- The parent fits its buffer. -/
theorem length_parent (path : Str) : (splitPath path 1024 256).1.length < 1024 := by
  unfold splitPath
  split
  · simp
  · split
    · simp
    · simp
    · simp only [List.length_take]
      split <;> omega

/-- The name fits its buffer. -/
theorem length_name (path : Str) : (splitPath path 1024 256).2.length < 256 := by
  unfold splitPath
  split
  · simp
  · split <;> simp only [List.length_take] <;> omega

/-- The last slash: what follows has none. -/
theorem strrchr_eq_some : ∀ {s : Str} {i : Nat}, strrchr s = some i →
    ∃ p q, s = p ++ slash :: q ∧ p.length = i ∧ slash ∉ q
  | c :: s, i, h => by
    unfold strrchr at h
    cases hs : strrchr s with
    | some j =>
      rw [hs] at h
      obtain ⟨p, q, rfl, hp, hq⟩ := strrchr_eq_some hs
      obtain rfl : j + 1 = i := Option.some.inj h
      exact ⟨c :: p, q, rfl, by simp [hp], hq⟩
    | none =>
      rw [hs] at h
      by_cases hc : c = slash
      · rw [if_pos hc] at h
        obtain rfl : 0 = i := Option.some.inj h
        exact ⟨[], s, by simp [hc], rfl, strrchr_eq_none hs⟩
      · rw [if_neg hc] at h
        cases h
where
  strrchr_eq_none : ∀ {s : Str}, strrchr s = none → slash ∉ s
  | [], _ => List.not_mem_nil
  | c :: s, h => by
    unfold strrchr at h
    cases hs : strrchr s with
    | some j => rw [hs] at h; cases h
    | none =>
      rw [hs] at h
      by_cases hc : c = slash
      · rw [if_pos hc] at h; cases h
      · exact List.not_mem_cons_of_ne_of_not_mem (Ne.symm hc) (strrchr_eq_none hs)

theorem strrchr_append (p : Str) {q : Str} (hq : slash ∉ q) : strrchr (p ++ slash :: q) = some p.length := by
  have hnone : strrchr q = none := by
    cases h : strrchr q with
    | none => rfl
    | some i =>
      obtain ⟨a, b, rfl, -, -⟩ := strrchr_eq_some h
      exact absurd (by simp) hq
  induction p with
  | nil => simp [strrchr, hnone]
  | cons c p ih => simp [strrchr, ih]

/-- A path that starts with a slash and does not end with one is a directory, a slash and a name. -/
theorem exists_split {path : Str} (hhead : path.head? = some slash) (hlast : path.getLast? ≠ some slash) :
    ∃ dir last, path = dir ++ slash :: last ∧ slash ∉ last ∧ last ≠ [] := by
  cases h : strrchr path with
  | none =>
    obtain ⟨c, s, rfl⟩ : ∃ c s, path = c :: s := by
      cases path with
      | nil => cases hhead
      | cons c s => exact ⟨c, s, rfl⟩
    have hc : c = slash := by simpa using hhead
    exact absurd (by simp [hc]) (strrchr_eq_some.strrchr_eq_none h)
  | some i =>
    obtain ⟨dir, last, rfl, -, hl⟩ := strrchr_eq_some h
    refine ⟨dir, last, rfl, hl, ?_⟩
    rintro rfl
    exact hlast (by simp)

/-- `split_path` on such a path: both parts, cut to their buffers. -/
theorem splitPath_eq (dir : Str) {last : Str} (hl : slash ∉ last) (hne : last ≠ []) (parentMax nameMax : Nat) :
    splitPath (dir ++ slash :: last) parentMax nameMax =
      (if dir = [] then [slash] else dir.take (parentMax - 1), last.take (nameMax - 1)) := by
  have hroot : dir ++ slash :: last ≠ [slash] := by
    intro h
    have := congrArg List.length h
    have hpos := List.length_pos_of_ne_nil hne
    simp at this
    omega
  unfold splitPath
  rw [if_neg hroot, strrchr_append dir hl]
  cases dir with
  | nil => rfl
  | cons c dir =>
    simp only [List.length_cons, reduceCtorEq, if_false]
    have hdrop : (c :: dir ++ slash :: last).drop (dir.length + 2) = last := by
      rw [show dir.length + 2 = (c :: dir).length + 1 by rfl, List.drop_append]
      simp
    rw [hdrop]
    refine Prod.ext ?_ rfl
    show List.take _ _ = _
    split
    · rw [List.take_append_of_le_length (by simp; omega)]
    · rw [List.take_append_of_le_length (by simp), List.take_of_length_le (l := c :: dir) (by simp),
        List.take_of_length_le (by simp; omega)]

/-- The components of such a path are those of its directory, and its name. -/
theorem components_split (dir : Str) {last : Str} (hl : slash ∉ last) (hne : last ≠ []) :
    components (dir ++ slash :: last) = components dir ++ [last] := by
  rw [components_append, components_name hl hne]

end Virtio9P
