import Virtio9P.Parsing
import Virtio9P.Reply

/-!
# Reading a file

`v9p_read` asks for the rest of the buffer until the server has nothing more to give. Whatever the server answers, a
round stores inside the buffer, adds to what was read, and hands on the error of its `Tread`; so the loop ends
(`read_rounds`). If the server answers every `Tread` with a part, not empty, of what was asked for, the buffer gets
exactly the bytes of the file, however they were split (`read_exact`).
-/

namespace Virtio9P

open Lib

variable {W : Type}

/-! ## One `Tread` -/

section Round

variable {L : Link W} {fh size : UInt32} {off : UInt64}

/-- The number of bytes read so far, as the `uint32` that counts them. -/
theorem toNat_count {got : List UInt8} (h : got.length ≤ size.toNat) :
    (UInt32.ofNat got.length).toNat = got.length := by
  rw [UInt32.toNat_ofNat', Nat.mod_eq_of_lt (by have := size.toNat_lt; omega)]

theorem count_lt {got : List UInt8} (h : got.length ≤ size.toNat) :
    UInt32.ofNat got.length < size ↔ got.length < size.toNat := by
  rw [UInt32.lt_iff_toNat_lt, toNat_count h]

theorem toNat_rest {got : List UInt8} (h : got.length ≤ size.toNat) :
    (size - UInt32.ofNat got.length).toNat = size.toNat - got.length := by
  have hle : UInt32.ofNat got.length ≤ size := by rw [UInt32.le_iff_toNat_le, toNat_count h]; exact h
  rw [UInt32.toNat_sub_of_le _ _ hle, toNat_count h]

theorem dataCount_le (rx : Mem) (rxLen count : UInt32) : (dataCount rx rxLen count).toNat ≤ count.toNat :=
  (toNat_cap_le_right _ _).trans (toNat_cap_le _ _)

theorem length_parseRead_le {count n : UInt32} {rx : Mem} {data : List UInt8}
    (h : resultOf (parseRead count) n rx = .ok data) : data.length ≤ count.toNat := by
  unfold resultOf answer parseRead p9RequireSize at h
  split_ifs at h
  · cases h
  · obtain rfl : rx.read 11 (dataCount rx n count).toNat = data := Except.ok.inj h
    rw [Mem.length_read]
    exact dataCount_le rx n count

/-- **A `Tread` gives no more than was asked for**, whatever the reply says. -/
theorem length_read_le {o : UInt64} {count : UInt32} {s s' : St W} {data : List UInt8}
    (h : p9Read (v9pTransact L) fh o count s = .ok (.ok data) s') : data.length ≤ count.toNat := by
  rw [p9Read_eq, handler_bind] at h
  set cap := capCount s.h.msize 11 count
  have hle : cap.toNat ≤ count.toNat := toNat_cap_le_right _ _
  have hrequest : Triple (fun _ : St W => True) (p9Request (v9pTransact L) p9NextTag (.read fh o cap) (parseRead cap))
      (fun r _ => ∀ data, r = .ok data → data.length ≤ cap.toNat) fun _ _ => True :=
    request_rule (S := fun _ => True) (R := fun _ _ => True) (Triple.top (fun _ _ => trivial) fun _ _ => trivial)
      (Triple.top (fun _ _ => trivial) fun _ _ => trivial) fun n s _ data hdata => length_parseRead_le hdata
  exact (hrequest.ok trivial h data rfl).trans hle

/-! ## The loop -/

/-- The `Tread` of a round. -/
def readNext (L : Link W) (fh size : UInt32) (off : UInt64) (got : List UInt8) : Client W (Except Int32 (List UInt8)) :=
  p9Read (v9pTransact L) fh (off + (UInt32.ofNat got.length).toUInt64) (size - UInt32.ofNat got.length)

variable {got : List UInt8} {s : St W}

theorem readRound_full (h : got.length = size.toNat) : readRound L fh size off got s = .ok (.inl (.ok got)) s := by
  unfold readRound
  rw [if_neg (by rw [count_lt h.le]; omega)]
  rfl

/-- A round is its `Tread` and what is made of it. -/
theorem readRound_eq (h : got.length < size.toNat) :
    readRound L fh size off got s = (readNext L fh size off got >>= fun r => match r with
      | .error e => pure (.inl (.error e))
      | .ok data => if data = [] then pure (.inl (.ok got)) else pure (.inr (got ++ data))) s := by
  unfold readRound
  rw [if_pos ((count_lt h.le).mpr h)]
  rfl

theorem length_readNext_le (h : got.length ≤ size.toNat) {data : List UInt8} {s' : St W}
    (hread : readNext L fh size off got s = .ok (.ok data) s') : got.length + data.length ≤ size.toNat := by
  have hle := length_read_le hread
  rw [toNat_rest h] at hle
  omega

/-- A round that does not end the loop. -/
theorem readRound_more (h : got.length ≤ size.toNat) {got' : List UInt8} {s' : St W}
    (hround : readRound L fh size off got s = .ok (.inr got') s') :
    ∃ data, readNext L fh size off got s = .ok (.ok data) s' ∧ data ≠ [] ∧ got' = got ++ data := by
  by_cases hlt : got.length < size.toNat
  · rw [readRound_eq hlt] at hround
    cases hnext : readNext L fh size off got s with
    | error f t => rw [run_bind_error hnext] at hround; cases hround
    | ok r t =>
      rw [run_bind_ok hnext] at hround
      cases r with
      | error e => cases hround
      | ok data =>
        by_cases hdata : data = []
        · simp only [hdata, if_true] at hround
          cases hround
        · simp only [hdata, if_false] at hround
          cases hround
          exact ⟨data, rfl, hdata, rfl⟩
  · rw [readRound_full (by omega)] at hround
    cases hround

theorem read_progress : Progress (readRound L fh size off) List.length size.toNat := by
  intro got s got' s' hle hround
  obtain ⟨data, hread, hne, rfl⟩ := readRound_more hle hround
  have hpos := List.length_pos_iff.mpr hne
  have hbound := length_readNext_le hle hread
  rw [List.length_append]
  omega

end Round

/-- What `v9p_read` does on any link. -/
structure ReadsSafely (L : Link W) (fh size : UInt32) (off : UInt64) (s : St W) : Prop where
  /-- a `Tread` stores inside the buffer -/
  inside : ∀ k got s₁, Rounds (readRound L fh size off) k [] s got s₁ → got.length ≤ size.toNat ∧
    ∀ data s₂, readNext L fh size off got s₁ = .ok (.ok data) s₂ → got.length + data.length ≤ size.toNat
  /-- a round that does not end the loop adds to what was read -/
  progress : ∀ k got s₁ got' s₂, Rounds (readRound L fh size off) k [] s got s₁ →
    readRound L fh size off got s₁ = .ok (.inr got') s₂ → got.length < got'.length
  /-- the loop ends with a result or a fault of its last round -/
  ends : ∀ fuel, size.toNat < fuel → ∃ k got s₁, Rounds (readRound L fh size off) k [] s got s₁ ∧
    ((∃ r t, readRound L fh size off got s₁ = .ok (.inl r) t ∧ v9pRead L fuel fh size off s = .ok r t) ∨
      ∃ f t, readRound L fh size off got s₁ = .error f t ∧ v9pRead L fuel fh size off s = .error f t)
  /-- the error of a `Tread` is returned -/
  failed : ∀ k got s₁ e t, Rounds (readRound L fh size off) k [] s got s₁ → got.length < size.toNat →
    readNext L fh size off got s₁ = .ok (.error e) t → ∀ fuel, size.toNat < fuel →
      v9pRead L fuel fh size off s = .ok (.error e) t

theorem reads_safely (L : Link W) (fh size : UInt32) (off : UInt64) (s : St W) : ReadsSafely L fh size off s := by
  have hle : ∀ {k got s₁}, Rounds (readRound L fh size off) k [] s got s₁ → k ≤ got.length ∧ got.length ≤ size.toNat :=
    fun h => h.size_le read_progress (Nat.zero_le _)
  refine ⟨fun k got s₁ h => ⟨(hle h).2, fun data s₂ hread => length_readNext_le (hle h).2 hread⟩,
    fun k got s₁ got' s₂ h hround => (read_progress got s₁ got' s₂ (hle h).2 hround).1, fun fuel hfuel => ?_,
    fun k got s₁ e t h hlt hread fuel hfuel => ?_⟩
  · obtain ⟨k, got, s₁, h, hlast⟩ :=
      exists_last_round (show Progress (readRound L fh size off) _ _ from read_progress) [] s (Nat.zero_le _)
    have hk : k < fuel := by have := hle h; omega
    refine ⟨k, got, s₁, h, ?_⟩
    cases hround : readRound L fh size off got s₁ with
    | error f t => exact .inr ⟨f, t, rfl, h.loop_error hround hk⟩
    | ok r t =>
      cases r with
      | inl r => exact .inl ⟨r, t, rfl, h.loop_done hround hk⟩
      | inr got' => exact absurd hround (hlast got' t)
  · have hk : k < fuel := by have := hle h; omega
    refine h.loop_done ?_ hk
    rw [readRound_eq hlt]
    exact run_bind_ok hread

/-! ## A file -/

/-- The server answers a `Tread` of the file that is open as `fh` with a part of what was asked for, not an empty one
unless the file ends there. Other requests may change the file; a `Tread` gives its present content, and leaves it. -/
def ServesReads (L : Link W) (fh : UInt32) (content : W → List UInt8) : Prop :=
  ∀ (p : Post) (w : W) (tag : UInt16) (o : UInt64) (k : UInt32), decode p.tx = some (tag, .read fh o k) → 0 < k.toNat →
    ∃ data n rx w', L.poll p w = .ok (.reply n rx) w' ∧ Carries (.read data) n rx ∧
      data <+: ((content w).drop o.toNat).take k.toNat ∧ (data = [] ↔ (content w).length ≤ o.toNat) ∧
      content w' = content w

section File

variable {L : Link W} {fh size : UInt32} {off : UInt64} {content : W → List UInt8}

/-- The file offset of a round, as a number. -/
theorem toNat_offset {got : List UInt8} (h : got.length ≤ size.toNat)
    (hsum : off.toNat + size.toNat < 18446744073709551616) :
    (off + (UInt32.ofNat got.length).toUInt64).toNat = off.toNat + got.length := by
  rw [UInt64.toNat_add, UInt32.toNat_toUInt64, toNat_count h, Nat.mod_eq_of_lt (by omega)]

/-- A `Tread` of the file: the bytes that follow those already there. -/
theorem readNext_file (hL : ServesReads L fh content) {got : List UInt8} {s : St W} (hmsize : 11 < s.h.msize.toNat)
    (hlt : got.length < size.toNat) (hsum : off.toNat + size.toNat < 18446744073709551616) :
    ∃ data s', readNext L fh size off got s = .ok (.ok data) s' ∧ s'.h.msize = s.h.msize ∧
      data <+: (content s.w).drop (off.toNat + got.length) ∧
      (data = [] ↔ (content s.w).length ≤ off.toNat + got.length) ∧ content s'.w = content s.w := by
  set o := off + (UInt32.ofNat got.length).toUInt64 with ho
  set cap := capCount s.h.msize 11 (size - UInt32.ofNat got.length)
  have hoff : o.toNat = off.toNat + got.length := toNat_offset hlt.le hsum
  have hpos : 0 < cap.toNat := toNat_capCount_pos 11 hmsize (toNat_rest hlt.le ▸ Nat.sub_pos_of_lt hlt)
  have hdecode : decode (s.ask (.read fh o cap)).tx = some (s.h.nextTag, .read fh o cap) :=
    decode_frame (m := .read fh o cap) trivial (by simp [TMsg.body]) s.h.nextTag
  obtain ⟨data, n, rx, w', hpoll, hcarries, hprefix, hempty, hkept⟩ :=
    hL (s.ask (.read fh o cap)) s.w _ o cap hdecode hpos
  have hlen : data.length ≤ cap.toNat := hprefix.length_le.trans (List.length_take_le _ _)
  refine ⟨data, s.replied (.read fh o cap) n rx w', ?_, rfl, ?_, ?_, hkept⟩
  · unfold readNext
    rw [p9Read_eq, handler_bind, request_of_reply hcarries.ne_zero hpoll, answer_read hcarries hlen]
  · rw [← hoff]
    exact hprefix.trans (List.take_prefix _ _)
  · rw [← hoff]
    exact hempty

/-- The loop from `got` on, when `got` is what the file has from `off` on and every round gets more of it. -/
theorem loop_reads {P : St W → Prop} {c : List UInt8}
    (hnext : ∀ got s, P s → got.length < size.toNat →
      ∃ data s', readNext L fh size off got s = .ok (.ok data) s' ∧ P s' ∧
      data <+: c.drop (off.toNat + got.length) ∧ (data = [] ↔ c.length ≤ off.toNat + got.length)) (fuel : Nat) :
    ∀ (got : List UInt8) (s : St W), P s → got <+: c.drop off.toNat → got.length ≤ size.toNat →
      size.toNat - got.length < fuel →
      ∃ s', loop .hang (readRound L fh size off) fuel got s = .ok (.ok ((c.drop off.toNat).take size.toNat)) s' ∧
      P s' := by
  induction fuel with
  | zero => intro got s _ _ _ hfuel; omega
  | succ fuel ih =>
    intro got s hs hgot hle hfuel
    by_cases hlt : got.length < size.toNat
    · obtain ⟨data, s', hread, hs', hdata, hempty⟩ := hnext got s hs hlt
      have hround : readRound L fh size off got s = _ := readRound_eq hlt
      rw [run_bind_ok hread] at hround
      simp only [] at hround
      by_cases hne : data = []
      · -- the file has ended: what was read is all of it
        rw [if_pos hne] at hround
        have hall : got = c.drop off.toNat := by
          refine hgot.eq_of_length ?_
          have hend := hempty.mp hne
          have := hgot.length_le
          rw [List.length_drop] at this ⊢
          omega
        refine ⟨s', ?_, hs'⟩
        rw [← hall, List.take_of_length_le hle]
        exact run_bind_ok hround
      · rw [if_neg hne] at hround
        have hgot' : got ++ data <+: c.drop off.toNat := by
          obtain ⟨rest, hrest⟩ := hgot
          obtain ⟨rest', hrest'⟩ := hdata
          refine ⟨rest', ?_⟩
          have hdrop : c.drop (off.toNat + got.length) = rest := by
            rw [← List.drop_drop, ← hrest, List.drop_left]
          rw [List.append_assoc, hrest', hdrop, hrest]
        have hbound := length_readNext_le hlt.le hread
        have hpos := List.length_pos_iff.mpr hne
        obtain ⟨s'', hloop, hs''⟩ := ih (got ++ data) s' hs' hgot' (by rw [List.length_append]; omega)
          (by rw [List.length_append]; omega)
        exact ⟨s'', (run_bind_ok hround).trans hloop, hs''⟩
    · have hfull : got.length = size.toNat := by omega
      refine ⟨s, ?_, hs⟩
      rw [← hfull, ← List.prefix_iff_eq_take.mp hgot]
      exact run_bind_ok (readRound_full hfull)

/-- The whole loop, on a file that is served. -/
theorem loop_file (hL : ServesReads L fh content) (hsum : off.toNat + size.toNat < 18446744073709551616) {fuel : Nat}
    (hfuel : size.toNat < fuel) {s : St W} (hmsize : 11 < s.h.msize.toNat) :
    ∃ s', v9pRead L fuel fh size off s = .ok (.ok (((content s.w).drop off.toNat).take size.toNat)) s' := by
  have hnext : ∀ got (t : St W), 11 < t.h.msize.toNat ∧ content t.w = content s.w → got.length < size.toNat →
      ∃ data t', readNext L fh size off got t = .ok (.ok data) t' ∧
        (11 < t'.h.msize.toNat ∧ content t'.w = content s.w) ∧ data <+: (content s.w).drop (off.toNat + got.length) ∧
        (data = [] ↔ (content s.w).length ≤ off.toNat + got.length) := by
    intro got t ht hlt
    obtain ⟨data, t', hread, hmsize', hdata, hempty, hkept⟩ := readNext_file hL ht.1 hlt hsum
    rw [ht.2] at hdata hempty
    exact ⟨data, t', hread, ⟨hmsize' ▸ ht.1, hkept.trans ht.2⟩, hdata, hempty⟩
  obtain ⟨s', hread, -⟩ := loop_reads hnext fuel [] s ⟨hmsize, rfl⟩ List.nil_prefix (Nat.zero_le _)
    (by simpa using hfuel)
  exact ⟨s', hread⟩

end File

/-- **`v9p_read` returns the bytes of the file**, as many as there are and the buffer holds, however the server splits
them; and with any other server it stays inside its buffer, ends, and returns the error of a `Tread`. -/
theorem read_exact {size : UInt32} (hsize : size.toNat < 2147483648) {off : UInt64}
    (hoff : off.toNat < 9223372036854775808) (L : Link W) (fh : UInt32) (s : St W) :
    (∀ content : W → List UInt8, ServesReads L fh content → 11 < s.h.msize.toNat → ∀ fuel, size.toNat < fuel →
      ∃ data s', v9pRead L fuel fh size off s = .ok (.ok data) s' ∧
        data.length = min size.toNat ((content s.w).length - off.toNat) ∧ data <+: (content s.w).drop off.toNat) ∧
    ReadsSafely L fh size off s := by
  refine ⟨fun content hL hmsize fuel hfuel => ?_, reads_safely L fh size off s⟩
  have hsum : off.toNat + size.toNat < 18446744073709551616 := by omega
  obtain ⟨s', hread⟩ := loop_file hL hsum hfuel hmsize
  exact ⟨_, s', hread, by rw [List.length_take, List.length_drop], List.take_prefix _ _⟩

/-- A server that gives the file `c` byte by byte. -/
def byteServer (c : List UInt8) : Link Unit where
  poll p := pure (match decode p.tx with
    | some (tag, .read _ o k) => (RMsg.read (((c.drop o.toNat).take k.toNat).take 1)).polled tag p.rxBuf
    | _ => .refused)
  drain p := pure (0, p.rxBuf)
  cleanupVirtio w := w
  initVirtio := pure false
  allocVec := fun _ => pure false

theorem byteServer_serves (c : List UInt8) (fh : UInt32) : ServesReads (byteServer c) fh fun _ => c := by
  intro p w tag o k hdecode hk
  set data := ((c.drop o.toNat).take k.toNat).take 1 with hdata
  have hlen : data.length ≤ 1 := List.length_take_le _ _
  have hsmall : 7 + (RMsg.read data).body.length < 4294967296 := by
    rw [RMsg.body, List.length_append, length_leBytes]
    omega
  refine ⟨data, _, _, w, ?_, carries_write hsmall tag p.rxBuf, List.take_prefix _ _, ?_, rfl⟩
  · show (pure _ : EStateM Fault Unit Polled) w = _
    rw [hdecode]
    rfl
  · show data = [] ↔ c.length ≤ o.toNat
    rw [hdata, ← List.length_eq_zero_iff, List.length_take, List.length_take, List.length_drop]
    omega

/-- Two bytes from offset `1` of a file of three. -/
theorem read_exact_bytes : ∃ data s', v9pRead (byteServer [5, 6, 7]) 3 1 2 1 emptyState = .ok (.ok data) s' ∧
    data.length = 2 ∧ data <+: [6, 7] :=
  (read_exact (by decide) (by decide) (byteServer [5, 6, 7]) 1 emptyState).1 (fun _ => [5, 6, 7])
    (byteServer_serves _ 1) (by decide) 3 (by decide)

end Virtio9P
