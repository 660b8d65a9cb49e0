import Virtio9P.Lib.Splice
import Virtio9P.Reading
import Virtio9P.Upkeep

/-!
# Writing a file

`v9p_write` sends the rest of the buffer until all of it was taken. If the server takes some of every `Twrite`, the file
gets exactly the buffer, however it was split, and reads back as such; if it fails on the way, the file has a prefix of
the buffer (`write_exact`).

How much was taken is what the server says it is. `P9_Read` cuts such a count to what was asked for, and `P9_Write` does
not: `v9p_write` keeps to its buffer exactly when the sum of the counts does not pass `size` (`write_sound_iff`), and
else it returns more than it was given, or goes back (`overcount`).
-/

namespace Virtio9P

open Lib

variable {W : Type}

/-! ## One `Twrite` -/

/-- The `Twrite` of a round, when `msize` is negotiated. -/
def writeMsg (msize fh size : UInt32) (off : UInt64) (buf : Mem) (totalWritten : UInt32) : TMsg :=
  .write fh (off + totalWritten.toUInt64) (buf.read totalWritten.toNat (capCount msize 23 (size - totalWritten)).toNat)

/-- What a round asks for. -/
def writeNext (L : Link W) (fh size : UInt32) (off : UInt64) (buf : Mem) (totalWritten : UInt32) :
    Client W (Except Int32 UInt32) :=
  p9Write (v9pTransact L) fh (off + totalWritten.toUInt64) (size - totalWritten) fun i => buf (totalWritten.toNat + i)

section Round

variable {L : Link W} {fh size : UInt32} {off : UInt64} {buf : Mem} {t : UInt32} {s : St W}

theorem writeNext_eq : writeNext L fh size off buf t s =
    p9Request (v9pTransact L) p9NextTag (writeMsg s.h.msize fh size off buf t) parseWrite s := by
  unfold writeNext
  rw [p9Write_eq, handler_bind, Mem.read_shift]
  rfl

theorem toNat_left (ht : t ≤ size) : (size - t).toNat = size.toNat - t.toNat := UInt32.toNat_sub_of_le _ _ ht

theorem length_writeMsg (buf : Mem) (msize : UInt32) (ht : t ≤ size) :
    (buf.read t.toNat (capCount msize 23 (size - t)).toNat).length ≤ size.toNat - t.toNat := by
  rw [Mem.length_read, ← toNat_left ht]
  exact toNat_cap_le_right _ _

theorem decode_writeMsg (hsize : size.toNat < 2147483648) (ht : t ≤ size) (msize : UInt32) (tag : UInt16) :
    decode ((writeMsg msize fh size off buf t).frame tag) = some (tag, writeMsg msize fh size off buf t) := by
  have hlen := length_writeMsg buf msize ht
  refine decode_frame (m := writeMsg msize fh size off buf t) ?_ ?_ tag
  · exact show List.length _ < 4294967296 by omega
  · simp only [writeMsg, TMsg.body, List.length_append, length_leBytes]
    omega

/-- The request fits `msize`. -/
theorem length_frame_writeMsg {msize : UInt32} (hmsize : 23 < msize.toNat) (tag : UInt16) :
    ((writeMsg msize fh size off buf t).frame tag).length ≤ msize.toNat := by
  have hcap : (capCount msize 23 (size - t)).toNat ≤ (msize - 23).toNat := toNat_cap_le _ _
  have hsub : (msize - 23).toNat = msize.toNat - 23 :=
    UInt32.toNat_sub_of_le _ _ (UInt32.le_iff_toNat_le.mpr (by simp only [UInt32.reduceToNat]; omega))
  simp only [TMsg.length_frame, writeMsg, TMsg.body, List.length_append, length_leBytes, Mem.length_read]
  omega

theorem writeRound_full (h : ¬ t < size) : writeRound L fh size off buf t s = .ok (.inl (.ok t)) s := by
  unfold writeRound
  rw [if_neg h]
  rfl

/-- A round is its `Twrite` and what is made of it. -/
theorem writeRound_eq (h : t < size) :
    writeRound L fh size off buf t = (writeNext L fh size off buf t >>= fun r => match r with
      | .error e => pure (.inl (.error e))
      | .ok actual => if actual = 0 then pure (.inl (.ok t)) else pure (.inr (t + actual))) := by
  unfold writeRound
  rw [if_pos h]
  rfl

theorem writeRound_none (h : t < size) {s' : St W} (hnext : writeNext L fh size off buf t s = .ok (.ok 0) s') :
    writeRound L fh size off buf t s = .ok (.inl (.ok t)) s' := by
  rw [writeRound_eq h, run_bind_ok hnext]
  rfl

theorem writeRound_some (h : t < size) {a : UInt32} {s' : St W} (ha : a ≠ 0)
    (hnext : writeNext L fh size off buf t s = .ok (.ok a) s') :
    writeRound L fh size off buf t s = .ok (.inr (t + a)) s' := by
  rw [writeRound_eq h, run_bind_ok hnext]
  simp only [ha, if_false]
  rfl

end Round

/-! ## A file -/

/-- The server takes some of every `Twrite` on the file `fh` that fits `msize`, and says how much. -/
def StoresWrites (L : Link W) (fh : UInt32) (content : W → List UInt8) : Prop :=
  ∀ (p : Post) (w : W) (tag : UInt16) (o : UInt64) (data : List UInt8), decode p.tx = some (tag, .write fh o data) →
    p.tx.length ≤ p.msize.toNat → data ≠ [] →
    ∃ k n rx w', L.poll p w = .ok (.reply n rx) w' ∧ Carries (.write k) n rx ∧ 0 < k.toNat ∧ k.toNat ≤ data.length ∧
      content w' = splice 0 (content w) o.toNat (data.take k.toNat)

/-- The server takes some of every `Twrite` or nothing, and says how much, or fails in one way or another. Nothing else
that the transport does for a `Twrite` changes the file. -/
structure StoresPrefixes (L : Link W) (fh : UInt32) (content : W → List UInt8) : Prop where
  write : ∀ (p : Post) (w : W) (tag : UInt16) (o : UInt64) (data : List UInt8),
    decode p.tx = some (tag, .write fh o data) →
    ∃ j ≤ data.length, content (finalState (L.poll p w)) = splice 0 (content w) o.toNat (data.take j) ∧
      ∀ n rx w', L.poll p w = .ok (.reply n rx) w' →
        Carries (.write (UInt32.ofNat j)) n rx ∨ ∃ e, e ≠ 0 ∧ Carries (.lerror e) n rx
  calm : ∀ c, Calm L fun w => content w = c

section File

variable {L : Link W} {fh size : UInt32} {off : UInt64} {buf : Mem} {content : W → List UInt8} {t : UInt32}

theorem toNat_writeOffset (hsum : off.toNat + size.toNat < 18446744073709551616) (ht : t ≤ size) :
    (off + t.toUInt64).toNat = off.toNat + t.toNat := by
  have hle := UInt32.le_iff_toNat_le.mp ht
  rw [UInt64.toNat_add, UInt32.toNat_toUInt64, Nat.mod_eq_of_lt (by omega)]

theorem toNat_add_of_le {size t a : UInt32} (hle : t.toNat + a.toNat ≤ size.toNat) :
    (t + a).toNat = t.toNat + a.toNat := by
  have := size.toNat_lt
  rw [UInt32.toNat_add, Nat.mod_eq_of_lt (by omega)]

/-- What the file has when the first `t` bytes of the buffer are in it. -/
def written (c : List UInt8) (off : UInt64) (buf : Mem) (t : Nat) : List UInt8 := splice 0 c off.toNat (buf.read 0 t)

/-- The next bytes of the buffer, written where the first ones end. -/
theorem written_add (c : List UInt8) (off : UInt64) (buf : Mem) (t a : Nat) :
    splice 0 (written c off buf t) (off.toNat + t) (buf.read t a) = written c off buf (t + a) := by
  unfold written
  rw [Mem.read_add, Nat.zero_add]
  have h := splice_splice 0 c off.toNat (buf.read 0 t) (buf.read t a)
  rwa [Mem.length_read] at h

/-- A `Twrite` that is served. -/
theorem writeNext_stores (hL : StoresWrites L fh content) (hsize : size.toNat < 2147483648)
    (hsum : off.toNat + size.toNat < 18446744073709551616) {c : List UInt8} {s : St W} (hmsize : 23 < s.h.msize.toNat)
    (hlt : t < size) (hc : content s.w = written c off buf t.toNat) :
    ∃ a s', writeNext L fh size off buf t s = .ok (.ok a) s' ∧ a ≠ 0 ∧ t.toNat + a.toNat ≤ size.toNat ∧
      s'.h.msize = s.h.msize ∧ content s'.w = written c off buf (t.toNat + a.toNat) := by
  have hle : t ≤ size := UInt32.le_of_lt hlt
  have hlt' := UInt32.lt_iff_toNat_lt.mp hlt
  set m := writeMsg s.h.msize fh size off buf t with hm
  set cap := capCount s.h.msize 23 (size - t) with hcap
  have hlen := length_writeMsg buf s.h.msize hle
  have hpos : 0 < cap.toNat := toNat_capCount_pos 23 hmsize (toNat_left hle ▸ Nat.sub_pos_of_lt hlt')
  have hne : buf.read t.toNat cap.toNat ≠ [] := by
    rw [← List.length_pos_iff, Mem.length_read]
    exact hpos
  obtain ⟨a, n, rx, w', hpoll, hcarries, hapos, hale, hcontent⟩ :=
    hL (s.ask m) s.w s.h.nextTag (off + t.toUInt64) (buf.read t.toNat cap.toNat)
      (decode_writeMsg hsize hle s.h.msize s.h.nextTag) (length_frame_writeMsg hmsize _) hne
  rw [Mem.length_read] at hale hlen
  rw [← hcap] at hlen
  refine ⟨a, s.replied m n rx w', ?_, ?_, by omega, rfl, ?_⟩
  · rw [writeNext_eq, request_of_reply hcarries.ne_zero hpoll, answer_write hcarries]
  · rintro rfl
    exact absurd hapos (by decide)
  · show content w' = _
    rw [hcontent, hc, toNat_writeOffset hsum hle, Mem.take_read _ _ hale, written_add]

/-- The loop from `t` on, when every round writes some more: `P t` holds when `t` bytes were taken. -/
theorem loop_writes {P : UInt32 → St W → Prop}
    (hnext : ∀ t s, P t s → t < size → ∃ a s', writeNext L fh size off buf t s = .ok (.ok a) s' ∧ a ≠ 0 ∧
      t.toNat + a.toNat ≤ size.toNat ∧ P (t + a) s') (fuel : Nat) :
    ∀ (t : UInt32) (s : St W), P t s → t ≤ size → size.toNat - t.toNat < fuel →
      ∃ s', loop .hang (writeRound L fh size off buf) fuel t s = .ok (.ok size) s' ∧ P size s' := by
  induction fuel with
  | zero => intro t s _ _ hfuel; omega
  | succ fuel ih =>
    intro t s hs hle hfuel
    by_cases hlt : t < size
    · obtain ⟨a, s₁, hnext, ha, hsum, hs₁⟩ := hnext t s hs hlt
      have hadd := toNat_add_of_le hsum
      have hapos : 0 < a.toNat := by
        rw [Nat.pos_iff_ne_zero, ne_eq, ← UInt32.toNat_zero, UInt32.toNat_inj]
        exact ha
      obtain ⟨s₂, hloop, hs₂⟩ := ih (t + a) s₁ hs₁ (UInt32.le_iff_toNat_le.mpr (by omega)) (by omega)
      exact ⟨s₂, (run_bind_ok (writeRound_some hlt ha hnext)).trans hloop, hs₂⟩
    · obtain rfl : t = size := UInt32.le_antisymm hle (UInt32.not_lt.mp hlt)
      exact ⟨s, run_bind_ok (writeRound_full hlt), hs⟩

/-- The whole loop, on a file that is served. -/
theorem loop_stores (buf : Mem) (hL : StoresWrites L fh content) (hsize : size.toNat < 2147483648)
    (hsum : off.toNat + size.toNat < 18446744073709551616) {fuel : Nat} (hfuel : size.toNat < fuel) {s : St W}
    (hmsize : 23 < s.h.msize.toNat) :
    ∃ s', v9pWrite L fuel fh size off buf s = .ok (.ok size) s' ∧ s'.h.msize = s.h.msize ∧
      content s'.w = written (content s.w) off buf size.toNat := by
  refine loop_writes (P := fun t s' => s'.h.msize = s.h.msize ∧ content s'.w = written (content s.w) off buf t.toNat)
    (fun t s₁ hs₁ hlt => ?_) fuel 0 s ⟨rfl, (splice_nil ..).symm⟩ UInt32.zero_le (by simpa using hfuel)
  obtain ⟨a, s₂, hnext, ha, hle, hmsize₂, hc⟩ := writeNext_stores hL hsize hsum (by rw [hs₁.1]; exact hmsize) hlt hs₁.2
  exact ⟨a, s₂, hnext, ha, hle, hmsize₂.trans hs₁.1, by rw [hc, toNat_add_of_le hle]⟩

/-! ### A server that fails -/

/-- A prefix of the buffer is in the file. -/
def PrefixIn (content : W → List UInt8) (c : List UInt8) (off : UInt64) (buf : Mem) (size : UInt32) (w : W) : Prop :=
  ∃ j ≤ size.toNat, content w = written c off buf j

/-- A `Twrite`, whatever becomes of it. When a count comes back, it is the number of bytes that were taken. -/
theorem writeNext_cut (hL : StoresPrefixes L fh content) (hsize : size.toNat < 2147483648)
    (hsum : off.toNat + size.toNat < 18446744073709551616) (c : List UInt8) (hlt : t < size) :
    Triple (fun s : St W => content s.w = written c off buf t.toNat) (writeNext L fh size off buf t)
      (fun r s => PrefixIn content c off buf size s.w ∧ ∀ a, r = .ok a → t.toNat + a.toNat ≤ size.toNat ∧
        content s.w = written c off buf (t.toNat + a.toNat)) fun _ s => PrefixIn content c off buf size s.w := by
  intro s hs
  have hle : t ≤ size := UInt32.le_of_lt hlt
  have hlt' := UInt32.lt_iff_toNat_lt.mp hlt
  set m := writeMsg s.h.msize fh size off buf t with hm
  have hlen := length_writeMsg buf s.h.msize hle
  obtain ⟨j, hj, hcontent, hreply⟩ := hL.write (s.ask m) s.w s.h.nextTag (off + t.toUInt64) _
    (decode_writeMsg hsize hle s.h.msize s.h.nextTag)
  rw [hs, toNat_writeOffset hsum hle, Mem.take_read _ _ (by rwa [Mem.length_read] at hj), written_add] at hcontent
  have hstored : Triple (· = s) (p9Request (v9pTransact L) p9NextTag m parseWrite)
      (fun _ s' => content s'.w = written c off buf (t.toNat + j))
      fun _ s' => content s'.w = written c off buf (t.toNat + j) :=
    (hL.calm _).request parseWrite fun s' hs' => hs' ▸ hcontent
  rw [writeNext_eq]
  refine Triple.conseq (hstored.and (request_reply (L := L) m parseWrite s)) (fun _ h => h) (fun r s' h => ?_)
    (fun _ s' h => ⟨_, by omega, h.1⟩) s rfl
  refine ⟨⟨_, by omega, h.1⟩, ?_⟩
  rintro a rfl
  rcases h.2 with h | ⟨n, w, rx, hn, hpoll, hres, rfl⟩
  · cases h
  rcases hreply n rx w hpoll with hcarries | ⟨e, he, hcarries⟩
  · rw [answer_write hcarries] at hres
    cases hres
    have hcount : (UInt32.ofNat j).toNat = j := by rw [UInt32.toNat_ofNat', Nat.mod_eq_of_lt (by omega)]
    rw [hcount]
    exact ⟨by omega, h.1⟩
  · rw [answer_lerror hcarries fun h0 => he (neg_toInt32_eq_zero h0)] at hres
    cases hres

/-- The loop, whatever becomes of its requests. -/
theorem write_cut (buf : Mem) (hL : StoresPrefixes L fh content) (hsize : size.toNat < 2147483648)
    (hsum : off.toNat + size.toNat < 18446744073709551616) (c : List UInt8) (fuel : Nat) :
    Triple (fun s : St W => content s.w = c) (v9pWrite L fuel fh size off buf)
      (fun r s => PrefixIn content c off buf size s.w ∧ ∀ a, r = .ok a → a ≤ size ∧
        content s.w = written c off buf a.toNat) fun _ s => PrefixIn content c off buf size s.w := by
  refine Triple.pre (Triple.loop (I := fun t s => t ≤ size ∧ content s.w = written c off buf t.toNat) (fun t => ?_)
    (fun t s h => ⟨t.toNat, UInt32.le_iff_toNat_le.mp h.1, h.2⟩) fuel 0)
    fun s hs => ⟨UInt32.zero_le, hs.trans (splice_nil ..).symm⟩
  by_cases hlt : t < size
  · rw [writeRound_eq hlt]
    refine ((writeNext_cut hL hsize hsum c hlt).pre fun s hs => hs.2).bind fun r => ?_
    cases r with
    | error e => exact Triple.pure fun s hs => ⟨hs.1, fun a ha => by cases ha⟩
    | ok a =>
      refine Triple.ite (fun ha => Triple.pure fun s hs => ⟨hs.1, ?_⟩) fun _ => Triple.pure fun s hs => ?_
      · rintro b ⟨⟩
        have hc := (hs.2 a rfl).2
        rw [ha] at hc
        exact ⟨UInt32.le_of_lt hlt, hc⟩
      · obtain ⟨hle, hc⟩ := hs.2 a rfl
        have hadd : (t + a).toNat = t.toNat + a.toNat := by rw [UInt32.toNat_add, Nat.mod_eq_of_lt (by omega)]
        exact ⟨UInt32.le_iff_toNat_le.mpr (by omega), by rw [hadd]; exact hc⟩
  · intro s hs
    rw [writeRound_full hlt]
    refine ⟨⟨t.toNat, UInt32.le_iff_toNat_le.mp hs.1, hs.2⟩, ?_⟩
    rintro a ⟨⟩
    exact hs

end File

/-- **`v9p_write` stores exactly the buffer**, however `msize` and the server split it, and `v9p_read` gets it back.
When the server fails or takes nothing more, the file has a prefix of the buffer; if a number is returned, it is its
length. -/
theorem write_exact {size : UInt32} (hsize : size.toNat < 2147483648) {off : UInt64}
    (hoff : off.toNat < 9223372036854775808) (L : Link W) (fh : UInt32) (buf : Mem) (content : W → List UInt8)
    (s : St W) (hmsize : 23 < s.h.msize.toNat) :
    (StoresWrites L fh content → ∀ fuel, size.toNat < fuel →
      ∃ s', v9pWrite L fuel fh size off buf s = .ok (.ok size) s' ∧
        content s'.w = splice 0 (content s.w) off.toNat (buf.read 0 size.toNat) ∧
        (ServesReads L fh content → ∀ fuel', size.toNat < fuel' →
          ∃ s'', v9pRead L fuel' fh size off s' = .ok (.ok (buf.read 0 size.toNat)) s'')) ∧
    (StoresPrefixes L fh content → ∀ fuel, ∃ j ≤ size.toNat,
      content (finalState (v9pWrite L fuel fh size off buf s)).w = splice 0 (content s.w) off.toNat (buf.read 0 j) ∧
      ∀ n s', v9pWrite L fuel fh size off buf s = .ok (.ok n) s' → n.toNat = j) := by
  have hsum : off.toNat + size.toNat < 18446744073709551616 := by omega
  refine ⟨fun hL fuel hfuel => ?_, fun hL fuel => ?_⟩
  · obtain ⟨s', hwrite, hmsize', hc⟩ := loop_stores buf hL hsize hsum hfuel hmsize
    refine ⟨s', hwrite, hc, fun hR fuel' hfuel' => ?_⟩
    obtain ⟨s'', hread⟩ := loop_file hR hsum hfuel' (s := s') (by rw [hmsize']; omega)
    have hback := take_drop_splice 0 (content s.w) off.toNat (buf.read 0 size.toNat)
    rw [Mem.length_read] at hback
    rw [hc, written, hback] at hread
    exact ⟨s'', hread⟩
  · have hend := write_cut buf hL hsize hsum (content s.w) fuel s rfl
    cases hres : v9pWrite L fuel fh size off buf s with
    | error f t =>
      rw [hres] at hend
      obtain ⟨j, hj, hc⟩ := hend
      exact ⟨j, hj, hc, fun n s' h => by cases h⟩
    | ok r t =>
      rw [hres] at hend
      obtain ⟨⟨j, hj, hc⟩, hcount⟩ := hend
      cases r with
      | error e => exact ⟨j, hj, hc, fun n s' h => by cases h⟩
      | ok a =>
        obtain ⟨hle, hc'⟩ := hcount a rfl
        refine ⟨a.toNat, UInt32.le_iff_toNat_le.mp hle, hc', ?_⟩
        rintro n s' ⟨⟩
        rfl

/-- A server with one file, that takes and gives a byte at a time. -/
def byteDisk : Link (List UInt8) where
  poll p := fun c => match decode p.tx with
    | some (tag, .write _ o data) => .ok ((RMsg.write 1).polled tag p.rxBuf) (splice 0 c o.toNat (data.take 1))
    | some (tag, .read _ o k) => .ok ((RMsg.read (((c.drop o.toNat).take k.toNat).take 1)).polled tag p.rxBuf) c
    | _ => .ok .refused c
  drain p := pure (0, p.rxBuf)
  cleanupVirtio c := c
  initVirtio := pure false
  allocVec := fun _ => pure false

theorem byteDisk_stores (fh : UInt32) : StoresWrites byteDisk fh id := by
  intro p c tag o data hdecode _ hne
  refine ⟨1, _, _, splice 0 c o.toNat (data.take 1), ?_, carries_write (m := .write 1) (by decide) tag p.rxBuf,
    by decide, ?_, rfl⟩
  · show (match decode p.tx with | some (tag, .write _ o data) => _ | some (tag, .read _ o k) => _ | _ => _) = _
    rw [hdecode]
    rfl
  · exact List.length_pos_iff.mpr hne

/-- Three bytes past the end of a file of one: the gap is filled. -/
theorem write_exact_gap : ∃ s', v9pWrite byteDisk 4 1 3 2 (fun i => UInt8.ofNat (i + 5))
    ⟨startHandler zeroes zeroes, [9], []⟩ = .ok (.ok 3) s' ∧ s'.w = [9, 0, 5, 6, 7] := by
  obtain ⟨s', hwrite, hc, -⟩ := (write_exact (show (3 : UInt32).toNat < _ by decide)
      (show (2 : UInt64).toNat < _ by decide) byteDisk 1
    (fun i => UInt8.ofNat (i + 5)) id ⟨startHandler zeroes zeroes, [9], []⟩ (by decide)).1 (byteDisk_stores 1) 4
    (by decide)
  exact ⟨s', hwrite, hc⟩

/-! ## Counts that cannot be right -/

/-- The server answers the `Twrite`s on `fh` one after the other with these counts; `served` is how many it has
answered. -/
def AcksWrites (L : Link W) (fh : UInt32) (counts : Nat → UInt32) (served : W → Nat) : Prop :=
  ∀ (p : Post) (w : W) (tag : UInt16) (o : UInt64) (data : List UInt8), decode p.tx = some (tag, .write fh o data) →
    ∃ n rx w', L.poll p w = .ok (.reply n rx) w' ∧ Carries (.write (counts (served w))) n rx ∧ served w' = served w + 1

/-- The sum of the first `k` counts. -/
def acknowledged (counts : Nat → UInt32) : Nat → Nat
  | 0 => 0
  | k + 1 => acknowledged counts k + (counts k).toNat

/-- Up to the first count of 0, the sum of the counts does not pass `size` before it has reached it. -/
def CountsFit (size : UInt32) (counts : Nat → UInt32) : Prop :=
  ∀ k, (∀ i < k, counts i ≠ 0) → acknowledged counts k < size.toNat → acknowledged counts (k + 1) ≤ size.toNat

/-- `v9p_write` keeps to its buffer. -/
structure WritesSoundly (L : Link W) (fh size : UInt32) (off : UInt64) (buf : Mem) (s : St W) : Prop where
  /-- `total_written` does not pass `size` -/
  inside : ∀ k t s₁, Rounds (writeRound L fh size off buf) k 0 s t s₁ → t ≤ size
  /-- `total_written` does not go back -/
  forward : ∀ k t s₁ t' s₂, Rounds (writeRound L fh size off buf) k 0 s t s₁ →
    writeRound L fh size off buf t s₁ = .ok (.inr t') s₂ → t ≤ t'
  /-- the loop ends, and the `int` returned is negative for an error, or between `0` and `size` -/
  ends : ∃ rounds, ∀ fuel, rounds ≤ fuel → ∃ r s', v9pWrite L fuel fh size off buf s = .ok r s' ∧
    ((∃ e, r = .error e ∧ e < 0) ∨ ∃ n, r = .ok n ∧ 0 ≤ n.toInt32.toInt ∧ n.toInt32.toInt ≤ size.toNat)

section Counts

variable {L : Link W} {fh size : UInt32} {off : UInt64} {buf : Mem} {counts : Nat → UInt32} {served : W → Nat}
  {s : St W}

theorem acknowledged_mono (counts : Nat → UInt32) : Monotone (acknowledged counts) :=
  monotone_nat_of_le_succ fun _ => Nat.le_add_right _ _

theorem writeNext_acks (hL : AcksWrites L fh counts served) (hsize : size.toNat < 2147483648) (off : UInt64) (buf : Mem)
    {t : UInt32} (ht : t ≤ size) (s : St W) :
    ∃ s', writeNext L fh size off buf t s = .ok (.ok (counts (served s.w))) s' ∧ served s'.w = served s.w + 1 := by
  obtain ⟨n, rx, w', hpoll, hcarries, hserved⟩ := hL (s.ask (writeMsg s.h.msize fh size off buf t)) s.w s.h.nextTag _ _
    (decode_writeMsg hsize ht s.h.msize s.h.nextTag)
  refine ⟨s.replied (writeMsg s.h.msize fh size off buf t) n rx w', ?_, hserved⟩
  rw [writeNext_eq, request_of_reply hcarries.ne_zero hpoll, answer_write hcarries]

/-- A round is the last one, or it adds the next count. -/
theorem writeRound_cases (hL : AcksWrites L fh counts served) (hsize : size.toNat < 2147483648) (off : UInt64)
    (buf : Mem) {t : UInt32} (ht : t ≤ size) (s : St W) :
    (∃ s', writeRound L fh size off buf t s = .ok (.inl (.ok t)) s') ∨
      ∃ s', t < size ∧ counts (served s.w) ≠ 0 ∧ served s'.w = served s.w + 1 ∧
        writeRound L fh size off buf t s = .ok (.inr (t + counts (served s.w))) s' := by
  by_cases hlt : t < size
  · obtain ⟨s', hnext, hserved⟩ := writeNext_acks hL hsize off buf ht s
    by_cases hzero : counts (served s.w) = 0
    · exact .inl ⟨s', writeRound_none hlt (hzero ▸ hnext)⟩
    · exact .inr ⟨s', hlt, hzero, hserved, writeRound_some hlt hzero hnext⟩
  · exact .inl ⟨s, writeRound_full hlt⟩

/-- Where the loop stands: it has made `k` rounds, and `t` is the sum of their counts. -/
structure Counted (size : UInt32) (counts : Nat → UInt32) (served : W → Nat) (k : Nat) (t : UInt32) (s : St W) :
    Prop where
  total : t.toNat = acknowledged counts k
  inside : t ≤ size
  nonzero : ∀ i < k, counts i ≠ 0
  served : served s.w = k

/-- One round more, when its count fits. -/
theorem Counted.next {k : Nat} {t : UInt32} {s s' : St W} (h : Counted size counts served k t s)
    (hfits : acknowledged counts (k + 1) ≤ size.toNat) (hcount : counts k ≠ 0)
    (hserved : served s'.w = served s.w + 1) : Counted size counts served (k + 1) (t + counts k) s' := by
  have hsum : t.toNat + (counts k).toNat ≤ size.toNat := h.total ▸ hfits
  have hadd := toNat_add_of_le hsum
  refine ⟨hadd.trans (congrArg (· + _) h.total), UInt32.le_iff_toNat_le.mpr (hadd ▸ hsum), fun i hi => ?_,
    hserved.trans (congrArg (· + 1) h.served)⟩
  rcases Nat.lt_succ_iff_lt_or_eq.mp hi with hi | rfl
  · exact h.nonzero i hi
  · exact hcount

/-- As long as the sum stays below `size`, the loop goes on. -/
theorem writes_go_on (hL : AcksWrites L fh counts served) (hsize : size.toNat < 2147483648) (off : UInt64) (buf : Mem)
    (hs : served s.w = 0) : ∀ k, (∀ i < k, counts i ≠ 0) → acknowledged counts k < size.toNat →
    ∃ t s₁, Rounds (writeRound L fh size off buf) k 0 s t s₁ ∧ Counted size counts served k t s₁
  | 0, _, _ => ⟨0, s, .zero 0 s, rfl, UInt32.zero_le, fun _ hi => absurd hi (Nat.not_lt_zero _), hs⟩
  | k + 1, hnonzero, hbelow => by
    have hbefore := (acknowledged_mono counts (Nat.le_succ k)).trans_lt hbelow
    obtain ⟨t, s₁, hrounds, h⟩ :=
      writes_go_on hL hsize off buf hs k (fun i hi => hnonzero i (Nat.lt_succ_of_lt hi)) hbefore
    have hlt : t < size := UInt32.lt_iff_toNat_lt.mpr (h.total ▸ hbefore)
    obtain ⟨s₂, hnext, hserved⟩ := writeNext_acks hL hsize off buf h.inside s₁
    rw [h.served] at hnext
    have hcount := hnonzero k (Nat.lt_succ_self k)
    exact ⟨_, s₂, .next hrounds (writeRound_some hlt hcount hnext), h.next hbelow.le hcount hserved⟩

/-- When the counts fit, `total_written` is their sum in every round. -/
theorem rounds_counted (hL : AcksWrites L fh counts served) (hsize : size.toNat < 2147483648)
    (hs : served s.w = 0) (hfit : CountsFit size counts) {k : Nat} {t : UInt32} {s₁ : St W}
    (h : Rounds (writeRound L fh size off buf) k 0 s t s₁) : Counted size counts served k t s₁ := by
  generalize hb : (0 : UInt32) = b at h
  induction h with
  | zero b s => exact ⟨hb ▸ rfl, hb ▸ UInt32.zero_le, fun _ hi => absurd hi (Nat.not_lt_zero _), hs⟩
  | @next k b t t' s s₁ s₂ h hround ih =>
    subst hb
    have hcounted := ih hs rfl
    rcases writeRound_cases hL hsize off buf hcounted.inside s₁ with ⟨s', hend⟩ | ⟨s', hlt, hcount, hserved, hmore⟩
    · rw [hend] at hround
      cases hround
    · rw [hmore] at hround
      cases hround
      rw [hcounted.served] at hcount ⊢
      refine hcounted.next (hfit k hcounted.nonzero ?_) hcount hserved
      rw [← hcounted.total]
      exact UInt32.lt_iff_toNat_lt.mp hlt

/-- Every count adds something. -/
theorem le_acknowledged {k : Nat} (h : ∀ i < k, counts i ≠ 0) : k ≤ acknowledged counts k := by
  induction k with
  | zero => exact le_rfl
  | succ k ih =>
    have hpos : 0 < (counts k).toNat :=
      Nat.pos_of_ne_zero fun h0 => h k (Nat.lt_succ_self k) (UInt32.toNat_inj.mp h0)
    exact Nat.add_le_add (ih fun i hi => h i (Nat.lt_succ_of_lt hi)) hpos

end Counts

/-- **`v9p_write` keeps to its buffer exactly when the sum of the counts that the server sends does not
pass `size`.** -/
theorem write_sound_iff {L : Link W} {fh size : UInt32} {counts : Nat → UInt32} {served : W → Nat}
    (hL : AcksWrites L fh counts served) (hsize : size.toNat < 2147483648) (off : UInt64) (buf : Mem) (s : St W)
    (hs : served s.w = 0) : WritesSoundly L fh size off buf s ↔ CountsFit size counts := by
  constructor
  · intro h k hnonzero hbelow
    obtain ⟨t, s₁, hrounds, hcounted⟩ := writes_go_on hL hsize off buf hs k hnonzero hbelow
    have hlt : t < size := UInt32.lt_iff_toNat_lt.mpr (hcounted.total ▸ hbelow)
    rw [acknowledged, ← hcounted.total]
    by_cases hcount : counts k = 0
    · rw [hcount]
      exact (UInt32.lt_iff_toNat_lt.mp hlt).le
    -- the next total is inside and not below this one, so the sum did not wrap
    obtain ⟨s₂, hnext, -⟩ := writeNext_acks hL hsize off buf hcounted.inside s₁
    rw [hcounted.served] at hnext
    have hround := writeRound_some hlt hcount hnext
    have hin := UInt32.le_iff_toNat_le.mp (h.inside (k + 1) _ s₂ (.next hrounds hround))
    have hfw := UInt32.le_iff_toNat_le.mp (h.forward k t s₁ _ s₂ hrounds hround)
    have := t.toNat_lt
    have := (counts k).toNat_lt
    rw [UInt32.toNat_add] at hin hfw
    omega
  · intro hfit
    have hcounted : ∀ {k t s₁}, Rounds (writeRound L fh size off buf) k 0 s t s₁ → Counted size counts served k t s₁ :=
      fun h => rounds_counted hL hsize hs hfit h
    have hle : ∀ {k t s₁}, Rounds (writeRound L fh size off buf) k 0 s t s₁ → k ≤ size.toNat := fun h =>
      (le_acknowledged (hcounted h).nonzero).trans ((hcounted h).total ▸ UInt32.le_iff_toNat_le.mp (hcounted h).inside)
    refine ⟨fun k t s₁ h => (hcounted h).inside, fun k t s₁ t' s₂ h hround => ?_, size.toNat + 1, fun fuel hfuel => ?_⟩
    · rw [UInt32.le_iff_toNat_le, (hcounted h).total, (hcounted (.next h hround)).total]
      exact acknowledged_mono counts (Nat.le_succ k)
    · obtain ⟨k, t, s₁, h, hlast⟩ := exists_last_of_bounded hle
      have hk := hle h
      have ht := UInt32.le_iff_toNat_le.mp (hcounted h).inside
      rcases writeRound_cases hL hsize off buf (hcounted h).inside s₁ with ⟨s', hend⟩ | ⟨s', -, -, -, hmore⟩
      · have hint := toInt_toInt32_of_lt (k := t) (by omega)
        exact ⟨.ok t, s', h.loop_done hend (by omega), .inr ⟨t, rfl, by omega, by omega⟩⟩
      · exact absurd hmore (hlast _ s')

/-- A server that says it took two bytes, whatever it was sent. -/
def overcounter : Link Nat where
  poll p := fun w => .ok (match decode p.tx with
    | some (tag, _) => (RMsg.write 2).polled tag p.rxBuf
    | none => .refused) (w + 1)
  drain p := pure (0, p.rxBuf)
  cleanupVirtio w := w
  initVirtio := pure false
  allocVec := fun _ => pure false

theorem overcounter_acks (fh : UInt32) : AcksWrites overcounter fh (fun _ => 2) id := by
  intro p w tag o data hdecode
  refine ⟨_, _, w + 1, ?_, carries_write (m := .write 2) (by decide) tag p.rxBuf, rfl⟩
  show EStateM.Result.ok _ (w + 1) = _
  rw [hdecode]
  rfl

/-- Before the first write. -/
def coldCounter : St Nat := ⟨startHandler zeroes zeroes, 0, []⟩

/-- Four bytes, of which the server takes two and two. -/
theorem write_sound_four : WritesSoundly overcounter 1 4 0 zeroes coldCounter := by
  refine (write_sound_iff (overcounter_acks 1) (by decide) 0 zeroes coldCounter rfl).mpr fun k _ hbelow => ?_
  have hsum : ∀ k, acknowledged (fun _ => 2) k = 2 * k := by
    intro k
    induction k with
    | zero => rfl
    | succ k ih => rw [acknowledged, ih, Nat.mul_succ]; rfl
  rw [hsum] at hbelow ⊢
  have h4 : (4 : UInt32).toNat = 4 := rfl
  omega

/-- One byte, of which the server says it took two: so does `v9p_write`. -/
theorem overcount : AcksWrites overcounter 1 (fun _ => 2) id ∧
    (∃ s', v9pWrite overcounter 2 1 1 0 zeroes coldCounter = .ok (.ok 2) s') ∧
    ¬ WritesSoundly overcounter 1 1 0 zeroes coldCounter := by
  obtain ⟨s', hnext, -⟩ : ∃ s', writeNext overcounter 1 1 0 zeroes 0 coldCounter = .ok (.ok 2) s' ∧ s'.w = 0 + 1 :=
    writeNext_acks (overcounter_acks 1) (by decide) 0 zeroes UInt32.zero_le coldCounter
  have hround := writeRound_some (by decide) (by decide) hnext
  have hrounds : Rounds (writeRound overcounter 1 1 0 zeroes) 1 0 coldCounter 2 s' := .next (.zero 0 coldCounter) hround
  refine ⟨overcounter_acks 1, ⟨s', hrounds.loop_done (writeRound_full (by decide)) (by decide)⟩, fun h => ?_⟩
  exact absurd (h.inside 1 2 s' hrounds) (by decide)

end Virtio9P
