import Virtio9P.Entries
import Virtio9P.Reading

/-!
# Listing a directory

`v9p_readdir` asks for one block after the other, each from the resume offset of the last entry it has seen. With a
server that answers with whole entries, every entry reaches the filler, once and in order (`listing_complete`).

The listing goes on as long as blocks are not empty. If every non-empty block holds an entry, the resume offset grows
and the listing ends; a block too short for an entry is asked for again and again (`listing_ends_iff`,
`short_block_hangs`).
-/

namespace Virtio9P

open Lib

variable {W : Type}

/-! ## One `Treaddir` -/

/-- What a round makes of its `Treaddir`. -/
def roundEnd (filler : List Str → Bool) (o : UInt64) (names : List Str) :
    Except Int32 Block → (Int32 × List Str) ⊕ (UInt64 × List Str)
  | .error e => .inl (e, names)
  | .ok block =>
    if block.actual = 0 then .inl (0, names)
    else
      let r := readdirBlock filler block block.actual.toNat 0 o names
      if r.1 then .inl (0, r.2.2) else .inr r.2

/-- The number of bytes that a `Treaddir` asks for. -/
def listCount (msize : UInt32) : UInt32 := capCount msize 11 (msize - 11)

section Round

variable {L : Link W} {fh : UInt32} {o : UInt64} {s : St W}

/-- A round whose `Treaddir` is answered. -/
theorem readdirRound_reply (filler : List Str → Bool) (names : List Str) {msize : UInt32} (hmsize : s.h.msize = msize)
    {n : UInt32} {rx : Mem} {w : W}
    (hpoll : L.poll (s.ask (.readdir fh o (listCount msize))) s.w = .ok (.reply n rx) w) :
    readdirRound L filler fh (msize - 11) (o, names) s =
      .ok (roundEnd filler o names (resultOf (parseReaddir (listCount msize)) n rx))
        (s.replied (.readdir fh o (listCount msize)) n rx w) := by
  unfold readdirRound
  rw [p9Readdir_eq, bind_assoc, handler_bind, hmsize]
  show (p9Request (v9pTransact L) p9NextTag (.readdir fh o (listCount msize)) (parseReaddir (listCount msize))
    >>= _) s = _
  rw [run_bind_ok (request_of_poll hpoll _)]
  cases resultOf (parseReaddir (listCount msize)) n rx with
  | error e => rfl
  | ok block =>
    simp only [roundEnd]
    split
    · rfl
    · split <;> rfl

theorem decode_readdir (fh : UInt32) (o : UInt64) (k : UInt32) (tag : UInt16) :
    decode ((TMsg.readdir fh o k).frame tag) = some (tag, .readdir fh o k) :=
  decode_frame (m := .readdir fh o k) trivial (by simp [TMsg.body]) tag

end Round

/-! ## A directory -/

/-- The entries after the resume offset `o`. -/
def following (entries : List Dirent) (o : UInt64) : List Dirent := entries.filter (o < ·.offset)

/-- The server answers every `Treaddir` of `k` bytes on `fh` with the next entries, as many as it likes and as fit: none
only when there are no more. -/
def ListsDirectory (L : Link W) (fh k : UInt32) (entries : List Dirent) : Prop :=
  ∀ (p : Post) (w : W) (tag : UInt16) (o : UInt64), decode p.tx = some (tag, .readdir fh o k) →
    ∃ es n rx w', L.poll p w = .ok (.reply n rx) w' ∧ Carries (.readdir (es.flatMap Dirent.bytes)) n rx ∧
      es <+: following entries o ∧ (es.flatMap Dirent.bytes).length ≤ k.toNat ∧ (es = [] ↔ following entries o = [])

/-- The entries of a directory: their resume offsets increase, from `0`, the offset of the start, on; their names are
strings of the protocol. -/
structure Directory (entries : List Dirent) : Prop where
  increasing : (0 :: entries.map Dirent.offset).Pairwise (· < ·)
  names : ∀ e ∈ entries, e.name.length ≤ 255 ∧ 0 ∉ e.name

section Offered

variable {filler : List Str → Bool}

theorem prefix_offered : ∀ (names : List Str) (es : List Dirent), offered filler names es <+: es
  | _, [] => List.prefix_rfl
  | names, e :: es => by
    simp only [offered]
    split
    · exact ⟨es, rfl⟩
    · exact List.cons_prefix_cons.mpr ⟨rfl, prefix_offered _ es⟩

/-- A filler that does not ask to stop gets everything. -/
theorem offered_of_not_stops : ∀ (names : List Str) (es : List Dirent), stops filler names es = false →
    offered filler names es = es
  | _, [], _ => rfl
  | names, e :: es, h => by
    simp only [stops, Bool.or_eq_false_iff] at h
    simp only [offered, h.1, Bool.false_eq_true, if_false, offered_of_not_stops _ es h.2]

/-- When the filler has not asked to stop, it gets more. -/
theorem offered_append_of_not_stops : ∀ (names : List Str) (es es' : List Dirent), stops filler names es = false →
    offered filler names (es ++ es') = es ++ offered filler (names ++ es.map Dirent.name) es'
  | names, [], es', _ => by simp
  | names, e :: es, es', h => by
    simp only [stops, Bool.or_eq_false_iff] at h
    have ih := offered_append_of_not_stops (names ++ [e.name]) es es' h.2
    simp only [List.cons_append, offered, h.1, Bool.false_eq_true, if_false, ih, List.map_cons, List.append_assoc,
      List.nil_append]

theorem offered_append_of_stops : ∀ (names : List Str) (es es' : List Dirent), stops filler names es = true →
    offered filler names (es ++ es') = offered filler names es
  | _, [], _, h => by cases h
  | names, e :: es, es', h => by
    by_cases hstop : filler (names ++ [e.name]) = true
    · simp only [List.cons_append, offered, hstop, if_true]
    · simp only [stops, hstop, Bool.false_or] at h
      simp only [List.cons_append, offered, hstop, Bool.false_eq_true, if_false, offered_append_of_stops _ es es' h]

/-- What the filler gets, up to the first entry at which it asks to stop. -/
theorem offered_take : ∀ (names : List Str) (es : List Dirent) (i : Nat), i < es.length →
    (∀ j < i, filler (names ++ (es.take (j + 1)).map Dirent.name) = false) →
    filler (names ++ (es.take (i + 1)).map Dirent.name) = true → offered filler names es = es.take (i + 1)
  | _, [], _, hi, _, _ => by simp at hi
  | names, e :: es, 0, _, _, hstop => by
    simp only [List.take_succ_cons, List.take_zero, List.map_cons, List.map_nil] at hstop ⊢
    simp only [offered, hstop, if_true]
  | names, e :: es, i + 1, hi, hbefore, hstop => by
    have hfirst : filler (names ++ [e.name]) = false := by simpa using hbefore 0 (by omega)
    have ih := offered_take (names ++ [e.name]) es i (by simpa using hi)
      (fun j hj => by simpa using hbefore (j + 1) (by omega)) (by simpa using hstop)
    simp only [offered, hfirst, Bool.false_eq_true, if_false, ih, List.take_succ_cons]

theorem not_stops : ∀ (names : List Str) (es : List Dirent),
    (∀ i < es.length, filler (names ++ (es.take (i + 1)).map Dirent.name) = false) → stops filler names es = false
  | _, [], _ => rfl
  | names, e :: es, h => by
    have hfirst : filler (names ++ [e.name]) = false := by simpa using h 0 (by simp)
    have ih := not_stops (names ++ [e.name]) es fun i hi => by simpa using h (i + 1) (by simpa using hi)
    simp only [stops, hfirst, ih, Bool.or_self]

end Offered

section Complete

variable {L : Link W} {fh : UInt32} {entries : List Dirent}

/-- After a block, the entries that follow its last one are left. -/
theorem following_resume (hdir : Directory entries) {o : UInt64} {es rest : List Dirent}
    (h : following entries o = es ++ rest) (hne : es ≠ []) : following entries (resumeAt o es) = rest := by
  obtain ⟨es, e, rfl⟩ := List.eq_nil_or_concat es |>.resolve_left hne
  have hresume : resumeAt o (es.concat e) = e.offset := by simp [resumeAt]
  have hsorted : ((following entries o).map Dirent.offset).Pairwise (· < ·) :=
    (List.pairwise_cons.mp hdir.increasing).2.sublist (List.filter_sublist.map _)
  rw [h, List.concat_eq_append, List.append_assoc, List.map_append, List.pairwise_append] at hsorted
  obtain ⟨-, hrest, hbefore⟩ := hsorted
  rw [List.singleton_append, List.map_cons, List.pairwise_cons] at hrest
  have hlt : o < e.offset := by
    have hmem : e ∈ following entries o := by rw [h]; simp
    simpa using (List.mem_filter.mp hmem).2
  have htwice : following entries e.offset = (following entries o).filter (e.offset < ·.offset) := by
    unfold following
    rw [List.filter_filter]
    refine List.filter_congr fun x _ => ?_
    rw [Bool.eq_iff_iff, Bool.and_eq_true, decide_eq_true_iff, decide_eq_true_iff]
    exact ⟨fun hx => ⟨hx, UInt64.lt_trans hlt hx⟩, fun hx => hx.1⟩
  rw [hresume, htwice, h, List.concat_eq_append, List.filter_append, List.filter_append]
  have h₁ : es.filter (e.offset < ·.offset) = [] := by
    refine List.filter_eq_nil_iff.mpr fun x hx => ?_
    have := hbefore x.offset (List.mem_map_of_mem hx) e.offset (by simp)
    simpa using UInt64.le_of_lt this
  have h₂ : rest.filter (e.offset < ·.offset) = rest := by
    refine List.filter_eq_self.mpr fun x hx => ?_
    simpa using hrest.1 x.offset (List.mem_map_of_mem hx)
  rw [h₁, h₂]
  simp

theorem following_start (hdir : Directory entries) : following entries 0 = entries := by
  refine List.filter_eq_self.mpr fun e he => ?_
  simpa using (List.pairwise_cons.mp hdir.increasing).1 e.offset (List.mem_map_of_mem he)

/-- A block of whole entries, as `P9_Readdir` hands it out. -/
theorem block_of_carries {es : List Dirent} {n count : UInt32} {rx : Mem}
    (hcarries : Carries (.readdir (es.flatMap Dirent.bytes)) n rx)
    (hfit : (es.flatMap Dirent.bytes).length ≤ count.toNat) (hnames : ∀ e ∈ es, e.name.length ≤ 255) :
    ∃ block, resultOf (parseReaddir count) n rx = .ok block ∧ (block.actual = 0 ↔ es = []) ∧
    block.parts = (es, []) := by
  obtain ⟨hcount, hdata⟩ := hcarries.data rfl hfit
  have hlen : es.length ≤ (es.flatMap Dirent.bytes).length := by
    rw [List.length_flatMap]
    refine le_trans ?_ (List.length_le_sum_of_one_le _ fun i hi => ?_)
    · rw [List.length_map]
    · obtain ⟨e, -, rfl⟩ := List.mem_map.mp hi
      rw [Dirent.length_bytes]
      omega
  refine ⟨⟨fun i => rx (11 + i), dataCount rx n count⟩, ?_, ?_, ?_⟩
  · rw [resultOf, if_neg hcarries.ne_zero, hcarries.answer_eq (by simp)]
    simp only [parseReaddir, p9RequireSize, hcarries.le (show (11 : UInt32).toNat ≤ _ by simp [RMsg.body]; omega),
      if_false]
    rfl
  · rw [← UInt32.toNat_inj, hcount, UInt32.toNat_zero, List.length_eq_zero_iff]
    cases es with
    | nil => simp
    | cons e es =>
      have : (e.bytes ++ es.flatMap Dirent.bytes).length ≠ 0 := by simp
      simp only [List.flatMap_cons, reduceCtorEq, iff_false]
      exact fun h => this (by rw [h]; rfl)
  · unfold Block.parts Block.partsFrom
    simp only [Nat.sub_zero, hcount, Mem.read_shift, hdata]
    exact complete_flatMap es hlen fun e he => by have := hnames e he; omega

/-- The loop from the resume offset `o` on. -/
theorem loop_directory {msize : UInt32} (hL : ListsDirectory L fh (listCount msize) entries) (hdir : Directory entries)
    (filler : List Str → Bool) (fuel : Nat) :
    ∀ (o : UInt64) (names : List Str) (s : St W), s.h.msize = msize → (following entries o).length < fuel →
      ∃ s', loop .hang (readdirRound L filler fh (msize - 11)) fuel (o, names) s =
        .ok (0, names ++ (offered filler names (following entries o)).map Dirent.name) s' := by
  induction fuel with
  | zero => intro o names s _ hfuel; omega
  | succ fuel ih =>
    intro o names s hmsize hfuel
    obtain ⟨es, n, rx, w', hpoll, hcarries, ⟨rest, hrest⟩, hfit, hempty⟩ :=
      hL (s.ask (.readdir fh o (listCount msize))) s.w s.h.nextTag o (decode_readdir ..)
    have hmem : ∀ e ∈ es, e ∈ entries := fun e he =>
      List.mem_of_mem_filter (show e ∈ following entries o by rw [← hrest]; exact List.mem_append_left _ he)
    obtain ⟨block, hblock, hzero, hparts⟩ :=
      block_of_carries hcarries hfit fun e he => (hdir.names e (hmem e he)).1
    have hround := readdirRound_reply filler names hmsize hpoll
    rw [hblock] at hround
    set s₁ := s.replied (.readdir fh o (listCount msize)) n rx w' with hs₁
    by_cases hes : es = []
    · -- the end of the directory
      rw [roundEnd, if_pos (hzero.mpr hes)] at hround
      refine ⟨s₁, ?_⟩
      rw [hempty.mp hes, offered, List.map_nil, List.append_nil]
      exact run_bind_ok hround
    · have hclean : EndsWhole filler names block.parts.1 block.parts.2 := by
        rw [hparts]
        refine ⟨fun e he => (hdir.names e (hmem e ?_)).2, .inr (by simp)⟩
        exact (prefix_offered names es).subset he
      have hlisted := readdirBlock_clean block.actual.toNat 0 o names (by omega)
        (by rw [← Block.parts, hparts]; exact fun e he => (hdir.names e (hmem e he)).1) hclean
      rw [← Block.parts, hparts] at hlisted
      rw [roundEnd, if_neg fun h => hes (hzero.mp h), hlisted] at hround
      by_cases hstop : stops filler names es = true
      · simp only [hstop, if_true] at hround
        refine ⟨s₁, ?_⟩
        rw [← hrest, offered_append_of_stops names es rest hstop]
        exact run_bind_ok hround
      · rw [Bool.not_eq_true] at hstop
        simp only [hstop, Bool.false_eq_true, if_false, offered_of_not_stops names es hstop] at hround
        have hnext := following_resume hdir hrest.symm hes
        have hlen : rest.length < fuel := by
          have h := congrArg List.length hrest
          have := List.length_pos_iff.mpr hes
          rw [List.length_append] at h
          omega
        obtain ⟨s', hloop⟩ := ih (resumeAt o es) (names ++ es.map Dirent.name) s₁ hmsize (by rw [hnext]; exact hlen)
        refine ⟨s', ?_⟩
        rw [← hrest, offered_append_of_not_stops names es rest hstop, List.map_append, ← List.append_assoc]
        rw [hnext] at hloop
        exact (run_bind_ok hround).trans hloop

end Complete

/-- **The filler gets every entry of the directory**, once, in order and under its name, however the server splits them
into blocks; or the entries up to the one at which it asks to stop. -/
theorem listing_complete {entries : List Dirent} (hdir : Directory entries) {L : Link W} {fh : UInt32} {s : St W}
    (hL : ListsDirectory L fh (listCount s.h.msize) entries) (filler : List Str → Bool) {fuel : Nat}
    (hfuel : entries.length < fuel) :
    ∃ calls s', v9pReaddir L fuel filler fh s = .ok (0, calls) s' ∧
      ((∀ i < entries.length, filler ((entries.map Dirent.name).take (i + 1)) = false) →
        calls = entries.map Dirent.name) ∧
      ∀ i < entries.length, (∀ j < i, filler ((entries.map Dirent.name).take (j + 1)) = false) →
        filler ((entries.map Dirent.name).take (i + 1)) = true → calls = (entries.map Dirent.name).take (i + 1) := by
  have hstart := following_start hdir
  obtain ⟨s', hloop⟩ := loop_directory hL hdir filler fuel 0 [] s rfl (by rwa [hstart])
  rw [hstart] at hloop
  simp only [← List.map_take]
  refine ⟨_, s', hloop, fun hall => ?_, fun i hi hbefore hstop => ?_⟩
  · rw [offered_of_not_stops [] entries (not_stops [] entries hall)]
    rfl
  · rw [offered_take [] entries i hi hbefore hstop]
    rfl

/-- A server that lists a directory one entry at a time. -/
def oneByOne (entries : List Dirent) : Link Unit where
  poll p := pure (match decode p.tx with
    | some (tag, .readdir _ o _) => (RMsg.readdir
      (((following entries o).take 1).flatMap Dirent.bytes)).polled tag p.rxBuf
    | _ => .refused)
  drain p := pure (0, p.rxBuf)
  cleanupVirtio w := w
  initVirtio := pure false
  allocVec := fun _ => pure false

theorem oneByOne_lists {entries : List Dirent} (hnames : ∀ e ∈ entries, e.name.length ≤ 255) (fh : UInt32) {k : UInt32}
    (hk : 279 ≤ k.toNat) : ListsDirectory (oneByOne entries) fh k entries := by
  intro p w tag o hdecode
  have hlen : (((following entries o).take 1).flatMap Dirent.bytes).length ≤ 279 := by
    cases hf : following entries o with
    | nil => simp
    | cons e es =>
      have he : e ∈ entries := List.mem_of_mem_filter
        (show e ∈ following entries o by rw [hf]; exact List.mem_cons_self ..)
      have := hnames e he
      simp only [List.take_succ_cons, List.take_zero, List.flatMap_cons, List.flatMap_nil, List.append_nil,
        Dirent.length_bytes]
      omega
  have hsmall : 7 + (RMsg.readdir (((following entries o).take 1).flatMap Dirent.bytes)).body.length < 4294967296 := by
    rw [RMsg.body, List.length_append, length_leBytes]
    omega
  refine ⟨(following entries o).take 1, _, _, w, ?_, carries_write hsmall tag p.rxBuf,
    List.take_prefix _ _, by omega, ?_⟩
  · show (pure _ : EStateM Fault Unit Polled) w = _
    rw [hdecode]
    rfl
  · cases following entries o <;> simp

/-- Two entries, one of them without a name. -/
def twoEntries : List Dirent := [⟨⟨0, 0, 1⟩, 5, 4, [97, 98]⟩, ⟨⟨0, 0, 2⟩, 9, 8, []⟩]

theorem listing_complete_two : ∃ calls s', v9pReaddir (oneByOne twoEntries) 3 (fun _ => false) 1 emptyState =
      .ok (0, calls) s' ∧ calls = [[97, 98], []] := by
  obtain ⟨calls, s', hlist, hall, -⟩ := listing_complete (s := emptyState)
    (show Directory twoEntries from ⟨by decide, by decide⟩) (oneByOne_lists (by decide) 1 (by decide)) (fun _ => false)
    (show twoEntries.length < 3 by decide)
  exact ⟨calls, s', hlist, hall fun _ _ => rfl⟩

/-! ## Blocks of any bytes -/

/-- The server answers a `Treaddir` on `fh` from the offset `o` with the bytes `f o`, whatever they are, but for the two
bytes of the tag. -/
def Replies (L : Link W) (fh : UInt32) (f : UInt64 → List UInt8) : Prop :=
  ∀ (p : Post) (w : W) (tag : UInt16) (o : UInt64) (k : UInt32), decode p.tx = some (tag, .readdir fh o k) →
    ∃ n rx w' a b, L.poll p w = .ok (.reply n rx) w' ∧ n.toNat = (f o).length ∧
      (rx.write 5 [a, b]).read 0 n.toNat = f o

/-- The data that a reply has for a `Treaddir` of `k` bytes: `count[4] data[count]` after the header, unless it is an
`Rlerror`. -/
def replyData (k : UInt32) (bs : List UInt8) : List UInt8 :=
  if bs.length < 11 ∨ bs[4]? = some p9RLError then []
  else (bs.drop 11).take (min (leNat ((bs.drop 7).take 4)) k.toNat)

/-- The offset fields in the data of a reply, `qid[13] offset[8] type[1] name[s]`: one wherever there are 24 bytes for
an entry. A name that is not all there is passed over as if it were empty. -/
def offsetFields : Nat → List UInt8 → List UInt64
  | 0, _ => []
  | fuel + 1, d =>
    if d.length < 24 then []
    else
      let len := leNat ((d.drop 22).take 2)
      UInt64.ofNat (leNat ((d.drop 13).take 8)) ::
        offsetFields fuel (d.drop (if 24 + len ≤ d.length then 24 + len else 24))

/-- Where the reply for `o` points: to its last offset field, or to `o` when it has none, if there is data in it. -/
def pointsTo (k : UInt32) (f : UInt64 → List UInt8) (o : UInt64) : Option UInt64 :=
  if replyData k (f o) = [] then none
  else some ((offsetFields (replyData k (f o)).length (replyData k (f o))).getLastD o)

/-- The offsets to which the replies lead, from 0 on. -/
def offsetAt (k : UInt32) (f : UInt64 → List UInt8) : Nat → Option UInt64
  | 0 => some 0
  | n + 1 => (offsetAt k f n).bind (pointsTo k f)

/-- The complete entries in the data of a reply, and the bytes after them. -/
def dataParts (d : List UInt8) : List Dirent × List UInt8 := complete d.length d

/-- What holds of the data of every reply to which the replies lead. -/
def OfReached (k : UInt32) (f : UInt64 → List UInt8) (P : List UInt8 → Prop) : Prop :=
  ∀ n o, offsetAt k f n = some o → P (replyData k (f o))

/-- The listing ends. -/
def ListingEnds (L : Link W) (fh : UInt32) (filler : List Str → Bool) (s : St W) : Prop :=
  ∃ rounds, ∀ fuel, rounds ≤ fuel → ∃ r s', v9pReaddir L fuel filler fh s = .ok r s'

/-- The listing asks for no offset twice. -/
def AsksOnce (L : Link W) (fh : UInt32) (filler : List Str → Bool) (s : St W) : Prop :=
  ∀ {i j b c t u}, Rounds (readdirRound L filler fh (s.h.msize - 11)) i (0, []) s b t →
    Rounds (readdirRound L filler fh (s.h.msize - 11)) j (0, []) s c u → b.1 = c.1 → i = j

section Termination

variable {L : Link W} {fh k : UInt32} {f : UInt64 → List UInt8}

/-- `P9_Readdir` does not look at the tag. -/
theorem resultOf_tag (n : UInt32) (rx : Mem) (a b : UInt8) :
    resultOf (parseReaddir k) n (rx.write 5 [a, b]) = resultOf (parseReaddir k) n rx := by
  have htype : p9GetU8 (rx.write 5 [a, b]) 4 = p9GetU8 rx 4 := by
    rw [getU8_eq, getU8_eq, Mem.read_write_of_disjoint _ (.inl (by decide))]
  have hcode : p9GetU32 (rx.write 5 [a, b]) 7 = p9GetU32 rx 7 := by
    rw [getU32_eq, getU32_eq, Mem.read_write_of_disjoint _ (.inr (by simp))]
  have hdata : (fun i => rx.write 5 [a, b] (11 + i)) = fun i => rx (11 + i) :=
    funext fun i => Mem.write_of_ge _ (by simp; omega)
  have hcheck : p9CheckError (rx.write 5 [a, b]) n = p9CheckError rx n := by
    unfold p9CheckError
    rw [htype, hcode]
  have hparse : parseReaddir k (rx.write 5 [a, b]) n = parseReaddir k rx n := by
    unfold parseReaddir dataCount
    rw [hdata, hcode]
  unfold resultOf answer
  rw [hcheck, hparse]

theorem toNat_ite_lt (x y : UInt32) : (if x < y then x else y).toNat = min x.toNat y.toNat := by
  by_cases h : x < y
  · rw [if_pos h, min_eq_left (UInt32.lt_iff_toNat_lt.mp h).le]
  · rw [if_neg h, min_eq_right (UInt32.le_iff_toNat_le.mp (UInt32.not_lt.mp h))]

/-- The number of data bytes. -/
theorem toNat_dataCount (rx : Mem) {n : UInt32} (hn : 11 ≤ n.toNat) :
    (dataCount rx n k).toNat = min (min (leNat (rx.read 7 4)) k.toNat) (n.toNat - 11) := by
  have hsub : (n - 11).toNat = n.toNat - 11 := UInt32.toNat_sub_of_le _ _ (UInt32.le_iff_toNat_le.mpr hn)
  have hcount : (p9GetU32 rx 7).1.toNat = leNat (rx.read 7 4) := by
    rw [getU32_eq]
    exact Nat.mod_eq_of_lt (by simpa using leNat_lt (rx.read 7 4))
  unfold dataCount
  rw [toNat_ite_lt, toNat_ite_lt, hsub, hcount, min_comm, min_comm k.toNat]

/-- The data of a reply that is in the buffer. -/
theorem replyData_read (rx : Mem) {n : UInt32} (hn : 11 ≤ n.toNat) (htype : rx 4 ≠ p9RLError) :
    replyData k (rx.read 0 n.toNat) = rx.read 11 (dataCount rx n k).toNat := by
  have hat : (rx.read 0 n.toNat)[4]? = some (rx 4) := by rw [Mem.getElem?_read _ _ (by omega), Nat.zero_add]
  have hcount : ((rx.read 0 n.toNat).drop 7).take 4 = rx.read 7 4 := by
    rw [Mem.drop_read _ _ (by omega), Mem.take_read _ _ (by omega)]
  have hcut : ∀ c, (rx.read 11 (n.toNat - 11)).take c = rx.read 11 (min c (n.toNat - 11)) := by
    intro c
    rcases Nat.le_total c (n.toNat - 11) with hle | hle
    · rw [min_eq_left hle, Mem.take_read _ _ hle]
    · rw [min_eq_right hle, List.take_of_length_le (by rw [Mem.length_read]; exact hle)]
  unfold replyData
  rw [if_neg, hcount, Mem.drop_read _ _ hn, hcut, toNat_dataCount rx hn]
  rintro (hshort | herror)
  · rw [Mem.length_read] at hshort
    omega
  · exact htype (Option.some.inj (hat.symm.trans herror))

/-- A reply of 11 bytes or more that is not an `Rlerror` is a block. -/
theorem resultOf_block {n : UInt32} {rx : Mem} (hn : 11 ≤ n.toNat) (htype : rx 4 ≠ p9RLError) :
    resultOf (parseReaddir k) n rx = .ok ⟨fun i => rx (11 + i), dataCount rx n k⟩ := by
  have hne : n ≠ 0 := fun h0 => absurd (h0 ▸ hn : 11 ≤ (0 : UInt32).toNat) (by decide)
  have hsize : ¬ n < 11 := fun h => absurd (UInt32.lt_iff_toNat_lt.mp h) (not_lt.mpr hn)
  have hhdr : ¬ n < p9RHdrSize := fun h => hsize (UInt32.lt_trans h (by decide))
  have hcheck : p9CheckError rx n = 0 := by
    unfold p9CheckError
    rw [if_neg hhdr, if_neg (show ¬ (p9GetU8 rx 4).1 = p9RLError from htype)]
  unfold resultOf answer parseReaddir p9RequireSize
  rw [if_neg hne, hcheck, if_neg (by decide), if_neg hsize]
  rfl

/-- An `Rlerror` is an error, or with the code 0 an empty block. -/
theorem actual_of_lerror {n : UInt32} {rx : Mem} (hn : 11 ≤ n.toNat) (htype : rx 4 = p9RLError) {block : Block}
    (h : resultOf (parseReaddir k) n rx = .ok block) : block.actual = 0 := by
  have hne : n ≠ 0 := fun h0 => absurd (h0 ▸ hn : 11 ≤ (0 : UInt32).toNat) (by decide)
  have hsize : ¬ n < 11 := fun h => absurd (UInt32.lt_iff_toNat_lt.mp h) (not_lt.mpr hn)
  have hhdr : ¬ n < p9RHdrSize := fun h => hsize (UInt32.lt_trans h (by decide))
  have hcheck : p9CheckError rx n = -(p9GetU32 rx 7).1.toInt32 := by
    unfold p9CheckError
    rw [if_neg hhdr, if_pos (show (p9GetU8 rx 4).1 = p9RLError from htype),
      if_neg (show ¬ n < p9RLErrorSize from hsize)]
  unfold resultOf answer at h
  rw [if_neg hne, hcheck] at h
  split at h
  · cases h
  · rename_i hcode
    have hzero : (p9GetU32 rx 7).1 = 0 := neg_toInt32_eq_zero (not_not.mp hcode)
    unfold parseReaddir p9RequireSize at h
    rw [if_neg hsize] at h
    cases h
    refine UInt32.toNat_inj.mp ((toNat_dataCount rx hn).trans ?_)
    rw [getU32_eq] at hzero
    have hfield : leNat (rx.read 7 4) = 0 := by
      have hlt : leNat (rx.read 7 4) < 4294967296 := by simpa using leNat_lt (rx.read 7 4)
      rw [← Nat.mod_eq_of_lt hlt]
      exact congrArg UInt32.toNat hzero
    rw [hfield, Nat.zero_min, Nat.zero_min]
    rfl

/-- **What `P9_Readdir` makes of a reply**: the data in it, or else an error or an empty block. -/
theorem resultOf_replyData {n : UInt32} {rx : Mem} {bs : List UInt8} (hn : n.toNat = bs.length) {a b : UInt8}
    (hrx : (rx.write 5 [a, b]).read 0 n.toNat = bs) :
    (replyData k bs = [] ∧ ∀ block, resultOf (parseReaddir k) n rx = .ok block → block.actual = 0) ∨
      (replyData k bs ≠ [] ∧ ∃ block, resultOf (parseReaddir k) n rx = .ok block ∧
        block.data.read 0 block.actual.toNat = replyData k bs) := by
  rw [← resultOf_tag n rx a b]
  generalize rx.write 5 [a, b] = rx at hrx
  subst hrx
  by_cases hshort : n.toNat < 11
  · refine .inl ⟨if_pos (.inl (by rwa [Mem.length_read])), fun block h => ?_⟩
    unfold resultOf answer parseReaddir p9RequireSize at h
    rw [if_pos (show n < 11 from UInt32.lt_iff_toNat_lt.mpr hshort)] at h
    split at h
    · cases h
    · split at h <;> cases h
  by_cases htype : rx 4 = p9RLError
  · refine .inl ⟨if_pos (.inr ?_), fun block => actual_of_lerror (not_lt.mp hshort) htype⟩
    rw [Mem.getElem?_read _ _ (by omega), Nat.zero_add, htype]
  have hres := resultOf_block (k := k) (not_lt.mp hshort) htype
  have hdata := replyData_read (k := k) rx (not_lt.mp hshort) htype
  by_cases hempty : replyData k (rx.read 0 n.toNat) = []
  · refine .inl ⟨hempty, fun block h => ?_⟩
    rw [hres] at h
    cases h
    rw [hempty] at hdata
    have hlen := congrArg List.length hdata
    rw [Mem.length_read] at hlen
    exact UInt32.toNat_inj.mp hlen.symm
  · refine .inr ⟨hempty, _, hres, ?_⟩
    rw [hdata]
    exact Mem.read_shift rx 11 _

/-- A filler that never asks to stop. -/
theorem never_stops (block : Block) : ∀ (fuel pos : Nat) (o : UInt64) (names : List Str),
    (readdirBlock (fun _ => false) block fuel pos o names).1 = false := by
  intro fuel
  induction fuel with
  | zero => intro pos o names; rfl
  | succ fuel ih =>
    intro pos o names
    unfold readdirBlock
    split
    · exact ih _ _ _
    · rfl

/-- **Where the listing goes on after a block**, unless the filler stops it: from the last offset field. -/
theorem readdirBlock_resume (filler : List Str → Bool) (block : Block) :
    ∀ (fuel pos : Nat) (o : UInt64) (names : List Str), (readdirBlock filler block fuel pos o names).1 = false →
      (readdirBlock filler block fuel pos o names).2.1 =
        (offsetFields fuel (block.data.read pos (block.actual.toNat - pos))).getLastD o := by
  intro fuel
  induction fuel with
  | zero => intro pos o names _; rfl
  | succ fuel ih =>
    intro pos o names hgo
    unfold offsetFields
    by_cases hroom : pos + 24 ≤ block.actual.toNat
    · have hlen : ¬ (block.data.read pos (block.actual.toNat - pos)).length < 24 := by
        rw [Mem.length_read]
        omega
      have hoffset : ((block.data.read pos (block.actual.toNat - pos)).drop 13).take 8 =
          block.data.read (pos + 13) 8 := by
        rw [Mem.drop_read _ _ (by omega), Mem.take_read _ _ (by omega)]
      have hname : ((block.data.read pos (block.actual.toNat - pos)).drop 22).take 2 =
          block.data.read (pos + 22) 2 := by
        rw [Mem.drop_read _ _ (by omega), Mem.take_read _ _ (by omega)]
      have hnext : (p9GetStr block.data block.actual.toNat 256 (pos + 22)).2 =
          pos + if 24 + leNat (block.data.read (pos + 22) 2) ≤ block.actual.toNat - pos then
            24 + leNat (block.data.read (pos + 22) 2) else 24 := by
        rw [getStr_eq, if_neg (by omega)]
        split <;> rename_i hcut
        · rw [if_neg (by omega)]
        · rw [if_pos (by omega)]
          show pos + 22 + 2 + _ = _
          omega
      unfold readdirBlock at hgo ⊢
      rw [if_pos ⟨by omega, hroom⟩, direntry_eq] at hgo ⊢
      simp only [] at hgo ⊢
      rw [if_neg hlen, hoffset, hname, Mem.length_read, List.getLastD_cons]
      split at hgo
      · cases hgo
      · rename_i hstop
        rw [if_neg hstop]
        refine (ih _ _ _ hgo).trans ?_
        rw [hnext, Mem.drop_read _ _ (by split <;> omega), Nat.sub_sub]
    · rw [readdirBlock_end hroom, if_pos (by rw [Mem.length_read]; omega)]
      rfl

/-- **A round from the offset `o`**: it ends the listing, or goes on from where the reply points. -/
theorem readdirRound_data (hL : Replies L fh f) (filler : List Str → Bool) {msize : UInt32} {s : St W}
    (hmsize : s.h.msize = msize) (o : UInt64) (names : List Str) :
    ∃ r s', readdirRound L filler fh (msize - 11) (o, names) s = .ok r s' ∧ s'.h.msize = msize ∧
      ((∃ a, r = .inl a) ∨ ∃ o' names', pointsTo (listCount msize) f o = some o' ∧ r = .inr (o', names')) ∧
      (filler = (fun _ => false) → ∀ o', pointsTo (listCount msize) f o = some o' → ∃ b, r = .inr b) := by
  obtain ⟨n, rx, w', a, b, hpoll, hn, hrx⟩ :=
    hL (s.ask (.readdir fh o (listCount msize))) s.w s.h.nextTag o (listCount msize) (decode_readdir ..)
  refine ⟨_, _, readdirRound_reply filler names hmsize hpoll, hmsize, ?_⟩
  unfold pointsTo
  rcases resultOf_replyData (k := listCount msize) hn hrx with ⟨hnone, hzero⟩ | ⟨hsome, block, hres, hdata⟩
  · rw [if_pos hnone]
    refine ⟨.inl ?_, fun _ o' ho' => by cases ho'⟩
    cases hres : resultOf (parseReaddir (listCount msize)) n rx with
    | error e => exact ⟨_, rfl⟩
    | ok block => exact ⟨(0, names), if_pos (hzero block hres)⟩
  · rw [if_neg hsome, hres]
    have hlen : (replyData (listCount msize) (f o)).length = block.actual.toNat := by rw [← hdata, Mem.length_read]
    have hactual : block.actual ≠ 0 := by
      intro h0
      rw [h0] at hlen
      exact hsome (List.length_eq_zero_iff.mp hlen)
    rw [hlen, ← hdata, roundEnd, if_neg hactual]
    cases hgo : (readdirBlock filler block block.actual.toNat 0 o names).1 with
    | true =>
      simp only [hgo, if_true]
      refine ⟨.inl ⟨_, rfl⟩, ?_⟩
      rintro rfl
      rw [never_stops] at hgo
      cases hgo
    | false =>
      simp only [hgo, Bool.false_eq_true, if_false]
      refine ⟨.inr ⟨_, _, ?_, rfl⟩, fun _ _ _ => ⟨_, rfl⟩⟩
      rw [readdirBlock_resume filler block _ 0 o names hgo, Nat.sub_zero]

variable {s : St W}

/-- The offsets that a listing gets to, under any filler. -/
theorem offsetAt_of_rounds (hL : Replies L fh f) {filler : List Str → Bool} {msize : UInt32}
    (hmsize : s.h.msize = msize) {j : Nat} {b₀ b : UInt64 × List Str} (hstart : b₀.1 = 0) {s₁ : St W}
    (h : Rounds (readdirRound L filler fh (msize - 11)) j b₀ s b s₁) :
    offsetAt (listCount msize) f j = some b.1 ∧ s₁.h.msize = msize := by
  induction h with
  | zero b s => exact ⟨congrArg some hstart.symm, hmsize⟩
  | @next j b₀ b b' s s₁ s₂ h hround ih =>
    obtain ⟨hasked, hmsize₁⟩ := ih hmsize hstart
    obtain ⟨r, s', hround', hmsize', hcases, -⟩ := readdirRound_data hL filler hmsize₁ b.1 b.2
    rw [show (b.1, b.2) = b from rfl, hround] at hround'
    cases hround'
    rcases hcases with ⟨a, ha⟩ | ⟨o', names', ho', hb'⟩
    · cases ha
    · cases hb'
      refine ⟨?_, hmsize'⟩
      rw [offsetAt, hasked]
      exact ho'

/-- A listing that is never told to stop gets to every offset to which the replies lead. -/
theorem exists_rounds (hL : Replies L fh f) {msize : UInt32} (hmsize : s.h.msize = msize) {j : Nat} :
    ∀ {o : UInt64}, offsetAt (listCount msize) f j = some o → ∃ names s₁,
      Rounds (readdirRound L (fun _ => false) fh (msize - 11)) j (0, []) s (o, names) s₁ ∧ s₁.h.msize = msize := by
  induction j with
  | zero =>
    rintro o ⟨⟩
    exact ⟨[], s, .zero _ s, hmsize⟩
  | succ j ih =>
    intro o ho
    obtain ⟨o₁, ho₁, hnext⟩ := Option.bind_eq_some_iff.mp ho
    obtain ⟨names, s₁, hrounds, hmsize₁⟩ := ih ho₁
    obtain ⟨r, s₂, hround, hmsize₂, hcases, hmore⟩ := readdirRound_data hL (fun _ => false) hmsize₁ o₁ names
    obtain ⟨b, rfl⟩ := hmore rfl o hnext
    rcases hcases with ⟨a, ha⟩ | ⟨o', names', ho', hb⟩
    · cases ha
    · cases hb
      cases hnext.symm.trans ho'
      exact ⟨names', s₂, .next hrounds hround, hmsize₂⟩

end Termination

/-! ## The way through the replies -/

section Offsets

variable {k : UInt32} {f : UInt64 → List UInt8}

/-- After its end there is nothing on the way. -/
theorem offsetAt_of_le {i j : Nat} (hij : i ≤ j) (h : offsetAt k f i = none) : offsetAt k f j = none := by
  induction hij with
  | refl => exact h
  | step _ ih => rw [offsetAt, ih, Option.bind_none]

/-- What comes after an offset depends on the offset only. -/
theorem offsetAt_add {i j : Nat} (h : offsetAt k f i = offsetAt k f j) (n : Nat) :
    offsetAt k f (i + n) = offsetAt k f (j + n) := by
  induction n with
  | zero => exact h
  | succ n ih => exact congrArg (·.bind (pointsTo k f)) ih

/-- A way that ends does not come to one offset twice. -/
theorem offsetAt_inj {n : Nat} (hend : offsetAt k f n = none) {i j : Nat} {o : UInt64} (hi : offsetAt k f i = some o)
    (hj : offsetAt k f j = some o) : i = j := by
  -- from the first time on the way repeats itself, so that it passes `n`
  have hnever : ∀ {i d}, 0 < d → offsetAt k f i = some o → offsetAt k f (i + d) ≠ some o := by
    intro i d hd hi hj
    have hagain : ∀ m, offsetAt k f (i + m * d) = some o := by
      intro m
      induction m with
      | zero => rwa [Nat.zero_mul]
      | succ m ih =>
        rw [Nat.succ_mul, ← Nat.add_assoc, offsetAt_add (ih.trans hi.symm) d]
        exact hj
    have hpast : n ≤ i + n * d := (Nat.le_mul_of_pos_right n hd).trans (Nat.le_add_left _ _)
    exact Option.some_ne_none o ((hagain n).symm.trans (offsetAt_of_le hpast hend))
  rcases Nat.lt_trichotomy i j with h | h | h
  · obtain ⟨d, rfl⟩ := Nat.exists_eq_add_of_le h.le
    exact absurd hj (hnever (by omega) hi)
  · exact h
  · obtain ⟨d, rfl⟩ := Nat.exists_eq_add_of_le h.le
    exact absurd hi (hnever (by omega) hj)

/-- **When no reply points back**, the way ends exactly when no reply points to itself. -/
theorem ends_iff_of_le (hle : ∀ n o o', offsetAt k f n = some o → pointsTo k f o = some o' → o ≤ o') :
    (∃ n, offsetAt k f n = none) ↔ ∀ n o, offsetAt k f n = some o → pointsTo k f o ≠ some o := by
  constructor
  · rintro ⟨m, hend⟩ n o hn hself
    have hnext : offsetAt k f (n + 1) = some o := by rw [offsetAt, hn, Option.bind_some, hself]
    exact absurd (offsetAt_inj hend hn hnext) (Nat.succ_ne_self n).symm
  · intro hmoves
    by_contra hnot
    push Not at hnot
    have hgrows : ∀ n, ∃ o, offsetAt k f n = some o ∧ n ≤ o.toNat := by
      intro n
      induction n with
      | zero => exact ⟨0, rfl, Nat.zero_le _⟩
      | succ n ih =>
        obtain ⟨o, hn, hge⟩ := ih
        obtain ⟨o', hn'⟩ := Option.ne_none_iff_exists'.mp (hnot (n + 1))
        have hpoints : pointsTo k f o = some o' := by rwa [offsetAt, hn, Option.bind_some] at hn'
        have hlt : o < o' := UInt64.lt_of_le_of_ne (hle n o o' hn hpoints) fun heq => hmoves n o hn (heq ▸ hpoints)
        exact ⟨o', hn', hge.trans_lt (UInt64.lt_iff_toNat_lt.mp hlt)⟩
    obtain ⟨o, -, hge⟩ := hgrows 18446744073709551616
    exact absurd o.toNat_lt (not_lt.mpr hge)

/-- **Replies that point forward.** `offsets` are the offsets that count in the data of a reply. -/
theorem ends_iff_of_forward (offsets : List UInt8 → List UInt64)
    (hpoints : ∀ n o, offsetAt k f n = some o →
      (offsetFields (replyData k (f o)).length (replyData k (f o))).getLastD o =
      (offsets (replyData k (f o))).getLastD o)
    (hinc : ∀ n o, offsetAt k f n = some o → ∀ x ∈ offsets (replyData k (f o)), o < x) :
    (∃ n, offsetAt k f n = none) ↔ OfReached k f fun d => d ≠ [] → offsets d ≠ [] := by
  have hlast : ∀ n o, offsetAt k f n = some o → offsets (replyData k (f o)) ≠ [] →
      o < (offsets (replyData k (f o))).getLastD o := by
    intro n o hn hne
    refine hinc n o hn _ ?_
    rw [List.getLastD_eq_getLast?, List.getLast?_eq_getLast_of_ne_nil hne, Option.getD_some]
    exact List.getLast_mem hne
  have hvalue : ∀ n o, offsetAt k f n = some o → replyData k (f o) ≠ [] →
      pointsTo k f o = some ((offsets (replyData k (f o))).getLastD o) := by
    intro n o hn hne
    unfold pointsTo
    rw [if_neg hne, hpoints n o hn]
  have hnone : ∀ o, replyData k (f o) = [] → pointsTo k f o = none := fun o hempty => if_pos hempty
  rw [ends_iff_of_le]
  · constructor
    · intro hmoves n o hn hne hoffsets
      refine hmoves n o hn ((hvalue n o hn hne).trans ?_)
      rw [hoffsets]
      rfl
    · intro hall n o hn hself
      by_cases hne : replyData k (f o) = []
      · rw [hnone o hne] at hself
        cases hself
      · have hlt := hlast n o hn (hall n o hn hne)
        rw [hvalue n o hn hne, Option.some.injEq] at hself
        rw [hself] at hlt
        exact UInt64.lt_irrefl o hlt
  · intro n o o' hn hpoint
    by_cases hne : replyData k (f o) = []
    · rw [hnone o hne] at hpoint
      cases hpoint
    · rw [hvalue n o hn hne, Option.some.injEq] at hpoint
      by_cases hoffsets : offsets (replyData k (f o)) = []
      · rw [hoffsets] at hpoint
        exact hpoint ▸ UInt64.le_refl o
      · exact hpoint ▸ UInt64.le_of_lt (hlast n o hn hoffsets)

/-- There is an offset field when there are 24 bytes. -/
theorem offsetFields_ne_nil (d : List UInt8) : offsetFields d.length d ≠ [] ↔ 24 ≤ d.length := by
  cases d with
  | nil => exact ⟨fun h => absurd rfl h, fun h => absurd h (by decide)⟩
  | cons b d =>
    rw [List.length_cons, offsetFields, List.length_cons]
    split <;> rename_i h
    · exact ⟨fun h' => absurd rfl h', fun h' => absurd h (not_lt.mpr h')⟩
    · exact ⟨fun _ => not_lt.mp h, fun _ => List.cons_ne_nil _ _⟩

/-- The resume offset is that of the last entry, when fewer than 24 bytes follow the complete entries. -/
theorem readdirBlock_whole (block : Block) : ∀ (fuel pos : Nat) (o : UInt64) (names : List Str),
    (block.partsFrom fuel pos).2.length < 24 →
      (readdirBlock (fun _ => false) block fuel pos o names).2.1 = resumeAt o (block.partsFrom fuel pos).1 := by
  intro fuel
  induction fuel with
  | zero => intro pos o names _; rfl
  | succ fuel ih =>
    intro pos o names hrest
    rcases parts_cases block fuel pos with ⟨h, hes, -⟩ | ⟨e, hle, hentry, hes, htail⟩ | ⟨-, -, -, hlong⟩
    · rw [readdirBlock_end h, hes]
      rfl
    · rw [htail] at hrest
      rw [hes, resumeAt_cons]
      unfold readdirBlock
      rw [if_pos ⟨by omega, by omega⟩, hentry]
      exact ih _ _ _ hrest
    · exact absurd hrest hlong

/-- The last offset field is then that of the last complete entry. -/
theorem getLastD_offsetFields {d : List UInt8} (hlen : d.length < 4294967296) (hrest : (dataParts d).2.length < 24)
    (o : UInt64) : (offsetFields d.length d).getLastD o = ((dataParts d).1.map Dirent.offset).getLastD o := by
  have hactual : (UInt32.ofNat d.length).toNat = d.length := by rw [UInt32.toNat_ofNat', Nat.mod_eq_of_lt hlen]
  set block : Block := ⟨zeroes.write 0 d, UInt32.ofNat d.length⟩
  have hread : block.data.read 0 (block.actual.toNat - 0) = d := by
    show (zeroes.write 0 d).read 0 ((UInt32.ofNat d.length).toNat - 0) = d
    rw [hactual, Nat.sub_zero, Mem.read_write_self]
  have hparts : block.partsFrom d.length 0 = dataParts d := congrArg (complete d.length) hread
  have hresume := readdirBlock_resume (fun _ => false) block d.length 0 o [] (never_stops ..)
  rw [readdirBlock_whole _ _ _ _ _ (by rw [hparts]; exact hrest), hparts, hread] at hresume
  rw [← hresume, resumeAt, List.getLastD_eq_getLast?, List.getLast?_map]

theorem length_replyData (k : UInt32) (bs : List UInt8) : (replyData k bs).length < 4294967296 := by
  unfold replyData
  split
  · decide
  · rw [List.length_take]
    have := k.toNat_lt
    omega

end Offsets

/-- **The listing ends, whatever the filler does, exactly when the offset fields in the replies lead from 0 to a reply
without data**; then it asks for no offset twice. If these fields point forward, this is so exactly when every block on
the way that is not empty has the 24 bytes of an entry. If only those of the complete entries do, and fewer than 24
bytes follow them, it is so exactly when each of these blocks holds a complete entry. -/
theorem listing_ends_iff {L : Link W} {fh : UInt32} {f : UInt64 → List UInt8} (hL : Replies L fh f) (s : St W) :
    ((∀ filler, ListingEnds L fh filler s ∧ AsksOnce L fh filler s) ↔ ∃ n, offsetAt (listCount s.h.msize) f n = none) ∧
    ((∀ n o, offsetAt (listCount s.h.msize) f n = some o →
        ∀ x ∈ offsetFields (replyData (listCount s.h.msize) (f o)).length (replyData (listCount s.h.msize) (f o)),
        o < x) →
      ((∃ n, offsetAt (listCount s.h.msize) f n = none) ↔
        OfReached (listCount s.h.msize) f fun d => d ≠ [] → 24 ≤ d.length)) ∧
    ((∀ o, ∀ e ∈ (dataParts (replyData (listCount s.h.msize) (f o))).1, o < e.offset) →
      OfReached (listCount s.h.msize) f (fun d => (dataParts d).2.length < 24) →
      ((∃ n, offsetAt (listCount s.h.msize) f n = none) ↔
        OfReached (listCount s.h.msize) f fun d => d ≠ [] → (dataParts d).1 ≠ [])) := by
  refine ⟨⟨fun hends => ?_, fun ⟨n, hend⟩ filler => ⟨?_, fun hb hc heq => ?_⟩⟩, fun hinc => ?_, fun hinc hwhole => ?_⟩
  · by_contra hnot
    push Not at hnot
    obtain ⟨rounds, hall⟩ := (hends fun _ => false).1
    obtain ⟨r, t, hok⟩ := hall rounds (Nat.le_refl _)
    obtain ⟨o, ho⟩ := Option.ne_none_iff_exists'.mp (hnot rounds)
    obtain ⟨names, s₁, hrounds, -⟩ := exists_rounds hL rfl ho
    have hloop : v9pReaddir L rounds (fun _ => false) fh s = .error .hang s₁ := hrounds.loop_eq 0
    rw [hloop] at hok
    cases hok
  · have hbound : ∀ {j b s₁}, Rounds (readdirRound L filler fh (s.h.msize - 11)) j (0, []) s b s₁ → j ≤ n := by
      intro j b s₁ h
      by_contra hgt
      have hnone := offsetAt_of_le (not_le.mp hgt).le hend
      rw [(offsetAt_of_rounds hL rfl rfl h).1] at hnone
      cases hnone
    refine ⟨n + 1, fun fuel hfuel => ?_⟩
    obtain ⟨j, b, s₁, h, hlast⟩ := exists_last_of_bounded hbound
    obtain ⟨-, hmsize⟩ := offsetAt_of_rounds hL rfl rfl h
    obtain ⟨r, s₂, hround, -, hcases, -⟩ := readdirRound_data hL filler hmsize b.1 b.2
    rcases hcases with ⟨a, rfl⟩ | ⟨d, names', -, rfl⟩
    · have hj := hbound h
      exact ⟨a, s₂, h.loop_done hround (by omega)⟩
    · exact absurd hround (hlast _ s₂)
  · refine offsetAt_inj hend (offsetAt_of_rounds hL rfl rfl hb).1 ?_
    rw [heq]
    exact (offsetAt_of_rounds hL rfl rfl hc).1
  · rw [ends_iff_of_forward (fun d => offsetFields d.length d) (fun _ _ _ => rfl) hinc]
    simp only [offsetFields_ne_nil]
  · rw [ends_iff_of_forward (fun d => (dataParts d).1.map Dirent.offset)
      fun n o hn => getLastD_offsetFields (length_replyData ..) (hwhole n o hn) o]
    · simp only [ne_eq, List.map_eq_nil_iff]
    · intro n o _ x hx
      obtain ⟨e, he, rfl⟩ := List.mem_map.mp hx
      exact hinc o e he

/-- A server that answers a `Treaddir` from `o` with the data `data o`. -/
def listServer (data : UInt64 → List UInt8) : Link Unit where
  poll p := pure (match decode p.tx with
    | some (tag, .readdir _ o _) => (RMsg.readdir (data o)).polled tag p.rxBuf
    | _ => .refused)
  drain p := pure (0, p.rxBuf)
  cleanupVirtio w := w
  initVirtio := pure false
  allocVec := fun _ => pure false

/-- A reply whose tag is overwritten. -/
theorem read_retag (m : RMsg) (tag : UInt16) (rx : Mem) :
    ((rx.write 0 (m.frame tag)).write 5 [0, 0]).read 0 (7 + m.body.length) = m.frame 0 := by
  have hread := Mem.read_write_self rx 0 (m.frame tag)
  generalize hwritten : rx.write 0 (m.frame tag) = mem at hread ⊢
  rw [RMsg.length_frame, show 7 + m.body.length = 5 + (2 + m.body.length) by omega, Mem.read_add, Mem.read_add]
    at hread
  rw [show 7 + m.body.length = 5 + (2 + m.body.length) by omega, Mem.read_add, Mem.read_add]
  unfold RMsg.frame frame at hread ⊢
  rw [← List.append_assoc (leBytes 4 _)] at hread ⊢
  obtain ⟨hhead, htail⟩ := List.append_inj hread (by simp)
  obtain ⟨-, hbody⟩ := List.append_inj htail (by simp)
  have hself : (mem.write 5 [0, 0]).read (0 + 5) 2 = leBytes 2 (0 : UInt16).toNat := Mem.read_write_self mem 5 [0, 0]
  have hbelow : (mem.write 5 [0, 0]).read 0 5 = mem.read 0 5 := Mem.read_write_of_disjoint mem (.inl (by decide))
  have habove : (mem.write 5 [0, 0]).read (0 + 5 + 2) m.body.length = mem.read (0 + 5 + 2) m.body.length :=
    Mem.read_write_of_disjoint mem (.inr (by simp))
  rw [hself, hbelow, habove, hhead, hbody]

theorem listServer_replies {data : UInt64 → List UInt8} (hdata : ∀ o, (data o).length < 4294967285) (fh : UInt32) :
    Replies (listServer data) fh fun o => (RMsg.readdir (data o)).frame 0 := by
  intro p w tag o k hdecode
  have hlen : (UInt32.ofNat (7 + (RMsg.readdir (data o)).body.length)).toNat =
      7 + (RMsg.readdir (data o)).body.length := by
    have := hdata o
    rw [UInt32.toNat_ofNat', Nat.mod_eq_of_lt]
    simp [RMsg.body]
    omega
  refine ⟨UInt32.ofNat (7 + (RMsg.readdir (data o)).body.length), p.rxBuf.write 0 ((RMsg.readdir (data o)).frame tag),
    w, 0, 0, ?_, ?_, ?_⟩
  · simp only [listServer, hdecode]
    rfl
  · rw [hlen, RMsg.length_frame]
  · rw [hlen]
    exact read_retag _ tag p.rxBuf

/-- The data of a directory with one entry, and of a second one the beginning. -/
def oneEntry (o : UInt64) : List UInt8 :=
  if o = 0 then (⟨⟨0, 0, 1⟩, 5, 4, [97]⟩ : Dirent).bytes ++ [0, 2, 0] else []

/-- The offsets lead from 0 to 5, where there is nothing: the directory is listed to its end. -/
theorem listing_ends_one :
    offsetAt (listCount p9MSize) (fun o => (RMsg.readdir (oneEntry o)).frame 0) 1 = some 5 ∧
      ∀ filler, ListingEnds (listServer oneEntry) 1 filler emptyState ∧
      AsksOnce (listServer oneEntry) 1 filler emptyState := by
  have hreplies : Replies (listServer oneEntry) 1 fun o => (RMsg.readdir (oneEntry o)).frame 0 :=
    listServer_replies (fun o => by unfold oneEntry; split <;> simp) 1
  exact ⟨by decide, (listing_ends_iff hreplies emptyState).1.mpr ⟨2, by decide⟩⟩

/-- One byte of data: the directory is asked for from its start, for ever. -/
theorem short_block_hangs : Replies (listServer fun _ => [0]) 1 (fun _ => (RMsg.readdir [0]).frame 0) ∧
    replyData (listCount p9MSize) ((RMsg.readdir [0]).frame 0) = [0] ∧ dataParts [0] = ([], [0]) ∧
    ∀ fuel, ∃ s', v9pReaddir (listServer fun _ => [0]) fuel (fun _ => false) 1 emptyState = .error .hang s' := by
  have hreplies : Replies (listServer fun _ => [0]) 1 fun _ => (RMsg.readdir [0]).frame 0 :=
    listServer_replies (fun _ => by decide) 1
  have hself : ∀ n, offsetAt (listCount p9MSize) (fun _ => (RMsg.readdir [0]).frame 0) n = some 0 := by
    intro n
    induction n with
    | zero => rfl
    | succ n ih =>
      rw [offsetAt, ih, Option.bind_some]
      decide
  refine ⟨hreplies, by decide, rfl, fun fuel => ?_⟩
  obtain ⟨names, s', hrounds, -⟩ := exists_rounds hreplies (s := emptyState) rfl (hself fuel)
  exact ⟨s', hrounds.loop_eq 0⟩

end Virtio9P
