import Virtio9P.Chains
import Virtio9P.Lib.History

/-!
# Whose reply it is

All chains have one receive buffer. A completion says how long a reply is, but not whose: `V9P_Transact` looks at the
tag and the size in `rx_buf`, which the device may have overwritten since. What is in the buffer at a look is what was
there at first, under the answers that the device has written since, one over the other (`Polling`). If each of them is
a reply to its own request, the buffer holds what it held at first or one whole reply (`Polling.heard`).

* `transact_owns`: chains may have been left from before. If their tags and the tag in the buffer differ from the one
that is sent, the reply that is accepted is the reply to the message that was sent; and tags are not used again soon.
* `reply_owned`: the device answers to what it reads, and the messages of all requests are in one buffer. It is so for
  requests that it has read before the buffer is written again.
* `replies_owned`: so it is in every run in which no chain survives, whatever the tags are.
-/

namespace Virtio9P

open Lib

/-! ## Conforming devices -/

/-- The tag of a message. -/
def frameTag (bs : List UInt8) : UInt16 := UInt16.ofNat (leNat ((bs.drop 5).take 2))

/-- The size field of a message. -/
def frameSize (bs : List UInt8) : UInt32 := UInt32.ofNat (leNat (bs.take 4))

/-- `bs`, reported with the length `len`, is a reply to `tx`. -/
structure IsReply (tx bs : List UInt8) (len : UInt32) : Prop where
  header : 7 ≤ bs.length
  length : len.toNat = bs.length
  size : frameSize bs = len
  tag : frameTag bs = frameTag tx

/-- The answer is a reply to the message of its request, or the request was cancelled, with length 0. -/
def Answer.Faithful (sent : List (List UInt8)) (a : Answer) : Prop :=
  (a.bytes = [] ∧ a.length = 0) ∨ ∃ tx, sent[a.request]? = some tx ∧ IsReply tx a.bytes a.length

/-- The device completes a chain with a reply to the message that it has read, or cancels it. -/
def Act.Conforms : Act → Prop
  | .take | .fetch _ => True
  | .complete _ answer => ∀ tx, answer tx = ([], 0) ∨ IsReply tx (answer tx).1 (answer tx).2

def World.Conforms (world : World) : Prop := ∀ t, ∀ a ∈ world.acts t, a.Conforms

section Fields

variable {rx : Mem} {bs : List UInt8}

/-- The fields of a message in the buffer. -/
theorem getU16_of_read (hrx : rx.read 0 bs.length = bs) (hlen : 7 ≤ bs.length) : (p9GetU16 rx 5).1 = frameTag bs := by
  rw [getU16_eq, frameTag, ← hrx, Mem.drop_read _ _ (by omega), Mem.take_read _ _ (by omega)]

theorem getU32_of_read (hrx : rx.read 0 bs.length = bs) (hlen : 7 ≤ bs.length) : (p9GetU32 rx 0).1 = frameSize bs := by
  rw [getU32_eq, frameSize]
  conv_rhs => rw [← hrx, Mem.take_read _ _ (by omega)]

end Fields

/-! ## What an act of the device does -/

/-- What comes of an act: nothing, or its effect on a chain that the device has taken. -/
inductive Line.Acted (q : Line) (texts : Cookie → Mem) (rx : Mem) : Act → Line → Mem → Prop
  | idle (a : Act) : q.Acted texts rx a q rx
  | take : q.Acted texts rx .take { q with traffic := q.traffic.take } rx
  | fetch {k : Nat} {f : Taken} : q.traffic.inFlight[k]? = some f →
      q.Acted texts rx (.fetch k) { q with fetched := (f.request, q.message texts f.request) :: q.fetched } rx
  | complete {k : Nat} {answer : List UInt8 → List UInt8 × UInt32} {f : Taken} {bs : List UInt8} {len : UInt32} :
      q.traffic.inFlight[k]? = some f → answer (q.message texts f.request) = (bs, len) →
      q.Acted texts rx (.complete k answer)
        { q with traffic := q.traffic.complete k len, written := q.written ++ [⟨f.request, bs, len⟩] } (rx.write 0 bs)

theorem Line.acted (q : Line) (texts : Cookie → Mem) (rx : Mem) (a : Act) :
    q.Acted texts rx a (q.act texts rx a).1 (q.act texts rx a).2 := by
  cases a with
  | take => exact .take
  | fetch k =>
    simp only [Line.act]
    cases hk : q.traffic.inFlight[k]? with
    | none => exact .idle _
    | some f => exact .fetch hk
  | complete k answer =>
    simp only [Line.act]
    cases hk : q.traffic.inFlight[k]? with
    | none => exact .idle _
    | some f => exact .complete hk rfl

theorem take_histories (t : Traffic Cookie) :
    t.take.posted = t.posted ∧ t.take.completed = t.completed ∧ t.take.returned = t.returned := by
  unfold Traffic.take
  split
  · exact ⟨rfl, rfl, rfl⟩
  · exact ⟨rfl, rfl, rfl⟩

theorem complete_histories {t : Traffic Cookie} {k : Nat} {f : Taken} (hk : t.inFlight[k]? = some f) (len : UInt32) :
    (t.complete k len).posted = t.posted ∧ (t.complete k len).completed = t.completed ++ [(f, len)] ∧
      (t.complete k len).returned = t.returned := by
  simp only [Traffic.complete, hk]
  exact ⟨trivial, trivial, trivial⟩

theorem collect_histories {t t' : Traffic Cookie} {got : Option (Cookie × UInt32)} (h : t.collect = .ok (got, t')) :
    t'.posted = t.posted ∧ t'.completed = t.completed := by
  unfold Traffic.collect at h
  cases hget : virtQueueGetBuf t.vq with
  | error f =>
    rw [hget] at h
    cases h
  | ok r =>
    simp only [hget, bind, Except.bind] at h
    split at h
    · cases h
      exact ⟨rfl, rfl⟩
    · cases h
      exact ⟨rfl, rfl⟩

/-- The message of a request depends on the queue only through these. -/
theorem message_congr (q q' : Line) (hposted : q'.traffic.posted = q.traffic.posted) (hsent : q'.sent = q.sent)
    (hfetched : q'.fetched = q.fetched) (texts : Cookie → Mem) (r : Nat) : q'.message texts r = q.message texts r := by
  unfold Line.message Line.buffered
  rw [hposted, hsent, hfetched]

/-- A message that was read is read. -/
theorem message_fetched (q : Line) (texts : Cookie → Mem) (k r : Nat) :
    Line.message { q with fetched := (k, q.message texts k) :: q.fetched } texts r = q.message texts r := by
  unfold Line.message
  simp only [List.lookup_cons]
  split
  · rename_i heq
    rw [eq_of_beq heq]
    rfl
  · rfl

/-! ## Histories that agree -/

/-- Every message that was posted is on record, and so is every answer. -/
structure Line.Aligned (q : Line) : Prop where
  sent : q.sent.length = q.traffic.posted.length
  fetched : ∀ f ∈ q.fetched, f.1 < q.traffic.posted.length
  written : q.written.map (fun a => (a.request, a.length)) = q.traffic.completed.map fun c => (c.1.request, c.2)

section Aligned

variable {q : Line} {texts : Cookie → Mem}

theorem Line.Aligned.act {out : List (Nat × Chain Cookie)} (h : q.Aligned) (htracks : Tracks q.traffic out)
    (rx : Mem) (a : Act) : (q.act texts rx a).1.Aligned := by
  have hacted := q.acted texts rx a
  generalize (q.act texts rx a).1 = q' at hacted
  generalize (q.act texts rx a).2 = rx' at hacted
  cases hacted with
  | idle => exact h
  | take =>
    obtain ⟨hposted, hcompleted, -⟩ := take_histories q.traffic
    exact ⟨h.sent.trans (congrArg _ hposted.symm), hposted ▸ h.fetched, hcompleted ▸ h.written⟩
  | fetch hk =>
    refine ⟨h.sent, fun f' hf' => ?_, h.written⟩
    rcases List.mem_cons.mp hf' with rfl | hf'
    · exact (htracks.flying _ (List.mem_of_getElem? hk)).lt
    · exact h.fetched f' hf'
  | complete hk hans =>
    obtain ⟨hposted, hcompleted, -⟩ := complete_histories hk _
    refine ⟨h.sent.trans (congrArg _ hposted.symm), hposted ▸ h.fetched, ?_⟩
    rw [hcompleted, List.map_append, List.map_append, h.written]
    rfl

theorem Line.Aligned.acts {out : List (Nat × Chain Cookie)} : ∀ {as : List Act} {q : Line} {rx : Mem}, q.Aligned →
    Tracks q.traffic out → (q.acts texts rx as).1.Aligned
  | [], _, _, h, _ => h
  | a :: _, _, rx, h, htracks => (h.act htracks rx a).acts (act_tracks htracks texts rx a)

theorem Line.Aligned.collect (h : q.Aligned) {got : Option (Cookie × UInt32)} {t : Traffic Cookie}
    (hcollect : q.traffic.collect = .ok (got, t)) : Line.Aligned { q with traffic := t } := by
  obtain ⟨hposted, hcompleted⟩ := collect_histories hcollect
  exact ⟨h.sent.trans (congrArg _ hposted.symm), hposted ▸ h.fetched, hcompleted ▸ h.written⟩

theorem Line.Aligned.post (h : q.Aligned) {p : Post} {posting : Posting Cookie} {t : Traffic Cookie}
    (hposted : t.posted = q.traffic.posted ++ [posting]) (hcompleted : t.completed = q.traffic.completed) :
    Line.Aligned { q with traffic := t, sent := q.sent ++ [p.tx] } := by
  refine ⟨?_, fun f hf => ?_, hcompleted ▸ h.written⟩
  · show (q.sent ++ [p.tx]).length = t.posted.length
    rw [hposted, List.length_append, List.length_append, h.sent]
    rfl
  · show f.1 < t.posted.length
    rw [hposted, List.length_append]
    exact Nat.lt_add_right _ (h.fetched f hf)

end Aligned

/-! ## The buffer during a poll -/

/-- What is in the buffer after these answers. -/
def overlaid (rx : Mem) (answers : List Answer) : Mem := answers.foldl (fun rx a => rx.write 0 a.bytes) rx

/-- The device may answer a message with this. -/
def World.Gives (world : World) (answer : List UInt8 → List UInt8 × UInt32) : Prop :=
  ∃ t k, Act.complete k answer ∈ world.acts t

/-- Where a poll stands that began with the queue `start` and `rx₀` in the buffer; the requests `live` are outstanding
at most. -/
structure Polling (world : World) (texts : Cookie → Mem) (live : List Nat) (start : Line) (rx₀ : Mem) (q : Line)
    (rx : Mem) : Prop where
  sent : q.sent = start.sent
  aligned : q.Aligned
  tracks : ∃ out, Tracks q.traffic out ∧ ∀ e ∈ out, e.1 ∈ live
  message : ∀ r, q.message texts r = start.message texts r
  later : start.traffic.returned.length ≤ q.traffic.returned.length
  answers : ∃ new, q.written = start.written ++ new ∧ rx = overlaid rx₀ new ∧
    ∀ a ∈ new, a.request ∈ live ∧ ∃ answer, world.Gives answer ∧
      answer (start.message texts a.request) = (a.bytes, a.length)

/-- The length was reported since the poll began. -/
def Reported (start q : Line) (len : UInt32) : Prop :=
  ∃ i c, start.traffic.returned.length ≤ i ∧ q.traffic.completed[i]? = some c ∧ c.2 = len

section Acts

variable {world : World} {texts : Cookie → Mem} {live : List Nat} {start : Line} {rx₀ rx : Mem} {q : Line}

/-- The device takes a chain, reads a message, or completes a chain. -/
theorem Polling.act (h : Polling world texts live start rx₀ q rx) {a : Act} (ha : ∃ t, a ∈ world.acts t) :
    Polling world texts live start rx₀ (q.act texts rx a).1 (q.act texts rx a).2 := by
  obtain ⟨out, htracks, hlive⟩ := h.tracks
  have htracks' := act_tracks htracks texts rx a
  have haligned : (q.act texts rx a).1.Aligned := h.aligned.act htracks rx a
  have hacted := q.acted texts rx a
  generalize (q.act texts rx a).1 = q' at htracks' haligned hacted ⊢
  generalize (q.act texts rx a).2 = rx' at hacted ⊢
  cases hacted with
  | idle => exact h
  | take =>
    obtain ⟨hposted, -, hreturned⟩ := take_histories q.traffic
    refine ⟨h.sent, haligned, ⟨out, htracks', hlive⟩, fun r => ?_, hreturned ▸ h.later, h.answers⟩
    exact (message_congr q { q with traffic := q.traffic.take } hposted rfl rfl texts r).trans (h.message r)
  | fetch hk =>
    exact ⟨h.sent, haligned, ⟨out, htracks', hlive⟩, fun r => (message_fetched q texts _ r).trans (h.message r),
      h.later, h.answers⟩
  | @complete k answer f bs len hk hans =>
    obtain ⟨hposted, -, hreturned⟩ := complete_histories hk len
    obtain ⟨new, hwritten, hrx, hnew⟩ := h.answers
    have hin : f.request ∈ live := by
      have hout : f.request ∈ out.map Prod.fst := by
        refine htracks.live.mem_iff.mpr (List.mem_append_left _ (List.mem_append_right _ ?_))
        exact List.mem_map_of_mem (List.mem_of_getElem? hk)
      obtain ⟨e, he, heq⟩ := List.mem_map.mp hout
      exact heq ▸ hlive e he
    refine ⟨h.sent, haligned, ⟨out, htracks', hlive⟩, fun r => ?_, hreturned ▸ h.later, new ++ [⟨f.request, bs, len⟩],
      ?_, ?_, fun a ha' => ?_⟩
    · exact (message_congr q { q with traffic := q.traffic.complete k len } hposted rfl rfl texts r).trans (h.message r)
    · show q.written ++ _ = _
      rw [hwritten, List.append_assoc]
    · rw [hrx, overlaid, overlaid, List.foldl_append]
      rfl
    · rcases List.mem_append.mp ha' with ha' | ha'
      · exact hnew a ha'
      · obtain rfl := List.mem_singleton.mp ha'
        obtain ⟨t, hmem⟩ := ha
        exact ⟨hin, answer, ⟨t, k, hmem⟩, h.message f.request ▸ hans⟩

theorem Polling.acts : ∀ {as : List Act} {q : Line} {rx : Mem}, Polling world texts live start rx₀ q rx →
    (∀ a ∈ as, ∃ t, a ∈ world.acts t) → Polling world texts live start rx₀ (q.acts texts rx as).1 (q.acts texts rx as).2
  | [], _, _, h, _ => h
  | a :: _, _, _, h, has =>
    (h.act (has a List.mem_cons_self)).acts fun a' ha' => has a' (List.mem_cons_of_mem _ ha')

/-- The driver collects a completion: the length is that of the next chain that was completed. -/
theorem Polling.collect (h : Polling world texts live start rx₀ q rx) :
    ∃ got t, q.traffic.collect = .ok (got, t) ∧ Polling world texts live start rx₀ { q with traffic := t } rx ∧
      ∀ cookie len, got = some (cookie, len) → Reported start { q with traffic := t } len := by
  obtain ⟨out, htracks, hlive⟩ := h.tracks
  rcases htracks.getBuf with ⟨-, hnone⟩ | ⟨cookie, len, vq, out', hres, hnext, -⟩
  · refine ⟨none, q.traffic, by simp only [Traffic.collect, hnone, bind, Except.bind], h, fun _ _ hgot => ?_⟩
    cases hgot
  · have hout' : ∀ e ∈ out', e.1 ∈ live := by
      intro e he
      have hmem := hnext.live.mem_iff.mp (List.mem_map_of_mem he)
      have hbefore : e.1 ∈ out.map Prod.fst := by
        refine htracks.live.mem_iff.mpr ?_
        simp only [List.length_append, List.length_singleton, List.mem_append] at hmem ⊢
        refine hmem.imp_left fun hin => hin.imp_left fun hdrop => ?_
        obtain ⟨c, hc, heq⟩ := List.mem_map.mp hdrop
        exact List.mem_map.mpr ⟨c, (List.drop_sublist_drop_left _ (Nat.le_succ _)).mem hc, heq⟩
      obtain ⟨e', he', heq⟩ := List.mem_map.mp hbefore
      exact heq ▸ hlive e' he'
    have hgot := hnext.returned
    rw [List.map_append] at hgot
    have hnth : (q.traffic.completed.map (Traffic.result q.traffic.posted))[q.traffic.returned.length]? =
        some (some (cookie, len)) := by
      obtain ⟨rest, hrest⟩ := hgot
      rw [← hrest, List.append_assoc, List.getElem?_append_right (by simp)]
      simp
    rw [List.getElem?_map, Option.map_eq_some_iff] at hnth
    obtain ⟨c, hc, hresult⟩ := hnth
    have hcollect : q.traffic.collect =
        .ok (some (cookie, len), { q.traffic with vq := vq, returned := q.traffic.returned ++ [(cookie, len)] }) := by
      simp only [Traffic.collect, hres, bind, Except.bind]
    refine ⟨_, _, hcollect, ⟨h.sent, h.aligned.collect hcollect, ⟨out', hnext, hout'⟩, h.message, ?_, h.answers⟩,
      fun _ _ heq => ⟨_, c, h.later, hc, ?_⟩⟩
    · refine h.later.trans ?_
      rw [List.length_append]
      exact Nat.le_add_right _ _
    · cases heq
      unfold Traffic.result at hresult
      simp only [Option.bind_eq_bind, Option.bind_eq_some_iff, Option.some.injEq, Prod.mk.injEq] at hresult
      obtain ⟨_, _, _, _, _, hlen⟩ := hresult
      exact hlen

end Acts

section Loops

variable {world : World} {texts : Cookie → Mem} {live : List Nat} {start : Line} {rx₀ : Mem}

/-- A machine whose poll stands so. -/
def Machine.Polls (world : World) (texts : Cookie → Mem) (live : List Nat) (start : Line) (rx₀ rx : Mem) (m : Machine) :
    Prop := m.texts = texts ∧ ∃ q, m.vq = some q ∧ Polling world texts live start rx₀ q rx

/-- A look at the used ring. -/
theorem look_polling (rx : Mem) :
    Triple (Machine.Polls world texts live start rx₀ rx) (look world rx)
      (fun r m => m.Polls world texts live start rx₀ r.2 ∧ ∀ len, r.1 = some len → ∀ q, m.vq = some q →
      Reported start q len) fun _ _ => True := by
  refine theQueue_bind (fun _ _ _ => trivial) fun q => ?_
  rintro m ⟨hq, rfl, q₀, hq₀, hpolling⟩
  obtain rfl : q = q₀ := Option.some.inj (hq.symm.trans hq₀)
  rw [get_bind]
  generalize hacted : (if m.Live then q.acts m.texts rx (world.acts m.now) else (q, rx)) = acted
  have hafter : Polling world m.texts live start rx₀ acted.1 acted.2 := by
    rw [← hacted]
    split
    · exact hpolling.acts fun a ha => ⟨m.now, ha⟩
    · exact hpolling
  dsimp only
  obtain ⟨got, t, hcollect, hnext, hgot⟩ := hafter.collect
  rw [hcollect]
  refine ⟨⟨rfl, _, rfl, hnext⟩, fun len hlen q' hq' => ?_⟩
  obtain ⟨⟨cookie, len'⟩, hsome, rfl⟩ := Option.map_eq_some_iff.mp hlen
  cases hq'
  exact hgot cookie len' hsome

/-- A reply that a poll returns with. -/
def Polled.Explained (world : World) (texts : Cookie → Mem) (live : List Nat) (start : Line) (p : Post) (r : Polled)
    (m : Machine) : Prop :=
  ∀ n rx, r = .reply n rx → accepts p rx n ∧
    ∃ q, m.vq = some q ∧ Polling world texts live start p.rxBuf q rx ∧ Reported start q n

theorem pollLoop_polling (p : Post) (polls : Nat) : ∀ rx,
    Triple (Machine.Polls world texts live start p.rxBuf rx) (pollLoop world p polls rx)
      (Polled.Explained world texts live start p) fun _ _ => True := by
  induction polls with
  | zero => exact fun rx => Triple.pure fun m hm n rx' hr => by cases hr
  | succ polls ih =>
    refine fun rx => (look_polling rx).bind fun r => ?_
    obtain ⟨_ | written, rx'⟩ := r
    · exact (ih rx').pre fun m hm => hm.1
    · refine Triple.ite (fun haccepts => Triple.pure fun m hm n rx'' hr => ?_) fun _ => (ih rx').pre fun m hm => hm.1
      cases hr
      obtain ⟨⟨-, q, hq, hpolling⟩, hreported⟩ := hm
      exact ⟨haccepts, q, hq, hpolling, hreported _ rfl q hq⟩

/-- The queue `start` is `q` with the message posted. -/
structure Line.Posted (q start : Line) (p : Post) : Prop where
  sent : start.sent = q.sent ++ [p.tx]
  fetched : start.fetched = q.fetched
  written : start.written = q.written
  completed : start.traffic.completed = q.traffic.completed
  returned : start.traffic.returned = q.traffic.returned
  posted : ∃ head bufs, start.traffic.posted = q.traffic.posted ++ [⟨head, bufs, some .tx⟩]

/-- The device finds the new message in the buffer, and has read no other in its place. -/
theorem Line.Posted.message {q start : Line} {p : Post} (h : q.Posted start p) (haligned : q.Aligned) (m : Machine) :
    start.message (m.stored .tx p.tx).texts q.sent.length = p.tx := by
  have hnone : q.fetched.lookup q.sent.length = none := by
    rw [List.lookup_eq_none_iff]
    intro f hf
    have hlt := haligned.fetched f hf
    rw [← haligned.sent] at hlt
    exact bne_iff_ne.mpr (Nat.ne_of_gt hlt)
  obtain ⟨head, bufs, hposted⟩ := h.posted
  have hlast : start.traffic.posted[q.sent.length]? = some ⟨head, bufs, some .tx⟩ := by
    rw [hposted, haligned.sent, List.getElem?_append_right le_rfl, Nat.sub_self]
    rfl
  unfold Line.message Line.buffered
  rw [h.fetched, hnone, Option.getD_none, hlast, h.sent, List.getD_append_right _ _ _ _ le_rfl, Nat.sub_self]
  show Mem.read (Function.update m.texts .tx ((m.texts .tx).write 0 p.tx) .tx) 0 p.tx.length = p.tx
  rw [Function.update_self, Mem.read_write_self]

/-- The messages of the other requests are as they were read. -/
theorem Line.Posted.message_other {q start : Line} {p : Post} (h : q.Posted start p) {texts : Cookie → Mem} {r : Nat}
    {tx : List UInt8} (hread : q.fetched.lookup r = some tx) : start.message texts r = tx := by
  unfold Line.message
  rw [h.fetched, hread, Option.getD_some]

/-- Post and poll: the requests that may be answered meanwhile are those that were outstanding, and the new one. -/
theorem busPoll_explained (world : World) (p : Post) {m₀ : Machine} {q : Line} {out : List (Nat × Chain Cookie)}
    (hq : m₀.vq = some q) (htracks : Tracks q.traffic out) (haligned : q.Aligned) :
    Triple (· = m₀) (busPoll world p)
      (fun r m => ∀ n rx, r = .reply n rx → ∃ start, q.Posted start p ∧
        Polled.Explained world (m₀.stored .tx p.tx).texts (out.map Prod.fst ++ [q.sent.length]) start p r m)
      fun _ _ => True := by
  rintro m rfl
  rcases htracks.post (fun n => if n = 0 then ⟨world.phys Cookie.tx.block, UInt32.ofNat p.tx.length⟩ else
    ⟨world.phys .rx, p.msize⟩) (by decide : (1 : UInt32) + 1 ≠ 0) (Option.some_ne_none Cookie.tx) with
    hpost | ⟨t, c, hpost, ht, hposted, -⟩
  · unfold busPoll
    rw [run_bind_ok (postMessage_refused hq hpost)]
    exact fun n rx hr => by cases hr
  · obtain ⟨hcompleted, hreturned⟩ := post_histories hpost
    unfold busPoll
    rw [run_bind_ok (postMessage_posted hq hpost)]
    set start : Line := { q with traffic := t, sent := q.sent ++ [p.tx] }
    have hpolling : Polling world (m.stored .tx p.tx).texts (out.map Prod.fst ++ [q.sent.length]) start p.rxBuf start
        p.rxBuf := by
      refine ⟨rfl, haligned.post hposted hcompleted, ⟨_, ht, fun e he => ?_⟩, fun _ => rfl, le_rfl, [],
        (List.append_nil _).symm, rfl, fun a ha => absurd ha List.not_mem_nil⟩
      rcases List.mem_append.mp he with he | he
      · exact List.mem_append_left _ (List.mem_map_of_mem he)
      · rw [List.mem_singleton.mp he, haligned.sent]
        exact List.mem_append_right _ List.mem_cons_self
    have hstart : q.Posted start p := ⟨rfl, rfl, rfl, hcompleted, hreturned, _, _, hposted⟩
    exact (pollLoop_polling p _ p.rxBuf).post (fun r m hr _ _ _ => ⟨start, hstart, hr⟩) _ ⟨rfl, start, rfl, hpolling⟩

end Loops

/-! ## The reply that is accepted -/

/-- The buffer holds a reply to one of the requests `live`. -/
def Heard (live : List Nat) (q : Line) (rx : Mem) : Prop :=
  ∃ a ∈ q.written, a.request ∈ live ∧ (∃ tx, q.sent[a.request]? = some tx ∧ IsReply tx a.bytes a.length) ∧
    rx.read 0 a.bytes.length = a.bytes

/-- `tx` is the last message that was posted, and the first `n` bytes of `rx` are what the device wrote for it. -/
def Owns (tx : List UInt8) (n : UInt32) (rx : Mem) (m : Machine) : Prop :=
  ∃ q earlier, m.vq = some q ∧ q.sent = earlier ++ [tx] ∧ ⟨earlier.length, rx.read 0 n.toNat, n⟩ ∈ q.written

section Accepted

variable {world : World}

/-- Of faithful answers the last one that is a reply is in the buffer, whole. -/
theorem overlaid_cases {sent : List (List UInt8)} (rx : Mem) {answers : List Answer}
    (h : ∀ a ∈ answers, a.Faithful sent) :
    (overlaid rx answers = rx ∧ ∀ a ∈ answers, a.length = 0) ∨
      ∃ a ∈ answers, (∃ tx, sent[a.request]? = some tx ∧ IsReply tx a.bytes a.length) ∧
        (overlaid rx answers).read 0 a.bytes.length = a.bytes := by
  induction answers using List.reverseRecOn with
  | nil => exact .inl ⟨rfl, fun a ha => absurd ha List.not_mem_nil⟩
  | append_singleton answers a ih =>
    have hover : overlaid rx (answers ++ [a]) = (overlaid rx answers).write 0 a.bytes := by
      rw [overlaid, overlaid, List.foldl_append]
      rfl
    rcases h a (List.mem_append_right _ List.mem_cons_self) with ⟨hbytes, hlen⟩ | hreply
    · rw [hover, hbytes, Mem.write_nil]
      refine (ih fun b hb => h b (List.mem_append_left _ hb)).imp (fun ⟨hrx, hzero⟩ => ⟨hrx, fun b hb => ?_⟩)
        fun ⟨b, hb, hreply⟩ => ⟨b, List.mem_append_left _ hb, hreply⟩
      rcases List.mem_append.mp hb with hb | hb
      · exact hzero b hb
      · exact List.mem_singleton.mp hb ▸ hlen
    · refine .inr ⟨a, List.mem_append_right _ List.mem_cons_self, hreply, ?_⟩
      rw [hover, Mem.read_write_self]

/-- With a device that answers its requests, the buffer is as at first or holds one whole reply. -/
theorem Polling.heard {texts : Cookie → Mem} {live : List Nat} {start q : Line} {rx₀ rx : Mem}
    (h : Polling world texts live start rx₀ q rx)
    (hfaithful : ∀ a ∈ q.written.drop start.written.length, a.Faithful q.sent) :
    (rx = rx₀ ∧ ∀ a ∈ q.written.drop start.written.length, a.length = 0) ∨ Heard live q rx := by
  obtain ⟨new, hwritten, rfl, hnew⟩ := h.answers
  have hdrop : q.written.drop start.written.length = new := by rw [hwritten, List.drop_left]
  rw [hdrop] at hfaithful ⊢
  refine (overlaid_cases rx₀ hfaithful).imp_right fun ⟨a, ha, hreply, hread⟩ => ⟨a, ?_, (hnew a ha).1, hreply, hread⟩
  rw [hwritten]
  exact List.mem_append_right _ ha

/-- What was reported since the poll began, with nothing outstanding before, was written since. -/
theorem Polling.reported {texts : Cookie → Mem} {live : List Nat} {start q : Line} {rx₀ rx : Mem} {n : UInt32}
    (h : Polling world texts live start rx₀ q rx) (hreported : Reported start q n)
    (hall : start.written.length ≤ start.traffic.returned.length) :
    ∃ a ∈ q.written.drop start.written.length, a.length = n := by
  obtain ⟨i, c, hi, hc, rfl⟩ := hreported
  have hat := congrArg (·[i]?) h.aligned.written
  simp only [List.getElem?_map, hc, Option.map_some, Option.map_eq_some_iff, Prod.mk.injEq] at hat
  obtain ⟨a, ha, -, hlen⟩ := hat
  refine ⟨a, List.mem_iff_getElem?.mpr ⟨i - start.written.length, ?_⟩, hlen⟩
  rw [List.getElem?_drop, Nat.add_sub_of_le (hall.trans hi)]
  exact ha

/-- The length that was accepted is that of the reply. -/
theorem Heard.owns {live : List Nat} {q : Line} {rx : Mem} {m : Machine} {p : Post} {n : UInt32}
    {earlier : List (List UInt8)} (hq : m.vq = some q) (hheard : Heard live q rx) (haccepts : accepts p rx n)
    (hsent : q.sent = earlier ++ [p.tx])
    (hown : ∀ r ∈ live, ∀ tx, q.sent[r]? = some tx → frameTag tx = p.expectedTag → r = earlier.length) :
    Owns p.tx n rx m := by
  obtain ⟨⟨r, bs, len⟩, hwritten, hr, ⟨tx, htx, hreply⟩, hrx⟩ := hheard
  obtain ⟨-, -, htag, hsize⟩ := haccepts
  rw [getU16_of_read hrx hreply.header, hreply.tag] at htag
  rw [getU32_of_read hrx hreply.header, hreply.size] at hsize
  obtain rfl := hown r hr tx htx htag
  refine ⟨q, earlier, hq, hsent, ?_⟩
  rw [← hsize, hreply.length, hrx]
  exact hwritten

variable {p : Post} {m m' : Machine} {q : Line} {out : List (Nat × Chain Cookie)} (hq : m.vq = some q)
  (htracks : Tracks q.traffic out) (haligned : q.Aligned) {n : UInt32} {rx : Mem}
  (h : busPoll world p m = .ok (.reply n rx) m')

include hq htracks haligned h

/-- A transaction accepts its own reply, if the tags of the others differ; what is left in the buffer does not matter
when no chain was outstanding before. -/
theorem busPoll_owns
    (hfaithful : ∀ q', m'.vq = some q' → ∀ a ∈ q'.written.drop q.written.length, a.Faithful q'.sent)
    (hother : ∀ e ∈ out, ∀ tx, q.sent[e.1]? = some tx → frameTag tx ≠ p.expectedTag)
    (hleft : (p9GetU16 p.rxBuf 5).1 ≠ p.expectedTag ∨ out = []) : Owns p.tx n rx m' := by
  obtain ⟨start, hstart, hexplained⟩ := (busPoll_explained world p hq htracks haligned).ok rfl h n rx rfl
  obtain ⟨haccepts, q', hq', hpolling, hreported⟩ := hexplained n rx rfl
  have hsent : q'.sent = q.sent ++ [p.tx] := hpolling.sent.trans hstart.sent
  have hnew := hfaithful q' hq'
  rw [← hstart.written] at hnew
  rcases hpolling.heard hnew with ⟨rfl, hzero⟩ | hheard
  · rcases hleft with htag | rfl
    · exact absurd haccepts.2.2.1 htag
    · have hall : start.written.length ≤ start.traffic.returned.length := by
        have hlen := congrArg List.length haligned.written
        rw [List.length_map, List.length_map] at hlen
        rw [hstart.written, hstart.returned, hlen, htracks.all_returned]
      obtain ⟨a, ha, rfl⟩ := hpolling.reported hreported hall
      have hseven := haccepts.1
      rw [hzero a ha] at hseven
      exact absurd hseven (by decide)
  · refine hheard.owns hq' haccepts hsent fun r hr tx htx htag => ?_
    rcases List.mem_append.mp hr with hr | hr
    · obtain ⟨e, he, rfl⟩ := List.mem_map.mp hr
      have hlt : e.1 < q.sent.length := by
        obtain ⟨p', hp', -⟩ := htracks.named e he
        rw [haligned.sent]
        exact (List.getElem?_eq_some_iff.mp hp').1
      rw [hsent, List.getElem?_append_left hlt] at htx
      exact absurd htag (hother e he tx htx)
    · exact List.mem_singleton.mp hr

/-- A device that answers to what it reads answers its requests, when it has read those that were outstanding before. -/
theorem busPoll_faithful (hconf : world.Conforms) (hread : ∀ e ∈ out, q.fetched.lookup e.1 = q.sent[e.1]?) :
    ∀ q', m'.vq = some q' → ∀ a ∈ q'.written.drop q.written.length, a.Faithful q'.sent := by
  obtain ⟨start, hstart, hexplained⟩ := (busPoll_explained world p hq htracks haligned).ok rfl h n rx rfl
  obtain ⟨-, q₀, hq₀, hpolling, -⟩ := hexplained n rx rfl
  intro q' hq' a ha
  obtain rfl : q₀ = q' := Option.some.inj (hq₀.symm.trans hq')
  obtain ⟨new, hwritten, -, hnew⟩ := hpolling.answers
  rw [hwritten, hstart.written, List.drop_left] at ha
  obtain ⟨hlive, answer, ⟨t, k, hmem⟩, hans⟩ := hnew a ha
  have hsent : q₀.sent = q.sent ++ [p.tx] := hpolling.sent.trans hstart.sent
  -- the message that the device has is the one that was sent
  have hmessage : q₀.sent[a.request]? = some (start.message (m.stored .tx p.tx).texts a.request) := by
    rcases List.mem_append.mp hlive with hr | hr
    · obtain ⟨e, he, heq⟩ := List.mem_map.mp hr
      obtain ⟨p', hp', -⟩ := htracks.named e he
      have hlt : e.1 < q.sent.length := by
        rw [haligned.sent]
        exact (List.getElem?_eq_some_iff.mp hp').1
      have hread' := hread e he
      rw [List.getElem?_eq_getElem hlt] at hread'
      rw [← heq, hstart.message_other hread', hsent, List.getElem?_append_left hlt, List.getElem?_eq_getElem hlt]
    · rw [List.mem_singleton.mp hr, hstart.message haligned, hsent, List.getElem?_append_right le_rfl, Nat.sub_self]
      rfl
  rcases hconf t _ hmem (start.message (m.stored .tx p.tx).texts a.request) with hnone | hreply
  · rw [hnone] at hans
    exact .inl ⟨(congrArg Prod.fst hans).symm, (congrArg Prod.snd hans).symm⟩
  · rw [hans] at hreply
    exact .inr ⟨_, hmessage, hreply⟩

omit h in
/-- **A transaction does not accept the reply to another request**, although chains of earlier calls may still be
outstanding and be completed at any time, if the device answers each message that it has read and has read those of the
outstanding requests before `tx_buf` is written again. Their tags and the tag that is left in `rx_buf` have to differ
from the one that is sent. -/
theorem reply_owned (hconf : world.Conforms) (hread : ∀ e ∈ out, q.fetched.lookup e.1 = q.sent[e.1]?)
    (hother : ∀ e ∈ out, ∀ tx, q.sent[e.1]? = some tx → frameTag tx ≠ p.expectedTag)
    (hleft : (p9GetU16 p.rxBuf 5).1 ≠ p.expectedTag) (h : busPoll world p m = .ok (.reply n rx) m') :
    Owns p.tx n rx m' :=
  busPoll_owns hq htracks haligned h (busPoll_faithful hq htracks haligned h hconf hread) hother (.inl hleft)

end Accepted

/-! ## Tags -/

section Tags

variable {W : Type}

/-- So many draws of `p9_next_tag` in a row. -/
def drawTags : Nat → Client W (List UInt16)
  | 0 => pure []
  | k + 1 => do
    let tag ← p9NextTag
    let tags ← drawTags k
    pure (tag :: tags)

/-- None of the tags is `P9_NOTAG`, which is the tag of `Tversion`, and of 65535 in a row no two are the same. -/
structure FreshTags (tags : List UInt16) : Prop where
  noTag : p9NoTag ∉ tags
  apart : ∀ i j, i < j → j < i + 65535 → j < tags.length → tags[i]? ≠ tags[j]?

theorem toNat_lt_of_ne {tag : UInt16} (h : tag ≠ p9NoTag) : tag.toNat < 65535 := by
  have hbound := tag.toNat_lt
  have hne : tag.toNat ≠ 65535 := fun heq => h (UInt16.toNat.inj heq)
  omega

/-- `p9_next_tag` counts through all tags but `P9_NOTAG`. -/
theorem nextTag_tagged (s : St W) (hs : s.h.nextTag ≠ p9NoTag) :
    s.tagged.h.nextTag.toNat = (s.h.nextTag.toNat + 1) % 65535 ∧ s.tagged.h.nextTag ≠ p9NoTag := by
  have hlt := toNat_lt_of_ne hs
  have hsucc : (s.h.nextTag + 1).toNat = s.h.nextTag.toNat + 1 := by
    rw [UInt16.toNat_add]
    exact Nat.mod_eq_of_lt (Nat.lt_of_le_of_lt hlt (by decide))
  show (if s.h.nextTag + 1 = p9NoTag then 0 else s.h.nextTag + 1).toNat = _ ∧
    (if s.h.nextTag + 1 = p9NoTag then 0 else s.h.nextTag + 1) ≠ p9NoTag
  by_cases hlast : s.h.nextTag + 1 = p9NoTag
  · rw [if_pos hlast, ← hsucc, hlast]
    decide
  · rw [if_neg hlast, hsucc]
    refine ⟨(Nat.mod_eq_of_lt ?_).symm, hlast⟩
    rw [← hsucc]
    exact toNat_lt_of_ne hlast

/-- The tags of `k` draws. -/
theorem drawTags_eq (k : Nat) (s : St W) (hs : s.h.nextTag ≠ p9NoTag) :
    ∃ s', drawTags k s = .ok ((List.range k).map fun i => UInt16.ofNat ((s.h.nextTag.toNat + i) % 65535)) s' := by
  induction k generalizing s with
  | zero => exact ⟨s, rfl⟩
  | succ k ih =>
    obtain ⟨hnat, hne⟩ := nextTag_tagged s hs
    obtain ⟨s', hdraw⟩ := ih s.tagged hne
    refine ⟨s', ?_⟩
    unfold drawTags
    rw [run_bind_ok (nextTag_eq s), run_bind_ok hdraw, List.range_succ_eq_map, List.map_cons, List.map_map]
    have hfirst : UInt16.ofNat ((s.h.nextTag.toNat + 0) % 65535) = s.h.nextTag := by
      rw [Nat.add_zero, Nat.mod_eq_of_lt (toNat_lt_of_ne hs), UInt16.ofNat_toNat]
    have hrest : (fun i => UInt16.ofNat ((s.tagged.h.nextTag.toNat + i) % 65535)) =
        (fun i => UInt16.ofNat ((s.h.nextTag.toNat + i) % 65535)) ∘ Nat.succ := by
      funext i
      rw [Function.comp_apply, hnat, Nat.mod_add_mod, Nat.add_assoc, Nat.add_comm 1]
    rw [hfirst, hrest]
    rfl

theorem toNat_ofNat_mod (n : Nat) : (UInt16.ofNat (n % 65535)).toNat = n % 65535 :=
  UInt16.toNat_ofNat_of_lt' (show n % 65535 < 65536 by omega)

/-- **Tags are not used again soon.** -/
theorem drawTags_fresh (k : Nat) (s : St W) (hs : s.h.nextTag ≠ p9NoTag) :
    ∃ tags s', drawTags k s = .ok tags s' ∧ tags.length = k ∧ FreshTags tags := by
  obtain ⟨s', hdraw⟩ := drawTags_eq k s hs
  refine ⟨_, s', hdraw, by rw [List.length_map, List.length_range], fun hmem => ?_, fun i j hij hnear hj heq => ?_⟩
  · obtain ⟨i, -, heq⟩ := List.mem_map.mp hmem
    have hnat := congrArg UInt16.toNat heq
    rw [toNat_ofNat_mod] at hnat
    have hno : p9NoTag.toNat = 65535 := rfl
    omega
  · rw [List.length_map, List.length_range] at hj
    rw [List.getElem?_map, List.getElem?_map, List.getElem?_range (hij.trans hj), List.getElem?_range hj] at heq
    have hnat := congrArg UInt16.toNat (Option.some.inj heq)
    rw [toNat_ofNat_mod, toNat_ofNat_mod] at hnat
    omega

end Tags

/-- **A transaction accepts its own reply only**, whatever chains are outstanding and however they are completed, as
long as each answer of the device is a reply to its request, and the tags of the other requests and the tag that is left
in `rx_buf` differ from the one that is sent. The tags of many draws in a row do differ. -/
theorem transact_owns (world : World) (txSize : Nat) (s : St Machine) {q : Line} {out : List (Nat × Chain Cookie)}
    (hq : s.w.vq = some q) (htracks : Tracks q.traffic out) (haligned : q.Aligned)
    (hother : ∀ e ∈ out, ∀ tx, q.sent[e.1]? = some tx → frameTag tx ≠ (s.post txSize).expectedTag)
    (hleft : (p9GetU16 s.h.rxBuf 5).1 ≠ (s.post txSize).expectedTag) (htag : s.h.nextTag ≠ p9NoTag) :
    (∀ n s', v9pTransact (busLink world) txSize s = .ok n s' → n ≠ 0 →
      (∀ q', s'.w.vq = some q' → ∀ a ∈ q'.written.drop q.written.length, a.Faithful q'.sent) →
      Owns (s.h.txBuf.read 0 txSize) n s'.h.rxBuf s'.w) ∧
    ∀ k, ∃ tags s', drawTags k s = .ok tags s' ∧ tags.length = k ∧ FreshTags tags := by
  refine ⟨fun n s' h hn hfaithful => ?_, fun k => drawTags_fresh k s htag⟩
  rw [transact_eq] at h
  obtain ⟨w, rx, hpoll, rfl⟩ := (transact_reply _ txSize s).ok rfl h hn
  exact busPoll_owns hq htracks haligned hpoll hfaithful hother (.inl hleft)

/-! ## Runs -/

/-- Every message and every answer on the queue is on record. -/
def Machine.Aligned (m : Machine) : Prop := ∀ q, m.vq = some q → q.Aligned

section Aligned

variable {world : World} {m : Machine}

theorem theQueue_none (hq : m.vq = none) : theQueue m = .error .nullQueue m := by
  unfold theQueue
  rw [get_bind, hq]
  rfl

theorem postMessage_aligned {n : Nat} (cookie : Cookie) (p : Post) :
    Triple (fun m => m.Owes n ∧ m.Aligned) (postMessage world cookie p) (fun _ => Machine.Aligned) fun _ _ => True := by
  rintro m ⟨howes, haligned⟩
  cases hq : m.vq with
  | none =>
    unfold postMessage
    rw [run_bind_error (theQueue_none hq)]
    trivial
  | some q =>
    obtain ⟨out, htracks, -⟩ := howes q hq
    rcases htracks.post (fun n => if n = 0 then ⟨world.phys cookie.block, UInt32.ofNat p.tx.length⟩ else
      ⟨world.phys .rx, p.msize⟩) (by decide : (1 : UInt32) + 1 ≠ 0) (Option.some_ne_none cookie) with
      hpost | ⟨t, c, hpost, -, hposted, -⟩
    · rw [postMessage_refused hq hpost]
      intro q' hq'
      cases hq'
      exact haligned q hq
    · rw [postMessage_posted hq hpost]
      intro q' hq'
      cases hq'
      exact (haligned q hq).post hposted (post_histories hpost).1

theorem look_aligned {n : Nat} (rx : Mem) :
    Triple (fun m => m.Owes n ∧ m.Aligned) (look world rx) (fun _ => Machine.Aligned) fun _ _ => True := by
  refine theQueue_bind (fun _ _ _ => trivial) fun q => ?_
  rintro m ⟨hq, howes, haligned⟩
  obtain ⟨out, htracks, -⟩ := howes q hq
  rw [get_bind]
  generalize hacted : (if m.Live then q.acts m.texts rx (world.acts m.now) else (q, rx)) = acted
  have hafter : (∃ out, Tracks acted.1.traffic out) ∧ acted.1.Aligned := by
    rw [← hacted]
    split
    · exact ⟨⟨out, acts_tracks _ _ rx htracks⟩, (haligned q hq).acts htracks⟩
    · exact ⟨⟨out, htracks⟩, haligned q hq⟩
  obtain ⟨⟨out', htracks'⟩, haligned'⟩ := hafter
  have hsame : ∀ got t, acted.1.traffic.collect = .ok (got, t) →
      Machine.Aligned { m with now := m.now + 1, vq := some { acted.1 with traffic := t } } := by
    intro got t hcollect q' hq'
    cases hq'
    exact haligned'.collect hcollect
  dsimp only
  rcases htracks'.collect with hres | ⟨cookie, len, t, _, hres, -⟩
  · rw [hres]
    exact hsame _ _ hres
  · rw [hres]
    exact hsame _ _ hres

/-- The queue is sound, with `n` chains at most, and every message is on record. -/
def Machine.Recorded (n : Nat) (m : Machine) : Prop := m.Owes n ∧ m.Aligned

theorem look_recorded {n : Nat} (rx : Mem) :
    Triple (Machine.Recorded n) (look world rx) (fun _ => Machine.Recorded n) fun _ _ => True :=
  (((look_owes rx).pre fun _ hm => hm.1).and (look_aligned rx)).conseq (fun _ hm => hm) (fun _ _ hm => ⟨hm.1.1, hm.2⟩)
    fun _ _ _ => trivial

theorem pollLoop_recorded {n : Nat} (p : Post) (polls : Nat) : ∀ rx,
    Triple (Machine.Recorded n) (pollLoop world p polls rx) (fun _ => Machine.Recorded n) fun _ _ => True := by
  induction polls with
  | zero => exact fun rx => Triple.ret
  | succ polls ih =>
    refine fun rx => (look_recorded rx).bind fun r => ?_
    obtain ⟨_ | written, rx'⟩ := r
    · exact ih rx'
    · exact Triple.ite (fun _ => Triple.ret) fun _ => ih rx'

theorem drainOne_recorded {n : Nat} (polls : Nat) : ∀ rx,
    Triple (Machine.Recorded n) (drainOne world polls rx) (fun _ => Machine.Recorded n) fun _ _ => True := by
  induction polls with
  | zero => exact fun rx => Triple.ret
  | succ polls ih =>
    refine fun rx => (look_recorded rx).bind fun r => ?_
    obtain ⟨_ | written, rx'⟩ := r
    · exact ih rx'
    · exact Triple.ret

theorem drainLoop_recorded {n : Nat} (rounds : Nat) : ∀ rx,
    Triple (Machine.Recorded n) (drainLoop world rounds rx) (fun _ => Machine.Recorded n) fun _ _ => True := by
  induction rounds with
  | zero => exact fun rx => Triple.ret
  | succ rounds ih =>
    refine fun rx => Triple.bind (Q := fun _ => Machine.Recorded n) (Triple.modifyGet fun _ hm => hm) fun polls => ?_
    refine (drainOne_recorded polls rx).bind fun r => ?_
    obtain ⟨_ | _, rx'⟩ := r
    · exact Triple.ret
    · exact (ih rx').bind fun _ => Triple.ret

/-- Posting leaves one chain more at most. -/
theorem postMessage_recorded {n : Nat} (cookie : Cookie) (p : Post) :
    Triple (Machine.Recorded n) (postMessage world cookie p) (fun _ => Machine.Recorded (n + 1)) fun _ _ => True := by
  refine (((postMessage_owes cookie p).pre fun _ hm => hm.1).and (postMessage_aligned cookie p)).conseq (fun _ hm => hm)
    (fun ok m hm => ⟨hm.1.mono ?_, hm.2⟩) fun _ _ _ => trivial
  split
  · exact le_rfl
  · exact Nat.le_succ n

theorem busPoll_recorded (p : Post) :
    Triple (Machine.Recorded 0) (busPoll world p) (fun _ => Machine.Aligned) fun _ _ => True := by
  refine (postMessage_recorded .tx p).bind fun ok => Triple.ite (fun _ => ?_) fun _ => Triple.pure fun m hm => hm.2
  refine Triple.bind (Q := fun _ => Machine.Recorded 1) (Triple.modifyGet fun _ hm => hm) fun polls => ?_
  exact (pollLoop_recorded p polls _).post fun _ _ hm => hm.2

theorem busDrain_recorded (p : Post) :
    Triple (Machine.Recorded 1) (busDrain world p) (fun _ => Machine.Aligned) fun _ _ => True := by
  refine (postMessage_recorded .flush p).bind fun ok => Triple.ite (fun _ => ?_) fun _ => Triple.pure fun m hm => hm.2
  exact (drainLoop_recorded 2 _).post fun _ _ hm => hm.2

theorem aligned_init (hvq : m.vq = none) : (v9pInitVirtio world m).2.Aligned := by
  refine initVirtio_ind (P := fun _ => Machine.Aligned) hvq (fun m₁ status programmed n hdisc q hq => ?_)
    fun t driverOk n _ _ _ q hq => ?_
  · cases (hdisc.vq.trans hvq).symm.trans hq
  · cases hq
    exact ⟨rfl, fun f hf => absurd hf List.not_mem_nil, rfl⟩

theorem aligned_removeInterrupt (h : m.Aligned) : (v9pRemoveInterrupt world m).2.Aligned := by
  intro q' hq'
  obtain ⟨q, revoked, hvq, rfl⟩ := removeInterrupt_vq hq'
  obtain ⟨hsent, hfetched, hwritten⟩ := h q hvq
  exact ⟨hsent, hfetched, hwritten⟩

end Aligned

/-- A call that returned with a reply, right after it sent its message: the reply is to this message. -/
def OwnReply (mo : Moment Machine) (past : List (Moment Machine)) : Prop :=
  ∀ n, mo.event = .returned n → n ≠ 0 →
    ∃ sent earlier tx, past = sent :: earlier ∧ sent.event = .send tx ∧ Owns tx n mo.h.rxBuf mo.w

/-- So far, if no chain survived a call inside a reset. -/
def OwnSoFar (s : St Machine) : Prop := ReturnsClear true s.log → s.w.Aligned ∧ Always OwnReply s.log

/-- What is left of it at a fault. -/
def AllOwn (s : St Machine) : Prop := ReturnsClear true s.log → Always OwnReply s.log

section Runs

variable {world : World} {s : St Machine}

theorem owned_of_other {mo : Moment Machine} {past : List (Moment Machine)} (h : ∀ n, mo.event ≠ .returned n) :
    OwnReply mo past := fun n hn => absurd hn (h n)

theorem OwnSoFar.logged (hs : OwnSoFar s) {e : Event} (he : ∀ n, e ≠ .returned n) : OwnSoFar (s.logged e) := by
  intro hc
  obtain ⟨haligned, hall⟩ := hs ((returnsClear_cons_other he).mp hc)
  exact ⟨haligned, owned_of_other he, hall⟩

/-- Memory does not matter to the queue. -/
theorem OwnSoFar.offline (hs : OwnSoFar s) {w : Machine} (hbus : w.bus = s.w.bus) : OwnSoFar { s with w := w } := by
  have hvq : w.vq = s.w.vq := congrArg (·.2.2.1) hbus
  exact fun hc => ⟨fun q hq => (hs hc).1 q (hvq.symm.trans hq), (hs hc).2⟩

theorem OwnSoFar.all (hs : OwnSoFar s) : AllOwn s := fun hc => (hs hc).2

/-- What a call is about to return. -/
def Returning (n : UInt32) (s : St Machine) : Prop :=
  OwnSoFar s ∧ (n ≠ 0 → ReturnsClear true s.log →
    ∃ sent earlier tx, s.log = sent :: earlier ∧ sent.event = .send tx ∧ Owns tx n s.h.rxBuf s.w)

theorem Returning.returned {n : UInt32} (hs : Returning n s) : OwnSoFar (s.logged (.returned n)) := by
  intro hc
  have hbefore : ReturnsClear true s.log := fun mo hmo => hc mo (List.mem_cons_of_mem _ hmo)
  obtain ⟨haligned, hall⟩ := hs.1 hbefore
  refine ⟨haligned, fun n' hn' hne => ?_, hall⟩
  cases hn'
  exact hs.2 hne hbefore

theorem owned_transactWith (hconf : world.Conforms) {b : Bool} {reset : Client Machine Bool}
    (hreset : b = false → Triple (fun s => s.h.inReset = false ∧ s.w.Traced world ∧ SameReturns s ∧ OwnSoFar s) reset
      (fun _ => OwnSoFar) fun _ => AllOwn) (txSize : Nat) :
    Triple (fun s => Chained world b 0 s ∧ OwnSoFar s) (v9pTransactWith (busLink world) reset txSize)
      (fun _ => OwnSoFar) fun _ => AllOwn := by
  -- the machine after the poll
  have hpolled : ∀ {s : St Machine} {polled w}, Chained world b 0 s ∧ OwnSoFar s →
      busPoll world (s.post txSize) s.w = .ok polled w → OwnSoFar { s.sent txSize with w := w } := by
    intro s polled w hs hpoll hc
    have hc' : ReturnsClear true s.log := (returnsClear_cons_other (by simp)).mp hc
    obtain ⟨haligned, hall⟩ := hs.2 hc'
    exact ⟨(busPoll_recorded _).ok ⟨hs.1.owes hc', haligned⟩ hpoll, owned_of_other (by simp), hall⟩
  refine transact_rule (R := Returning) (T := fun _ _ s => Chained world b 1 s ∧ OwnSoFar s) ?_ ?_ ?_ ?_
    (fun tx tag => ?_) fun n s hs => hs.returned
  · intro s e w hs _ hc
    have hc' : ReturnsClear true s.log := (returnsClear_cons_other (by simp)).mp hc
    exact ⟨owned_of_other (by simp), (hs.2 hc').2⟩
  · exact fun s w hs hpoll => ⟨hpolled hs hpoll, fun hne => absurd rfl hne⟩
  · intro s n rx w hs hpoll
    refine ⟨hpolled hs hpoll, fun _ hc => ⟨_, _, _, rfl, rfl, ?_⟩⟩
    have hc' : ReturnsClear true s.log := (returnsClear_cons_other (by simp)).mp hc
    cases hq : s.w.vq with
    | none =>
      have hnull : busPoll world (s.post txSize) s.w = .error .nullQueue s.w := by
        unfold busPoll postMessage
        rw [bind_assoc, run_bind_error (theQueue_none hq)]
      cases hnull.symm.trans hpoll
    | some q =>
      obtain ⟨out, htracks, hlen⟩ := hs.1.owes hc' q hq
      obtain rfl : out = [] := List.length_eq_zero_iff.mp (Nat.le_zero.mp hlen)
      have haligned := (hs.2 hc').1 q hq
      refine busPoll_owns hq htracks haligned hpoll ?_ (fun e he => absurd he List.not_mem_nil) (.inr rfl)
      exact busPoll_faithful hq htracks haligned hpoll hconf fun e he => absurd he List.not_mem_nil
  · exact fun s rx w hs hpoll => ⟨(chained_poll hs.1 hpoll).1.frame _ rfl, hpolled hs hpoll⟩
  · have hdrained : ∀ {s : St Machine} {k rx w}, Chained world b 1 s ∧ OwnSoFar s →
        busDrain world (s.flush tag) s.w = .ok (k, rx) w → OwnSoFar (s.tagged.received w rx) := by
      intro s k rx w hs hdrain hc
      obtain ⟨haligned, hall⟩ := hs.2 hc
      exact ⟨(busDrain_recorded _).ok ⟨hs.1.owes hc, haligned⟩ hdrain, hall⟩
    by_cases hb : b = false
    · refine abandon_rule ?_ ?_ ?_ ((hreset hb).post fun _ s hs => ⟨hs, fun hne => absurd rfl hne⟩)
      · exact fun s e w hs _ => hs.2.all
      · exact fun s k rx w hs hdrain _ => ⟨hdrained hs hdrain, fun hne => absurd rfl hne⟩
      · intro s k rx w hs hdrain _ hin
        have hlogged := (chained_drain hs.1 hdrain).logged (e := .escalate tx) (by simp)
        exact ⟨hin, hlogged.traced, hlogged.same, (hdrained hs hdrain).logged (by simp)⟩
    · refine abandon_rule (B := fun _ => False) ?_ ?_ ?_ fun s hs => hs.elim
      · exact fun s e w hs _ => hs.2.all
      · exact fun s k rx w hs hdrain _ => ⟨hdrained hs hdrain, fun hne => absurd rfl hne⟩
      · exact fun s k rx w hs _ _ hin => absurd (hs.1.inReset.symm.trans hin) hb

/-- A request of the handshake; when it is answered, nothing is left. -/
theorem owned_request (hconf : world.Conforms) {α : Type} {nextTag : Client Machine UInt16}
    (hnext : Triple (Chained world true 0) nextTag (fun _ => Chained world true 0) fun _ => SameReturns)
    (htag : Triple OwnSoFar nextTag (fun _ => OwnSoFar) fun _ => AllOwn) (m : TMsg)
    (parse : Mem → UInt32 → Except Int32 α) :
    Triple (fun s => Chained world true 0 s ∧ OwnSoFar s) (p9Request (v9pTransactAt (busLink world) 0) nextTag m parse)
      (fun r s => OwnSoFar s ∧ ∀ a, r = .ok a → Chained world true 0 s) fun _ => AllOwn := by
  have hboth := (hnext.pre fun s (hs : Chained world true 0 s ∧ OwnSoFar s) => hs.1).and (htag.pre fun _ hs => hs.2)
  have hown : Triple (fun s => Chained world true 0 s ∧ OwnSoFar s)
      (p9Request (v9pTransactAt (busLink world) 0) nextTag m parse) (fun _ => OwnSoFar) fun _ => AllOwn := by
    refine request_rule (hboth.conseq (fun _ hs => hs) (fun _ s hs => ⟨hs.1.frame _ rfl, hs.2⟩) fun _ _ hs => hs.2)
      (owned_transactWith hconf (fun hb => by cases hb) _) fun _ _ hs => hs
  have hchained := (chained_request hnext m parse).pre fun s (hs : Chained world true 0 s ∧ OwnSoFar s) => hs.1
  exact (hchained.and hown).conseq (fun _ hs => hs) (fun _ _ hs => ⟨hs.2, hs.1.2⟩) fun _ _ hs => hs.2

theorem owned_nextTag : Triple OwnSoFar p9NextTag (fun _ => OwnSoFar) fun _ => AllOwn := fun _ hs => hs

theorem owned_reset (hconf : world.Conforms) (hsizes : world.SizesDivide) :
    Triple (fun s => s.h.inReset = false ∧ s.w.Traced world ∧ SameReturns s ∧ OwnSoFar s)
      (v9pReset (busLink world) (v9pTransactAt (busLink world) 0)) (fun _ => OwnSoFar) fun _ => AllOwn := by
  refine reset_rule (A := fun s => s.h.inReset = true ∧ s.w.vq = none ∧ SameReturns s ∧ AllOwn s)
    (C := fun s => Chained world true 0 s ∧ OwnSoFar s) (D := fun s => Chained world true 0 s ∧ OwnSoFar s)
    (G := OwnSoFar) (Z := fun _ => OwnSoFar) ?_ ?_ ?_ ?_ (fun root => ?_) ?_ ?_ ?_
  · exact fun s hs => ⟨hs.1, rfl, cleanupVirtio_vq hs.2.1, hs.2.2.1, hs.2.2.2.all⟩
  · intro s w hs hinit
    have howes := initVirtio_owes hsizes hs.2.1
    have htraced : (v9pInitVirtio world s.w).2.Traced world := traced_init hs.2.1
    have haligned : (v9pInitVirtio world s.w).2.Aligned := aligned_init hs.2.1
    rw [show v9pInitVirtio world s.w = (true, w) from hinit] at howes htraced haligned
    exact ⟨⟨hs.1, htraced, fun _ => howes.2, fun _ => howes.1, hs.2.2.1⟩, fun hc => ⟨haligned, hs.2.2.2 hc⟩⟩
  · intro s w hs hinit
    have haligned : (v9pInitVirtio world s.w).2.Aligned := aligned_init hs.2.1
    rw [show v9pInitVirtio world s.w = (false, w) from hinit] at haligned
    exact fun hc => ⟨haligned, hs.2.2.2 hc⟩
  · refine (owned_request hconf (fun _ hs => hs) (fun _ hs => hs) _ _).post fun r s hs => ?_
    cases r with
    | error e => exact hs.1
    | ok msize => exact ⟨(hs.2 msize rfl).frame _ rfl, hs.1⟩
  · refine ((owned_request hconf chained_nextTag owned_nextTag _ _).pre fun s hs => hs.2).post fun r s hs => ?_
    cases r with
    | error e => exact hs.1
    | ok u => exact hs.1
  · intro s pool w hs _ hcreate
    have hbus := offline_fidPoolCreate world s.w
    rw [hcreate] at hbus
    have hpooled : OwnSoFar (s.pooled pool w) := hs.offline hbus
    exact hpooled.logged (by simp)
  · exact fun s hs _ => hs
  · exact fun ok s hs => OwnSoFar.logged (s := { s with h := { s.h with inReset := false } }) hs (by simp)

/-- A transaction outside a reset. -/
theorem owned_transact (hconf : world.Conforms) (hsizes : world.SizesDivide) (txSize : Nat) :
    Triple (fun s => Chained world false 0 s ∧ OwnSoFar s) (v9pTransact (busLink world) txSize)
      (fun _ s => Chained world false 0 s ∧ OwnSoFar s) fun _ => AllOwn := by
  have hchained := (chained_transact hsizes txSize).pre fun s (hs : Chained world false 0 s ∧ OwnSoFar s) => hs.1
  exact (hchained.and (owned_transactWith hconf (fun _ => owned_reset hconf hsizes) txSize)).conseq (fun _ hs => hs)
    (fun _ _ hs => hs) fun _ _ hs => hs.2

def replyUpkeep (hconf : world.Conforms) (hsizes : world.SizesDivide) : Upkeep (busLink world) where
  Inv := fun s => Chained world false 0 s ∧ OwnSoFar s
  Safe := fun _ => AllOwn
  hang := fun hs => hs.2.all
  frame := fun h hin _ hs => ⟨hs.1.frame h hin, hs.2⟩
  pooled := fun _ _ hs => ⟨hs.1.frame _ rfl, hs.2⟩
  alloc := fun {s} _ hs => ⟨hs.1.offline (offline_grant s.w), hs.2.offline (offline_grant s.w)⟩
  record := fun {s e} he hs => ⟨hs.1.logged fun n hn => by rw [hn] at he; exact he,
    hs.2.logged fun n hn => by rw [hn] at he; exact he⟩
  transact := owned_transact hconf hsizes

/-- **Every reply is to its own message**: with a device that answers what it was asked, when no chain survives a call
inside `V9P_Reset`, the bytes a call of `V9P_Transact` returns are what the device wrote for the message this call sent,
and not for one given up before. -/
theorem replies_owned (world : World) (hconf : world.Conforms) (hsizes : world.SizesDivide)
    (calls lateCalls : List Callback) (txBuf rxBuf : Mem)
    (hclear : ReturnsClear true (startEnd world calls lateCalls txBuf rxBuf).log) :
    ∀ mo past, mo :: past <:+ (startEnd world calls lateCalls txBuf rxBuf).log → OwnReply mo past := by
  have hstart : Triple (fun s => (Chained world false 0 s ∧ AllOwn s) ∧ s.w.vq = none) (start world calls lateCalls)
      (fun _ => AllOwn) fun _ => AllOwn :=
    Upkeep.start (U := replyUpkeep hconf hsizes) (V := replyUpkeep hconf hsizes)
      (Q := AllOwn) (fun _ _ h => h)
      (fun _ h hs => ⟨⟨hs.1.1.offline h, hs.1.2⟩, vq_of_bus h hs.2⟩)
      (fun _ h hs => ⟨hs.1.offline h, hs.2.offline h⟩) (fun _ h hs => ⟨hs.1.offline h, hs.2.offline h⟩)
      (fun s hs => ⟨chained_init hsizes hs.1.1 hs.2, fun hc => ⟨aligned_init hs.2, hs.1.2 hc⟩⟩)
      (fun s w hs => ⟨hs.1.frame (s := ⟨s.h, w, s.log⟩) _ rfl, hs.2⟩)
      (fun s w hs => ⟨hs.1.frame (s := ⟨s.h, w, s.log⟩) _ rfl, hs.2⟩) (fun hs _ => hs.2.all)
      (fun s hs => ⟨chained_removeInterrupt s hs.1, fun hc => ⟨aligned_removeInterrupt (hs.2 hc).1, (hs.2 hc).2⟩⟩)
      (fun _ hs => hs.1.2) (fun _ hs => hs.2.all) (fun _ hs => hs.2.all) (fun _ hs => hs) (fun _ hs => hs)
      (fun _ hs => hs) fun _ hs => hs
  have hfinal : AllOwn (startEnd world calls lateCalls txBuf rxBuf) :=
    hstart.final (fun _ h => h) ⟨⟨boot_chained txBuf rxBuf, fun _ => trivial⟩, rfl⟩
  exact always_iff.mp (hfinal hclear)

end Runs

/-! ## A device that answers in the end -/

section Witness

variable {world : World}

theorem isReply_frame (r : RMsg) (tx : List UInt8) (hlen : 7 + r.body.length < 256 ^ 4) :
    IsReply tx (r.frame (frameTag tx)) (UInt32.ofNat (r.frame (frameTag tx)).length) := by
  rw [RMsg.length_frame]
  have hlen' : (UInt32.ofNat (7 + r.body.length)).toNat = 7 + r.body.length := UInt32.toNat_ofNat_of_lt' hlen
  have hsize : (r.frame (frameTag tx)).take 4 = leBytes 4 (7 + r.body.length) :=
    List.take_left' (length_leBytes 4 _)
  have htag : ((r.frame (frameTag tx)).drop 5).take 2 = leBytes 2 (frameTag tx).toNat := by
    simp only [RMsg.frame, frame, List.drop_append, List.take_append, length_leBytes]
    simp [leBytes]
  refine ⟨by simp, by rw [hlen', RMsg.length_frame], ?_, ?_⟩
  · rw [frameSize, hsize, leNat_leBytes_of_lt hlen]
  · rw [frameTag, htag, leNat_leBytes_of_lt (frameTag tx).toNat_lt]
    exact UInt16.ofNat_toNat

/-- The replies of the device, with the tags that they are asked with. -/
def heed (tx : List UInt8) : List UInt8 :=
  (if tx[4]? = some p9TVersion then RMsg.version p9MSize p9VersionStr else .attach ⟨0, 0, 0⟩).frame (frameTag tx)

def heedAct : Act := .complete 0 fun tx => (heed tx, UInt32.ofNat (heed tx).length)

theorem conforms_heedAct : heedAct.Conforms := by
  intro tx
  right
  show IsReply tx (heed tx) (UInt32.ofNat (heed tx).length)
  refine isReply_frame _ tx ?_
  split
  · decide
  · decide

def heedfulWorld : World := { briefWorld with acts := fun _ => [.take, heedAct] }

theorem heedful_conforms : heedfulWorld.Conforms := by
  intro t a ha
  rcases List.mem_cons.mp ha with rfl | ha
  · exact trivial
  · rw [List.mem_singleton.mp ha]
    exact conforms_heedAct

theorem heedful_sizes : heedfulWorld.SizesDivide := fun _ _ => (by decide : 128 ∣ 65536)

theorem heedful_clear : ReturnsClear true (startEnd heedfulWorld [] [] (fun _ => 0) fun _ => 0).log :=
  returnsClear_of_calm (by decide +kernel)

theorem replies_owned_heedful : ReturnsClear true (startEnd heedfulWorld [] [] (fun _ => 0) fun _ => 0).log ∧
    ∀ mo past, mo :: past <:+ (startEnd heedfulWorld [] [] (fun _ => 0) fun _ => 0).log → OwnReply mo past :=
  And.intro heedful_clear (replies_owned heedfulWorld heedful_conforms heedful_sizes [] [] _ _ heedful_clear)

end Witness

/-! ## A device that answers late -/

section Late

/-- The device reads the first message, and completes two chains when there are two, the older one first. -/
def lateWorld : World :=
  { briefWorld with acts := fun t => if t = 8 then [.take, .fetch 0] else [.take, heedAct, heedAct] }

theorem late_conforms : lateWorld.Conforms := by
  intro t a ha
  have hcases : a = .take ∨ a = .fetch 0 ∨ a = heedAct := by
    simp only [lateWorld] at ha
    split at ha
    · simp only [List.mem_cons, List.not_mem_nil, or_false] at ha
      exact ha.imp_right .inl
    · simp only [List.mem_cons, List.not_mem_nil, or_false, or_self] at ha
      exact ha.imp_right .inr
  rcases hcases with rfl | rfl | rfl
  · exact trivial
  · exact trivial
  · exact conforms_heedAct

theorem late_sizes : lateWorld.SizesDivide := fun _ _ => (by decide : 128 ∣ 65536)

/-- An attach with the tag `tag`. -/
def attachMessage (tag : UInt16) : List UInt8 := (TMsg.attach 0 p9NoFid [] [] 0).frame tag

/-- An attach is sent, and the device takes it. -/
def sendFirst : EStateM Fault Machine (Option UInt32 × Mem) :=
  postMessage lateWorld .tx ⟨attachMessage 1, 1, fun _ => 0, p9MSize⟩ >>= fun _ => look lateWorld fun _ => 0

/-- The machine when that attach has been given up, with its chain still on the queue. -/
def lateMachine : Machine := finalState (sendFirst (v9pInitVirtio lateWorld .boot).2)

/-- Another attach is in `tx_buf`. -/
def lateState : St Machine :=
  ⟨{ startHandler (Mem.write (fun _ => 0) 0 (attachMessage 2)) (fun _ => 0) with nextTag := 3 }, lateMachine, []⟩

def latePost : Post := lateState.post (attachMessage 2).length

theorem late_recorded : lateMachine.Recorded 1 := by
  have hfirst : Triple (Machine.Recorded 0) sendFirst (fun _ => Machine.Recorded 1) fun _ _ => True :=
    (postMessage_recorded .tx _).bind fun _ => look_recorded _
  have hdone : (finalValue (sendFirst (v9pInitVirtio lateWorld .boot).2)).isSome = true := by decide +kernel
  unfold lateMachine
  cases hres : sendFirst (v9pInitVirtio lateWorld .boot).2 with
  | error e m =>
    rw [hres] at hdone
    cases hdone
  | ok r m => exact hfirst.ok ⟨(initVirtio_owes late_sizes rfl).1, aligned_init rfl⟩ hres

/-- The device has read the first message, and it has another tag. -/
theorem late_line : (lateMachine.vq.any fun q => q.sent.length = 1 && q.fetched.lookup 0 == q.sent[0]? &&
    q.sent.all fun tx => frameTag tx != latePost.expectedTag) = true := by
  decide +kernel

theorem exists_late : ∃ q out, lateMachine.vq = some q ∧ Tracks q.traffic out ∧ q.Aligned ∧
    (∀ e ∈ out, q.fetched.lookup e.1 = q.sent[e.1]?) ∧
    ∀ e ∈ out, ∀ tx, q.sent[e.1]? = some tx → frameTag tx ≠ latePost.expectedTag := by
  have hline := late_line
  cases hq : lateMachine.vq with
  | none =>
    rw [hq] at hline
    cases hline
  | some q =>
    obtain ⟨out, htracks, -⟩ := late_recorded.1 q hq
    have haligned := late_recorded.2 q hq
    rw [hq, Option.any_some, Bool.and_eq_true, Bool.and_eq_true, decide_eq_true_eq] at hline
    obtain ⟨⟨hone, hread⟩, htags⟩ := hline
    refine ⟨q, out, rfl, htracks, haligned, fun e he => ?_, fun e _ tx htx => ?_⟩
    · obtain ⟨p, hp, -⟩ := htracks.named e he
      have hlt := (List.getElem?_eq_some_iff.mp hp).1
      rw [← haligned.sent, hone, Nat.lt_one_iff] at hlt
      rw [hlt]
      exact eq_of_beq hread
    · exact bne_iff_ne.mp (List.all_eq_true.mp htags tx (List.mem_of_getElem? htx))

/-- Is this a reply of `n` bytes? -/
def repliedWith (n : UInt32) : EStateM.Result Fault Machine Polled → Bool
  | .ok (.reply n' _) _ => n' == n
  | _ => false

theorem exists_of_repliedWith {n : UInt32} {r : EStateM.Result Fault Machine Polled} (h : repliedWith n r = true) :
    ∃ rx m', r = .ok (.reply n rx) m' := by
  cases r with
  | error e m => cases h
  | ok polled m =>
    cases polled with
    | reply n' rx => exact ⟨rx, m, by rw [eq_of_beq h]⟩
    | refused => cases h
    | timeout rx => cases h

theorem late_replied : repliedWith 20 (busPoll lateWorld latePost lateMachine) = true := by decide +kernel

theorem late_left : (p9GetU16 latePost.rxBuf 5).1 ≠ latePost.expectedTag := by decide +kernel

/-- The second attach is answered together with the first. -/
theorem reply_owned_late : ∃ rx m', busPoll lateWorld latePost lateMachine = .ok (.reply 20 rx) m' ∧
    Owns latePost.tx 20 rx m' := by
  obtain ⟨rx, m', hpoll⟩ := exists_of_repliedWith late_replied
  obtain ⟨q, out, hq, htracks, haligned, hread, hother⟩ := exists_late
  exact ⟨rx, m', hpoll, reply_owned hq htracks haligned late_conforms hread hother late_left hpoll⟩

theorem transact_owns_late : (∃ s', v9pTransact (busLink lateWorld) (attachMessage 2).length lateState = .ok 20 s' ∧
    Owns latePost.tx 20 s'.h.rxBuf s'.w) ∧
    ∃ tags s', drawTags 3 lateState = .ok tags s' ∧ tags.length = 3 ∧ FreshTags tags := by
  obtain ⟨rx, m', hpoll⟩ := exists_of_repliedWith late_replied
  obtain ⟨q, out, hq, htracks, haligned, hread, hother⟩ := exists_late
  obtain ⟨howns, htags⟩ := transact_owns lateWorld (attachMessage 2).length lateState hq htracks haligned hother
    late_left
    (by decide)
  have hres : v9pTransact (busLink lateWorld) (attachMessage 2).length lateState = _ := transact_of_reply hpoll
  refine ⟨⟨_, hres, howns 20 _ hres (by decide) ?_⟩, htags 3⟩
  exact busPoll_faithful hq htracks haligned hpoll late_conforms hread

end Late

end Virtio9P
