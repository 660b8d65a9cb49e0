import Virtio9P.Recovery
import Virtio9P.Paths

/-!
# `P9_Walk`

`P9_Walk` refuses a path that is too long or too deep and does nothing else then. Any other path is walked with one
`Twalk` along its components, whatever the link does with it (`walk_sends`). What is returned follows from the reply: 0
if all the names were walked, `-2` if not, and then the new fid is clunked if any of them were (`walkAnswered`).

A message is found in the log by its type (`sendsOf`); a request leaves one of its own type there, since a reset sends
no more than a `Tversion` and a `Tattach` (`Call.sendsOf_eq`).
-/

namespace Virtio9P

open Lib

variable {W α : Type}

/-! ## The messages in a log -/

/-- The message of the entry, if it is of the type. -/
def Event.sendOf (type : UInt8) : Event → List (List UInt8)
  | .send tx => if tx[4]? = some type then [tx] else []
  | _ => []

/-- The messages of the type that were sent, the newest first. -/
def sendsOf (type : UInt8) (log : List (Moment W)) : List (List UInt8) := log.flatMap fun mo => mo.event.sendOf type

section Sends

variable {type : UInt8}

theorem sendsOf_cons {mo : Moment W} {e : Event} {b : Bool} (h : mo.Is e b) (log : List (Moment W)) :
    sendsOf type (mo :: log) = e.sendOf type ++ sendsOf type log := by
  rw [sendsOf, List.flatMap_cons, h.1]
  rfl

theorem sendsOf_append (new log : List (Moment W)) : sendsOf type (new ++ log) = sendsOf type new ++ sendsOf type log :=
  List.flatMap_append

theorem frame_type (m : TMsg) (tag : UInt16) : (m.frame tag)[4]? = some m.type := by
  have hbyte : leBytes 1 m.type.toNat = [m.type] := by simp [leBytes]
  unfold TMsg.frame frame
  rw [List.getElem?_append_right (by simp), hbyte]
  simp

theorem sendOf_frame (m : TMsg) (tag : UInt16) :
    (Event.send (m.frame tag)).sendOf type = if m.type = type then [m.frame tag] else [] := by
  simp only [Event.sendOf, frame_type, Option.some.injEq]

theorem Plain.sendsOf_eq {b : Bool} {m : TMsg} {tag : UInt16} {call : List (Moment W)}
    (h : Plain b (m.frame tag) call) : sendsOf type call = if m.type = type then [m.frame tag] else [] := by
  cases h with
  | intro hsend hret =>
    rw [sendsOf_cons hret, sendsOf_cons hsend, sendOf_frame]
    exact List.append_nil _

/-- A handshake sends nothing else. -/
theorem Handshake.sendsOf_eq {nested : List (Moment W)} (h : Handshake nested)
    (htype : p9TVersion ≠ type ∧ p9TAttach ≠ type) : sendsOf type nested = [] := by
  have hv : ∀ {call : List (Moment W)}, Plain true versionFrame call → sendsOf type call = [] :=
    fun h => (Plain.sendsOf_eq h).trans (if_neg htype.1)
  have ha : ∀ {call : List (Moment W)} {root tag}, Plain true (attachFrame root tag) call → sendsOf type call = [] :=
    fun h => (Plain.sendsOf_eq h).trans (if_neg htype.2)
  cases h with
  | none => rfl
  | version hcall => exact hv hcall
  | attach hcall hcall' => rw [sendsOf_append, hv hcall, ha hcall', List.append_nil]
  | pool hcall hcall' hpool =>
    rw [sendsOf_cons hpool, sendsOf_append, hv hcall, ha hcall']
    rfl

/-- **A request is sent once**, if it is not one that a reset sends. -/
theorem Call.sendsOf_eq {m : TMsg} {tag : UInt16} {b : Bool} {new : List (Moment W)} (h : Call (m.frame tag) b new)
    (htype : p9TVersion ≠ type ∧ p9TAttach ≠ type) :
    sendsOf type new = if m.type = type then [m.frame tag] else [] := by
  obtain ⟨hopen, hret⟩ := h
  rw [sendsOf_cons hret]
  cases hopen with
  | sent hsend =>
    rw [sendsOf_cons hsend, sendOf_frame]
    exact List.append_nil _
  | reset hsend hescalate hnested hreset =>
    rw [sendsOf_cons hreset, sendsOf_append, hnested.sendsOf_eq htype, sendsOf_cons hescalate,
      sendsOf_cons hsend, sendOf_frame]
    exact List.append_nil _

variable {L : Link W}

/-- The messages of the type that a request adds. -/
theorem request_sends (htype : p9TVersion ≠ type ∧ p9TAttach ≠ type) (m : TMsg)
    (parse : Mem → UInt32 → Except Int32 α) (s : St W) :
    Triple (· = s) (p9Request (v9pTransact L) p9NextTag m parse)
      (fun _ => Since s.log fun new => sendsOf type new = if m.type = type then [m.frame s.h.nextTag] else [])
      fun _ _ => True := by
  refine (request_log m parse s).conseq (fun _ hs => hs) (fun _ s' hs => ?_) fun _ _ _ => trivial
  exact hs.2.mono fun new hcall => hcall.sendsOf_eq htype

theorem Since.trans {base : List (Moment W)} {T T' T'' : List (Moment W) → Prop} {s s' : St W} (h : Since base T s)
    (h' : Since s.log T' s') (hT : ∀ new new', T new → T' new' → T'' (new' ++ new)) : Since base T'' s' := by
  obtain ⟨new, hlog, hnew⟩ := h
  obtain ⟨new', hlog', hnew'⟩ := h'
  exact ⟨new' ++ new, by rw [hlog', hlog, List.append_assoc], hT new new' hnew hnew'⟩

end Sends

/-! ## The components of a path -/

/-- A path without components is one of slashes only. -/
theorem components_eq_nil : ∀ {path : Str}, components path = [] ↔ ∀ c ∈ path, c = slash
  | [] => by simp [components_nil]
  | c :: path => by
    by_cases hc : c = slash
    · rw [hc, components_slash, components_eq_nil]
      simp
    · have hne : components (c :: path) ≠ [] := by
        rw [components_takeWhile rfl hc]
        exact List.cons_ne_nil _ _
      simp [hne, hc]

/-! ## Walks -/

section Walk

variable {L : Link W} {fid newfid : UInt32} {path : Str} {s : St W}

theorem walk_eq_of_ok (hpath : ¬ Refused path) :
    p9Walk (v9pTransact L) fid newfid path =
      p9Request (v9pTransact L) p9NextTag (.walk fid newfid (components path)) parseWalk >>=
        walkEnd (v9pTransact L) newfid (components path).length :=
  (p9Walk_eq ..).trans (if_neg hpath)

/-- What is sent after the `Twalk`. -/
theorem walkEnd_sends {type : UInt8} (htype : p9TVersion ≠ type ∧ p9TAttach ≠ type) (nwname : Nat)
    (r : Except Int32 UInt16) (s : St W) :
    Triple (· = s) (walkEnd (v9pTransact L) newfid nwname r)
      (fun _ => Since s.log fun new => p9TClunk ≠ type → sendsOf type new = []) fun _ _ => True := by
  have hnone : Since s.log (fun new => p9TClunk ≠ type → sendsOf type new = []) s := ⟨[], rfl, fun _ => rfl⟩
  cases r with
  | error e => exact Triple.pure fun s' hs => hs ▸ hnone
  | ok nwqid =>
    refine Triple.ite (fun _ => Triple.ite (fun _ => ?_) fun _ => ?_) fun _ => ?_
    · rw [p9Clunk_eq]
      refine (request_sends htype _ _ s).bind fun _ => Triple.pure fun s' hs => ?_
      exact hs.mono fun new hnew hclunk => hnew.trans (if_neg hclunk)
    · exact Triple.pure fun s' hs => hs ▸ hnone
    · exact Triple.pure fun s' hs => hs ▸ hnone

/-- **One `Twalk` is sent**, along the components of the path. -/
theorem walk_sends (fid newfid : UInt32) (hpath : ¬ Refused path) (s : St W) :
    Triple (· = s) (p9Walk (v9pTransact L) fid newfid path)
      (fun _ => Since s.log fun new =>
        sendsOf p9TWalk new = [(TMsg.walk fid newfid (components path)).frame s.h.nextTag]) fun _ _ => True := by
  have htype : p9TVersion ≠ p9TWalk ∧ p9TAttach ≠ p9TWalk := by decide
  rw [walk_eq_of_ok hpath]
  refine (request_sends htype _ _ s).bind fun r s₁ hs₁ => ?_
  refine (walkEnd_sends htype _ r s₁).conseq (P := (· = s₁)) (fun _ hs => hs) (fun r s₂ hs₂ => ?_)
    (fun _ _ _ => trivial) s₁ rfl
  refine hs₁.trans hs₂ fun new new' hnew hnew' => ?_
  rw [sendsOf_append, hnew, hnew' (by decide)]
  rfl

/-- What a walk of `nwname` names makes of a reply of `n` bytes in `rx`. -/
structure WalkAnswered (walk : Client W (Except Int32 Unit)) (newfid : UInt32) (nwname : Nat) (s : St W) (n : UInt32)
    (rx : Mem) : Prop where
  /-- it succeeds exactly when the reply is no error, is long enough and has a qid for each name -/
  ok_iff : (∃ s', walk s = .ok (.ok ()) s') ↔
    p9CheckError rx n = 0 ∧ 9 ≤ n ∧ (p9GetU16 rx 7).1.toNat = nwname
  /-- if qids are missing, it returns -2, after a clunk of the new fid unless there are none -/
  short : p9CheckError rx n = 0 → 9 ≤ n → (p9GetU16 rx 7).1.toNat ≠ nwname →
    Triple (· = s) walk
      (fun r s' => r = .error (-2) ∧ Since s.log (fun new => sendsOf p9TClunk new =
        if 0 < (p9GetU16 rx 7).1 then [(TMsg.clunk newfid).frame s.tagged.h.nextTag] else []) s')
      fun _ _ => 0 < (p9GetU16 rx 7).1

/-- What the parser makes of a reply. -/
theorem resultOf_walk (n : UInt32) (rx : Mem) :
    (∃ e, resultOf parseWalk n rx = .error e ∧ ¬ (p9CheckError rx n = 0 ∧ 9 ≤ n)) ∨
      resultOf parseWalk n rx = .ok (p9GetU16 rx 7).1 ∧ p9CheckError rx n = 0 ∧ 9 ≤ n := by
  unfold resultOf answer
  by_cases hn : n = 0
  · rw [if_pos hn]
    exact .inl ⟨_, rfl, fun h => absurd h.2 (by rw [hn]; decide)⟩
  rw [if_neg hn]
  by_cases herror : p9CheckError rx n ≠ 0
  · rw [if_pos herror]
    exact .inl ⟨_, rfl, fun h => herror h.1⟩
  rw [if_neg herror]
  unfold parseWalk p9RequireSize
  by_cases hlen : n < 9
  · rw [show p9RHdrSize + 2 = 9 from rfl, if_pos hlen]
    exact .inl ⟨_, rfl, fun h => absurd hlen (UInt32.not_lt.mpr h.2)⟩
  · rw [show p9RHdrSize + 2 = 9 from rfl, if_neg hlen]
    exact .inr ⟨rfl, not_not.mp herror, UInt32.not_lt.mp hlen⟩

theorem ofNat_ne_iff (hpath : ¬ Refused path) (nwqid : UInt16) :
    nwqid ≠ UInt16.ofNat (components path).length ↔ nwqid.toNat ≠ (components path).length := by
  have hsmall : (components path).length < 65536 := by
    unfold Refused p9MaxWElem at hpath
    omega
  rw [ne_eq, ← UInt16.toNat_inj, UInt16.toNat_ofNat', Nat.mod_eq_of_lt hsmall]

/-- The end of a walk in which qids are missing. -/
theorem walkEnd_short (newfid : UInt32) {nwname : Nat} {nwqid : UInt16} (hne : nwqid ≠ UInt16.ofNat nwname) (s : St W) :
    Triple (· = s) (walkEnd (v9pTransact L) newfid nwname (.ok nwqid))
      (fun r s' => r = .error (-2) ∧ Since s.log (fun new => sendsOf p9TClunk new =
        if 0 < nwqid then [(TMsg.clunk newfid).frame s.h.nextTag] else []) s') fun _ _ => 0 < nwqid := by
  have htype : p9TVersion ≠ p9TClunk ∧ p9TAttach ≠ p9TClunk := by decide
  refine Triple.ite (fun _ => Triple.ite (fun hpos => ?_) fun hzero => ?_) fun heq => absurd hne heq
  · rw [p9Clunk_eq]
    refine ((request_sends htype _ _ s).conseq (E := fun _ _ => 0 < nwqid) (fun _ hs => hs) (fun _ _ hs => hs)
      fun _ _ _ => hpos).bind fun _ => Triple.pure fun s' hs => ⟨rfl, ?_⟩
    rw [if_pos hpos]
    exact hs
  · refine Triple.pure fun s' hs => ⟨rfl, [], by rw [hs]; rfl, ?_⟩
    rw [if_neg hzero]
    rfl

/-- **The reply decides.** -/
theorem walkAnswered (hpath : ¬ Refused path) {n : UInt32} {rx : Mem} {w : W}
    (hpoll : L.poll (s.ask (.walk fid newfid (components path))) s.w = .ok (.reply n rx) w) :
    WalkAnswered (p9Walk (v9pTransact L) fid newfid path) newfid (components path).length s n rx := by
  have hrun : p9Walk (v9pTransact L) fid newfid path s =
      walkEnd (v9pTransact L) newfid (components path).length (resultOf parseWalk n rx)
        (s.replied (.walk fid newfid (components path)) n rx w) := by
    rw [walk_eq_of_ok hpath, run_bind_ok (request_of_poll hpoll _)]
  generalize hsr : s.replied (.walk fid newfid (components path)) n rx w = s₁ at hrun
  have hsince : Since s.log (fun new => sendsOf p9TClunk new = []) s₁ := by
    obtain ⟨ret, sent, hlog, hret, hsent, -⟩ := s.replied_log (.walk fid newfid (components path)) n rx w
    refine ⟨[ret, sent], hsr ▸ hlog, ?_⟩
    show sendsOf p9TClunk [ret, sent] = []
    rw [sendsOf_cons ⟨hret, rfl⟩, sendsOf_cons ⟨hsent, rfl⟩, sendOf_frame]
    rfl
  rcases resultOf_walk n rx with ⟨e, hres, hbad⟩ | ⟨hres, hcheck, hlen⟩
  · rw [hres] at hrun
    refine ⟨⟨?_, fun h => absurd ⟨h.1, h.2.1⟩ hbad⟩, fun hcheck hlen => absurd ⟨hcheck, hlen⟩ hbad⟩
    rintro ⟨s', hok⟩
    rw [hrun] at hok
    cases hok
  · rw [hres] at hrun
    by_cases hfull : (p9GetU16 rx 7).1.toNat = (components path).length
    · refine ⟨⟨fun _ => ⟨hcheck, hlen, hfull⟩, fun _ => ⟨s₁, ?_⟩⟩, fun _ _ h => absurd hfull h⟩
      rw [hrun, walkEnd, if_neg (fun h => (ofNat_ne_iff hpath _).mp h hfull)]
      rfl
    · have hend := walkEnd_short (L := L) newfid ((ofNat_ne_iff hpath _).mpr hfull) s₁ s₁ rfl
      rw [← hrun] at hend
      have htag : s₁.h.nextTag = s.tagged.h.nextTag := hsr ▸ rfl
      refine ⟨⟨?_, fun h => absurd h.2.2 hfull⟩, fun _ _ _ s' hs' => ?_⟩
      · rintro ⟨s', hok⟩
        rw [hok] at hend
        exact absurd hend.1 (by simp)
      · rw [hs']
        cases hr : p9Walk (v9pTransact L) fid newfid path s with
        | error e s₂ =>
          rw [hr] at hend
          exact hend
        | ok r s₂ =>
          rw [hr] at hend
          refine ⟨hend.1, hsince.trans hend.2 fun new new' hnew hnew' => ?_⟩
          rw [sendsOf_append, hnew, hnew', htag, List.append_nil]

end Walk

/-- **`P9_Walk` walks along the components of its path, or does nothing.** A path that is too long or too deep is
refused, and nothing changes. Else one `Twalk` is sent, with the components as its names; none, if the path has slashes
only. Paths with the same components are walked alike. Its reply decides what is returned. -/
theorem walk_exact (L : Link W) (fid newfid : UInt32) (path : Str) (s : St W) :
    (Refused path → p9Walk (v9pTransact L) fid newfid path s = .ok (.error (-36)) s) ∧
    (¬ Refused path →
      decode ((TMsg.walk fid newfid (components path)).frame s.h.nextTag) =
        some (s.h.nextTag, .walk fid newfid (components path)) ∧
      (∀ path', ¬ Refused path' → components path' = components path →
        Triple (· = s) (p9Walk (v9pTransact L) fid newfid path')
          (fun _ => Since s.log fun new =>
            sendsOf p9TWalk new = [(TMsg.walk fid newfid (components path)).frame s.h.nextTag]) fun _ _ => True) ∧
      ∀ n rx w, L.poll (s.ask (.walk fid newfid (components path))) s.w = .ok (.reply n rx) w →
        WalkAnswered (p9Walk (v9pTransact L) fid newfid path) newfid (components path).length s n rx) ∧
    (components path = [] ↔ ∀ c ∈ path, c = slash) := by
  refine ⟨fun href => ?_, fun hpath => ⟨?_, fun path' hpath' heq => ?_, fun n rx w => walkAnswered hpath⟩,
    components_eq_nil⟩
  · unfold Refused at href
    rw [p9Walk_eq, if_pos href]
    rfl
  · unfold Refused at hpath
    exact decode_walk fid newfid (by omega) (by omega) _
  · have hsends := walk_sends (L := L) fid newfid hpath' s
    rwa [heq] at hsends

end Virtio9P
