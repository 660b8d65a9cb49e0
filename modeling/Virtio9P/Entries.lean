import Virtio9P.Fuse

/-!
# The entries of a directory block

An `Rreaddir` carries packed entries: a qid, a resume offset, a type and a name. `complete` takes a block apart the way
the protocol has it: the entries that are all there, and the bytes after the last of them.

`v9p_readdir` looks for the 24 bytes of an entry without its name, and leaves the name to `p9_get_str`, which cannot say
that a name is not all there. So it lists exactly the complete entries when fewer than 24 bytes follow them
(`complete_only_iff`); else it goes on in the middle of an entry (`cut_entry_listed`).
-/

namespace Virtio9P

open Lib

/-! ## Entries and their bytes -/

/-- An entry of a directory. -/
structure Dirent where
  qid : P9Qid
  offset : UInt64
  type : UInt8
  name : Str
  deriving DecidableEq

/-- The entry on the wire. -/
def Dirent.bytes (e : Dirent) : List UInt8 :=
  qidBytes e.qid ++ (leBytes 8 e.offset.toNat ++ (leBytes 1 e.type.toNat ++ strBytes e.name))

/-- The next qid. -/
def decQid : Dec P9Qid := do pure ⟨← dec8, ← dec32, ← dec64⟩

/-- The next entry. -/
def decDirent : Dec Dirent := do pure ⟨← decQid, ← dec64, ← dec8, ← decStr⟩

/-- The complete entries at the front of a block, `fuel` at most, and the bytes after them. -/
def complete : Nat → List UInt8 → List Dirent × List UInt8
  | 0, bs => ([], bs)
  | fuel + 1, bs =>
    match decDirent bs with
    | none => ([], bs)
    | some (e, rest) => (e :: (complete fuel rest).1, (complete fuel rest).2)

@[simp] theorem Dirent.length_bytes (e : Dirent) : e.bytes.length = 24 + e.name.length := by
  simp only [Dirent.bytes, qidBytes, strBytes, List.length_append, length_leBytes]
  omega

theorem decodes_qid (qid : P9Qid) : Decodes decQid (qidBytes qid) qid :=
  (decodes_8 qid.type).bind ((decodes_32 qid.version).bind ((decodes_64 qid.path).map _))

theorem decodes_dirent {e : Dirent} (h : e.name.length < 65536) : Decodes decDirent e.bytes e :=
  (decodes_qid e.qid).bind ((decodes_64 e.offset).bind ((decodes_8 e.type).bind ((decodes_str h).map _)))

theorem takes_dirent : Takes 24 decDirent := by
  have h8 : Takes 1 dec8 := (takes_nat 1).bind fun _ => takes_pure _
  have h32 : Takes 4 dec32 := (takes_nat 4).bind fun _ => takes_pure _
  have h64 : Takes 8 dec64 := (takes_nat 8).bind fun _ => takes_pure _
  have hqid : Takes 13 decQid := h8.bind fun _ => h32.bind fun _ => h64.bind fun _ => takes_pure _
  have hname : ∀ n, Takes 0 (decBytes n) := fun n bs a rest h => by
    have := takes_bytes n bs a rest h
    omega
  have hstr : Takes 2 decStr := (takes_nat 2).bind hname
  exact hqid.bind fun _ => h64.bind fun _ => h8.bind fun _ => hstr.bind fun _ => takes_pure _

/-- A block of whole entries. -/
theorem complete_flatMap : ∀ (es : List Dirent) {fuel : Nat}, es.length ≤ fuel → (∀ e ∈ es, e.name.length < 65536) →
    complete fuel (es.flatMap Dirent.bytes) = (es, [])
  | [], fuel, _, _ => by
    cases fuel with
    | zero => rfl
    | succ fuel => rfl
  | e :: es, 0, hfuel, _ => absurd hfuel (by simp)
  | e :: es, fuel + 1, hfuel, hnames => by
    have hlen : es.length ≤ fuel := by simpa using hfuel
    have ih := complete_flatMap es hlen fun e' he' => hnames e' (List.mem_cons_of_mem e he')
    unfold complete
    rw [List.flatMap_cons, decodes_dirent (hnames e (List.mem_cons_self ..)) _]
    simp only [ih]

/-! ## What the code gets from them -/

section Read

variable (m : Mem) (pos : Nat)

/-- The 24 bytes before a name, decoded. -/
theorem decDirent_read {n : Nat} (hn : 24 ≤ n) :
    ∃ e : Dirent, e.offset = UInt64.ofNat (leNat (m.read (pos + 13) 8)) ∧ decDirent (m.read pos n) =
      (decBytes (leNat (m.read (pos + 22) 2)) >>= fun name => pure { e with name := name })
      (m.read (pos + 24) (n - 24)) := by
  have h8 : ∀ pos, Decodes dec8 (m.read pos 1) (UInt8.ofNat (leNat (m.read pos 1))) :=
    fun pos => (decodes_raw (Mem.length_read ..)).map _
  have h32 : ∀ pos, Decodes dec32 (m.read pos 4) (UInt32.ofNat (leNat (m.read pos 4))) :=
    fun pos => (decodes_raw (Mem.length_read ..)).map _
  have h64 : ∀ pos, Decodes dec64 (m.read pos 8) (UInt64.ofNat (leNat (m.read pos 8))) :=
    fun pos => (decodes_raw (Mem.length_read ..)).map _
  have hqid : Decodes decQid (m.read pos 13)
      ⟨UInt8.ofNat (leNat (m.read pos 1)), UInt32.ofNat (leNat (m.read (pos + 1) 4)),
        UInt64.ofNat (leNat (m.read (pos + 5) 8))⟩ := by
    rw [show (13 : Nat) = 1 + (4 + 8) from rfl, Mem.read_add, Mem.read_add]
    exact (h8 pos).bind ((h32 (pos + 1)).bind ((h64 (pos + 5)).map _))
  obtain ⟨d, rfl⟩ := Nat.exists_eq_add_of_le hn
  refine ⟨⟨⟨UInt8.ofNat (leNat (m.read pos 1)), UInt32.ofNat (leNat (m.read (pos + 1) 4)),
    UInt64.ofNat (leNat (m.read (pos + 5) 8))⟩, UInt64.ofNat (leNat (m.read (pos + 13) 8)),
    UInt8.ofNat (leNat (m.read (pos + 21) 1)), []⟩, rfl, ?_⟩
  rw [show 24 + d = 13 + (8 + (1 + (2 + d))) by omega, Mem.read_add, Mem.read_add, Mem.read_add, Mem.read_add]
  unfold decDirent decStr
  rw [hqid.then, (h64 _).then, (h8 _).then, bind_assoc, (decodes_raw (Mem.length_read ..)).then]
  rw [show 13 + (8 + (1 + (2 + d))) - 24 = d by omega]

end Read

theorem direntry_eq (block : Block) (pos : Nat) :
    direntry block pos = ((UInt64.ofNat (leNat (block.data.read (pos + 13) 8)),
      (p9GetStr block.data block.actual.toNat 256 (pos + 22)).1),
      (p9GetStr block.data block.actual.toNat 256 (pos + 22)).2) := by
  have hfields : direntry block pos = (((p9GetU64 block.data (p9GetQid block.data pos).2).1,
      (p9GetStr block.data block.actual.toNat 256
        (p9GetU8 block.data (p9GetU64 block.data (p9GetQid block.data pos).2).2).2).1),
      (p9GetStr block.data block.actual.toNat 256
        (p9GetU8 block.data (p9GetU64 block.data (p9GetQid block.data pos).2).2).2).2) := rfl
  rw [hfields, reads_qid.next, getU64_eq, reads_u8.next]

/-- **What the code makes of the next entry**: if it is complete, its offset and its name, cut to the buffer; else an
empty name, and the place where the name should start. -/
theorem direntry_cases {block : Block} {pos : Nat} (h : pos + 24 ≤ block.actual.toNat) :
    (∃ e rest, decDirent (block.data.read pos (block.actual.toNat - pos)) = some (e, rest) ∧
      direntry block pos = ((e.offset, e.name.take 255), pos + 24 + e.name.length) ∧
      pos + 24 + e.name.length ≤ block.actual.toNat ∧
      rest = block.data.read (pos + 24 + e.name.length) (block.actual.toNat - (pos + 24 + e.name.length))) ∨
    (decDirent (block.data.read pos (block.actual.toNat - pos)) = none ∧
      ∃ o, direntry block pos = ((o, []), pos + 24)) := by
  obtain ⟨e, hoffset, hdec⟩ := decDirent_read block.data pos (show 24 ≤ block.actual.toNat - pos by omega)
  set len := leNat (block.data.read (pos + 22) 2) with hlen
  rw [hdec, direntry_eq, getStr_eq, if_neg (by omega), ← hlen]
  show (∃ e' rest, (decBytes len (block.data.read (pos + 24) (block.actual.toNat - pos - 24))).bind _ = _ ∧ _) ∨
    ((decBytes len (block.data.read (pos + 24) (block.actual.toNat - pos - 24))).bind _ = _ ∧ _)
  unfold decBytes
  rw [Mem.length_read]
  by_cases hfit : len ≤ block.actual.toNat - pos - 24
  · left
    refine ⟨{ e with name := block.data.read (pos + 24) len }, _, ?_, ?_, ?_, rfl⟩
    · rw [if_pos hfit, Mem.take_read _ _ hfit, Mem.drop_read _ _ hfit]
      simp only [Mem.length_read]
      rw [show block.actual.toNat - (pos + 24 + len) = block.actual.toNat - pos - 24 - len by omega]
      rfl
    · have hcut : min len ((256 : UInt32) - 1).toNat = min 255 len := min_comm _ _
      rw [if_neg (by omega), hoffset, hcut]
      simp only [Mem.length_read]
      refine Prod.ext (Prod.ext rfl ?_) rfl
      show block.data.read (pos + 24) (min 255 len) = (block.data.read (pos + 24) len).take 255
      rcases Nat.le_total len 255 with hle | hle
      · rw [min_eq_right hle, List.take_of_length_le (by rw [Mem.length_read]; exact hle)]
      · rw [min_eq_left hle, Mem.take_read _ _ hle]
    · simp only [Mem.length_read]
      omega
  · right
    refine ⟨by rw [if_neg hfit]; rfl, UInt64.ofNat (leNat (block.data.read (pos + 13) 8)), ?_⟩
    rw [if_pos (by omega)]

/-! ## Listing a block -/

/-- The entries that a filler gets when it was given `names` before: up to and including the one at which it asks to
stop. -/
def offered (filler : List Str → Bool) : List Str → List Dirent → List Dirent
  | _, [] => []
  | names, e :: es => if filler (names ++ [e.name]) then [e] else e :: offered filler (names ++ [e.name]) es

/-- The filler asks to stop at one of the entries. -/
def stops (filler : List Str → Bool) : List Str → List Dirent → Bool
  | _, [] => false
  | names, e :: es => filler (names ++ [e.name]) || stops filler (names ++ [e.name]) es

/-- The resume offset after some entries. -/
def resumeAt (dirOffset : UInt64) (es : List Dirent) : UInt64 := (es.getLast?.map Dirent.offset).getD dirOffset

/-- The entries from `pos` on that are all there, and the bytes after them. -/
def Block.partsFrom (block : Block) (fuel pos : Nat) : List Dirent × List UInt8 :=
  complete fuel (block.data.read pos (block.actual.toNat - pos))

/-- The entries of a block that are all there, and the bytes after them. -/
def Block.parts (block : Block) : List Dirent × List UInt8 := block.partsFrom block.actual.toNat 0

/-- `v9p_readdir` lists the complete entries of the block and nothing else. -/
structure ListsComplete (filler : List Str → Bool) (block : Block) (dirOffset : UInt64) (names : List Str) : Prop where
  /-- the filler gets the names of the complete entries, one by one -/
  calls : (readdirBlock filler block block.actual.toNat 0 dirOffset names).2.2 =
    names ++ (offered filler names block.parts.1).map Dirent.name
  /-- the listing is to go on after the last of these -/
  resume : (readdirBlock filler block block.actual.toNat 0 dirOffset names).2.1 =
    resumeAt dirOffset (offered filler names block.parts.1)
  /-- no byte from the end of the block on is looked at -/
  inside : ∀ data, Agree block.actual.toNat block.data data →
    readdirBlock filler ⟨data, block.actual⟩ block.actual.toNat 0 dirOffset names =
      readdirBlock filler block block.actual.toNat 0 dirOffset names

section Blocks

variable {filler : List Str → Bool} {block : Block}

theorem direntry_agree {data : Mem} (hagree : Agree block.actual.toNat block.data data) {pos : Nat}
    (h : pos + 24 ≤ block.actual.toNat) : direntry ⟨data, block.actual⟩ pos = direntry block pos := by
  rw [direntry_eq, direntry_eq, getStr_agree hagree, hagree.read (by omega)]

theorem readdirBlock_agree {data : Mem} (hagree : Agree block.actual.toNat block.data data) :
    ∀ (fuel pos : Nat) (o : UInt64) (names : List Str),
      readdirBlock filler ⟨data, block.actual⟩ fuel pos o names = readdirBlock filler block fuel pos o names := by
  intro fuel
  induction fuel with
  | zero => intro pos o names; rfl
  | succ fuel ih =>
    intro pos o names
    unfold readdirBlock
    by_cases h : pos < block.actual.toNat ∧ pos + 24 ≤ block.actual.toNat
    · simp only [h, and_self, if_true, direntry_agree hagree h.2, ih]
    · rw [if_neg h, if_neg h]

/-- The filler is called on top of the calls made before. -/
theorem prefix_readdirBlock : ∀ (fuel pos : Nat) (o : UInt64) (names : List Str),
    names <+: (readdirBlock filler block fuel pos o names).2.2 := by
  intro fuel
  induction fuel with
  | zero => intro pos o names; exact List.prefix_rfl
  | succ fuel ih =>
    intro pos o names
    unfold readdirBlock
    split
    · simp only []
      split
      · exact List.prefix_append _ _
      · exact (List.prefix_append _ _).trans (ih _ _ _)
    · exact List.prefix_rfl

/-- A round of the inner loop on an entry that is complete. -/
theorem readdirBlock_complete {fuel pos : Nat} {o : UInt64} {names : List Str} {e : Dirent}
    (h : pos + 24 ≤ block.actual.toNat)
    (hentry : direntry block pos = ((e.offset, e.name.take 255), pos + 24 + e.name.length))
    (hname : e.name.length ≤ 255) :
    readdirBlock filler block (fuel + 1) pos o names =
      if filler (names ++ [e.name.takeWhile (· ≠ 0)]) then (true, e.offset, names ++ [e.name.takeWhile (· ≠ 0)])
      else readdirBlock filler block fuel (pos + 24 + e.name.length) e.offset
        (names ++ [e.name.takeWhile (· ≠ 0)]) := by
  conv_lhs => unfold readdirBlock
  rw [if_pos ⟨by omega, h⟩, hentry]
  simp only [List.take_of_length_le hname]

/-- A round of the inner loop where no complete entry is left, but 24 bytes are. -/
theorem readdirBlock_cut (filler : List Str → Bool) (fuel : Nat) (o : UInt64) (names : List Str) {pos : Nat}
    {o' : UInt64} (h : pos + 24 ≤ block.actual.toNat) (hentry : direntry block pos = ((o', []), pos + 24)) :
    names ++ [[]] <+: (readdirBlock filler block (fuel + 1) pos o names).2.2 := by
  unfold readdirBlock
  rw [if_pos ⟨by omega, h⟩, hentry]
  by_cases hstop : filler (names ++ [[]]) = true
  · simp only [List.takeWhile_nil, hstop, if_true]
    exact List.prefix_rfl
  · simp only [List.takeWhile_nil, hstop, if_false, Bool.false_eq_true]
    exact prefix_readdirBlock _ _ _ _

theorem readdirBlock_end {fuel pos : Nat} {o : UInt64} {names : List Str} (h : ¬ pos + 24 ≤ block.actual.toNat) :
    readdirBlock filler block fuel pos o names = (false, o, names) := by
  cases fuel with
  | zero => rfl
  | succ fuel =>
    unfold readdirBlock
    rw [if_neg fun hc => h hc.2]

/-- **What stands at `pos`**, and how the inner loop sees it: too little for an entry, a complete entry, or one whose
name is cut off. -/
theorem parts_cases (block : Block) (fuel pos : Nat) :
    (¬ pos + 24 ≤ block.actual.toNat ∧ (block.partsFrom (fuel + 1) pos).1 = [] ∧
      (block.partsFrom (fuel + 1) pos).2.length < 24) ∨
    (∃ e : Dirent, pos + 24 + e.name.length ≤ block.actual.toNat ∧
      direntry block pos = ((e.offset, e.name.take 255), pos + 24 + e.name.length) ∧
      (block.partsFrom (fuel + 1) pos).1 = e :: (block.partsFrom fuel (pos + 24 + e.name.length)).1 ∧
      (block.partsFrom (fuel + 1) pos).2 = (block.partsFrom fuel (pos + 24 + e.name.length)).2) ∨
    (pos + 24 ≤ block.actual.toNat ∧ (∃ o, direntry block pos = ((o, []), pos + 24)) ∧
      (block.partsFrom (fuel + 1) pos).1 = [] ∧ ¬ (block.partsFrom (fuel + 1) pos).2.length < 24) := by
  have hnone : decDirent (block.data.read pos (block.actual.toNat - pos)) = none →
      block.partsFrom (fuel + 1) pos = ([], block.data.read pos (block.actual.toNat - pos)) := by
    intro hdec
    unfold Block.partsFrom complete
    rw [hdec]
  by_cases h : pos + 24 ≤ block.actual.toNat
  · rcases direntry_cases h with ⟨e, rest, hdec, hentry, hle, rfl⟩ | ⟨hdec, hentry⟩
    · refine .inr (.inl ⟨e, hle, hentry, ?_, ?_⟩)
      · unfold Block.partsFrom
        rw [complete, hdec]
      · unfold Block.partsFrom
        rw [complete, hdec]
    · refine .inr (.inr ⟨h, hentry, ?_, ?_⟩)
      · rw [hnone hdec]
      · rw [hnone hdec, Mem.length_read]
        omega
  · have hdec : decDirent (block.data.read pos (block.actual.toNat - pos)) = none := by
      cases hdec : decDirent (block.data.read pos (block.actual.toNat - pos)) with
      | none => rfl
      | some r =>
        have := takes_dirent _ r.1 r.2 hdec
        rw [Mem.length_read] at this
        omega
    refine .inl ⟨h, ?_, ?_⟩
    · rw [hnone hdec]
    · rw [hnone hdec, Mem.length_read]
      omega

theorem takeWhile_ne_zero {name : Str} : name.takeWhile (· ≠ 0) = name ↔ 0 ∉ name := by
  rw [List.takeWhile_eq_self_iff]
  constructor
  · intro h h0
    simpa using h 0 h0
  · intro h b hb
    have : b ≠ 0 := fun hb0 => h (hb0 ▸ hb)
    simpa using this

/-- Nothing gets in the way of listing the entries `es`, followed by the bytes `rest`. -/
def EndsWhole (filler : List Str → Bool) (names : List Str) (es : List Dirent) (rest : List UInt8) : Prop :=
  (∀ e ∈ offered filler names es, 0 ∉ e.name) ∧ (stops filler names es = true ∨ rest.length < 24)

theorem resumeAt_cons (o : UInt64) (e : Dirent) (es : List Dirent) : resumeAt o (e :: es) = resumeAt e.offset es := by
  unfold resumeAt
  cases es with
  | nil => rfl
  | cons e' es => rw [List.getLast?_cons_cons]; simp [List.getLast?_cons]

/-- The inner loop from `pos` on, when nothing gets in its way. -/
theorem readdirBlock_clean : ∀ (fuel pos : Nat) (o : UInt64) (names : List Str), block.actual.toNat - pos ≤ fuel →
    (∀ e ∈ (block.partsFrom fuel pos).1, e.name.length ≤ 255) →
    EndsWhole filler names (block.partsFrom fuel pos).1 (block.partsFrom fuel pos).2 →
    readdirBlock filler block fuel pos o names =
      (stops filler names (block.partsFrom fuel pos).1, resumeAt o (offered filler names (block.partsFrom fuel pos).1),
        names ++ (offered filler names (block.partsFrom fuel pos).1).map Dirent.name) := by
  intro fuel
  induction fuel with
  | zero =>
    intro pos o names _ _ _
    simp [readdirBlock, Block.partsFrom, complete, stops, offered, resumeAt]
  | succ fuel ih =>
    intro pos o names hfuel hnames hclean
    rcases parts_cases block fuel pos with ⟨h, hes, -⟩ | ⟨e, hle, hentry, hes, hrest⟩ | ⟨h, -, hes, hlong⟩
    · rw [readdirBlock_end h, hes]
      simp [stops, offered, resumeAt]
    · rw [hes] at hnames hclean ⊢
      rw [hrest] at hclean
      have hnul : e.name.takeWhile (· ≠ 0) = e.name := by
        refine takeWhile_ne_zero.mpr (hclean.1 e ?_)
        simp only [offered]
        split <;> exact List.mem_cons_self ..
      rw [readdirBlock_complete (by omega) hentry (hnames e (List.mem_cons_self ..)), hnul]
      by_cases hstop : filler (names ++ [e.name]) = true
      · simp [hstop, stops, offered, resumeAt]
      · simp only [EndsWhole, stops, offered, hstop, Bool.false_or, if_false, Bool.false_eq_true] at hclean
        rw [if_neg hstop, ih _ _ _ (by omega) (fun e' he' => hnames e' (List.mem_cons_of_mem e he'))
          ⟨fun e' he' => hclean.1 e' (List.mem_cons_of_mem e he'), hclean.2⟩]
        simp only [stops, offered, hstop, Bool.false_or, if_false, Bool.false_eq_true, resumeAt_cons, List.map_cons,
          List.append_assoc, List.singleton_append]
    · rw [hes] at hclean
      rcases hclean.2 with hstop | hlt
      · cases hstop
      · exact absurd hlt hlong

/-- The inner loop lists the complete entries only if nothing gets in its way. -/
theorem clean_of_calls : ∀ (fuel pos : Nat) (o : UInt64) (names : List Str), block.actual.toNat - pos ≤ fuel →
    (∀ e ∈ (block.partsFrom fuel pos).1, e.name.length ≤ 255) →
    (readdirBlock filler block fuel pos o names).2.2 =
      names ++ (offered filler names (block.partsFrom fuel pos).1).map Dirent.name →
    EndsWhole filler names (block.partsFrom fuel pos).1 (block.partsFrom fuel pos).2 := by
  intro fuel
  induction fuel with
  | zero =>
    intro pos o names hfuel _ _
    refine ⟨by simp [Block.partsFrom, complete, offered], .inr ?_⟩
    rw [Block.partsFrom, complete, Mem.length_read]
    omega
  | succ fuel ih =>
    intro pos o names hfuel hnames heq
    rcases parts_cases block fuel pos with ⟨h, hes, hshort⟩ | ⟨e, hle, hentry, hes, hrest⟩ | ⟨h, ⟨o', hentry⟩, hes, -⟩
    · rw [hes]
      exact ⟨by simp [offered], .inr hshort⟩
    · rw [hes] at hnames heq ⊢
      rw [hrest]
      rw [readdirBlock_complete (by omega) hentry (hnames e (List.mem_cons_self ..))] at heq
      -- the first name that was passed is the first that should have been
      have hnul : e.name.takeWhile (· ≠ 0) = e.name := by
        have hpre : names ++ [e.name.takeWhile (· ≠ 0)] <+:
            names ++
              (offered filler names (e :: (block.partsFrom fuel (pos + 24 + e.name.length)).1)).map Dirent.name := by
          rw [← heq]
          split
          · exact List.prefix_rfl
          · exact prefix_readdirBlock _ _ _ _
        have hhead := (List.prefix_append_right_inj names).mp hpre
        simp only [offered] at hhead
        split at hhead
        · simpa using hhead
        · rw [List.map_cons, List.cons_prefix_cons] at hhead
          exact hhead.1
      rw [hnul] at heq
      have hmem := takeWhile_ne_zero.mp hnul
      by_cases hstop : filler (names ++ [e.name]) = true
      · refine ⟨?_, .inl (by simp [stops, hstop])⟩
        simpa [offered, hstop] using hmem
      · rw [if_neg hstop] at heq
        have hclean := ih _ _ _ (by omega) (fun e' he' => hnames e' (List.mem_cons_of_mem e he')) (by
          rw [heq]
          simp only [offered, hstop, Bool.false_eq_true, if_false, List.map_cons, List.append_assoc,
            List.singleton_append])
        refine ⟨?_, ?_⟩
        · simp only [offered, hstop, Bool.false_eq_true, if_false, List.mem_cons, forall_eq_or_imp]
          exact ⟨hmem, hclean.1⟩
        · simpa [stops, hstop] using hclean.2
    · -- the filler is called once more, with an empty name
      rw [hes] at heq
      have hlen := (readdirBlock_cut filler fuel o names h hentry).length_le
      rw [heq] at hlen
      simp [offered] at hlen

end Blocks

/-- **`v9p_readdir` lists exactly the complete entries of a block** when it gets to stop before, or when fewer than 24
bytes follow them. The names that it passes on are C strings, so they must have no `NUL`. -/
theorem complete_only_iff (filler : List Str → Bool) {block : Block} (dirOffset : UInt64) (names : List Str)
    (hnames : ∀ e ∈ block.parts.1, e.name.length ≤ 255) :
    ListsComplete filler block dirOffset names ↔
      (∀ e ∈ offered filler names block.parts.1, 0 ∉ e.name) ∧
        (stops filler names block.parts.1 = true ∨ block.parts.2.length < 24) := by
  constructor
  · exact fun h => clean_of_calls block.actual.toNat 0 dirOffset names (by omega) hnames h.calls
  · intro h
    have hblock := readdirBlock_clean block.actual.toNat 0 dirOffset names (by omega) hnames h
    exact ⟨congrArg (fun r => r.2.2) hblock, congrArg (fun r => r.2.1) hblock,
      fun data hagree => readdirBlock_agree hagree _ _ _ _⟩

/-- One entry with the name `a`, and three bytes of another. -/
def oneBlock : Block := ⟨fun i => if i = 13 then 9 else if i = 22 then 1 else if i = 24 then 97 else 0, 28⟩

theorem complete_only_one : ListsComplete (fun _ => false) oneBlock 0 [] :=
  (complete_only_iff (fun _ => false) 0 [] (by decide)).mpr ⟨by decide, .inr (by decide)⟩

/-- An entry whose name of five bytes is not there. -/
def cutBlock : Block := ⟨fun i => if i = 13 then 7 else if i = 22 then 5 else 0, 24⟩

/-- The entry that is cut off is listed, with an empty name, and the listing is to go on after it. -/
theorem cut_entry_listed : cutBlock.parts.1 = [] ∧
    readdirBlock (fun _ => false) cutBlock cutBlock.actual.toNat 0 3 [] = (false, 7, [[]]) ∧
    ¬ ListsComplete (fun _ => false) cutBlock 3 [] := by
  refine ⟨by decide, by decide, fun h => ?_⟩
  exact absurd h.calls (by decide)

end Virtio9P
