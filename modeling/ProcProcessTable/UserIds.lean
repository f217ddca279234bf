import ProcProcessTable.FlagSoundness
import ProcProcessTable.PublishedNumbers
import ProcProcessTable.TableObjects

/-!
# User and group ids

The system answers with ids of 32 bits without a sign.  The record keeps them as
`int`, and `bless_into_proc` reads them as `int`.

`DirEntry.id` is the id the system gave for a field, by the owner of the directory
or by the last line of its kind that was looked at in the status file;
`id_published_iff` says when the object holds that number.
-/

namespace Linux

open CText Scanf MemPool Xs

/-- The members that a `Uid:` or `Gid:` line sets: the kind of the line, the place of
the number in it, and the member. -/
def Field.statusId : Field → Option (LineKind × Nat × (Scraped → Int32))
  | .euid => some (.uid, 1, Scraped.euid)
  | .suid => some (.uid, 2, Scraped.suid)
  | .fuid => some (.uid, 3, Scraped.fuid)
  | .egid => some (.gid, 1, Scraped.egid)
  | .sgid => some (.gid, 2, Scraped.sgid)
  | .fgid => some (.gid, 3, Scraped.fgid)
  | _ => none

/-- A number of a line. -/
def numberAt (kind : LineKind) (i : Nat) (line : List Char) : Option Int :=
  match (kind.scanLine line)[i]? with
  | some (.num v) => some v
  | _ => none

/-- The last of some lines that is of the kind. -/
def lastOfKind (kind : LineKind) (lines : List (List Char)) : Option (List Char) :=
  (lines.filter fun l => decide (LineKind.ofLine? l = some kind)).getLast?

/-- **The id the system gave** for a field of an entry. -/
def DirEntry.id (e : DirEntry) : Field → Option Int
  | .uid => e.owner.map fun ids => (ids.1.toNat : Int)
  | .gid => e.owner.map fun ids => (ids.2.toNat : Int)
  | f => f.statusId.bind fun s =>
      (e.file .status "status").bind fun text =>
        (lastOfKind s.1 (visitedLines text)).bind (numberAt s.1 s.2.1)

/-- No pointer of the list writes to the member. -/
def Keeps (member : Scraped → Int32) (targets : List (Target Scraped)) : Prop :=
  ∀ t ∈ targets, ∀ v prs, member (t v prs) = member prs

theorem keeps_nil (member : Scraped → Int32) : Keeps member [] :=
  fun _ ht => absurd ht List.not_mem_nil

theorem keeps_dummy {member : Scraped → Int32} {targets : List (Target Scraped)}
    (h : Keeps member targets) : Keeps member (Target.dummy :: targets) :=
  List.forall_mem_cons.mpr ⟨fun _ _ => rfl, h⟩

theorem keeps_int {member : Scraped → Int32} {targets : List (Target Scraped)}
    {store : Int → Scraped → Scraped} (hstore : ∀ v prs, member (store v prs) = member prs)
    (h : Keeps member targets) : Keeps member (Target.int store :: targets) := by
  intro t ht v prs
  rcases List.mem_cons.mp ht with rfl | hrest
  · cases v with
    | chr c => rfl
    | num v => exact hstore v prs
  · exact h t hrest v prs

/-- The store into the member of a field. -/
def Field.storeId (f : Field) (v : Int) (p : Scraped) : Scraped :=
  match f with
  | .euid => { p with euid := Int32.ofInt v }
  | .suid => { p with suid := Int32.ofInt v }
  | .fuid => { p with fuid := Int32.ofInt v }
  | .egid => { p with egid := Int32.ofInt v }
  | .sgid => { p with sgid := Int32.ofInt v }
  | .fgid => { p with fgid := Int32.ofInt v }
  | _ => p

/-- The pointer to a member in the list of its kind, which no other pointer of the
three lists writes to. -/
theorem statusId_targets {f : Field} {kind : LineKind} {i : Nat} {member : Scraped → Int32}
    (hf : f.statusId = some (kind, i, member)) :
    (kind.targets = kind.targets.take i ++ Target.int f.storeId :: kind.targets.drop (i + 1) ∧
      (kind.targets.take i).length = i ∧ (∀ v prs, member (f.storeId v prs) = Int32.ofInt v) ∧
      Keeps member (kind.targets.take i) ∧ Keeps member (kind.targets.drop (i + 1))) ∧
    ∀ kind', kind' ≠ kind → Keeps member kind'.targets := by
  have hother : ∀ {p : LineKind → Prop}, p .uid → p .gid → p .tracer → ∀ kind', p kind' := by
    intro p hu hg ht kind'
    cases kind' with
    | uid => exact hu
    | gid => exact hg
    | tracer => exact ht
  cases f <;> cases hf
  all_goals
    refine ⟨⟨rfl, rfl, fun _ _ => rfl, ?_, ?_⟩, hother (fun hne => ?_) (fun hne => ?_) fun hne => ?_⟩
  all_goals
    repeat first
      | exact absurd rfl hne
      | exact keeps_nil _
      | refine keeps_dummy ?_
      | refine keeps_int (fun _ _ => rfl) ?_

section

variable {f : Field} {kind : LineKind} {i : Nat} {member : Scraped → Int32}
  (hf : f.statusId = some (kind, i, member))

include hf

/-- A line of another kind leaves the member alone. -/
theorem storeLine_other {line : List Char} (hline : LineKind.ofLine? line ≠ some kind)
    (prs : Scraped) : member (storeLine line prs) = member prs := by
  unfold storeLine
  cases hkind : LineKind.ofLine? line with
  | none => rfl
  | some kind' =>
      have hne : kind' ≠ kind := fun heq => hline (heq ▸ hkind)
      exact assign_inv member ((statusId_targets hf).2 kind' hne) _ prs

/-- A line of its kind sets the member to its number. -/
theorem storeLine_own {line : List Char} (hline : LineKind.ofLine? line = some kind) {v : Int}
    (hv : numberAt kind i line = some v) (prs : Scraped) :
    member (storeLine line prs) = Int32.ofInt v := by
  have hat : (kind.scanLine line)[i]? = some (.num v) := by
    unfold numberAt at hv
    split at hv
    · next w hw => rw [hw, Option.some.inj hv]
    · cases hv
  obtain ⟨⟨htargets, hlen, hstore, hbefore, hafter⟩, -⟩ := statusId_targets hf
  have hassign := assign_int_at member hstore hbefore hafter (kind.scanLine line) prs
  rw [← htargets, hlen, hat] at hassign
  unfold storeLine
  rw [hline]
  exact hassign

/-- **The last line of its kind** sets the member for good. -/
theorem foldl_storeLine_id {lines : List (List Char)} {line : List Char}
    (hlast : lastOfKind kind lines = some line) {v : Int} (hv : numberAt kind i line = some v)
    (prs : Scraped) : member (lines.foldl (fun p l => storeLine l p) prs) = Int32.ofInt v := by
  induction lines using List.reverseRecOn with
  | nil => cases hlast
  | append_singleton lines l ih =>
      unfold lastOfKind at hlast
      rw [List.filter_append] at hlast
      rw [List.foldl_append, List.foldl_cons, List.foldl_nil]
      by_cases hkind : LineKind.ofLine? l = some kind
      · have hone : [l].filter (fun l => decide (LineKind.ofLine? l = some kind)) = [l] :=
          List.filter_cons_of_pos (p := fun l => decide (LineKind.ofLine? l = some kind))
            (decide_eq_true hkind)
        rw [hone, List.getLast?_concat] at hlast
        rw [← Option.some.inj hlast] at hv
        exact storeLine_own hf hkind hv _
      · have hnone : [l].filter (fun l => decide (LineKind.ofLine? l = some kind)) = [] :=
          List.filter_cons_of_neg (p := fun l => decide (LineKind.ofLine? l = some kind))
            (by simpa using hkind)
        rw [hnone, List.append_nil] at hlast
        rw [storeLine_other hf hkind]
        exact ih hlast

end

/-- An id keeps its 32 bits in an `int`. -/
theorem toInt32_eq_ofInt (n : UInt32) : n.toInt32 = Int32.ofInt (n.toNat : Int) := by
  apply Int32.toBitVec_inj.mp
  rw [UInt32.toBitVec_toInt32, Int32.toBitVec_ofInt, BitVec.ofInt_natCast]
  exact n.toBitVec.setWidth_eq.symm.trans (BitVec.ofNat_toNat 32 n.toBitVec).symm

/-- It is the same number there exactly when the sign bit is clear. -/
theorem toInt_toInt32_iff (n : UInt32) : n.toInt32.toInt = (n.toNat : Int) ↔ n.toNat < 2 ^ 31 := by
  have hsize : ((Int32.size : Nat) : Int) = 2 ^ 32 := rfl
  have hlt := n.toNat_lt
  rw [toInt32_eq_ofInt, Int32.toInt_ofInt, Int.bmod_def, hsize]
  split <;> omega

section

variable {port : Port} {e : DirEntry} {r : Row} (h : Row.scrape port e = .ready r)

include h

/-- The owner in the record is the one of the process's directory. -/
theorem ready_owner {ids : UInt32 × UInt32} (hids : e.owner = some ids) :
    r.prs.uid = ids.1.toInt32 ∧ r.prs.gid = ids.2.toInt32 := by
  have hinfo : (Row.init.userInfo (e.world .userInfo) e.dName).prs.uid = ids.1.toInt32 ∧
      (Row.init.userInfo (e.world .userInfo) e.dName).prs.gid = ids.2.toInt32 := by
    have hstat : (e.world .userInfo).stat (pidPath e.dName none) = some ids := hids
    unfold Row.userInfo
    rw [hstat]
    exact ⟨rfl, rfl⟩
  have hstat : (Row.upToStat e).2.prs.uid = ids.1.toInt32 ∧
      (Row.upToStat e).2.prs.gid = ids.2.toInt32 := by
    unfold Row.upToStat Row.procStat
    cases Row.file (e.world .procStat) e.dName "stat".toList with
    | none => exact hinfo
    | some text =>
        have hkept := scanStat_owner (text ++ [nul])
          (Row.init.userInfo (e.world .userInfo) e.dName).prs.toScraped
        have huid := congrArg Prod.fst hkept
        have hgid := congrArg Prod.snd hkept
        exact ⟨huid.trans hinfo.1, hgid.trans hinfo.2⟩
  have hfixup : ((Row.upToStat e).2.fixup port).prs.uid = (Row.upToStat e).2.prs.uid ∧
      ((Row.upToStat e).2.fixup port).prs.gid = (Row.upToStat e).2.prs.gid := by
    unfold Row.fixup fixupStatValues
    cases stateOf (Row.upToStat e).2.prs.stateC <;> exact ⟨rfl, rfl⟩
  have hlast := (Row.ready_prs h).2
  exact ⟨(congrArg Scraped.uid hlast).trans (hfixup.1.trans hstat.1),
    (congrArg Scraped.gid hlast).trans (hfixup.2.trans hstat.2)⟩

/-- A member of the status file is the number of the last line of its kind. -/
theorem ready_statusId {f : Field} {kind : LineKind} {i : Nat} {member : Scraped → Int32}
    (hf : f.statusId = some (kind, i, member)) {text : List Char}
    (htext : e.file .status "status" = some text) {line : List Char}
    (hline : lastOfKind kind (visitedLines text) = some line) {v : Int}
    (hv : numberAt kind i line = some v) : member r.prs.toScraped = Int32.ofInt v := by
  obtain ⟨_, _, r', hstatus, hpercent⟩ := Row.scrape_eq_ready h
  have hfile : Row.file (e.world .status) e.dName "status".toList = some text := htext
  have hkept : ∀ p cpu mem, member { p with pctcpu := cpu, pctmem := mem } = member p := by
    intro p cpu mem
    cases f <;> cases hf <;> rfl
  have hstored := (Row.status_scraped (Row.links_formatStr port e) (Row.links_fresh e) hstatus).2
  rw [hfile, Option.elim_some] at hstored
  rw [(Row.percentages_member member hkept hpercent).2, hstored]
  exact foldl_storeLine_id hf hline hv _

/-- **The argument for an id**: its field is enabled, and the member holds the id's
32 bits. -/
theorem ready_id {f : Field} {n : UInt32} (hid : e.id f = some (n.toNat : Int)) :
    e.enabledFields port f = true ∧ f.char true = 'i' ∧
      fieldSlots e.upper (fun t => t ++ [nul]) r.prs f = [argInt e.upper f n.toInt32] := by
  have howner : ∀ g : UInt32 × UInt32 → UInt32,
      e.owner.map (fun ids => ((g ids).toNat : Int)) = some (n.toNat : Int) →
        ∃ ids, e.owner = some ids ∧ g ids = n := by
    intro g hmap
    obtain ⟨ids, hids, hn⟩ := Option.map_eq_some_iff.mp hmap
    exact ⟨ids, hids, UInt32.toNat_inj.mp (Int.ofNat_inj.mp hn)⟩
  have hstatus : ∀ {kind : LineKind} {i : Nat} {member : Scraped → Int32},
      f.statusId = some (kind, i, member) → kind.fields f = true →
      e.id f = (e.file .status "status").bind (fun text =>
        (lastOfKind kind (visitedLines text)).bind (numberAt kind i)) →
      e.enabledFields port f = true ∧ member r.prs.toScraped = n.toInt32 := by
    intro kind i member hf hfields hsome
    rw [hid] at hsome
    obtain ⟨text, htext, hbind⟩ := Option.bind_eq_some_iff.mp hsome.symm
    obtain ⟨line, hline, hv⟩ := Option.bind_eq_some_iff.mp hbind
    have hmem := List.mem_filter.mp (List.mem_of_getLast? hline)
    refine ⟨(enabledFields_status port e hfields).mpr
      ⟨text, htext, line, hmem.1, of_decide_eq_true hmem.2⟩, ?_⟩
    rw [ready_statusId h hf htext hline hv, toInt32_eq_ofInt]
  rw [Field.char, Field.spec, defaultFormat_eq]
  cases f
  case uid =>
    obtain ⟨ids, hids, hn⟩ := howner Prod.fst hid
    refine ⟨?_, rfl, ?_⟩
    · rw [enabledFields_owner port e (Or.inl rfl), hids]
      rfl
    · rw [fieldSlots, (ready_owner h hids).1, hn]
  case gid =>
    obtain ⟨ids, hids, hn⟩ := howner Prod.snd hid
    refine ⟨?_, rfl, ?_⟩
    · rw [enabledFields_owner port e (Or.inr rfl), hids]
      rfl
    · rw [fieldSlots, (ready_owner h hids).2, hn]
  case euid | suid | fuid | egid | sgid | fgid =>
    obtain ⟨hen, hmember⟩ := hstatus rfl rfl rfl
    refine ⟨hen, rfl, ?_⟩
    rw [fieldSlots]
    exact congrArg (fun x => [argInt e.upper _ x]) hmember
  all_goals cases hid

end

/-- **The id in the object**: `bless_into_proc` reads the id's 32 bits as an `int`, so
the object holds the number exactly when it is below `2 ^ 31`. -/
theorem id_published_iff {port : Port} {res : Residue (Procstat Nat)} {xs : Interp}
    {pre : List DirEntry} {e : DirEntry} {obj : HV} (hobj : obj ∈ addedBy port res xs pre e)
    {f : Field} {n : UInt32} (hid : e.id f = some (n.toNat : Int)) :
    obj f.name = some (.iv n.toInt32.toInt) ∧
      ((obj f.name).bind SV.number = some (n.toNat : Int) ↔ n.toNat < 2 ^ 31) := by
  obtain ⟨_, r, value, hrow, hvalue, rfl⟩ :=
    Row.of_mem_added ((mem_addedBy port res xs pre e).mp hobj).2
  obtain ⟨hen, hchar, hslots⟩ := ready_id hrow hid
  obtain ⟨w, hw, hint⟩ := toInt_argInt e.upper f n.toInt32
  have hv := hvalue f
  rw [hen, hchar, hslots, hw] at hv
  have hval : (value f).1 = .iv n.toInt32.toInt := by
    rw [← Except.ok.inj hv, ← hint]
  rw [objectOf_name, hval]
  refine ⟨rfl, ?_⟩
  rw [Option.bind_some, SV.number, Option.some.injEq, toInt_toInt32_iff]

/-- A process with an owner, whose files cannot be opened. -/
def ownedEntry (stUid stGid : UInt32) : DirEntry where
  dName := ['4', '2']
  world := fun _ => ⟨fun _ => some (stUid, stGid), fun _ => true, fun _ => none, fun _ => none, 0⟩
  upper := unreadableEntry.upper
  dName_nulFree := unreadableEntry.dName_nulFree
  dName_length := unreadableEntry.dName_length

theorem addedBy_owned (stUid stGid : UInt32) :
    ∃ obj, obj ∈ addedBy samplePort clearedMemory ⟨none, none, []⟩ [] (ownedEntry stUid stGid) := by
  have hpub : (ownedEntry stUid stGid).Publishes samplePort := by
    have hnone : ArrayFits none := fun _ h => by cases h
    have hpid : isPid ['4', '2'] = true := by decide
    refine ⟨hpid, ?_, ?_, ?_, hnone, hnone⟩
    · exact fun h => Bool.noConfusion h.2
    · exact fun text h => by cases h
    · exact fun h => absurd rfl h
  obtain ⟨r, value, _, _, hadded⟩ := @addedBy_of_publishes samplePort clearedMemory
    ⟨none, none, []⟩ [] (ownedEntry stUid stGid) rfl hpub
  exact ⟨_, by rw [hadded]; exact List.mem_singleton.mpr rfl⟩

/-- The ids of an ordinary owner. -/
theorem id_published_iff_owned :
    ∃ obj ∈ addedBy samplePort clearedMemory ⟨none, none, []⟩ [] (ownedEntry 1000 100),
      obj Field.uid.name = some (.iv (1000 : UInt32).toInt32.toInt) ∧
        ((obj Field.uid.name).bind SV.number = some ((1000 : UInt32).toNat : Int) ↔
          (1000 : UInt32).toNat < 2 ^ 31) := by
  obtain ⟨obj, hobj⟩ := addedBy_owned 1000 100
  exact ⟨obj, hobj, id_published_iff hobj rfl⟩

/-- **A negative user id**: the owner 4294967294 is published as -2. -/
theorem owner_negative :
    ∃ obj ∈ addedBy samplePort clearedMemory ⟨none, none, []⟩ [] (ownedEntry 4294967294 100),
      (ownedEntry 4294967294 100).id .uid = some 4294967294 ∧
        obj Field.uid.name = some (.iv (-2)) ∧
        (obj Field.uid.name).bind SV.number ≠ some 4294967294 := by
  obtain ⟨obj, hobj⟩ := addedBy_owned 4294967294 100
  obtain ⟨_, r, value, hrow, hvalue, rfl⟩ :=
    Row.of_mem_added ((mem_addedBy samplePort clearedMemory ⟨none, none, []⟩ [] _).mp hobj).2
  have huid : objectOf samplePort none (ownedEntry 4294967294 100) r value Field.uid.name =
      some (.iv (-2)) := by
    obtain ⟨hen, hchar, hslots⟩ := @ready_id samplePort (ownedEntry 4294967294 100) r hrow .uid
      4294967294 rfl
    have hv := hvalue .uid
    rw [hen, hchar, hslots] at hv
    rw [objectOf_name, ← Except.ok.inj hv]
    rfl
  refine ⟨_, hobj, rfl, huid, ?_⟩
  rw [show (⟨none, none, []⟩ : Interp).ttydevs = none from rfl, huid]
  decide

end Linux
