import ProcProcessTable.CallRows
import ProcProcessTable.ScanLoop

/-!
# The pages of the process table on DEC OSF

`OS_get_table` of `DecOSF.c` goes over the slots of the process table.  It fetches 64 of
them at a time into an array and looks at the entry at the slot number modulo 64.  The
page counts as fetched before the fetch is known to have worked: when it fails the turn
is passed over, but the 63 turns behind it look at what the array held before.

The buffer of one page stands in front: a fetch stores the entries it got at its front, or
fails and stores nothing.  `held` is what the buffer holds when some pages have been asked
for; an entry that was got is there (`held_got`), and where none was got is what was there
before.

`from_own_slot_iff` says in which scans every object comes from its own slot.
-/

namespace PageBuffer

variable {α : Type*} {size : Nat}

/-- Store the entries of a page. -/
def fill (page : List α) (buffer : Fin size → α) (i : Fin size) : α := page[i]?.getD (buffer i)

/-- What the buffer holds when so many pages have been asked for. -/
def held (fetch : Nat → Option (List α)) (residue : Fin size → α) : Nat → Fin size → α
  | 0 => residue
  | pages + 1 =>
      match fetch pages with
      | some page => fill page (held fetch residue pages)
      | none => held fetch residue pages

/-- The entry that a fetch got for a place in a page. -/
def got (fetch : Nat → Option (List α)) (page : Nat) (i : Fin size) : Option α :=
  (fetch page).bind fun entries => entries[i]?

variable {fetch : Nat → Option (List α)} {residue : Fin size → α} {page : Nat} {i : Fin size}

/-- **An entry that was got is in the buffer.** -/
theorem held_got {a : α} (h : got fetch page i = some a) : held fetch residue (page + 1) i = a := by
  obtain ⟨entries, hfetch, hentry⟩ := Option.bind_eq_some_iff.mp h
  rw [held, hfetch]
  dsimp only
  rw [fill, hentry, Option.getD_some]

end PageBuffer

namespace DecOsf

open CText Xs ProcessTable

def PROCCNT : Nat := 64

def Format : List Char := "iiiiiiViiiilllllllssss".toList

def Fields : List String :=
  ["uid", "gid", "euid", "egid", "suid", "sgid", "groups", "pid", "ppid", "pgrp", "sess",
    "priority", "ttynum", "flags", "time", "size", "rss", "start", "fname", "pctcpu", "state",
    "cmndline"]

/-- The members of `struct tbl_procinfo` that are read. -/
structure TblProcinfo where
  piStatus : Int32
  piPid : Int32

/-- The values of `pr_state`. -/
inductive PrState
  | SSLEEP | SWAIT | SRUN | SZOMB | SSTOP | SIDL
  | other (state : Int8)

/-- The members of `struct prpsinfo` that are read. -/
structure Prpsinfo where
  prState : PrState
  prUid : Int32
  prGid : Int32
  prPid : Int32
  prPpid : Int32
  prPgrp : Int32
  prSid : Int32
  prPri : Int64
  prTtydev : Int32
  prFlag : UInt64
  prTime : Int64
  prSize : UInt64
  prRssize : UInt64
  prStart : Int64
  prFname : Mem
  prPsargs : Mem

/-- The members of `struct prcred` that are read. -/
structure Prcred where
  prEuid : Int32
  prEgid : Int32
  prSuid : Int32
  prSgid : Int32
  prNgroups : Int32

/-- What the system answers about a process: `none` where an `ioctl` fails. -/
structure Answers where
  opens : Bool
  psinfo : Option Prpsinfo
  cred : Option Prcred
  malloc : Bool
  groups : Option (Nat → UInt32)
  now : Int64

/-- What holds for a whole scan: the answers about each process in each turn, the pages
of the process table, and what the port makes of a list of groups and of a percentage
in Perl and in text.  The upper halves of the 4-byte arguments are given by the place of
the argument in the call. -/
structure System where
  PI_EMPTY : Int32
  getpagesize : Int32
  fetch : Nat → Option (List TblProcinfo)
  answers : Nat → Int32 → Answers
  groupRef : List UInt32 → SV
  printPct : Int64 → List Char
  upper : Nat → UInt32

/-- The variables of `OS_get_table` that outlive a turn of the loop, and the number of
descriptors that are open. -/
structure Locals where
  procbase : Int
  pstbl : Fin PROCCNT → TblProcinfo
  state : Mem
  descriptors : Nat

/-- The `switch` over the state: a state that is not in it leaves the text. -/
def PrState.text (state : Mem) : PrState → Mem
  | .SSLEEP => strcpy state "sleep".toList
  | .SWAIT => strcpy state "wait".toList
  | .SRUN => strcpy state "run".toList
  | .SZOMB => strcpy state "defunct".toList
  | .SSTOP => strcpy state "stop".toList
  | .SIDL => strcpy state "idle".toList
  | .other _ => state

/-- The percentage of the time since the start. -/
def pctcpu (sys : System) (now : Int64) (ps : Prpsinfo) : List Char :=
  let prAge := now - ps.prStart
  if prAge < 1 then sys.printPct 0 else sys.printPct (ps.prTime * 100 / prAge)

def sizeofPctcpu : Nat := 7

/-- The groups of a process. -/
def groups (cred : Prcred) (psgroups : Nat → UInt32) : List UInt32 :=
  (List.range cred.prNgroups.toInt.toNat).map psgroups

/-- The arguments behind `Format` and `Fields`. -/
def args (sys : System) (ps : Prpsinfo) (cred : Prcred) (psgroups : Nat → UInt32)
    (pctcpu state : Mem) : List Slot :=
  let pagesize := sys.getpagesize.toInt64.toUInt64
  [half (sys.upper 0) ps.prUid.toUInt32,
    half (sys.upper 1) ps.prGid.toUInt32,
    half (sys.upper 2) cred.prEuid.toUInt32,
    half (sys.upper 3) cred.prEgid.toUInt32,
    half (sys.upper 4) cred.prSuid.toUInt32,
    half (sys.upper 5) cred.prSgid.toUInt32,
    .sv (sys.groupRef (groups cred psgroups)),
    half (sys.upper 7) ps.prPid.toUInt32,
    half (sys.upper 8) ps.prPpid.toUInt32,
    half (sys.upper 9) ps.prPgrp.toUInt32,
    half (sys.upper 10) ps.prSid.toUInt32,
    .word ps.prPri.toUInt64,
    half (sys.upper 12) ps.prTtydev.toUInt32,
    .word ps.prFlag,
    .word ps.prTime.toUInt64,
    .word (ps.prSize * pagesize),
    .word (ps.prRssize * pagesize),
    .word ps.prStart.toUInt64,
    .ptr (some ps.prFname),
    .ptr (some pctcpu),
    .ptr (some state),
    .ptr (some ps.prPsargs)]

/-- The turn behind the fetch, with the entry of the array.  A turn that goes on at a
failed `ioctl` or `malloc` leaves the descriptor open. -/
def publish (sys : System) (s : Locals) (procnum : Nat) (entry : TblProcinfo) :
    Locals × Except Fault (Option BlessCall) :=
  if entry.piStatus = sys.PI_EMPTY then (s, .ok none)
  else
    let a := sys.answers procnum entry.piPid
    if a.opens = false then (s, .ok none)
    else
      let leaked := { s with descriptors := s.descriptors + 1 }
      match a.psinfo, a.cred, a.malloc, a.groups with
      | some ps, some cred, true, some psgroups =>
          let state := ps.prState.text s.state
          let pctcpu := pctcpu sys a.now ps
          if sizeofPctcpu ≤ pctcpu.length then (s, .error .overflow)
          else
            ({ s with state := state },
              .ok (some ⟨Format, Fields, args sys ps cred psgroups (pctcpu ++ [nul]) state⟩))
      | _, _, _, _ => (leaked, .ok none)

/-- The place of a slot in its page. -/
def place (procnum : Nat) : Fin PROCCNT := ⟨procnum % PROCCNT, Nat.mod_lt _ (by decide)⟩

/-- One turn of the loop. -/
def visit (sys : System) (s : Locals) (procnum : Nat) : Locals × Except Fault (Option BlessCall) :=
  if s.procbase < 0 ∨ s.procbase + PROCCNT ≤ procnum then
    let s := { s with procbase := procnum }
    match sys.fetch procnum with
    | none => (s, .ok none)
    | some page =>
        let s := { s with pstbl := PageBuffer.fill page s.pstbl }
        publish sys s procnum (s.pstbl (place procnum))
  else publish sys s procnum (s.pstbl (place procnum))

/-- `OS_get_table`, with the number of slots if it can be had, from what its array and the
text of the state hold on entry. -/
def osGetTable (sys : System) (maxproc : Option Nat) (residue : Locals) : Scan :=
  match maxproc with
  | none => ⟨[], none⟩
  | some maxproc => loopScan (visit sys) { residue with procbase := -1 } (List.range maxproc)

/-! ### The entry a turn looks at -/

section

variable (sys : System) (residue : Fin PROCCNT → TblProcinfo)

/-- The pages, by number. -/
def System.page (n : Nat) : Option (List TblProcinfo) := sys.fetch (n * PROCCNT)

/-- The entry of a slot, when its page was fetched. -/
def System.slot (procnum : Nat) : Option TblProcinfo :=
  PageBuffer.got sys.page (procnum / PROCCNT) (place procnum)

/-- The entry that the array holds at the place of a slot when its page has been asked
for: the slot's own, or else what an earlier page left there, or what was there on entry. -/
def System.entryAt (procnum : Nat) : TblProcinfo :=
  PageBuffer.held sys.page residue (procnum / PROCCNT + 1) (place procnum)

/-- The turn in which the fetch of a page fails. -/
def System.PassedOver (procnum : Nat) : Prop :=
  procnum % PROCCNT = 0 ∧ sys.page (procnum / PROCCNT) = none

/-- The first slot of the page that was asked for last. -/
def lastBase : Nat → Int
  | 0 => -1
  | procnum + 1 => ((procnum / PROCCNT * PROCCNT : Nat) : Int)

/-- What the variables hold before the turn of a slot. -/
structure Before (procnum : Nat) (s : Locals) : Prop where
  procbase : s.procbase = lastBase procnum
  pstbl : s.pstbl = PageBuffer.held sys.page residue ((procnum + (PROCCNT - 1)) / PROCCNT)

theorem publish_keeps (s : Locals) (procnum : Nat) (entry : TblProcinfo) :
    (publish sys s procnum entry).1.procbase = s.procbase ∧
      (publish sys s procnum entry).1.pstbl = s.pstbl := by
  unfold publish
  split
  · exact ⟨rfl, rfl⟩
  · dsimp only
    split
    · exact ⟨rfl, rfl⟩
    · split
      · split <;> exact ⟨rfl, rfl⟩
      · exact ⟨rfl, rfl⟩

/-- A page is asked for in the turns of its first slot, and in no other. -/
theorem asks_iff {procnum : Nat} {s : Locals} (h : Before sys residue procnum s) :
    (s.procbase < 0 ∨ s.procbase + PROCCNT ≤ procnum) ↔ procnum % PROCCNT = 0 := by
  have hcount : PROCCNT = 64 := rfl
  rw [h.procbase]
  cases procnum with
  | zero => exact iff_of_true (Or.inl (by decide)) rfl
  | succ procnum =>
      rw [lastBase, hcount]
      omega

/-- The pages asked for before and behind a turn that asks. -/
theorem pages_asked {procnum : Nat} (hasks : procnum % PROCCNT = 0) :
    (procnum + (PROCCNT - 1)) / PROCCNT = procnum / PROCCNT ∧
      lastBase (procnum + 1) = procnum ∧ procnum / PROCCNT * PROCCNT = procnum := by
  have hcount : PROCCNT = 64 := rfl
  rw [hcount] at hasks
  rw [lastBase, hcount]
  omega

/-- The same for one that does not. -/
theorem pages_kept {procnum : Nat} (hasks : ¬ procnum % PROCCNT = 0) :
    (procnum + (PROCCNT - 1)) / PROCCNT = procnum / PROCCNT + 1 ∧
      lastBase (procnum + 1) = lastBase procnum := by
  have hcount : PROCCNT = 64 := rfl
  cases procnum with
  | zero => exact absurd rfl hasks
  | succ procnum =>
      rw [hcount] at hasks
      rw [lastBase, lastBase, hcount]
      omega

/-- **One turn**: the variables move on, and unless it is passed over the entry at its place is
looked at. -/
theorem visit_cases {procnum : Nat} {s : Locals} (h : Before sys residue procnum s) :
    ∃ s', Before sys residue (procnum + 1) s' ∧ s'.descriptors = s.descriptors ∧
      ((sys.PassedOver procnum ∧ visit sys s procnum = (s', .ok none)) ∨
        (¬ sys.PassedOver procnum ∧
          visit sys s procnum = publish sys s' procnum (sys.entryAt residue procnum))) := by
  have hpages : (procnum + 1 + (PROCCNT - 1)) / PROCCNT = procnum / PROCCNT + 1 := by
    rw [show PROCCNT = 64 from rfl]
    omega
  have hpstbl := h.pstbl
  unfold visit
  by_cases hasks : procnum % PROCCNT = 0
  · obtain ⟨hbefore, hbase, hfirst⟩ := pages_asked hasks
    have hpage : sys.fetch procnum = sys.page (procnum / PROCCNT) := by rw [System.page, hfirst]
    rw [hbefore] at hpstbl
    rw [if_pos ((asks_iff sys residue h).mpr hasks), hpage]
    cases hfetch : sys.page (procnum / PROCCNT) with
    | none =>
        refine ⟨{ s with procbase := procnum }, ⟨hbase.symm, ?_⟩, rfl, Or.inl ⟨⟨hasks, hfetch⟩, rfl⟩⟩
        rw [hpages, PageBuffer.held, hfetch]
        exact hpstbl
    | some page =>
        have hheld : PageBuffer.fill page s.pstbl =
            PageBuffer.held sys.page residue (procnum / PROCCNT + 1) := by
          rw [PageBuffer.held, hfetch, hpstbl]
        refine ⟨{ s with procbase := procnum, pstbl := PageBuffer.fill page s.pstbl },
          ⟨hbase.symm, ?_⟩, rfl, Or.inr ⟨?_, ?_⟩⟩
        · rw [hpages]
          exact hheld
        · intro hpassed
          rw [hpassed.2] at hfetch
          cases hfetch
        · rw [System.entryAt, ← hheld]
  · obtain ⟨hasked, hsame⟩ := pages_kept hasks
    rw [hasked] at hpstbl
    rw [if_neg (fun hor => hasks ((asks_iff sys residue h).mp hor))]
    refine ⟨s, ⟨h.procbase.trans hsame.symm, ?_⟩, rfl, Or.inr ⟨fun hpassed => hasks hpassed.1, ?_⟩⟩
    · rw [hpages]
      exact hpstbl
    · rw [System.entryAt, ← hpstbl]

/-- Unless it is passed over, a turn publishes the entry at its place. -/
theorem visit_before {procnum : Nat} {s : Locals} (h : Before sys residue procnum s) :
    Before sys residue (procnum + 1) (visit sys s procnum).1 ∧
      ((sys.PassedOver procnum ∧ (visit sys s procnum).2 = .ok none) ∨
        (¬ sys.PassedOver procnum ∧ ∃ s', (visit sys s procnum).2 =
          (publish sys s' procnum (sys.entryAt residue procnum)).2)) := by
  obtain ⟨s', hbefore, -, hpassed | hpublish⟩ := visit_cases sys residue h
  · rw [hpassed.2]
    exact ⟨hbefore, Or.inl ⟨hpassed.1, rfl⟩⟩
  · obtain ⟨hbase, hpstbl⟩ := publish_keeps sys s' procnum (sys.entryAt residue procnum)
    rw [hpublish.2]
    exact ⟨⟨hbase.trans hbefore.procbase, hpstbl.trans hbefore.pstbl⟩,
      Or.inr ⟨hpublish.1, s', rfl⟩⟩

/-- **The variables before the turn of a slot**, in a scan from its start. -/
theorem before_after (start : Locals) (hstart : start.pstbl = residue) (hbase : start.procbase = -1)
    (procnum : Nat) :
    Before sys residue procnum (CarriedState.after (visit sys) start (List.range procnum)) := by
  induction procnum with
  | zero => exact ⟨hbase, hstart⟩
  | succ procnum ih =>
      rw [List.range_succ, CarriedState.after, List.foldl_append]
      exact (visit_before sys residue ih).1

end

/-! ### What a turn makes of an entry -/

/-- Everything that is asked about the process of an entry is answered. -/
structure System.Answered (sys : System) (procnum : Nat) (entry : TblProcinfo) (ps : Prpsinfo)
    (cred : Prcred) (psgroups : Nat → UInt32) : Prop where
  used : entry.piStatus ≠ sys.PI_EMPTY
  opens : (sys.answers procnum entry.piPid).opens = true
  psinfo : (sys.answers procnum entry.piPid).psinfo = some ps
  cred : (sys.answers procnum entry.piPid).cred = some cred
  malloc : (sys.answers procnum entry.piPid).malloc = true
  groups : (sys.answers procnum entry.piPid).groups = some psgroups

/-- The text of the percentage of a process that has answered. -/
def System.pctcpuAt (sys : System) (procnum : Nat) (entry : TblProcinfo) (ps : Prpsinfo) :
    List Char :=
  pctcpu sys (sys.answers procnum entry.piPid).now ps

/-- The entry is one that an object is made of. -/
def System.Publishable (sys : System) (procnum : Nat) (entry : TblProcinfo) : Prop :=
  ∃ ps cred psgroups, sys.Answered procnum entry ps cred psgroups ∧
    (sys.pctcpuAt procnum entry ps).length < sizeofPctcpu

/-- The text of its percentage does not fit. -/
def System.Overflows (sys : System) (procnum : Nat) (entry : TblProcinfo) : Prop :=
  ∃ ps cred psgroups, sys.Answered procnum entry ps cred psgroups ∧
    sizeofPctcpu ≤ (sys.pctcpuAt procnum entry ps).length

section

variable (sys : System) (ttydevs : Option HV) (s : Locals) (procnum : Nat) {entry : TblProcinfo}

/-- The turn of a process that answers. -/
theorem publish_answered {ps : Prpsinfo} {cred : Prcred} {psgroups : Nat → UInt32}
    (h : sys.Answered procnum entry ps cred psgroups) :
    (publish sys s procnum entry).2 =
      if sizeofPctcpu ≤ (sys.pctcpuAt procnum entry ps).length then .error .overflow
      else .ok (some ⟨Format, Fields, args sys ps cred psgroups
        (sys.pctcpuAt procnum entry ps ++ [nul]) (ps.prState.text s.state)⟩) := by
  unfold publish
  dsimp only
  rw [if_neg h.used, if_neg (by rw [h.opens]; exact Bool.noConfusion), h.psinfo, h.cred, h.malloc,
    h.groups]
  dsimp only
  split
  · next hlong => exact (if_pos hlong).symm
  · next hshort => exact (if_neg hshort).symm

/-- The turn of any other entry comes to nothing. -/
theorem publish_unanswered
    (h : ∀ ps cred psgroups, ¬ sys.Answered procnum entry ps cred psgroups) :
    (publish sys s procnum entry).2 = .ok none := by
  unfold publish
  dsimp only
  by_cases hused : entry.piStatus = sys.PI_EMPTY
  · rw [if_pos hused]
  · rw [if_neg hused]
    by_cases hopens : (sys.answers procnum entry.piPid).opens = false
    · rw [if_pos hopens]
    · rw [if_neg hopens]
      split
      · next ps cred psgroups hpsinfo hcred hmalloc hgroups =>
          exact absurd ⟨hused, Bool.of_not_eq_false hopens, hpsinfo, hcred, hmalloc, hgroups⟩
            (h ps cred psgroups)
      · rfl

/-- **A publishable entry** becomes an object with the pid that its process answers. -/
theorem turn_publishable (h : sys.Publishable procnum entry) :
    ∃ obj, turn ttydevs (publish sys s procnum entry).2 = ([obj], none) ∧
      ∃ ps cred psgroups, sys.Answered procnum entry ps cred psgroups ∧
        obj "pid" = some (.iv ps.prPid.toInt) := by
  obtain ⟨ps, cred, psgroups, hanswered, hfits⟩ := h
  rw [publish_answered sys s procnum hanswered, if_neg (Nat.not_le_of_lt hfits)]
  generalize sys.pctcpuAt procnum entry ps ++ [nul] = pctcpu
  generalize ps.prState.text s.state = state
  have hrows : BlessCall.Rows ⟨Format, Fields, args sys ps cred psgroups pctcpu state⟩
      (callRows Format Fields (args sys ps cred psgroups pctcpu state)) :=
    BlessCall.rows_of (show cstr Format = Format by decide) rfl rfl rfl
  have hnodup : Fields.Nodup := by decide
  have hrow : (callRows Format Fields (args sys ps cred psgroups pctcpu state))[7]? =
      some ⟨'i', "pid", half (sys.upper 7) ps.prPid.toUInt32⟩ := rfl
  refine ⟨_, turn_call (hrows.made_object ttydevs), ps, cred, psgroups, hanswered, ?_⟩
  rw [← shown_half (sys.upper 7)]
  exact hrows.object_at ttydevs hnodup hrow (show "pid" ≠ "ttydev" by decide)

/-- Any other entry adds nothing, and ends the scan when the percentage does not fit. -/
theorem turn_not_publishable (h : ¬ sys.Publishable procnum entry) :
    (turn ttydevs (publish sys s procnum entry).2).1 = [] := by
  by_cases hanswered : ∃ ps cred psgroups, sys.Answered procnum entry ps cred psgroups
  · obtain ⟨ps, cred, psgroups, hanswered⟩ := hanswered
    have hlong : sizeofPctcpu ≤ (sys.pctcpuAt procnum entry ps).length := by
      by_contra hfits
      exact h ⟨ps, cred, psgroups, hanswered, Nat.not_le.mp hfits⟩
    rw [publish_answered sys s procnum hanswered, if_pos hlong]
    rfl
  · rw [publish_unanswered sys s procnum fun ps cred psgroups ha =>
      hanswered ⟨ps, cred, psgroups, ha⟩]
    rfl

theorem turn_ends_iff :
    (turn ttydevs (publish sys s procnum entry).2).2 = none ↔ ¬ sys.Overflows procnum entry := by
  by_cases hanswered : ∃ ps cred psgroups, sys.Answered procnum entry ps cred psgroups
  · obtain ⟨ps, cred, psgroups, ha⟩ := hanswered
    by_cases hlong : sizeofPctcpu ≤ (sys.pctcpuAt procnum entry ps).length
    · rw [publish_answered sys s procnum ha, if_pos hlong]
      exact iff_of_false (Option.some_ne_none _) (not_not_intro ⟨ps, cred, psgroups, ha, hlong⟩)
    · obtain ⟨obj, hturn, -⟩ := turn_publishable sys ttydevs s procnum
        ⟨ps, cred, psgroups, ha, Nat.not_le.mp hlong⟩
      rw [hturn]
      refine iff_of_true rfl ?_
      intro ⟨ps', cred', psgroups', ha', hlong'⟩
      obtain rfl := Option.some.inj (ha.psinfo.symm.trans ha'.psinfo)
      exact hlong hlong'
  · rw [publish_unanswered sys s procnum fun ps cred psgroups ha =>
      hanswered ⟨ps, cred, psgroups, ha⟩]
    refine iff_of_true rfl ?_
    intro ⟨ps, cred, psgroups, ha, _⟩
    exact hanswered ⟨ps, cred, psgroups, ha⟩

end

/-! ### The scan -/

section

variable (sys : System) (residue : Locals) (ttydevs : Option HV)

/-- The variables at the start of the loop. -/
def Locals.start (residue : Locals) : Locals := { residue with procbase := -1 }

/-- The objects that the turn of a slot adds. -/
def System.added (procnum : Nat) : List HV :=
  addedBy (visit sys) ttydevs residue.start (List.range procnum) procnum

/-- What the turn of a slot adds is nothing, or what is made of the slot's own entry, which
was fetched with its page. -/
def System.FromOwnSlot (procnum : Nat) : Prop :=
  sys.added residue ttydevs procnum = [] ∨
    ∃ entry, sys.slot procnum = some entry ∧
      ∃ s, sys.added residue ttydevs procnum = (turn ttydevs (publish sys s procnum entry).2).1

/-- The scan does not end before the turn of a slot. -/
def System.Reaches (procnum : Nat) : Prop :=
  ∀ k < procnum, ¬ sys.PassedOver k → ¬ sys.Overflows k (sys.entryAt residue.pstbl k)

/-- The scan gets to a turn when no percentage before it overflows. -/
theorem ends_range_iff (procnum : Nat) :
    (loopScan (visit sys) residue.start (List.range procnum)).ends ttydevs = none ↔
      sys.Reaches residue procnum := by
  induction procnum with
  | zero => exact iff_of_true rfl fun k hk => absurd hk (Nat.not_lt_zero k)
  | succ procnum ih =>
      have hstep := congrArg Prod.snd
        (loopScan_concat (visit sys) ttydevs residue.start (List.range procnum) procnum)
      have hbefore := before_after sys residue.pstbl residue.start rfl rfl procnum
      obtain ⟨-, hout⟩ := visit_before sys residue.pstbl hbefore
      have hsplit : sys.Reaches residue (procnum + 1) ↔ sys.Reaches residue procnum ∧
          (¬ sys.PassedOver procnum → ¬ sys.Overflows procnum (sys.entryAt residue.pstbl procnum)) := by
        constructor
        · intro h
          exact ⟨fun k hk => h k (Nat.lt_succ_of_lt hk), h procnum (Nat.lt_succ_self procnum)⟩
        · intro ⟨hall, hlast⟩ k hk
          rcases Nat.lt_succ_iff_lt_or_eq.mp hk with hlt | rfl
          · exact hall k hlt
          · exact hlast
      rw [List.range_succ, hsplit, ← ih]
      refine (iff_of_eq (congrArg (· = none) hstep)).trans ?_
      cases hends : (loopScan (visit sys) residue.start (List.range procnum)).ends ttydevs with
      | some f => exact iff_of_false (Option.some_ne_none f) fun h => absurd h.1 (Option.some_ne_none f)
      | none =>
          rw [and_iff_right rfl]
          dsimp only
          rcases hout with ⟨hpassed, hnothing⟩ | ⟨hnot, s', hpublish⟩
          · rw [hnothing]
            exact iff_of_true rfl fun hno => absurd hpassed hno
          · rw [hpublish, turn_ends_iff]
            exact ⟨fun h _ => h, fun h => h hnot⟩

/-- **What the turn of a slot adds**: what is made of the entry at its place, unless the turn
is passed over or not reached. -/
theorem added_cases (procnum : Nat) :
    (sys.Reaches residue procnum ∧ ¬ sys.PassedOver procnum ∧ ∃ s, sys.added residue ttydevs procnum =
        (turn ttydevs (publish sys s procnum (sys.entryAt residue.pstbl procnum)).2).1) ∨
      (¬ (sys.Reaches residue procnum ∧ ¬ sys.PassedOver procnum) ∧
        sys.added residue ttydevs procnum = []) := by
  have hbefore := before_after sys residue.pstbl residue.start rfl rfl procnum
  obtain ⟨-, hout⟩ := visit_before sys residue.pstbl hbefore
  rw [← ends_range_iff sys residue ttydevs, System.added, addedBy_eq]
  cases hends : (loopScan (visit sys) residue.start (List.range procnum)).ends ttydevs with
  | some f => exact Or.inr ⟨fun h => Option.some_ne_none f h.1, rfl⟩
  | none =>
      rcases hout with ⟨hpassed, hnothing⟩ | ⟨hnot, s', hpublish⟩
      · refine Or.inr ⟨fun h => h.2 hpassed, ?_⟩
        dsimp only
        rw [hnothing]
        rfl
      · refine Or.inl ⟨rfl, hnot, s', ?_⟩
        dsimp only
        rw [hpublish]

/-- **When every object comes from its own slot**: at each slot that the scan gets to and whose
entry was not fetched, apart from the turn in which a fetch fails, the entry that the array
holds instead is not one that an object is made of. -/
theorem from_own_slot_iff (maxproc : Nat) :
    (∀ procnum < maxproc, sys.FromOwnSlot residue ttydevs procnum) ↔
      ∀ procnum < maxproc, sys.Reaches residue procnum → sys.slot procnum = none →
        ¬ sys.PassedOver procnum →
          ¬ sys.Publishable procnum (sys.entryAt residue.pstbl procnum) := by
  refine forall_congr' fun procnum => imp_congr_right fun _ => ?_
  constructor
  · intro hown hreaches hslot hnot hpub
    rcases added_cases sys residue ttydevs procnum with ⟨-, -, s, hadded⟩ | ⟨hno, -⟩
    · obtain ⟨obj, hturn, -⟩ := turn_publishable sys ttydevs s procnum hpub
      rcases hown with hnil | ⟨entry, hentry, -⟩
      · rw [hadded, hturn] at hnil
        cases hnil
      · rw [hslot] at hentry
        cases hentry
    · exact hno ⟨hreaches, hnot⟩
  · intro hcond
    rcases added_cases sys residue ttydevs procnum with ⟨hreaches, hnot, s, hadded⟩ | ⟨-, hnil⟩
    · cases hslot : sys.slot procnum with
      | some entry =>
          have hentry : sys.entryAt residue.pstbl procnum = entry := PageBuffer.held_got hslot
          rw [hentry] at hadded
          exact Or.inr ⟨entry, hslot, s, hadded⟩
      | none =>
          apply Or.inl
          rw [hadded]
          exact turn_not_publishable sys ttydevs s procnum (hcond hreaches hslot hnot)
    · exact Or.inl hnil

end

/-- A table whose second page cannot be fetched.  On the first there is one process. -/
def failingSystem : System where
  PI_EMPTY := 0
  getpagesize := 8192
  fetch := fun procbase => if procbase = 0 then some [⟨0, 0⟩, ⟨1, 7⟩] else none
  answers := fun _ _ =>
    { opens := true
      psinfo := some ⟨.SRUN, 0, 0, 7, 1, 7, 7, 44, -1, 0, 0, 1, 1, 0, ['s', 'h', nul], ['s', 'h', nul]⟩
      cred := some ⟨0, 0, 0, 0, 0⟩
      malloc := true
      groups := some fun _ => 0
      now := 0 }
  groupRef := fun _ => .av []
  printPct := fun _ => "0.00".toList
  upper := fun _ => 0

/-- An array without processes. -/
def emptyLocals : Locals := ⟨-1, fun _ => ⟨0, 0⟩, [nul], 0⟩

theorem failingSystem_pctcpu (procnum : Nat) (entry : TblProcinfo) (ps : Prpsinfo) :
    failingSystem.pctcpuAt procnum entry ps = "0.00".toList := by
  unfold System.pctcpuAt pctcpu
  dsimp only
  split <;> rfl

/-- The process of slot 1 is publishable in every turn. -/
theorem failingSystem_turn (s : Locals) (procnum : Nat) :
    failingSystem.Publishable procnum ⟨1, 7⟩ ∧
      ∃ obj, turn none (publish failingSystem s procnum ⟨1, 7⟩).2 = ([obj], none) ∧
        obj "pid" = some (.iv 7) := by
  have hpub : failingSystem.Publishable procnum ⟨1, 7⟩ := by
    refine ⟨_, _, _, ⟨by decide, rfl, rfl, rfl, rfl, rfl⟩, ?_⟩
    rw [failingSystem_pctcpu]
    decide
  refine ⟨hpub, ?_⟩
  obtain ⟨obj, hturn, ps, cred, psgroups, hanswered, hpid⟩ :=
    turn_publishable failingSystem none s procnum hpub
  obtain rfl := Option.some.inj hanswered.psinfo
  exact ⟨obj, hturn, hpid⟩

/-- **A process published twice**: the second page cannot be fetched, and the process of slot 1
is published again in the turn of slot 65. -/
theorem published_twice :
    ∃ obj obj', failingSystem.added emptyLocals none 1 = [obj] ∧
      failingSystem.added emptyLocals none 65 = [obj'] ∧ obj "pid" = some (.iv 7) ∧
      obj' "pid" = some (.iv 7) ∧ ¬ failingSystem.FromOwnSlot emptyLocals none 65 := by
  have hreaches : ∀ procnum, failingSystem.Reaches emptyLocals procnum := by
    intro procnum k _ _ ⟨ps, cred, psgroups, _, hlong⟩
    rw [failingSystem_pctcpu] at hlong
    exact absurd hlong (by decide)
  have hadded : ∀ procnum, procnum % PROCCNT ≠ 0 →
      failingSystem.entryAt emptyLocals.pstbl procnum = ⟨1, 7⟩ →
      ∃ obj, failingSystem.added emptyLocals none procnum = [obj] ∧ obj "pid" = some (.iv 7) := by
    intro procnum hplace hentry
    rcases added_cases failingSystem emptyLocals none procnum with ⟨-, -, s, hadd⟩ | ⟨hno, -⟩
    · obtain ⟨-, obj, hturn, hpid⟩ := failingSystem_turn s procnum
      rw [hentry, hturn] at hadd
      exact ⟨obj, hadd, hpid⟩
    · exact absurd ⟨hreaches procnum, fun hpassed => hplace hpassed.1⟩ hno
  obtain ⟨obj, hobj, hpid⟩ := hadded 1 (by decide) rfl
  obtain ⟨obj', hobj', hpid'⟩ := hadded 65 (by decide) rfl
  refine ⟨obj, obj', hobj, hobj', hpid, hpid', ?_⟩
  intro hown
  rcases hown with hnil | ⟨entry, hentry, -⟩
  · rw [hobj'] at hnil
    cases hnil
  · have hslot : failingSystem.slot 65 = none := rfl
    rw [hslot] at hentry
    cases hentry

end DecOsf
