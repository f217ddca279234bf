import ProcProcessTable.IoctlScan

/-!
# The ports for IRIX and for Solaris without psinfo files

`os/IRIX.c`, and `os/Solaris.c` as it is built where `PROC_FS` is not defined.  Both print
two percentages into arrays of 7 bytes, and have a text for the state that the `switch`
leaves as it is when it does not know the code.

`Irix.returns_iff` and `SolarisIoctl.returns_iff` say in which scans the percentages fit.
-/

namespace Irix

open CText Xs ProcessTable IoctlScan

def Format : List Char := "iiiiiiiilllllllllslsssss".toList

def Fields : List String :=
  ["uid", "gid", "pid", "ppid", "spid", "pgrp", "sess", "cpuid", "priority", "ttynum", "flags",
    "time", "ctime", "qtime", "size", "rss", "wchan", "fname", "start", "pctcpu", "state", "pctmem",
    "cmndline", "clname"]

/-- The values of `pr_state`. -/
inductive PrState
  | SSLEEP | SRUN | SZOMB | SSTOP | SIDL | SXBRK
  | other (state : Int8)

/-- The members of `struct prpsinfo` that are read. -/
structure Prpsinfo where
  prSname : Char
  prState : PrState
  prUid : Int32
  prGid : Int32
  prPid : Int32
  prPpid : Int32
  prSpid : Int32
  prPgrp : Int32
  prSid : Int32
  prSonproc : Int32
  prPri : Int64
  prTtydev : UInt64
  prFlag : UInt64
  prTime : Int64
  prCtime : Int64
  prQtime : Int64
  prSize : UInt64
  prRssize : UInt64
  prWchan : UInt64
  prFname : Mem
  prStart : Int64
  prPsargs : Mem
  prClname : Mem

/-- An entry of the directory, with what the system answers about it: whether it can be opened,
what the `ioctl` fills in, and the clock. -/
structure Entry where
  dName : Mem
  opens : Bool
  psinfo : Option Prpsinfo
  now : Int64

/-- What holds for a whole scan: the version of the system, the page size, and what the
floating-point operations make of a share of the time and of the memory.  The upper halves of the
4-byte arguments are given by the place of the argument in the call. -/
structure System where
  irix65 : Bool
  getpagesize : Int32
  printPctcpu : Int64 → Int64 → Int64 → List Char
  printPctmem : UInt64 → List Char
  upper : Nat → UInt32

/-- The `switch` over `pr_sname`, from version 6.5 on. -/
def snameText : Char → Option String
  | 'S' => some "sleep"
  | '0' => some "run"
  | 'R' => some "run"
  | 'Z' => some "defunct"
  | 'T' => some "stop"
  | 'X' => some "xswapped"
  | _ => none

/-- The `switch` over `pr_state`. -/
def PrState.text : PrState → Option String
  | .SSLEEP => some "sleep"
  | .SRUN => some "run"
  | .SZOMB => some "defunct"
  | .SSTOP => some "stop"
  | .SIDL => some "idle"
  | .SXBRK => some "xswapped"
  | .other _ => none

/-- The text of the state. -/
def translate (sys : System) (state : Mem) (ps : Prpsinfo) : Mem :=
  match if sys.irix65 then snameText ps.prSname else ps.prState.text with
  | some text => strcpy state text.toList
  | none => state

/-- The arguments behind `Format` and `Fields`. -/
def args (sys : System) (ps : Prpsinfo) (pctcpu state pctmem : Mem) : List Slot :=
  let pagesize := sys.getpagesize.toInt64.toUInt64
  [half (sys.upper 0) ps.prUid.toUInt32,
    half (sys.upper 1) ps.prGid.toUInt32,
    half (sys.upper 2) ps.prPid.toUInt32,
    half (sys.upper 3) ps.prPpid.toUInt32,
    half (sys.upper 4) ps.prSpid.toUInt32,
    half (sys.upper 5) ps.prPgrp.toUInt32,
    half (sys.upper 6) ps.prSid.toUInt32,
    half (sys.upper 7) ps.prSonproc.toUInt32,
    .word ps.prPri.toUInt64,
    .word ps.prTtydev,
    .word ps.prFlag,
    .word ps.prTime.toUInt64,
    .word ps.prCtime.toUInt64,
    .word ps.prQtime.toUInt64,
    .word (ps.prSize * pagesize),
    .word (ps.prRssize * pagesize),
    .word ps.prWchan,
    .ptr (some ps.prFname),
    .word ps.prStart.toUInt64,
    .ptr (some pctcpu),
    .ptr (some state),
    .ptr (some pctmem),
    .ptr (some ps.prPsargs),
    .ptr (some ps.prClname)]

/-- `sizeof(pctcpu)`, and that of `pctmem`. -/
def sizeofPct : Nat := 7

/-- The texts of the two percentages. -/
def pctcpu (sys : System) (e : Entry) (ps : Prpsinfo) : List Char :=
  sys.printPctcpu ps.prTime e.now ps.prStart

def pctmem (sys : System) (ps : Prpsinfo) : List Char := sys.printPctmem ps.prSize

/-- The turn behind the `close`. -/
def publish (sys : System) (state : Mem) (e : Entry) (ps : Prpsinfo) :
    Mem × Except Fault (Option BlessCall) :=
  let state := translate sys state ps
  if sizeofPct ≤ (pctcpu sys e ps).length ∨ sizeofPct ≤ (pctmem sys ps).length then
    (state, .error .overflow)
  else
    (state, .ok (some ⟨Format ++ [nul], Fields,
      args sys ps (pctcpu sys e ps ++ [nul]) state (pctmem sys ps ++ [nul])⟩))

/-- The port.  Nothing is done before an entry is opened. -/
def port (sys : System) : Port Mem Entry Prpsinfo where
  dName := Entry.dName
  before state _ := state
  opens := Entry.opens
  psinfo := Entry.psinfo
  publish := publish sys

/-- The directory is not opened if there is no page size. -/
def listing (sys : System) (opendir : Option (List Entry)) : Option (List Entry) :=
  if sys.getpagesize = 0 then none else opendir

/-- `OS_get_table`. -/
def osGetTable (sys : System) (opendir : Option (List Entry)) (residue : Locals Mem) : Scan :=
  (port sys).osGetTable (listing sys opendir) residue

/-- A percentage does not fit its array. -/
def Overflows (sys : System) (e : Entry) (ps : Prpsinfo) : Prop :=
  sizeofPct ≤ (pctcpu sys e ps).length ∨ sizeofPct ≤ (pctmem sys ps).length

/-- **It returns** exactly when every percentage fits. -/
theorem returns_iff (sys : System) (opendir : Option (List Entry)) (residue : Locals Mem)
    (ttydevs : Option HV) :
    (osGetTable sys opendir residue).ends ttydevs = none ↔
      ∀ e ∈ (listing sys opendir).getD [], ¬ (port sys).Overflows (Overflows sys) e := by
  apply IoctlScan.returns_iff
  intro state e ps
  exact guarded_ends_iff _
    (BlessCall.rows_of (show cstr (Format ++ [nul]) = Format by decide) rfl rfl rfl) ttydevs

end Irix

namespace SolarisIoctl

open CText Xs ProcessTable IoctlScan

def Format : List Char := "iiiiiiiilllllllllslssssi".toList

def Fields : List String :=
  ["uid", "gid", "euid", "egid", "pid", "ppid", "pgrp", "sess", "priority", "nice", "ttynum",
    "flags", "time", "ctime", "size", "rss", "wchan", "fname", "start", "pctcpu", "state", "pctmem",
    "cmndline", "numthr"]

/-- The values of `pr_state`. -/
inductive PrState
  | SSLEEP | SRUN | SZOMB | SSTOP | SIDL | SONPROC
  | other (state : Int8)

/-- The members of `struct prpsinfo` that are read. -/
structure Prpsinfo where
  prState : PrState
  prPctcpu : UInt16
  prPctmem : UInt16
  prUid : Int32
  prGid : Int32
  prEuid : Int32
  prEgid : Int32
  prPid : Int32
  prPpid : Int32
  prPgrp : Int32
  prSid : Int32
  prPri : Int32
  prNice : Int8
  prTtydev : UInt64
  prFlag : UInt64
  prTime : Int64
  prCtime : Int64
  prBysize : UInt64
  prByrssize : UInt64
  prWchan : UInt64
  prFname : Mem
  prStart : Int64
  prPsargs : Mem

/-- An entry of the directory, with what the system answers about it: the number of entries of its
lwp directory, if that can be opened, whether it can be opened itself, and what the `ioctl` fills
in. -/
structure Entry where
  dName : Mem
  lwps : Option Nat
  opens : Bool
  psinfo : Option Prpsinfo

/-- What holds for a whole scan: what `sprintf` makes of a part of 0x8000 under "%5.2f%".  The upper
halves of the 4-byte arguments are given by the place of the argument in the call. -/
structure System where
  sprintf : UInt16 → List Char
  upper : Nat → UInt32

/-- The text of the state, and the count of the threads. -/
structure Vars where
  state : Mem
  numthr : Int32

/-- The threads are counted, and the directory for that is closed again. -/
def countLwps (s : Vars) (e : Entry) : Vars :=
  { s with
    numthr :=
      (match e.lwps with
      | some n => Int32.ofNat n
      | none => s.numthr) - 2 }

/-- The `switch` over `pr_state`. -/
def PrState.text : PrState → Option String
  | .SSLEEP => some "sleep"
  | .SRUN => some "run"
  | .SZOMB => some "defunct"
  | .SSTOP => some "stop"
  | .SIDL => some "idle"
  | .SONPROC => some "onprocessor"
  | .other _ => none

/-- The text of the state. -/
def translate (state : Mem) (ps : Prpsinfo) : Mem :=
  match ps.prState.text with
  | some text => strcpy state text.toList
  | none => state

/-- The arguments behind `Format` and `Fields`. -/
def args (sys : System) (ps : Prpsinfo) (s : Vars) (pctcpu pctmem : Mem) : List Slot :=
  [half (sys.upper 0) ps.prUid.toUInt32,
    half (sys.upper 1) ps.prGid.toUInt32,
    half (sys.upper 2) ps.prEuid.toUInt32,
    half (sys.upper 3) ps.prEgid.toUInt32,
    half (sys.upper 4) ps.prPid.toUInt32,
    half (sys.upper 5) ps.prPpid.toUInt32,
    half (sys.upper 6) ps.prPgrp.toUInt32,
    half (sys.upper 7) ps.prSid.toUInt32,
    half (sys.upper 8) ps.prPri.toUInt32,
    half (sys.upper 9) ps.prNice.toInt32.toUInt32,
    .word ps.prTtydev,
    .word ps.prFlag,
    .word ps.prTime.toUInt64,
    .word ps.prCtime.toUInt64,
    .word ps.prBysize,
    .word ps.prByrssize,
    .word ps.prWchan,
    .ptr (some ps.prFname),
    .word ps.prStart.toUInt64,
    .ptr (some pctcpu),
    .ptr (some s.state),
    .ptr (some pctmem),
    .ptr (some ps.prPsargs),
    half (sys.upper 23) s.numthr.toUInt32]

/-- `sizeof(pctcpu)`, and that of `pctmem`. -/
def sizeofPct : Nat := 7

/-- The texts of the two percentages. -/
def pctcpu (sys : System) (ps : Prpsinfo) : List Char := sys.sprintf ps.prPctcpu

def pctmem (sys : System) (ps : Prpsinfo) : List Char := sys.sprintf ps.prPctmem

/-- The turn behind the `close`. -/
def publish (sys : System) (s : Vars) (_ : Entry) (ps : Prpsinfo) :
    Vars × Except Fault (Option BlessCall) :=
  let s := { s with state := translate s.state ps }
  if sizeofPct ≤ (pctcpu sys ps).length ∨ sizeofPct ≤ (pctmem sys ps).length then
    (s, .error .overflow)
  else
    (s, .ok (some ⟨Format ++ [nul], Fields,
      args sys ps s (pctcpu sys ps ++ [nul]) (pctmem sys ps ++ [nul])⟩))

/-- The port. -/
def port (sys : System) : Port Vars Entry Prpsinfo where
  dName := Entry.dName
  before := countLwps
  opens := Entry.opens
  psinfo := Entry.psinfo
  publish := publish sys

/-- `OS_get_table`. -/
def osGetTable (sys : System) (opendir : Option (List Entry)) (residue : Locals Vars) : Scan :=
  (port sys).osGetTable opendir residue

/-- A percentage does not fit its array. -/
def Overflows (sys : System) (_ : Entry) (ps : Prpsinfo) : Prop :=
  sizeofPct ≤ (pctcpu sys ps).length ∨ sizeofPct ≤ (pctmem sys ps).length

/-- **It returns** exactly when every percentage fits. -/
theorem returns_iff (sys : System) (opendir : Option (List Entry)) (residue : Locals Vars)
    (ttydevs : Option HV) :
    (osGetTable sys opendir residue).ends ttydevs = none ↔
      ∀ e ∈ opendir.getD [], ¬ (port sys).Overflows (Overflows sys) e := by
  apply IoctlScan.returns_iff
  intro s e ps
  exact guarded_ends_iff _
    (BlessCall.rows_of (show cstr (Format ++ [nul]) = Format by decide) rfl rfl rfl) ttydevs

end SolarisIoctl
