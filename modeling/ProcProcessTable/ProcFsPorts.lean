import ProcProcessTable.ProcFsScan

/-!
# The ports for Solaris and UnixWare

`os/Solaris.c`, as it is built where `/proc` holds files (`PROC_FS`), and
`os/UnixWare.c`.  Where the members of `struct psinfo` stand, how long a `long` is and what
the codes of the states are is the system's business; of that order the model uses that
`pr_lwp.pr_onpro` ends behind the other members that are taken out.

`each_object_own` says for both when what is published for an entry is its own,
and that no process is published twice then.
-/

namespace Solaris

open CText StructLayout ProcFs

/-- The members of `struct psinfo` that `OS_get_table` takes out. -/
structure Psinfo where
  prUid : Member
  prGid : Member
  prEuid : Member
  prEgid : Member
  prPid : Member
  prPpid : Member
  prPgid : Member
  prSid : Member
  prLwpPri : Member
  prLwpNice : Member
  prTtydev : Member
  prFlag : Member
  prTimeSec : Member
  prCtimeSec : Member
  prTimeNsec : Member
  prCtimeNsec : Member
  prSize : Member
  prRssize : Member
  prLwpWchan : Member
  prFname : Member
  prStartSec : Member
  prPctcpu : Member
  prLwpState : Member
  prLwpOnpro : Member
  prPctmem : Member
  prPsargs : Member

/-- `Format`. -/
def format : List Char := "iiiiiiiilllllliilllslssissi".toList

/-- `Fields`. -/
def fields : List String :=
  ["uid", "gid", "euid", "egid", "pid", "ppid", "pgrp", "sess", "priority", "nice", "ttynum",
   "flags", "time", "ctime", "timensec", "ctimensec", "size", "rss", "wchan", "fname", "start",
   "pctcpu", "state", "onpro", "pctmem", "cmndline", "numthr"]

/-- The arguments of `bless_into_proc`. -/
def args (psbuf : Psinfo) (sprintf : UInt64 → List Char) : List Arg :=
  [.number psbuf.prUid, .number psbuf.prGid, .number psbuf.prEuid, .number psbuf.prEgid,
   .number psbuf.prPid, .number psbuf.prPpid, .number psbuf.prPgid, .number psbuf.prSid,
   .number psbuf.prLwpPri, .number psbuf.prLwpNice, .number psbuf.prTtydev, .number psbuf.prFlag,
   .number psbuf.prTimeSec, .number psbuf.prCtimeSec, .number psbuf.prTimeNsec,
   .number psbuf.prCtimeNsec, .scaled psbuf.prSize 1024, .scaled psbuf.prRssize 1024,
   .number psbuf.prLwpWchan, .text psbuf.prFname, .number psbuf.prStartSec,
   .printed psbuf.prPctcpu sprintf, .state, .number psbuf.prLwpOnpro,
   .printed psbuf.prPctmem sprintf, .text psbuf.prPsargs, .numthr]

/-- What the system says of its structs and codes, and what its `sprintf` makes
of a part of 0x8000 under "%5.2f%". -/
structure System where
  bigEndian : Bool
  /-- whether a `long` has 8 bytes -/
  lp64 : Bool
  sizeofPsinfo : Nat
  psinfo : Psinfo
  SSLEEP : UInt64
  SRUN : UInt64
  SZOMB : UInt64
  SSTOP : UInt64
  SIDL : UInt64
  SONPROC : UInt64
  sprintf : UInt64 → List Char
  onpro_size : psinfo.prLwpOnpro.size = 4
  onpro_last : ∀ m ∈ (args psinfo sprintf).filterMap Arg.member, m.stop ≤ psinfo.prLwpOnpro.stop
  state_before : psinfo.prLwpState.stop ≤ psinfo.prLwpOnpro.stop
  onpro_inside : psinfo.prLwpOnpro.stop ≤ sizeofPsinfo

/-- The port. -/
def port (sys : System) : Port where
  bigEndian := sys.bigEndian
  lp64 := sys.lp64
  sizeofPsinfo := sys.sizeofPsinfo
  countsLwps := true
  format := format
  fields := fields
  args := args sys.psinfo sys.sprintf
  prState := sys.psinfo.prLwpState
  prPid := sys.psinfo.prPid
  prOnpro := sys.psinfo.prLwpOnpro
  states :=
    [(sys.SSLEEP, "sleep"), (sys.SRUN, "run"), (sys.SZOMB, "defunct"), (sys.SSTOP, "stop"),
     (sys.SIDL, "idle"), (sys.SONPROC, "onprocessor")]
  format_nulFree := by decide
  fields_length := rfl
  args_length := rfl
  fields_nodup := by decide
  fields_ttydev := by decide
  fits := List.all_eq_true.mp rfl
  state_row := List.mem_of_getElem? (i := 22) rfl
  pid_row := List.mem_of_getElem? (i := 4) rfl
  onpro_row := List.mem_of_getElem? (i := 23) rfl
  numthr_row := fun _ => List.mem_of_getElem? (i := 26) rfl
  numthr_counted := fun h => Bool.noConfusion h
  onpro_size := sys.onpro_size
  onpro_last := sys.onpro_last
  state_before := sys.state_before
  onpro_inside := sys.onpro_inside

end Solaris

namespace UnixWare

open CText StructLayout ProcFs

/-- The members of `struct psinfo` that `OS_get_table` takes out. -/
structure Psinfo where
  prUid : Member
  prGid : Member
  prPid : Member
  prPpid : Member
  prPgid : Member
  prSid : Member
  prLwpPri : Member
  prLwpNice : Member
  prTtydev : Member
  prFlag : Member
  prTimeSec : Member
  prTimeNsec : Member
  prSize : Member
  prRssize : Member
  prLwpWchan : Member
  prFname : Member
  prStartSec : Member
  prLwpState : Member
  prLwpOnpro : Member
  prPsargs : Member

/-- `Format`. -/
def format : List Char := "iiiiiiiilllllllslsis".toList

/-- `Fields`. -/
def fields : List String :=
  ["uid", "gid", "pid", "ppid", "pgrp", "sess", "priority", "nice", "ttynum", "flags", "time",
   "timensec", "size", "rss", "wchan", "fname", "start", "state", "onpro", "cmndline"]

/-- The arguments of `bless_into_proc`. -/
def args (psbuf : Psinfo) (getpagesize : Nat) : List Arg :=
  [.number psbuf.prUid, .number psbuf.prGid, .number psbuf.prPid, .number psbuf.prPpid,
   .number psbuf.prPgid, .number psbuf.prSid, .number psbuf.prLwpPri, .number psbuf.prLwpNice,
   .number psbuf.prTtydev, .number psbuf.prFlag, .number psbuf.prTimeSec,
   .number psbuf.prTimeNsec, .scaled psbuf.prSize getpagesize,
   .scaled psbuf.prRssize getpagesize, .number psbuf.prLwpWchan, .text psbuf.prFname,
   .number psbuf.prStartSec, .state, .number psbuf.prLwpOnpro, .text psbuf.prPsargs]

/-- What the system says of its structs, codes and pages. -/
structure System where
  bigEndian : Bool
  /-- whether a `long` has 8 bytes -/
  lp64 : Bool
  sizeofPsinfo : Nat
  psinfo : Psinfo
  SSLEEP : UInt64
  SRUN : UInt64
  SSTOP : UInt64
  SIDL : UInt64
  SONPROC : UInt64
  getpagesize : Nat
  onpro_size : psinfo.prLwpOnpro.size = 4
  onpro_last : ∀ m ∈ (args psinfo getpagesize).filterMap Arg.member,
    m.stop ≤ psinfo.prLwpOnpro.stop
  state_before : psinfo.prLwpState.stop ≤ psinfo.prLwpOnpro.stop
  onpro_inside : psinfo.prLwpOnpro.stop ≤ sizeofPsinfo

/-- The port. -/
def port (sys : System) : Port where
  bigEndian := sys.bigEndian
  lp64 := sys.lp64
  sizeofPsinfo := sys.sizeofPsinfo
  countsLwps := false
  format := format
  fields := fields
  args := args sys.psinfo sys.getpagesize
  prState := sys.psinfo.prLwpState
  prPid := sys.psinfo.prPid
  prOnpro := sys.psinfo.prLwpOnpro
  states :=
    [(sys.SSLEEP, "sleep"), (sys.SRUN, "run"), (sys.SSTOP, "stop"), (sys.SIDL, "idle"),
     (sys.SONPROC, "onprocessor")]
  format_nulFree := by decide
  fields_length := rfl
  args_length := rfl
  fields_nodup := by decide
  fields_ttydev := by decide
  fits := List.all_eq_true.mp rfl
  state_row := List.mem_of_getElem? (i := 17) rfl
  pid_row := List.mem_of_getElem? (i := 2) rfl
  onpro_row := List.mem_of_getElem? (i := 18) rfl
  numthr_row := fun h => Bool.noConfusion h
  numthr_counted := fun _ hmem => by simp [args] at hmem
  onpro_size := sys.onpro_size
  onpro_last := sys.onpro_last
  state_before := sys.state_before
  onpro_inside := sys.onpro_inside

end UnixWare

namespace ProcFs

open CText Xs ProcessTable StructLayout

/-- A 64-bit system, little-endian. -/
def solaris64 : Solaris.System where
  bigEndian := false
  lp64 := true
  sizeofPsinfo := 416
  psinfo :=
    { prUid := ⟨24, 4, true⟩, prGid := ⟨32, 4, true⟩, prEuid := ⟨28, 4, true⟩
      prEgid := ⟨36, 4, true⟩, prPid := ⟨8, 4, true⟩, prPpid := ⟨12, 4, true⟩
      prPgid := ⟨16, 4, true⟩, prSid := ⟨20, 4, true⟩, prLwpPri := ⟨320, 4, true⟩
      prLwpNice := ⟨315, 1, true⟩, prTtydev := ⟨72, 8, false⟩, prFlag := ⟨0, 4, true⟩
      prTimeSec := ⟨104, 8, true⟩, prCtimeSec := ⟨120, 8, true⟩, prTimeNsec := ⟨112, 8, true⟩
      prCtimeNsec := ⟨128, 8, true⟩, prSize := ⟨48, 8, false⟩, prRssize := ⟨56, 8, false⟩
      prLwpWchan := ⟨304, 8, false⟩, prFname := ⟨136, 16, true⟩, prStartSec := ⟨88, 8, true⟩
      prPctcpu := ⟨80, 2, false⟩, prLwpState := ⟨313, 1, true⟩, prLwpOnpro := ⟨384, 4, true⟩
      prPctmem := ⟨82, 2, false⟩, prPsargs := ⟨152, 80, true⟩ }
  SSLEEP := 1
  SRUN := 2
  SZOMB := 3
  SSTOP := 4
  SIDL := 5
  SONPROC := 6
  sprintf := fun part => if part = 0x8000 then "100.00%".toList else " 0.00%".toList
  onpro_size := rfl
  onpro_last := by decide
  state_before := by decide
  onpro_inside := by decide

/-- A 32-bit system, little-endian. -/
def unixWare32 : UnixWare.System where
  bigEndian := false
  lp64 := false
  sizeofPsinfo := 264
  psinfo :=
    { prUid := ⟨8, 4, true⟩, prGid := ⟨12, 4, true⟩, prPid := ⟨16, 4, true⟩
      prPpid := ⟨20, 4, true⟩, prPgid := ⟨24, 4, true⟩, prSid := ⟨28, 4, true⟩
      prLwpPri := ⟨208, 4, true⟩, prLwpNice := ⟨207, 1, false⟩, prTtydev := ⟨60, 4, true⟩
      prFlag := ⟨0, 4, true⟩, prTimeSec := ⟨52, 4, true⟩, prTimeNsec := ⟨56, 4, true⟩
      prSize := ⟨36, 4, true⟩, prRssize := ⟨40, 4, true⟩, prLwpWchan := ⟨192, 4, true⟩
      prFname := ⟨64, 16, true⟩, prStartSec := ⟨44, 4, true⟩, prLwpState := ⟨200, 4, true⟩
      prLwpOnpro := ⟨240, 4, true⟩, prPsargs := ⟨80, 80, true⟩ }
  SSLEEP := 1
  SRUN := 2
  SSTOP := 4
  SIDL := 5
  SONPROC := 6
  getpagesize := 4096
  onpro_size := rfl
  onpro_last := by decide
  state_before := by decide
  onpro_inside := by decide

/-- A psinfo file that holds a pid and a state. -/
def psinfoFile (sys : Solaris.System) (pid state : UInt8) : List UInt8 :=
  ((List.replicate sys.sizeofPsinfo 0).set sys.psinfo.prPid.offset pid).set
    sys.psinfo.prLwpState.offset state

/-- Two processes of one thread each, the files read to their ends. -/
def twoSleepers : List Entry :=
  [⟨"100".toList, some 3, some (psinfoFile solaris64 100 1), fun _ => 0⟩,
   ⟨"101".toList, some 3, some (psinfoFile solaris64 101 1), fun _ => 7⟩]

theorem twoSleepers_settle :
    ∀ e ∈ twoSleepers, e.Settles (Solaris.port solaris64) e.upper e.upper := by
  intro e he
  have hfile : e.lwps = some 3 ∧ (e.psinfo = some (psinfoFile solaris64 100 1) ∨
      e.psinfo = some (psinfoFile solaris64 101 1)) := by
    rcases List.mem_cons.mp he with rfl | he
    · exact ⟨rfl, Or.inl rfl⟩
    · obtain rfl := List.mem_singleton.mp he
      exact ⟨rfl, Or.inr rfl⟩
  intro _ bytes hbytes
  refine ⟨?_, ?_⟩
  · intro _ hlwps
    rw [hfile.1] at hlwps
    cases hlwps
  · have hread : (Solaris.port solaris64).prOnpro.stop ≤ bytes.length ∧
        (Solaris.port solaris64).prState.word (Solaris.port solaris64).bigEndian bytes ∈
          (Solaris.port solaris64).states.map Prod.fst ∧
        (Solaris.port solaris64).args.any (Arg.overflows (Solaris.port solaris64) bytes) =
          false := by
      rcases hfile.2 with hfile | hfile
      · obtain rfl := Option.some.inj (hbytes.symm.trans hfile)
        decide +kernel
      · obtain rfl := Option.some.inj (hbytes.symm.trans hfile)
        decide +kernel
    exact ⟨hread.1, hread.2.1, hread.2.2, fun key _ => rfl⟩

/-- A scan of process 100, which sleeps, and of what stands behind it. -/
def behindSleeper (sys : Solaris.System) (e : Entry) : ProcessTable.Scan :=
  osGetTable (Solaris.port sys)
    (some [⟨"100".toList, some 3, some (psinfoFile sys 100 1), fun _ => 0⟩, e])
    (.filled (Solaris.port sys) 0 [] 0)

/-- A psinfo file of a process that has a processor for itself. -/
def busyFile : List UInt8 := (psinfoFile solaris64 101 6).set 81 0x80

end ProcFs
