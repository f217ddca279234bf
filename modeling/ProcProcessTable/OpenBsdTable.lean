import ProcProcessTable.ArgumentLoop
import ProcProcessTable.CallRows
import ProcProcessTable.PublishedNumbers
import ProcProcessTable.ScanLoop

/-!
# The process table of OpenBSD

`OS_get_table` of `OpenBSD.c` takes an array of processes from the kvm library and
publishes one object for each.  The sizes are page counts of 32 bits, and the
page size is an `int`; sum and product are made in `int`, and only the result is
widened to the `unsigned long` that is published.

`sizes_published_iff` says which sizes get through.
-/

namespace OpenBsd

open CText Xs ProcessTable

def Defaultformat : List Char := "liiiiiiiiiiiillssss".toList

def Fields : List String :=
  ["ttynum", "uid", "gid", "euid", "egid", "pid", "ppid", "pgrp", "sess", "time", "utime", "stime",
    "start", "size", "rss", "fname", "state", "ttydev", "cmndline"]

/-- The values of `p_stat`. -/
inductive PStat
  | SIDL | SRUN | SSLEEP | SSTOP | SZOMB
  | other (stat : Int8)

/-- The members of `struct kinfo_proc` that are read. -/
structure KinfoProc where
  pTdev : UInt32
  pStat : PStat
  pRuid : UInt32
  pRgid : UInt32
  pUid : UInt32
  pGid : UInt32
  pPid : Int32
  pPpid : Int32
  pPgid : Int32
  pSid : Int32
  pRtimeSec : UInt32
  pUutimeSec : UInt32
  pUstimeSec : UInt32
  pUstartSec : UInt64
  pVmDsize : Int32
  pVmSsize : Int32
  pVmTsize : Int32
  pVmRssize : Int32
  pComm : Mem

/-- A process, with what `devname` and `kvm_getargv` answer about it. -/
structure Process where
  proc : KinfoProc
  devname : Option Mem
  pargv : Option (List Mem)

/-- What holds for a whole scan.  The upper halves of the 4-byte arguments are
given by the place of the argument in the call. -/
structure Machine where
  getpagesize : Int32
  ARG_MAX : Nat
  upper : Nat → UInt32

/-- The local arrays of `OS_get_table`. -/
structure Locals (m : Machine) where
  format : CharArray 20
  state : CharArray 20
  cmndline : CharArray (m.ARG_MAX + 1)

/-- `STRLCPY`. -/
def STRLCPY {size : Nat} (num : Nat) (targ : CharArray size) (src : Mem) :
    Except Fault (CharArray size) :=
  let out := targ.strlcpy src
  if size ≤ out.2 then
    .error (.croak ("call:" ++ toString num ++ " source string is too big to copy into buffer"))
  else .ok out.1

/-- The state, and the number of the place where it is copied. -/
def PStat.state : PStat → Nat × String
  | .SIDL => (2, "IDLE")
  | .SRUN => (3, "RUN")
  | .SSLEEP => (4, "SLEEP")
  | .SSTOP => (5, "STOP")
  | .SZOMB => (6, "ZOMBIE")
  | .other _ => (7, "UNKNOWN")

/-- The virtual size: sum and product are of type `int`, and are taken modulo
`2 ^ 32`. -/
def vsize (m : Machine) (p : KinfoProc) : UInt64 :=
  (m.getpagesize * (p.pVmDsize + p.pVmSsize + p.pVmTsize)).toInt64.toUInt64

/-- The resident size. -/
def rss (m : Machine) (p : KinfoProc) : UInt64 := (m.getpagesize * p.pVmRssize).toInt64.toUInt64

/-- The arguments behind `format` and `Fields`. -/
def args (m : Machine) (p : Process) (state cmndline : Mem) : List Slot :=
  [half (m.upper 0) p.proc.pTdev,
    half (m.upper 1) p.proc.pRuid,
    half (m.upper 2) p.proc.pRgid,
    half (m.upper 3) p.proc.pUid,
    half (m.upper 4) p.proc.pGid,
    half (m.upper 5) p.proc.pPid.toUInt32,
    half (m.upper 6) p.proc.pPpid.toUInt32,
    half (m.upper 7) p.proc.pPgid.toUInt32,
    half (m.upper 8) p.proc.pSid.toUInt32,
    half (m.upper 9) p.proc.pRtimeSec,
    half (m.upper 10) p.proc.pUutimeSec,
    half (m.upper 11) p.proc.pUstimeSec,
    .word p.proc.pUstartSec,
    .word (vsize m p.proc),
    .word (rss m p.proc),
    .ptr (some p.proc.pComm),
    .ptr (some state),
    .ptr (some (p.devname.getD ['?', '?', nul])),
    .ptr (some cmndline)]

/-- One iteration up to the call of `bless_into_proc`. -/
def blessProc (m : Machine) (s : Locals m) (p : Process) : Except Fault (Locals m) := do
  let format ← STRLCPY 1 s.format (Defaultformat ++ [nul])
  let state ← STRLCPY p.proc.pStat.state.1 s.state (p.proc.pStat.state.2.toList ++ [nul])
  let cmndline ← commandLine m.ARG_MAX p.pargv s.cmndline
  return ⟨format, state, cmndline⟩

/-- One iteration. -/
def visit (m : Machine) (s : Locals m) (p : Process) : Locals m × Except Fault (Option BlessCall) :=
  match blessProc m s p with
  | .error f => (s, .error f)
  | .ok s => (s, .ok (some ⟨s.format.bytes, Fields, args m p s.state.bytes s.cmndline.bytes⟩))

/-- `OS_get_table`: the answers of `kvm_open` and `kvm_getprocs` are the text of an
error, or the processes. -/
def osGetTable (m : Machine) (kvmOpen : Except String Unit) (kvmGetprocs : Except String (List Process))
    (residue : Locals m) : Scan :=
  match kvmOpen, kvmGetprocs with
  | .error errbuf, _ => ⟨[], some (.croak ("kvm_open: " ++ errbuf))⟩
  | .ok (), .error err => ⟨[], some (.croak ("kvm_getprocs: " ++ err))⟩
  | .ok (), .ok procs => loopScan (visit m) residue procs

theorem STRLCPY_ok {size : Nat} (num : Nat) (targ : CharArray size) {src : Mem}
    (h : strlen src < size) :
    ∃ out, STRLCPY num targ src = .ok out ∧ out.string = cstr src := by
  obtain ⟨hstring, hlen⟩ := targ.string_strlcpy h
  refine ⟨(targ.strlcpy src).1, ?_, hstring⟩
  unfold STRLCPY
  dsimp only
  rw [if_neg (Nat.not_le_of_lt hlen)]

/-- The rows of the call for a process. -/
def rows (m : Machine) (p : Process) (state cmndline : Mem) : List CallRow :=
  callRows Defaultformat Fields (args m p state cmndline)

/-- **Every process gets to its call**: the format and the state fit their arrays, and
the arguments always do. -/
theorem visit_call (m : Machine) (s : Locals m) (p : Process) :
    ∃ s' call, visit m s p = (s', .ok (some call)) ∧
      ∃ state cmndline, call.Rows (rows m p state cmndline) := by
  have hformat : strlen (Defaultformat ++ [nul]) < 20 := by decide
  have hstate : strlen (p.proc.pStat.state.2.toList ++ [nul]) < 20 := by
    cases p.proc.pStat with
    | other stat => exact (by decide : strlen ("UNKNOWN".toList ++ [nul]) < 20)
    | _ => decide
  obtain ⟨format, hformat, hstring⟩ := STRLCPY_ok 1 s.format hformat
  obtain ⟨state, hstate, -⟩ := STRLCPY_ok p.proc.pStat.state.1 s.state hstate
  obtain ⟨cmndline, hcmndline, -⟩ :=
    ArgumentLoop.commandLine_joined appends_STRLCAT p.pargv s.cmndline
  have hbless : blessProc m s p = .ok ⟨format, state, cmndline⟩ := by
    unfold blessProc
    rw [hformat, hstate]
    show (do let cmndline ← commandLine m.ARG_MAX p.pargv s.cmndline; _) = _
    rw [show commandLine m.ARG_MAX p.pargv s.cmndline = .ok cmndline from hcmndline]
    rfl
  refine ⟨_, _, by rw [visit, hbless], state.bytes, cmndline.bytes, ?_⟩
  exact BlessCall.rows_of (hstring.trans (by decide)) rfl rfl rfl

/-! ### The sizes -/

/-- An `int` holds the number. -/
def FitsInt (x : Int) : Prop := -2 ^ 31 ≤ x ∧ x < 2 ^ 31

theorem bmod_eq_self_iff (x : Int) : x.bmod (2 ^ 32) = x ↔ FitsInt x := by
  rw [FitsInt, Int.bmod_def]
  split <;> omega

/-- The virtual size of a process in bytes. -/
def Machine.size (m : Machine) (p : Process) : Int :=
  m.getpagesize.toInt *
    (p.proc.pVmDsize.toInt + p.proc.pVmSsize.toInt + p.proc.pVmTsize.toInt)

/-- The resident size of a process in bytes. -/
def Machine.rss (m : Machine) (p : Process) : Int :=
  m.getpagesize.toInt * p.proc.pVmRssize.toInt

/-- An `int` that was widened is read back as a `long`. -/
theorem number_widened (x : Int32) :
    (shown 'l' (.word x.toInt64.toUInt64)).1.number = some x.toInt :=
  newSVnv_widened x

/-- The sum and the product are exact up to the one reduction at the end. -/
theorem number_vsize (m : Machine) (p : Process) :
    (shown 'l' (.word (vsize m p.proc))).1.number = some ((m.size p).bmod (2 ^ 32)) := by
  rw [vsize, number_widened, Int32.toInt_mul, Int32.toInt_add, Int32.toInt_add,
    Int.bmod_add_bmod, Int.mul_bmod_bmod, Machine.size]

theorem number_rss (m : Machine) (p : Process) :
    (shown 'l' (.word (rss m p.proc))).1.number = some ((m.rss p).bmod (2 ^ 32)) := by
  rw [rss, number_widened, Int32.toInt_mul, Machine.rss]

/-- The values under the two names. -/
theorem object_sizes {m : Machine} {p : Process} {call : BlessCall} {state cmndline : Mem}
    (hrows : call.Rows (rows m p state cmndline)) (ttydevs : Option HV) :
    call.object ttydevs "size" = some (shown 'l' (.word (vsize m p.proc))).1 ∧
      call.object ttydevs "rss" = some (shown 'l' (.word (rss m p.proc))).1 := by
  have hnodup : call.fields.Nodup := by
    rw [hrows.fields]
    show Fields.Nodup
    decide
  have hsize : (rows m p state cmndline)[13]? =
      some ⟨'l', "size", .word (vsize m p.proc)⟩ := rfl
  have hrss : (rows m p state cmndline)[14]? = some ⟨'l', "rss", .word (rss m p.proc)⟩ := rfl
  constructor
  · exact hrows.object_at ttydevs hnodup hsize (show "size" ≠ "ttydev" by decide)
  · exact hrows.object_at ttydevs hnodup hrss (show "rss" ≠ "ttydev" by decide)

/-- **When the sizes are exact.**  A scan publishes one object for each process, and
its size and its resident size are the byte counts exactly when an `int` holds them. -/
theorem sizes_published_iff (m : Machine) (procs : List Process) (residue : Locals m)
    (ttydevs : Option HV) :
    (osGetTable m (.ok ()) (.ok procs) residue).ends ttydevs = none ∧
      List.Forall₂
        (fun p obj =>
          ((obj "size").bind SV.number = some (m.size p) ↔ FitsInt (m.size p)) ∧
            ((obj "rss").bind SV.number = some (m.rss p) ↔ FitsInt (m.rss p)))
        procs ((osGetTable m (.ok ()) (.ok procs) residue).objects ttydevs) := by
  obtain ⟨hends, hobjects⟩ := loopScan_objects procs
    (fun p _ s => visit_call m s p) residue ttydevs
    fun p call ⟨_, _, hrows⟩ => hrows.made_object ttydevs
  refine ⟨hends, hobjects.imp ?_⟩
  intro p obj ⟨call, ⟨state, cmndline, hrows⟩, hobj⟩
  obtain ⟨hsize, hrss⟩ := object_sizes hrows ttydevs
  rw [hobj, hsize, hrss, Option.bind_some, Option.bind_some, number_vsize, number_rss,
    Option.some.injEq, Option.some.injEq]
  exact ⟨bmod_eq_self_iff _, bmod_eq_self_iff _⟩

/-- A machine with pages of 4096 bytes. -/
def pages4096 : Machine := ⟨4096, 262144, fun _ => 0⟩

/-- A process with 524288 pages of data, 2 GiB. -/
def twoGiB : Process where
  proc := ⟨0, .SRUN, 0, 0, 0, 0, 1, 0, 0, 0, 0, 0, 0, 0, 524288, 0, 0, 0, ['d', nul]⟩
  devname := none
  pargv := none

/-- Empty arrays. -/
def Locals.cleared (m : Machine) : Locals m where
  format := .cleared 20
  state := .cleared 20
  cmndline := .cleared (m.ARG_MAX + 1)

/-- **A negative size**: 2 GiB of data are published as -2147483648 bytes. -/
theorem size_negative :
    ∃ obj, (osGetTable pages4096 (.ok ()) (.ok [twoGiB]) (Locals.cleared pages4096)).objects none =
        [obj] ∧
      (obj "size").bind SV.number = some (-2147483648) ∧ pages4096.size twoGiB = 2147483648 := by
  obtain ⟨-, hobjects⟩ := loopScan_objects [twoGiB] (fun p _ s => visit_call pages4096 s p)
    (Locals.cleared pages4096) none fun p call ⟨_, _, hrows⟩ => hrows.made_object none
  obtain ⟨obj, rest, ⟨call, ⟨state, cmndline, hrows⟩, hobj⟩, hrest, hlist⟩ :=
    List.forall₂_cons_left_iff.mp hobjects
  obtain rfl := List.forall₂_nil_left_iff.mp hrest
  refine ⟨obj, hlist, ?_, by decide⟩
  rw [hobj, (object_sizes hrows none).1, Option.bind_some, number_vsize]
  decide

end OpenBsd
