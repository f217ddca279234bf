import ProcProcessTable.ArgumentLoop
import ProcProcessTable.CallRows
import ProcProcessTable.OpenBsdTable
import ProcProcessTable.PublishedNumbers
import ProcProcessTable.ScanLoop

/-!
# The process table of FreeBSD from the kvm library

`OS_get_table` of `FreeBSD-kvm.c` passes the sizes of a process as the kernel has
them, in 64 bits.  The format names an `int` or an `unsigned` for them, so
`bless_into_proc` takes the lower half of the slot; the resident size in bytes is a
product of 64 bits that is taken the same way.

`memory_published_iff` says which sizes get through, `osGetTable_sizes` says it of all objects.
-/

namespace FreeBsdKvm

open CText Xs ProcessTable

def Defaultformat : List Char := "iiiiiiiisssssssssssssissiiiuiiiiiiiiiiVV".toList

def Fields : List String :=
  ["pid", "ppid", "uid", "euid", "gid", "pgrp", "sess", "jid", "flags", "sflags", "start", "time",
    "utime", "stime", "ctime", "cutime", "cstime", "pctcpu", "wchan", "state", "ttydev", "ttynum",
    "fname", "cmndline", "priority", "nice", "vmsize", "size", "rssize", "rss", "tsize", "dsize",
    "ssize", "majflt", "minflt", "cmajflt", "cminflt", "numthr", "onpro", "groups"]

/-- The values of `ki_stat`. -/
inductive KiStat
  | SSTOP | SSLEEP | SRUN | SIDL | SWAIT | SLOCK | SZOMB
  | other (stat : Int8)

/-- The `switch` over the state. -/
def KiStat.state : KiStat → String
  | .SSTOP => "stop"
  | .SSLEEP => "sleep"
  | .SRUN => "run"
  | .SIDL => "idle"
  | .SWAIT => "wait"
  | .SLOCK => "lock"
  | .SZOMB => "zombie"
  | .other _ => "???"

structure Timeval where
  tvSec : Int64
  tvUsec : Int64

/-- The members of `struct rusage` that are read. -/
structure Rusage where
  ruUtime : Timeval
  ruStime : Timeval
  ruMajflt : Int64
  ruMinflt : Int64

/-- The members of `struct kinfo_proc` that are read. -/
structure KinfoProc where
  kiPid : Int32
  kiPpid : Int32
  kiRuid : UInt32
  kiUid : UInt32
  kiRgid : UInt32
  kiPgid : Int32
  kiSid : Int32
  kiJid : Int32
  kiFlag : Int64
  kiSflag : Int64
  kiStart : Timeval
  kiRuntime : UInt64
  kiRusage : Rusage
  kiChildtime : Timeval
  kiRusageCh : Rusage
  kiSwtime : UInt32
  kiPctcpu : UInt32
  kiWmesg : Mem
  kiStat : KiStat
  kiTdev : UInt32
  kiComm : Mem
  priUser : UInt8
  kiNice : Int8
  kiSize : UInt64
  kiRssize : Int64
  kiTsize : Int64
  kiDsize : Int64
  kiSsize : Int64
  kiNumthreads : Int32
  kiOncpu : UInt8
  kiGroups : List UInt32

/-- A process, with its arguments and the answers of the two `sysctlbyname`. -/
structure Process where
  proc : KinfoProc
  argv : Option (List Mem)
  ccpu : Option UInt32
  fscale : Option Int32

/-- What the percentage is computed from: `ki_pctcpu`, `ki_swtime`, `ccpu` and `fscale`. -/
structure Share where
  kiPctcpu : UInt32
  kiSwtime : UInt32
  ccpu : UInt32
  fscale : Int32

/-- What holds for a whole scan: the page size and the constants, what the port makes of a
list of groups in Perl, and what the floating-point operations make of a run time and a
percentage (`none` stands for 0.0).  The upper halves of the 4-byte arguments are given by
the place of the argument in the call. -/
structure Machine where
  getpagesize : Int32
  ARG_MAX : Nat
  P_INMEM : Int64
  printRuntime : UInt64 → List Char
  printPctcpu : Option Share → List Char
  groupRef : List UInt32 → SV
  upper : Nat → UInt32

/-- The arrays for the times and the flags. -/
structure Texts where
  start : CharArray 20
  time : CharArray 20
  utime : CharArray 20
  stime : CharArray 20
  ctime : CharArray 20
  cutime : CharArray 20
  cstime : CharArray 20
  flag : CharArray 20
  sflag : CharArray 20

/-- The local arrays of `OS_get_table`. -/
structure Locals (m : Machine) where
  format : CharArray 128
  cmndline : CharArray m.ARG_MAX
  state : CharArray 20
  texts : Texts
  pctcpu : CharArray 20

/-- `%d.%06d`, which takes the lower halves of the two. -/
def printTimeval (t : Timeval) : List Char :=
  let usec := t.tvUsec.toInt32.toInt
  let digits := Nat.toDigits 10 usec.natAbs
  (toString t.tvSec.toInt32.toInt).toList ++
    '.' :: (if usec < 0 then '-' :: digits.leftpad 5 '0' else digits.leftpad 6 '0')

/-- `0x%04x`. -/
def printFlag (flag : Int64) : List Char :=
  "0x".toList ++ (Nat.toDigits 16 flag.toUInt64.toUInt32.toNat).leftpad 4 '0'

def printTexts (m : Machine) (s : Texts) (p : KinfoProc) : Except Fault Texts := do
  let start ← inBounds (s.start.sprintf (printTimeval p.kiStart))
  let time ← inBounds (s.time.sprintf (m.printRuntime p.kiRuntime))
  let utime ← inBounds (s.utime.sprintf (printTimeval p.kiRusage.ruUtime))
  let stime ← inBounds (s.stime.sprintf (printTimeval p.kiRusage.ruStime))
  let ctime ← inBounds (s.ctime.sprintf (printTimeval p.kiChildtime))
  let cutime ← inBounds (s.cutime.sprintf (printTimeval p.kiRusageCh.ruUtime))
  let cstime ← inBounds (s.cstime.sprintf (printTimeval p.kiRusageCh.ruStime))
  let flag ← inBounds (s.flag.sprintf (printFlag p.kiFlag))
  let sflag ← inBounds (s.sflag.sprintf (printFlag p.kiSflag))
  return ⟨start, time, utime, stime, ctime, cutime, cstime, flag, sflag⟩

/-- The percentage, when the two numbers of the kernel can be had. -/
def printPctcpu (m : Machine) (pctcpu : CharArray 20) (p : Process) :
    Except Fault (CharArray 20) :=
  match p.ccpu, p.fscale with
  | none, _ => .error (.croak "cannot get kern.ccpu")
  | some _, none => .error (.croak "cannot get kern.fscale")
  | some ccpu, some fscale =>
      inBounds (pctcpu.sprintf (m.printPctcpu
        (if p.proc.kiSwtime = 0 ∨ p.proc.kiFlag &&& m.P_INMEM = 0 then none
        else some ⟨p.proc.kiPctcpu, p.proc.kiSwtime, ccpu, fscale⟩)))

def oncpu (p : KinfoProc) : SV := if p.kiOncpu = 0xff then .undef else .iv p.kiOncpu.toNat

/-- The resident size in bytes: the `int` is widened, and the product has 64 bits. -/
def rss (m : Machine) (p : KinfoProc) : Int64 := p.kiRssize * m.getpagesize.toInt64

/-- The arguments behind `format` and `Fields`. -/
def args (m : Machine) (p : KinfoProc) (s : Locals m) : List Slot :=
  [half (m.upper 0) p.kiPid.toUInt32,
    half (m.upper 1) p.kiPpid.toUInt32,
    half (m.upper 2) p.kiRuid,
    half (m.upper 3) p.kiUid,
    half (m.upper 4) p.kiRgid,
    half (m.upper 5) p.kiPgid.toUInt32,
    half (m.upper 6) p.kiSid.toUInt32,
    half (m.upper 7) p.kiJid.toUInt32,
    .ptr (some s.texts.flag.bytes),
    .ptr (some s.texts.sflag.bytes),
    .ptr (some s.texts.start.bytes),
    .ptr (some s.texts.time.bytes),
    .ptr (some s.texts.utime.bytes),
    .ptr (some s.texts.stime.bytes),
    .ptr (some s.texts.ctime.bytes),
    .ptr (some s.texts.cutime.bytes),
    .ptr (some s.texts.cstime.bytes),
    .ptr (some s.pctcpu.bytes),
    .ptr (some p.kiWmesg),
    .ptr (some s.state.bytes),
    .ptr (some ['?', '?', nul]),
    half (m.upper 21) p.kiTdev,
    .ptr (some p.kiComm),
    .ptr (some s.cmndline.bytes),
    half (m.upper 24) p.priUser.toUInt32,
    half (m.upper 25) p.kiNice.toInt32.toUInt32,
    .word p.kiSize,
    .word p.kiSize,
    .word p.kiRssize.toUInt64,
    .word (rss m p).toUInt64,
    .word p.kiTsize.toUInt64,
    .word p.kiDsize.toUInt64,
    .word p.kiSsize.toUInt64,
    .word p.kiRusage.ruMajflt.toUInt64,
    .word p.kiRusage.ruMinflt.toUInt64,
    .word p.kiRusageCh.ruMajflt.toUInt64,
    .word p.kiRusageCh.ruMinflt.toUInt64,
    half (m.upper 37) p.kiNumthreads.toUInt32,
    .sv (oncpu p),
    .sv (m.groupRef p.kiGroups)]

/-- One iteration up to the call of `bless_into_proc`. -/
def blessProc (m : Machine) (s : Locals m) (p : Process) : Except Fault (Locals m) := do
  let format ← inBounds (s.format.sprintf Defaultformat)
  let cmndline ← commandLine m.ARG_MAX p.argv s.cmndline
  let state ← inBounds (s.state.sprintf p.proc.kiStat.state.toList)
  let texts ← printTexts m s.texts p.proc
  let pctcpu ← printPctcpu m s.pctcpu p
  return ⟨format, cmndline, state, texts, pctcpu⟩

/-- One iteration. -/
def visit (m : Machine) (s : Locals m) (p : Process) : Locals m × Except Fault (Option BlessCall) :=
  match blessProc m s p with
  | .error f => (s, .error f)
  | .ok s => (s, .ok (some ⟨s.format.bytes, Fields, args m p.proc s⟩))

/-- `OS_get_table`: whether `kvm_openfiles` works, and the processes that `kvm_getprocs`
answers.  The texts of the errors are passed behind patterns that have no place for
them. -/
def osGetTable (m : Machine) (kvmOpen : Bool) (kvmGetprocs : Option (List Process))
    (residue : Locals m) : Scan :=
  match kvmOpen, kvmGetprocs with
  | false, _ => ⟨[], some (.croak "kvm_open: ")⟩
  | true, none => ⟨[], some (.croak "kvm_getprocs: ")⟩
  | true, some procs => loopScan (visit m) residue procs

/-- The rows of the call for a process. -/
def rows (m : Machine) (p : KinfoProc) (s : Locals m) : List CallRow :=
  callRows Defaultformat Fields (args m p s)

/-- **A turn that gets to its call** makes it with the arrays it leaves. -/
theorem visit_call {m : Machine} {s s' : Locals m} {p : Process} {call : BlessCall}
    (h : visit m s p = (s', .ok (some call))) : call.Rows (rows m p.proc s') := by
  unfold visit at h
  cases hbless : blessProc m s p with
  | error f =>
      rw [hbless] at h
      cases h
  | ok out =>
      rw [hbless] at h
      cases h
      obtain ⟨format, hformat, hrest⟩ := bind_eq_ok hbless
      obtain ⟨cmndline, -, hrest⟩ := bind_eq_ok hrest
      obtain ⟨state, -, hrest⟩ := bind_eq_ok hrest
      obtain ⟨texts, -, hrest⟩ := bind_eq_ok hrest
      obtain ⟨pctcpu, -, hrest⟩ := bind_eq_ok hrest
      obtain rfl := Except.ok.inj hrest
      have hstring := CharArray.string_of_sprintf (inBounds_eq_ok hformat) (by decide)
      exact BlessCall.rows_of hstring rfl rfl rfl

/-- What a turn publishes, if anything. -/
theorem turn_rows {m : Machine} {s : Locals m} {p : Process} {ttydevs : Option HV} {obj : HV}
    (hobj : obj ∈ (turn ttydevs (visit m s p).2).1) :
    ∃ (call : BlessCall) (s' : Locals m), call.Rows (rows m p.proc s') ∧
      obj = call.object ttydevs := by
  have hcases : (∃ f, (visit m s p).2 = .error f) ∨
      ∃ s' call, visit m s p = (s', .ok (some call)) := by
    unfold visit
    cases blessProc m s p with
    | error f => exact Or.inl ⟨f, rfl⟩
    | ok s' => exact Or.inr ⟨s', _, rfl⟩
  obtain ⟨f, hfault⟩ | ⟨s', call, hvisit⟩ := hcases
  · rw [hfault] at hobj
    cases hobj
  · have hrows := visit_call hvisit
    rw [hvisit] at hobj
    dsimp only at hobj
    rw [turn_call (hrows.made_object ttydevs)] at hobj
    exact ⟨call, s', hrows, List.mem_singleton.mp hobj⟩

/-! ### The sizes -/

open OpenBsd (FitsInt bmod_eq_self_iff)

/-- The `int` in a slot is the number up to a reduction by `2 ^ 32`. -/
theorem number_int (w : UInt64) {x : Int} (hx : (w.toNat : Int).bmod (2 ^ 64) = x.bmod (2 ^ 64)) :
    (shown 'i' (.word w)).1.number = some (x.bmod (2 ^ 32)) := by
  have hint : (toInt w).toInt = (w.toNat : Int).bmod (2 ^ 32) := by
    show w.toUInt32.toBitVec.toInt = _
    rw [BitVec.toInt_eq_toNat_bmod]
    show ((w.toUInt32.toNat : Int)).bmod (2 ^ 32) = _
    rw [UInt64.toNat_toUInt32, Int.natCast_emod]
    exact Int.emod_bmod _ _
  have hdvd : ∀ y : Int, (y.bmod (2 ^ 64)).bmod (2 ^ 32) = y.bmod (2 ^ 32) := fun y =>
    Int.bmod_bmod_of_dvd (by decide)
  show some (toInt w).toInt = _
  rw [hint, ← hdvd, hx, hdvd]

/-- The `unsigned` in a slot. -/
theorem number_unsigned (w : UInt64) :
    (shown 'u' (.word w)).1.number = some ((w.toNat % 2 ^ 32 : Nat) : Int) := by
  show some ((w.toUInt32.toNat : Nat) : Int) = _
  rw [UInt64.toNat_toUInt32]

/-- The sizes of a process as the kernel has them: the virtual size, the resident size in
pages, and that in bytes. -/
def KinfoProc.size (p : KinfoProc) : Int := p.kiSize.toNat

def KinfoProc.pages (p : KinfoProc) : Int := p.kiRssize.toInt

def Machine.rss (m : Machine) (p : KinfoProc) : Int := p.pages * m.getpagesize.toInt

/-- A signed number in its slot. -/
theorem bmod_slot (x : Int64) : ((x.toUInt64.toNat : Int)).bmod (2 ^ 64) = x.toInt := by
  rw [← toInt_toInt64]
  rfl

/-- The values under the four names. -/
theorem object_sizes {m : Machine} {p : KinfoProc} {s : Locals m} {call : BlessCall}
    (hrows : call.Rows (rows m p s)) (ttydevs : Option HV) :
    (call.object ttydevs "vmsize").bind SV.number = some (p.size.bmod (2 ^ 32)) ∧
      (call.object ttydevs "size").bind SV.number = some ((p.kiSize.toNat % 2 ^ 32 : Nat) : Int) ∧
      (call.object ttydevs "rssize").bind SV.number = some (p.pages.bmod (2 ^ 32)) ∧
      (call.object ttydevs "rss").bind SV.number = some ((m.rss p).bmod (2 ^ 32)) := by
  have hnodup : call.fields.Nodup := by
    rw [hrows.fields]
    show Fields.Nodup
    decide
  have hvmsize : (rows m p s)[26]? = some ⟨'i', "vmsize", .word p.kiSize⟩ := rfl
  have hsize : (rows m p s)[27]? = some ⟨'u', "size", .word p.kiSize⟩ := rfl
  have hrssize : (rows m p s)[28]? = some ⟨'i', "rssize", .word p.kiRssize.toUInt64⟩ := rfl
  have hrss : (rows m p s)[29]? = some ⟨'i', "rss", .word (rss m p).toUInt64⟩ := rfl
  have hread : ∀ {i : Nat} {row : CallRow}, (rows m p s)[i]? = some row → row.key ≠ "ttydev" →
      (call.object ttydevs row.key).bind SV.number = (shown row.char row.slot).1.number := by
    intro i row hrow hkey
    rw [hrows.object_at ttydevs hnodup hrow hkey]
    rfl
  refine ⟨(hread hvmsize (show "vmsize" ≠ "ttydev" by decide)).trans ?_,
    (hread hsize (show "size" ≠ "ttydev" by decide)).trans ?_,
    (hread hrssize (show "rssize" ≠ "ttydev" by decide)).trans ?_,
    (hread hrss (show "rss" ≠ "ttydev" by decide)).trans ?_⟩
  · exact number_int p.kiSize rfl
  · exact number_unsigned p.kiSize
  · apply number_int
    rw [bmod_slot, KinfoProc.pages, ← bmod_slot p.kiRssize, Int.bmod_bmod]
  · apply number_int
    rw [bmod_slot, FreeBsdKvm.rss, Int64.toInt_mul, Int32.toInt_toInt64]
    rfl

/-- **One turn**: which sizes of its process an object has exactly. -/
theorem turn_sizes_iff {m : Machine} {s : Locals m} {p : Process} {ttydevs : Option HV} {obj : HV}
    (hobj : obj ∈ (turn ttydevs (visit m s p).2).1) :
    ((obj "vmsize").bind SV.number = some p.proc.size ↔ p.proc.size < 2 ^ 31) ∧
      ((obj "size").bind SV.number = some p.proc.size ↔ p.proc.size < 2 ^ 32) ∧
      ((obj "rssize").bind SV.number = some p.proc.pages ↔ FitsInt p.proc.pages) ∧
      ((obj "rss").bind SV.number = some (m.rss p.proc) ↔ FitsInt (m.rss p.proc)) := by
  obtain ⟨call, s', hrows, rfl⟩ := turn_rows hobj
  obtain ⟨hvmsize, hsize, hrssize, hrss⟩ := object_sizes hrows ttydevs
  have hpos : 0 ≤ p.proc.size := Int.natCast_nonneg _
  have hfits : FitsInt p.proc.size ↔ p.proc.size < 2 ^ 31 := by
    unfold FitsInt
    omega
  rw [hvmsize, hsize, hrssize, hrss, Option.some.injEq, Option.some.injEq, Option.some.injEq,
    Option.some.injEq, bmod_eq_self_iff, bmod_eq_self_iff, bmod_eq_self_iff, hfits]
  refine ⟨Iff.rfl, ?_, Iff.rfl, Iff.rfl⟩
  unfold KinfoProc.size
  omega

/-- **Which sizes are exact.**  In every scan the object of a process has the virtual size that
the kernel tells exactly when an `int` holds it under one name, and an `unsigned` under the
other, and its resident sizes exactly when an `int` holds them. -/
theorem memory_published_iff (m : Machine) (ttydevs : Option HV) (residue : Locals m)
    (pre : List Process) (p : Process) :
    ∀ obj ∈ addedBy (visit m) ttydevs residue pre p,
      ((obj "vmsize").bind SV.number = some p.proc.size ↔ p.proc.size < 2 ^ 31) ∧
        ((obj "size").bind SV.number = some p.proc.size ↔ p.proc.size < 2 ^ 32) ∧
        ((obj "rssize").bind SV.number = some p.proc.pages ↔ FitsInt p.proc.pages) ∧
        ((obj "rss").bind SV.number = some (m.rss p.proc) ↔ FitsInt (m.rss p.proc)) :=
  fun _ hobj => turn_sizes_iff (mem_turn_of_addedBy _ _ hobj)

/-- **A whole scan**: the objects are those of some of the processes, in the order of
`kvm_getprocs`, and each has the sizes of its own process under these conditions. -/
theorem osGetTable_sizes (m : Machine) (ttydevs : Option HV) (residue : Locals m)
    (procs : List Process) :
    List.SublistForall₂ (fun (obj : HV) (p : Process) =>
        ((obj "vmsize").bind SV.number = some p.proc.size ↔ p.proc.size < 2 ^ 31) ∧
          ((obj "size").bind SV.number = some p.proc.size ↔ p.proc.size < 2 ^ 32) ∧
          ((obj "rssize").bind SV.number = some p.proc.pages ↔ FitsInt p.proc.pages) ∧
          ((obj "rss").bind SV.number = some (m.rss p.proc) ↔ FitsInt (m.rss p.proc)))
      ((osGetTable m true (some procs) residue).objects ttydevs) procs :=
  objects_sublist (visit m) ttydevs (fun _ _ _ hobj => turn_sizes_iff hobj) residue procs

/-- A machine with pages of 4096 bytes. -/
def pages4096 : Machine where
  getpagesize := 4096
  ARG_MAX := 16
  P_INMEM := 4
  printRuntime _ := "0.000000".toList
  printPctcpu _ := "0.0".toList
  groupRef _ := .undef
  upper _ := 0

/-- Cleared arrays. -/
def Locals.cleared (m : Machine) : Locals m where
  format := .cleared 128
  cmndline := .cleared m.ARG_MAX
  state := .cleared 20
  texts :=
    let cleared : CharArray 20 := .cleared 20
    ⟨cleared, cleared, cleared, cleared, cleared, cleared, cleared, cleared, cleared⟩
  pctcpu := .cleared 20

/-- A process of 4 GiB, 2 GiB of them resident. -/
def fourGiB : Process where
  proc :=
    { kiPid := 42, kiPpid := 1, kiRuid := 0, kiUid := 0, kiRgid := 0, kiPgid := 42, kiSid := 42,
      kiJid := 0, kiFlag := 4, kiSflag := 0, kiStart := ⟨0, 0⟩, kiRuntime := 0,
      kiRusage := ⟨⟨0, 0⟩, ⟨0, 0⟩, 0, 0⟩, kiChildtime := ⟨0, 0⟩,
      kiRusageCh := ⟨⟨0, 0⟩, ⟨0, 0⟩, 0, 0⟩, kiSwtime := 0, kiPctcpu := 0, kiWmesg := ['w', nul],
      kiStat := .SRUN, kiTdev := 0, kiComm := ['d', nul], priUser := 0, kiNice := 0,
      kiSize := 4294967296, kiRssize := 524288, kiTsize := 0, kiDsize := 0, kiSsize := 0,
      kiNumthreads := 1, kiOncpu := 0xff, kiGroups := [] }
  argv := none
  ccpu := some 0
  fscale := some 2048

/-- What a scan of this process alone publishes. -/
theorem fourGiB_added :
    ∃ obj, addedBy (visit pages4096) none (Locals.cleared pages4096) [] fourGiB = [obj] ∧
      (obj "vmsize").bind SV.number = some 0 ∧ (obj "size").bind SV.number = some 0 ∧
      (obj "rssize").bind SV.number = some 524288 ∧
      (obj "rss").bind SV.number = some (-2147483648) := by
  have hsizes : (addedBy (visit pages4096) none (Locals.cleared pages4096) [] fourGiB).map
      (fun obj => ["vmsize", "size", "rssize", "rss"].map fun key => (obj key).bind SV.number) =
        [[some 0, some 0, some 524288, some (-2147483648)]] := by
    decide
  obtain ⟨obj, rest, hadded, hobj, hrest⟩ := List.map_eq_cons_iff.mp hsizes
  obtain rfl := List.map_eq_nil_iff.mp hrest
  obtain ⟨hvmsize, hobj⟩ := List.cons_eq_cons.mp hobj
  obtain ⟨hsize, hobj⟩ := List.cons_eq_cons.mp hobj
  obtain ⟨hrssize, hobj⟩ := List.cons_eq_cons.mp hobj
  exact ⟨obj, hadded, hvmsize, hsize, hrssize, (List.cons_eq_cons.mp hobj).1⟩

theorem memory_published_fourGiB :
    ∃ obj ∈ addedBy (visit pages4096) none (Locals.cleared pages4096) [] fourGiB,
      ((obj "vmsize").bind SV.number = some fourGiB.proc.size ↔ fourGiB.proc.size < 2 ^ 31) ∧
        ((obj "size").bind SV.number = some fourGiB.proc.size ↔ fourGiB.proc.size < 2 ^ 32) ∧
        ((obj "rssize").bind SV.number = some fourGiB.proc.pages ↔ FitsInt fourGiB.proc.pages) ∧
        ((obj "rss").bind SV.number = some (pages4096.rss fourGiB.proc) ↔
          FitsInt (pages4096.rss fourGiB.proc)) := by
  obtain ⟨obj, hadded, -⟩ := fourGiB_added
  have hmem : obj ∈ addedBy (visit pages4096) none (Locals.cleared pages4096) [] fourGiB := by
    rw [hadded]
    exact List.mem_singleton_self obj
  exact ⟨obj, hmem, memory_published_iff pages4096 none (Locals.cleared pages4096) [] fourGiB obj hmem⟩

/-- **A process of 4 GiB is published with the size 0**, and its 2 GiB of resident memory as
-2147483648 bytes. -/
theorem sizes_lost :
    ∃ obj, addedBy (visit pages4096) none (Locals.cleared pages4096) [] fourGiB = [obj] ∧
      (obj "vmsize").bind SV.number = some 0 ∧ (obj "size").bind SV.number = some 0 ∧
      (obj "rssize").bind SV.number = some 524288 ∧
      (obj "rss").bind SV.number = some (-2147483648) ∧
      fourGiB.proc.size = 4294967296 ∧ pages4096.rss fourGiB.proc = 2147483648 := by
  obtain ⟨obj, hadded, hvmsize, hsize, hrssize, hrss⟩ := fourGiB_added
  exact ⟨obj, hadded, hvmsize, hsize, hrssize, hrss, by decide, by decide⟩

end FreeBsdKvm
