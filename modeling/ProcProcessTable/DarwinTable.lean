import ProcProcessTable.CallRows
import ProcProcessTable.CharArray
import ProcProcessTable.DarwinArguments
import ProcProcessTable.DarwinTask
import ProcProcessTable.DecimalText
import ProcProcessTable.ScanLoop

/-!
# The process table of Darwin

`OS_get_table` takes the processes that `sysctl` returns from the last to the first.
For each it asks about the task and the arguments, prints the share of the cpu and of
the memory into two arrays of 6 bytes, and looks the state up in `States`.

`turn_object` says what the object of a process has under the names of these.
-/

namespace Darwin

open CText Xs ProcessTable

def Format : List Char := "iiiiiiiiiiiiiiijjjllslsssss".toList

def Fields : List String :=
  ["pid", "ppid", "pgrp", "uid", "gid", "euid", "egid", "suid", "sgid", "priority", "size", "rss",
    "flags", "nice", "sess", "time", "stime", "utime", "start", "wchan", "ttydev", "ttynum",
    "pctcpu", "pctmem", "state", "cmndline", "fname"]

def States : List String := ["", "idle", "run", "sleep", "stop", "zombie"]

def SZOMB : Nat := 5

/-- The members of `struct kinfo_proc` that are read. -/
structure KinfoProc where
  pPid : Int32
  pStat : Int8
  pFlag : Int32
  pNice : Int8
  pStarttime : Int64
  pWchan : UInt64
  pComm : Mem
  ePpid : Int32
  ePgid : Int32
  pRuid : UInt32
  pRgid : UInt32
  crUid : UInt32
  crGid : UInt32
  pSvuid : UInt32
  pSvgid : UInt32
  eSess : UInt64
  eTdev : Int32

/-- A process, with what the kernel answers about its task and its arguments. -/
structure Process where
  proc : KinfoProc
  task : Option Task
  space : ArgumentSpace

/-- A process, and what the memory for the answers about its threads holds before them. -/
structure Entry where
  process : Process
  fresh : Nat → ThreadBasicInfo

/-- What holds for a whole scan: the order of the bytes of an `int`, the user, the sizes of the
shared segments, and what the floating-point operations make of a resident size.  The upper
halves of the 4-byte arguments are given by the place of the argument in the call. -/
structure Machine where
  int : Mem → Int32
  getuid : UInt32
  shared : SharedRegion
  printPctmem : UInt64 → List Char
  upper : Nat → UInt32

/-- The arrays of `OS_get_table`. -/
structure Locals where
  pctcpu : CharArray 6
  pctmem : CharArray 6

/-! ### What is computed -/

def TH_USAGE_SCALE : Int32 := 1000

def usageToPercent (u : Int32) : Int32 := u * 100 / TH_USAGE_SCALE

def usageToTenths (u : Int32) : Int32 := u * 1000 / TH_USAGE_SCALE % 10

/-- `%d.%01d` -/
def pctcpuText (u : Int32) : List Char :=
  (toString (usageToPercent u).toInt).toList ++ '.' :: (toString (usageToTenths u).toInt).toList

/-- `time_value_add` -/
def timeValueAdd (result addend : TimeValue) : TimeValue :=
  let microseconds := result.microseconds + addend.microseconds
  let seconds := result.seconds + addend.seconds
  if 1000000 ≤ microseconds then ⟨seconds + 1, microseconds - 1000000⟩ else ⟨seconds, microseconds⟩

/-- `time_value_to_ticks`, in microseconds. -/
def timeValueToTicks (x : TimeValue) : Int64 := 1000000 * x.seconds.toInt64 + x.microseconds.toInt64

def userTime (ki : Kinfo) : TimeValue := timeValueAdd ki.tasksInfo.userTime ki.times.userTime

def systemTime (ki : Kinfo) : TimeValue := timeValueAdd ki.tasksInfo.systemTime ki.times.systemTime

def totalTime (ki : Kinfo) : TimeValue := timeValueAdd (userTime ki) (systemTime ki)

/-- The index into `States`. -/
def state (p : KinfoProc) (ki : Kinfo) : Nat := if p.pStat.toInt = SZOMB then SZOMB else ki.state

/-- What is passed for the command line. -/
def cmndline (commandName : List Char) : Mem :=
  if commandName.length = 0 then [nul] else commandName ++ [nul]

/-- The arguments behind `Format` and `Fields`. -/
def args (m : Machine) (p : KinfoProc) (ki : Kinfo) (s : Locals) (word : String)
    (commandName : List Char) : List Slot :=
  [half (m.upper 0) p.pPid.toUInt32,
    half (m.upper 1) p.ePpid.toUInt32,
    half (m.upper 2) p.ePgid.toUInt32,
    half (m.upper 3) p.pRuid,
    half (m.upper 4) p.pRgid,
    half (m.upper 5) p.crUid,
    half (m.upper 6) p.crGid,
    half (m.upper 7) p.pSvuid,
    half (m.upper 8) p.pSvgid,
    half (m.upper 9) ki.curpri.toUInt32,
    .word (ki.tasksInfo.virtualSize / 1024),
    .word (ki.tasksInfo.residentSize / 1024),
    half (m.upper 12) p.pFlag.toUInt32,
    half (m.upper 13) p.pNice.toInt32.toUInt32,
    .word p.eSess,
    .word (timeValueToTicks (totalTime ki)).toUInt64,
    .word (timeValueToTicks (systemTime ki)).toUInt64,
    .word (timeValueToTicks (userTime ki)).toUInt64,
    .word p.pStarttime.toUInt64,
    .word p.pWchan,
    .ptr (some [nul]),
    half (m.upper 21) p.eTdev.toUInt32,
    .ptr (some s.pctcpu.bytes),
    .ptr (some s.pctmem.bytes),
    .ptr (some (word.toList ++ [nul])),
    .ptr (some (cmndline commandName)),
    .ptr (some p.pComm)]

/-- What `get_task_info` fills in for a process. -/
def Entry.kinfo (m : Machine) (e : Entry) : Kinfo := getTaskInfo m.shared e.fresh e.process.task

/-- What `getproclline` returns for a process. -/
def Process.commandName (m : Machine) (p : Process) : Except Fault (List Char) :=
  getproclline m.int m.getuid p.proc.pRuid p.proc.pComm p.space false true

/-- One iteration up to the call of `bless_into_proc`. -/
def blessProc (m : Machine) (s : Locals) (e : Entry) :
    Except Fault (Locals × String × List Char) := do
  let commandName ← e.process.commandName m
  let pctcpu ← inBounds (s.pctcpu.sprintf (pctcpuText (e.kinfo m).cpuUsage))
  let pctmem ← inBounds (s.pctmem.sprintf (m.printPctmem (e.kinfo m).tasksInfo.residentSize))
  let word ← inBounds States[state e.process.proc (e.kinfo m)]?
  return (⟨pctcpu, pctmem⟩, word, commandName)

/-- One iteration. -/
def visit (m : Machine) (s : Locals) (e : Entry) : Locals × Except Fault (Option BlessCall) :=
  match blessProc m s e with
  | .error f => (s, .error f)
  | .ok (s, word, commandName) =>
      (s, .ok (some ⟨Format ++ [nul], Fields,
        args m e.process.proc (e.kinfo m) s word commandName⟩))

/-- `OS_get_table`: whether the first `sysctl` works, whether there is memory, and the answers
to the second, of which 1001 are waited for.  Where one of them is missing, a message is printed
and nothing is published. -/
def osGetTable (m : Machine) (bufSize malloc : Bool) (sysctl : Nat → Option (List Entry))
    (residue : Locals) : Scan :=
  if bufSize = false ∨ malloc = false then ⟨[], none⟩
  else
    match (List.range 1001).findSome? sysctl with
    | none => ⟨[], none⟩
    | some kprocbuf => loopScan (visit m) residue kprocbuf.reverse

/-! ### What is published -/

/-- The rows of the call for a process. -/
def rows (m : Machine) (p : KinfoProc) (ki : Kinfo) (s : Locals) (word : String)
    (commandName : List Char) : List CallRow :=
  callRows Format Fields (args m p ki s word commandName)

theorem call_rows (m : Machine) (p : KinfoProc) (ki : Kinfo) (s : Locals) (word : String)
    (commandName : List Char) :
    BlessCall.Rows ⟨Format ++ [nul], Fields, args m p ki s word commandName⟩
      (rows m p ki s word commandName) :=
  BlessCall.rows_of (show cstr (Format ++ [nul]) = Format by decide) rfl rfl rfl

/-- A text without a NUL is published as it is. -/
theorem shown_text {text : List Char} (h : nul ∉ text) :
    (shown 's' (.ptr (some (text ++ [nul])))).1 = .pv text := by
  show SV.pv (cstr (text ++ [nul])) = _
  rw [cstr_terminated h]

theorem shown_cmndline {commandName : List Char} (h : nul ∉ commandName) :
    (shown 's' (.ptr (some (cmndline commandName)))).1 = .pv commandName := by
  unfold cmndline
  split
  · next hlen =>
      obtain rfl := List.eq_nil_of_length_eq_zero hlen
      rfl
  · exact shown_text h

theorem nul_not_mem_pctcpuText (u : Int32) : nul ∉ pctcpuText u := by
  have hfree : ∀ x : Int, nul ∉ (toString x).toList := fun x =>
    DecimalText.not_mem_toString (by decide) (by decide) x
  unfold pctcpuText
  rw [List.mem_append, List.mem_cons, not_or, not_or]
  exact ⟨hfree _, by decide, hfree _⟩

/-- **A turn that gets to its call**: what it has computed. -/
theorem visit_call {m : Machine} {s s' : Locals} {e : Entry} {call : BlessCall}
    (h : visit m s e = (s', .ok (some call))) :
    ∃ word commandName, States[state e.process.proc (e.kinfo m)]? = some word ∧
      e.process.commandName m = .ok commandName ∧
      s'.pctcpu.string = pctcpuText (e.kinfo m).cpuUsage ∧
      call.Rows (rows m e.process.proc (e.kinfo m) s' word commandName) := by
  unfold visit at h
  cases hbless : blessProc m s e with
  | error f =>
      rw [hbless] at h
      cases h
  | ok out =>
      rw [hbless] at h
      obtain ⟨commandName, hname, hrest⟩ := bind_eq_ok hbless
      obtain ⟨pctcpu, hpctcpu, hrest⟩ := bind_eq_ok hrest
      obtain ⟨pctmem, -, hrest⟩ := bind_eq_ok hrest
      obtain ⟨word, hword, hrest⟩ := bind_eq_ok hrest
      obtain rfl := Except.ok.inj hrest
      cases h
      refine ⟨word, commandName, inBounds_eq_ok hword, hname, ?_, call_rows m _ _ _ word commandName⟩
      exact CharArray.string_of_sprintf (inBounds_eq_ok hpctcpu) (nul_not_mem_pctcpuText _)

/-- **What the object of a process has** under the names that are computed here. -/
theorem turn_object {m : Machine} {s : Locals} {e : Entry} {ttydevs : Option HV} {obj : HV}
    (hobj : obj ∈ (turn ttydevs (visit m s e).2).1) :
    ∃ word commandName, States[state e.process.proc (e.kinfo m)]? = some word ∧
      e.process.commandName m = .ok commandName ∧
      obj "state" = some (.pv word.toList) ∧
      obj "cmndline" = some (.pv commandName) ∧
      obj "pctcpu" = some (.pv (pctcpuText (e.kinfo m).cpuUsage)) := by
  have hcases : (∃ f, (visit m s e).2 = .error f) ∨
      ∃ s' call, visit m s e = (s', .ok (some call)) := by
    unfold visit
    cases blessProc m s e with
    | error f => exact Or.inl ⟨f, rfl⟩
    | ok out => exact Or.inr ⟨out.1, _, rfl⟩
  obtain ⟨f, hfault⟩ | ⟨s', call, hvisit⟩ := hcases
  · rw [hfault] at hobj
    cases hobj
  · obtain ⟨word, commandName, hword, hname, hpctcpu, hrows⟩ := visit_call hvisit
    rw [hvisit] at hobj
    dsimp only at hobj
    rw [turn_call (hrows.made_object ttydevs)] at hobj
    obtain rfl := List.mem_singleton.mp hobj
    have hnodup : call.fields.Nodup := by
      rw [hrows.fields]
      show Fields.Nodup
      decide
    have hrowPctcpu : (rows m e.process.proc (e.kinfo m) s' word commandName)[22]? =
        some ⟨'s', "pctcpu", .ptr (some s'.pctcpu.bytes)⟩ := rfl
    have hrowState : (rows m e.process.proc (e.kinfo m) s' word commandName)[24]? =
        some ⟨'s', "state", .ptr (some (word.toList ++ [nul]))⟩ := rfl
    have hrowLine : (rows m e.process.proc (e.kinfo m) s' word commandName)[25]? =
        some ⟨'s', "cmndline", .ptr (some (cmndline commandName))⟩ := rfl
    have hfree : ∀ w ∈ States, nul ∉ w.toList := by decide
    refine ⟨word, commandName, hword, hname, ?_, ?_, ?_⟩
    · refine (hrows.object_at ttydevs hnodup hrowState (show "state" ≠ "ttydev" by decide)).trans ?_
      exact congrArg some (shown_text (hfree word (List.mem_of_getElem? hword)))
    · refine (hrows.object_at ttydevs hnodup hrowLine (show "cmndline" ≠ "ttydev" by decide)).trans ?_
      exact congrArg some (shown_cmndline (getproclline_free hname))
    · refine (hrows.object_at ttydevs hnodup hrowPctcpu (show "pctcpu" ≠ "ttydev" by decide)).trans ?_
      exact congrArg (fun text => some (SV.pv text)) hpctcpu

/-- **A whole scan**: the objects are those of some of the processes of the first answer, from
its last to its first, each with what its turn makes. -/
theorem osGetTable_sublist (m : Machine) (ttydevs : Option HV) (residue : Locals)
    {sysctl : Nat → Option (List Entry)} {kprocbuf : List Entry}
    (hanswer : (List.range 1001).findSome? sysctl = some kprocbuf) {P : HV → Entry → Prop}
    (hturn : ∀ s e, ∀ obj ∈ (turn ttydevs (visit m s e).2).1, P obj e) :
    List.SublistForall₂ P ((osGetTable m true true sysctl residue).objects ttydevs)
      kprocbuf.reverse := by
  unfold osGetTable
  rw [if_neg (by decide), hanswer]
  exact objects_sublist (visit m) ttydevs hturn residue kprocbuf.reverse

end Darwin
