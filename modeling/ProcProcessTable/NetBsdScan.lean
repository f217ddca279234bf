import ProcProcessTable.BsdProcFs
import ProcProcessTable.CallRows
import ProcProcessTable.ProcFsScan
import ProcProcessTable.ScanLoop

/-!
# The scan of /proc on NetBSD

The loop of `NetBSD.c` is the one of `FreeBSD.c`.  Both read the command line of a
process into an array that stands outside the loop, and lower the flag of the field
only when they got something.  On FreeBSD the default format has `S` there.  On NetBSD it
has `s`, and the array is published whatever it holds.

`cmndline_own_iff` says for which entries that is their own, `osGetTable_own` what it comes
to over a whole scan.
-/

namespace NetBsd

open CText Xs ProcessTable BsdProcFs

def Defaultformat : List Char := "iiiiiissssssiisssis".toList

def Fields : List String :=
  ["uid", "gid", "pid", "ppid", "pgrp", "sess", "flags", "utime", "stime", "time", "wchan", "start",
    "euid", "egid", "fname", "state", "ttydev", "ttynum", "cmndline"]

def F_CMNDLINE : Nat := 18

/-- `struct procstat`, with the strings in its arrays. -/
structure Procstat where
  comm : Mem
  pid : Int32
  ppid : Int32
  pgid : Int32
  sid : Int32
  tdevMaj : Int32
  tdevMin : Int32
  flags : Mem
  start : Int32
  startMic : Int32
  utime : Int32
  utimeMic : Int32
  stime : Int32
  stimeMic : Int32
  wchan : Mem
  euid : Int32
  ruid : Int32
  rgid : Int32
  egid : Int32
  groups : Mem

/-- `memset(&prs, 0, sizeof(prs))`. -/
def Procstat.zero : Procstat :=
  ⟨[nul], 0, 0, 0, 0, 0, 0, [nul], 0, 0, 0, 0, 0, 0, [nul], 0, 0, 0, 0, [nul]⟩

/-- The constants of the system, and its `makedev` and `devname`.  The upper halves of
the 4-byte arguments are given by the place of the argument in the call. -/
structure System where
  MAXCOMLEN : Nat
  ARG_MAX : Nat
  makedev : Int32 → Int32 → Int32
  devname : Int32 → Option Mem
  upper : Nat → UInt32
  ARG_MAX_pos : 0 < ARG_MAX

def statusFormat : List Char :=
  "%s %d %d %d %d %d,%d %s %d,%d %d,%d %d,%d %s %d %d %d,%d,%s".toList

/-- The pointers behind the format. -/
def statusPointers (sys : System) : List (Pointer Procstat) :=
  [.array (sys.MAXCOMLEN + 1) fun s p => { p with comm := s },
    .int fun v p => { p with pid := v },
    .int fun v p => { p with ppid := v },
    .int fun v p => { p with pgid := v },
    .int fun v p => { p with sid := v },
    .int fun v p => { p with tdevMaj := v },
    .int fun v p => { p with tdevMin := v },
    .array 256 fun s p => { p with flags := s },
    .int fun v p => { p with start := v },
    .int fun v p => { p with startMic := v },
    .int fun v p => { p with utime := v },
    .int fun v p => { p with utimeMic := v },
    .int fun v p => { p with stime := v },
    .int fun v p => { p with stimeMic := v },
    .array 256 fun s p => { p with wchan := s },
    .int fun v p => { p with euid := v },
    .int fun v p => { p with ruid := v },
    .int fun v p => { p with rgid := v },
    .int fun v p => { p with egid := v },
    .array 256 fun s p => { p with groups := s }]

/-- Seconds and microseconds as a `double`: both operands of the division are of type
`int`, and so is the sum. -/
def seconds (sec mic : Int32) : Int := (sec + mic / 1000000).toInt

/-- `%f` of a `double` that is an integer. -/
def printSeconds (x : Int) : Mem := (toString x).toList ++ ".000000".toList ++ [nul]

/-- The arguments behind `format` and `Fields`. -/
def args (sys : System) (prs : Procstat) (cmndline : Mem) : List Slot :=
  let utime := seconds prs.utime prs.utimeMic
  let stime := seconds prs.stime prs.stimeMic
  let start := seconds prs.start prs.startMic
  let ttynum := sys.makedev prs.tdevMaj prs.tdevMin
  [half (sys.upper 0) prs.ruid.toUInt32,
    half (sys.upper 1) prs.rgid.toUInt32,
    half (sys.upper 2) prs.pid.toUInt32,
    half (sys.upper 3) prs.ppid.toUInt32,
    half (sys.upper 4) prs.pgid.toUInt32,
    half (sys.upper 5) prs.sid.toUInt32,
    .ptr (some prs.flags),
    .ptr (some (printSeconds utime)),
    .ptr (some (printSeconds stime)),
    .ptr (some (printSeconds (utime + stime))),
    .ptr (some prs.wchan),
    .ptr (some (printSeconds start)),
    half (sys.upper 12) prs.euid.toUInt32,
    half (sys.upper 13) prs.egid.toUInt32,
    .ptr (some prs.comm),
    .ptr (some prs.wchan),
    .ptr (some ((sys.devname ttynum).getD ['?', '?', nul])),
    half (sys.upper 17) ttynum.toUInt32,
    .ptr (some cmndline)]

/-- A directory entry with the contents of its two files, `none` where the file cannot
be opened. -/
structure Entry where
  dName : Mem
  status : Option (List Char)
  cmdline : Option (List Char)

/-- One turn of the loop, with the array for the command line. -/
def visit (sys : System) (cmndline : CharArray sys.ARG_MAX) (e : Entry) :
    CharArray sys.ARG_MAX × Except Fault (Option BlessCall) :=
  if ProcFs.noToken e.dName = false then (cmndline, .ok none)
  else
    match getProcstat statusFormat (statusPointers sys) e.status Procstat.zero with
    | .error f => (cmndline, .error f)
    | .ok none => (cmndline, .ok none)
    | .ok (some prs) =>
        match readCmdline F_CMNDLINE (Defaultformat ++ [nul]) cmndline e.cmdline with
        | .error f => (cmndline, .error f)
        | .ok (format, cmndline) =>
            (cmndline, .ok (some ⟨format, Fields, args sys prs cmndline.bytes⟩))

/-- `OS_get_table`, from what the array holds on entry. -/
def osGetTable (sys : System) (procdir : Option (List Entry)) (residue : CharArray sys.ARG_MAX) :
    Scan :=
  match procdir with
  | none => ⟨[], none⟩
  | some entries => loopScan (visit sys) residue entries

/-! ### The command line of an entry -/

/-- The command line an entry should be published with. -/
def Entry.ownCmndline (e : Entry) : SV :=
  match e.cmdline with
  | none => .undef
  | some content => if content = [] then .undef else .pv (content.map spaceForNul)

/-- An entry that is a process and whose status file is scanned. -/
structure Entry.Scanned (sys : System) (e : Entry) : Prop where
  isPid : ProcFs.noToken e.dName = true
  status : ∃ text, e.status = some text ∧
    ∀ pair ∈ (statusPointers sys).zip (fscanf statusFormat text), pair.1.Fits pair.2

/-- The `cmdline` file was opened and has something in it. -/
def Entry.HasCmdline (e : Entry) : Prop := ∃ content, e.cmdline = some content ∧ content ≠ []

/-- The rows of the call for a process. -/
def rows (sys : System) (prs : Procstat) (cmndline : Mem) : List CallRow :=
  callRows Defaultformat Fields (args sys prs cmndline)

/-- An entry gets to the command line exactly when it is scanned. -/
theorem getProcstat_some_iff (sys : System) {e : Entry} (hpid : ProcFs.noToken e.dName = true) :
    (∃ prs, getProcstat statusFormat (statusPointers sys) e.status Procstat.zero = .ok (some prs)) ↔
      e.Scanned sys :=
  (BsdProcFs.getProcstat_some_iff Procstat.zero).trans ⟨fun h => ⟨hpid, h⟩, fun h => h.status⟩

section

variable (sys : System) (ttydevs : Option HV) (cmndline : CharArray sys.ARG_MAX) {e : Entry}

/-- The object of a call holds the string of the array. -/
theorem object_cmndline (prs : Procstat) {format : Mem} (hformat : cstr format = Defaultformat) :
    ∃ obj, turn ttydevs (.ok (some ⟨format, Fields, args sys prs cmndline.bytes⟩)) = ([obj], none) ∧
      obj "cmndline" = some (.pv cmndline.string) := by
  have hrows : BlessCall.Rows ⟨format, Fields, args sys prs cmndline.bytes⟩
      (rows sys prs cmndline.bytes) := BlessCall.rows_of hformat rfl rfl rfl
  have hnodup : Fields.Nodup := by decide
  have hrow : (rows sys prs cmndline.bytes)[18]? =
      some ⟨'s', "cmndline", .ptr (some cmndline.bytes)⟩ := rfl
  refine ⟨_, turn_call (hrows.made_object ttydevs), ?_⟩
  exact hrows.object_at ttydevs hnodup hrow (show "cmndline" ≠ "ttydev" by decide)

/-- An entry that is not scanned adds nothing. -/
theorem turn_not_scanned (h : ¬ e.Scanned sys) : (turn ttydevs (visit sys cmndline e).2).1 = [] := by
  unfold visit
  by_cases hpid : ProcFs.noToken e.dName = false
  · rw [if_pos hpid]
    rfl
  · rw [if_neg hpid]
    have hiff := getProcstat_some_iff sys (Bool.not_eq_false _ ▸ hpid : ProcFs.noToken e.dName = true)
    cases hget : getProcstat statusFormat (statusPointers sys) e.status Procstat.zero with
    | error f => rfl
    | ok out =>
        cases out with
        | none => rfl
        | some prs => exact absurd (hiff.mp ⟨prs, hget⟩) h

/-- The turn of a process that is scanned, behind its status file. -/
theorem visit_scanned (hscanned : e.Scanned sys) :
    ∃ prs, visit sys cmndline e =
      match readCmdline F_CMNDLINE (Defaultformat ++ [nul]) cmndline e.cmdline with
      | .error f => (cmndline, .error f)
      | .ok (format, cmndline) =>
          (cmndline, .ok (some ⟨format, Fields, args sys prs cmndline.bytes⟩)) := by
  obtain ⟨prs, hget⟩ := (getProcstat_some_iff sys hscanned.isPid).mpr hscanned
  refine ⟨prs, ?_⟩
  unfold visit
  rw [if_neg (by rw [hscanned.isPid]; exact Bool.noConfusion), hget]

/-- **A process without a command line** is published with what the array holds. -/
theorem turn_stale (hscanned : e.Scanned sys) (hnone : ¬ e.HasCmdline) :
    ∃ obj, turn ttydevs (visit sys cmndline e).2 = ([obj], none) ∧
      obj "cmndline" = some (.pv cmndline.string) := by
  obtain ⟨prs, hvisit⟩ := visit_scanned sys cmndline hscanned
  have hread : readCmdline F_CMNDLINE (Defaultformat ++ [nul]) cmndline e.cmdline =
      .ok (Defaultformat ++ [nul], cmndline) := by
    cases hfile : e.cmdline with
    | none => rfl
    | some content =>
        have hempty : content = [] := by
          by_contra hne
          exact hnone ⟨content, hfile, hne⟩
        rw [hempty]
        exact readCmdline_empty F_CMNDLINE _ cmndline
  rw [hvisit, hread]
  exact object_cmndline sys ttydevs cmndline prs (by decide)

/-- **A process with a command line** that leaves room for the NUL is published with that,
and leaves it in the array. -/
theorem turn_filled (hscanned : e.Scanned sys) {content : List Char}
    (hfile : e.cmdline = some content) (hne : content ≠ []) (hroom : content.length < sys.ARG_MAX) :
    (visit sys cmndline e).1.string = content.map spaceForNul ∧
      ∃ obj, turn ttydevs (visit sys cmndline e).2 = ([obj], none) ∧
        obj "cmndline" = some (.pv (content.map spaceForNul)) := by
  obtain ⟨prs, hvisit⟩ := visit_scanned sys cmndline hscanned
  obtain ⟨out, hread, hstring⟩ :=
    readCmdline_filled F_CMNDLINE (Defaultformat ++ [nul]) cmndline hne hroom
  rw [← hfile] at hread
  rw [hvisit, hread]
  refine ⟨hstring, ?_⟩
  rw [← hstring]
  exact object_cmndline sys ttydevs out prs (by decide)

/-- Without the room the turn ends with a fault. -/
theorem turn_overflow (hscanned : e.Scanned sys) {content : List Char}
    (hfile : e.cmdline = some content) (hroom : sys.ARG_MAX ≤ content.length) :
    turn ttydevs (visit sys cmndline e).2 = ([], some .overflow) := by
  obtain ⟨prs, hvisit⟩ := visit_scanned sys cmndline hscanned
  have hread := readCmdline_overflow F_CMNDLINE (Defaultformat ++ [nul]) cmndline sys.ARG_MAX_pos hroom
  rw [← hfile] at hread
  rw [hvisit, hread]
  rfl

/-- A process with a command line is published with that, or not at all. -/
theorem turn_own (hscanned : e.Scanned sys) (hsome : e.HasCmdline) :
    ∀ obj ∈ (turn ttydevs (visit sys cmndline e).2).1, obj "cmndline" = some e.ownCmndline := by
  obtain ⟨content, hfile, hne⟩ := hsome
  have hown : e.ownCmndline = .pv (content.map spaceForNul) := by
    rw [Entry.ownCmndline, hfile]
    exact if_neg hne
  intro obj hobj
  by_cases hroom : content.length < sys.ARG_MAX
  · obtain ⟨-, obj', hturn, hcmndline⟩ := turn_filled sys ttydevs cmndline hscanned hfile hne hroom
    rw [hturn] at hobj
    rw [List.mem_singleton.mp hobj, hcmndline, hown]
  · rw [turn_overflow sys ttydevs cmndline hscanned hfile (Nat.not_lt.mp hroom)] at hobj
    exact absurd hobj List.not_mem_nil

end

/-- **A whole scan**: the objects are those of some of the entries, in the order of the
directory, all of them scanned, and those with a command line have their own. -/
theorem osGetTable_own (sys : System) (ttydevs : Option HV) (residue : CharArray sys.ARG_MAX)
    (entries : List Entry) :
    List.SublistForall₂ (fun (obj : HV) (e : Entry) =>
        e.Scanned sys ∧ (e.HasCmdline → obj "cmndline" = some e.ownCmndline))
      ((osGetTable sys (some entries) residue).objects ttydevs) entries := by
  apply objects_sublist (visit sys) ttydevs
  intro cmndline e obj hobj
  have hscanned : e.Scanned sys := by
    by_contra hnot
    rw [turn_not_scanned sys ttydevs cmndline hnot] at hobj
    exact List.not_mem_nil hobj
  exact ⟨hscanned, fun hsome => turn_own sys ttydevs cmndline hscanned hsome obj hobj⟩

/-- An array of NULs. -/
def clearedCmndline (sys : System) : CharArray sys.ARG_MAX :=
  ⟨List.replicate sys.ARG_MAX nul, List.length_replicate⟩

/-- **Whose command line is published.**  An entry is published with its own command line
in every scan, whatever stands before it and whatever the array held on entry, exactly
when it is no process that is scanned, or its `cmdline` file was opened and has something
in it. -/
theorem cmndline_own_iff (sys : System) (e : Entry) :
    (∀ ttydevs residue pre, ∀ obj ∈ addedBy (visit sys) ttydevs residue pre e,
        obj "cmndline" = some e.ownCmndline) ↔
      (e.Scanned sys → e.HasCmdline) := by
  constructor
  · intro hown hscanned
    by_contra hnone
    obtain ⟨obj, hturn, hobj⟩ := turn_stale sys none (clearedCmndline sys) hscanned hnone
    have hadded : addedBy (visit sys) none (clearedCmndline sys) [] e = [obj] := by
      rw [addedBy_eq]
      exact congrArg Prod.fst hturn
    have hval := hown none (clearedCmndline sys) [] obj (by rw [hadded]; exact List.mem_singleton_self obj)
    have hundef : e.ownCmndline = .undef := by
      unfold Entry.ownCmndline
      cases hfile : e.cmdline with
      | none => rfl
      | some content =>
          apply if_pos
          by_contra hne
          exact hnone ⟨content, hfile, hne⟩
    rw [hobj, hundef] at hval
    cases hval
  · intro hcond ttydevs residue pre obj hobj
    replace hobj := mem_turn_of_addedBy _ _ hobj
    by_cases hscanned : e.Scanned sys
    · exact turn_own sys ttydevs _ hscanned (hcond hscanned) obj hobj
    · rw [turn_not_scanned sys ttydevs _ hscanned] at hobj
      exact absurd hobj List.not_mem_nil

/-- A system with small arrays. -/
def sampleSystem : System := ⟨16, 64, fun maj _ => maj, fun _ => none, fun _ => 0, by decide⟩

/-- A process with the line of a status file and a command line. -/
def processEntry (dName cmdline : String) : Entry where
  dName := dName.toList ++ [nul]
  status := some "sh 42 1 42 42 5,0 ctty 0,0 0,0 0,0 ttyin 0 0 0,0,0".toList
  cmdline := some cmdline.toList

theorem processEntry_scanned {dName : String} (hpid : ProcFs.noToken (dName.toList ++ [nul]) = true)
    (cmdline : String) : (processEntry dName cmdline).Scanned sampleSystem :=
  ⟨hpid, _, rfl, by decide⟩

/-- **The command line of another process**: the file of the second process is empty, and
it is published with the command line of the first. -/
theorem cmndline_of_another :
    ∃ obj, addedBy (visit sampleSystem) none (clearedCmndline sampleSystem)
        [processEntry "1" "init"] (processEntry "2" "") = [obj] ∧
      obj "cmndline" = some (.pv "init".toList) ∧
      (processEntry "2" "").ownCmndline = .undef := by
  have hfirst : (processEntry "1" "init").Scanned sampleSystem :=
    processEntry_scanned (by decide) "init"
  have hsecond : (processEntry "2" "").Scanned sampleSystem := processEntry_scanned (by decide) ""
  have hnone : ¬ (processEntry "2" "").HasCmdline := by
    intro ⟨content, hfile, hne⟩
    exact hne (Option.some.inj hfile).symm
  have hfile : (processEntry "1" "init").cmdline = some "init".toList := rfl
  obtain ⟨hleft, obj, hturn, -⟩ := turn_filled sampleSystem none (clearedCmndline sampleSystem)
    hfirst hfile (by decide) (by decide)
  obtain ⟨obj', hturn', hobj'⟩ := turn_stale sampleSystem none
    (visit sampleSystem (clearedCmndline sampleSystem) (processEntry "1" "init")).1 hsecond hnone
  refine ⟨obj', ?_, ?_, by decide⟩
  · have hends : (loopScan (visit sampleSystem) (clearedCmndline sampleSystem)
        [processEntry "1" "init"]).ends none = none := congrArg Prod.snd hturn
    rw [addedBy_eq, hends]
    exact congrArg Prod.fst hturn'
  · rw [hobj', hleft]
    decide

end NetBsd
