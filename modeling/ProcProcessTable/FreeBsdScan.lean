import ProcProcessTable.NetBsdScan

/-!
# The scan of /proc on FreeBSD

`FreeBSD.c` has the loop of `NetBSD.c` with another default format: `S` for the
command line and `I` for the priority, each lowered when there is one.  The model is
that of FreeBSD 6 and later, where the status line has the name of the terminal.

`cmndline_safe_iff` says for which `cmdline` files the two ports stay inside their
array and publish what the file says; `osGetTable_own` that every object of a scan on
FreeBSD has its own command line.
-/

namespace BsdProcFs

open CText Xs ProcessTable

section

variable {ARG_MAX : Nat} {ε : Type}
  (visit : CharArray ARG_MAX → ε → CharArray ARG_MAX × Except Fault (Option BlessCall))

/-- In every scan the turn of an entry stores inside the array, and the text it publishes
is made of the first bytes of its file. -/
def CmndlineSafe (e : ε) (content : List Char) : Prop :=
  ∀ ttydevs residue pre, (loopScan visit residue pre).ends ttydevs = none →
    (loopScan visit residue (pre ++ [e])).ends ttydevs ≠ some .overflow ∧
      ∀ obj ∈ addedBy visit ttydevs residue pre e, ∀ text, obj "cmndline" = some (.pv text) →
        text = (content.take ARG_MAX).map spaceForNul

/-- It is enough to look at one turn, whatever the array holds. -/
theorem cmndlineSafe_iff (e : ε) (content : List Char) :
    CmndlineSafe visit e content ↔ ∀ ttydevs cmndline,
      (turn ttydevs (visit cmndline e).2).2 ≠ some .overflow ∧
        ∀ obj ∈ (turn ttydevs (visit cmndline e).2).1, ∀ text, obj "cmndline" = some (.pv text) →
          text = (content.take ARG_MAX).map spaceForNul := by
  unfold CmndlineSafe
  constructor
  · intro hsafe ttydevs cmndline
    have hfirst := hsafe ttydevs cmndline [] rfl
    rw [addedBy_eq] at hfirst
    exact hfirst
  · intro hturn ttydevs residue pre hends
    have hlast : (loopScan visit residue (pre ++ [e])).ends ttydevs =
        (turn ttydevs (visit (CarriedState.after visit residue pre) e).2).2 := by
      have hconcat := congrArg Prod.snd (loopScan_concat visit ttydevs residue pre e)
      rw [hends] at hconcat
      exact hconcat
    rw [addedBy_eq, hends, hlast]
    exact hturn ttydevs (CarriedState.after visit residue pre)

end

end BsdProcFs

namespace FreeBsd

open CText Xs ProcessTable BsdProcFs

open NetBsd (Entry)

def Defaultformat : List Char := "iiiiiissssssiisssiSI".toList

def Fields : List String :=
  ["uid", "gid", "pid", "ppid", "pgrp", "sess", "flags", "utime", "stime", "time", "wchan", "start",
    "euid", "egid", "fname", "state", "ttydev", "ttynum", "cmndline", "priority"]

def F_CMNDLINE : Nat := 18

def F_PRIORITY : Nat := 19

/-- `struct procstat`, with the strings in its arrays. -/
structure Procstat where
  comm : Mem
  pid : Int32
  ppid : Int32
  pgid : Int32
  sid : Int32
  ttydev : Mem
  flags : Mem
  start : Int32
  startMic : Int32
  utime : Int32
  utimeMic : Int32
  stime : Int32
  stimeMic : Int32
  wchan : Mem
  euid : Int32
  ruid : Int32
  rgid : Int32
  egid : Int32
  groups : Mem

/-- `memset(&prs, 0, sizeof(prs))`. -/
def Procstat.zero : Procstat :=
  ⟨[nul], 0, 0, 0, 0, [nul], [nul], 0, 0, 0, 0, 0, 0, [nul], 0, 0, 0, 0, [nul]⟩

/-- The constants of the system, the `st_rdev` of a file under `/dev`, the priority of a
process, and what `%f` prints for a sum of times, each in seconds and microseconds; the
text is shorter than its array.  The upper halves of the 4-byte arguments are given by the
place of the argument in the call. -/
structure System where
  MAXCOMLEN : Nat
  SPECNAMELEN : Nat
  ARG_MAX : Nat
  stRdev : Mem → Option Int32
  getpriority : Int32 → Option Int32
  printTimes : List (Int32 × Int32) → List Char
  upper : Nat → UInt32
  ARG_MAX_pos : 0 < ARG_MAX

def statusFormat : List Char := "%s %d %d %d %d %s %s %d,%d %d,%d %d,%d %s %d %d %d,%d,%s".toList

/-- The pointers behind the format. -/
def statusPointers (sys : System) : List (Pointer Procstat) :=
  [.array (sys.MAXCOMLEN + 1) fun s p => { p with comm := s },
    .int fun v p => { p with pid := v },
    .int fun v p => { p with ppid := v },
    .int fun v p => { p with pgid := v },
    .int fun v p => { p with sid := v },
    .array sys.SPECNAMELEN fun s p => { p with ttydev := s },
    .array 256 fun s p => { p with flags := s },
    .int fun v p => { p with start := v },
    .int fun v p => { p with startMic := v },
    .int fun v p => { p with utime := v },
    .int fun v p => { p with utimeMic := v },
    .int fun v p => { p with stime := v },
    .int fun v p => { p with stimeMic := v },
    .array 256 fun s p => { p with wchan := s },
    .int fun v p => { p with euid := v },
    .int fun v p => { p with ruid := v },
    .int fun v p => { p with rgid := v },
    .int fun v p => { p with egid := v },
    .array 256 fun s p => { p with groups := s }]

/-- The arguments behind `format` and `Fields`. -/
def args (sys : System) (prs : Procstat) (cmndline : Mem) (priority : Int32) : List Slot :=
  let utime := (prs.utime, prs.utimeMic)
  let stime := (prs.stime, prs.stimeMic)
  let ttynum := (sys.stRdev (cstr prs.ttydev)).getD (-1)
  [half (sys.upper 0) prs.ruid.toUInt32,
    half (sys.upper 1) prs.rgid.toUInt32,
    half (sys.upper 2) prs.pid.toUInt32,
    half (sys.upper 3) prs.ppid.toUInt32,
    half (sys.upper 4) prs.pgid.toUInt32,
    half (sys.upper 5) prs.sid.toUInt32,
    .ptr (some prs.flags),
    .ptr (some (sys.printTimes [utime] ++ [nul])),
    .ptr (some (sys.printTimes [stime] ++ [nul])),
    .ptr (some (sys.printTimes [utime, stime] ++ [nul])),
    .ptr (some prs.wchan),
    .ptr (some (sys.printTimes [(prs.start, prs.startMic)] ++ [nul])),
    half (sys.upper 12) prs.euid.toUInt32,
    half (sys.upper 13) prs.egid.toUInt32,
    .ptr (some prs.comm),
    .ptr (some prs.wchan),
    .ptr (some prs.ttydev),
    half (sys.upper 17) ttynum.toUInt32,
    .ptr (some cmndline),
    half (sys.upper 19) priority.toUInt32]

/-- One turn of the loop, with the array for the command line. -/
def visit (sys : System) (cmndline : CharArray sys.ARG_MAX) (e : Entry) :
    CharArray sys.ARG_MAX × Except Fault (Option BlessCall) :=
  if ProcFs.noToken e.dName = false then (cmndline, .ok none)
  else
    match getProcstat statusFormat (statusPointers sys) e.status Procstat.zero with
    | .error f => (cmndline, .error f)
    | .ok none => (cmndline, .ok none)
    | .ok (some prs) =>
        match readCmdline F_CMNDLINE (Defaultformat ++ [nul]) cmndline e.cmdline with
        | .error f => (cmndline, .error f)
        | .ok (format, cmndline) =>
            match sys.getpriority prs.pid with
            | none =>
                (cmndline, .ok (some ⟨format, Fields, args sys prs cmndline.bytes (-1)⟩))
            | some priority =>
                (cmndline, .ok (some ⟨format.modify F_PRIORITY Char.toLower, Fields,
                  args sys prs cmndline.bytes priority⟩))

/-- `OS_get_table`, from what the array holds on entry. -/
def osGetTable (sys : System) (procdir : Option (List Entry)) (residue : CharArray sys.ARG_MAX) :
    Scan :=
  match procdir with
  | none => ⟨[], none⟩
  | some entries => loopScan (visit sys) residue entries

/-! ### What a turn publishes -/

/-- An entry that is a process and whose status file is scanned. -/
structure Scanned (sys : System) (e : Entry) : Prop where
  isPid : ProcFs.noToken e.dName = true
  status : ∃ text, e.status = some text ∧
    ∀ pair ∈ (statusPointers sys).zip (fscanf statusFormat text), pair.1.Fits pair.2

/-- The format of a call, with the two characters that a turn may lower. -/
def formatChars (cmndline priority : Char) : List Char :=
  "iiiiiissssssiisssi".toList ++ [cmndline, priority]

/-- **The command line in an object** is the string of the array if its flag was lowered. -/
theorem object_cmndline (sys : System) (prs : Procstat) (ttydevs : Option HV) (bytes : Mem)
    (priority : Int32) {format : Mem} {c d : Char} (hc : c = 's' ∨ c = 'S') (hd : d = 'i' ∨ d = 'I')
    (hformat : cstr format = formatChars c d) :
    ∃ obj, turn ttydevs (.ok (some ⟨format, Fields, args sys prs bytes priority⟩)) = ([obj], none) ∧
      obj "cmndline" = some (if c = 's' then .pv (cstr bytes) else .undef) := by
  have hreads : (callRows (formatChars c d) Fields (args sys prs bytes priority)).all
      (fun row => reads row.char row.slot) = true := by
    rcases hc with rfl | rfl
    · rcases hd with rfl | rfl <;> rfl
    · rcases hd with rfl | rfl <;> rfl
  have hrows : BlessCall.Rows ⟨format, Fields, args sys prs bytes priority⟩
      (callRows (formatChars c d) Fields (args sys prs bytes priority)) :=
    BlessCall.rows_of hformat rfl rfl hreads
  have hnodup : Fields.Nodup := by decide
  have hrow : (callRows (formatChars c d) Fields (args sys prs bytes priority))[18]? =
      some ⟨c, "cmndline", .ptr (some bytes)⟩ := rfl
  refine ⟨_, turn_call (hrows.made_object ttydevs), ?_⟩
  rw [hrows.object_at ttydevs hnodup hrow (show "cmndline" ≠ "ttydev" by decide)]
  rcases hc with rfl | rfl
  · rfl
  · rfl

section

variable (sys : System) (ttydevs : Option HV) (cmndline : CharArray sys.ARG_MAX) {e : Entry}

/-- The turn of a process that is scanned, behind its status file. -/
theorem visit_scanned (hscanned : Scanned sys e) :
    ∃ prs, visit sys cmndline e =
      match readCmdline F_CMNDLINE (Defaultformat ++ [nul]) cmndline e.cmdline with
      | .error f => (cmndline, .error f)
      | .ok (format, cmndline) =>
          match sys.getpriority prs.pid with
          | none => (cmndline, .ok (some ⟨format, Fields, args sys prs cmndline.bytes (-1)⟩))
          | some priority =>
              (cmndline, .ok (some ⟨format.modify F_PRIORITY Char.toLower, Fields,
                args sys prs cmndline.bytes priority⟩)) := by
  obtain ⟨text, hstatus, hfits⟩ := hscanned.status
  obtain ⟨prs, hstore⟩ := (storeItems_ok_iff Procstat.zero).mpr hfits
  refine ⟨prs, ?_⟩
  unfold visit getProcstat
  rw [if_neg (by rw [hscanned.isPid]; exact Bool.noConfusion), hstatus]
  dsimp only
  rw [hstore]

/-- A process whose command line was read, or not, is published with it. -/
theorem turn_read (hscanned : Scanned sys e) {format : Mem} {out : CharArray sys.ARG_MAX} {c : Char}
    (hc : c = 's' ∨ c = 'S') (hformat : format = formatChars c 'I' ++ [nul])
    (hread : readCmdline F_CMNDLINE (Defaultformat ++ [nul]) cmndline e.cmdline = .ok (format, out)) :
    ∃ obj, turn ttydevs (visit sys cmndline e).2 = ([obj], none) ∧
      obj "cmndline" = some (if c = 's' then .pv out.string else .undef) := by
  have hsame : cstr format = formatChars c 'I' := by
    rw [hformat]
    rcases hc with rfl | rfl <;> decide
  have hlowered : cstr (format.modify F_PRIORITY Char.toLower) = formatChars c 'i' := by
    rw [hformat]
    rcases hc with rfl | rfl <;> decide
  obtain ⟨prs, hvisit⟩ := visit_scanned sys cmndline hscanned
  rw [hvisit, hread]
  dsimp only
  cases sys.getpriority prs.pid with
  | none => exact object_cmndline sys prs ttydevs out.bytes (-1) hc (Or.inr rfl) hsame
  | some priority => exact object_cmndline sys prs ttydevs out.bytes priority hc (Or.inl rfl) hlowered

/-- **A process without a command line** is published without one. -/
theorem turn_empty (hscanned : Scanned sys e) (hfile : e.cmdline = some []) :
    ∃ obj, turn ttydevs (visit sys cmndline e).2 = ([obj], none) ∧ obj "cmndline" = some .undef := by
  have hread := readCmdline_empty F_CMNDLINE (Defaultformat ++ [nul]) cmndline
  rw [← hfile] at hread
  exact turn_read sys ttydevs cmndline hscanned (Or.inr rfl) rfl hread

/-- **A process with a command line** that leaves room for the NUL is published with that. -/
theorem turn_filled (hscanned : Scanned sys e) {content : List Char}
    (hfile : e.cmdline = some content) (hne : content ≠ []) (hroom : content.length < sys.ARG_MAX) :
    ∃ obj, turn ttydevs (visit sys cmndline e).2 = ([obj], none) ∧
      obj "cmndline" = some (.pv (content.map spaceForNul)) := by
  obtain ⟨out, hread, hstring⟩ :=
    readCmdline_filled F_CMNDLINE (Defaultformat ++ [nul]) cmndline hne hroom
  rw [← hfile] at hread
  rw [← hstring]
  exact turn_read sys ttydevs cmndline hscanned (Or.inl rfl) rfl hread

/-- Without the room the turn ends with a fault. -/
theorem turn_overflow (hscanned : Scanned sys e) {content : List Char}
    (hfile : e.cmdline = some content) (hroom : sys.ARG_MAX ≤ content.length) :
    turn ttydevs (visit sys cmndline e).2 = ([], some .overflow) := by
  obtain ⟨prs, hvisit⟩ := visit_scanned sys cmndline hscanned
  have hread := readCmdline_overflow F_CMNDLINE (Defaultformat ++ [nul]) cmndline sys.ARG_MAX_pos hroom
  rw [← hfile] at hread
  rw [hvisit, hread]
  rfl

/-- An entry that is published was scanned. -/
theorem scanned_of_turn {obj : HV} (hobj : obj ∈ (turn ttydevs (visit sys cmndline e).2).1) :
    Scanned sys e := by
  unfold visit at hobj
  by_cases hpid : ProcFs.noToken e.dName = false
  · rw [if_pos hpid] at hobj
    cases hobj
  · rw [if_neg hpid] at hobj
    refine ⟨Bool.eq_true_of_not_eq_false hpid, (getProcstat_some_iff Procstat.zero).mp ?_⟩
    cases hget : getProcstat statusFormat (statusPointers sys) e.status Procstat.zero with
    | error f =>
        rw [hget] at hobj
        cases hobj
    | ok out =>
        cases out with
        | none =>
            rw [hget] at hobj
            cases hobj
        | some prs => exact ⟨prs, rfl⟩

/-- **What is published is the own command line**, or none where the file has none. -/
theorem turn_own (hscanned : Scanned sys e) :
    ∀ obj ∈ (turn ttydevs (visit sys cmndline e).2).1, obj "cmndline" = some e.ownCmndline := by
  intro obj hobj
  unfold NetBsd.Entry.ownCmndline
  cases hfile : e.cmdline with
  | none =>
      have hread : readCmdline F_CMNDLINE (Defaultformat ++ [nul]) cmndline e.cmdline =
          .ok (Defaultformat ++ [nul], cmndline) := by
        rw [hfile]
        rfl
      obtain ⟨obj', hturn, hundef⟩ :=
        turn_read sys ttydevs cmndline hscanned (Or.inr rfl) rfl hread
      rw [hturn] at hobj
      rw [List.mem_singleton.mp hobj]
      exact hundef
  | some content =>
      dsimp only
      by_cases hempty : content = []
      · subst hempty
        obtain ⟨obj', hturn, hundef⟩ := turn_empty sys ttydevs cmndline hscanned hfile
        rw [hturn] at hobj
        rw [List.mem_singleton.mp hobj, if_pos rfl]
        exact hundef
      · rw [if_neg hempty]
        by_cases hroom : content.length < sys.ARG_MAX
        · obtain ⟨obj', hturn, hfilled⟩ :=
            turn_filled sys ttydevs cmndline hscanned hfile hempty hroom
          rw [hturn] at hobj
          rw [List.mem_singleton.mp hobj]
          exact hfilled
        · rw [turn_overflow sys ttydevs cmndline hscanned hfile (Nat.not_lt.mp hroom)] at hobj
          exact absurd hobj List.not_mem_nil

/-- **A whole scan**: the objects are those of some of the entries, in the order of the
directory, all of them scanned, and each has its own command line.  On NetBSD that is so only
of entries with a command line. -/
theorem osGetTable_own (entries : List Entry) :
    List.SublistForall₂ (fun (obj : HV) (e : Entry) =>
        Scanned sys e ∧ obj "cmndline" = some e.ownCmndline)
      ((osGetTable sys (some entries) cmndline).objects ttydevs) entries := by
  apply objects_sublist (visit sys) ttydevs
  intro cmndline e obj hobj
  have hscanned := scanned_of_turn sys ttydevs cmndline hobj
  exact ⟨hscanned, turn_own sys ttydevs cmndline hscanned obj hobj⟩

end

/-- **Which files are safe on FreeBSD**: those that leave room for the NUL. -/
theorem safe_iff (sys : System) {e : Entry} (hscanned : Scanned sys e) {content : List Char}
    (hfile : e.cmdline = some content) :
    CmndlineSafe (visit sys) e content ↔ content.length < sys.ARG_MAX := by
  rw [cmndlineSafe_iff]
  constructor
  · intro hsafe
    by_contra hlong
    have hturn := turn_overflow sys none ⟨List.replicate sys.ARG_MAX nul, List.length_replicate⟩
      hscanned hfile (Nat.not_lt.mp hlong)
    exact (hsafe none _).1 (congrArg Prod.snd hturn)
  · intro hroom ttydevs cmndline
    have hall : content.take sys.ARG_MAX = content := List.take_of_length_le hroom.le
    rw [hall]
    by_cases hempty : content = []
    · rw [hempty] at hfile
      obtain ⟨obj, hturn, hundef⟩ := turn_empty sys ttydevs cmndline hscanned hfile
      rw [hturn]
      refine ⟨(Option.some_ne_none _).symm, ?_⟩
      intro obj' hobj' text htext
      rw [List.mem_singleton.mp hobj', hundef] at htext
      cases htext
    · obtain ⟨obj, hturn, hfilled⟩ := turn_filled sys ttydevs cmndline hscanned hfile hempty hroom
      rw [hturn]
      refine ⟨(Option.some_ne_none _).symm, ?_⟩
      intro obj' hobj' text htext
      rw [List.mem_singleton.mp hobj', hfilled] at htext
      cases htext
      rfl

end FreeBsd

namespace NetBsd

open CText Xs ProcessTable BsdProcFs

/-- **Which files are safe on NetBSD**: those that leave room for the NUL, and are not
empty. -/
theorem safe_iff (sys : System) {e : Entry} (hscanned : e.Scanned sys) {content : List Char}
    (hfile : e.cmdline = some content) :
    CmndlineSafe (visit sys) e content ↔ content ≠ [] ∧ content.length < sys.ARG_MAX := by
  rw [cmndlineSafe_iff]
  constructor
  · intro hsafe
    constructor
    · intro hempty
      -- an array with another command line in it
      have hnone : ¬ e.HasCmdline := by
        rintro ⟨content', hfile', hne⟩
        obtain rfl := Option.some.inj (hfile.symm.trans hfile')
        exact hne hempty
      obtain ⟨obj, hturn, hstale⟩ := turn_stale sys none
        ⟨List.replicate sys.ARG_MAX 'x', List.length_replicate⟩ hscanned hnone
      have htext := (hsafe none ⟨List.replicate sys.ARG_MAX 'x', List.length_replicate⟩).2 obj
        (by rw [hturn]; exact List.mem_singleton_self obj) _ hstale
      have hfree : nul ∉ List.replicate sys.ARG_MAX 'x' := fun h =>
        absurd (List.eq_of_mem_replicate h) (by decide)
      have hlen := congrArg List.length htext
      rw [hempty, List.take_nil, List.map_nil, List.length_nil, CharArray.string,
        cstr_of_nulFree hfree, List.length_replicate] at hlen
      exact absurd hlen sys.ARG_MAX_pos.ne'
    · by_contra hlong
      have hturn := turn_overflow sys none (clearedCmndline sys) hscanned hfile (Nat.not_lt.mp hlong)
      exact (hsafe none _).1 (congrArg Prod.snd hturn)
  · rintro ⟨hne, hroom⟩ ttydevs cmndline
    obtain ⟨-, obj, hturn, hfilled⟩ := turn_filled sys ttydevs cmndline hscanned hfile hne hroom
    rw [hturn, List.take_of_length_le hroom.le]
    refine ⟨(Option.some_ne_none _).symm, ?_⟩
    intro obj' hobj' text htext
    rw [List.mem_singleton.mp hobj', hfilled] at htext
    cases htext
    rfl

end NetBsd

namespace BsdProcFs

open CText Xs ProcessTable

/-- **Which `cmdline` files are safe.**  The turn of a process stores inside the array and
publishes the first bytes of the file exactly when the file leaves room for the NUL, and on
NetBSD is not empty. -/
theorem cmndline_safe_iff (net : NetBsd.System) (free : FreeBsd.System) {e e' : NetBsd.Entry}
    (h : e.Scanned net) (h' : FreeBsd.Scanned free e') {content content' : List Char}
    (hfile : e.cmdline = some content) (hfile' : e'.cmdline = some content') :
    (CmndlineSafe (NetBsd.visit net) e content ↔ content ≠ [] ∧ content.length < net.ARG_MAX) ∧
      (CmndlineSafe (FreeBsd.visit free) e' content' ↔ content'.length < free.ARG_MAX) :=
  ⟨NetBsd.safe_iff net h hfile, FreeBsd.safe_iff free h' hfile'⟩

/-- A FreeBSD system with an array of 64 bytes. -/
def sampleFree : FreeBsd.System where
  MAXCOMLEN := 16
  SPECNAMELEN := 64
  ARG_MAX := 64
  stRdev _ := none
  getpriority _ := some 20
  printTimes _ := "0.000000".toList
  upper _ := 0
  ARG_MAX_pos := NetBsd.sampleSystem.ARG_MAX_pos

/-- A process there, with a command line. -/
def freeEntry (cmdline : List Char) : NetBsd.Entry where
  dName := "42".toList ++ [nul]
  status := some "sh 42 1 42 42 ttyv0 ctty 0,0 0,0 0,0 ttyin 0 0 0,0,0".toList
  cmdline := some cmdline

/-- The same process on NetBSD. -/
def netEntry (cmdline : List Char) : NetBsd.Entry where
  dName := "42".toList ++ [nul]
  status := some "sh 42 1 42 42 5,0 ctty 0,0 0,0 0,0 ttyin 0 0 0,0,0".toList
  cmdline := some cmdline

theorem freeEntry_scanned (cmdline : List Char) :
    FreeBsd.Scanned sampleFree (freeEntry cmdline) := by
  refine ⟨?_, _, rfl, ?_⟩
  · show ProcFs.noToken ("42".toList ++ [nul]) = true
    decide
  · decide

theorem netEntry_scanned (cmdline : List Char) :
    (netEntry cmdline).Scanned NetBsd.sampleSystem := by
  refine ⟨?_, _, rfl, ?_⟩
  · show ProcFs.noToken ("42".toList ++ [nul]) = true
    decide
  · decide

theorem cmndline_safe_sample :
    (CmndlineSafe (NetBsd.visit NetBsd.sampleSystem) (netEntry "sh".toList) "sh".toList ↔
        "sh".toList ≠ [] ∧ "sh".toList.length < NetBsd.sampleSystem.ARG_MAX) ∧
      (CmndlineSafe (FreeBsd.visit sampleFree) (freeEntry "sh".toList) "sh".toList ↔
        "sh".toList.length < sampleFree.ARG_MAX) :=
  cmndline_safe_iff NetBsd.sampleSystem sampleFree (netEntry_scanned _) (freeEntry_scanned _) rfl rfl

/-- **A file of 64 bytes**: the NUL behind it goes behind the array of 64 bytes, in both
ports. -/
theorem nul_behind_array :
    ¬ CmndlineSafe (NetBsd.visit NetBsd.sampleSystem) (netEntry (List.replicate 64 'a'))
        (List.replicate 64 'a') ∧
      ¬ CmndlineSafe (FreeBsd.visit sampleFree) (freeEntry (List.replicate 64 'a'))
        (List.replicate 64 'a') := by
  have hnet := NetBsd.turn_overflow NetBsd.sampleSystem none
    (NetBsd.clearedCmndline NetBsd.sampleSystem) (netEntry_scanned (List.replicate 64 'a')) rfl
    (Nat.le_refl 64)
  have hfree := FreeBsd.turn_overflow sampleFree none
    ⟨List.replicate 64 nul, List.length_replicate⟩ (freeEntry_scanned (List.replicate 64 'a')) rfl
    (Nat.le_refl 64)
  constructor
  · intro hsafe
    exact ((cmndlineSafe_iff _ _ _).mp hsafe none _).1 (congrArg Prod.snd hnet)
  · intro hsafe
    exact ((cmndlineSafe_iff _ _ _).mp hsafe none _).1 (congrArg Prod.snd hfree)

end BsdProcFs
