import ProcProcessTable.ArgumentLoop
import ProcProcessTable.CallRows
import ProcProcessTable.DecimalText
import ProcProcessTable.OpenBsdTable
import ProcProcessTable.ScanLoop

/-!
# The process table of BSD/OS

`OS_get_table` of `bsdi.c` takes the processes from the kvm library, and prints run
time, session and start of each into arrays that stand outside the loop.  What is
left there from an earlier process, or from before the scan, is in the state of a
turn: the start, the leader of the session and the clock are written in some turns
only.

`visit_call` says what a turn gets to its call with.
-/

namespace Bsdi

open CText Xs ProcessTable

def Defaultformat : List Char := "iiiiiisissssssls".toList

def Fields : List String :=
  ["uid", "gid", "pid", "ppid", "pgrp", "priority", "sess", "leader", "time", "wchan", "fname",
    "state", "started", "ttydev", "ttynum", "cmndline"]

/-- The members of `struct kinfo_proc` that are read.  A `long` may be wider than an
`int`. -/
structure KinfoProc where
  eTdev : Int32
  pStat : OpenBsd.PStat
  rtimeSec : Int64
  rtimeUsec : Int64
  eSess : UInt64
  pRuid : UInt32
  pRgid : UInt32
  pPid : Int32
  ePpid : Int32
  ePgid : Int32
  pPriority : UInt8
  eWmesg : Mem
  pComm : Mem

/-- A process, with what is read about it from kernel memory: the start of its `pstats`,
the pid of the leader of its session, and its arguments.  `time` is the clock, if it is
asked. -/
structure Process where
  proc : KinfoProc
  devname : Option Mem
  pStart : Option Int64
  leader : Option Int32
  argv : Option (List Mem)
  time : Int64

/-- What holds for a whole scan.  `strftime` is what the function leaves in the array for
a format and the local time of a second.  The upper halves of the 4-byte arguments are
given by the place of the argument in the call. -/
structure Machine where
  ARG_MAX : Nat
  PZERO : Int32
  strftime : String → Int64 → CharArray 20 → CharArray 20
  upper : Nat → UInt32

/-- The variables of `OS_get_table` that outlive a turn of the loop. -/
structure Locals (m : Machine) where
  now : Int64
  sesid : Int32
  format : CharArray 17
  state : CharArray 20
  cputime : CharArray 20
  started : CharArray 20
  session : CharArray 20
  shortsess : CharArray 20
  cmndline : CharArray (m.ARG_MAX + 1)

/-! ### The texts -/

/-- `%d`. -/
def percentD (x : Int32) : List Char := (toString x.toInt).toList

/-- `%x`; of a `u_long` it takes the lower half. -/
def percentX (x : UInt64) : List Char := Nat.toDigits 16 x.toUInt32.toNat

/-- The loop of `power`. -/
def powerLoop (base : Int32) : Nat → Int32 → Int32
  | 0, result => result
  | count + 1, result => powerLoop base count (base * result)

def power (base : Int32) (pow : Int) : Int32 := powerLoop base pow.toNat 1

/-- The text goes into `string[10]`. -/
def roundit (integer : Int32) : Except Fault Int32 :=
  let string := percentD integer
  if 10 ≤ string.length then .error .overflow
  else
    let cutoff := (string.length : Int) - 2
    .ok (integer / power 10 cutoff)

/-- The text of the cpu time. -/
def cputimeText (seconds shortmsec : Int32) : List Char :=
  if seconds < 60 then
    if seconds < 10 then
      "0:0".toList ++ percentD seconds ++ ".".toList ++ percentD shortmsec
    else "0:".toList ++ percentD seconds ++ ".".toList ++ percentD shortmsec
  else
    let minutes := seconds / 60
    let secleft := seconds - minutes * 60
    if secleft < 10 then
      percentD minutes ++ ":0".toList ++ percentD secleft ++ ".".toList ++ percentD shortmsec
    else percentD minutes ++ ":".toList ++ percentD secleft ++ ".".toList ++ percentD shortmsec

def SECSPERHOUR : Int64 := 3600

def SECSPERDAY : Int64 := 24 * 3600

/-- The clock is asked when it has not been, and the start is printed for its age. -/
def started (m : Machine) (s : Locals m) (p : Process) : Int64 × CharArray 20 :=
  match p.pStart with
  | none => (s.now, s.started)
  | some start =>
      let now := if s.now = 0 then p.time else s.now
      if now - start < 24 * SECSPERHOUR then (now, m.strftime "%l:%M%p" start s.started)
      else if now - start < 7 * SECSPERDAY then (now, m.strftime "%a%I%p" start s.started)
      else (now, m.strftime "%e%b%y" start s.started)

/-- The loop over `session`. -/
def shortSession (session shortsess : CharArray 20) : Option (CharArray 20) :=
  let skip := if session.bytes[1]? = some '1' then 1 else 2
  shortsess.store 0 ((session.bytes.drop skip).take (strlen session.bytes))

/-! ### The loop -/

/-- The arguments behind `format` and `Fields`. -/
def args (m : Machine) (p : Process) (s : Locals m) : List Slot :=
  [half (m.upper 0) p.proc.pRuid,
    half (m.upper 1) p.proc.pRgid,
    half (m.upper 2) p.proc.pPid.toUInt32,
    half (m.upper 3) p.proc.ePpid.toUInt32,
    half (m.upper 4) p.proc.ePgid.toUInt32,
    half (m.upper 5) (p.proc.pPriority.toUInt32.toInt32 - m.PZERO).toUInt32,
    .ptr (some s.shortsess.bytes),
    half (m.upper 7) s.sesid.toUInt32,
    .ptr (some s.cputime.bytes),
    .ptr (some p.proc.eWmesg),
    .ptr (some p.proc.pComm),
    .ptr (some s.state.bytes),
    .ptr (some s.started.bytes),
    .ptr (some (p.devname.getD ['?', '?', nul])),
    half (m.upper 14) p.proc.eTdev.toUInt32,
    .ptr (some s.cmndline.bytes)]

/-- One iteration up to the call of `bless_into_proc`. -/
def blessProc (m : Machine) (s : Locals m) (p : Process) : Except Fault (Locals m) := do
  let format ← inBounds (s.format.sprintf Defaultformat)
  let state ← inBounds (s.state.sprintf p.proc.pStat.state.2.toList)
  let shortmsec ← roundit p.proc.rtimeUsec.toInt32
  let cputime ← inBounds (s.cputime.sprintf (cputimeText p.proc.rtimeSec.toInt32 shortmsec))
  let (now, started) := started m s p
  let session ← inBounds (s.session.sprintf (percentX p.proc.eSess))
  let shortsess ← inBounds (shortSession session s.shortsess)
  let sesid := p.leader.getD s.sesid
  let cmndline ← commandLine m.ARG_MAX p.argv s.cmndline
  return ⟨now, sesid, format, state, cputime, started, session, shortsess, cmndline⟩

/-- One iteration. -/
def visit (m : Machine) (s : Locals m) (p : Process) : Locals m × Except Fault (Option BlessCall) :=
  match blessProc m s p with
  | .error f => (s, .error f)
  | .ok s => (s, .ok (some ⟨s.format.bytes, Fields, args m p s⟩))

/-- `OS_get_table`: whether `kvm_open` works, and the processes that `kvm_getprocs`
answers.  The texts of the errors are passed behind patterns that have no place for
them. -/
def osGetTable (m : Machine) (kvmOpen : Bool) (kvmGetprocs : Option (List Process))
    (residue : Locals m) : Scan :=
  match kvmOpen, kvmGetprocs with
  | false, _ => ⟨[], some (.croak "kvm_open: ")⟩
  | true, none => ⟨[], some (.croak "kvm_getprocs: ")⟩
  | true, some procs => loopScan (visit m) residue procs

/-! ### What a turn gets to its call with -/

/-- A printed `int` has eleven characters at most, and less when it is small. -/
theorem length_percentD (x : Int32) : (percentD x).length ≤ 11 := by
  have hlo := x.le_toInt
  have hhi := x.toInt_lt
  exact (DecimalText.length_toString_le (k := 9) (by omega)).1

theorem length_percentD_lt {x : Int32} (hpos : 0 ≤ x.toInt) (h : x.toInt < 100) :
    (percentD x).length ≤ 2 :=
  (DecimalText.length_toString_le (k := 1) (by omega)).2 hpos

theorem nul_not_mem_percentD (x : Int32) : nul ∉ percentD x :=
  DecimalText.not_mem_toString rfl (by decide) x.toInt

/-- An `int` that is not negative is printed as a row of digits. -/
theorem natural_percentD {x : Int32} {n : Nat} (h : x.toInt = n) :
    DecimalText.natural (percentD x) = some n := by
  rw [percentD, DecimalText.natural_toList_toString, h, if_neg (by omega)]
  rfl

/-- The parts of the cpu time: the minutes, and the seconds with a zero before them where they
are one digit. -/
structure ClockParts (seconds : Int32) (mm ss : List Char) : Prop where
  free : nul ∉ mm ∧ nul ∉ ss
  fits : mm.length + ss.length ≤ 13
  read : ∀ n : Nat, seconds.toInt = n →
    DecimalText.natural mm = some (n / 60) ∧ DecimalText.natural ss = some (n % 60)
  negative : seconds.toInt < 0 → ':' ∉ mm ∧ '.' ∉ ss ∧ '-' ∈ ss

/-- Below a minute. -/
theorem clockParts_short {seconds : Int32} (h : seconds.toInt < 60) :
    ClockParts seconds ['0']
      (if seconds < 10 then '0' :: percentD seconds else percentD seconds) := by
  have hten : seconds < 10 ↔ seconds.toInt < 10 := Int32.lt_iff_toInt_lt
  have hlen := length_percentD seconds
  have hfree := nul_not_mem_percentD seconds
  have hread : ∀ n : Nat, seconds.toInt = n →
      DecimalText.natural (percentD seconds) = some (n % 60) := by
    intro n hn
    rw [show n % 60 = n by omega]
    exact natural_percentD hn
  have hzero : ∀ n : Nat, seconds.toInt = n → DecimalText.natural ['0'] = some (n / 60) := by
    intro n hn
    rw [show n / 60 = 0 by omega]
    rfl
  by_cases hdigit : seconds < 10
  · rw [if_pos hdigit]
    rw [hten] at hdigit
    refine ⟨⟨by decide, ?_⟩, ?_, fun n hn => ⟨hzero n hn, ?_⟩, fun hneg => ⟨by decide, ?_, ?_⟩⟩
    · rw [List.mem_cons, not_or]
      exact ⟨by decide, hfree⟩
    · simp only [List.length_cons, List.length_nil]
      omega
    · exact DecimalText.natural_zero_cons (hread n hn)
    · rw [List.mem_cons, not_or]
      exact ⟨by decide, DecimalText.not_mem_toString rfl (by decide) seconds.toInt⟩
    · apply List.mem_cons_of_mem
      rw [percentD, DecimalText.toList_toString, if_pos hneg]
      exact List.mem_cons_self
  · rw [if_neg hdigit]
    rw [hten] at hdigit
    refine ⟨⟨by decide, hfree⟩, ?_, fun n hn => ⟨hzero n hn, hread n hn⟩, fun hneg => by omega⟩
    rw [List.length_singleton]
    omega

/-- From a minute on. -/
theorem clockParts_long {seconds minutes secleft : Int32} (h : 60 ≤ seconds.toInt)
    (hminutes : minutes.toInt = seconds.toInt / 60) (hsecleft : secleft.toInt = seconds.toInt % 60) :
    ClockParts seconds (percentD minutes)
      (if secleft < 10 then '0' :: percentD secleft else percentD secleft) := by
  have hten : secleft < 10 ↔ secleft.toInt < 10 := Int32.lt_iff_toInt_lt
  have hlen := length_percentD minutes
  have hfree := nul_not_mem_percentD
  have hminutesRead : ∀ n : Nat, seconds.toInt = n →
      DecimalText.natural (percentD minutes) = some (n / 60) := by
    intro n hn
    apply natural_percentD
    omega
  have hsecleftRead : ∀ n : Nat, seconds.toInt = n →
      DecimalText.natural (percentD secleft) = some (n % 60) := by
    intro n hn
    apply natural_percentD
    omega
  by_cases hdigit : secleft < 10
  · rw [if_pos hdigit]
    rw [hten] at hdigit
    refine ⟨⟨hfree minutes, ?_⟩, ?_, fun n hn => ⟨hminutesRead n hn, ?_⟩, fun hneg => by omega⟩
    · rw [List.mem_cons, not_or]
      exact ⟨by decide, hfree secleft⟩
    · have hshort : (percentD secleft).length ≤ 1 :=
        (DecimalText.length_toString_le (k := 0) (by omega)).2 (by omega)
      rw [List.length_cons]
      omega
    · exact DecimalText.natural_zero_cons (hsecleftRead n hn)
  · rw [if_neg hdigit]
    rw [hten] at hdigit
    refine ⟨⟨hfree minutes, hfree secleft⟩, ?_,
      fun n hn => ⟨hminutesRead n hn, hsecleftRead n hn⟩, fun hneg => by omega⟩
    have hshort := length_percentD_lt (x := secleft) (by omega) (by omega)
    omega

/-- **The four branches make one text.** -/
theorem cputimeText_eq (seconds shortmsec : Int32) :
    ∃ mm ss, cputimeText seconds shortmsec = mm ++ ':' :: (ss ++ '.' :: percentD shortmsec) ∧
      ClockParts seconds mm ss := by
  have hsixty : (60 : Int32).toInt = 60 := by decide
  unfold cputimeText
  dsimp only
  by_cases hminute : seconds < 60
  · refine ⟨_, _, ?_, clockParts_short (Int32.lt_iff_toInt_lt.mp hminute)⟩
    rw [if_pos hminute]
    split <;> simp
  · have hlong : 60 ≤ seconds.toInt := Int.not_lt.mp fun h => hminute (Int32.lt_iff_toInt_lt.mpr h)
    have hhi := seconds.toInt_lt
    have hminutes : (seconds / 60).toInt = seconds.toInt / 60 := by
      rw [Int32.toInt_div, hsixty, Int.tdiv_eq_ediv_of_nonneg (by omega)]
      apply Int.bmod_eq_of_le <;> omega
    have hproduct : (seconds / 60 * 60).toInt = seconds.toInt / 60 * 60 := by
      rw [Int32.toInt_mul, hminutes, hsixty]
      apply Int.bmod_eq_of_le <;> omega
    have hsecleft : (seconds - seconds / 60 * 60).toInt = seconds.toInt % 60 := by
      rw [Int32.toInt_sub, hproduct, Int.bmod_eq_of_le] <;> omega
    refine ⟨_, _, ?_, clockParts_long hlong hminutes hsecleft⟩
    rw [if_neg hminute]
    split <;> simp

/-- The cpu time fits its array. -/
theorem cputimeText_fits (seconds : Int32) {shortmsec : Int32} (hpos : 0 ≤ shortmsec.toInt)
    (h : shortmsec.toInt < 100) :
    (cputimeText seconds shortmsec).length < 20 ∧ nul ∉ cputimeText seconds shortmsec := by
  have hmsec := length_percentD_lt hpos h
  obtain ⟨mm, ss, htext, hparts⟩ := cputimeText_eq seconds shortmsec
  have hfits := hparts.fits
  rw [htext]
  constructor
  · rw [List.length_append, List.length_cons, List.length_append, List.length_cons]
    omega
  · simp only [List.mem_append, List.mem_cons, not_or]
    exact ⟨hparts.free.1, by decide, hparts.free.2, by decide, nul_not_mem_percentD shortmsec⟩

/-- The rows of the call for a process. -/
def rows (m : Machine) (p : Process) (s : Locals m) : List CallRow :=
  callRows Defaultformat Fields (args m p s)

/-- The word for a state fits its array. -/
theorem state_fits (stat : OpenBsd.PStat) :
    stat.state.2.toList.length < 20 ∧ nul ∉ stat.state.2.toList := by
  cases stat with
  | other stat => exact (by decide : "UNKNOWN".toList.length < 20 ∧ nul ∉ "UNKNOWN".toList)
  | _ => decide

/-- A session has at most eight digits. -/
theorem length_percentX_le (x : UInt64) : (percentX x).length ≤ 8 := by
  have hlt := x.toUInt32.toNat_lt
  exact (Nat.length_toDigits_le_iff (by decide) (by decide)).mpr (by omega)

/-- What is copied of the session fits the other array. -/
theorem shortSession_some (session shortsess : CharArray 20) :
    ∃ a, shortSession session shortsess = some a := by
  unfold shortSession
  obtain ⟨a, ha, -⟩ := @CharArray.store_of_le _ shortsess 0
    ((session.bytes.drop (if session.bytes[1]? = some '1' then 1 else 2)).take
      (strlen session.bytes)) (by
        have hlen := session.length_bytes
        rw [List.length_take, List.length_drop]
        omega)
  exact ⟨a, ha⟩

/-- **A turn gets to its call** when the microseconds are rounded to two digits. -/
theorem visit_call (m : Machine) (s : Locals m) (p : Process) {shortmsec : Int32}
    (hround : roundit p.proc.rtimeUsec.toInt32 = .ok shortmsec) (hpos : 0 ≤ shortmsec.toInt)
    (h : shortmsec.toInt < 100) :
    ∃ s' call, visit m s p = (s', .ok (some call)) ∧ call.Rows (rows m p s') ∧
      s'.cputime.string = cputimeText p.proc.rtimeSec.toInt32 shortmsec := by
  have hstateFits := state_fits p.proc.pStat
  have hsessionFits : (percentX p.proc.eSess).length < 20 :=
    Nat.lt_of_le_of_lt (length_percentX_le p.proc.eSess) (by decide)
  obtain ⟨htimeFits, htimeFree⟩ := cputimeText_fits p.proc.rtimeSec.toInt32 hpos h
  obtain ⟨format, hformat, hformatString⟩ :=
    @CharArray.string_sprintf _ s.format Defaultformat (by decide) (by decide)
  obtain ⟨state, hstate, -⟩ := s.state.string_sprintf hstateFits.1 hstateFits.2
  obtain ⟨cputime, hcputime, hcputimeString⟩ := s.cputime.string_sprintf htimeFits htimeFree
  obtain ⟨session, hsession, -⟩ := s.session.sprintf_of_lt hsessionFits
  obtain ⟨shortsess, hshortsess⟩ := shortSession_some session s.shortsess
  obtain ⟨cmndline, hcmndline, -⟩ :=
    ArgumentLoop.commandLine_joined ArgumentLoop.appends_strcat p.argv s.cmndline
  have hcommand : commandLine m.ARG_MAX p.argv s.cmndline = .ok cmndline := hcmndline
  have hbless : blessProc m s p = .ok ⟨(started m s p).1, p.leader.getD s.sesid, format, state,
      cputime, (started m s p).2, session, shortsess, cmndline⟩ := by
    unfold blessProc
    rw [hformat, hstate, hround]
    show (inBounds (s.cputime.sprintf (cputimeText p.proc.rtimeSec.toInt32 shortmsec)) >>= _) = _
    rw [hcputime]
    show (inBounds (s.session.sprintf (percentX p.proc.eSess)) >>= _) = _
    rw [hsession]
    show (inBounds (shortSession session s.shortsess) >>= _) = _
    rw [hshortsess]
    show (commandLine m.ARG_MAX p.argv s.cmndline >>= _) = _
    rw [hcommand]
    rfl
  refine ⟨_, _, by rw [visit, hbless], ?_, hcputimeString⟩
  apply BlessCall.rows_of
  · exact hformatString
  · rfl
  · rfl
  · rfl

end Bsdi
