import ProcProcessTable.DecimalText
import ProcProcessTable.NetBsdScan

/-!
# The times of a process on NetBSD

The status file has each time as seconds and microseconds.  The loop of `NetBSD.c`
divides the microseconds by the integer 1000000, the one of `FreeBSD.c` by
1000000.0; so on NetBSD they are lost before the sum becomes a `double`.

`times_published_iff` says which status lines are published exactly, `osGetTable_times` says
it of the objects of a scan.
-/

namespace Xs

/-- The number that the text of a value denotes. -/
def SV.decimal : SV → Option ℚ
  | .pv text => DecimalText.value text
  | _ => none

end Xs

namespace NetBsd

open CText Xs ProcessTable BsdProcFs

/-- The time of two fields in seconds. -/
def exactTime (sec mic : Int32) : ℚ := sec.toInt + (mic.toInt : ℚ) / 10 ^ 6

/-- A number of microseconds. -/
def IsMicros (mic : Int32) : Prop := 0 ≤ mic.toInt ∧ mic.toInt < 10 ^ 6

instance (mic : Int32) : Decidable (IsMicros mic) := inferInstanceAs (Decidable (_ ∧ _))

/-- The microseconds of a status line are microseconds. -/
structure Procstat.Timed (prs : Procstat) : Prop where
  utime : IsMicros prs.utimeMic
  stime : IsMicros prs.stimeMic
  start : IsMicros prs.startMic

/-- The four texts of an object denote the times of a status line. -/
structure Procstat.TimesDenoted (prs : Procstat) (obj : HV) : Prop where
  utime : (obj "utime").bind SV.decimal = some (exactTime prs.utime prs.utimeMic)
  stime : (obj "stime").bind SV.decimal = some (exactTime prs.stime prs.stimeMic)
  time : (obj "time").bind SV.decimal =
    some (exactTime prs.utime prs.utimeMic + exactTime prs.stime prs.stimeMic)
  start : (obj "start").bind SV.decimal = some (exactTime prs.start prs.startMic)

/-! ### What a text denotes -/

theorem decimal_printSeconds (x : Int) : SV.decimal (.pv (cstr (printSeconds x))) = some (x : ℚ) := by
  have hzeros : ".000000".toList = '.' :: List.replicate 6 '0' := rfl
  have hfree : nul ∉ (toString x).toList ++ ".000000".toList := by
    rw [List.mem_append, not_or]
    exact ⟨DecimalText.not_mem_toString rfl (by decide) x, by decide⟩
  have hstring : cstr (printSeconds x) = (toString x).toList ++ ".000000".toList :=
    cstr_terminated hfree []
  rw [SV.decimal, hstring, hzeros]
  exact DecimalText.value_intZeros x 5

/-- Microseconds come to no second. -/
theorem seconds_eq (sec : Int32) {mic : Int32} (h : IsMicros mic) : seconds sec mic = sec.toInt := by
  have hzero : mic / 1000000 = 0 := by
    have hmicros : (1000000 : Int32).toInt = 1000000 := by decide
    apply Int32.toInt_inj.mp
    have hquot : mic.toInt.tdiv 1000000 = 0 := Int.tdiv_eq_zero_of_lt h.1 h.2
    rw [Int32.toInt_div, hmicros, hquot]
    rfl
  rw [seconds, hzero, Int32.add_zero]

/-- The whole seconds are the time exactly when there is nothing behind them. -/
theorem whole_eq_iff (sec mic : Int32) : ((sec.toInt : Int) : ℚ) = exactTime sec mic ↔ mic = 0 := by
  have hzero : mic = 0 ↔ mic.toInt = 0 := Int32.toInt_inj.symm
  rw [hzero, exactTime]
  constructor
  · intro h
    have hfrac : (mic.toInt : ℚ) / 10 ^ 6 = 0 := by linarith
    have hnum := (div_eq_zero_iff.mp hfrac).resolve_right (by norm_num)
    exact_mod_cast hnum
  · intro h
    rw [h, Int.cast_zero, zero_div, add_zero]

/-- The values under the four names. -/
theorem object_times {sys : System} {prs : Procstat} {call : BlessCall} {cmndline : Mem}
    (hrows : call.Rows (rows sys prs cmndline)) (ttydevs : Option HV) :
    (call.object ttydevs "utime").bind SV.decimal =
        some ((seconds prs.utime prs.utimeMic : Int) : ℚ) ∧
      (call.object ttydevs "stime").bind SV.decimal =
        some ((seconds prs.stime prs.stimeMic : Int) : ℚ) ∧
      (call.object ttydevs "time").bind SV.decimal =
        some ((seconds prs.utime prs.utimeMic + seconds prs.stime prs.stimeMic : Int) : ℚ) ∧
      (call.object ttydevs "start").bind SV.decimal =
        some ((seconds prs.start prs.startMic : Int) : ℚ) := by
  have hnodup : call.fields.Nodup := by
    rw [hrows.fields]
    show Fields.Nodup
    decide
  have htext : ∀ {i : Nat} {key : String} {x : Int},
      (rows sys prs cmndline)[i]? = some ⟨'s', key, .ptr (some (printSeconds x))⟩ →
        key ≠ "ttydev" → (call.object ttydevs key).bind SV.decimal = some (x : ℚ) := by
    intro i key x hrow hkey
    rw [hrows.object_at ttydevs hnodup hrow hkey]
    exact decimal_printSeconds x
  have hutime : (rows sys prs cmndline)[7]? =
      some ⟨'s', "utime", .ptr (some (printSeconds (seconds prs.utime prs.utimeMic)))⟩ := rfl
  have hstime : (rows sys prs cmndline)[8]? =
      some ⟨'s', "stime", .ptr (some (printSeconds (seconds prs.stime prs.stimeMic)))⟩ := rfl
  have htime : (rows sys prs cmndline)[9]? =
      some ⟨'s', "time", .ptr (some (printSeconds
        (seconds prs.utime prs.utimeMic + seconds prs.stime prs.stimeMic)))⟩ := rfl
  have hstart : (rows sys prs cmndline)[11]? =
      some ⟨'s', "start", .ptr (some (printSeconds (seconds prs.start prs.startMic)))⟩ := rfl
  exact ⟨htext hutime (by decide), htext hstime (by decide), htext htime (by decide),
    htext hstart (by decide)⟩

/-- **The texts denote the times** exactly when there are no microseconds. -/
theorem denoted_iff {sys : System} {prs : Procstat} {call : BlessCall} {cmndline : Mem}
    (hrows : call.Rows (rows sys prs cmndline)) (htimed : prs.Timed) (ttydevs : Option HV) :
    prs.TimesDenoted (call.object ttydevs) ↔
      prs.utimeMic = 0 ∧ prs.stimeMic = 0 ∧ prs.startMic = 0 := by
  obtain ⟨hutime, hstime, htime, hstart⟩ := object_times hrows ttydevs
  rw [seconds_eq prs.utime htimed.utime] at hutime htime
  rw [seconds_eq prs.stime htimed.stime] at hstime htime
  rw [seconds_eq prs.start htimed.start] at hstart
  constructor
  · intro h
    exact ⟨(whole_eq_iff _ _).mp (Option.some.inj (hutime.symm.trans h.utime)),
      (whole_eq_iff _ _).mp (Option.some.inj (hstime.symm.trans h.stime)),
      (whole_eq_iff _ _).mp (Option.some.inj (hstart.symm.trans h.start))⟩
  · intro ⟨hu, hs, hb⟩
    have hwholeU := (whole_eq_iff prs.utime prs.utimeMic).mpr hu
    have hwholeS := (whole_eq_iff prs.stime prs.stimeMic).mpr hs
    have hwholeB := (whole_eq_iff prs.start prs.startMic).mpr hb
    refine ⟨?_, ?_, ?_, ?_⟩
    · rw [hutime, hwholeU]
    · rw [hstime, hwholeS]
    · rw [htime, ← hwholeU, ← hwholeS, Int.cast_add]
    · rw [hstart, hwholeB]

/-! ### What a scan publishes -/

/-- Reading the command line leaves the format as it is on NetBSD. -/
theorem format_readCmdline {ARG_MAX : Nat} {cmndline out : CharArray ARG_MAX}
    {file : Option (List Char)} {format : Mem}
    (h : readCmdline F_CMNDLINE (Defaultformat ++ [nul]) cmndline file = .ok (format, out)) :
    cstr format = Defaultformat := by
  unfold readCmdline at h
  split at h
  · cases h
    decide
  · split at h
    · cases h
      decide
    · split at h
      · cases h
      · cases h
        decide

/-- What the turn of an entry with a status line makes, if anything. -/
theorem turn_rows (sys : System) (ttydevs : Option HV) (cmndline : CharArray sys.ARG_MAX)
    {e : Entry} {prs : Procstat} (hpid : ProcFs.noToken e.dName = true)
    (hget : getProcstat statusFormat (statusPointers sys) e.status Procstat.zero = .ok (some prs))
    {obj : HV} (hobj : obj ∈ (turn ttydevs (visit sys cmndline e).2).1) :
    ∃ (call : BlessCall) (cmndline : Mem), call.Rows (rows sys prs cmndline) ∧
      obj = call.object ttydevs := by
  unfold visit at hobj
  rw [if_neg (by rw [hpid]; exact Bool.noConfusion), hget] at hobj
  dsimp only at hobj
  cases hread : readCmdline F_CMNDLINE (Defaultformat ++ [nul]) cmndline e.cmdline with
  | error f =>
      rw [hread] at hobj
      exact absurd hobj List.not_mem_nil
  | ok out =>
      obtain ⟨format, filled⟩ := out
      rw [hread] at hobj
      have hrows : BlessCall.Rows ⟨format, Fields, args sys prs filled.bytes⟩
          (rows sys prs filled.bytes) := BlessCall.rows_of (format_readCmdline hread) rfl rfl rfl
      rw [turn_call (hrows.made_object ttydevs)] at hobj
      exact ⟨_, filled.bytes, hrows, List.mem_singleton.mp hobj⟩

/-- **Which times are published exactly.**  In every scan, the object of a process denotes the
times of its status line exactly when its three fields for microseconds are zero. -/
theorem times_published_iff (sys : System) (ttydevs : Option HV) (residue : CharArray sys.ARG_MAX)
    (pre : List Entry) (e : Entry) (prs : Procstat) (hpid : ProcFs.noToken e.dName = true)
    (hget : getProcstat statusFormat (statusPointers sys) e.status Procstat.zero = .ok (some prs))
    (htimed : prs.Timed) :
    ∀ obj ∈ addedBy (visit sys) ttydevs residue pre e,
      (prs.TimesDenoted obj ↔ prs.utimeMic = 0 ∧ prs.stimeMic = 0 ∧ prs.startMic = 0) := by
  intro obj hobj
  obtain ⟨call, cmndline, hrows, rfl⟩ :=
    turn_rows sys ttydevs _ hpid hget (mem_turn_of_addedBy _ _ hobj)
  exact denoted_iff hrows htimed ttydevs

/-- **The times of a whole scan**: each object denotes those of its own status line under this
condition. -/
theorem osGetTable_times (sys : System) (ttydevs : Option HV) (residue : CharArray sys.ARG_MAX)
    (entries : List Entry) :
    List.SublistForall₂ (fun (obj : HV) (e : Entry) => ∃ prs,
        getProcstat statusFormat (statusPointers sys) e.status Procstat.zero = .ok (some prs) ∧
          (prs.Timed → (prs.TimesDenoted obj ↔
            prs.utimeMic = 0 ∧ prs.stimeMic = 0 ∧ prs.startMic = 0)))
      ((osGetTable sys (some entries) residue).objects ttydevs) entries := by
  apply objects_sublist (visit sys) ttydevs
  intro cmndline e obj hobj
  have hscanned : e.Scanned sys := by
    by_contra hnot
    rw [turn_not_scanned sys ttydevs cmndline hnot] at hobj
    exact List.not_mem_nil hobj
  obtain ⟨prs, hget⟩ := (getProcstat_some_iff sys hscanned.isPid).mpr hscanned
  refine ⟨prs, hget, fun htimed => ?_⟩
  obtain ⟨call, cmndline', hrows, rfl⟩ := turn_rows sys ttydevs cmndline hscanned.isPid hget hobj
  exact denoted_iff hrows htimed ttydevs

/-- A process that has used 1.25 seconds. -/
def quarterEntry : Entry where
  dName := "42".toList ++ [nul]
  status := some "sh 42 1 42 42 5,0 ctty 7,0 1,250000 2,0 ttyin 0 0 0,0,0".toList
  cmdline := none

/-- Its status line, as it is stored. -/
def quarterStat : Procstat where
  comm := "sh".toList ++ [nul]
  pid := 42
  ppid := 1
  pgid := 42
  sid := 42
  tdevMaj := 5
  tdevMin := 0
  flags := "ctty".toList ++ [nul]
  start := 7
  startMic := 0
  utime := 1
  utimeMic := 250000
  stime := 2
  stimeMic := 0
  wchan := "ttyin".toList ++ [nul]
  euid := 0
  ruid := 0
  rgid := 0
  egid := 0
  groups := "0".toList ++ [nul]

theorem quarter_scanned :
    getProcstat statusFormat (statusPointers sampleSystem) quarterEntry.status Procstat.zero =
      .ok (some quarterStat) := by
  rfl

/-- What a scan of this entry alone publishes. -/
theorem quarter_added :
    ∃ obj, addedBy (visit sampleSystem) none (clearedCmndline sampleSystem) [] quarterEntry = [obj] ∧
      obj "utime" = some (.pv "1.000000".toList) := by
  have hutime : (addedBy (visit sampleSystem) none (clearedCmndline sampleSystem) []
      quarterEntry).map (fun obj => obj "utime") = [some (.pv "1.000000".toList)] := by
    decide
  obtain ⟨obj, rest, hadded, hobj, hrest⟩ := List.map_eq_cons_iff.mp hutime
  obtain rfl := List.map_eq_nil_iff.mp hrest
  exact ⟨obj, hadded, hobj⟩

theorem times_published_quarter :
    ∃ obj ∈ addedBy (visit sampleSystem) none (clearedCmndline sampleSystem) [] quarterEntry,
      (quarterStat.TimesDenoted obj ↔ quarterStat.utimeMic = 0 ∧ quarterStat.stimeMic = 0 ∧
        quarterStat.startMic = 0) := by
  obtain ⟨obj, hadded, -⟩ := quarter_added
  have hmem : obj ∈ addedBy (visit sampleSystem) none (clearedCmndline sampleSystem) []
      quarterEntry := by
    rw [hadded]
    exact List.mem_singleton_self obj
  exact ⟨obj, hmem, times_published_iff sampleSystem none (clearedCmndline sampleSystem) []
    quarterEntry quarterStat rfl quarter_scanned ⟨by decide, by decide, by decide⟩ obj hmem⟩

/-- **A quarter of a second is lost**: the object has the user time 1. -/
theorem quarter_lost :
    quarterStat.Timed ∧ getProcstat statusFormat (statusPointers sampleSystem) quarterEntry.status
      Procstat.zero = .ok (some quarterStat) ∧
    ∃ obj, addedBy (visit sampleSystem) none (clearedCmndline sampleSystem) [] quarterEntry = [obj] ∧
      obj "utime" = some (.pv "1.000000".toList) ∧ ¬ quarterStat.TimesDenoted obj := by
  obtain ⟨obj, hadded, hobj⟩ := quarter_added
  refine ⟨⟨by decide, by decide, by decide⟩, quarter_scanned, obj, hadded, hobj, ?_⟩
  intro hdenoted
  have hone : DecimalText.value "1.000000".toList = some ((1 : Int) : ℚ) :=
    DecimalText.value_intZeros 1 5
  have htold := hdenoted.utime
  rw [hobj, Option.bind_some, SV.decimal, hone, Option.some.injEq] at htold
  exact absurd ((whole_eq_iff quarterStat.utime quarterStat.utimeMic).mp htold) (by decide)

end NetBsd
