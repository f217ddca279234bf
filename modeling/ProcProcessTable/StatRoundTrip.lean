import ProcProcessTable.LinuxTable

/-!
# A rendered stat record is scanned back

The kernel prints a process as `pid (comm) S n n ...`; `get_proc_stat` reads
that line back into the record that `OS_get_table` has just cleared.  Every
member returns for every record.  The command name, of which the record holds
the first 15 bytes, returns as long as its length is positive as an `int`: from
`2 ^ 31` bytes on the difference of the two parentheses may wrap to a negative
number, and the name is not copied.
-/

namespace Linux

open CText MemPool Xs

/-- A call of `get_proc_stat` returned true, left exactly the record in the
members it scans, and lowered exactly the flags from `F_PID` to `F_WCHAN`. -/
def RoundTrips (r : ProcessRecord) (prs formatStr : Nat) (before : Memory)
    (out : Bool × Memory) : Prop :=
  out.1 = true ∧
    scrapedAt out.2 prs = r.store (scrapedAt before prs) ∧
    ∀ f, isEnabled (out.2.bytesAt formatStr) f =
      (isEnabled (before.bytesAt formatStr) f || Field.between .pid .wchan f)

/-- The record and the format string of an entry, with the owner filled in, as
`get_proc_stat` finds them. -/
def beforeStat (res : Residue (Procstat Nat)) (k : Kernel) (pid : List Char) (start : Memory) :
    Nat × Nat × Memory :=
  let (prs, formatStr, pool) := newEntry res start
  (prs, formatStr, getUserInfo k pid prs formatStr pool)

/-- The call, as the loop of `OS_get_table` makes it. -/
def statCall (res : Residue (Procstat Nat)) (k₀ k : Kernel) (pid : List Char) (start : Memory) :
    Bool × Memory :=
  let (prs, formatStr, pool) := beforeStat res k₀ pid start
  getProcStat res k pid prs formatStr pool

/-- A record differs from what was scanned in the command name at most. -/
theorem store_eq_iff (r : ProcessRecord) (prs : Scraped) (comm : Mem) :
    { r.store prs with comm := comm } = r.store prs ↔ comm = (r.store prs).comm := by
  constructor
  · intro h
    exact congrArg Scraped.comm h
  · intro h
    rw [h]

/-- The owner leaves the command name cleared. -/
theorem userInfo_comm (k : Kernel) (pid : List Char) :
    (Row.init.userInfo k pid).prs.comm = List.replicate sizeofComm nul := by
  unfold Row.userInfo
  cases k.stat (pidPath pid none) <;> rfl

section

variable (r : ProcessRecord) (res : Residue (Procstat Nat)) (k₀ k : Kernel) {pid : List Char}
  {start : Memory} (hrest : start.growing = []) (hpid : nul ∉ pid)
  (hfile : fileContent (k.openFile (pidPath pid (some "stat".toList))) = some r.render)

include hrest hpid hfile

/-- What the call leaves. -/
theorem statCall_render :
    ∃ before prs, beforeStat res k₀ pid start =
        (start.finished.length, start.finished.length + 1, before) ∧
      prs.comm = List.replicate sizeofComm nul ∧
      scrapedAt before start.finished.length = prs ∧
      (statCall res k₀ k pid start).1 = true ∧
      scrapedAt (statCall res k₀ k pid start).2 start.finished.length = { r.store prs with
        comm := (copyComm prs (r.comm ++ nul :: r.tail) r.comm.length).comm } ∧
      ∀ f, isEnabled ((statCall res k₀ k pid start).2.bytesAt (start.finished.length + 1)) f =
        (isEnabled (before.bytesAt (start.finished.length + 1)) f || Field.between .pid .wchan f) := by
  obtain ⟨pool, hnew, h0⟩ := newEntry_frame res hrest
  have h1 := getUserInfo_frame k₀ h0 hpid
  obtain ⟨hok, h2⟩ := getProcStat_frame res k h1 hpid
  obtain ⟨hread, hen, hprs⟩ := r.scanStat_render (Row.init.userInfo k₀ pid).prs.toScraped []
  have hformat := Row.userInfo_formatStr (r := Row.init) rfl k₀ pid
  have hbefore : beforeStat res k₀ pid start = (start.finished.length, start.finished.length + 1,
      getUserInfo k₀ pid start.finished.length (start.finished.length + 1) pool) := by
    rw [beforeStat, hnew]
  have hcall : statCall res k₀ k pid start = getProcStat res k pid start.finished.length
      (start.finished.length + 1)
      (getUserInfo k₀ pid start.finished.length (start.finished.length + 1) pool) := by
    rw [statCall, hbefore]
  have hrow : (Row.init.userInfo k₀ pid).procStat k pid = (true,
      ⟨fieldEnableRange (Row.init.userInfo k₀ pid).formatStr .pid .wchan,
        (Row.init.userInfo k₀ pid).prs.scraped fun s => { r.store s with
          comm := (copyComm s (r.comm ++ nul :: r.tail) r.comm.length).comm }⟩) := by
    unfold Row.procStat Row.file
    rw [hfile]
    dsimp only
    rw [hread, hen, hprs]
    rfl
  rw [hrow] at hok h2
  refine ⟨_, _, hbefore, userInfo_comm k₀ pid, h1.scrapedAt_eq, ?_, ?_, ?_⟩
  · rw [hcall]
    exact hok
  · rw [hcall]
    exact h2.scrapedAt_eq
  · intro f
    rw [hcall, h2.bytesAt_format, h1.bytesAt_format, hformat,
      fieldEnableRange_formatOf _ (show Field.pid.idx ≤ Field.wchan.idx by decide),
      isEnabled_formatOf, isEnabled_formatOf]
    rfl

/-- **The stat record returns exactly when its name fits.**  For every record,
the call of `get_proc_stat` on its rendering round trips if and only if the
command name is empty or its length is positive as an `int`. -/
theorem getProcStat_roundTrips_iff :
    RoundTrips r (beforeStat res k₀ pid start).1 (beforeStat res k₀ pid start).2.1
        (beforeStat res k₀ pid start).2.2 (statCall res k₀ k pid start) ↔
      r.comm = [] ∨ 0 < (Int32.ofInt r.comm.length).toInt := by
  obtain ⟨before, prs, hbefore, hzero, hscraped, hok, hstore, hflags⟩ :=
    statCall_render r res k₀ k hrest hpid hfile
  have hcomm : _ ↔ r.CommLenFits := r.copyComm_eq_store_iff hzero r.tail
  rw [hbefore]
  unfold RoundTrips
  dsimp only
  rw [hscraped, hstore, store_eq_iff, hcomm]
  exact ⟨fun h => h.2.1, fun h => ⟨hok, h, hflags⟩⟩

end

/-- A record of which only the command name matters. -/
def recordNamed (comm : List Char) (hcomm : nul ∉ comm) : ProcessRecord where
  pid := 42
  comm := comm
  stateC := 'S'
  ppid := 1
  pgrp := -1
  sid := 0
  tty := 0
  ttyPgid := .ofInt (-1)
  flags := 0
  minflt := 0
  cminflt := 0
  majflt := 0
  cmajflt := 0
  utime := 0
  stime := 0
  cutime := 0
  cstime := 0
  priority := 20
  nice := .ofInt 0
  numThreads := .ofInt 1
  itrealvalue := .ofInt 0
  startTime := 0
  vsize := 0
  rss := 0
  rsslim := .ofInt 0
  startCode := .ofInt 0
  endCode := .ofInt 0
  startStack := .ofInt 0
  esp := .ofInt 0
  eip := .ofInt 0
  pending := .ofInt 0
  blocked := .ofInt 0
  sigign := .ofInt 0
  sigcatch := .ofInt 0
  wchan := 0
  more := ['\n']
  comm_nulFree := hcomm
  stateC_isAlpha := by decide
  more_ends := by
    intro c hc
    obtain rfl := Option.mem_some.mp hc
    decide
  more_plain := by decide

/-- A kernel under which every file has the same content. -/
def Kernel.constant (text : List Char) : Kernel where
  stat := fun _ => none
  access := fun _ => true
  openFile := fun _ => some (Reads.bytewise text)
  realpath := fun _ => none
  time := 0

/-- The round trip of a process whose name has parentheses, blanks, a newline
and digits in it. -/
theorem getProcStat_roundTrips_odd_name :
    RoundTrips (recordNamed ['a', ')', ' ', '(', '4', '\n', ')'] (by decide))
      (beforeStat clearedMemory (Kernel.constant []) ['4', '2'] Pool.init).1
      (beforeStat clearedMemory (Kernel.constant []) ['4', '2'] Pool.init).2.1
      (beforeStat clearedMemory (Kernel.constant []) ['4', '2'] Pool.init).2.2
      (statCall clearedMemory (Kernel.constant [])
        (Kernel.constant (recordNamed ['a', ')', ' ', '(', '4', '\n', ')'] (by decide)).render)
        ['4', '2'] Pool.init) :=
  (getProcStat_roundTrips_iff _ clearedMemory _ _ rfl (by decide)
    (fileContent_bytewise _)).mpr (Or.inr (by decide))

/-- A name of `2 ^ 31` bytes. -/
def longName : List Char := List.replicate (2 ^ 31) 'a'

theorem nul_not_mem_longName : nul ∉ longName := by
  intro h
  have heq := (List.mem_replicate.mp h).2
  revert heq
  decide

/-- **The name that does not return**: its length is negative as an `int`, so
it is not copied, and the record holds an empty name. -/
theorem getProcStat_not_roundTrips_longName :
    ¬ RoundTrips (recordNamed longName nul_not_mem_longName)
      (beforeStat clearedMemory (Kernel.constant []) ['4', '2'] Pool.init).1
      (beforeStat clearedMemory (Kernel.constant []) ['4', '2'] Pool.init).2.1
      (beforeStat clearedMemory (Kernel.constant []) ['4', '2'] Pool.init).2.2
      (statCall clearedMemory (Kernel.constant [])
        (Kernel.constant (recordNamed longName nul_not_mem_longName).render)
        ['4', '2'] Pool.init) := by
  intro h
  obtain ⟨before, prs, hbefore, hzero, hscraped, _, hstore, _⟩ :=
    @statCall_render (recordNamed longName nul_not_mem_longName) clearedMemory
      (Kernel.constant []) (Kernel.constant (recordNamed longName nul_not_mem_longName).render)
      ['4', '2'] Pool.init rfl (by decide) (fileContent_bytewise _)
  rw [hbefore] at h
  have hsame := h.2.1
  dsimp only at hsame
  rw [hscraped, hstore, store_eq_iff] at hsame
  have hlen : (recordNamed longName nul_not_mem_longName).comm.length = 2 ^ 31 :=
    List.length_replicate
  rcases ((recordNamed longName nul_not_mem_longName).copyComm_eq_store_iff hzero _).mp hsame
    with hnil | hpos
  · rw [hnil] at hlen
    revert hlen
    decide
  · rw [hlen] at hpos
    revert hpos
    decide

end Linux
