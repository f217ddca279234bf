import ProcProcessTable.LinuxReadFile
import ProcProcessTable.LinuxStatRecord
import ProcProcessTable.LinuxStatusScan
import ProcProcessTable.BlessIntoProc

/-!
# The scrapers

The functions `OS_get_table` calls for one process, on the memory pool.  `prs`
and `formatStr` are the heights of the record and of the format string on the
pool; each function is given the kernel's answers at the moment it runs, and
returns the pool it leaves.

`fixup_stat_values` and `calc_prec` touch no pool object but the format string
and the value members, and are written on these two.
-/

namespace Linux

open CText MemPool Xs

/-- The pool of `OS_get_table`: a record's pointer is a height on it. -/
abbrev Memory := Pool (Procstat Nat)

/-- The pointer members of the record. -/
inductive Member
  | cwd | cmndline | cmdline | environ | exec
  deriving DecidableEq, Repr

namespace Procstat

variable {π : Type}

def get (p : Procstat π) : Member → Option π
  | .cwd => p.cwd
  | .cmndline => p.cmndline
  | .cmdline => p.cmdline
  | .environ => p.environ
  | .exec => p.exec

def set (p : Procstat π) (m : Member) (ptr : π) : Procstat π :=
  match m with
  | .cwd => { p with cwd := some ptr }
  | .cmndline => { p with cmndline := some ptr }
  | .cmdline => { p with cmdline := some ptr }
  | .environ => { p with environ := some ptr }
  | .exec => { p with exec := some ptr }

/-- Change the value members. -/
def scraped (p : Procstat π) (f : Scraped → Scraped) : Procstat π :=
  { p with toScraped := f p.toScraped }

/-- Every pointer of a record is that of one of its members. -/
theorem mem_pointers {p : Procstat π} {q : π} (h : q ∈ p.pointers) :
    ∃ m, p.get m = some q := by
  obtain ⟨ptr, hptr, hq⟩ := List.mem_filterMap.mp h
  obtain rfl : ptr = some q := hq
  simp only [List.mem_cons, List.not_mem_nil, or_false] at hptr
  rcases hptr with h | h | h | h | h
  · exact ⟨.cwd, h.symm⟩
  · exact ⟨.cmndline, h.symm⟩
  · exact ⟨.cmdline, h.symm⟩
  · exact ⟨.environ, h.symm⟩
  · exact ⟨.exec, h.symm⟩

/-- The pointers are no part of what is scanned. -/
@[simp] theorem scraped_get (p : Procstat π) (f : Scraped → Scraped)
    (m : Member) : (p.scraped f).get m = p.get m := by
  cases m <;> rfl

/-- The scanned members are replaced by those of the function. -/
@[simp] theorem scraped_toScraped (p : Procstat π) (f : Scraped → Scraped) :
    (p.scraped f).toScraped = f p.toScraped := rfl

/-- To set a pointer changes no scanned member. -/
@[simp] theorem set_toScraped (p : Procstat π) (m : Member) (ptr : π) :
    (p.set m ptr).toScraped = p.toScraped := by
  cases m <;> rfl

/-- One pointer is set, and the others stay. -/
theorem set_get (p : Procstat π) (m m' : Member) (ptr : π) :
    (p.set m ptr).get m' = if m' = m then some ptr else p.get m' := by
  cases m <;> cases m' <;> rfl

end Procstat

/-- The value members of the record at an address. -/
def scrapedAt (pool : Memory) (prs : Nat) : Scraped :=
  match pool.recordAt? prs with
  | some p => p.toScraped
  | none => .zero

/-- `get_user_info`. -/
def getUserInfo (k : Kernel) (pid : List Char) (prs formatStr : Nat) (pool : Memory) : Memory :=
  let (pathPid, pool) := procPidFile pid none pool
  let result := k.stat (cstr (pool.bytesAt pathPid))
  let pool := pool.free pathPid
  match result with
  | none => pool
  | some (stUid, stGid) =>
      let pool := pool.modifyRecord prs fun p =>
        p.scraped fun s => { s with uid := stUid.toInt32, gid := stGid.toInt32 }
      pool.modifyBytes formatStr fun s => fieldEnable (fieldEnable s .uid) .gid

/-- `get_proc_stat`. -/
def getProcStat (res : Residue (Procstat Nat)) (k : Kernel) (pid : List Char)
    (prs formatStr : Nat) (pool : Memory) : Bool × Memory :=
  let out := readFile res k pid (some "stat".toList) pool
  match out.text with
  | none => (false, out.pool)
  | some (statText, _) =>
      let scan := scanStat (out.pool.bytesAt statText) (scrapedAt out.pool prs)
      let pool := out.pool.modifyBytes statText fun _ => scan.text
      let pool := pool.modifyRecord prs fun p => p.scraped fun _ => scan.prs
      let pool :=
        if scan.enabled then pool.modifyBytes formatStr fun s => fieldEnableRange s .pid .wchan
        else pool
      (scan.readOk, pool.free statText)

/-- `eval_link`. -/
def evalLink (k : Kernel) (pid linkRel : List Char) (field : Field) (ptr : Member)
    (prs formatStr : Nat) (pool : Memory) : Memory :=
  let (linkFile, pool) := procPidFile pid (some linkRel) pool
  let link := k.realpath (cstr (pool.bytesAt linkFile))
  let pool := pool.free linkFile
  match link with
  | none => pool
  | some link =>
      let (obj, pool) := ((pool.grow (cstr link)).grow [nul]).finish
      let pool := pool.modifyRecord prs fun p => p.set ptr obj
      pool.modifyBytes formatStr fun s => fieldEnable s field

/-- The loop of `get_proc_cmndline`: every NUL but the last becomes a blank. -/
def nulsToSpaces (cmndlineText : Mem) (cmndlineOff : Nat) : Mem :=
  (cmndlineText.take (cmndlineOff - 1)).map (fun c => if c = nul then ' ' else c) ++
    cmndlineText.drop (cmndlineOff - 1)

/-- `get_proc_cmndline`. -/
def getProcCmndline (res : Residue (Procstat Nat)) (k : Kernel) (pid : List Char)
    (prs formatStr : Nat) (pool : Memory) : Memory :=
  let out := readFile res k pid (some "cmdline".toList) pool
  match out.text with
  | none => out.pool
  | some (cmndlineText, cmndlineOff) =>
      let pool := out.pool.modifyBytes cmndlineText fun m => nulsToSpaces m cmndlineOff
      let pool := pool.modifyRecord prs fun p => p.set .cmndline cmndlineText
      pool.modifyBytes formatStr fun s => fieldEnable s .cmndline

/-- `get_proc_cmdline`. -/
def getProcCmdline (res : Residue (Procstat Nat)) (k : Kernel) (pid : List Char)
    (prs formatStr : Nat) (pool : Memory) : Memory :=
  let out := readFile res k pid (some "cmdline".toList) pool
  match out.text with
  | none => out.pool
  | some (cmdlineText, cmdlineOff) =>
      let pool := out.pool.modifyRecord prs fun p =>
        (p.set .cmdline cmdlineText).scraped fun s => { s with cmdlineLen := Int32.ofNat cmdlineOff }
      pool.modifyBytes formatStr fun s => fieldEnable s .cmdline

/-- `get_proc_environ`. -/
def getProcEnviron (res : Residue (Procstat Nat)) (k : Kernel) (pid : List Char)
    (prs formatStr : Nat) (pool : Memory) : Memory :=
  let out := readFile res k pid (some "environ".toList) pool
  match out.text with
  | none => out.pool
  | some (environText, environOff) =>
      let pool := out.pool.modifyRecord prs fun p =>
        (p.set .environ environText).scraped fun s => { s with environLen := Int32.ofNat environOff }
      pool.modifyBytes formatStr fun s => fieldEnable s .environ

/-- `get_proc_status`; `none` when it does not return. -/
def getProcStatus (res : Residue (Procstat Nat)) (k : Kernel) (pid : List Char)
    (prs formatStr : Nat) (pool : Memory) : Option Memory :=
  let out := readFile res k pid (some "status".toList) pool
  match out.text with
  | none => some out.pool
  | some (statusText, _) =>
      match scanStatus (out.pool.bytesAt statusText) (out.pool.bytesAt formatStr)
          (scrapedAt out.pool prs) with
      | none => none
      | some (format, values) =>
          let pool := out.pool.modifyRecord prs fun p => p.scraped fun _ => values
          let pool := pool.modifyBytes formatStr fun _ => format
          some (pool.free statusText)

/-- The `switch` of `fixup_stat_values`. -/
def stateOf : Char → Option State
  | 'S' => some .sleep
  | 'W' => some .wait
  | 'R' => some .run
  | 'I' => some .idle
  | 'Z' => some .defunct
  | 'D' => some .uwait
  | 'T' | 'H' => some .stop
  | 'x' => some .dead
  | 'X' => some .dead
  | 'K' => some .wakekill
  | 't' => some .tracingstop
  | 'P' => some .parked
  | _ => none

/-- `fixup_stat_values`. -/
def fixupStatValues (g : Globals) (fp : FloatOps) (formatStr : Mem) (prs : Scraped) :
    Mem × Scraped :=
  let (formatStr, prs) :=
    match stateOf prs.stateC with
    | some state => (fieldEnable formatStr .state, { prs with state := some (getString state.idx) })
    | none => (formatStr, prs)
  let prs := { prs with
    startTime := prs.startTime / g.systemHertz.toUInt64 + g.bootTime.toUInt64 }
  let prs := { prs with
    stime := fp.jiffiesUnsigned prs.stime g.systemHertz
    utime := fp.jiffiesUnsigned prs.utime g.systemHertz
    cstime := fp.jiffiesSigned prs.cstime g.systemHertz
    cutime := fp.jiffiesSigned prs.cutime g.systemHertz }
  let prs := { prs with
    time := prs.utime + prs.stime
    ctime := (prs.cutime + prs.cstime).toUInt64 }
  let formatStr := fieldEnableRange formatStr .time .ctime
  (formatStr, { prs with rss := prs.rss * g.pageSize.toUInt64.toInt64 })

/-- `calc_prec`. -/
def calcPrec (g : Globals) (fp : FloatOps) (k : Kernel) (formatStr : Mem) (prs : Scraped) :
    Except Fault (Mem × Scraped) :=
  let pctcpu := fp.pctcpuText (prs.utime + prs.stime) (k.time.toUInt64 - prs.startTime)
  let prs := { prs with
    pctcpu := overwrite prs.pctcpu 0 (pctcpu.take (LENGTH_PCTCPU - 1) ++ [nul]) }
  let formatStr := fieldEnable formatStr .pctcpu
  if g.systemMemory ≠ 0 then
    let pctmem := fp.pctmemText prs.rss g.systemMemory
    -- the text is printed without a bound
    if pctmem.length < sizeofPctmem then
      .ok (fieldEnable formatStr .pctmem,
        { prs with pctmem := overwrite prs.pctmem 0 (pctmem ++ [nul]) })
    else .error .overflow
  else .ok (formatStr, prs)

/-- `is_pid`. -/
def isPid (str : Mem) : Bool := (cstr str).all Char.isDigit

/-- `pid_exists`. -/
def pidExists (k : Kernel) (str : List Char) (pool : Memory) : Bool × Memory :=
  let (pidDirPath, pool) := ((pool.grow (procDir ++ str)).grow [nul]).finish
  let result := k.access (cstr (pool.bytesAt pidDirPath))
  (result, pool.free pidDirPath)

/-- The points of one iteration at which the system is asked. -/
inductive Moment
  | userInfo | procStat | pidExists | cmndline | cmdline | environ | cwd | exec | status | calcPrec
  deriving DecidableEq, Repr

/-- One entry of the directory, with what the system answers while it is worked
on, and what the call of `bless_into_proc` for it leaves in the upper half of a
slot when a field's argument has 4 bytes. -/
structure DirEntry where
  dName : List Char
  world : Moment → Kernel
  upper : Field → UInt32
  dName_nulFree : nul ∉ dName
  dName_length : dName.length ≤ 255

/-- `struct dirent`: its size, and where `d_name` stands in it. -/
def sizeofDirent : Nat := 280
def dNameOffset : Nat := 19

/-- What surrounds the port: its static variables and the floating-point
results. -/
structure Port where
  globals : Globals
  float : FloatOps

/-- Where the work on one entry ends. -/
inductive Scrape
  /-- not a process id -/
  | notPid
  /-- the directory went away mid flight -/
  | gone
  | fault (f : Fault)
  /-- at the call of `bless_into_proc` -/
  | ready (prs formatStr : Nat)

/-- `dir_result->d_name`. -/
def readName (dirEnt : Nat) (pool : Memory) : List Char :=
  cstr ((pool.bytesAt dirEnt).drop dNameOffset)

/-- The container for the values of one process and its format string. -/
def newEntry (res : Residue (Procstat Nat)) (pool : Memory) : Nat × Nat × Memory :=
  let (prs, pool) := pool.allocRecord res
  -- bzero
  let pool := pool.modifyRecord prs fun _ => Procstat.zero
  let (formatStr, pool) := ((pool.grow defaultFormat).grow [nul]).finish
  (prs, formatStr, pool)

/-- The calls from `get_user_info` to `pid_exists`: the answer is `false` when
the directory went away mid flight. -/
def scrapeStat (res : Residue (Procstat Nat)) (e : DirEntry) (dirEnt prs formatStr : Nat)
    (pool : Memory) : Bool × Memory :=
  let pool := getUserInfo (e.world .userInfo) (readName dirEnt pool) prs formatStr pool
  let out := getProcStat res (e.world .procStat) (readName dirEnt pool) prs formatStr pool
  if out.1 = false then pidExists (e.world .pidExists) (readName dirEnt out.2) out.2
  else (true, out.2)

/-- The calls from `fixup_stat_values` to the second `eval_link`. -/
def scrapeFiles (port : Port) (res : Residue (Procstat Nat)) (e : DirEntry)
    (dirEnt prs formatStr : Nat) (pool : Memory) : Memory :=
  let (format, values) :=
    fixupStatValues port.globals port.float (pool.bytesAt formatStr) (scrapedAt pool prs)
  let pool := pool.modifyRecord prs fun p => p.scraped fun _ => values
  let pool := pool.modifyBytes formatStr fun _ => format
  let pool := getProcCmndline res (e.world .cmndline) (readName dirEnt pool) prs formatStr pool
  let pool := getProcCmdline res (e.world .cmdline) (readName dirEnt pool) prs formatStr pool
  let pool := getProcEnviron res (e.world .environ) (readName dirEnt pool) prs formatStr pool
  let pool :=
    evalLink (e.world .cwd) (readName dirEnt pool) "cwd".toList .cwd .cwd prs formatStr pool
  evalLink (e.world .exec) (readName dirEnt pool) "exe".toList .exec .exec prs formatStr pool

/-- The calls of `get_proc_status` and `calc_prec`. -/
def scrapeRest (port : Port) (res : Residue (Procstat Nat)) (e : DirEntry)
    (dirEnt prs formatStr : Nat) (pool : Memory) : Scrape × Memory :=
  match getProcStatus res (e.world .status) (readName dirEnt pool) prs formatStr pool with
  | none => (.fault .hang, pool)
  | some pool =>
      match calcPrec port.globals port.float (e.world .calcPrec) (pool.bytesAt formatStr)
          (scrapedAt pool prs) with
      | .error f => (.fault f, pool)
      | .ok out =>
          let pool := pool.modifyRecord prs fun p => p.scraped fun _ => out.2
          (.ready prs formatStr, pool.modifyBytes formatStr fun _ => out.1)

/-- The body of the loop of `OS_get_table` up to `bless_into_proc`. -/
def scrapeEntry (port : Port) (res : Residue (Procstat Nat)) (e : DirEntry) (dirEnt : Nat)
    (pool : Memory) : Scrape × Memory :=
  -- readdir_r
  let pool := pool.modifyBytes dirEnt fun m => overwrite m dNameOffset (e.dName ++ [nul])
  if isPid (readName dirEnt pool) = false then (.notPid, pool)
  else
    let (prs, formatStr, pool) := newEntry res pool
    let out := scrapeStat res e dirEnt prs formatStr pool
    if out.1 = false then (.gone, out.2)
    else
      scrapeRest port res e dirEnt prs formatStr
        (scrapeFiles port res e dirEnt prs formatStr out.2)

/-- The slot of a 4-byte argument. -/
def argHalf (upper : Field → UInt32) (f : Field) (w : UInt32) : Slot :=
  .word (UInt64.ofNat ((upper f).toNat * 2 ^ 32 + w.toNat))

def argInt (upper : Field → UInt32) (f : Field) (x : Int32) : Slot := argHalf upper f x.toUInt32

/-- The arguments of the call of `bless_into_proc` behind the field names;
`deref` reads the memory a pool pointer reaches. -/
def blessArgs {π : Type} (upper : Field → UInt32) (deref : π → Mem) (prs : Procstat π) : List Slot :=
  [argInt upper .uid prs.uid,
   argInt upper .gid prs.gid,
   argInt upper .pid prs.pid,
   .ptr (some prs.comm),
   argInt upper .ppid prs.ppid,
   argInt upper .pgrp prs.pgrp,
   argInt upper .sess prs.sid,
   argInt upper .ttynum prs.tty,
   argHalf upper .flags prs.flags,
   .word prs.minflt,
   .word prs.cminflt,
   .word prs.majflt,
   .word prs.cmajflt,
   .word prs.utime,
   .word prs.stime,
   .word prs.cutime.toUInt64,
   .word prs.cstime.toUInt64,
   .word prs.priority.toUInt64,
   .word prs.startTime,
   .word prs.vsize,
   .word prs.rss.toUInt64,
   .word prs.wchan,
   .word prs.time,
   .word prs.ctime,
   .ptr (prs.state.map stringAt),
   argInt upper .euid prs.euid,
   argInt upper .suid prs.suid,
   argInt upper .fuid prs.fuid,
   argInt upper .egid prs.egid,
   argInt upper .sgid prs.sgid,
   argInt upper .fgid prs.fgid,
   .ptr (some prs.pctcpu),
   .ptr (some prs.pctmem),
   .ptr (prs.cmndline.map deref),
   .ptr (prs.exec.map deref),
   .ptr (prs.cwd.map deref),
   .ptr (prs.cmdline.map deref),
   argInt upper .cmdline prs.cmdlineLen,
   .ptr (prs.environ.map deref),
   argInt upper .environ prs.environLen,
   argInt upper .tracer prs.tracer]

/-- The state of the loop of `OS_get_table`: the pool, the extension's
variables, and the fault it ended with. -/
structure Table where
  pool : Memory
  xs : Interp
  fault : Option Fault

/-- One iteration of the loop. -/
def tableStep (port : Port) (res : Residue (Procstat Nat)) (dirEnt : Nat) (s : Table)
    (e : DirEntry) : Table :=
  match s.fault with
  | some _ => s
  | none =>
      match scrapeEntry port res e dirEnt s.pool with
      | (.notPid, pool) => { s with pool := pool }
      | (.gone, pool) => { s with pool := pool }
      | (.fault f, pool) => { s with pool := pool, fault := some f }
      | (.ready prs formatStr, pool) =>
          match pool.recordAt? prs with
          | none => { s with pool := pool, fault := some .badArgument }
          | some p =>
              let args := blessArgs e.upper pool.bytesAt p
              let (xs, fault) := blessIntoProc (pool.bytesAt formatStr) fieldKeys args s.xs
              match fault with
              | some f => { pool := pool, xs := xs, fault := some f }
              | none => { pool := pool.free prs, xs := xs, fault := none }

/-- `OS_get_table`, on the entries that `readdir_r` returns; `none` when
`/proc` cannot be opened. -/
def osGetTable (port : Port) (res : Residue (Procstat Nat)) (proc : Option (List DirEntry))
    (xs : Interp) : Table :=
  let (dirEnt, pool) := Pool.init.alloc res sizeofDirent
  match proc with
  | none => ⟨pool, xs, none⟩
  | some entries =>
      let s := entries.foldl (tableStep port res dirEnt) ⟨pool, xs, none⟩
      match s.fault with
      | some _ => s
      | none => { s with pool := s.pool.free 0 }

end Linux
