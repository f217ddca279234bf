import ProcProcessTable.LinuxTable
import ProcProcessTable.PoolProgram

/-!
# OS_get_table as a program on a memory pool

The functions that work on the pool, written as the requests they make of it.
On the stack each of them is the function it is named after (`readFile_run`
and so on), so what was proved about those holds for any pool that simulates
the stack.
-/

namespace Linux

open CText MemPool Xs

namespace OnPool

section

variable {ρ : Type} (res : Residue ρ)

open MemPool.Program (grow oneGrow blank poke finish alloc free bytesAt modifyBytes allocRecord
  recordAt? modifyRecord)

/-- `proc_pid_file`. -/
def procPidFile (pid : List Char) (file : Option (List Char)) : Program ρ Nat := do
  grow (procDir ++ pid)
  match file with
  | some file => grow ('/' :: file)
  | none => pure ()
  oneGrow nul
  finish

/-- The `for` loop of `read_file`. -/
def readLoop (failed : Bool) : List (List Char) → Nat → Program ρ (Option Nat)
  | [], len => do
      blank 1024
      pure (if failed then none else some len)
  | chunk :: chunks, len => do
      blank 1024
      poke len chunk
      readLoop failed chunks (len + chunk.length)

/-- `read_file`. -/
def readFile (k : Kernel) (path : List Char) (extraPath : Option (List Char)) :
    Program ρ (Option (Nat × Nat)) := do
  let file ← procPidFile path extraPath
  let name ← bytesAt file
  free file
  match k.openFile (cstr name) with
  | none => pure none
  | some reads => do
      let len ← readLoop reads.failed reads.chunks 0
      match len with
      | none => do
          let obj ← finish
          free obj
          pure none
      | some len => do
          poke len [nul]
          let text ← finish
          pure (some (text, len))

/-- On the stack the path is built as before. -/
theorem procPidFile_run (pid : List Char) (file : Option (List Char)) (p : Pool ρ) :
    (procPidFile pid file).run res p = Linux.procPidFile pid file p := by
  cases file <;> rfl

/-- The loop of `read_file` comes to the loop on the stack, chunk by chunk. -/
theorem readLoop_run (failed : Bool) (chunks : List (List Char)) (len : Nat) (p : Pool ρ) :
    (readLoop failed chunks len).run res p = Linux.readLoop res failed chunks len p := by
  induction chunks generalizing len p with
  | nil => rfl
  | cons chunk chunks ih => exact ih _ _

/-- So does the whole of `read_file`, with its text and the pool it leaves. -/
theorem readFile_run (k : Kernel) (path : List Char) (extraPath : Option (List Char))
    (p : Pool ρ) : (readFile k path extraPath).run res p =
      ((Linux.readFile res k path extraPath p).text, (Linux.readFile res k path extraPath p).pool) := by
  unfold readFile Linux.readFile
  rw [Program.run_bind, procPidFile_run]
  obtain ⟨file, p₁⟩ := Linux.procPidFile path extraPath p
  simp only [Program.run_bind, Program.run_bytesAt, Program.run_free]
  cases k.openFile (cstr (p₁.bytesAt file)) with
  | none => rfl
  | some reads =>
      dsimp only
      rw [Program.run_bind, readLoop_run]
      obtain ⟨len, p₂⟩ := Linux.readLoop res reads.failed reads.chunks 0 (p₁.free file)
      cases len <;> rfl

end

section

variable (res : Residue (Procstat Nat))

open MemPool.Program (grow oneGrow blank poke finish alloc free bytesAt modifyBytes allocRecord
  recordAt? modifyRecord)

/-- Requests on the pool of `OS_get_table`. -/
abbrev OnMemory (α : Type) := Program (Procstat Nat) α

/-- The value members of the record at an address. -/
def readScraped (prs : Nat) : OnMemory Scraped := do
  let p ← recordAt? prs
  pure ((p.map Procstat.toScraped).getD .zero)

/-- `get_user_info`. -/
def getUserInfo (k : Kernel) (pid : List Char) (prs formatStr : Nat) : OnMemory Unit := do
  let pathPid ← procPidFile pid none
  let path ← bytesAt pathPid
  free pathPid
  match k.stat (cstr path) with
  | none => pure ()
  | some (stUid, stGid) => do
      modifyRecord prs fun p =>
        p.scraped fun s => { s with uid := stUid.toInt32, gid := stGid.toInt32 }
      modifyBytes formatStr fun s => fieldEnable (fieldEnable s .uid) .gid

/-- `get_proc_stat`. -/
def getProcStat (k : Kernel) (pid : List Char) (prs formatStr : Nat) : OnMemory Bool := do
  let text ← readFile k pid (some "stat".toList)
  match text with
  | none => pure false
  | some (statText, _) => do
      let m ← bytesAt statText
      let values ← readScraped prs
      let scan := scanStat m values
      modifyBytes statText fun _ => scan.text
      modifyRecord prs fun p => p.scraped fun _ => scan.prs
      if scan.enabled then modifyBytes formatStr fun s => fieldEnableRange s .pid .wchan
      else pure ()
      free statText
      pure scan.readOk

/-- `eval_link`. -/
def evalLink (k : Kernel) (pid linkRel : List Char) (field : Field) (ptr : Member)
    (prs formatStr : Nat) : OnMemory Unit := do
  let linkFile ← procPidFile pid (some linkRel)
  let path ← bytesAt linkFile
  free linkFile
  match k.realpath (cstr path) with
  | none => pure ()
  | some link => do
      grow (cstr link)
      oneGrow nul
      let obj ← finish
      modifyRecord prs fun p => p.set ptr obj
      modifyBytes formatStr fun s => fieldEnable s field

/-- `get_proc_cmndline`. -/
def getProcCmndline (k : Kernel) (pid : List Char) (prs formatStr : Nat) : OnMemory Unit := do
  let text ← readFile k pid (some "cmdline".toList)
  match text with
  | none => pure ()
  | some (cmndlineText, cmndlineOff) => do
      modifyBytes cmndlineText fun m => nulsToSpaces m cmndlineOff
      modifyRecord prs fun p => p.set .cmndline cmndlineText
      modifyBytes formatStr fun s => fieldEnable s .cmndline

/-- `get_proc_cmdline`. -/
def getProcCmdline (k : Kernel) (pid : List Char) (prs formatStr : Nat) : OnMemory Unit := do
  let text ← readFile k pid (some "cmdline".toList)
  match text with
  | none => pure ()
  | some (cmdlineText, cmdlineOff) => do
      modifyRecord prs fun p =>
        (p.set .cmdline cmdlineText).scraped fun s => { s with cmdlineLen := Int32.ofNat cmdlineOff }
      modifyBytes formatStr fun s => fieldEnable s .cmdline

/-- `get_proc_environ`. -/
def getProcEnviron (k : Kernel) (pid : List Char) (prs formatStr : Nat) : OnMemory Unit := do
  let text ← readFile k pid (some "environ".toList)
  match text with
  | none => pure ()
  | some (environText, environOff) => do
      modifyRecord prs fun p =>
        (p.set .environ environText).scraped fun s => { s with environLen := Int32.ofNat environOff }
      modifyBytes formatStr fun s => fieldEnable s .environ

/-- `get_proc_status`; the answer is `false` when it does not return. -/
def getProcStatus (k : Kernel) (pid : List Char) (prs formatStr : Nat) : OnMemory Bool := do
  let text ← readFile k pid (some "status".toList)
  match text with
  | none => pure true
  | some (statusText, _) => do
      let m ← bytesAt statusText
      let format ← bytesAt formatStr
      let values ← readScraped prs
      match scanStatus m format values with
      | none => pure false
      | some (format, values) => do
          modifyRecord prs fun p => p.scraped fun _ => values
          modifyBytes formatStr fun _ => format
          free statusText
          pure true

/-- `pid_exists`. -/
def pidExists (k : Kernel) (str : List Char) : OnMemory Bool := do
  grow (procDir ++ str)
  oneGrow nul
  let pidDirPath ← finish
  let path ← bytesAt pidDirPath
  free pidDirPath
  pure (k.access (cstr path))

/-- `dir_result->d_name`. -/
def readName (dirEnt : Nat) : OnMemory (List Char) := do
  let m ← bytesAt dirEnt
  pure (cstr (m.drop dNameOffset))

/-- The container for the values of one process and its format string. -/
def newEntry : OnMemory (Nat × Nat) := do
  let prs ← allocRecord
  modifyRecord prs fun _ => Procstat.zero
  grow defaultFormat
  oneGrow nul
  let formatStr ← finish
  pure (prs, formatStr)

/-- The calls from `get_user_info` to `pid_exists`. -/
def scrapeStat (e : DirEntry) (dirEnt prs formatStr : Nat) : OnMemory Bool := do
  let name ← readName dirEnt
  getUserInfo (e.world .userInfo) name prs formatStr
  let name ← readName dirEnt
  let readOk ← getProcStat (e.world .procStat) name prs formatStr
  if readOk = false then do
    let name ← readName dirEnt
    pidExists (e.world .pidExists) name
  else pure true

/-- The calls from `fixup_stat_values` to the second `eval_link`. -/
def scrapeFiles (port : Port) (e : DirEntry) (dirEnt prs formatStr : Nat) : OnMemory Unit := do
  let format ← bytesAt formatStr
  let values ← readScraped prs
  let out := fixupStatValues port.globals port.float format values
  modifyRecord prs fun p => p.scraped fun _ => out.2
  modifyBytes formatStr fun _ => out.1
  let name ← readName dirEnt
  getProcCmndline (e.world .cmndline) name prs formatStr
  let name ← readName dirEnt
  getProcCmdline (e.world .cmdline) name prs formatStr
  let name ← readName dirEnt
  getProcEnviron (e.world .environ) name prs formatStr
  let name ← readName dirEnt
  evalLink (e.world .cwd) name "cwd".toList .cwd .cwd prs formatStr
  let name ← readName dirEnt
  evalLink (e.world .exec) name "exe".toList .exec .exec prs formatStr

/-- The calls of `get_proc_status` and `calc_prec`. -/
def scrapeRest (port : Port) (e : DirEntry) (dirEnt prs formatStr : Nat) : OnMemory Scrape := do
  let name ← readName dirEnt
  let returned ← getProcStatus (e.world .status) name prs formatStr
  if returned = false then pure (.fault .hang)
  else do
    let format ← bytesAt formatStr
    let values ← readScraped prs
    match calcPrec port.globals port.float (e.world .calcPrec) format values with
    | .error f => pure (.fault f)
    | .ok out => do
        modifyRecord prs fun p => p.scraped fun _ => out.2
        modifyBytes formatStr fun _ => out.1
        pure (.ready prs formatStr)

/-- The body of the loop of `OS_get_table` up to `bless_into_proc`. -/
def scrapeEntry (port : Port) (e : DirEntry) (dirEnt : Nat) : OnMemory Scrape := do
  modifyBytes dirEnt fun m => overwrite m dNameOffset (e.dName ++ [nul])
  let name ← readName dirEnt
  if isPid name = false then pure .notPid
  else do
    let (prs, formatStr) ← newEntry
    let there ← scrapeStat e dirEnt prs formatStr
    if there = false then pure .gone
    else do
      scrapeFiles port e dirEnt prs formatStr
      scrapeRest port e dirEnt prs formatStr

/-- What a pointer member reaches. -/
def readMember : Option Nat → OnMemory (Option Mem)
  | none => pure none
  | some ptr => do
      let m ← bytesAt ptr
      pure (some m)

/-- The record with what its pointers reach. -/
def readTexts (p : Procstat Nat) : OnMemory (Procstat Mem) := do
  let cwd ← readMember p.cwd
  let cmndline ← readMember p.cmndline
  let cmdline ← readMember p.cmdline
  let environ ← readMember p.environ
  let exec ← readMember p.exec
  pure ⟨p.toScraped, cwd, cmndline, cmdline, environ, exec⟩

/-- One iteration of the loop. -/
def tableStep (port : Port) (dirEnt : Nat) (s : Interp × Option Fault) (e : DirEntry) :
    OnMemory (Interp × Option Fault) :=
  match s.2 with
  | some _ => pure s
  | none => do
      let scrape ← scrapeEntry port e dirEnt
      match scrape with
      | .notPid => pure s
      | .gone => pure s
      | .fault f => pure (s.1, some f)
      | .ready prs formatStr => do
          let p ← recordAt? prs
          match p with
          | none => pure (s.1, some .badArgument)
          | some p => do
              let texts ← readTexts p
              let format ← bytesAt formatStr
              match blessIntoProc format fieldKeys (blessArgs e.upper id texts) s.1 with
              | (xs, some f) => pure (xs, some f)
              | (xs, none) => do
                  free prs
                  pure (xs, none)

/-- The loop of `OS_get_table`. -/
def tableLoop (port : Port) (dirEnt : Nat) :
    List DirEntry → Interp × Option Fault → OnMemory (Interp × Option Fault)
  | [], s => pure s
  | e :: entries, s => do
      let s ← tableStep port dirEnt s e
      tableLoop port dirEnt entries s

/-- `OS_get_table` up to the release of the pool. -/
def osGetTable (port : Port) (proc : Option (List DirEntry)) (xs : Interp) :
    OnMemory (Interp × Option Fault) := do
  let dirEnt ← alloc sizeofDirent
  match proc with
  | none => pure (xs, none)
  | some entries => tableLoop port dirEnt entries (xs, none)

section Runs

variable (k : Kernel) (pid : List Char) (prs formatStr dirEnt : Nat) (pool : Memory)

/-- The record is read where it stands. -/
theorem readScraped_run : (readScraped prs).run res pool = (scrapedAt pool prs, pool) := by
  unfold readScraped
  rw [Program.run_bind, Program.run_recordAt?, Program.run_pure]
  unfold scrapedAt
  cases pool.recordAt? prs <;> rfl

/-- The name of the entry is read from the object of `dirent`. -/
theorem readName_run : (readName dirEnt).run res pool = (Linux.readName dirEnt pool, pool) := rfl

/-- **The helpers one by one**: as programs they do to the stack what they did without. -/
theorem getUserInfo_run : (getUserInfo k pid prs formatStr).run res pool =
    ((), Linux.getUserInfo k pid prs formatStr pool) := by
  unfold getUserInfo Linux.getUserInfo
  rw [Program.run_bind, procPidFile_run]
  obtain ⟨pathPid, p₁⟩ := Linux.procPidFile pid none pool
  simp only [Program.run_bind, Program.run_bytesAt, Program.run_free]
  cases k.stat (cstr (p₁.bytesAt pathPid)) <;> rfl

/-- With the answer whether the stat file could be read. -/
theorem getProcStat_run : (getProcStat k pid prs formatStr).run res pool =
    Linux.getProcStat res k pid prs formatStr pool := by
  unfold getProcStat Linux.getProcStat
  rw [Program.run_bind, readFile_run]
  dsimp only
  cases (Linux.readFile res k pid (some "stat".toList) pool).text with
  | none => rfl
  | some text =>
      simp only [Program.run_bind, Program.run_bytesAt, readScraped_run, Program.run_modifyBytes,
        Program.run_modifyRecord]
      split <;> rfl

/-- For any of the links. -/
theorem evalLink_run (linkRel : List Char) (field : Field) (ptr : Member) :
    (evalLink k pid linkRel field ptr prs formatStr).run res pool =
      ((), Linux.evalLink k pid linkRel field ptr prs formatStr pool) := by
  unfold evalLink Linux.evalLink
  rw [Program.run_bind, procPidFile_run]
  obtain ⟨linkFile, p₁⟩ := Linux.procPidFile pid (some linkRel) pool
  simp only [Program.run_bind, Program.run_bytesAt, Program.run_free]
  cases k.realpath (cstr (p₁.bytesAt linkFile)) <;> rfl

/-- The arguments, with blanks for NULs. -/
theorem getProcCmndline_run : (getProcCmndline k pid prs formatStr).run res pool =
    ((), Linux.getProcCmndline res k pid prs formatStr pool) := by
  unfold getProcCmndline Linux.getProcCmndline
  rw [Program.run_bind, readFile_run]
  dsimp only
  cases (Linux.readFile res k pid (some "cmdline".toList) pool).text <;> rfl

/-- The arguments as they are. -/
theorem getProcCmdline_run : (getProcCmdline k pid prs formatStr).run res pool =
    ((), Linux.getProcCmdline res k pid prs formatStr pool) := by
  unfold getProcCmdline Linux.getProcCmdline
  rw [Program.run_bind, readFile_run]
  dsimp only
  cases (Linux.readFile res k pid (some "cmdline".toList) pool).text <;> rfl

/-- The environment. -/
theorem getProcEnviron_run : (getProcEnviron k pid prs formatStr).run res pool =
    ((), Linux.getProcEnviron res k pid prs formatStr pool) := by
  unfold getProcEnviron Linux.getProcEnviron
  rw [Program.run_bind, readFile_run]
  dsimp only
  cases (Linux.readFile res k pid (some "environ".toList) pool).text <;> rfl

/-- The path of the directory is built a character at a time at its end. -/
theorem pidExists_run : (pidExists k pid).run res pool = Linux.pidExists k pid pool := rfl

/-- The one helper that need not return. -/
theorem getProcStatus_run : match Linux.getProcStatus res k pid prs formatStr pool with
    | none => ((getProcStatus k pid prs formatStr).run res pool).1 = false
    | some pool' => (getProcStatus k pid prs formatStr).run res pool = (true, pool') := by
  unfold getProcStatus Linux.getProcStatus
  rw [Program.run_bind, readFile_run]
  dsimp only
  cases (Linux.readFile res k pid (some "status".toList) pool).text with
  | none => rfl
  | some text =>
      simp only [Program.run_bind, Program.run_bytesAt, readScraped_run]
      cases scanStatus ((Linux.readFile res k pid (some "status".toList) pool).pool.bytesAt text.1)
          ((Linux.readFile res k pid (some "status".toList) pool).pool.bytesAt formatStr)
          (scrapedAt (Linux.readFile res k pid (some "status".toList) pool).pool prs) <;> rfl

/-- The record and the format string of a new process. -/
theorem newEntry_run : newEntry.run res pool =
    (((Linux.newEntry res pool).1, (Linux.newEntry res pool).2.1), (Linux.newEntry res pool).2.2) :=
  rfl

/-- The first part of an iteration, up to the question whether the process is still there. -/
theorem scrapeStat_run (e : DirEntry) : (scrapeStat e dirEnt prs formatStr).run res pool =
    Linux.scrapeStat res e dirEnt prs formatStr pool := by
  unfold scrapeStat Linux.scrapeStat
  simp only [Program.run_bind, readName_run, getUserInfo_run, getProcStat_run]
  split
  · rw [Program.run_bind, readName_run, pidExists_run]
  · rfl

/-- The second part, which cannot fail. -/
theorem scrapeFiles_run (port : Port) (e : DirEntry) :
    (scrapeFiles port e dirEnt prs formatStr).run res pool =
      ((), Linux.scrapeFiles port res e dirEnt prs formatStr pool) := by
  unfold scrapeFiles Linux.scrapeFiles
  simp only [Program.run_bind, Program.run_bytesAt, readScraped_run, Program.run_modifyRecord,
    Program.run_modifyBytes, readName_run, getProcCmndline_run, getProcCmdline_run,
    getProcEnviron_run, evalLink_run]

/-- Where the work ends, and on which pool unless it is stuck. -/
theorem scrapeRest_run (port : Port) (e : DirEntry) :
    ((scrapeRest port e dirEnt prs formatStr).run res pool).1 =
        (Linux.scrapeRest port res e dirEnt prs formatStr pool).1 ∧
      ((Linux.scrapeRest port res e dirEnt prs formatStr pool).1 ≠ .fault .hang →
        (scrapeRest port e dirEnt prs formatStr).run res pool =
          Linux.scrapeRest port res e dirEnt prs formatStr pool) := by
  have hstatus := getProcStatus_run res (e.world .status) (Linux.readName dirEnt pool) prs formatStr
    pool
  unfold scrapeRest Linux.scrapeRest
  rw [Program.run_bind, readName_run, Program.run_bind]
  cases hrun : Linux.getProcStatus res (e.world .status) (Linux.readName dirEnt pool) prs formatStr
      pool with
  | none =>
      rw [hrun] at hstatus
      dsimp only at hstatus ⊢
      rw [if_pos hstatus]
      exact ⟨rfl, fun hne => absurd rfl hne⟩
  | some pool' =>
      rw [hrun] at hstatus
      dsimp only at hstatus ⊢
      rw [hstatus, if_neg Bool.noConfusion]
      simp only [Program.run_bind, Program.run_bytesAt, readScraped_run]
      cases calcPrec port.globals port.float (e.world .calcPrec) (pool'.bytesAt formatStr)
          (scrapedAt pool' prs) with
      | error f => exact ⟨rfl, fun _ => rfl⟩
      | ok out => exact ⟨rfl, fun _ => rfl⟩

/-- **One iteration up to the call**: where it ends, and the pool unless it is stuck. -/
theorem scrapeEntry_run (port : Port) (e : DirEntry) :
    ((scrapeEntry port e dirEnt).run res pool).1 =
        (Linux.scrapeEntry port res e dirEnt pool).1 ∧
      ((Linux.scrapeEntry port res e dirEnt pool).1 ≠ .fault .hang →
        (scrapeEntry port e dirEnt).run res pool = Linux.scrapeEntry port res e dirEnt pool) := by
  unfold scrapeEntry Linux.scrapeEntry
  rw [Program.run_bind, Program.run_modifyBytes, Program.run_bind, readName_run]
  dsimp only
  split
  · exact ⟨rfl, fun _ => rfl⟩
  · rw [Program.run_bind, newEntry_run]
    dsimp only
    rw [Program.run_bind, scrapeStat_run]
    split
    · exact ⟨rfl, fun _ => rfl⟩
    · rw [Program.run_bind, scrapeFiles_run]
      exact scrapeRest_run res _ _ dirEnt _ port e

/-- The pointers of the record, followed. -/
theorem readTexts_run (p : Procstat Nat) : (readTexts p).run res pool =
    (⟨p.toScraped, p.cwd.map pool.bytesAt, p.cmndline.map pool.bytesAt, p.cmdline.map pool.bytesAt,
      p.environ.map pool.bytesAt, p.exec.map pool.bytesAt⟩, pool) := by
  have hmember : ∀ ptr : Option Nat,
      (readMember ptr).run res pool = (ptr.map pool.bytesAt, pool) := by
    intro ptr
    cases ptr <;> rfl
  unfold readTexts
  simp only [Program.run_bind, hmember, Program.run_pure]

/-- **One iteration**: what it does to the extension's variables, and the pool it
leaves unless it ends with a fault. -/
theorem tableStep_run (port : Port) (xs : Interp) (e : DirEntry) :
    let s := Linux.tableStep port res dirEnt ⟨pool, xs, none⟩ e
    ((tableStep port dirEnt (xs, none) e).run res pool).1 = (s.xs, s.fault) ∧
      (s.fault = none → ((tableStep port dirEnt (xs, none) e).run res pool).2 = s.pool) := by
  obtain ⟨hscrape, hpool⟩ := scrapeEntry_run res dirEnt pool port e
  unfold tableStep Linux.tableStep
  dsimp only
  rw [Program.run_bind, hscrape]
  cases hcase : Linux.scrapeEntry port res e dirEnt pool with
  | mk scrape pool' =>
      rw [hcase] at hpool
      cases scrape with
      | notPid =>
          rw [hpool (by simp)]
          exact ⟨rfl, fun _ => rfl⟩
      | gone =>
          rw [hpool (by simp)]
          exact ⟨rfl, fun _ => rfl⟩
      | fault f => exact ⟨rfl, fun h => by cases h⟩
      | ready prs formatStr =>
          rw [hpool (by simp)]
          dsimp only
          rw [Program.run_bind, Program.run_recordAt?]
          dsimp only
          cases pool'.recordAt? prs with
          | none => exact ⟨rfl, fun h => by cases h⟩
          | some p =>
              dsimp only
              rw [Program.run_bind, readTexts_run, Program.run_bind, Program.run_bytesAt]
              have hargs : @blessArgs Mem e.upper id ⟨p.toScraped, p.cwd.map pool'.bytesAt,
                  p.cmndline.map pool'.bytesAt, p.cmdline.map pool'.bytesAt,
                  p.environ.map pool'.bytesAt, p.exec.map pool'.bytesAt⟩ =
                    blessArgs e.upper pool'.bytesAt p := by
                simp only [blessArgs, Option.map_id_fun, id_eq]
              dsimp only
              rw [hargs]
              obtain ⟨xs', fault⟩ :=
                blessIntoProc (pool'.bytesAt formatStr) fieldKeys (blessArgs e.upper pool'.bytesAt p) xs
              cases fault with
              | none => exact ⟨rfl, fun _ => rfl⟩
              | some f => exact ⟨rfl, fun h => by cases h⟩

end Runs

end

end OnPool

end Linux
