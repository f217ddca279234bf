import ProcProcessTable.LinuxScrapers

/-!
# One row of the table

What the work on one directory entry comes to when the memory pool is left
out: a `Row` is the format string and the record with the texts themselves in
place of pool pointers, and each scraper is a function on rows.  `Row.scrape` is
the whole of it, a function of the entry and the port alone: no pool, no
residue, no earlier entry.
-/

namespace Linux

open CText Xs

/-- The format string and the record of one entry. -/
structure Row where
  formatStr : Mem
  prs : Procstat (List Char)

namespace Row

/-- The row an entry starts with. -/
def init : Row := ⟨formatOf fun _ => false, Procstat.zero⟩

def userInfo (k : Kernel) (pid : List Char) (r : Row) : Row :=
  match k.stat (pidPath pid none) with
  | none => r
  | some (stUid, stGid) =>
      ⟨fieldEnable (fieldEnable r.formatStr .uid) .gid,
        r.prs.scraped fun s => { s with uid := stUid.toInt32, gid := stGid.toInt32 }⟩

/-- The content of a file of the process. -/
def file (k : Kernel) (pid name : List Char) : Option (List Char) :=
  fileContent (k.openFile (pidPath pid (some name)))

def procStat (k : Kernel) (pid : List Char) (r : Row) : Bool × Row :=
  match file k pid "stat".toList with
  | none => (false, r)
  | some text =>
      let scan := scanStat (text ++ [nul]) r.prs.toScraped
      (scan.readOk,
        ⟨if scan.enabled then fieldEnableRange r.formatStr .pid .wchan else r.formatStr,
          r.prs.scraped fun _ => scan.prs⟩)

def fixup (port : Port) (r : Row) : Row :=
  let out := fixupStatValues port.globals port.float r.formatStr r.prs.toScraped
  ⟨out.1, r.prs.scraped fun _ => out.2⟩

def cmndline (k : Kernel) (pid : List Char) (r : Row) : Row :=
  match file k pid "cmdline".toList with
  | none => r
  | some text =>
      ⟨fieldEnable r.formatStr .cmndline, r.prs.set .cmndline (nulsToSpaces text text.length)⟩

def cmdline (k : Kernel) (pid : List Char) (r : Row) : Row :=
  match file k pid "cmdline".toList with
  | none => r
  | some text =>
      ⟨fieldEnable r.formatStr .cmdline,
        (r.prs.set .cmdline text).scraped fun s => { s with cmdlineLen := Int32.ofNat text.length }⟩

def environ (k : Kernel) (pid : List Char) (r : Row) : Row :=
  match file k pid "environ".toList with
  | none => r
  | some text =>
      ⟨fieldEnable r.formatStr .environ,
        (r.prs.set .environ text).scraped fun s => { s with environLen := Int32.ofNat text.length }⟩

def link (k : Kernel) (pid linkRel : List Char) (field : Field) (ptr : Member) (r : Row) : Row :=
  match k.realpath (pidPath pid (some linkRel)) with
  | none => r
  | some link => ⟨fieldEnable r.formatStr field, r.prs.set ptr (cstr link)⟩

def status (k : Kernel) (pid : List Char) (r : Row) : Option Row :=
  match file k pid "status".toList with
  | none => some r
  | some text =>
      (scanStatus (text ++ [nul]) r.formatStr r.prs.toScraped).map fun out =>
        ⟨out.1, r.prs.scraped fun _ => out.2⟩

def percentages (port : Port) (k : Kernel) (r : Row) : Except Fault Row :=
  match calcPrec port.globals port.float k r.formatStr r.prs.toScraped with
  | .error f => .error f
  | .ok out => .ok ⟨out.1, r.prs.scraped fun _ => out.2⟩

/-- The row after the stat file, and whether `get_proc_stat` succeeded. -/
def upToStat (e : DirEntry) : Bool × Row :=
  (init.userInfo (e.world .userInfo) e.dName).procStat (e.world .procStat) e.dName

/-- The stages between the two files that decide whether the entry is
published. -/
def links (port : Port) (e : DirEntry) (r : Row) : Row :=
  let r := r.fixup port
  let r := r.cmndline (e.world .cmndline) e.dName
  let r := r.cmdline (e.world .cmdline) e.dName
  let r := r.environ (e.world .environ) e.dName
  let r := r.link (e.world .cwd) e.dName "cwd".toList .cwd .cwd
  r.link (e.world .exec) e.dName "exe".toList .exec .exec

/-- Where the work on one entry ends. -/
inductive Outcome
  | notPid
  | gone
  | fault (f : Fault)
  | ready (r : Row)

/-- The stages behind the existence test. -/
def finish (port : Port) (e : DirEntry) (r : Row) : Outcome :=
  match (r.links port e).status (e.world .status) e.dName with
  | none => .fault .hang
  | some r =>
      match r.percentages port (e.world .calcPrec) with
      | .error f => .fault f
      | .ok r => .ready r

/-- The process went away: its stat file could not be read or scanned, and
its directory is not there any more. -/
def Vanished (e : DirEntry) : Prop :=
  (upToStat e).1 = false ∧ (e.world .pidExists).access (pidPath e.dName none) = false

instance (e : DirEntry) : Decidable (Vanished e) := inferInstanceAs (Decidable (_ ∧ _))

/-- The work on one entry, without the pool. -/
def scrape (port : Port) (e : DirEntry) : Outcome :=
  if isPid e.dName = false then .notPid
  else if Vanished e then .gone
  else finish port e (upToStat e).2

/-- The call of `bless_into_proc` a row leads to. -/
def bless (upper : Field → UInt32) (r : Row) (xs : Interp) : Interp × Option Fault :=
  blessIntoProc r.formatStr fieldKeys (blessArgs upper (fun text => text ++ [nul]) r.prs) xs

/-- One iteration of the loop, without the pool. -/
def step (port : Port) (xs : Interp) (e : DirEntry) : Interp × Option Fault :=
  match scrape port e with
  | .notPid => (xs, none)
  | .gone => (xs, none)
  | .fault f => (xs, some f)
  | .ready r => r.bless e.upper xs

/-- The loop, without the pool. -/
def table (port : Port) (entries : List DirEntry) (s : Interp × Option Fault) :
    Interp × Option Fault :=
  entries.foldl
    (fun s e =>
      match s.2 with
      | some _ => s
      | none => step port s.1 e)
    s

end Row

end Linux
