import ProcProcessTable.LinuxRow
import ProcProcessTable.LinuxStatScan

/-!
# Which fields a row publishes

Every stage of `Row.scrape` lowers the flags of some fields under some
condition.  The lemmas here say which, one for each stage, on a row whose format
string is `formatOf enabled`.  `ready_formatStr` chains them: the flags at the
call of `bless_into_proc` are those of `enabledFields`, a condition on what the
files held.
-/

namespace Linux

open CText Scanf Xs

/-- The fields from one to another. -/
def Field.between (f1 f2 f : Field) : Bool := decide (f1.idx ≤ f.idx ∧ f.idx ≤ f2.idx)

/-- The stat text has a process id, a command name in parentheses, and 33
values behind it. -/
def statComplete (text : List Char) : Bool := decide ((statConversions (text ++ [nul])).length = 33)

/-- The lines that are read depend on the kinds enabled before, not on the
other fields. -/
theorem linesRead_congr (lines : List (List Char)) {enabled enabled' : Field → Bool}
    (h : ∀ kind : LineKind, enabled kind.witness = enabled' kind.witness) :
    linesRead lines enabled = linesRead lines enabled' := by
  induction lines generalizing enabled enabled' with
  | nil => rfl
  | cons line lines ih =>
      have hline : ∀ kind : LineKind, enableLine enabled line kind.witness =
          enableLine enabled' line kind.witness := by
        intro kind
        unfold enableLine
        cases LineKind.ofLine? line with
        | none => exact h kind
        | some k => exact congrArg (· || k.fields kind.witness) (h kind)
      have hseen : kindsSeen (enableLine enabled line) = kindsSeen (enableLine enabled' line) := by
        have hu := hline .uid
        have hg := hline .gid
        have ht := hline .tracer
        simp only [LineKind.witness] at hu hg ht
        rw [kindsSeen, kindsSeen, hu, hg, ht]
      rw [linesRead, linesRead, hseen, ih hline]

/-- The lines of a status text that `get_proc_status` looks at. -/
def visitedLines (text : List Char) : List (List Char) := statusLines text fun _ => false

/-- Some line among them is of the kind. -/
def kindOccurs (lines : List (List Char)) (f : Field) : Bool :=
  lines.any fun l => (LineKind.ofLine? l).any fun kind => kind.fields f

/-- The lines of the status file enable the kinds that occur. -/
theorem foldl_enableLine_eq (lines : List (List Char)) (enabled : Field → Bool) :
    lines.foldl enableLine enabled = fun f => enabled f || kindOccurs lines f := by
  funext f
  rw [Bool.eq_iff_iff, foldl_enableLine, Bool.or_eq_true]
  refine or_congr_right ?_
  simp only [kindOccurs, List.any_eq_true, Option.any_eq_true]

namespace Row

variable {r : Row} {enabled : Field → Bool} (h : r.formatStr = formatOf enabled)

include h

/-- **The format string part by part**: here the two names of the owner. -/
theorem userInfo_formatStr (k : Kernel) (pid : List Char) :
    (r.userInfo k pid).formatStr = formatOf fun f =>
      enabled f || ((k.stat (pidPath pid none)).isSome && (decide (f = .uid) || decide (f = .gid))) := by
  unfold userInfo
  cases k.stat (pidPath pid none) with
  | none => simpa using h
  | some ids => simp [h, fieldEnable_formatOf, Bool.or_assoc]

/-- The stat record, when it was read to its end. -/
theorem procStat_formatStr (k : Kernel) (pid : List Char) :
    (r.procStat k pid).2.formatStr = formatOf fun f =>
      enabled f || ((file k pid "stat".toList).any statComplete && Field.between .pid .wchan f) := by
  unfold procStat
  cases file k pid "stat".toList with
  | none => simpa using h
  | some text =>
      have hflag : statComplete text = (scanStat (text ++ [nul]) r.prs.toScraped).enabled := by
        rw [Bool.eq_iff_iff, statComplete, decide_eq_true_eq]
        exact (scanStat_exits (text ++ [nul]) r.prs.toScraped).1.symm
      rw [Option.any_some, hflag]
      dsimp only
      cases (scanStat (text ++ [nul]) r.prs.toScraped).enabled with
      | false => simpa using h
      | true =>
          rw [if_pos rfl, h, fieldEnableRange_formatOf enabled (by decide)]
          rfl

/-- The state that has a name, and the two sums whatever was read. -/
theorem fixup_formatStr (port : Port) :
    (r.fixup port).formatStr = formatOf fun f =>
      enabled f || ((stateOf r.prs.stateC).isSome && decide (f = .state)) ||
        Field.between .time .ctime f := by
  unfold fixup fixupStatValues
  cases stateOf r.prs.stateC with
  | none =>
      simp only [h, fieldEnableRange_formatOf enabled (show Field.time.idx ≤ Field.ctime.idx by decide)]
      simp [Field.between]
  | some state =>
      simp only [h, fieldEnable_formatOf, fieldEnableRange_formatOf _
        (show Field.time.idx ≤ Field.ctime.idx by decide)]
      simp [Field.between]

/-- A field that is enabled alone, under a condition. -/
theorem enable_formatStr {b : Bool} {field : Field} {s : Mem}
    (hs : s = if b then fieldEnable r.formatStr field else r.formatStr) :
    s = formatOf fun f => enabled f || (b && decide (f = field)) := by
  cases b with
  | false => simpa [h] using hs
  | true => simpa [h, fieldEnable_formatOf] using hs

/-- The arguments, when the file was read. -/
theorem cmndline_formatStr (k : Kernel) (pid : List Char) :
    (r.cmndline k pid).formatStr = formatOf fun f =>
      enabled f || ((file k pid "cmdline".toList).isSome && decide (f = .cmndline)) := by
  apply enable_formatStr h
  unfold cmndline
  cases file k pid "cmdline".toList <;> rfl

/-- And as an array. -/
theorem cmdline_formatStr (k : Kernel) (pid : List Char) :
    (r.cmdline k pid).formatStr = formatOf fun f =>
      enabled f || ((file k pid "cmdline".toList).isSome && decide (f = .cmdline)) := by
  apply enable_formatStr h
  unfold cmdline
  cases file k pid "cmdline".toList <;> rfl

/-- The environment in the same way. -/
theorem environ_formatStr (k : Kernel) (pid : List Char) :
    (r.environ k pid).formatStr = formatOf fun f =>
      enabled f || ((file k pid "environ".toList).isSome && decide (f = .environ)) := by
  apply enable_formatStr h
  unfold environ
  cases file k pid "environ".toList <;> rfl

/-- A link, when it was resolved. -/
theorem link_formatStr (k : Kernel) (pid linkRel : List Char) (field : Field) (ptr : Member) :
    (r.link k pid linkRel field ptr).formatStr = formatOf fun f =>
      enabled f || ((k.realpath (pidPath pid (some linkRel))).isSome && decide (f = field)) := by
  apply enable_formatStr h
  unfold link
  cases k.realpath (pidPath pid (some linkRel)) <;> rfl

/-- The status file: it decides whether the loop ends, and which kinds of line
occurred. -/
theorem status_formatStr (hfresh : ∀ kind : LineKind, enabled kind.witness = false) (k : Kernel)
    (pid : List Char) :
    match r.status k pid with
    | none => ∃ text, file k pid "status".toList = some text ∧ (cstr text).head? = some '\n'
    | some r' => (∀ text, file k pid "status".toList = some text → (cstr text).head? ≠ some '\n') ∧
        r'.formatStr = formatOf fun f => enabled f ||
          (file k pid "status".toList).any fun text => kindOccurs (visitedLines text) f := by
  unfold status
  cases hfile : file k pid "status".toList with
  | none => exact ⟨fun _ ht => (by cases ht), by simpa using h⟩
  | some text =>
      have hcstr : cstr (text ++ [nul]) = cstr text := cstr_append_nul text []
      dsimp only
      rw [h]
      by_cases hhead : (cstr text).head? = some '\n'
      · have hseen : kindsSeen enabled = false := by
          have hu : enabled .euid = false := hfresh .uid
          rw [kindsSeen, hu]
          rfl
        rw [scanStatus_hangs (hcstr ▸ hhead) hseen]
        exact ⟨text, rfl, hhead⟩
      · rw [scanStatus_formatOf (hcstr ▸ hhead), Option.map_some]
        refine ⟨fun t ht => Option.some.inj ht ▸ hhead, ?_⟩
        have hlines : statusLines (text ++ [nul]) enabled = visitedLines text := by
          rw [statusLines, visitedLines, statusLines, hcstr]
          exact linesRead_congr _ hfresh
        rw [hlines, foldl_enableLine_eq]
        rfl

/-- The share of the cpu always, and that of memory when there is one to share. -/
theorem percentages_formatStr {port : Port} {k : Kernel} {r' : Row}
    (hrun : r.percentages port k = .ok r') :
    r'.formatStr = formatOf fun f => enabled f || decide (f = .pctcpu) ||
      (decide (port.globals.systemMemory ≠ 0) && decide (f = .pctmem)) := by
  unfold percentages calcPrec at hrun
  by_cases hmem : port.globals.systemMemory ≠ 0
  · simp only [if_pos hmem] at hrun
    by_cases hfit : (port.float.pctmemText r.prs.rss port.globals.systemMemory).length < sizeofPctmem
    · rw [if_pos hfit] at hrun
      obtain rfl := Except.ok.inj hrun
      simp only [h, fieldEnable_formatOf, decide_eq_true hmem, Bool.true_and]
    · rw [if_neg hfit] at hrun
      cases hrun
  · simp only [if_neg hmem] at hrun
    obtain rfl := Except.ok.inj hrun
    simp only [h, fieldEnable_formatOf, decide_eq_false hmem, Bool.false_and, Bool.or_false]

end Row

namespace DirEntry

variable (e : DirEntry)

/-- A file of the process as a scraper finds it. -/
def file (m : Moment) (name : String) : Option (List Char) :=
  Row.file (e.world m) e.dName name.toList

/-- A link of the process as a scraper finds it. -/
def link (m : Moment) (name : String) : Option (List Char) :=
  (e.world m).realpath (pidPath e.dName (some name.toList))

/-- The owner of the process's directory. -/
def owner : Option (UInt32 × UInt32) := (e.world .userInfo).stat (pidPath e.dName none)

/-- The stat file was read and scanned to its 33rd value. -/
def statScanned : Bool := (e.file .procStat "stat").any statComplete

/-- The process id the stat file starts with. -/
def statPid : Option Int32 :=
  (e.file .procStat "stat").bind fun text => pidConversion (text ++ [nul])

/-- The resident size in the stat file, in pages. -/
def statRss : Int64 :=
  ((e.file .procStat "stat").bind fun text => rssConversion (text ++ [nul])).getD 0

/-- The directory of the process is there when its existence is tested. -/
def present : Bool := (e.world .pidExists).access (pidPath e.dName none)

/-- The process went away: its stat file could not be read, or starts with a
process id and is no complete record, and its directory is not there. -/
def Gone : Prop :=
  (∀ text, e.file .procStat "stat" = some text →
    pidConversion (text ++ [nul]) ≠ none ∧ statComplete text = false) ∧ e.present = false

/-- The state letter that was scanned is one the port knows. -/
def stateKnown : Bool := (stateOf (Row.upToStat e).2.prs.stateC).isSome

/-- The status file, if the lines of one of its kinds were looked at. -/
def statusOccurs (f : Field) : Bool :=
  (e.file .status "status").any fun text => kindOccurs (visitedLines text) f

/-- The status file ends the loop over its lines. -/
def statusEnds : Prop :=
  ∀ text, e.file .status "status" = some text → (cstr text).head? ≠ some '\n'

/-- The fields whose flags are lowered at the call of `bless_into_proc`. -/
def enabledFields (port : Port) (f : Field) : Bool :=
  (e.owner.isSome && (decide (f = .uid) || decide (f = .gid))) ||
  (e.statScanned && Field.between .pid .wchan f) ||
  (e.stateKnown && decide (f = .state)) ||
  Field.between .time .ctime f ||
  ((e.file .cmndline "cmdline").isSome && decide (f = .cmndline)) ||
  ((e.file .cmdline "cmdline").isSome && decide (f = .cmdline)) ||
  ((e.file .environ "environ").isSome && decide (f = .environ)) ||
  ((e.link .cwd "cwd").isSome && decide (f = .cwd)) ||
  ((e.link .exec "exe").isSome && decide (f = .exec)) ||
  e.statusOccurs f ||
  decide (f = .pctcpu) ||
  (decide (port.globals.systemMemory ≠ 0) && decide (f = .pctmem))

end DirEntry

namespace Row

/-- The flags when the stat file has been read. -/
theorem upToStat_formatStr (e : DirEntry) :
    (upToStat e).2.formatStr = formatOf fun f =>
      (e.owner.isSome && (decide (f = .uid) || decide (f = .gid))) ||
      (e.statScanned && Field.between .pid .wchan f) := by
  have hinit : init.formatStr = formatOf fun _ => false := rfl
  have h1 := userInfo_formatStr hinit (e.world .userInfo) e.dName
  simp only [Bool.false_or] at h1
  exact procStat_formatStr h1 (e.world .procStat) e.dName

/-- The flags when everything but the status file has been read. -/
theorem links_formatStr (port : Port) (e : DirEntry) :
    ((upToStat e).2.links port e).formatStr = formatOf fun f =>
      (e.owner.isSome && (decide (f = .uid) || decide (f = .gid))) ||
      (e.statScanned && Field.between .pid .wchan f) ||
      (e.stateKnown && decide (f = .state)) ||
      Field.between .time .ctime f ||
      ((e.file .cmndline "cmdline").isSome && decide (f = .cmndline)) ||
      ((e.file .cmdline "cmdline").isSome && decide (f = .cmdline)) ||
      ((e.file .environ "environ").isSome && decide (f = .environ)) ||
      ((e.link .cwd "cwd").isSome && decide (f = .cwd)) ||
      ((e.link .exec "exe").isSome && decide (f = .exec)) := by
  have h1 := fixup_formatStr (upToStat_formatStr e) port
  have h2 := cmndline_formatStr h1 (e.world .cmndline) e.dName
  have h3 := cmdline_formatStr h2 (e.world .cmdline) e.dName
  have h4 := environ_formatStr h3 (e.world .environ) e.dName
  have h5 := link_formatStr h4 (e.world .cwd) e.dName "cwd".toList .cwd .cwd
  exact link_formatStr h5 (e.world .exec) e.dName "exe".toList .exec .exec

/-- None of these flags belongs to the status file. -/
theorem links_fresh (e : DirEntry) (kind : LineKind) :
    ((e.owner.isSome && (decide (kind.witness = .uid) || decide (kind.witness = .gid))) ||
      (e.statScanned && Field.between .pid .wchan kind.witness) ||
      (e.stateKnown && decide (kind.witness = .state)) ||
      Field.between .time .ctime kind.witness ||
      ((e.file .cmndline "cmdline").isSome && decide (kind.witness = .cmndline)) ||
      ((e.file .cmdline "cmdline").isSome && decide (kind.witness = .cmdline)) ||
      ((e.file .environ "environ").isSome && decide (kind.witness = .environ)) ||
      ((e.link .cwd "cwd").isSome && decide (kind.witness = .cwd)) ||
      ((e.link .exec "exe").isSome && decide (kind.witness = .exec))) = false := by
  have hbetween : Field.between .pid .wchan kind.witness = false ∧
      Field.between .time .ctime kind.witness = false := by
    cases kind <;> decide
  rw [hbetween.1, hbetween.2]
  cases kind <;> simp [LineKind.witness]

/-- **The flags at the call of `bless_into_proc`.** -/
theorem ready_formatStr {port : Port} {e : DirEntry} {r : Row}
    (hready : scrape port e = .ready r) : r.formatStr = formatOf (e.enabledFields port) := by
  unfold scrape finish at hready
  split at hready
  · cases hready
  · split at hready
    · cases hready
    · have hstatus := status_formatStr (links_formatStr port e) (links_fresh e)
        (e.world .status) e.dName
      split at hready
      · cases hready
      · next r' hr' =>
          rw [hr'] at hstatus
          split at hready
          · cases hready
          · next r'' hr'' =>
              obtain rfl := Outcome.ready.inj hready
              exact percentages_formatStr hstatus.2 hr''

end Row

end Linux
