import ProcProcessTable.CommandLines
import ProcProcessTable.PublishedProcesses
import ProcProcessTable.PublishedState
import ProcProcessTable.StatusRoundTrip
import Mathlib.Data.List.Nodup

/-!
# From the kernel's files to the objects

What a whole call of `OS_get_table` publishes, in terms of the processes the
kernel shows.  A `ProcessView` is a process as its files and links show it:
the stat record and the status file as they are printed, the arguments, the
environment, the owner, the two links.  `ProcessView.object` is the hash that
stands for it, key by key, with nothing of the scan in it.

`table_described` joins the two: on any listing whose processes are shown so,
the call returns and appends exactly their objects, in the order of the listing.
-/

namespace Linux

open CText Scanf MemPool Xs

/-- The terminal that is looked up for a number. -/
def ttydevOf (ttydevs : Option HV) (ttynum : UInt64) : SV :=
  (ttydevs.bind fun devs => devs (toString ttynum.toNat)).getD (.pv [])

/-- A process as the kernel shows it while its entry is worked on. -/
structure ProcessView where
  record : ProcessRecord
  status : StatusRecord
  stUid : UInt32
  stGid : UInt32
  args : List (List Char)
  /-- absent for a process whose environment may not be read -/
  env : Option (List (List Char))
  cwd : Option (List Char)
  exe : Option (List Char)
  now : Int64
  args_nulFree : ∀ arg ∈ args, nul ∉ arg
  env_nulFree : ∀ vars, env = some vars → ∀ var ∈ vars, nul ∉ var

/-- The files and links of an entry show the process. -/
structure DirEntry.Shows (e : DirEntry) (v : ProcessView) : Prop where
  isPid : isPid e.dName = true
  stat : e.file .procStat "stat" = some v.record.render
  owner : e.owner = some (v.stUid, v.stGid)
  cmndline : e.file .cmndline "cmdline" = some (nulTerminated v.args)
  cmdline : e.file .cmdline "cmdline" = some (nulTerminated v.args)
  environ : e.file .environ "environ" = v.env.map nulTerminated
  cwd : e.link .cwd "cwd" = v.cwd
  exec : e.link .exec "exe" = v.exe
  status : e.file .status "status" = some v.status.render
  clock : (e.world .calcPrec).time = v.now

namespace ProcessView

section

variable (port : Port) (v : ProcessView)

/-- The values `fixup_stat_values` computes. -/
def start : UInt64 :=
  v.record.startTime / port.globals.systemHertz.toUInt64 + port.globals.bootTime.toUInt64

def utime : UInt64 := port.float.jiffiesUnsigned v.record.utime port.globals.systemHertz

def stime : UInt64 := port.float.jiffiesUnsigned v.record.stime port.globals.systemHertz

def cutime : Int64 := port.float.jiffiesSigned v.record.cutime port.globals.systemHertz

def cstime : Int64 := port.float.jiffiesSigned v.record.cstime port.globals.systemHertz

def rss : Int64 := v.record.rss * port.globals.pageSize.toUInt64.toInt64

/-- The texts `calc_prec` prints. -/
def pctcpu : List Char :=
  port.float.pctcpuText (v.utime port + v.stime port) (v.now.toUInt64 - v.start port)

def pctmem : List Char := port.float.pctmemText (v.rss port) port.globals.systemMemory

/-- **The scalar under the name of a field.**  The flags are handed over in the
lower half of a slot and read from all of it, so what stands in the upper half
shows in them. -/
def scalar (upper : UInt32) : Field → SV
  | .uid => .iv v.stUid.toInt32.toInt
  | .gid => .iv v.stGid.toInt32.toInt
  | .pid => .iv v.record.pid.toInt
  | .fname => .pv (v.record.comm.take 15)
  | .ppid => .iv v.record.ppid.toInt
  | .pgrp => .iv v.record.pgrp.toInt
  | .sess => .iv v.record.sid.toInt
  | .ttynum => .iv v.record.tty.toInt
  | .flags =>
      newSVnv (UInt64.ofNat (upper.toNat * 2 ^ 32 + v.record.flags.toNat)).toInt64.toInt
  | .minflt => newSVnv v.record.minflt.toInt64.toInt
  | .cminflt => newSVnv v.record.cminflt.toInt64.toInt
  | .majflt => newSVnv v.record.majflt.toInt64.toInt
  | .cmajflt => newSVnv v.record.cmajflt.toInt64.toInt
  | .utime => newSVnv (v.utime port).toInt64.toInt
  | .stime => newSVnv (v.stime port).toInt64.toInt
  | .cutime => newSVnv (v.cutime port).toInt
  | .cstime => newSVnv (v.cstime port).toInt
  | .priority => .iv (toInt v.record.priority.toUInt64).toInt
  | .start => newSVnv (v.start port).toInt64.toInt
  | .size => newSVnv v.record.vsize.toNat
  | .rss => newSVnv (v.rss port).toInt
  | .wchan => newSVnv v.record.wchan.toInt64.toInt
  | .time => newSVnv (v.utime port + v.stime port).toInt64.toInt
  | .ctime => newSVnv (v.cutime port + v.cstime port).toInt
  | .state => stateScalar (some v.record.stateC)
  | .euid => .iv v.status.euid.toInt32.toInt
  | .suid => .iv v.status.suid.toInt32.toInt
  | .fuid => .iv v.status.fuid.toInt32.toInt
  | .egid => .iv v.status.egid.toInt32.toInt
  | .sgid => .iv v.status.sgid.toInt32.toInt
  | .fgid => .iv v.status.fgid.toInt32.toInt
  | .pctcpu => .pv (cstr ((v.pctcpu port).take (LENGTH_PCTCPU - 1)))
  | .pctmem => if port.globals.systemMemory = 0 then .undef else .pv (cstr (v.pctmem port))
  | .cmndline => .pv (List.intercalate [' '] v.args)
  | .exec => v.exe.elim .undef fun path => .pv (cstr path)
  | .cwd => v.cwd.elim .undef fun path => .pv (cstr path)
  | .cmdline => .av v.args
  | .environ => v.env.elim .undef .av
  | .tracer => .iv v.status.tracer.toInt

/-- **The object of the process**: the fields under their names, and the
terminal under its own. -/
def object (upper : UInt32) (ttydevs : Option HV) : HV := fun key =>
  if key = "ttydev" then
    -- the number was read as an `int`, and is looked up as an `unsigned long`
    some (ttydevOf ttydevs v.record.tty.toInt64.toUInt64)
  else (Field.all.find? fun f => decide (f.name = key)).map (v.scalar port upper)

/-- What the buffers and the lengths of the port have room for. -/
structure Fits : Prop where
  comm : v.record.CommLenFits
  args : (nulTerminated v.args).length < 2 ^ 31
  env : ∀ vars, v.env = some vars → (nulTerminated vars).length < 2 ^ 31
  pctmem : port.globals.systemMemory ≠ 0 → (v.pctmem port).length < sizeofPctmem

end

end ProcessView

/-- The entries of a directory, and the processes that are shown by those that
are not passed over, each with the upper half of the slot of its flags. -/
inductive Listing (port : Port) : List DirEntry → List (ProcessView × UInt32) → Prop
  | nil : Listing port [] []
  | skipped {e : DirEntry} {entries : List DirEntry} {views : List (ProcessView × UInt32)} :
      e.Skipped → Listing port entries views → Listing port (e :: entries) views
  | shown {e : DirEntry} {entries : List DirEntry} {v : ProcessView}
      {views : List (ProcessView × UInt32)} :
      e.Shows v → v.Fits port → Listing port entries views →
        Listing port (e :: entries) ((v, e.upper .flags) :: views)

/-- Strings written with their NULs are split back. -/
theorem newArray_nulTerminated {args : List (List Char)} (hfree : ∀ arg ∈ args, nul ∉ arg)
    (hlen : (nulTerminated args).length < 2 ^ 31) :
    newArray (some (nulTerminated args ++ [nul])) (Int32.ofNat (nulTerminated args).length) =
      .ok (.av args) := by
  obtain ⟨elems, helems, helemsFree, hgives⟩ :=
    splitStrings_run hlen [] (nulTerminated args).length 0 (Nat.zero_le _) (Nat.sub_le _ _)
  rw [List.drop_zero, closed_nulTerminated] at hgives
  obtain rfl := nulTerminated_injective helemsFree hfree hgives
  rw [newArray, Int32.toInt_ofNat_of_lt hlen, Int.toNat_natCast, helems]
  rfl

/-- They are published as one string with a blank between two of them. -/
theorem cmndlineOf_nulTerminated {args : List (List Char)} (hfree : ∀ arg ∈ args, nul ∉ arg) :
    cmndlineOf (nulTerminated args) = List.intercalate [' '] args :=
  (join_eq_cmndlineOf hfree (closed_nulTerminated args).symm).2.symm

theorem storeTtydev_self (ttydevs : Option HV) (myhash : HV) (ttynum : UInt64) :
    storeTtydev ttydevs myhash ttynum "ttydev" = some (ttydevOf ttydevs ttynum) := by
  unfold storeTtydev ttydevOf
  cases ttydevs.bind fun devs => devs (toString ttynum.toNat) with
  | none => exact HV.store_self _ _ _
  | some dev => exact HV.store_self _ _ _

/-- A field that is neither the terminal nor its number leaves the terminal. -/
theorem storeField_keepsTtydev (ttydevs : Option HV) {key : String} (hdev : "ttydev" ≠ key)
    (hnum : key ≠ "ttynum") (v : SV × Option UInt64) (myhash : HV) :
    storeField ttydevs key v myhash "ttydev" = myhash "ttydev" := by
  unfold storeField
  cases v.2 with
  | none => exact HV.store_of_ne hdev _ _
  | some n =>
      dsimp only
      rw [if_neg hnum]
      exact HV.store_of_ne hdev _ _

/-- So do the fields behind the terminal number. -/
theorem storeColumns_keepsTtydev (ttydevs : Option HV) {cols : List Column} (myhash : HV)
    (hdev : "ttydev" ∉ cols.map Column.key) (hnum : "ttynum" ∉ cols.map Column.key) :
    storeColumns ttydevs cols myhash "ttydev" = myhash "ttydev" := by
  induction cols generalizing myhash with
  | nil => rfl
  | cons col cols ih =>
      rw [List.map_cons, List.mem_cons, not_or] at hdev hnum
      have hstep := storeField_keepsTtydev ttydevs hdev.1 (Ne.symm hnum.1) col.value myhash
      exact (ih (storeField ttydevs col.key col.value myhash) hdev.2 hnum.2).trans hstep

/-- **The terminal of an object** is the one of its terminal number. -/
theorem storeColumns_ttydev_of_mem (ttydevs : Option HV) {cols : List Column} (myhash : HV)
    (hnodup : (cols.map Column.key).Nodup) (hdev : "ttydev" ∉ cols.map Column.key) {col : Column}
    (hcol : col ∈ cols) (hkey : col.key = "ttynum") {ttynum : UInt64}
    (hnumber : col.value.2 = some ttynum) :
    storeColumns ttydevs cols myhash "ttydev" = some (ttydevOf ttydevs ttynum) := by
  induction cols generalizing myhash with
  | nil => cases hcol
  | cons c cols ih =>
      rw [List.map_cons, List.nodup_cons] at hnodup
      rw [List.map_cons, List.mem_cons, not_or] at hdev
      rcases List.mem_cons.mp hcol with rfl | htail
      · have hstored : storeField ttydevs col.key col.value myhash "ttydev" =
            some (ttydevOf ttydevs ttynum) := by
          unfold storeField
          rw [hnumber]
          dsimp only
          rw [if_pos hkey]
          exact storeTtydev_self ttydevs _ ttynum
        have hbehind := storeColumns_keepsTtydev ttydevs
          (storeField ttydevs col.key col.value myhash) hdev.2 (hkey ▸ hnodup.1)
        exact hbehind.trans hstored
      · exact ih (storeField ttydevs c.key c.value myhash) hnodup.2 hdev.2 htail

namespace ProcessView

variable (port : Port) (v : ProcessView)

/-- The members behind the stat file. -/
def scanned : Scraped :=
  v.record.store { Scraped.zero with uid := v.stUid.toInt32, gid := v.stGid.toInt32 }

/-- The members behind `fixup_stat_values`. -/
def fixed : Scraped :=
  { v.scanned with
    state := (stateOf v.record.stateC).map fun s => getString s.idx
    startTime := v.start port
    utime := v.utime port
    stime := v.stime port
    cutime := v.cutime port
    cstime := v.cstime port
    time := v.utime port + v.stime port
    ctime := (v.cutime port + v.cstime port).toUInt64
    rss := v.rss port }

/-- The members behind the links. -/
def linked : Scraped :=
  { v.fixed port with
    cmdlineLen := lengthOf (some (nulTerminated v.args))
    environLen := lengthOf (v.env.map nulTerminated) }

/-- The members at the call of `bless_into_proc`. -/
def ready : Scraped :=
  { v.status.store (v.linked port) with
    pctcpu := overwrite (List.replicate LENGTH_PCTCPU nul) 0
      ((v.pctcpu port).take (LENGTH_PCTCPU - 1) ++ [nul])
    pctmem := if port.globals.systemMemory = 0 then List.replicate sizeofPctmem nul
      else overwrite (List.replicate sizeofPctmem nul) 0 (v.pctmem port ++ [nul]) }

end ProcessView

/-- What is written from the start of a buffer is the string there. -/
theorem cstr_overwrite (buffer : Mem) (text : List Char) :
    cstr (overwrite buffer 0 (text ++ [nul])) = cstr text := by
  rw [overwrite, List.take_zero, List.nil_append, List.append_assoc]
  exact cstr_append_nul text _

/-- The command name in its buffer. -/
theorem cstr_comm (record : ProcessRecord) (prs : Scraped) :
    cstr (record.store prs).comm = record.comm.take 15 := by
  have hfree : nul ∉ record.comm.take 15 := fun h =>
    record.comm_nulFree (List.mem_of_mem_take h)
  obtain ⟨k, hk⟩ : ∃ k, 16 - (record.comm.take 15).length = k + 1 := by
    have hlen := List.length_take_le 15 record.comm
    exact ⟨15 - (record.comm.take 15).length, by omega⟩
  show cstr (record.comm.take 15 ++ List.replicate (16 - (record.comm.take 15).length) nul) = _
  rw [hk, List.replicate_succ, cstr_terminated hfree]

section

variable {port : Port} {e : DirEntry} {r : Row} {value : Field → SV × Option UInt64}
  (hvalue : RowValues port e r value)

include hvalue

theorem value_masked {f : Field} (hoff : e.enabledFields port f = false) :
    (value f).1 = .undef := by
  have hv := hvalue f
  rw [hoff, groupValue_masked] at hv
  rw [← Except.ok.inj hv]

theorem value_of_group {f : Field} {c : SV × Option UInt64} (hon : e.enabledFields port f = true)
    (hgroup : groupValue (f.char true) (fieldSlots e.upper (fun t => t ++ [nul]) r.prs f) = .ok c) :
    value f = c := by
  have hv := hvalue f
  rw [hon, hgroup] at hv
  exact (Except.ok.inj hv).symm

/-- A string field is the string behind its pointer, and undefined without one. -/
theorem value_pointer {f : Field} {text : Option Mem} (hchar : f.char true = 's')
    (hon : e.enabledFields port f = text.isSome)
    (hslots : fieldSlots e.upper (fun t => t ++ [nul]) r.prs f = [.ptr text]) :
    (value f).1 = text.elim .undef fun m => .pv (cstr m) := by
  cases text with
  | none => exact value_masked hvalue hon
  | some m =>
      have hgroup : groupValue (f.char true) (fieldSlots e.upper (fun t => t ++ [nul]) r.prs f) =
          .ok (.pv (cstr m), none) := by
        rw [hchar, hslots]
        rfl
      rw [value_of_group hvalue hon hgroup]
      rfl

/-- The target of a link. -/
theorem value_link {f : Field} {path : Option (List Char)} (hchar : f.char true = 's')
    (hon : e.enabledFields port f = path.isSome)
    (hslots : fieldSlots e.upper (fun t => t ++ [nul]) r.prs f =
      [.ptr ((path.map cstr).map fun t => t ++ [nul])]) :
    (value f).1 = path.elim .undef fun p => .pv (cstr p) := by
  have hsome : ((path.map cstr).map fun t => t ++ [nul]).isSome = path.isSome := by
    rw [Option.isSome_map, Option.isSome_map]
  rw [value_pointer hvalue hchar (hon.trans hsome.symm) hslots]
  cases path with
  | none => rfl
  | some p =>
      refine congrArg SV.pv ?_
      rw [cstr_append_nul, cstr_cstr]

/-- The array of strings that were written with their NULs. -/
theorem value_array (hrow : Row.scrape port e = .ready r) {m : Member}
    (hm : m = .cmdline ∨ m = .environ) {args : Option (List (List Char))}
    (htext : e.text m = args.map nulTerminated)
    (hfree : ∀ as, args = some as → ∀ arg ∈ as, nul ∉ arg)
    (hfits : ∀ as, args = some as → (nulTerminated as).length < 2 ^ 31) :
    (value m.field).1 = args.elim .undef .av := by
  have hon := enabledFields_member port e m
  obtain ⟨len, hslots, hlen, hchar⟩ := array_slots hrow m hm
  rw [htext] at hon hslots hlen
  cases args with
  | none => exact value_masked hvalue hon
  | some as =>
      have hgroup : groupValue (m.field.char true)
          (fieldSlots e.upper (fun t => t ++ [nul]) r.prs m.field) = .ok (.av as, none) := by
        rw [hchar, hslots, Option.map_some, Option.map_some, groupValue_array, hlen, lengthOf,
          Option.map_some, Option.map_some, Option.getD_some,
          newArray_nulTerminated (hfree as rfl) (hfits as rfl)]
        rfl
      rw [value_of_group hvalue hon hgroup]
      rfl

end

/-- The fields that are read as strings and are not the command line. -/
theorem char_string :
    ∀ f ∈ [Field.fname, .pctcpu, .pctmem, .state, .cwd, .exec], f.char true = 's' := by
  unfold Field.char Field.spec
  rw [defaultFormat_eq]
  decide

/-- A numeric field is read from its slot as the scalar of the process. -/
theorem groupValue_number {port : Port} (upper : Field → UInt32) {v : ProcessView} {r : Row}
    (hprs : r.prs.toScraped = v.ready port) {f : Field} (hnumber : (f.number r.prs).isSome = true) :
    ∃ lookup, groupValue (f.char true) (fieldSlots upper (fun t => t ++ [nul]) r.prs f) =
      .ok (v.scalar port (upper .flags) f, lookup) := by
  revert hnumber
  rw [Field.char, Field.spec, defaultFormat_eq]
  cases f <;> intro hnumber <;> simp only [fieldSlots, hprs]
  case fname | state | pctcpu | pctmem | cmndline | exec | cwd | cmdline | environ =>
    exact Bool.noConfusion hnumber
  case uid | gid | pid | ppid | pgrp | sess | ttynum | euid | suid | fuid | egid | sgid | fgid |
      tracer =>
    exact ⟨_, groupValue_int upper _ _⟩
  all_goals exact ⟨_, rfl⟩

/-- A field is found under its name. -/
theorem find_name (f : Field) :
    (Field.all.find? fun g => decide (g.name = f.name)) = some f := by
  have hnodup := fieldKeys_nodup.1
  rw [fieldKeys_eq_map] at hnodup
  have hsame : (fun g : Field => decide (g.name = f.name)) = fun g => decide (g = f) := by
    funext g
    rw [decide_eq_decide]
    exact ⟨fun h => List.inj_on_of_nodup_map hnodup g.mem_all f.mem_all h, congrArg Field.name⟩
  rw [hsame]
  cases f <;> rfl

section Shown

variable {port : Port} {e : DirEntry} {v : ProcessView} (hshows : e.Shows v)

include hshows

/-- The stat file and the owner return. -/
theorem upToStat_shown (hcomm : v.record.CommLenFits) :
    (Row.upToStat e).2.prs.toScraped = v.scanned := by
  have hinfo : (Row.init.userInfo (e.world .userInfo) e.dName).prs.toScraped =
      { Scraped.zero with uid := v.stUid.toInt32, gid := v.stGid.toInt32 } := by
    unfold Row.userInfo
    rw [show (e.world .userInfo).stat (pidPath e.dName none) = some _ from hshows.owner]
    rfl
  have hcopied : (copyComm { Scraped.zero with uid := v.stUid.toInt32, gid := v.stGid.toInt32 }
      (v.record.comm ++ nul :: v.record.tail) v.record.comm.length).comm = v.scanned.comm :=
    (v.record.copyComm_eq_store_iff rfl v.record.tail).mpr hcomm
  have hscan := (v.record.scanStat_render
    { Scraped.zero with uid := v.stUid.toInt32, gid := v.stGid.toInt32 } []).2.2
  rw [hcopied] at hscan
  unfold Row.upToStat Row.procStat
  rw [show Row.file (e.world .procStat) e.dName "stat".toList = some _ from hshows.stat]
  dsimp only
  rw [Procstat.scraped_toScraped, hinfo]
  exact hscan

/-- The values computed from it, and the two lengths. -/
theorem links_shown (hcomm : v.record.CommLenFits) :
    ((Row.upToStat e).2.links port e).prs.toScraped = v.linked port := by
  obtain ⟨hget, hout⟩ := Row.upToStat_prs e
  have hfixup : ((Row.upToStat e).2.fixup port).prs.toScraped = v.fixed port := by
    unfold Row.fixup
    rw [Procstat.scraped_toScraped, upToStat_shown hshows hcomm]
    unfold fixupStatValues ProcessView.fixed
    rw [show v.scanned.stateC = v.record.stateC from rfl]
    cases stateOf v.record.stateC <;> rfl
  rw [(Row.links_prs port e hget hout).2, hfixup, hshows.cmdline, hshows.environ]
  rfl

/-- **The members of a process that is shown.** -/
theorem ready_shown (hcomm : v.record.CommLenFits) {r : Row}
    (hrow : Row.scrape port e = .ready r) : r.prs.toScraped = v.ready port := by
  obtain ⟨_, _, r', hstatus, hpercent⟩ := Row.scrape_eq_ready hrow
  obtain ⟨r'', hstatus', hstored⟩ := v.status.status_render port hshows.status
  rw [hstatus] at hstatus'
  obtain rfl := Option.some.inj hstatus'
  rw [links_shown hshows hcomm] at hstored
  unfold Row.percentages calcPrec at hpercent
  rw [hstored, hshows.clock] at hpercent
  unfold ProcessView.ready
  by_cases hmem : port.globals.systemMemory = 0
  · simp only [ne_eq, hmem, not_true_eq_false, if_false] at hpercent
    rw [if_pos hmem, ← Except.ok.inj hpercent]
    rfl
  · simp only [ne_eq, hmem, not_false_eq_true, if_true] at hpercent
    rw [if_neg hmem]
    split at hpercent
    · cases hpercent
    · next out hout =>
        split at hout
        · rw [← Except.ok.inj hpercent, ← Except.ok.inj hout]
          rfl
        · cases hout

/-- The fields that are published. -/
theorem enabledFields_shown (hcomm : v.record.CommLenFits) (f : Field) :
    e.enabledFields port f =
      match f with
      | .state => (stateOf v.record.stateC).isSome
      | .pctmem => decide (port.globals.systemMemory ≠ 0)
      | .cwd => v.cwd.isSome
      | .exec => v.exe.isSome
      | .environ => v.env.isSome
      | _ => true := by
  have hscanned := (statScanned_of_render hshows.stat).1
  have hstate : e.stateKnown = (stateOf v.record.stateC).isSome := by
    rw [DirEntry.stateKnown]
    exact congrArg (fun p => (stateOf p.stateC).isSome) (upToStat_shown hshows hcomm)
  unfold DirEntry.enabledFields
  rw [hshows.owner, hscanned, hstate, hshows.cmndline, hshows.cmdline, hshows.environ,
    hshows.cwd, hshows.exec, v.status.statusOccurs_render hshows.status]
  cases f <;> simp [Field.between, Field.ctorIdx]

/-- **The value of each field** is the scalar of the process. -/
theorem value_shown (hfits : v.Fits port) {r : Row} (hrow : Row.scrape port e = .ready r)
    {value : Field → SV × Option UInt64} (hvalue : RowValues port e r value) (f : Field) :
    (value f).1 = v.scalar port (e.upper .flags) f := by
  have hprs := ready_shown hshows hfits.comm hrow
  have hget := (Row.ready_prs hrow).1
  have hflags := @enabledFields_shown port e v hshows hfits.comm
  have hchar := char_string
  have hnumber : ∀ {f : Field}, e.enabledFields port f = true →
      (f.number r.prs).isSome = true → (value f).1 = v.scalar port (e.upper .flags) f := by
    intro f hon hsome
    obtain ⟨lookup, hgroup⟩ := groupValue_number e.upper hprs hsome
    rw [value_of_group hvalue hon hgroup]
  have hcwd : r.prs.cwd = v.cwd.map cstr := by
    rw [← hshows.cwd]
    exact hget .cwd
  have hexec : r.prs.exec = v.exe.map cstr := by
    rw [← hshows.exec]
    exact hget .exec
  cases f
  case fname =>
    refine (value_pointer hvalue (hchar _ (by decide)) (hflags .fname)
      (by rw [fieldSlots, hprs])).trans ?_
    exact congrArg SV.pv (cstr_comm v.record
      { Scraped.zero with uid := v.stUid.toInt32, gid := v.stGid.toInt32 })
  case pctcpu =>
    refine (value_pointer hvalue (hchar _ (by decide)) (hflags .pctcpu)
      (by rw [fieldSlots, hprs])).trans ?_
    exact congrArg SV.pv (cstr_overwrite _ _)
  case pctmem =>
    have hbit : e.enabledFields port .pctmem = decide (port.globals.systemMemory ≠ 0) :=
      hflags .pctmem
    by_cases hmem : port.globals.systemMemory = 0
    · have hoff : e.enabledFields port .pctmem = false :=
        hbit.trans (decide_eq_false (not_not_intro hmem))
      rw [value_masked hvalue hoff, ProcessView.scalar, if_pos hmem]
    · have hon : e.enabledFields port .pctmem = true := hbit.trans (decide_eq_true hmem)
      refine (value_pointer hvalue (hchar _ (by decide)) hon (by rw [fieldSlots, hprs])).trans ?_
      rw [ProcessView.scalar, if_neg hmem, ProcessView.ready, Option.elim_some]
      dsimp only
      rw [if_neg hmem, cstr_overwrite]
  case state =>
    have hstate : r.prs.state = (stateOf v.record.stateC).map fun s => getString s.idx :=
      congrArg Scraped.state hprs
    have hon : e.enabledFields port .state = (r.prs.state.map stringAt).isSome := by
      rw [hflags .state, hstate, Option.isSome_map, Option.isSome_map]
    rw [value_pointer hvalue (hchar _ (by decide)) hon rfl, hstate, ProcessView.scalar, stateScalar,
      Option.bind_some]
    cases stateOf v.record.stateC <;> rfl
  case cmndline =>
    rw [value_cmndline hrow hvalue hshows.cmndline, cmndlineOf_nulTerminated v.args_nulFree]
    rfl
  case cmdline =>
    have htext : e.text .cmdline = (some v.args).map nulTerminated := hshows.cmdline
    refine value_array hvalue hrow (Or.inl rfl) htext ?_ ?_
    · intro as has
      rw [← Option.some.inj has]
      exact v.args_nulFree
    · intro as has
      rw [← Option.some.inj has]
      exact hfits.args
  case environ =>
    exact value_array hvalue hrow (Or.inr rfl) hshows.environ v.env_nulFree hfits.env
  case cwd =>
    exact value_link hvalue (hchar _ (by decide)) (hflags .cwd) (by rw [fieldSlots, hcwd])
  case exec =>
    exact value_link hvalue (hchar _ (by decide)) (hflags .exec) (by rw [fieldSlots, hexec])
  all_goals exact hnumber (hflags _) rfl

/-- The object of an entry is the object of the process. -/
theorem objectOf_shown (hfits : v.Fits port) (ttydevs : Option HV) {r : Row}
    (hrow : Row.scrape port e = .ready r) {value : Field → SV × Option UInt64}
    (hvalue : RowValues port e r value) :
    objectOf port ttydevs e r value = v.object port (e.upper .flags) ttydevs := by
  funext key
  unfold ProcessView.object
  by_cases hdev : key = "ttydev"
  · rw [if_pos hdev, hdev]
    have hslot : fieldSlots e.upper (fun t => t ++ [nul]) r.prs .ttynum =
        [argInt e.upper .ttynum v.record.tty] := by
      rw [fieldSlots, ready_shown hshows hfits.comm hrow]
      rfl
    have hchar : Field.char .ttynum true = 'i' := by
      rw [Field.char, Field.spec, defaultFormat_eq]
      rfl
    have hlookup := value_of_group hvalue (enabledFields_shown hshows hfits.comm .ttynum)
      ((congrArg₂ groupValue hchar hslot).trans (groupValue_int e.upper _ _))
    have hkeys := valueColumns_key (e.enabledFields port)
      (fieldSlots e.upper (fun t => t ++ [nul]) r.prs) value
    have hname : Field.ttynum.name = "ttynum" := by
      rw [Field.name, fieldKeys_eq]
      rfl
    have hnodup := fieldKeys_nodup
    rw [← hkeys] at hnodup
    exact storeColumns_ttydev_of_mem ttydevs HV.empty hnodup.1 hnodup.2
      (List.mem_map_of_mem (Field.mem_all .ttynum)) hname (congrArg Prod.snd hlookup)
  · rw [if_neg hdev]
    by_cases hkey : key ∈ fieldKeys
    · rw [fieldKeys_eq_map] at hkey
      obtain ⟨f, _, rfl⟩ := List.mem_map.mp hkey
      rw [objectOf_name, find_name, Option.map_some, value_shown hshows hfits hrow hvalue]
    · rw [objectOf_other port ttydevs e r value hkey hdev, List.find?_eq_none.mpr]
      · rfl
      · intro f hf hname
        apply hkey
        rw [fieldKeys_eq_map, ← of_decide_eq_true hname]
        exact List.mem_map_of_mem hf

/-- A process that is shown is worked on to the end. -/
theorem publishes_shown (hfits : v.Fits port) : e.Publishes port := by
  have hscanned := (statScanned_of_render hshows.stat).1
  refine ⟨hshows.isPid, ?_, v.status.statusEnds_render hshows.status, ?_, ?_, ?_⟩
  · rintro ⟨hgone, _⟩
    have hnot := (hgone _ hshows.stat).2
    rw [DirEntry.statScanned, hshows.stat, Option.any_some, hnot] at hscanned
    cases hscanned
  · intro hmem
    have hrss : e.statRss = v.record.rss :=
      (Row.upToStat_stat e).2.2.symm.trans
        (congrArg Scraped.rss (upToStat_shown hshows hfits.comm))
    rw [hrss]
    exact hfits.pctmem hmem
  · rw [hshows.cmdline]
    exact arrayFits_of_lt hfits.args
  · rw [hshows.environ]
    cases henv : v.env with
    | none => exact fun _ h => by cases h
    | some vars => exact arrayFits_of_lt (hfits.env vars henv)

end Shown

/-- An entry that is passed over changes nothing. -/
theorem Row.step_of_skipped {port : Port} {e : DirEntry} (h : e.Skipped) (xs : Interp) :
    Row.step port xs e = (xs, none) := by
  unfold Row.step
  rcases (Row.scrape_skips_iff port e).mpr h with hscrape | hscrape
  · rw [hscrape]
  · rw [hscrape]

/-- A process that is shown adds its object. -/
theorem Row.step_of_shows {port : Port} {e : DirEntry} {v : ProcessView} (hshows : e.Shows v)
    (hfits : v.Fits port) (xs : Interp) :
    (Row.step port xs e).1.ttydevs = xs.ttydevs ∧
      (Row.step port xs e).1.proclist = xs.proclist ++ [v.object port (e.upper .flags) xs.ttydevs] ∧
      (Row.step port xs e).2 = none := by
  obtain ⟨httydevs, hlist, hfault⟩ := Row.step_frame port xs e
  obtain ⟨r, value, hrow, hvalue, hadded⟩ :=
    Row.added_of_publishes (publishes_shown hshows hfits) xs.ttydevs
  rw [hadded] at hlist hfault
  rw [objectOf_shown hshows hfits xs.ttydevs hrow hvalue] at hlist
  exact ⟨httydevs, hlist, hfault⟩

/-- The rows of a listing. -/
theorem Row.table_of_listing {port : Port} {entries : List DirEntry}
    {views : List (ProcessView × UInt32)} (h : Listing port entries views) (xs : Interp) :
    (Row.table port entries (xs, none)).2 = none ∧
      (Row.table port entries (xs, none)).1.ttydevs = xs.ttydevs ∧
      (Row.table port entries (xs, none)).1.proclist =
        xs.proclist ++ views.map fun v => v.1.object port v.2 xs.ttydevs := by
  induction h generalizing xs with
  | nil => exact ⟨rfl, rfl, (List.append_nil _).symm⟩
  | @skipped e entries views hskip _ ih =>
      have hstep : Row.table port (e :: entries) (xs, none) = Row.table port entries (xs, none) :=
        congrArg (Row.table port entries) (Row.step_of_skipped hskip xs)
      rw [hstep]
      exact ih xs
  | @shown e entries v views hshows hfits _ ih =>
      obtain ⟨httydevs, hlist, hfault⟩ := Row.step_of_shows hshows hfits xs
      have hstep : Row.table port (e :: entries) (xs, none) =
          Row.table port entries ((Row.step port xs e).1, none) :=
        congrArg (Row.table port entries) (Prod.ext rfl hfault)
      obtain ⟨hnone, hsame, hrest⟩ := ih (Row.step port xs e).1
      rw [httydevs] at hsame hrest
      rw [hstep]
      refine ⟨hnone, hsame, ?_⟩
      rw [hrest, hlist, List.append_assoc]
      rfl

/-- **From the kernel's files to the objects.**  On a listing each of whose
entries is passed over or shows a process that the port has room for, a call of
`OS_get_table` returns, and puts on the list the object of each process shown,
in the order of the listing, and nothing else. -/
theorem table_described {port : Port} (res : Residue (Procstat Nat)) (xs : Interp)
    {entries : List DirEntry} {views : List (ProcessView × UInt32)}
    (h : Listing port entries views) :
    (osGetTable port res (some entries) xs).fault = none ∧
      (osGetTable port res (some entries) xs).xs.ttydevs = xs.ttydevs ∧
      (osGetTable port res (some entries) xs).xs.proclist =
        xs.proclist ++ views.map fun v => v.1.object port v.2 xs.ttydevs := by
  have hrows := osGetTable_refines port res xs entries
  obtain ⟨hnone, httydevs, hlist⟩ := Row.table_of_listing h xs
  rw [← hrows] at hnone httydevs hlist
  exact ⟨hnone, httydevs, hlist⟩

/-- A shell, and its status file. -/
def shellStatus : StatusRecord where
  before := [['N', 'a', 'm', 'e', ':', '\t', 's', 'h']]
  tracer := 0
  ruid := 1000
  euid := 1000
  suid := 1000
  fuid := 1000
  rgid := 100
  egid := 100
  sgid := 100
  fgid := 100
  behind := [['F', 'D', 'S', 'i', 'z', 'e', ':', '\t', '6', '4']]
  before_first := by decide
  before_plain := List.forall_mem_singleton.mpr ⟨⟨by decide, by decide⟩, rfl⟩
  behind_plain := List.forall_mem_singleton.mpr ⟨⟨by decide, by decide⟩, rfl⟩

theorem shellComm_nulFree : nul ∉ ['s', 'h'] := by decide

theorem shellArgs_nulFree : ∀ arg ∈ [['s', 'h'], ['-', 'c']], nul ∉ arg := by decide

theorem shellEnv_nulFree (vars : List (List Char)) (h : none = some vars) : ∀ var ∈ vars, nul ∉ var :=
  absurd h (Option.some_ne_none vars).symm

/-- The shell as another user sees it. -/
def shellView : ProcessView where
  record := recordNamed ['s', 'h'] shellComm_nulFree
  status := shellStatus
  stUid := 1000
  stGid := 100
  args := [['s', 'h'], ['-', 'c']]
  env := none
  cwd := none
  exe := none
  now := 0
  args_nulFree := shellArgs_nulFree
  env_nulFree := shellEnv_nulFree

/-- What the system answers about it. -/
def shellWorld : Moment → Kernel
  | .userInfo => { Kernel.constant [] with stat := fun _ => some (1000, 100) }
  | .procStat => Kernel.constant shellView.record.render
  | .cmndline | .cmdline => Kernel.constant (nulTerminated shellView.args)
  | .status => Kernel.constant shellStatus.render
  | .environ => { Kernel.constant [] with openFile := fun _ => none }
  | .pidExists | .cwd | .exec | .calcPrec => Kernel.constant []

def shellEntry : DirEntry where
  dName := ['4', '2']
  world := shellWorld
  upper := fun _ => 0
  dName_nulFree := unreadableEntry.dName_nulFree
  dName_length := unreadableEntry.dName_length

/-- An entry of the directory that is no process. -/
def selfEntry : DirEntry where
  dName := ['s', 'e', 'l', 'f']
  world := shellWorld
  upper := fun _ => 0
  dName_nulFree := by decide
  dName_length := by decide

theorem shellEntry_shows : shellEntry.Shows shellView where
  isPid := by decide
  stat := fileContent_bytewise _
  owner := rfl
  cmndline := fileContent_bytewise _
  cmdline := fileContent_bytewise _
  environ := rfl
  cwd := rfl
  exec := rfl
  status := fileContent_bytewise _
  clock := rfl

theorem shellView_fits : shellView.Fits samplePort where
  comm := Or.inr (by decide)
  args := by decide
  env := fun _ h => absurd h (Option.some_ne_none _).symm
  pctmem := fun h => absurd rfl h

/-- The shell behind an entry that is no process. -/
theorem table_described_shell :
    (osGetTable samplePort clearedMemory (some [selfEntry, shellEntry])
        ⟨none, none, []⟩).fault = none ∧
      (osGetTable samplePort clearedMemory (some [selfEntry, shellEntry])
        ⟨none, none, []⟩).xs.ttydevs = none ∧
      (osGetTable samplePort clearedMemory (some [selfEntry, shellEntry])
        ⟨none, none, []⟩).xs.proclist = [shellView.object samplePort 0 none] :=
  table_described clearedMemory ⟨none, none, []⟩
    (.skipped (e := selfEntry) (Or.inl (by decide)) (.shown shellEntry_shows shellView_fits .nil))

end Linux
