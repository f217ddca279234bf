import ProcProcessTable.AixArguments
import ProcProcessTable.CallRows
import ProcProcessTable.ScanLoop

/-!
# The loop of aix.c

`OS_get_table` of `aix.c` fills its arrays and its format outside the loop, and writes to
them in some turns only: `wchan` for a process that waits, `state` for a state it knows,
and `'S'` into the format for one it does not know, which no later turn takes back.  The
arguments of a process are decoded into `Args`, from what `getargs` left in `Arglist`.
`Fullformat` is two characters longer than the array it is copied to in front of the loop,
so the size of that array is an argument of `osGetTableIn`.

`arguments_ended` and `arguments_unended` say when what is decoded depends on what the two
arrays held.
-/

namespace Aix

open CText Xs ProcessTable

def F_STAT : Nat := 9

def F_PRM : Nat := 32

def F_FLAST : Nat := 33

def Fullformat : List Char := "llllllllsslsllllllllllllllllllllsss".toList

def Zombformat : List Char := "lllllllllslslllllll".toList

def ZombFields : List String :=
  ["pid", "ppid", "sess", "pgrp", "uid", "suid", "priority", "nice", "pctcpu", "stat", "flags",
    "wchan", "wtype", "adspace", "majflt", "minflt", "utime", "stime", "size"]

def FullFields : List String :=
  ["pid", "ppid", "sess", "pgrp", "uid", "suid", "priority", "nice", "pctcpu", "stat", "flags",
    "wchan", "wtype", "adspace", "majflt", "minflt", "size", "luid", "euid", "gid", "start",
    "utime", "stime", "cutime", "cstime", "tsize", "ttyp", "ttynum", "ttympx", "drss", "trss",
    "dvm", "pctmem", "comm", "cmndline"]

/-- The values of `pi_stat`. -/
inductive PiStat
  | SNONE | SSLEEP | SRUN | SIDL | SZOMB | SSTOP | SACTIVE
  | other (stat : Int32)
  deriving DecidableEq

/-- The text of a state that the `switch` knows. -/
def PiStat.text : PiStat → Option (List Char)
  | .SSLEEP => some "sleep".toList
  | .SRUN => some "run".toList
  | .SIDL => some "idle".toList
  | .SZOMB => some "defunct".toList
  | .SSTOP => some "stop".toList
  | .SACTIVE => some "active".toList
  | _ => none

/-- The members of `struct procinfo` that are read, each as the `long` it is passed as. -/
structure Procinfo where
  piPid : Int64
  piPpid : Int64
  piSid : Int64
  piPgrp : Int64
  piUid : Int64
  piSuid : Int64
  piPri : Int64
  piNice : Int64
  piCpu : Int64
  piStat : PiStat
  piFlag : Int64
  piWchan : Option UInt64
  piWtype : Int64
  piAdspace : Int64
  piMajflt : Int64
  piMinflt : Int64
  piUtime : Int64
  piStime : Int64
  piSize : Int64

structure Timeval where
  tvSec : Int64
  tvUsec : Int64

/-- The members of `struct userinfo` that are read. -/
structure Userinfo where
  uiComm : Mem
  uiLuid : Int64
  uiUid : Int64
  uiGid : Int64
  uiStart : Int64
  ruUtime : Timeval
  ruStime : Timeval
  cruUtime : Timeval
  cruStime : Timeval
  uiTsize : Int64
  uiTtyp : Int64
  uiTtyd : Int64
  uiTtympx : Int64
  uiDrss : Int64
  uiTrss : Int64
  uiDvm : Int64

/-- A process, and what `getuser` and `getargs` answer about it: `none` where they fail. -/
structure Entry where
  info : Procinfo
  user : Option Userinfo
  args : Option (List Char)

/-- What holds for a whole scan: the constants of the system, its `%p`, and what the
floating-point operations make of times and sizes. -/
structure System where
  MAXARGLN : Nat
  SKPROC : Int64
  PageSize : Int64
  Sysmem : UInt64
  printPointer : UInt64 → List Char
  hundredths : Timeval → Int64
  printPctcpu : Timeval → Timeval → Int64 → List Char
  printPctmem : Int64 → List Char
  MAXARGLN_pos : 0 < MAXARGLN

/-- The variables of `OS_get_table` that outlive a turn of the loop. -/
structure Locals (sys : System) where
  format : Mem
  wchan : Mem
  state : Mem
  args : CharArray (sys.MAXARGLN + 1)
  arglist : CharArray (sys.MAXARGLN + 1)

/-- `char format[F_FLAST + 1]`. -/
def sizeofFormat : Nat := F_FLAST + 1

/-- The variables behind `strcpy(format, Fullformat)`. -/
def Locals.copied {sys : System} (residue : Locals sys) : Locals sys :=
  { residue with format := Fullformat ++ [nul] }

/-- The variables at the start of the loop, when `format` has this size: the copy may leave
the array. -/
def Locals.start {sys : System} (size : Nat) (residue : Locals sys) : Option (Locals sys) :=
  if size < (Fullformat ++ [nul]).length then none else some residue.copied

def sizeofWchan : Nat := 15

def sizeofPct : Nat := 7

/-- The text for a kernel process. -/
def kprocText (p : Procinfo) (u : Userinfo) : List Char :=
  if p.piPid = 0 then "kproc (swapper)".toList
  else "kproc (".toList ++ cstr u.uiComm ++ ")".toList

def isKproc (sys : System) (p : Procinfo) : Bool := p.piFlag &&& sys.SKPROC ≠ 0

/-- The part of a turn that fills `Args`, `Arglist` and `Comm`. -/
def arguments (sys : System) (args arglist : CharArray (sys.MAXARGLN + 1)) (e : Entry)
    (u : Userinfo) :
    Option (CharArray (sys.MAXARGLN + 1) × CharArray (sys.MAXARGLN + 1) × Mem) :=
  let args := args.clear
  if isKproc sys e.info then do
    let args ← args.store 0 (kprocText e.info u ++ [nul])
    some (args, arglist, kprocText e.info u ++ [nul])
  else
    let comm := strncpy u.uiComm sys.MAXARGLN ++ [nul]
    match e.args with
    | none => do
        let args ← args.store 0 (cstr u.uiComm ++ [nul])
        some (args, arglist, comm)
    | some content => do
        let arglist ← arglist.store 0 (content.take sys.MAXARGLN)
        let bytes ← decode sys.MAXARGLN arglist.bytes
        let args ← args.store 0 bytes
        some (args, arglist, comm)

def pctcpu (sys : System) (u : Userinfo) : List Char :=
  sys.printPctcpu u.ruUtime u.ruStime u.uiStart

def pctmem (sys : System) (u : Userinfo) : List Char :=
  if sys.Sysmem = 0 then []
  else sys.printPctmem ((u.uiDrss + u.uiTrss) * sys.PageSize * 100)

/-- The arguments behind `Zombformat` and `ZombFields`. -/
def zombArgs (sys : System) (p : Procinfo) (state wchan : Mem) : List Slot :=
  [.word p.piPid.toUInt64,
    .word p.piPpid.toUInt64,
    .word p.piSid.toUInt64,
    .word p.piPgrp.toUInt64,
    .word p.piUid.toUInt64,
    .word p.piSuid.toUInt64,
    .word p.piPri.toUInt64,
    .word p.piNice.toUInt64,
    .word p.piCpu.toUInt64,
    .ptr (some state),
    .word p.piFlag.toUInt64,
    .ptr (some wchan),
    .word p.piWtype.toUInt64,
    .word p.piAdspace.toUInt64,
    .word p.piMajflt.toUInt64,
    .word p.piMinflt.toUInt64,
    .word p.piUtime.toUInt64,
    .word p.piStime.toUInt64,
    .word (p.piSize * sys.PageSize).toUInt64]

/-- The arguments behind `format` and `FullFields`. -/
def fullArgs (sys : System) (p : Procinfo) (u : Userinfo) (state wchan comm args : Mem) :
    List Slot :=
  [.word p.piPid.toUInt64,
    .word p.piPpid.toUInt64,
    .word p.piSid.toUInt64,
    .word p.piPgrp.toUInt64,
    .word p.piUid.toUInt64,
    .word p.piSuid.toUInt64,
    .word p.piPri.toUInt64,
    .word p.piNice.toUInt64,
    .ptr (some (pctcpu sys u ++ [nul])),
    .ptr (some state),
    .word p.piFlag.toUInt64,
    .ptr (some wchan),
    .word p.piWtype.toUInt64,
    .word p.piAdspace.toUInt64,
    .word p.piMajflt.toUInt64,
    .word p.piMinflt.toUInt64,
    .word ((p.piSize * sys.PageSize - u.uiTsize) / 1024).toUInt64,
    .word u.uiLuid.toUInt64,
    .word u.uiUid.toUInt64,
    .word u.uiGid.toUInt64,
    .word u.uiStart.toUInt64,
    .word (sys.hundredths u.ruUtime).toUInt64,
    .word (sys.hundredths u.ruStime).toUInt64,
    .word (sys.hundredths u.cruUtime).toUInt64,
    .word (sys.hundredths u.cruStime).toUInt64,
    .word (u.uiTsize / 1024).toUInt64,
    .word u.uiTtyp.toUInt64,
    .word u.uiTtyd.toUInt64,
    .word u.uiTtympx.toUInt64,
    .word ((u.uiDrss + u.uiTrss) * sys.PageSize / 1024).toUInt64,
    .word (u.uiTrss * sys.PageSize / 1024).toUInt64,
    .word u.uiDvm.toUInt64,
    .ptr (some (pctmem sys u ++ [nul])),
    .ptr (some comm),
    .ptr (some args)]

/-- `sprintf(wchan, "%p", …)`, when the process waits. -/
def sprintWchan (sys : System) (wchan : Mem) (piWchan : Option UInt64) : Option Mem :=
  match piWchan with
  | none => some wchan
  | some p =>
      if sizeofWchan ≤ (sys.printPointer p).length then none
      else some (strcpy wchan (sys.printPointer p))

/-- The `switch` over the state. -/
def setState {sys : System} (s : Locals sys) (piStat : PiStat) : Locals sys :=
  match piStat.text with
  | some text => { s with state := strcpy s.state text }
  | none => { s with format := s.format.set F_STAT 'S' }

/-- The turn of a process that `getuser` knows. -/
def publish (sys : System) (s : Locals sys) (e : Entry) (u : Userinfo) :
    Locals sys × Except Fault (Option BlessCall) :=
  match arguments sys s.args s.arglist e u with
  | none => (s, .error .overflow)
  | some (args, arglist, comm) =>
      let s := { s with args := args, arglist := arglist }
      if sizeofPct ≤ (pctcpu sys u).length ∨ sizeofPct ≤ (pctmem sys u).length then
        (s, .error .overflow)
      else
        let s := if sys.Sysmem = 0 then { s with format := s.format.set F_PRM 'S' } else s
        (s, .ok (some ⟨s.format, FullFields,
          fullArgs sys e.info u s.state s.wchan comm args.bytes⟩))

/-- One turn of the loop.  The first operand in front of `getuser` compares two addresses
and is false for every state. -/
def visit (sys : System) (s : Locals sys) (e : Entry) :
    Locals sys × Except Fault (Option BlessCall) :=
  match sprintWchan sys s.wchan e.info.piWchan with
  | none => (s, .error .overflow)
  | some wchan =>
      let s := { s with wchan := wchan }
      if e.info.piStat = .SNONE then (s, .ok none)
      else
        let s := setState s e.info.piStat
        match e.user with
        | none => (s, .ok (some ⟨Zombformat, ZombFields, zombArgs sys e.info s.state s.wchan⟩))
        | some u => publish sys s e u

/-- The size of the array for the processes. -/
def MAX_PROCS : Nat := 1024

/-- `OS_get_table` with a `format` of this size, from what its arrays hold on entry. -/
def osGetTableIn (size : Nat) (sys : System) (residue : Locals sys) (procs : List Entry) : Scan :=
  match residue.start size with
  | none => ⟨[], some .overflow⟩
  | some s => loopScan (visit sys) s (procs.take MAX_PROCS)

/-- `OS_get_table`, with its `format`. -/
def osGetTable (sys : System) : Locals sys → List Entry → Scan := osGetTableIn sizeofFormat sys

/-! ### The texts of a process -/

/-- The text that is printed to `Args`, where nothing is decoded. -/
def Entry.printed (sys : System) (e : Entry) (u : Userinfo) : Option (List Char) :=
  if isKproc sys e.info then some (kprocText e.info u)
  else
    match e.args with
    | none => some (cstr u.uiComm)
    | some _ => none

/-- The array behind the name. -/
def comm (sys : System) (p : Procinfo) (u : Userinfo) : Mem :=
  if isKproc sys p then kprocText p u ++ [nul] else strncpy u.uiComm sys.MAXARGLN ++ [nul]

/-- A text of a process that `getuser` knows does not fit its array. -/
def Entry.TooLong (sys : System) (e : Entry) (u : Userinfo) : Prop :=
  (∃ text, e.printed sys u = some text ∧ sys.MAXARGLN < text.length) ∨
    sizeofPct ≤ (pctcpu sys u).length ∨ sizeofPct ≤ (pctmem sys u).length

/-- A text does not fit its array. -/
inductive Entry.Overflows (sys : System) (e : Entry) : Prop
  | wchan (p : UInt64) (hwchan : e.info.piWchan = some p)
      (hlong : sizeofWchan ≤ (sys.printPointer p).length)
  | user (u : Userinfo) (hstat : e.info.piStat ≠ .SNONE) (huser : e.user = some u)
      (hlong : e.TooLong sys u)

section

variable (sys : System) (args arglist : CharArray (sys.MAXARGLN + 1)) (e : Entry) (u : Userinfo)

theorem store_text (text : List Char) :
    (args.store 0 (text ++ [nul]) = none ↔ sys.MAXARGLN < text.length) ∧
      ∀ args', args.store 0 (text ++ [nul]) = some args' → cstr args'.bytes = cstr text := by
  by_cases hlong : sys.MAXARGLN < text.length
  · have hnone : args.store 0 (text ++ [nul]) = none := by
      apply args.store_of_lt
      rw [List.length_append, List.length_singleton]
      omega
    refine ⟨iff_of_true hnone hlong, fun args' h => ?_⟩
    rw [hnone] at h
    cases h
  · have hroom : 0 + (text ++ [nul]).length ≤ sys.MAXARGLN + 1 := by
      rw [List.length_append, List.length_singleton]
      omega
    obtain ⟨args', hstore, hbytes⟩ := args.store_of_le hroom
    refine ⟨iff_of_false (by rw [hstore]; exact Option.some_ne_none _) hlong, fun out h => ?_⟩
    obtain rfl := Option.some.inj (hstore.symm.trans h)
    rw [hbytes, overwrite, List.take_zero, List.nil_append, List.append_assoc, List.singleton_append]
    exact cstr_append_nul text _

/-- **Printed arguments** are published as they are, when they fit. -/
theorem arguments_printed {text : List Char} (h : e.printed sys u = some text) :
    (arguments sys args arglist e u = none ↔ sys.MAXARGLN < text.length) ∧
      ∀ out, arguments sys args arglist e u = some out →
        cstr out.1.bytes = cstr text ∧ out.2.2 = comm sys e.info u := by
  obtain ⟨hnone, hsome⟩ := store_text sys args.clear text
  have hargs : arguments sys args arglist e u =
      (args.clear.store 0 (text ++ [nul])).map fun args => (args, arglist, comm sys e.info u) := by
    unfold Entry.printed at h
    unfold arguments comm
    cases hkproc : isKproc sys e.info with
    | true =>
        rw [hkproc] at h
        obtain rfl := Option.some.inj h
        exact Option.map_eq_bind.symm
    | false =>
        rw [hkproc] at h
        cases hanswer : e.args with
        | some content =>
            rw [hanswer] at h
            cases h
        | none =>
            rw [hanswer] at h
            obtain rfl := Option.some.inj h
            exact Option.map_eq_bind.symm
  rw [hargs, Option.map_eq_none_iff]
  refine ⟨hnone, fun out hout => ?_⟩
  obtain ⟨args', hstore, rfl⟩ := Option.map_eq_some_iff.mp hout
  exact ⟨hsome args' hstore, rfl⟩

/-- What is decoded is stored. -/
theorem arguments_decoded (h : e.printed sys u = none) :
    ∃ content arglist' bytes out, e.args = some content ∧
      arglist'.bytes = overwrite arglist.bytes 0 (content.take sys.MAXARGLN) ∧
      decode sys.MAXARGLN arglist'.bytes = some bytes ∧ bytes.length ≤ sys.MAXARGLN ∧
      arguments sys args arglist e u = some (out, arglist', comm sys e.info u) ∧
      out.bytes = overwrite args.clear.bytes 0 bytes := by
  unfold Entry.printed at h
  unfold arguments comm
  cases hkproc : isKproc sys e.info with
  | true =>
      rw [hkproc] at h
      cases h
  | false =>
      rw [hkproc] at h
      cases hanswer : e.args with
      | none =>
          rw [hanswer] at h
          cases h
      | some content =>
          have hroom : 0 + (content.take sys.MAXARGLN).length ≤ sys.MAXARGLN + 1 := by
            rw [List.length_take]
            omega
          obtain ⟨arglist', hstore, hbytes⟩ := arglist.store_of_le hroom
          have hinside : sys.MAXARGLN < arglist'.bytes.length := by
            rw [arglist'.length_bytes]
            exact Nat.lt_succ_self _
          obtain ⟨bytes, hdecode, hlen⟩ := decode_inside hinside
          have hfits : 0 + bytes.length ≤ sys.MAXARGLN + 1 := by omega
          obtain ⟨out, hout, houtbytes⟩ := args.clear.store_of_le hfits
          refine ⟨content, arglist', bytes, out, rfl, hbytes, hdecode, hlen, ?_, houtbytes⟩
          dsimp only
          rw [if_neg Bool.noConfusion, hstore, Option.bind_eq_bind, Option.bind_some, hdecode,
            Option.bind_eq_bind, Option.bind_some, hout]
          rfl

end

/-- An array with one character everywhere. -/
def uniform (sys : System) (c : Char) : CharArray (sys.MAXARGLN + 1) :=
  ⟨List.replicate (sys.MAXARGLN + 1) c, List.length_replicate⟩

/-- The arguments that are decoded have an end. -/
def Entry.Ended (sys : System) (e : Entry) (u : Userinfo) : Prop :=
  e.printed sys u = none → ∀ content, e.args = some content →
    argText (content.take sys.MAXARGLN) ≠ none

section

variable (sys : System) (args arglist : CharArray (sys.MAXARGLN + 1)) {e : Entry} {u : Userinfo}

/-- The arguments of a process whose texts fit are stored. -/
theorem arguments_some (hfits : ¬ e.TooLong sys u) :
    ∃ out arglist', arguments sys args arglist e u = some (out, arglist', comm sys e.info u) := by
  cases hprinted : e.printed sys u with
  | none =>
      obtain ⟨-, arglist', -, out, -, -, -, -, hout, -⟩ :=
        arguments_decoded sys args arglist e u hprinted
      exact ⟨out, arglist', hout⟩
  | some text =>
      obtain ⟨hnone, hsome⟩ := arguments_printed sys args arglist e u hprinted
      cases harguments : arguments sys args arglist e u with
      | none => exact absurd (Or.inl ⟨text, hprinted, hnone.mp harguments⟩) hfits
      | some out =>
          obtain ⟨out, arglist', last⟩ := out
          obtain rfl := (hsome _ harguments).2
          exact ⟨out, arglist', rfl⟩

/-- **Arguments that end** come out the same, whatever the arrays held. -/
theorem arguments_ended (hended : e.Ended sys u) :
    ∃ text, ∀ args arglist out, arguments sys args arglist e u = some out →
      cstr out.1.bytes = text := by
  cases hprinted : e.printed sys u with
  | some text =>
      refine ⟨cstr text, fun args arglist out hout => ?_⟩
      exact ((arguments_printed sys args arglist e u hprinted).2 out hout).1
  | none =>
      obtain ⟨content, -, -, -, hcontent, -⟩ :=
        arguments_decoded sys (uniform sys nul) (uniform sys nul) e u hprinted
      obtain ⟨text, htext⟩ := Option.ne_none_iff_exists'.mp (hended hprinted content hcontent)
      refine ⟨text, fun args arglist out hout => ?_⟩
      obtain ⟨content', arglist', bytes, out', hcontent', hbytes, hdecode, -, harguments, hstored⟩ :=
        arguments_decoded sys args arglist e u hprinted
      obtain rfl := Option.some.inj (hcontent.symm.trans hcontent')
      obtain rfl := Option.some.inj (harguments.symm.trans hout)
      have htake : (content.take sys.MAXARGLN).length ≤ sys.MAXARGLN := List.length_take_le _ _
      obtain ⟨hown, hfree, -⟩ := decode_argText htext
        (arglist.bytes.drop (0 + (content.take sys.MAXARGLN).length)) htake
      rw [hbytes, overwrite, List.take_zero, List.nil_append, hown] at hdecode
      obtain rfl := Option.some.inj hdecode
      dsimp only
      rw [hstored, overwrite, List.take_zero, List.nil_append, List.append_assoc,
        List.singleton_append]
      exact cstr_terminated hfree _

end

/-- **Arguments that do not end** come out longer in front of other characters than in
front of NULs. -/
theorem arguments_unended (sys : System) {e : Entry} {u : Userinfo} (hunended : ¬ e.Ended sys u) :
    (∀ out, arguments sys (uniform sys 'x') (uniform sys 'x') e u = some out →
        strlen out.1.bytes = sys.MAXARGLN + 1) ∧
      ∀ out, arguments sys (uniform sys nul) (uniform sys nul) e u = some out →
        strlen out.1.bytes ≤ sys.MAXARGLN := by
  obtain ⟨hprinted, content, hcontent, hnone⟩ : e.printed sys u = none ∧
      ∃ content, e.args = some content ∧ argText (content.take sys.MAXARGLN) = none := by
    by_contra hno
    exact hunended fun hprinted content hcontent hnone =>
      hno ⟨hprinted, content, hcontent, hnone⟩
  constructor
  · intro out hout
    obtain ⟨content', arglist', bytes, out', hcontent', hbytes, hdecode, -, harguments, hstored⟩ :=
      arguments_decoded sys (uniform sys 'x') (uniform sys 'x') e u hprinted
    obtain rfl := Option.some.inj (hcontent.symm.trans hcontent')
    obtain rfl := Option.some.inj (harguments.symm.trans hout)
    have htake : (content.take sys.MAXARGLN).length ≤ sys.MAXARGLN := List.length_take_le _ _
    have hwhole : (content.take sys.MAXARGLN).length +
        (sys.MAXARGLN + 1 - (content.take sys.MAXARGLN).length) = sys.MAXARGLN + 1 := by
      omega
    obtain ⟨bytes', hbytes', hfree, hcount⟩ := decode_unended hnone hwhole (by omega)
    have hlast : (uniform sys 'x').clear.bytes.drop (0 + sys.MAXARGLN) = ['x'] := by
      obtain ⟨n, hn⟩ := Nat.exists_eq_succ_of_ne_zero (Nat.pos_iff_ne_zero.mp sys.MAXARGLN_pos)
      show ((List.replicate (sys.MAXARGLN + 1) 'x').set 0 nul).drop (0 + sys.MAXARGLN) = ['x']
      rw [Nat.zero_add, List.replicate_succ, List.set_cons_zero, hn, List.drop_succ_cons,
        List.drop_replicate, Nat.succ_sub (Nat.le_refl n), Nat.sub_self]
      rfl
    rw [hbytes, overwrite, List.take_zero, List.nil_append, Nat.zero_add, uniform,
      List.drop_replicate, hbytes'] at hdecode
    obtain rfl := Option.some.inj hdecode
    rw [strlen]
    dsimp only
    rw [hstored, overwrite, List.take_zero, List.nil_append, hcount, hlast, cstr_of_nulFree,
      List.length_append, hcount, List.length_singleton]
    rw [List.mem_append, List.mem_singleton, not_or]
    exact ⟨hfree, by decide⟩
  · intro out hout
    obtain ⟨content', arglist', bytes, out', hcontent', hbytes, hdecode, hlen, harguments, hstored⟩ :=
      arguments_decoded sys (uniform sys nul) (uniform sys nul) e u hprinted
    obtain rfl := Option.some.inj (harguments.symm.trans hout)
    have hclear : (uniform sys nul).clear.bytes = List.replicate (sys.MAXARGLN + 1) nul := by
      show (List.replicate (sys.MAXARGLN + 1) nul).set 0 nul = _
      rw [List.replicate_succ, List.set_cons_zero]
    obtain ⟨k, hk⟩ : ∃ k, sys.MAXARGLN + 1 - bytes.length = k + 1 :=
      ⟨sys.MAXARGLN - bytes.length, by omega⟩
    have hout : out'.bytes = bytes ++ nul :: List.replicate k nul := by
      rw [hstored, hclear, overwrite, List.take_zero, List.nil_append, List.drop_replicate,
        Nat.zero_add, hk, List.replicate_succ]
    have hcstr : (cstr out'.bytes).length ≤ bytes.length := by
      rw [hout, cstr_append_nul]
      exact List.IsPrefix.length_le (List.takeWhile_prefix _)
    exact hcstr.trans hlen

/-- So they do not come out with one length in front of both. -/
theorem exists_other_length (sys : System) {e : Entry} {u : Userinfo} (hunended : ¬ e.Ended sys u)
    (hfits : ¬ e.TooLong sys u) (n : Nat) :
    ∃ c out arglist', arguments sys (uniform sys c) (uniform sys c) e u =
      some (out, arglist', comm sys e.info u) ∧ strlen out.bytes ≠ n := by
  obtain ⟨hlong, hshort⟩ := arguments_unended sys hunended
  obtain ⟨outx, arglistx, hx⟩ := arguments_some sys (uniform sys 'x') (uniform sys 'x') hfits
  obtain ⟨out0, arglist0, h0⟩ := arguments_some sys (uniform sys nul) (uniform sys nul) hfits
  by_cases hn : n = sys.MAXARGLN + 1
  · have hle : strlen out0.bytes ≤ sys.MAXARGLN := hshort _ h0
    exact ⟨nul, out0, arglist0, h0, by omega⟩
  · have heq : strlen outx.bytes = sys.MAXARGLN + 1 := hlong _ hx
    exact ⟨'x', outx, arglistx, hx, by omega⟩

end Aix
