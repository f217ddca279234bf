import ProcProcessTable.AixRows

/-!
# The rows of aix_getprocs.c

`bless_procs` clears its arrays and copies its format again in every turn.  What it carries
from turn to turn are `cutime` and `cstime`, which are set for every process but a zombie.

`publishedAsAlone_iff` says which processes are published as they are alone; `rows_own_iff`
says it of both ports for AIX.  `osGetTable_own` carries it to the objects of a whole table.
-/

namespace AixGetprocs

open CText Xs ProcessTable
open Aix (PiStat Timeval)

def F_EUID : Nat := 7

def F_STAT : Nat := 13

def F_TTYNUM : Nat := 27

def F_TTYMPX : Nat := 28

def F_PCTMEM : Nat := 32

def PCT_LENGTH : Nat := 7

def STATE_LENGTH : Nat := 10

def PROCS_TO_FETCH : Nat := 1000

def Defaultformat : List Char := "iiiiiiiiiiiiisiiijjlllljjjiiijjjssss".toList

def Fields : List String :=
  ["pid", "ppid", "sess", "pgrp", "uid", "suid", "luid", "euid", "gid", "egid", "priority", "nice",
    "thcount", "stat", "flags", "flags2", "adspace", "majflt", "minflt", "utime", "stime", "cutime",
    "cstime", "start", "size", "tsize", "ttyp", "ttynum", "ttympx", "drss", "trss", "dvm", "pctmem",
    "pctcpu", "comm", "cmndline"]

/-- The members of `struct procsinfo64` that are read. -/
structure Procsinfo64 where
  piPid : Int32
  piPpid : Int32
  piSid : Int32
  piPgrp : Int32
  piUid : Int32
  piSuid : Int32
  crLuid : Int32
  crUid : Int32
  crRgid : Int32
  crGid : Int32
  piPri : Int32
  piNice : Int32
  piThcount : Int32
  piState : PiStat
  piFlags : Int32
  piFlags2 : Int32
  piAdspace : Int64
  piMajflt : Int64
  piMinflt : Int64
  piUtime : Int64
  piStime : Int64
  ruUtime : Timeval
  ruStime : Timeval
  cruUtime : Timeval
  cruStime : Timeval
  piStart : Int64
  piSize : Int64
  piTsize : Int64
  piTtyp : Int32
  piTtyd : Int32
  piTtympx : Int32
  piDrss : Int64
  piTrss : Int64
  piDvm : Int64
  piComm : Mem

/-- A process, and what `getargs` answers about it: `none` where it fails. -/
structure Entry where
  info : Procsinfo64
  args : Option (List Char)

/-- What holds for a whole scan: the constants of the system, and what the floating-point
operations make of times and sizes.  The upper halves of the 4-byte arguments are given by
the place of the argument in the call. -/
structure System where
  ARG_MAX : Nat
  SKPROC : Int32
  pagesize : Int64
  memory : UInt64
  seconds : Timeval → Int64
  printPctcpu : Int64 → Int64 → List Char
  printPctmem : Int64 → List Char
  upper : Nat → UInt32

/-- The variables of `bless_procs` that a turn may leave as they are. -/
structure Locals where
  cutime : Int64
  cstime : Int64

/-- The bytes of a cleared array behind a store to its front. -/
def cleared (size : Nat) (bytes : List Char) : Mem := overwrite (List.replicate size nul) 0 bytes

/-- The `switch` over the state, with the array cleared before it. -/
def state (p : Procsinfo64) : Mem :=
  match p.piState.text with
  | some text => cleared STATE_LENGTH (text ++ [nul])
  | none => cleared STATE_LENGTH []

/-- The format, copied from `Defaultformat` and changed where a value is missing. -/
def format (sys : System) (p : Procsinfo64) : Mem :=
  let format := Defaultformat ++ [nul]
  let format := if p.piState.text = none then format.set F_STAT 'S' else format
  let format := if sys.memory = 0 then format.set F_PCTMEM 'S' else format
  let format := if p.crUid = -1 then format.set F_EUID 'I' else format
  let format := if p.piTtyd = -1 then format.set F_TTYNUM 'I' else format
  if p.piTtympx = -1 then format.set F_TTYMPX 'I' else format

/-- A missing value is passed as zero. -/
def orZero (x : Int32) : Int32 := if x = -1 then 0 else x

def pctmem (sys : System) (p : Procsinfo64) : List Char :=
  if sys.memory = 0 then [] else sys.printPctmem ((p.piDrss + p.piTrss) * sys.pagesize * 100)

def isKproc (sys : System) (p : Procsinfo64) : Bool := p.piFlags &&& sys.SKPROC = sys.SKPROC

/-- The name, as it is printed to `comm`. -/
def commText (sys : System) (p : Procsinfo64) : List Char :=
  if isKproc sys p then
    if p.piPid = 0 then "kproc (swapper)".toList
    else "kproc (".toList ++ cstr p.piComm ++ ")".toList
  else cstr p.piComm

def comm (sys : System) (p : Procsinfo64) : Mem :=
  cleared sys.ARG_MAX (CharArray.vsnprintfBytes sys.ARG_MAX (commText sys p))

/-- The command line, unless the loop over it leaves the array. -/
def cmndline (sys : System) (e : Entry) : Option Mem :=
  if isKproc sys e.info then some (comm sys e.info)
  else
    match e.args with
    | none => some (comm sys e.info)
    | some content => Aix.blankNuls (cleared sys.ARG_MAX (content.take sys.ARG_MAX))

/-- The arguments behind `format` and `Fields`. -/
def args (sys : System) (p : Procsinfo64) (utime stime : Int64) (s : Locals)
    (pctcpu cmndline : Mem) : List Slot :=
  [half (sys.upper 0) p.piPid.toUInt32,
    half (sys.upper 1) p.piPpid.toUInt32,
    half (sys.upper 2) p.piSid.toUInt32,
    half (sys.upper 3) p.piPgrp.toUInt32,
    half (sys.upper 4) p.piUid.toUInt32,
    half (sys.upper 5) p.piSuid.toUInt32,
    half (sys.upper 6) p.crLuid.toUInt32,
    half (sys.upper 7) (orZero p.crUid).toUInt32,
    half (sys.upper 8) p.crRgid.toUInt32,
    half (sys.upper 9) p.crGid.toUInt32,
    half (sys.upper 10) p.piPri.toUInt32,
    half (sys.upper 11) p.piNice.toUInt32,
    half (sys.upper 12) p.piThcount.toUInt32,
    .ptr (some (state p)),
    half (sys.upper 14) p.piFlags.toUInt32,
    half (sys.upper 15) p.piFlags2.toUInt32,
    .word p.piAdspace.toUInt64,
    .word p.piMajflt.toUInt64,
    .word p.piMinflt.toUInt64,
    .word (utime * 100).toUInt64,
    .word (stime * 100).toUInt64,
    .word (s.cutime * 100).toUInt64,
    .word (s.cstime * 100).toUInt64,
    .word p.piStart.toUInt64,
    .word p.piSize.toUInt64,
    .word p.piTsize.toUInt64,
    half (sys.upper 26) p.piTtyp.toUInt32,
    half (sys.upper 27) (orZero p.piTtyd).toUInt32,
    half (sys.upper 28) (orZero p.piTtympx).toUInt32,
    .word p.piDrss.toUInt64,
    .word p.piTrss.toUInt64,
    .word p.piDvm.toUInt64,
    .ptr (some (cleared PCT_LENGTH (pctmem sys p ++ [nul]))),
    .ptr (some (cleared PCT_LENGTH (pctcpu ++ [nul]))),
    .ptr (some (comm sys p)),
    .ptr (some cmndline)]

/-- The times of the process itself. -/
def times (sys : System) (p : Procsinfo64) : Int64 × Int64 :=
  if p.piState = .SZOMB then (p.piUtime, p.piStime)
  else (sys.seconds p.ruUtime, sys.seconds p.ruStime)

/-- Those of its children, which are not set for a zombie. -/
def childTimes (sys : System) (s : Locals) (p : Procsinfo64) : Locals :=
  if p.piState = .SZOMB then s else ⟨sys.seconds p.cruUtime, sys.seconds p.cruStime⟩

def pctcpu (sys : System) (p : Procsinfo64) : List Char :=
  sys.printPctcpu (((times sys p).1 + (times sys p).2) * 100) p.piStart

/-- One turn of the loop. -/
def visit (sys : System) (s : Locals) (e : Entry) : Locals × Except Fault (Option BlessCall) :=
  if e.info.piState = .SNONE then (s, .ok none)
  else
    let s := childTimes sys s e.info
    if PCT_LENGTH ≤ (pctcpu sys e.info).length ∨ PCT_LENGTH ≤ (pctmem sys e.info).length then
      (s, .error .overflow)
    else
      match cmndline sys e with
      | none => (s, .error .overflow)
      | some cmndline =>
          (s, .ok (some ⟨format sys e.info, Fields,
            args sys e.info (times sys e.info).1 (times sys e.info).2 s (pctcpu sys e.info)
              cmndline⟩))

/-- `bless_procs`, from what its variables hold on entry. -/
def blessProcs (sys : System) (procs : List Entry) (residue : Locals) : Scan :=
  loopScan (visit sys) residue procs

/-- The blocks that are fetched: another one as long as the last one was full. -/
def fetched : List (List Entry × Locals) → List (List Entry × Locals)
  | [] => []
  | block :: blocks => if PROCS_TO_FETCH ≤ block.1.length then block :: fetched blocks else [block]

/-- What `ppt_warn` prints. -/
def cannotAllocate : String :=
  "cannot allocate memory in Proc::ProcessTable::OS_get_table!"

/-- `OS_get_table`: the blocks that `getprocs` returns, one `bless_procs` for each, with what
its variables hold on entry; or a warning, when `malloc` finds no room for a block. -/
def osGetTable (sys : System) (malloc : Bool) (blocks : List (List Entry × Locals)) :
    Option String × Scan :=
  if malloc then
    (none, Scan.collect ((fetched blocks).flatMap fun block =>
      CarriedState.outputs (visit sys) block.2 block.1))
  else (some cannotAllocate, ⟨[], none⟩)

/-! ### One turn -/

/-- A text of the process does not fit its array, or the loop over its arguments leaves
theirs. -/
def Entry.Overflows (sys : System) (e : Entry) : Prop :=
  e.info.piState ≠ .SNONE ∧
    (PCT_LENGTH ≤ (pctcpu sys e.info).length ∨ PCT_LENGTH ≤ (pctmem sys e.info).length ∨
      (isKproc sys e.info = false ∧ ∃ content, e.args = some content ∧
        Aix.argText (cleared sys.ARG_MAX (content.take sys.ARG_MAX)) = none))

/-- The command line overflows when the text of the arguments does. -/
theorem cmndline_none_iff (sys : System) (e : Entry) :
    cmndline sys e = none ↔ isKproc sys e.info = false ∧ ∃ content, e.args = some content ∧
      Aix.argText (cleared sys.ARG_MAX (content.take sys.ARG_MAX)) = none := by
  unfold cmndline
  cases isKproc sys e.info with
  | true =>
      refine iff_of_false (Option.some_ne_none _) fun h => ?_
      cases h.1
  | false =>
      rw [if_neg Bool.noConfusion, and_iff_right rfl]
      cases hanswer : e.args with
      | none =>
          refine iff_of_false (Option.some_ne_none _) fun ⟨content, h, _⟩ => ?_
          cases h
      | some content =>
          rw [Aix.blankNuls_none_iff]
          constructor
          · exact fun h => ⟨content, rfl, h⟩
          · intro ⟨content', h, hnone⟩
            obtain rfl := Option.some.inj h
            exact hnone

/-- The call of a process, with the times of the children that it is given. -/
def call (sys : System) (p : Procsinfo64) (s : Locals) (cmndline : Mem) : BlessCall :=
  ⟨format sys p, Fields,
    args sys p (times sys p).1 (times sys p).2 s (pctcpu sys p) cmndline⟩

/-- **One turn**: it ends the scan when something overflows, passes over a slot without a
process, and otherwise gets to its call. -/
theorem visit_cases (sys : System) (s : Locals) (e : Entry) :
    (e.Overflows sys → (visit sys s e).2 = .error .overflow) ∧
      (e.info.piState = .SNONE → (visit sys s e).2 = .ok none) ∧
      (¬ e.Overflows sys → e.info.piState ≠ .SNONE → ∃ text, cmndline sys e = some text ∧
        (visit sys s e).2 = .ok (some (call sys e.info (childTimes sys s e.info) text))) := by
  unfold visit
  by_cases hstate : e.info.piState = .SNONE
  · rw [if_pos hstate]
    exact ⟨fun h => absurd hstate h.1, fun _ => rfl, fun _ h => absurd hstate h⟩
  · rw [if_neg hstate]
    dsimp only
    by_cases hpct : PCT_LENGTH ≤ (pctcpu sys e.info).length ∨
        PCT_LENGTH ≤ (pctmem sys e.info).length
    · rw [if_pos hpct]
      refine ⟨fun _ => rfl, fun h => absurd h hstate, fun hfits => ?_⟩
      exact absurd ⟨hstate, hpct.imp_right Or.inl⟩ hfits
    · rw [if_neg hpct]
      rw [not_or] at hpct
      cases hcmndline : cmndline sys e with
      | none =>
          have hover : e.Overflows sys :=
            ⟨hstate, Or.inr (Or.inr ((cmndline_none_iff sys e).mp hcmndline))⟩
          exact ⟨fun _ => rfl, fun h => absurd h hstate, fun hfits => absurd hover hfits⟩
      | some text =>
          refine ⟨fun hover => ?_, fun h => absurd h hstate, fun _ _ => ⟨text, rfl, rfl⟩⟩
          rcases hover.2 with hlong | hlong | hrun
          · exact absurd hlong hpct.1
          · exact absurd hlong hpct.2
          · rw [(cmndline_none_iff sys e).mpr hrun] at hcmndline
            cases hcmndline

/-! ### What is published -/

/-- `Defaultformat`, with the characters that a turn may change. -/
def formatChars (euid stat ttynum ttympx pctmem : Char) : List Char :=
  "iiiiiii".toList ++ euid :: "iiiii".toList ++ stat :: "iiijjlllljjji".toList ++
    ttynum :: ttympx :: "jjj".toList ++ pctmem :: "sss".toList

/-- **The format string** in the form of its five characters. -/
theorem format_eq (sys : System) (p : Procsinfo64) :
    format sys p = formatChars (if p.crUid = -1 then 'I' else 'i')
      (if p.piState.text = none then 'S' else 's') (if p.piTtyd = -1 then 'I' else 'i')
      (if p.piTtympx = -1 then 'I' else 'i') (if sys.memory = 0 then 'S' else 's') ++ [nul] := by
  have hstat : (if p.piState.text = none then (Defaultformat ++ [nul]).set F_STAT 'S'
      else Defaultformat ++ [nul]) =
        formatChars 'i' (if p.piState.text = none then 'S' else 's') 'i' 'i' 's' ++ [nul] := by
    split <;> rfl
  have hpctmem : ∀ stat, (if sys.memory = 0 then
      (formatChars 'i' stat 'i' 'i' 's' ++ [nul]).set F_PCTMEM 'S'
        else formatChars 'i' stat 'i' 'i' 's' ++ [nul]) =
          formatChars 'i' stat 'i' 'i' (if sys.memory = 0 then 'S' else 's') ++ [nul] := by
    intro stat
    split <;> rfl
  have heuid : ∀ stat pctmem, (if p.crUid = -1 then
      (formatChars 'i' stat 'i' 'i' pctmem ++ [nul]).set F_EUID 'I'
        else formatChars 'i' stat 'i' 'i' pctmem ++ [nul]) =
          formatChars (if p.crUid = -1 then 'I' else 'i') stat 'i' 'i' pctmem ++ [nul] := by
    intro stat pctmem
    split <;> rfl
  have httynum : ∀ euid stat pctmem, (if p.piTtyd = -1 then
      (formatChars euid stat 'i' 'i' pctmem ++ [nul]).set F_TTYNUM 'I'
        else formatChars euid stat 'i' 'i' pctmem ++ [nul]) =
          formatChars euid stat (if p.piTtyd = -1 then 'I' else 'i') 'i' pctmem ++ [nul] := by
    intro euid stat pctmem
    split <;> rfl
  have httympx : ∀ euid stat ttynum pctmem, (if p.piTtympx = -1 then
      (formatChars euid stat ttynum 'i' pctmem ++ [nul]).set F_TTYMPX 'I'
        else formatChars euid stat ttynum 'i' pctmem ++ [nul]) =
          formatChars euid stat ttynum (if p.piTtympx = -1 then 'I' else 'i') pctmem ++ [nul] := by
    intro euid stat ttynum pctmem
    split <;> rfl
  unfold format
  dsimp only
  rw [hstat, hpctmem, heuid, httynum, httympx]

/-- Such characters are read as an `int`, or not at all. -/
def IntChar (c : Char) : Prop := c = 'i' ∨ c = 'I'

/-- And these as a string. -/
def TextChar (c : Char) : Prop := c = 's' ∨ c = 'S'

/-- A turn writes one of the two. -/
theorem intChar_ite (b : Prop) [Decidable b] : IntChar (if b then 'I' else 'i') := by
  split
  · exact Or.inr rfl
  · exact Or.inl rfl

/-- For the strings as well. -/
theorem textChar_ite (b : Prop) [Decidable b] : TextChar (if b then 'S' else 's') := by
  split
  · exact Or.inr rfl
  · exact Or.inl rfl

section

variable {euid stat ttynum ttympx pctmem : Char} (heuid : IntChar euid) (hstat : TextChar stat)
  (httynum : IntChar ttynum) (httympx : IntChar ttympx) (hpctmem : TextChar pctmem)

include heuid hstat httynum httympx hpctmem

/-- The NUL is the one at the end. -/
theorem cstr_formatChars :
    cstr (formatChars euid stat ttynum ttympx pctmem ++ [nul]) =
      formatChars euid stat ttynum ttympx pctmem := by
  have hint : ∀ {c}, IntChar c → nul ≠ c := by
    intro c h
    rcases h with rfl | rfl <;> decide
  have htext : ∀ {c}, TextChar c → nul ≠ c := by
    intro c h
    rcases h with rfl | rfl <;> decide
  apply cstr_terminated
  unfold formatChars
  simp only [List.mem_append, List.mem_cons, not_or]
  exact ⟨⟨⟨⟨by decide, hint heuid, by decide⟩, htext hstat, by decide⟩, hint httynum, hint httympx,
    by decide⟩, htext hpctmem, by decide⟩

/-- Each character suits its argument. -/
theorem reads_formatChars (sys : System) (p : Procsinfo64) (utime stime : Int64) (s : Locals)
    (pctcpu cmndline : Mem) :
    (callRows (formatChars euid stat ttynum ttympx pctmem) Fields
      (args sys p utime stime s pctcpu cmndline)).all (fun row => reads row.char row.slot) =
        true := by
  have hint : ∀ {c}, IntChar c → ∀ upper x, reads c (half upper x) = true := by
    intro c h upper x
    rcases h with rfl | rfl <;> rfl
  have htext : ∀ {c}, TextChar c → ∀ m, reads c (.ptr (some m)) = true := by
    intro c h m
    rcases h with rfl | rfl <;> rfl
  have hall : (callRows (formatChars euid stat ttynum ttympx pctmem) Fields
      (args sys p utime stime s pctcpu cmndline)).all (fun row => reads row.char row.slot) =
        (reads euid (half (sys.upper 7) (orZero p.crUid).toUInt32) &&
          (reads stat (.ptr (some (state p))) &&
            (reads ttynum (half (sys.upper 27) (orZero p.piTtyd).toUInt32) &&
              (reads ttympx (half (sys.upper 28) (orZero p.piTtympx).toUInt32) &&
                (reads pctmem (.ptr (some (cleared PCT_LENGTH (AixGetprocs.pctmem sys p ++ [nul])))) &&
                  true))))) := rfl
  rw [hall, hint heuid, htext hstat, hint httynum, hint httympx, htext hpctmem]
  rfl

end

/-- **The call of a turn** is a row of names, characters and slots. -/
theorem call_rows (sys : System) (p : Procsinfo64) (s : Locals) (cmndline : Mem) :
    ∃ euid stat ttynum ttympx pctmem, (call sys p s cmndline).Rows
      (callRows (formatChars euid stat ttynum ttympx pctmem) Fields
        (args sys p (times sys p).1 (times sys p).2 s (pctcpu sys p) cmndline)) := by
  have heuid := intChar_ite (p.crUid = -1)
  have hstat := textChar_ite (p.piState.text = none)
  have httynum := intChar_ite (p.piTtyd = -1)
  have httympx := intChar_ite (p.piTtympx = -1)
  have hpctmem := textChar_ite (sys.memory = 0)
  refine ⟨_, _, _, _, _, BlessCall.rows_of ?_ rfl rfl
    (reads_formatChars heuid hstat httynum httympx hpctmem sys p _ _ s _ cmndline)⟩
  show cstr (format sys p) = _
  rw [format_eq]
  exact cstr_formatChars heuid hstat httynum httympx hpctmem

/-- A call makes one object, with the time of the children that it is given. -/
theorem call_object (sys : System) (p : Procsinfo64) (s : Locals) (cmndline : Mem)
    (ttydevs : Option HV) :
    (call sys p s cmndline).made ttydevs = ([(call sys p s cmndline).object ttydevs], none) ∧
      (call sys p s cmndline).object ttydevs "cutime" =
        some (newSVnv (s.cutime * 100).toUInt64.toInt64.toInt) := by
  obtain ⟨euid, stat, ttynum, ttympx, pctmem, hrows⟩ := call_rows sys p s cmndline
  refine ⟨hrows.made_object ttydevs, ?_⟩
  generalize times sys p = t, pctcpu sys p = pctcpu at hrows
  have hnodup : Fields.Nodup := by decide
  have hrow : (callRows (formatChars euid stat ttynum ttympx pctmem) Fields
      (args sys p t.1 t.2 s pctcpu cmndline))[21]? =
        some ⟨'l', "cutime", .word (s.cutime * 100).toUInt64⟩ := rfl
  exact hrows.object_at ttydevs hnodup hrow (show "cutime" ≠ "ttydev" by decide)

/-! ### The scan -/

section

variable (sys : System) (s : Locals) {e : Entry} (ttydevs : Option HV)

/-- A process that does not overflow is published. -/
theorem turn_published (hfits : ¬ e.Overflows sys) (hstate : e.info.piState ≠ .SNONE) :
    ∃ text, cmndline sys e = some text ∧ turn ttydevs (visit sys s e).2 =
      ([(call sys e.info (childTimes sys s e.info) text).object ttydevs], none) := by
  obtain ⟨text, htext, hcall⟩ := (visit_cases sys s e).2.2 hfits hstate
  refine ⟨text, htext, ?_⟩
  rw [hcall]
  exact turn_call (call_object sys e.info (childTimes sys s e.info) text ttydevs).1

/-- The others add nothing. -/
theorem turn_nothing (h : e.Overflows sys ∨ e.info.piState = .SNONE) :
    (turn ttydevs (visit sys s e).2).1 = [] := by
  rcases h with hover | hstate
  · rw [(visit_cases sys s e).1 hover]
    rfl
  · rw [(visit_cases sys s e).2.1 hstate]
    rfl

/-- A turn ends the scan when it overflows. -/
theorem turn_ends_iff : (turn ttydevs (visit sys s e).2).2 = none ↔ ¬ e.Overflows sys := by
  by_cases hover : e.Overflows sys
  · rw [(visit_cases sys s e).1 hover]
    exact iff_of_false (Option.some_ne_none _) (not_not_intro hover)
  · apply iff_of_true _ hover
    by_cases hstate : e.info.piState = .SNONE
    · rw [(visit_cases sys s e).2.1 hstate]
      rfl
    · obtain ⟨text, -, hturn⟩ := turn_published sys s ttydevs hover hstate
      rw [hturn]

/-- A scan goes through when no process overflows. -/
theorem scan_ends_iff (procs : List Entry) :
    (blessProcs sys procs s).ends ttydevs = none ↔ ∀ p ∈ procs, ¬ p.Overflows sys := by
  have hstep : ∀ (_ : List Entry) (s : Locals) (e : Entry), True →
      ((turn ttydevs (visit sys s e).2).2 = none ↔ ¬ e.Overflows sys) ∧
        (¬ e.Overflows sys → True) :=
    fun _ s e _ => ⟨turn_ends_iff sys s ttydevs, fun _ => trivial⟩
  have hscan := ends_none_iff (visit sys) (I := fun _ _ => True) (s := s) trivial hstep procs
  exact hscan.1

end

/-- **What a scan of the table publishes** comes from the blocks that were fetched, each
scanned by itself. -/
theorem mem_osGetTable {sys : System} {malloc : Bool} {blocks : List (List Entry × Locals)}
    {ttydevs : Option HV} {obj : HV} (h : obj ∈ (osGetTable sys malloc blocks).2.objects ttydevs) :
    ∃ block ∈ fetched blocks, obj ∈ (blessProcs sys block.1 block.2).objects ttydevs := by
  unfold osGetTable at h
  cases malloc with
  | false => exact absurd h List.not_mem_nil
  | true =>
      rw [if_pos rfl] at h
      generalize fetched blocks = all at h ⊢
      induction all with
      | nil => cases h
      | cons block rest ih =>
          rw [List.flatMap_cons] at h
          rcases Scan.mem_collect_append h with hfirst | hlater
          · exact ⟨block, List.mem_cons_self, hfirst⟩
          · obtain ⟨block', hblock, hobj⟩ := ih hlater
            exact ⟨block', List.mem_cons_of_mem _ hblock, hobj⟩

/-- **Behind which processes a process is published as it is alone**: if it is no zombie,
behind any. -/
theorem own_iff (sys : System) (pre : List Entry) (e : Entry) :
    OwnBehind (visit sys) id pre e ↔
      ((∀ p ∈ pre, ¬ p.Overflows sys) → ¬ e.Overflows sys → e.info.piState ≠ .SNONE →
        e.info.piState ≠ .SZOMB) := by
  rw [ownBehind_iff]
  constructor
  · intro hown hpre hfits hstate hzombie
    have hends := (scan_ends_iff sys ⟨0, 0⟩ none pre).mpr hpre
    have hsame := fun r' => hown none ⟨0, 0⟩ r' hends
    generalize CarriedState.after (visit sys) (id ⟨0, 0⟩) pre = s at hsame
    obtain ⟨text, -, hturn⟩ := turn_published sys s none hfits hstate
    have hcutime : ∀ r' : Locals, (call sys e.info (childTimes sys s e.info) text).object none
        "cutime" = some (newSVnv (r'.cutime * 100).toUInt64.toInt64.toInt) := by
      intro r'
      obtain ⟨text', -, hturn'⟩ := turn_published sys r' none hfits hstate
      have hequal := hsame r' _ (by rw [hturn]; exact List.mem_singleton_self _) _
        (by rw [id, hturn']; exact List.mem_singleton_self _)
      have hcarried : childTimes sys r' e.info = r' := if_pos hzombie
      rw [hequal, hcarried]
      exact (call_object sys e.info r' text' none).2
    have hboth := (hcutime ⟨0, 0⟩).symm.trans (hcutime ⟨1, 0⟩)
    have hne : some (newSVnv ((0 : Int64) * 100).toUInt64.toInt64.toInt) ≠
        some (newSVnv ((1 : Int64) * 100).toUInt64.toInt64.toInt) := by
      decide
    exact hne hboth
  · intro hcond ttydevs r r' hends obj hobj obj' hobj'
    have hpre := (scan_ends_iff sys r ttydevs pre).mp hends
    generalize CarriedState.after (visit sys) (id r) pre = s at hobj
    by_cases hnothing : e.Overflows sys ∨ e.info.piState = .SNONE
    · rw [turn_nothing sys s ttydevs hnothing] at hobj
      exact absurd hobj List.not_mem_nil
    · rw [not_or] at hnothing
      obtain ⟨hfits, hstate⟩ := hnothing
      have hzombie := hcond hpre hfits hstate
      obtain ⟨text, htext, hturn⟩ := turn_published sys s ttydevs hfits hstate
      obtain ⟨text', htext', hturn'⟩ := turn_published sys r' ttydevs hfits hstate
      obtain rfl := Option.some.inj (htext.symm.trans htext')
      have hset : childTimes sys s e.info = childTimes sys r' e.info := by
        unfold childTimes
        rw [if_neg hzombie, if_neg hzombie]
      rw [hturn] at hobj
      rw [id, hturn'] at hobj'
      rw [List.mem_singleton.mp hobj, List.mem_singleton.mp hobj', hset]

/-- **A whole scan**: every object comes from a process of a block that was fetched, and unless
that is a zombie it is the object that the process gets alone. -/
theorem osGetTable_own {sys : System} {malloc : Bool} {blocks : List (List Entry × Locals)}
    {ttydevs : Option HV} {obj : HV} (h : obj ∈ (osGetTable sys malloc blocks).2.objects ttydevs) :
    ∃ block ∈ fetched blocks, ∃ pre e post, block.1 = pre ++ e :: post ∧
      obj ∈ addedBy (visit sys) ttydevs block.2 pre e ∧
      (e.info.piState ≠ .SZOMB → ∀ residue, ∀ obj' ∈ addedBy (visit sys) ttydevs residue [] e,
        obj = obj') := by
  obtain ⟨block, hblock, hobj⟩ := mem_osGetTable h
  obtain ⟨pre, e, post, hsplit, hadded⟩ := (mem_objects (visit sys) ttydevs block.2 block.1 obj).mp hobj
  refine ⟨block, hblock, pre, e, post, hsplit, hadded, fun hzombie residue => ?_⟩
  exact (own_iff sys pre e).mpr (fun _ _ _ => hzombie) ttydevs block.2 residue obj hadded

/-- **The rows of a block** are those of processes that do not overflow and are no zombies,
so far as they are processes at all. -/
theorem publishedAsAlone_iff (sys : System) (pre : List Entry) (e : Entry) :
    PublishedAsAlone (fun residue procs => blessProcs sys procs residue) pre e ↔
      (∀ p ∈ pre ++ [e], ¬ p.Overflows sys) ∧
        (e.info.piState ≠ .SNONE → e.info.piState ≠ .SZOMB) := by
  have hloop := publishedAsAlone_loop_iff (visit sys) id pre e
  have hends : (∀ ttydevs (r : Locals), (loopScan (visit sys) (id r) (pre ++ [e])).ends ttydevs =
      none) ↔ ∀ p ∈ pre ++ [e], ¬ p.Overflows sys := by
    constructor
    · exact fun hall => (scan_ends_iff sys ⟨0, 0⟩ none _).mp (hall _ _)
    · exact fun hfits ttydevs r => (scan_ends_iff sys r ttydevs _).mpr hfits
  rw [hends, own_iff] at hloop
  refine hloop.trans (and_congr_right fun hfits => ?_)
  rw [List.forall_mem_append, List.forall_mem_singleton] at hfits
  exact ⟨fun hown => hown hfits.1 hfits.2, fun hown _ _ => hown⟩

/-- **Where a process is published as it is alone**, on both ports.  On aix.c it never is, as
the copy of the format leaves its array; the second part is about arrays with room for it. -/
theorem rows_own_iff (aix : Aix.System) (pre : List Aix.Entry) (e : Aix.Entry) (sys : System)
    (pre' : List Entry) (e' : Entry) :
    ¬ PublishedAsAlone (Aix.osGetTable aix) pre e ∧
      (∀ size, (Aix.Fullformat ++ [nul]).length ≤ size →
        (PublishedAsAlone (Aix.osGetTableIn size aix) pre e ↔
          (∀ p ∈ (pre ++ [e]).take Aix.MAX_PROCS, ¬ p.Overflows aix) ∧
            (pre.length < Aix.MAX_PROCS → e.info.piStat ≠ .SNONE → Aix.OwnValues aix pre e))) ∧
      (PublishedAsAlone (fun residue procs => blessProcs sys procs residue) pre' e' ↔
        (∀ p ∈ pre' ++ [e'], ¬ p.Overflows sys) ∧
          (e'.info.piState ≠ .SNONE → e'.info.piState ≠ .SZOMB)) :=
  ⟨Aix.not_publishedAsAlone aix pre e, fun _ hsize => Aix.publishedAsAlone_iff aix hsize pre e,
    publishedAsAlone_iff sys pre' e'⟩

/-- A system with small arrays. -/
def samplePort : Aix.System where
  MAXARGLN := 16
  SKPROC := 2
  PageSize := 4096
  Sysmem := 1048576
  printPointer _ := "f1000".toList
  hundredths _ := 0
  printPctcpu _ _ _ := "0.00".toList
  printPctmem _ := "0.00".toList
  MAXARGLN_pos := by decide

/-- A process in some state, waiting. -/
def waiting (piStat : PiStat) : Aix.Entry where
  info := ⟨1, 0, 0, 0, 0, 0, 60, 20, 0, piStat, 0, some 0xf1000, 0, 0, 0, 0, 0, 0, 1⟩
  user := some ⟨"init".toList ++ [nul], 0, 0, 0, 0, ⟨0, 0⟩, ⟨0, 0⟩, ⟨0, 0⟩, ⟨0, 0⟩, 0, 0, 0, 0, 0,
    0, 0⟩
  args := none

/-- A system for the other port. -/
def sampleSystem : System where
  ARG_MAX := 16
  SKPROC := 2
  pagesize := 4096
  memory := 1048576
  seconds t := t.tvSec
  printPctcpu _ _ := "0.00".toList
  printPctmem _ := "0.00".toList
  upper _ := 0

/-- A process in some state, with the time of its children. -/
def parent (piState : PiStat) (seconds : Int64) : Entry where
  info := ⟨1, 0, 0, 0, 0, 0, 0, 0, 0, 0, 60, 20, 1, piState, 0, 0, 0, 0, 0, 0, 0, ⟨0, 0⟩, ⟨0, 0⟩,
    ⟨seconds, 0⟩, ⟨0, 0⟩, 0, 1, 1, 0, 0, 0, 0, 0, 0, "init".toList ++ [nul]⟩
  args := none

/-- What the arrays of aix.c may hold on entry. -/
def sampleResidue : Aix.Locals samplePort :=
  ⟨[], [], [], Aix.uniform _ nul, Aix.uniform _ nul⟩

/-- **Rows with values of others**: aix.c writes behind its format before it gets to a
process, and in an array two bytes larger a process that sleeps has no state behind one in a
state that the switch does not know; on aix_getprocs.c a zombie has the time of the children
of the process in front of it. -/
theorem values_of_others :
    (Aix.osGetTable samplePort sampleResidue [waiting .SSLEEP]).ends none = some .overflow ∧
      (((Aix.osGetTableIn 36 samplePort sampleResidue [waiting .SSLEEP]).objects none).map
        fun obj => obj "stat") = [some (.pv "sleep".toList)] ∧
      (((Aix.osGetTableIn 36 samplePort sampleResidue
        [waiting (.other 9), waiting .SSLEEP]).objects none).map
          fun obj => obj "stat") = [some .undef, some .undef] ∧
      (((blessProcs sampleSystem [parent .SZOMB 0] ⟨0, 0⟩).objects none).map
        fun obj => obj "cutime") = [some (.nv 0)] ∧
      (((blessProcs sampleSystem [parent .SACTIVE 5, parent .SZOMB 0] ⟨0, 0⟩).objects none).map
        fun obj => obj "cutime") = [some (.nv 500), some (.nv 500)] := by
  decide

end AixGetprocs
