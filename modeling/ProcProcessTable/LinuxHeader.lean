import ProcProcessTable.CText

/-!
# os/Linux.h

The data of the Linux port: the string table with its index, the field and
state enumerations, and `struct procstat`.

`struct procstat` is split in two.  `Scraped` holds the members that are values;
`Procstat π` adds the five pointers into the memory pool.  The type `π` of a
pool pointer is a parameter: the code's own record has heights of pool objects
there, the row it stands for has the texts themselves.
-/

namespace Linux

open CText

/-- `enum state`. -/
inductive State
  | sleep | wait | run | idle | defunct | stop | uwait | dead | wakekill | tracingstop | parked
  deriving DecidableEq, Repr

/-- `enum field`. -/
inductive Field
  | uid | gid | pid | fname | ppid | pgrp | sess | ttynum | flags | minflt | cminflt | majflt
  | cmajflt | utime | stime | cutime | cstime | priority | start | size | rss | wchan | time
  | ctime | state | euid | suid | fuid | egid | sgid | fgid | pctcpu | pctmem | cmndline | exec
  | cwd | cmdline | environ | tracer
  deriving DecidableEq, Repr

/-- The numbers behind the enumerators. -/
abbrev State.idx (s : State) : Nat := s.ctorIdx

abbrev Field.idx (f : Field) : Nat := f.ctorIdx

/-- The fields in the order of their numbers. -/
def Field.all : List Field :=
  [.uid, .gid, .pid, .fname, .ppid, .pgrp, .sess, .ttynum, .flags, .minflt, .cminflt, .majflt,
   .cmajflt, .utime, .stime, .cutime, .cstime, .priority, .start, .size, .rss, .wchan, .time,
   .ctime, .state, .euid, .suid, .fuid, .egid, .sgid, .fgid, .pctcpu, .pctmem, .cmndline, .exec,
   .cwd, .cmdline, .environ, .tracer]

/-- The place of a field in the list is its number. -/
theorem Field.all_getElem? (f : Field) : Field.all[f.idx]? = some f := by
  cases f <;> rfl

/-- There is a place for each. -/
theorem Field.idx_lt (f : Field) : f.idx < Field.all.length :=
  (List.getElem?_eq_some_iff.mp f.all_getElem?).1

/-- And each has its own. -/
theorem Field.idx_injective {f g : Field} (h : f.idx = g.idx) : f = g := by
  have hf := f.all_getElem?
  rw [h, g.all_getElem?] at hf
  exact (Option.some.inj hf).symm

/-- Every index below the number of fields is a field's. -/
theorem Field.exists_idx {i : Nat} (h : i < Field.all.length) : ∃ f : Field, f.idx = i := by
  have hall : ∀ i, i < Field.all.length → ((Field.all[i]?).map Field.idx) = some i := by decide
  obtain ⟨f, _, hf⟩ := Option.map_eq_some_iff.mp (hall i h)
  exact ⟨f, hf⟩

/-- The words of `strings`, in order: process states, error messages, field
names, the format string. -/
def stringWords : List String :=
  ["sleep", "wait", "run", "idle", "defunct", "stop", "uwait", "dead", "wakekill", "tracingstop",
   "/proc unavailable", "intilization failed",
   "uid", "gid", "pid", "fname", "ppid", "pgrp", "sess", "ttynum", "flags", "minflt", "cminflt",
   "majflt", "cmajflt", "utime", "stime", "cutime", "cstime", "priority", "start", "size", "rss",
   "wchan", "time", "ctime", "state", "euid", "suid", "fuid", "egid", "sgid", "fgid", "pctcpu",
   "pctmem", "cmndline", "exec", "cwd", "cmdline", "environ", "tracer",
   "IIISIIIILLLLLJJJJIJPLLJJSIIIIIISSSSSAAI"]

/-- `strings`: the words, each with its NUL, and the NUL of the literal. -/
def strings : Mem := (stringWords.flatMap fun w => w.toList ++ [nul]) ++ [nul]

/-- `strings_index`. -/
def stringsIndex : List Nat :=
  [0, 6, 11, 15, 20, 28, 33, 39, 44, 53,
   65, 83,
   103, 107, 111, 115, 121, 126, 131, 136, 143, 149, 156, 164, 171, 179, 185, 191, 198, 205, 214,
   220, 225, 229, 235, 240, 246, 252, 257, 262, 267, 272, 277, 282, 289, 296, 305, 310, 314, 322,
   330,
   337]

/-- The entries of `enum string_name` that are used by name. -/
def STR_ERR_PROC_STATFS : Nat := 10
def STR_ERR_INIT : Nat := 11
def STR_DEFAULT_FORMAT : Nat := 51

/-- `field_names`, as offsets into `strings`. -/
def fieldNames : List Nat :=
  [103, 107, 111, 115, 121, 126, 131, 136, 143, 149, 156, 164, 171, 179, 185, 191, 198, 205, 214,
   220, 225, 229, 235, 240, 246, 252, 257, 262, 267, 272, 277, 282, 289, 296, 305, 310, 314, 322,
   330]

/-- `get_string`: the offset of a word in `strings`. -/
def getString (elem : Nat) : Nat := stringsIndex.getD elem 0

/-- The bytes at an offset of `strings`. -/
def stringAt (off : Nat) : Mem := strings.drop off

/-- The names `field_names` points to. -/
def fieldKeys : List String := fieldNames.map fun off => String.ofList (cstr (stringAt off))

/-- The default format, before any field is enabled. -/
def defaultFormat : List Char := cstr (stringAt (getString STR_DEFAULT_FORMAT))

/-- The name of a field. -/
def Field.name (f : Field) : String := fieldKeys.getD f.idx ""

/-- The format character of a field that is not enabled. -/
def Field.spec (f : Field) : Char := defaultFormat.getD f.idx nul

/-- The names in the order of `Linux.h`. -/
theorem fieldKeys_eq :
    fieldKeys = ["uid", "gid", "pid", "fname", "ppid", "pgrp", "sess", "ttynum", "flags", "minflt",
      "cminflt", "majflt", "cmajflt", "utime", "stime", "cutime", "cstime", "priority", "start",
      "size", "rss", "wchan", "time", "ctime", "state", "euid", "suid", "fuid", "egid", "sgid",
      "fgid", "pctcpu", "pctmem", "cmndline", "exec", "cwd", "cmdline", "environ", "tracer"] := by
  decide +kernel

/-- The characters in the same order, all of them capital. -/
theorem defaultFormat_eq :
    defaultFormat = ['I', 'I', 'I', 'S', 'I', 'I', 'I', 'I', 'L', 'L', 'L', 'L', 'L', 'J', 'J',
      'J', 'J', 'I', 'J', 'P', 'L', 'L', 'J', 'J', 'S', 'I', 'I', 'I', 'I', 'I', 'I', 'S', 'S',
      'S', 'S', 'S', 'A', 'A', 'I'] := by
  decide +kernel

/-- The table's rows line up: each field has its own name and its own format
character. -/
theorem fieldKeys_eq_map : fieldKeys = Field.all.map Field.name := by
  unfold Field.name
  rw [fieldKeys_eq]
  rfl

/-- Field by field. -/
theorem defaultFormat_eq_map : defaultFormat = Field.all.map Field.spec := by
  unfold Field.spec
  rw [defaultFormat_eq]
  rfl

/-- The value members of `struct procstat`. -/
structure Scraped where
  uid : Int32
  gid : Int32
  pid : Int32
  comm : Mem
  stateC : Char
  ppid : Int32
  pgrp : Int32
  sid : Int32
  tracer : Int32
  tty : Int32
  flags : UInt32
  minflt : UInt64
  cminflt : UInt64
  majflt : UInt64
  cmajflt : UInt64
  utime : UInt64
  stime : UInt64
  cutime : Int64
  cstime : Int64
  priority : Int64
  startTime : UInt64
  vsize : UInt64
  rss : Int64
  wchan : UInt64
  time : UInt64
  ctime : UInt64
  /-- offset into `strings` -/
  state : Option Nat
  euid : Int32
  suid : Int32
  fuid : Int32
  egid : Int32
  sgid : Int32
  fgid : Int32
  cmdlineLen : Int32
  environLen : Int32
  pctcpu : Mem
  pctmem : Mem

/-- `struct procstat`. -/
structure Procstat (π : Type) extends Scraped where
  cwd : Option π
  cmndline : Option π
  cmdline : Option π
  environ : Option π
  exec : Option π

/-- The sizes of the character arrays. -/
def sizeofComm : Nat := 16
def LENGTH_PCTCPU : Nat := 10
def sizeofPctmem : Nat := 7

/-- What `bzero` leaves in the value members. -/
def Scraped.zero : Scraped where
  uid := 0
  gid := 0
  pid := 0
  comm := List.replicate sizeofComm nul
  stateC := nul
  ppid := 0
  pgrp := 0
  sid := 0
  tracer := 0
  tty := 0
  flags := 0
  minflt := 0
  cminflt := 0
  majflt := 0
  cmajflt := 0
  utime := 0
  stime := 0
  cutime := 0
  cstime := 0
  priority := 0
  startTime := 0
  vsize := 0
  rss := 0
  wchan := 0
  time := 0
  ctime := 0
  state := none
  euid := 0
  suid := 0
  fuid := 0
  egid := 0
  sgid := 0
  fgid := 0
  cmdlineLen := 0
  environLen := 0
  pctcpu := List.replicate LENGTH_PCTCPU nul
  pctmem := List.replicate sizeofPctmem nul

/-- What `bzero` leaves in the record. -/
def Procstat.zero {π : Type} : Procstat π :=
  { Scraped.zero with cwd := none, cmndline := none, cmdline := none, environ := none, exec := none }

/-- The pool pointers of a record that are not NULL. -/
def Procstat.pointers {π : Type} (p : Procstat π) : List π :=
  [p.cwd, p.cmndline, p.cmdline, p.environ, p.exec].filterMap id

/-- The static variables of the port, as the one-time initialisation leaves
them. -/
structure Globals where
  bootTime : Int64
  pageSize : UInt32
  systemMemory : UInt64
  systemHertz : UInt32

/-- The floating-point results of the port, as functions of the operands: the
two instances of `JIFFIES_TO_MICROSECONDS` converted back to the type of their
target, and the texts printed with `%6.2f` and `%3.2f`. -/
structure FloatOps where
  jiffiesUnsigned : UInt64 → UInt32 → UInt64
  jiffiesSigned : Int64 → UInt32 → Int64
  /-- `utime + stime` and the elapsed time, both as the C expression has them -/
  pctcpuText : UInt64 → UInt64 → List Char
  /-- `rss` and `system_memory` -/
  pctmemText : Int64 → UInt64 → List Char

end Linux
