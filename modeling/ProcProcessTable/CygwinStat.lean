import ProcProcessTable.LinuxStatRecord

/-!
# The stat record on Cygwin

`os/Cygwin.c` is a copy of `os/Linux.c` that has gone its own way.  Its
`get_proc_stat` converts 23 values behind the command name where the Linux port
converts 33, reads `cutime` by a signed conversion where the Linux port reads it
by an unsigned one, and keeps the command name in a larger buffer.

`scanStat_agree` compares the two on every stat text both can read: they store
the same record, `cutime` on the condition that its number is one of a
`long long`.
-/

namespace Cygwin

open CText Scanf

/-- The members of `struct procstat` that `get_proc_stat` sets. -/
structure Scraped where
  pid : Int32
  comm : Mem
  stateC : Char
  ppid : Int32
  pgrp : Int32
  sid : Int32
  tty : Int32
  flags : UInt32
  minflt : UInt64
  cminflt : UInt64
  majflt : UInt64
  cmajflt : UInt64
  utime : UInt64
  stime : UInt64
  cutime : Int64
  cstime : Int64
  priority : Int64
  startTime : UInt64
  vsize : UInt64
  rss : Int64

/-- `NAME_MAX`, the size of `comm`. -/
def NAME_MAX : Nat := 255

/-- The record as `bzero` leaves it. -/
def Scraped.zero : Scraped where
  pid := 0
  comm := List.replicate NAME_MAX nul
  stateC := nul
  ppid := 0
  pgrp := 0
  sid := 0
  tty := 0
  flags := 0
  minflt := 0
  cminflt := 0
  majflt := 0
  cmajflt := 0
  utime := 0
  stime := 0
  cutime := 0
  cstime := 0
  priority := 0
  startTime := 0
  vsize := 0
  rss := 0

/-- The first scan. -/
def pidFormat : List Directive := directives "%d (".toList

/-- The second scan, 23 conversions. -/
def statFormat : List Directive :=
  directives
    (" %c" ++ " %d" ++ " %d" ++ " %d" ++ " %d" ++ " %d" ++ " %u" ++
      " %lu" ++ " %lu" ++ " %lu" ++ " %lu" ++ " %llu" ++ " %llu" ++ " %lld" ++ " %lld" ++
      " %ld" ++ " %ld" ++ " %ld" ++ " %d" ++ " %llu" ++ " %lu" ++ " %ld" ++ " %ld").toList

/-- The pointer the first scan stores through. -/
def pidTargets : List (Target Scraped) :=
  [Target.int fun v p => { p with pid := Int32.ofInt v }]

/-- The pointers the second scan stores through, in order. -/
def statTargets : List (Target Scraped) :=
  [Target.chr fun c p => { p with stateC := c },
   Target.int fun v p => { p with ppid := Int32.ofInt v },
   Target.int fun v p => { p with pgrp := Int32.ofInt v },
   Target.int fun v p => { p with sid := Int32.ofInt v },
   Target.int fun v p => { p with tty := Int32.ofInt v },
   Target.dummy,
   Target.int fun v p => { p with flags := UInt32.ofInt v },
   Target.int fun v p => { p with minflt := UInt64.ofInt v },
   Target.int fun v p => { p with cminflt := UInt64.ofInt v },
   Target.int fun v p => { p with majflt := UInt64.ofInt v },
   Target.int fun v p => { p with cmajflt := UInt64.ofInt v },
   Target.int fun v p => { p with utime := UInt64.ofInt v },
   Target.int fun v p => { p with stime := UInt64.ofInt v },
   Target.int fun v p => { p with cutime := Int64.ofInt v },
   Target.int fun v p => { p with cstime := Int64.ofInt v },
   Target.int fun v p => { p with priority := Int64.ofInt v },
   Target.dummy, Target.dummy, Target.dummy,
   Target.int fun v p => { p with startTime := UInt64.ofInt v },
   Target.int fun v p => { p with vsize := UInt64.ofInt v },
   Target.int fun v p => { p with rss := Int64.ofInt v },
   Target.dummy]

/-- What the scan of a stat text leaves: the text, the return value, whether
the flags were lowered, and the record. -/
structure StatScan where
  text : Mem
  readOk : Bool
  enabled : Bool
  prs : Scraped

/-- Copy the command name, as far as `int comm_len` says. -/
def copyComm (prs : Scraped) (name : Mem) (length : Int) : Scraped :=
  let commEsize : Nat := NAME_MAX - 1
  let commLen := (Int32.ofInt length).toInt
  let commLen := if (commEsize : Int) < commLen then (commEsize : Int) else commLen
  if 0 < commLen then
    { prs with comm := (overwrite prs.comm 0 (strncpy name commEsize)).set commEsize nul }
  else prs

/-- `get_proc_stat` between reading the text and releasing it. -/
def scanStat (statText : Mem) (prs : Scraped) : StatScan :=
  let vals := sscanf statText pidFormat
  let prs := assign pidTargets vals prs
  -- this exit leaves read_ok as it was initialised
  if vals.length ≠ 1 then ⟨statText, true, false, prs⟩
  else
    match strrchr statText ')' with
    | none => ⟨statText, false, false, prs⟩
    | some closeParen =>
        let statText := statText.set closeParen nul
        match strchr statText '(' with
        | none => ⟨statText, false, false, prs⟩
        | some openParen =>
            let prs := copyComm prs (statText.drop (openParen + 1))
              ((closeParen : Int) - openParen - 1)
            let vals := sscanf (statText.drop (closeParen + 1)) statFormat
            let prs := assign statTargets vals prs
            if vals.length ≠ 23 then ⟨statText, false, false, prs⟩
            else ⟨statText, true, true, prs⟩

/-- A stat text with an integer process id, a command name in parentheses, and
at least 33 fields behind it.  The numbers are decimal tokens of any size, with
any white space between them; `more` is what follows the 33rd field. -/
structure StatText where
  lead : List Char
  pid : DecimalToken
  gap : List Char
  comm : List Char
  stateBlank : List Char
  stateC : Char
  ppid : SpacedToken
  pgrp : SpacedToken
  sid : SpacedToken
  tty : SpacedToken
  ttyPgid : SpacedToken
  flags : SpacedToken
  minflt : SpacedToken
  cminflt : SpacedToken
  majflt : SpacedToken
  cmajflt : SpacedToken
  utime : SpacedToken
  stime : SpacedToken
  cutime : SpacedToken
  cstime : SpacedToken
  priority : SpacedToken
  nice : SpacedToken
  numThreads : SpacedToken
  itrealvalue : SpacedToken
  startTime : SpacedToken
  vsize : SpacedToken
  rss : SpacedToken
  rsslim : SpacedToken
  startCode : SpacedToken
  endCode : SpacedToken
  startStack : SpacedToken
  esp : SpacedToken
  eip : SpacedToken
  pending : SpacedToken
  blocked : SpacedToken
  sigign : SpacedToken
  sigcatch : SpacedToken
  wchan : SpacedToken
  more : List Char
  lead_isSpace : ∀ c ∈ lead, isSpace c = true
  gap_ends : EndsNumber gap
  gap_plain : nul ∉ gap ∧ '(' ∉ gap
  comm_nulFree : nul ∉ comm
  stateBlank_isSpace : ∀ c ∈ stateBlank, isSpace c = true
  stateC_plain : isSpace stateC = false ∧ stateC ≠ nul ∧ stateC ≠ ')'
  more_ends : EndsNumber more
  more_plain : nul ∉ more ∧ ')' ∉ more

namespace StatText

variable (t : StatText)

/-- The numbers both ports convert. -/
def shared : List SpacedToken :=
  [t.ppid, t.pgrp, t.sid, t.tty, t.ttyPgid, t.flags, t.minflt, t.cminflt, t.majflt, t.cmajflt,
   t.utime, t.stime, t.cutime, t.cstime, t.priority, t.nice, t.numThreads, t.itrealvalue,
   t.startTime, t.vsize, t.rss, t.rsslim]

/-- The numbers the Linux port converts besides. -/
def further : List SpacedToken :=
  [t.startCode, t.endCode, t.startStack, t.esp, t.eip, t.pending, t.blocked, t.sigign, t.sigcatch,
   t.wchan]

/-- The text before the opening parenthesis. -/
def pidText : List Char := t.lead ++ (t.pid.text ++ t.gap)

/-- The text before the closing parenthesis. -/
def head : List Char := t.pidText ++ '(' :: t.comm

/-- The text behind the closing parenthesis. -/
def tail : List Char :=
  t.stateBlank ++ t.stateC :: ((t.shared ++ t.further).flatMap SpacedToken.text ++ t.more)

/-- The text. -/
def text : List Char := t.head ++ ')' :: t.tail

/-- The number of `cutime` is one of a `long long`. -/
def CutimeFits : Prop :=
  -2 ^ 63 ≤ (if t.cutime.token.neg then -(t.cutime.token.magnitude : Int)
    else t.cutime.token.magnitude) ∧
  (if t.cutime.token.neg then -(t.cutime.token.magnitude : Int)
    else t.cutime.token.magnitude) < 2 ^ 63

variable {t}

/-- A byte that is no white space and in no number, and is neither the state nor
behind the 33rd field, is not in the tail. -/
theorem not_mem_tail {c : Char} (hstate : t.stateC ≠ c) (hmore : c ∉ t.more)
    (hspace : isSpace c = false) (hnumber : ¬ (c = '-' ∨ c = '+' ∨ c.isDigit = true)) :
    c ∉ t.tail := by
  intro h
  rcases List.mem_append.mp h with h | h
  · have hblank := t.stateBlank_isSpace c h
    rw [hspace] at hblank
    exact Bool.noConfusion hblank
  · rcases List.mem_cons.mp h with h | h
    · exact hstate h.symm
    · rcases List.mem_append.mp h with h | h
      · obtain ⟨token, _, htoken⟩ := List.mem_flatMap.mp h
        rcases SpacedToken.mem_text htoken with hblank | hnum
        · rw [hspace] at hblank
          exact Bool.noConfusion hblank
        · exact hnumber hnum
      · exact hmore h

variable (t)

/-- The string ends behind the tail. -/
theorem nul_not_mem_tail : nul ∉ t.tail :=
  not_mem_tail t.stateC_plain.2.1 t.more_plain.1 (by decide) (by decide)

/-- The last closing parenthesis is in front of it. -/
theorem close_not_mem_tail : ')' ∉ t.tail :=
  not_mem_tail t.stateC_plain.2.2 t.more_plain.2 (by decide) (by decide)

/-- What is neither blank nor part of a number is not in front of the name. -/
theorem not_mem_pidText {c : Char} (hspace : isSpace c = false)
    (hnumber : ¬ (c = '-' ∨ c = '+' ∨ c.isDigit = true)) (hgap : c ∉ t.gap) : c ∉ t.pidText := by
  intro h
  rcases List.mem_append.mp h with h | h
  · have hblank := t.lead_isSpace c h
    rw [hspace] at hblank
    exact Bool.noConfusion hblank
  · rcases List.mem_append.mp h with h | h
    · exact hnumber (DecimalToken.mem_text h)
    · exact hgap h

/-- The first opening parenthesis is that of the name. -/
theorem open_not_mem_pidText : '(' ∉ t.pidText :=
  t.not_mem_pidText (by decide) (by decide) t.gap_plain.2

/-- The string does not end in front of the tail. -/
theorem nul_not_mem_head : nul ∉ t.head := by
  rw [head, List.mem_append, List.mem_cons, not_or, not_or]
  exact ⟨t.not_mem_pidText (by decide) (by decide) t.gap_plain.1, by decide, t.comm_nulFree⟩

/-- Nor inside the text. -/
theorem nul_not_mem_text : nul ∉ t.text := by
  rw [text, List.mem_append, List.mem_cons, not_or, not_or]
  exact ⟨t.nul_not_mem_head, by decide, t.nul_not_mem_tail⟩

section

variable (junk : Mem)

/-- The first scan reads the number in front of the command name. -/
theorem sscanf_pid : sscanf (t.text ++ nul :: junk) pidFormat =
    [.num (Conv.d.value t.pid.neg t.pid.magnitude)] := by
  have htext : t.text = t.lead ++ (t.pid.text ++ (t.gap ++ '(' :: (t.comm ++ ')' :: t.tail))) := by
    simp only [text, head, pidText, List.append_assoc, List.cons_append]
  have hend : EndsNumber (t.gap ++ '(' :: (t.comm ++ ')' :: t.tail)) := by
    intro c hc
    cases hgap : t.gap with
    | nil =>
        rw [hgap] at hc
        obtain rfl : '(' = c := Option.some.inj hc
        rfl
    | cons g gap =>
        rw [hgap] at hc
        obtain rfl : g = c := Option.some.inj hc
        exact t.gap_ends g (by rw [hgap]; rfl)
  have hnumber := scan_number_token .d [.space, .lit '('] t.pid hend
  have hblank : scan [.number .d, .space, .lit '('] t.text =
      scan [.number .d, .space, .lit '(']
        (t.pid.text ++ (t.gap ++ '(' :: (t.comm ++ ')' :: t.tail))) := by
    rw [htext, scan, scan, List.dropWhile_append_of_pos t.lead_isSpace]
  have hrest := scan_space_lit '(' (t.gap ++ '(' :: (t.comm ++ ')' :: t.tail))
  rw [sscanf, cstr_terminated t.nul_not_mem_text]
  refine Eq.trans ?_ (hblank.trans (hnumber.trans (congrArg (List.cons _) hrest)))
  exact congrArg (scan · t.text) Linux.pidFormat_eq

/-- The last closing parenthesis ends the command name. -/
theorem strrchr_close : strrchr (t.text ++ nul :: junk) ')' = some t.head.length := by
  rw [strrchr, cstr_terminated t.nul_not_mem_text, text]
  exact lastIdx?_append_cons t.close_not_mem_tail

/-- The NUL in its place cuts the text in two. -/
theorem set_close : (t.text ++ nul :: junk).set t.head.length nul =
    t.head ++ nul :: (t.tail ++ nul :: junk) := by
  rw [text, List.append_assoc]
  exact set_split t.head (t.tail ++ nul :: junk) ')' nul

/-- The first opening parenthesis starts it. -/
theorem strchr_open (rest : Mem) : strchr (t.head ++ nul :: rest) '(' = some t.pidText.length := by
  rw [strchr, cstr_terminated t.nul_not_mem_head]
  exact findIdx?_append_cons t.open_not_mem_pidText

/-- The name stands behind it. -/
theorem drop_open (rest : Mem) : (t.head ++ nul :: rest).drop (t.pidText.length + 1) =
    t.comm ++ nul :: rest := by
  rw [head, List.append_assoc]
  exact drop_split t.pidText (t.comm ++ nul :: rest) '('

/-- The length that is computed from the two places. -/
theorem comm_length : (t.head.length : Int) - t.pidText.length - 1 = t.comm.length := by
  rw [head, List.length_append, List.length_cons]
  omega

/-- A scan of the state and a row of numbers takes the numbers one after the
other, whatever stands behind the last. -/
theorem sscanf_tail {ks : List Conv} {taken rest : List SpacedToken}
    (hsplit : t.shared ++ t.further = taken ++ rest) (hlen : ks.length = taken.length) :
    sscanf (t.tail ++ nul :: junk) (.space :: .char :: spaced ks) =
      .chr t.stateC :: (ks.zip taken).map fun it => .num (it.2.value it.1) := by
  have hmore : EndsNumber (rest.flatMap SpacedToken.text ++ t.more) :=
    endsNumber_spacedRow rest t.more_ends
  have hrow := scan_spacedTokens (ks.zip taken) hmore
  rw [List.map_fst_zip (Nat.le_of_eq hlen), List.map_snd_zip (Nat.le_of_eq hlen.symm)] at hrow
  have hstate : (t.stateBlank ++ t.stateC ::
      ((t.shared ++ t.further).flatMap SpacedToken.text ++ t.more)).dropWhile isSpace =
      t.stateC :: ((t.shared ++ t.further).flatMap SpacedToken.text ++ t.more) := by
    rw [List.dropWhile_append_of_pos t.stateBlank_isSpace, List.dropWhile_cons,
      if_neg (by rw [t.stateC_plain.1]; exact Bool.false_ne_true)]
  rw [sscanf, cstr_terminated t.nul_not_mem_tail, tail, scan, hstate, scan, hsplit,
    List.flatMap_append, List.append_assoc, hrow]

end

end StatText

/-- Both ports store the same record, but for `cutime`; the command name is the
same string in the two buffers. -/
structure Agree (p : Linux.Scraped) (p' : Scraped) : Prop where
  pid : p.pid = p'.pid
  comm : cstr p.comm = cstr p'.comm
  stateC : p.stateC = p'.stateC
  ppid : p.ppid = p'.ppid
  pgrp : p.pgrp = p'.pgrp
  sid : p.sid = p'.sid
  tty : p.tty = p'.tty
  flags : p.flags = p'.flags
  minflt : p.minflt = p'.minflt
  cminflt : p.cminflt = p'.cminflt
  majflt : p.majflt = p'.majflt
  cmajflt : p.cmajflt = p'.cmajflt
  utime : p.utime = p'.utime
  stime : p.stime = p'.stime
  cstime : p.cstime = p'.cstime
  priority : p.priority = p'.priority
  startTime : p.startTime = p'.startTime
  vsize : p.vsize = p'.vsize
  rss : p.rss = p'.rss

/-- The conversions of the second scan behind the state. -/
def statConvs : List Conv :=
  [.d, .d, .d, .d, .d, .u, .lu, .lu, .lu, .lu, .llu, .llu, .lld, .lld, .ld, .ld, .ld, .d, .llu, .lu,
   .ld, .ld]

/-- The second scan reads a state and a row of numbers. -/
theorem statFormat_eq : statFormat = .space :: .char :: spaced statConvs := by
  decide +kernel

/-- The command name is copied when its length is positive. -/
theorem copyComm_eq (prs : Scraped) (name : Mem) (length : Int) :
    copyComm prs name length =
      if 0 < (Int32.ofInt length).toInt then
        { prs with comm := (overwrite prs.comm 0 (strncpy name 254)).set 254 nul }
      else prs := by
  have hclip := Linux.clip_pos (by decide : (0 : Int) < 254) (Int32.ofInt length).toInt
  by_cases hpos : 0 < (Int32.ofInt length).toInt
  · rw [if_pos hpos]
    exact if_pos (hclip.mpr hpos)
  · rw [if_neg hpos]
    exact if_neg fun h => hpos (hclip.mp h)

/-- A conversion of `cutime` into a signed member: by way of `strtoul` on the one
port and of `strtol` on the other. -/
theorem ofInt_strtoul_eq_strtol_iff (neg : Bool) (n : Nat) :
    Int64.ofInt (strtoul neg n) = Int64.ofInt (strtol neg n) ↔
      -2 ^ 63 ≤ (if neg then -(n : Int) else n) ∧ (if neg then -(n : Int) else n) < 2 ^ 63 := by
  have hwrap : Int64.ofInt (strtoul neg n) = Int64.ofInt (strtol neg n) ↔
      (strtoul neg n - strtol neg n) % 2 ^ 64 = 0 := by
    have hsize : Int64.size = 2 ^ 64 := rfl
    rw [← Int64.toInt_inj, Int64.toInt_ofInt, Int64.toInt_ofInt, hsize, Int.bmod, Int.bmod]
    split <;> split <;> omega
  rw [hwrap]
  unfold strtoul strtol
  cases neg
  · simp only [Bool.false_eq_true, if_false]
    split <;> omega
  · simp only [if_true]
    split <;> omega

namespace StatText

variable (t : StatText) (junk : Mem)

/-- The values the Linux port scans behind the command name. -/
def linuxVals : List Value :=
  .chr t.stateC :: (Linux.statConvs.zip (t.shared ++ t.further)).map fun it =>
    .num (it.2.value it.1)

/-- The values the Cygwin port scans. -/
def cygwinVals : List Value :=
  .chr t.stateC :: (statConvs.zip t.shared).map fun it => .num (it.2.value it.1)

/-- The members the Linux port sets from the text, behind the command name. -/
def storeLinux (p : Linux.Scraped) : Linux.Scraped :=
  { p with
    stateC := t.stateC
    ppid := Int32.ofInt (t.ppid.value .d)
    pgrp := Int32.ofInt (t.pgrp.value .d)
    sid := Int32.ofInt (t.sid.value .d)
    tty := Int32.ofInt (t.tty.value .d)
    flags := UInt32.ofInt (t.flags.value .u)
    minflt := UInt64.ofInt (t.minflt.value .lu)
    cminflt := UInt64.ofInt (t.cminflt.value .lu)
    majflt := UInt64.ofInt (t.majflt.value .lu)
    cmajflt := UInt64.ofInt (t.cmajflt.value .lu)
    utime := UInt64.ofInt (t.utime.value .llu)
    stime := UInt64.ofInt (t.stime.value .llu)
    cutime := Int64.ofInt (t.cutime.value .llu)
    cstime := Int64.ofInt (t.cstime.value .lld)
    priority := Int64.ofInt (t.priority.value .ld)
    startTime := UInt64.ofInt (t.startTime.value .llu)
    vsize := UInt64.ofInt (t.vsize.value .lu)
    rss := Int64.ofInt (t.rss.value .ld)
    wchan := UInt64.ofInt (t.wchan.value .lu) }

/-- What the pointer list of the Linux port makes of the numbers. -/
theorem assign_linux (p : Linux.Scraped) :
    assign Linux.statTargets t.linuxVals p = t.storeLinux p := by
  simp only [assign, Linux.statTargets, linuxVals, Linux.statConvs, shared, further,
    List.cons_append, List.nil_append, List.map_cons, List.map_nil, List.zip_cons_cons,
    List.zip_nil_right, List.foldl_cons, List.foldl_nil, Target.int, Target.chr, Target.dummy]
  rfl

/-- The members the Cygwin port sets from the text, behind the command name. -/
def storeCygwin (p : Scraped) : Scraped :=
  { p with
    stateC := t.stateC
    ppid := Int32.ofInt (t.ppid.value .d)
    pgrp := Int32.ofInt (t.pgrp.value .d)
    sid := Int32.ofInt (t.sid.value .d)
    tty := Int32.ofInt (t.tty.value .d)
    flags := UInt32.ofInt (t.flags.value .u)
    minflt := UInt64.ofInt (t.minflt.value .lu)
    cminflt := UInt64.ofInt (t.cminflt.value .lu)
    majflt := UInt64.ofInt (t.majflt.value .lu)
    cmajflt := UInt64.ofInt (t.cmajflt.value .lu)
    utime := UInt64.ofInt (t.utime.value .llu)
    stime := UInt64.ofInt (t.stime.value .llu)
    cutime := Int64.ofInt (t.cutime.value .lld)
    cstime := Int64.ofInt (t.cstime.value .lld)
    priority := Int64.ofInt (t.priority.value .ld)
    startTime := UInt64.ofInt (t.startTime.value .llu)
    vsize := UInt64.ofInt (t.vsize.value .lu)
    rss := Int64.ofInt (t.rss.value .ld) }

/-- And that of the Cygwin port. -/
theorem assign_cygwin (p : Scraped) : assign statTargets t.cygwinVals p = t.storeCygwin p := by
  simp only [assign, statTargets, cygwinVals, statConvs, shared, List.map_cons, List.map_nil,
    List.zip_cons_cons, List.zip_nil_right, List.foldl_cons, List.foldl_nil, Target.int, Target.chr,
    Target.dummy]
  rfl

/-- The two pointer lists put the same values into the same members, but for
`cutime`. -/
theorem store_agree {p : Linux.Scraped} {p' : Scraped} (hpid : p.pid = p'.pid)
    (hcomm : cstr p.comm = cstr p'.comm) : Agree (t.storeLinux p) (t.storeCygwin p') where
  pid := hpid
  comm := hcomm
  stateC := rfl
  ppid := rfl
  pgrp := rfl
  sid := rfl
  tty := rfl
  flags := rfl
  minflt := rfl
  cminflt := rfl
  majflt := rfl
  cmajflt := rfl
  utime := rfl
  stime := rfl
  cstime := rfl
  priority := rfl
  startTime := rfl
  vsize := rfl
  rss := rfl

/-- The one member the ports convert differently. -/
theorem store_cutime (p : Linux.Scraped) (p' : Scraped) :
    (t.storeLinux p).cutime = (t.storeCygwin p').cutime ↔ t.CutimeFits :=
  ofInt_strtoul_eq_strtol_iff t.cutime.token.neg t.cutime.token.magnitude

/-- The record with the process id the first scan stores. -/
def pidLinux (p : Linux.Scraped) : Linux.Scraped :=
  { p with pid := Int32.ofInt (Conv.d.value t.pid.neg t.pid.magnitude) }

/-- The record with the process id the first scan stores. -/
def pidCygwin (p : Scraped) : Scraped :=
  { p with pid := Int32.ofInt (Conv.d.value t.pid.neg t.pid.magnitude) }

/-- What the Linux port makes of the text. -/
theorem scanStat_linux (p : Linux.Scraped) :
    let out := Linux.scanStat (t.text ++ nul :: junk) p
    out.readOk = true ∧ out.prs = t.storeLinux (Linux.copyComm (t.pidLinux p)
      (t.comm ++ nul :: (t.tail ++ nul :: junk)) t.comm.length) := by
  have hpid : sscanf (t.text ++ nul :: junk) Linux.pidFormat = _ := t.sscanf_pid junk
  have hstore : assign Linux.pidTargets [.num (Conv.d.value t.pid.neg t.pid.magnitude)] p =
      t.pidLinux p := rfl
  have htail := t.sscanf_tail junk (List.append_nil _).symm
    (show Linux.statConvs.length = (t.shared ++ t.further).length from rfl)
  unfold Linux.scanStat
  simp only [hpid, hstore, t.strrchr_close, List.length_singleton, ne_eq, not_true_eq_false,
    if_false, t.set_close, t.strchr_open, t.drop_open, drop_split, t.comm_length,
    Linux.statFormat_eq, htail]
  exact ⟨rfl, t.assign_linux _⟩

/-- What the Cygwin port makes of the text. -/
theorem scanStat_cygwin (p : Scraped) :
    let out := scanStat (t.text ++ nul :: junk) p
    out.readOk = true ∧ out.prs = t.storeCygwin (copyComm (t.pidCygwin p)
      (t.comm ++ nul :: (t.tail ++ nul :: junk)) t.comm.length) := by
  have hstore : assign pidTargets [.num (Conv.d.value t.pid.neg t.pid.magnitude)] p =
      t.pidCygwin p := rfl
  have htail := t.sscanf_tail junk rfl (show statConvs.length = t.shared.length from rfl)
  unfold scanStat
  simp only [t.sscanf_pid, hstore, t.strrchr_close, List.length_singleton, ne_eq,
    not_true_eq_false, if_false, t.set_close, t.strchr_open, t.drop_open, drop_split,
    t.comm_length, statFormat_eq, htail]
  exact ⟨rfl, t.assign_cygwin _⟩

variable {t}

/-- A short name has a length that an `int` holds. -/
theorem comm_length_toInt (hshort : t.comm.length ≤ 15) :
    (Int32.ofInt t.comm.length).toInt = t.comm.length := by
  have hsize : Int32.size = 2 ^ 32 := rfl
  rw [Int32.toInt_ofInt, hsize, Int.bmod]
  split <;> omega

/-- The name in the buffer of the Linux port. -/
theorem cstr_copyComm_linux (hshort : t.comm.length ≤ 15) {p : Linux.Scraped}
    (hzero : p.comm = List.replicate Linux.sizeofComm nul) (rest : Mem) :
    cstr (Linux.copyComm p (t.comm ++ nul :: rest) t.comm.length).comm = t.comm := by
  rw [Linux.copyComm_eq, comm_length_toInt hshort]
  split
  · rw [hzero]
    exact cstr_copy t.comm_nulFree rest hshort
  · have hnil : t.comm = [] := List.length_eq_zero_iff.mp (by omega)
    rw [hzero, hnil]
    rfl

/-- The name in the buffer of the Cygwin port. -/
theorem cstr_copyComm_cygwin (hshort : t.comm.length ≤ 15) {p : Scraped}
    (hzero : p.comm = List.replicate NAME_MAX nul) (rest : Mem) :
    cstr (copyComm p (t.comm ++ nul :: rest) t.comm.length).comm = t.comm := by
  rw [copyComm_eq, comm_length_toInt hshort]
  split
  · rw [hzero]
    exact cstr_copy t.comm_nulFree rest (Nat.le_trans hshort (by decide))
  · have hnil : t.comm = [] := List.length_eq_zero_iff.mp (by omega)
    rw [hzero, hnil]
    rfl

end StatText

/-- The name is copied behind the pid. -/
theorem copyComm_pid (prs : Scraped) (name : Mem) (length : Int) :
    (copyComm prs name length).pid = prs.pid := by
  rw [copyComm_eq]
  split <;> rfl

/-- In both ports. -/
theorem linux_copyComm_pid (prs : Linux.Scraped) (name : Mem) (length : Int) :
    (Linux.copyComm prs name length).pid = prs.pid := by
  rw [Linux.copyComm_eq]
  split <;> rfl

/-- **The two ports read a stat text alike.**  On records whose command name was
cleared, as each `OS_get_table` clears it, both return true and agree on every
member; on `cutime` they agree exactly when its number is one of a
`long long`, which is what both headers declare it to be. -/
theorem scanStat_agree (t : StatText) (hshort : t.comm.length ≤ 15) {p : Linux.Scraped}
    (hp : p.comm = List.replicate Linux.sizeofComm nul) {p' : Scraped}
    (hp' : p'.comm = List.replicate NAME_MAX nul) (junk junk' : Mem) :
    let out := Linux.scanStat (t.text ++ nul :: junk) p
    let out' := scanStat (t.text ++ nul :: junk') p'
    out.readOk = true ∧ out'.readOk = true ∧ Agree out.prs out'.prs ∧
      cstr out.prs.comm = t.comm ∧ (out.prs.cutime = out'.prs.cutime ↔ t.CutimeFits) := by
  obtain ⟨hok, hprs⟩ := t.scanStat_linux junk p
  obtain ⟨hok', hprs'⟩ := t.scanStat_cygwin junk' p'
  have hname := StatText.cstr_copyComm_linux hshort (show (t.pidLinux p).comm = _ from hp)
    (t.tail ++ nul :: junk)
  have hname' := StatText.cstr_copyComm_cygwin hshort (show (t.pidCygwin p').comm = _ from hp')
    (t.tail ++ nul :: junk')
  have hpid : (Linux.copyComm (t.pidLinux p) (t.comm ++ nul :: (t.tail ++ nul :: junk))
      t.comm.length).pid = (copyComm (t.pidCygwin p') (t.comm ++ nul :: (t.tail ++ nul :: junk'))
      t.comm.length).pid := by
    rw [linux_copyComm_pid, copyComm_pid]
    rfl
  dsimp only
  rw [hprs, hprs']
  exact ⟨hok, hok', t.store_agree hpid (hname.trans hname'.symm), hname, t.store_cutime _ _⟩

/-- A number behind a blank. -/
def blankNumber (x : Int) : SpacedToken := .ofToken (.ofInt x)

/-- The stat text of a process that waited for children of negative run time. -/
def sampleText : StatText where
  lead := []
  pid := .ofInt 4242
  gap := [' ']
  comm := "a) R (b".toList
  stateBlank := [' ']
  stateC := 'S'
  ppid := blankNumber 1
  pgrp := blankNumber 4242
  sid := blankNumber 4242
  tty := blankNumber 0
  ttyPgid := blankNumber (-1)
  flags := blankNumber 4194560
  minflt := blankNumber 7
  cminflt := blankNumber 0
  majflt := blankNumber 0
  cmajflt := blankNumber 0
  utime := blankNumber 3
  stime := blankNumber 2
  cutime := blankNumber (-5)
  cstime := blankNumber (-1)
  priority := blankNumber 20
  nice := blankNumber 0
  numThreads := blankNumber 1
  itrealvalue := blankNumber 0
  startTime := blankNumber 9001
  vsize := blankNumber 1048576
  rss := blankNumber 99
  rsslim := blankNumber (2 ^ 64 - 1)
  startCode := blankNumber 1
  endCode := blankNumber 1
  startStack := blankNumber 0
  esp := blankNumber 0
  eip := blankNumber 0
  pending := blankNumber 0
  blocked := blankNumber 0
  sigign := blankNumber 0
  sigcatch := blankNumber 0
  wchan := blankNumber 0
  more := "\n".toList
  lead_isSpace := List.forall_mem_nil _
  gap_ends := by
    intro c hc
    obtain rfl := Option.some.inj hc
    rfl
  gap_plain := by decide
  comm_nulFree := by decide
  stateBlank_isSpace := forall_mem_blank_isSpace
  stateC_plain := by decide
  more_ends := by
    intro c hc
    obtain rfl := Option.some.inj hc
    rfl
  more_plain := by decide

/-- The two ports on the sample. -/
theorem scanStat_agree_sample :
    let out := Linux.scanStat (sampleText.text ++ nul :: []) .zero
    let out' := scanStat (sampleText.text ++ nul :: []) .zero
    out.readOk = true ∧ out'.readOk = true ∧ Agree out.prs out'.prs ∧
      cstr out.prs.comm = sampleText.comm ∧
      (out.prs.cutime = out'.prs.cutime ↔ sampleText.CutimeFits) :=
  scanStat_agree sampleText (by decide) rfl rfl [] []

end Cygwin
