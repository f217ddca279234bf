import ProcProcessTable.LinuxHeader
import ProcProcessTable.Scanf

/-!
# The stat record

`/proc/<pid>/stat` is one line, `pid (comm) S n n n ...`.  The command name is
chosen by the process and stands in the line unescaped, so `get_proc_stat`
cuts the text at the first `(` and the last `)` and scans 33 values behind the
latter.  `scanStat` is that part of the function, from the text to the members
it sets.

A `ProcessRecord` is a record as the kernel has it and `render` the line it
prints.  `scanStat_render` says what scanning that line leaves: every member,
and the command name as far as the `int` that holds its length allows.
-/

namespace Linux

open CText Scanf

/-- The first scan: `"%d ("`. -/
def pidFormat : List Directive := directives "%d (".toList

/-- The second scan, 33 conversions. -/
def statFormat : List Directive :=
  directives
    (" %c" ++ " %d" ++ " %d" ++ " %d" ++ " %d" ++ " %d" ++ " %u" ++
      " %lu" ++ " %lu" ++ " %lu" ++ " %lu" ++ " %llu" ++ " %llu" ++ " %llu" ++ " %lld" ++
      " %ld" ++ " %ld" ++ " %ld" ++ " %d" ++ " %llu" ++ " %lu" ++ " %ld" ++ " %ld" ++
      " %lu" ++ " %lu" ++ " %lu" ++ " %lu" ++ " %lu" ++ " %lu" ++ " %lu" ++ " %lu" ++ " %lu" ++
      " %lu").toList

/-- The pointer the first scan stores through. -/
def pidTargets : List (Target Scraped) :=
  [Target.int fun v p => { p with pid := Int32.ofInt v }]

/-- The pointers the second scan stores through, in order. -/
def statTargets : List (Target Scraped) :=
  [Target.chr fun c p => { p with stateC := c },
   Target.int fun v p => { p with ppid := Int32.ofInt v },
   Target.int fun v p => { p with pgrp := Int32.ofInt v },
   Target.int fun v p => { p with sid := Int32.ofInt v },
   Target.int fun v p => { p with tty := Int32.ofInt v },
   Target.dummy,
   Target.int fun v p => { p with flags := UInt32.ofInt v },
   Target.int fun v p => { p with minflt := UInt64.ofInt v },
   Target.int fun v p => { p with cminflt := UInt64.ofInt v },
   Target.int fun v p => { p with majflt := UInt64.ofInt v },
   Target.int fun v p => { p with cmajflt := UInt64.ofInt v },
   Target.int fun v p => { p with utime := UInt64.ofInt v },
   Target.int fun v p => { p with stime := UInt64.ofInt v },
   Target.int fun v p => { p with cutime := Int64.ofInt v },
   Target.int fun v p => { p with cstime := Int64.ofInt v },
   Target.int fun v p => { p with priority := Int64.ofInt v },
   Target.dummy, Target.dummy, Target.dummy,
   Target.int fun v p => { p with startTime := UInt64.ofInt v },
   Target.int fun v p => { p with vsize := UInt64.ofInt v },
   Target.int fun v p => { p with rss := Int64.ofInt v },
   Target.dummy,
   Target.dummy, Target.dummy,
   Target.dummy,
   Target.dummy, Target.dummy,
   Target.dummy, Target.dummy, Target.dummy, Target.dummy,
   Target.int fun v p => { p with wchan := UInt64.ofInt v }]

/-- What the scan of a stat text leaves: the text, the return value, whether
the flags were lowered, and the record. -/
structure StatScan where
  text : Mem
  readOk : Bool
  enabled : Bool
  prs : Scraped

/-- Copy the command name, as far as `int comm_len` says. -/
def copyComm (prs : Scraped) (name : Mem) (length : Int) : Scraped :=
  let commEsize : Nat := sizeofComm - 1
  let commLen := (Int32.ofInt length).toInt
  let commLen := if (commEsize : Int) < commLen then (commEsize : Int) else commLen
  if 0 < commLen then
    { prs with comm := (overwrite prs.comm 0 (strncpy name commEsize)).set commEsize nul }
  else prs

/-- `get_proc_stat` between reading the text and releasing it. -/
def scanStat (statText : Mem) (prs : Scraped) : StatScan :=
  let vals := sscanf statText pidFormat
  let prs := assign pidTargets vals prs
  -- this exit leaves read_ok as it was initialised
  if vals.length ≠ 1 then ⟨statText, true, false, prs⟩
  else
    match strrchr statText ')' with
    | none => ⟨statText, false, false, prs⟩
    | some closeParen =>
        let statText := statText.set closeParen nul
        match strchr statText '(' with
        | none => ⟨statText, false, false, prs⟩
        | some openParen =>
            let prs := copyComm prs (statText.drop (openParen + 1))
              ((closeParen : Int) - openParen - 1)
            let vals := sscanf (statText.drop (closeParen + 1)) statFormat
            let prs := assign statTargets vals prs
            if vals.length ≠ 33 then ⟨statText, false, false, prs⟩
            else ⟨statText, true, true, prs⟩

/-- The scan returns what it stores as a function of the string alone. -/
def StatScan.SameResult (a b : StatScan) : Prop :=
  a.readOk = b.readOk ∧ a.enabled = b.enabled ∧ a.prs = b.prs

/-- What is copied of a string ends with it. -/
theorem strncpy_congr {m m' : Mem} (h : cstr m = cstr m') (n : Nat) :
    strncpy m n = strncpy m' n := by
  rw [strncpy, strncpy, h]

/-- **The stat text is read as a string**: what lies behind its NUL has no
influence on the record. -/
theorem scanStat_congr {m m' : Mem} (h : cstr m = cstr m') (prs : Scraped) :
    (scanStat m prs).SameResult (scanStat m' prs) := by
  have hpid : sscanf m pidFormat = sscanf m' pidFormat := by rw [sscanf, sscanf, h]
  have hclose : strrchr m ')' = strrchr m' ')' := by rw [strrchr, strrchr, h]
  have hlen : strlen m = strlen m' := by rw [strlen, strlen, h]
  unfold scanStat
  rw [hpid, hclose]
  by_cases hone : (sscanf m' pidFormat).length ≠ 1
  · rw [if_pos hone, if_pos hone]
    exact ⟨rfl, rfl, rfl⟩
  · rw [if_neg hone, if_neg hone]
    cases hcp : strrchr m' ')' with
    | none => exact ⟨rfl, rfl, rfl⟩
    | some closeParen =>
        have hlt' : closeParen < strlen m' := lastIdx?_lt hcp
        have hlt : closeParen < strlen m := hlen ▸ hlt'
        have hset : cstr (m.set closeParen nul) = cstr (m'.set closeParen nul) := by
          rw [cstr_set_nul hlt, cstr_set_nul hlt', h]
        have hopen : strchr (m.set closeParen nul) '(' = strchr (m'.set closeParen nul) '(' := by
          rw [strchr, strchr, hset]
        have hrest : cstr ((m.set closeParen nul).drop (closeParen + 1)) =
            cstr ((m'.set closeParen nul).drop (closeParen + 1)) := by
          rw [List.drop_set_of_lt (Nat.lt_succ_self _), List.drop_set_of_lt (Nat.lt_succ_self _),
            cstr_drop hlt, cstr_drop hlt', h]
        simp only [hopen]
        cases hop : strchr (m'.set closeParen nul) '(' with
        | none => exact ⟨rfl, rfl, rfl⟩
        | some openParen =>
            have hin : openParen + 1 ≤ strlen (m'.set closeParen nul) := by
              obtain ⟨hk, _⟩ := List.findIdx?_eq_some_iff_getElem.mp hop
              exact hk
            have hin0 : openParen + 1 ≤ strlen (m.set closeParen nul) := by
              rw [strlen, hset]
              exact hin
            have hname : cstr ((m.set closeParen nul).drop (openParen + 1)) =
                cstr ((m'.set closeParen nul).drop (openParen + 1)) := by
              rw [cstr_drop hin0, cstr_drop hin, hset]
            have hcopy : ∀ p len, copyComm p ((m.set closeParen nul).drop (openParen + 1)) len =
                copyComm p ((m'.set closeParen nul).drop (openParen + 1)) len := by
              intro p len
              simp only [copyComm, strncpy_congr hname]
            have hvals : sscanf ((m.set closeParen nul).drop (closeParen + 1)) statFormat =
                sscanf ((m'.set closeParen nul).drop (closeParen + 1)) statFormat := by
              rw [sscanf, sscanf, hrest]
            simp only [hcopy, hvals]
            split <;> exact ⟨rfl, rfl, rfl⟩

/-- Clipping a length to a buffer does not change whether it is positive. -/
theorem clip_pos {n : Int} (hn : 0 < n) (x : Int) : 0 < (if n < x then n else x) ↔ 0 < x := by
  split <;> omega

/-- The command name is copied when its length is positive. -/
theorem copyComm_eq (prs : Scraped) (name : Mem) (length : Int) :
    copyComm prs name length =
      if 0 < (Int32.ofInt length).toInt then
        { prs with comm := (overwrite prs.comm 0 (strncpy name 15)).set 15 nul }
      else prs := by
  have hclip := clip_pos (by decide : (0 : Int) < 15) (Int32.ofInt length).toInt
  by_cases hpos : 0 < (Int32.ofInt length).toInt
  · rw [if_pos hpos]
    exact if_pos (hclip.mpr hpos)
  · rw [if_neg hpos]
    exact if_neg fun h => hpos (hclip.mp h)

/-- The copy fills the buffer: 15 bytes, and the terminator behind them. -/
theorem copyComm_stored {prs : Scraped} (hsize : prs.comm.length = sizeofComm) (name : Mem)
    {length : Int} (hpos : 0 < (Int32.ofInt length).toInt) :
    copyComm prs name length = { prs with comm := strncpy name 15 ++ [nul] } := by
  have hlen : (strncpy name 15).length = 15 := length_strncpy name 15
  obtain ⟨last, hlast⟩ : ∃ last, prs.comm.drop 15 = [last] := by
    apply List.length_eq_one_iff.mp
    rw [List.length_drop, hsize]
    rfl
  have hstore : overwrite prs.comm 0 (strncpy name 15) = strncpy name 15 ++ [last] := by
    rw [overwrite, hlen, List.take_zero, List.nil_append, hlast]
  have hset := set_split (strncpy name 15) [] last nul
  rw [hlen] at hset
  rw [copyComm_eq, if_pos hpos, hstore, hset]

/-- The copy of the command name, on a cleared buffer. -/
theorem copyComm_zero {prs : Scraped} (hzero : prs.comm = List.replicate sizeofComm nul)
    {comm : List Char} (hfree : nul ∉ comm) (rest : Mem) :
    copyComm prs (comm ++ nul :: rest) comm.length =
      if 0 < (Int32.ofInt comm.length).toInt then
        { prs with comm := comm.take 15 ++ List.replicate (16 - (comm.take 15).length) nul }
      else prs := by
  by_cases hpos : 0 < (Int32.ofInt comm.length).toInt
  · have hname : strncpy (comm ++ nul :: rest) 15 ++ [nul] =
        comm.take 15 ++ List.replicate (16 - (comm.take 15).length) nul := by
      rw [strncpy, cstr_terminated hfree, List.append_assoc, ← List.replicate_succ',
        List.length_take]
      congr 2
      omega
    rw [if_pos hpos, copyComm_stored (by rw [hzero, List.length_replicate]) _ hpos, hname]
  · rw [copyComm_eq, if_neg hpos, if_neg hpos]

/-- One process as the kernel has it.  The fields that are scanned into a
dummy are decimal tokens of any size; `more` is what follows the last field
that is scanned. -/
structure ProcessRecord where
  pid : Int32
  comm : List Char
  stateC : Char
  ppid : Int32
  pgrp : Int32
  sid : Int32
  tty : Int32
  ttyPgid : DecimalToken
  flags : UInt32
  minflt : UInt64
  cminflt : UInt64
  majflt : UInt64
  cmajflt : UInt64
  utime : UInt64
  stime : UInt64
  cutime : Int64
  cstime : Int64
  priority : Int64
  nice : DecimalToken
  numThreads : DecimalToken
  itrealvalue : DecimalToken
  startTime : UInt64
  vsize : UInt64
  rss : Int64
  rsslim : DecimalToken
  startCode : DecimalToken
  endCode : DecimalToken
  startStack : DecimalToken
  esp : DecimalToken
  eip : DecimalToken
  pending : DecimalToken
  blocked : DecimalToken
  sigign : DecimalToken
  sigcatch : DecimalToken
  wchan : UInt64
  more : List Char
  comm_nulFree : nul ∉ comm
  stateC_isAlpha : stateC.isAlpha = true
  more_ends : EndsNumber more
  more_plain : nul ∉ more ∧ ')' ∉ more

namespace ProcessRecord

/-- The numbers behind the state, each with the conversion that reads it. -/
def items (r : ProcessRecord) : List (Conv × DecimalToken) :=
  [(.d, .ofInt r.ppid.toInt), (.d, .ofInt r.pgrp.toInt), (.d, .ofInt r.sid.toInt),
   (.d, .ofInt r.tty.toInt), (.d, r.ttyPgid), (.u, .ofInt r.flags.toNat),
   (.lu, .ofInt r.minflt.toNat), (.lu, .ofInt r.cminflt.toNat), (.lu, .ofInt r.majflt.toNat),
   (.lu, .ofInt r.cmajflt.toNat), (.llu, .ofInt r.utime.toNat), (.llu, .ofInt r.stime.toNat),
   (.llu, .ofInt r.cutime.toInt), (.lld, .ofInt r.cstime.toInt), (.ld, .ofInt r.priority.toInt),
   (.ld, r.nice), (.ld, r.numThreads), (.d, r.itrealvalue), (.llu, .ofInt r.startTime.toNat),
   (.lu, .ofInt r.vsize.toNat), (.ld, .ofInt r.rss.toInt), (.ld, r.rsslim), (.lu, r.startCode),
   (.lu, r.endCode), (.lu, r.startStack), (.lu, r.esp), (.lu, r.eip), (.lu, r.pending),
   (.lu, r.blocked), (.lu, r.sigign), (.lu, r.sigcatch), (.lu, .ofInt r.wchan.toNat)]

/-- The text before the closing parenthesis. -/
def head (r : ProcessRecord) : List Char :=
  ((DecimalToken.ofInt r.pid.toInt).text ++ [' ']) ++ '(' :: r.comm

/-- The text behind the closing parenthesis. -/
def tail (r : ProcessRecord) : List Char :=
  ' ' :: r.stateC :: (row (r.items.map Prod.snd) ++ r.more)

/-- The line the kernel prints. -/
def render (r : ProcessRecord) : List Char := r.head ++ ')' :: r.tail

/-- The members the record determines, the command name cut to its first 15
bytes. -/
def store (r : ProcessRecord) (prs : Scraped) : Scraped :=
  { prs with
    pid := r.pid
    comm := r.comm.take 15 ++ List.replicate (16 - (r.comm.take 15).length) nul
    stateC := r.stateC
    ppid := r.ppid
    pgrp := r.pgrp
    sid := r.sid
    tty := r.tty
    flags := r.flags
    minflt := r.minflt
    cminflt := r.cminflt
    majflt := r.majflt
    cmajflt := r.cmajflt
    utime := r.utime
    stime := r.stime
    cutime := r.cutime
    cstime := r.cstime
    priority := r.priority
    startTime := r.startTime
    vsize := r.vsize
    rss := r.rss
    wchan := r.wchan }

end ProcessRecord

/-- The conversions of the second scan behind the state. -/
def statConvs : List Conv :=
  [.d, .d, .d, .d, .d, .u, .lu, .lu, .lu, .lu, .llu, .llu, .llu, .lld, .ld, .ld, .ld, .d, .llu, .lu,
   .ld, .ld, .lu, .lu, .lu, .lu, .lu, .lu, .lu, .lu, .lu, .lu]

/-- The long format is a blank, the state and a row of numbers. -/
theorem statFormat_eq : statFormat = .space :: .char :: spaced statConvs := by
  decide +kernel

/-- The short one is a number and the parenthesis. -/
theorem pidFormat_eq : pidFormat = [.number .d, .space, .lit '('] := by
  decide +kernel

namespace ProcessRecord

variable (r : ProcessRecord)

/-- The numbers of a record stand in the order of the format. -/
theorem items_fst : r.items.map Prod.fst = statConvs := rfl

/-- A character of a token row is a blank or part of a number. -/
theorem mem_row {ts : List DecimalToken} {c : Char} (h : c ∈ row ts) :
    c = ' ' ∨ c = '-' ∨ c = '+' ∨ c.isDigit = true := by
  obtain ⟨t, _, ht⟩ := List.mem_flatMap.mp h
  rcases List.mem_cons.mp ht with rfl | ht
  · exact Or.inl rfl
  · exact Or.inr (DecimalToken.mem_text ht)

/-- A byte that is no blank, no letter, and in no number is not in the tail. -/
theorem not_mem_tail {c : Char} (hmore : c ∉ r.more) (halpha : c.isAlpha = false)
    (hrow : ¬ (c = ' ' ∨ c = '-' ∨ c = '+' ∨ c.isDigit = true)) : c ∉ r.tail := by
  intro h
  rw [tail, List.mem_cons, List.mem_cons, List.mem_append] at h
  rcases h with rfl | rfl | h | h
  · exact hrow (Or.inl rfl)
  · rw [r.stateC_isAlpha] at halpha
    exact Bool.noConfusion halpha
  · exact hrow (mem_row h)
  · exact hmore h

/-- **What the searches of the scanner find**: no NUL behind the name, -/
theorem nul_not_mem_tail : nul ∉ r.tail :=
  r.not_mem_tail r.more_plain.1 (by decide) (by decide)

/-- no parenthesis that closes behind it, -/
theorem close_not_mem_tail : ')' ∉ r.tail :=
  r.not_mem_tail r.more_plain.2 (by decide) (by decide)

/-- The text before the opening parenthesis. -/
def pidText : List Char := (DecimalToken.ofInt r.pid.toInt).text ++ [' ']

theorem head_eq : r.head = r.pidText ++ '(' :: r.comm := rfl

/-- and nothing but a number and a blank in front of it. -/
theorem not_mem_pidText {c : Char} (h : ¬ (c = ' ' ∨ c = '-' ∨ c = '+' ∨ c.isDigit = true)) :
    c ∉ r.pidText := by
  intro hc
  rcases List.mem_append.mp hc with hc | hc
  · exact h (Or.inr (DecimalToken.mem_text hc))
  · exact h (Or.inl (List.mem_singleton.mp hc))

/-- The string does not end before the tail. -/
theorem nul_not_mem_head : nul ∉ r.head := by
  rw [head_eq, List.mem_append, List.mem_cons, not_or, not_or]
  exact ⟨r.not_mem_pidText (by decide), by decide, r.comm_nulFree⟩

/-- Nor anywhere in the record. -/
theorem nul_not_mem_render : nul ∉ r.render := by
  rw [render, List.mem_append, List.mem_cons, not_or, not_or]
  exact ⟨r.nul_not_mem_head, by decide, r.nul_not_mem_tail⟩

/-- What stands behind the NUL is not read. -/
theorem cstr_render (junk : Mem) : cstr (r.render ++ nul :: junk) = cstr r.render := by
  rw [cstr_terminated r.nul_not_mem_render, cstr_of_nulFree r.nul_not_mem_render]

/-- The first scan reads the number before the command name. -/
theorem sscanf_pid : sscanf r.render pidFormat = [.num r.pid.toInt] := by
  have hlo := Int32.le_toInt r.pid
  have hhi := Int32.toInt_lt r.pid
  have hrender : r.render =
      (DecimalToken.ofInt r.pid.toInt).text ++ (' ' :: '(' :: (r.comm ++ ')' :: r.tail)) := by
    simp [render, head]
  have hend : EndsNumber (' ' :: '(' :: (r.comm ++ ')' :: r.tail)) := by
    intro c hc
    rw [List.head?_cons, Option.mem_some] at hc
    rw [← hc]
    rfl
  have hval : strtol (decide (r.pid.toInt < 0)) r.pid.toInt.natAbs = r.pid.toInt :=
    strtol_ofInt (by omega) (by omega)
  have hblank : isSpace ' ' = true ∧ isSpace '(' = false := by decide
  rw [sscanf, cstr_of_nulFree r.nul_not_mem_render, pidFormat_eq, hrender,
    scan_number_token .d _ _ hend]
  simp [Conv.value, hval, scan, hblank]

/-- The last closing parenthesis ends the command name. -/
theorem strrchr_close : strrchr r.render ')' = some r.head.length := by
  rw [strrchr, cstr_of_nulFree r.nul_not_mem_render, render]
  exact lastIdx?_append_cons r.close_not_mem_tail

/-- The NUL over the parenthesis cuts the record in two. -/
theorem set_close : r.render.set r.head.length nul = r.head ++ nul :: r.tail := by
  rw [render]
  exact set_split r.head r.tail ')' nul

/-- The first opening parenthesis starts it. -/
theorem strchr_open : strchr (r.head ++ nul :: r.tail) '(' = some r.pidText.length := by
  rw [strchr, cstr_terminated r.nul_not_mem_head, head_eq]
  exact findIdx?_append_cons (r.not_mem_pidText (by decide))

/-- Behind the other parenthesis stands the name. -/
theorem drop_open : (r.head ++ nul :: r.tail).drop (r.pidText.length + 1) =
    r.comm ++ nul :: r.tail := by
  rw [head_eq, List.append_assoc]
  exact drop_split r.pidText (r.comm ++ nul :: r.tail) '('

/-- The length of the name is computed from the two places. -/
theorem comm_length : ((r.head.length : Int) - r.pidText.length - 1) = r.comm.length := by
  rw [head_eq, List.length_append, List.length_cons]
  omega

/-- The second scan converts every number of the tail. -/
theorem sscanf_tail : sscanf r.tail statFormat =
    .chr r.stateC :: r.items.map fun it => .num (it.1.value it.2.neg it.2.magnitude) := by
  have hrow := scan_tokens r.items r.more_ends
  have hblank : isSpace ' ' = true := by decide
  have hstate : isSpace r.stateC = false := by
    have h65 : 65 ≤ r.stateC.toNat := by
      rcases Bool.or_eq_true_iff.mp r.stateC_isAlpha with hupper | hlower
      · have hrange : r.stateC.val ≥ 65 ∧ r.stateC.val ≤ 90 := of_decide_eq_true hupper
        exact hrange.1
      · have hrange : r.stateC.val ≥ 97 := of_decide_eq_true (Bool.and_eq_true_iff.mp hlower).1
        exact Nat.le_trans (by decide) hrange
    simp only [isSpace, Bool.or_eq_false_iff, decide_eq_false_iff_not, Bool.and_eq_false_imp,
      decide_eq_true_eq]
    omega
  rw [items_fst] at hrow
  rw [sscanf, cstr_of_nulFree r.nul_not_mem_tail, statFormat_eq, tail]
  simp only [scan, List.dropWhile_cons, hblank, if_true, hstate, Bool.false_eq_true, if_false]
  rw [hrow]

/-- **Numbers come back**: what `printf` makes of an `int` is scanned as that, -/
theorem int32_stored (x : Int32) :
    Int32.ofInt (Conv.d.value (DecimalToken.ofInt x.toInt).neg
      (DecimalToken.ofInt x.toInt).magnitude) = x := by
  have hlo := Int32.le_toInt x
  have hhi := Int32.toInt_lt x
  rw [DecimalToken.ofInt_neg, DecimalToken.ofInt_magnitude, Conv.value,
    strtol_ofInt (by omega) (by omega), Int32.ofInt_toInt]

/-- the same for an `unsigned`, -/
theorem uint32_stored (x : UInt32) :
    UInt32.ofInt (Conv.u.value (DecimalToken.ofInt x.toNat).neg
      (DecimalToken.ofInt x.toNat).magnitude) = x := by
  have hhi := UInt32.toNat_lt x
  rw [DecimalToken.ofInt_neg, DecimalToken.ofInt_magnitude, Conv.value,
    strtoul_ofInt (by omega) (by omega), UInt32.ofInt, Int.emod_eq_of_lt (by omega) (by omega),
    Int.toNat_natCast, UInt32.ofNat_toNat]

/-- for an `unsigned long`, -/
theorem uint64_stored (x : UInt64) {k : Conv} (hk : k.value = strtoul) :
    UInt64.ofInt (k.value (DecimalToken.ofInt x.toNat).neg
      (DecimalToken.ofInt x.toNat).magnitude) = x := by
  have hhi := UInt64.toNat_lt x
  rw [DecimalToken.ofInt_neg, DecimalToken.ofInt_magnitude, hk,
    strtoul_ofInt (by omega) (by omega), UInt64.ofInt, Int.emod_eq_of_lt (by omega) (by omega),
    Int.toNat_natCast, UInt64.ofNat_toNat]

/-- and for a `long`. -/
theorem int64_stored (x : Int64) {k : Conv} (hk : k.value = strtol) :
    Int64.ofInt (k.value (DecimalToken.ofInt x.toInt).neg
      (DecimalToken.ofInt x.toInt).magnitude) = x := by
  have hlo := Int64.le_toInt x
  have hhi := Int64.toInt_lt x
  rw [DecimalToken.ofInt_neg, DecimalToken.ofInt_magnitude, hk,
    strtol_ofInt (by omega) (by omega), Int64.ofInt_toInt]

/-- `cutime` is scanned by an unsigned conversion into a signed member. -/
theorem int64_stored_unsigned (x : Int64) :
    Int64.ofInt (Conv.llu.value (DecimalToken.ofInt x.toInt).neg
      (DecimalToken.ofInt x.toInt).magnitude) = x := by
  have hlo := Int64.le_toInt x
  have hhi := Int64.toInt_lt x
  have hwrap : Int64.ofInt (x.toInt % 2 ^ 64) = Int64.ofInt x.toInt := by
    apply Int64.toInt_inj.mp
    rw [Int64.toInt_ofInt, Int64.toInt_ofInt]
    exact Int.emod_bmod x.toInt (2 ^ 64)
  rw [DecimalToken.ofInt_neg, DecimalToken.ofInt_magnitude, Conv.value,
    strtoul_neg_emod (by omega) (by omega), hwrap, Int64.ofInt_toInt]

/-- The pointer list puts every number into its member. -/
theorem assign_items (prs : Scraped) :
    assign statTargets
        (.chr r.stateC :: r.items.map fun it => .num (it.1.value it.2.neg it.2.magnitude))
        { prs with pid := r.pid } =
      { r.store prs with comm := prs.comm } := by
  have hlu : Conv.lu.value = strtoul := rfl
  have hllu : Conv.llu.value = strtoul := rfl
  have hld : Conv.ld.value = strtol := rfl
  have hlld : Conv.lld.value = strtol := rfl
  simp only [assign, statTargets, items, List.map_cons, List.map_nil, List.zip_cons_cons,
    List.zip_nil_right, List.foldl_cons, List.foldl_nil, Target.int, Target.chr, Target.dummy,
    int32_stored, uint32_stored, uint64_stored _ hlu, uint64_stored _ hllu, int64_stored _ hld,
    int64_stored _ hlld, int64_stored_unsigned]
  rfl

/-- The `int` that holds the length of the command name admits the copy, or
there is nothing to copy. -/
def CommLenFits : Prop := r.comm = [] ∨ 0 < (Int32.ofInt r.comm.length).toInt

/-- A cleared buffer holds the cut name exactly when the name was copied or is
empty. -/
theorem copyComm_eq_store_iff {prs : Scraped} (hzero : prs.comm = List.replicate sizeofComm nul)
    (rest : Mem) :
    (copyComm prs (r.comm ++ nul :: rest) r.comm.length).comm = (r.store prs).comm ↔
      r.CommLenFits := by
  rw [copyComm_zero hzero r.comm_nulFree]
  unfold CommLenFits
  by_cases hpos : 0 < (Int32.ofInt r.comm.length).toInt
  · rw [if_pos hpos]
    exact iff_of_true rfl (Or.inr hpos)
  · rw [if_neg hpos, hzero, or_iff_left hpos]
    constructor
    · intro h
      cases hcomm : r.comm with
      | nil => rfl
      | cons c comm =>
          have hhead := congrArg List.head? h
          have hc : nul = c := by
            simpa [store, hcomm, sizeofComm, List.replicate_succ] using hhead
          exact absurd (hcomm ▸ hc ▸ List.mem_cons_self) r.comm_nulFree
    · intro h
      simp [store, h, sizeofComm]

/-- **What scanning a rendered record leaves**: every member is the record's,
and the command name is what the copy made of it. -/
theorem scanStat_render (prs : Scraped) (junk : Mem) :
    let out := scanStat (r.render ++ nul :: junk) prs
    out.readOk = true ∧ out.enabled = true ∧
      out.prs = { r.store prs with
        comm := (copyComm prs (r.comm ++ nul :: r.tail) r.comm.length).comm } := by
  obtain ⟨hok, hen, hprs⟩ := scanStat_congr (r.cstr_render junk) prs
  have hrun : scanStat r.render prs = ⟨r.head ++ nul :: r.tail, true, true,
      { r.store prs with
        comm := (copyComm prs (r.comm ++ nul :: r.tail) r.comm.length).comm }⟩ := by
    have hpid : assign pidTargets [.num r.pid.toInt] prs = { prs with pid := r.pid } := by
      simp [assign, pidTargets, Target.int]
    have hcopy : ∀ p : Scraped, ∀ m : Mem, ∀ n : Int,
        copyComm p m n = { p with comm := (copyComm p m n).comm } := by
      intro p m n
      rw [copyComm_eq]
      split <;> rfl
    have hmem : ∀ m : Mem, ∀ n : Int,
        (copyComm { prs with pid := r.pid } m n).comm = (copyComm prs m n).comm := by
      intro m n
      rw [copyComm_eq, copyComm_eq]
      split <;> rfl
    unfold scanStat
    simp only [r.sscanf_pid, hpid, r.strrchr_close, List.length_singleton, ne_eq,
      not_true_eq_false, if_false, r.set_close, r.strchr_open, r.drop_open, drop_split,
      r.comm_length, r.sscanf_tail]
    rw [hcopy, hmem]
    exact congrArg (StatScan.mk _ true true) (r.assign_items { prs with comm := _ })
  simp only [hok, hen, hprs, hrun, and_self]

end ProcessRecord

end Linux
