import ProcProcessTable.LinuxStatScan
import ProcProcessTable.StatRoundTrip

/-!
# What get_proc_stat answers, and where it looks

`get_proc_stat` has five exits behind one label, and a result that is true
before the first.  The four failure exits leave the flags alone; three of them
set the result to false, and the one for a text that does not start with a
number does not (`getProcStat_allOrNothing_iff`).

On the way it computes positions in the text, and an `int` for the length of the
command name.  The positions lie inside the text, whatever the text; the length
is the difference of two of them, and a long name makes it negative
(`stat_inside_iff`).
-/

namespace Linux

open CText Scanf MemPool

section

variable (res : Residue (Procstat Nat)) (k : Kernel) {pid : List Char} (prs : Nat)
  {formatStr : Nat} {pool : Memory} (hrest : pool.growing = []) (hpid : nul ∉ pid)
  (hformat : formatStr < pool.finished.length)

/-- The stat file of a process. -/
def statContent (k : Kernel) (pid : List Char) : Option (List Char) :=
  fileContent (k.openFile (pidPath pid (some "stat".toList)))

include hrest hpid hformat

/-- A stat file that cannot be read changes no flag, and says so. -/
theorem getProcStat_unreadable (hfile : statContent k pid = none) :
    (getProcStat res k pid prs formatStr pool).1 = false ∧
      (getProcStat res k pid prs formatStr pool).2.bytesAt formatStr = pool.bytesAt formatStr := by
  obtain ⟨htext, hpush⟩ :=
    readFile_none res k hrest (nul_not_mem_pidPath hpid (by decide +kernel)) hfile
  unfold getProcStat
  dsimp only
  rw [htext]
  exact ⟨rfl, hpush.bytesAt_below hformat⟩

/-- The answer for a text, and the flags. -/
theorem getProcStat_readable {content : List Char} (hfile : statContent k pid = some content) :
    ((getProcStat res k pid prs formatStr pool).1 = false ↔
      pidConversion (content ++ [nul]) ≠ none ∧ (statConversions (content ++ [nul])).length ≠ 33) ∧
    (getProcStat res k pid prs formatStr pool).2.bytesAt formatStr =
      if (statConversions (content ++ [nul])).length = 33 then
        fieldEnableRange (pool.bytesAt formatStr) .pid .wchan
      else pool.bytesAt formatStr := by
  obtain ⟨htext, junk, hpush⟩ :=
    readFile_some res k hrest (nul_not_mem_pidPath hpid (by decide +kernel)) hfile
  have hcstr : cstr (content ++ nul :: junk) = cstr (content ++ [nul]) := by
    rw [cstr_append_nul, cstr_append_nul]
  obtain ⟨hok, hen, _⟩ := scanStat_congr hcstr
    (scrapedAt (readFile res k pid (some "stat".toList) pool).pool prs)
  obtain ⟨henabled, hreadOk, _⟩ := scanStat_exits (content ++ [nul])
    (scrapedAt (readFile res k pid (some "stat".toList) pool).pool prs)
  rw [← hreadOk, ← if_congr henabled rfl rfl]
  unfold getProcStat
  dsimp only
  rw [htext]
  dsimp only
  rw [bytesAt_pushed hpush, hok, hen, Pool.bytesAt_free _ hformat]
  refine ⟨Iff.rfl, ?_⟩
  have hkeep : ∀ f g, (((readFile res k pid (some "stat".toList) pool).pool.modifyBytes
      pool.finished.length f).modifyRecord prs g).bytesAt formatStr = pool.bytesAt formatStr := by
    intro f g
    rw [Pool.bytesAt_modifyRecord, Pool.bytesAt_modifyBytes_of_ne _ (Nat.ne_of_lt hformat),
      hpush.bytesAt_below hformat]
  split
  · rw [Pool.bytesAt_modifyBytes_self, hkeep]
    rfl
  · exact hkeep _ _

end

/-- The call is all or nothing, and says so: it answers true exactly when it
lowered the flags after it obtained the process id and the 33 values, and when
it answers false it changed no flag. -/
def SaysAllOrNothing (content : Option (List Char)) (before after : Mem) (readOk : Bool) : Prop :=
  (readOk = true ↔ after = fieldEnableRange before .pid .wchan ∧
    ∃ text, content = some text ∧ pidConversion (text ++ [nul]) ≠ none ∧
      (statConversions (text ++ [nul])).length = 33) ∧
  (readOk = false → after = before)

/-- Behind a text without a process id nothing is scanned. -/
theorem statConversions_of_no_pid {text : Mem} (h : pidConversion text = none) :
    statConversions text = [] := by
  have hlen : (sscanf text pidFormat).length ≠ 1 := fun hlen => (length_pidScan text).mp hlen h
  rw [statConversions, if_pos hlen]

/-- **When `get_proc_stat` is all or nothing and says so**: when the file cannot
be read, or its text starts with a number. -/
theorem getProcStat_allOrNothing_iff (res : Residue (Procstat Nat)) (k : Kernel) {pid : List Char}
    (prs : Nat) {formatStr : Nat} {pool : Memory} (hrest : pool.growing = []) (hpid : nul ∉ pid)
    (hformat : formatStr < pool.finished.length) :
    SaysAllOrNothing (statContent k pid) (pool.bytesAt formatStr)
        ((getProcStat res k pid prs formatStr pool).2.bytesAt formatStr)
        (getProcStat res k pid prs formatStr pool).1 ↔
      ∀ text, statContent k pid = some text → pidConversion (text ++ [nul]) ≠ none := by
  unfold SaysAllOrNothing
  cases hfile : statContent k pid with
  | none =>
      obtain ⟨hok, hkeep⟩ := getProcStat_unreadable res k prs hrest hpid hformat hfile
      rw [hok, hkeep]
      exact iff_of_true ⟨⟨Bool.noConfusion, fun ⟨_, _, h, _⟩ => by cases h⟩, fun _ => rfl⟩
        (fun _ h => by cases h)
  | some content =>
      obtain ⟨hok, hflags⟩ := getProcStat_readable res k prs hrest hpid hformat hfile
      simp only [Option.some.injEq, forall_eq', exists_eq_left']
      generalize getProcStat res k pid prs formatStr pool = out at hok hflags ⊢
      by_cases hnone : pidConversion (content ++ [nul]) = none
      · -- the exit that leaves the answer true
        have htrue : out.1 = true := by
          rw [← Bool.not_eq_false, hok]
          exact fun h => h.1 hnone
        exact iff_of_false (fun h => (h.1.mp htrue).2.1 hnone) (not_not_intro hnone)
      · have hanswer : out.1 = true ↔ (statConversions (content ++ [nul])).length = 33 := by
          rw [← Bool.not_eq_false, hok, not_and, not_not]
          exact ⟨fun h => h hnone, fun h _ => h⟩
        refine iff_of_true ⟨?_, fun hfalse => ?_⟩ hnone
        · rw [hanswer]
          exact ⟨fun h => ⟨by rw [hflags, if_pos h], hnone, h⟩, fun h => h.2.2⟩
        · rw [hflags, if_neg (hok.mp hfalse).2]

/-- A format string on an empty pool. -/
def formatPool : Memory := ⟨[.bytes (defaultFormat ++ [nul])], [], 0, []⟩

theorem getProcStat_allOrNothing_iff_sample :
    SaysAllOrNothing (statContent (Kernel.constant "42 (a) S 1".toList) ['4', '2'])
        (formatPool.bytesAt 0)
        ((getProcStat clearedMemory (Kernel.constant "42 (a) S 1".toList) ['4', '2'] 1 0
          formatPool).2.bytesAt 0)
        (getProcStat clearedMemory (Kernel.constant "42 (a) S 1".toList) ['4', '2'] 1 0
          formatPool).1 := by
  refine (getProcStat_allOrNothing_iff clearedMemory _ 1 rfl (by decide) (by decide)).mpr ?_
  intro text htext
  obtain rfl := Option.some.inj ((fileContent_bytewise _).symm.trans htext)
  decide +kernel

/-- **A text that is not a record and is taken for one**: it is empty, the flags
stay as they are, and the answer is true. -/
theorem getProcStat_true_for_nothing :
    (getProcStat clearedMemory (Kernel.constant []) ['4', '2'] 1 0 formatPool).1 = true ∧
    (getProcStat clearedMemory (Kernel.constant []) ['4', '2'] 1 0 formatPool).2.bytesAt 0 =
      formatPool.bytesAt 0 ∧
    ¬ SaysAllOrNothing (statContent (Kernel.constant []) ['4', '2']) (formatPool.bytesAt 0)
        ((getProcStat clearedMemory (Kernel.constant []) ['4', '2'] 1 0 formatPool).2.bytesAt 0)
        (getProcStat clearedMemory (Kernel.constant []) ['4', '2'] 1 0 formatPool).1 := by
  have hfile : statContent (Kernel.constant []) ['4', '2'] = some [] := fileContent_bytewise _
  have hnone : pidConversion ([] ++ [nul]) = none := by decide
  obtain ⟨hok, hflags⟩ := @getProcStat_readable clearedMemory (Kernel.constant []) ['4', '2'] 1 0
    formatPool rfl (by decide) (by decide) [] hfile
  have htrue : (getProcStat clearedMemory (Kernel.constant []) ['4', '2'] 1 0 formatPool).1 =
      true := by
    rw [← Bool.not_eq_false, hok]
    exact fun h => h.1 hnone
  rw [statConversions_of_no_pid hnone] at hflags
  refine ⟨htrue, hflags, fun h => ?_⟩
  obtain ⟨_, text, htext, hpid, _⟩ := h.1.mp htrue
  rw [hfile] at htext
  obtain rfl := Option.some.inj htext
  exact hpid hnone

/-- `close_paren`, when the process id could be scanned. -/
def closeParen (text : Mem) : Option Nat :=
  if (sscanf text pidFormat).length ≠ 1 then none else strrchr text ')'

/-- `open_paren`, looked for once `close_paren` has been overwritten; both
parentheses. -/
def parens (text : Mem) : Option (Nat × Nat) :=
  (closeParen text).bind fun closeParen =>
    (strchr (text.set closeParen nul) '(').map fun openParen => (openParen, closeParen)

/-- `comm_len`, before it is cut to the size of the buffer. -/
def commLen (span : Nat × Nat) : Int32 := Int32.ofInt ((span.2 : Int) - span.1 - 1)

/-- The bytes between the parentheses. -/
def nameBetween (text : Mem) (span : Nat × Nat) : List Char :=
  ((cstr text).take span.2).drop (span.1 + 1)

/-- `get_proc_stat` looks and writes where it may: its positions lie in the
text, up to the NUL behind it, the length of the name is not negative, and a
name that is copied stands in the buffer, cut to 15 bytes and closed. -/
structure StaysInside (text : Mem) (prs : Scraped) : Prop where
  close_paren : ∀ c, closeParen text = some c → c < strlen text
  stat_cont : ∀ c, closeParen text = some c → c + 1 ≤ strlen text
  open_paren : ∀ span, parens text = some span → span.1 < span.2 ∧ span.2 < strlen text
  comm_len : ∀ span, parens text = some span → 0 ≤ (commLen span).toInt
  copied : ∀ span, parens text = some span → 0 < (commLen span).toInt →
    (scanStat text prs).prs.comm.length = sizeofComm ∧ nul ∈ (scanStat text prs).prs.comm ∧
      cstr (scanStat text prs).prs.comm = (nameBetween text span).take 15
  kept : (∀ span, parens text = some span → ¬ 0 < (commLen span).toInt) →
    (scanStat text prs).prs.comm = prs.comm

theorem closeParen_lt {text : Mem} {c : Nat} (h : closeParen text = some c) : c < strlen text := by
  rw [closeParen] at h
  split at h
  · cases h
  · exact strrchr_lt h

/-- The opening parenthesis is looked for in what the closing one leaves. -/
theorem parens_spec {text : Mem} {span : Nat × Nat} (h : parens text = some span) :
    span.2 < strlen text ∧ span.1 < span.2 ∧
      cstr ((text.set span.2 nul).drop (span.1 + 1)) = nameBetween text span := by
  obtain ⟨c, hclose, hrest⟩ := Option.bind_eq_some_iff.mp h
  obtain ⟨o, hopen, rfl⟩ := Option.map_eq_some_iff.mp hrest
  have hc := closeParen_lt hclose
  have hcut : cstr (text.set c nul) = (cstr text).take c := cstr_set_nul hc
  have hlen : strlen (text.set c nul) = c := by
    rw [strlen, hcut, List.length_take]
    exact Nat.min_eq_left (Nat.le_of_lt hc)
  have ho : o < c := hlen ▸ strchr_lt hopen
  refine ⟨hc, ho, ?_⟩
  rw [cstr_drop (by rw [hlen]; exact ho), hcut]
  rfl

/-- No conversion stores into the command name. -/
theorem stat_assign_comm (vals : List Value) (prs : Scraped) :
    (assign pidTargets vals prs).comm = prs.comm ∧
      (assign statTargets vals prs).comm = prs.comm := by
  constructor
  · refine assign_inv Scraped.comm ?_ vals prs
    intro t ht v s
    obtain rfl := List.mem_singleton.mp ht
    cases v <;> rfl
  · exact assign_besidesStat Scraped.comm (fun _ => rfl) vals prs

/-- The command name a scan leaves. -/
theorem scanStat_comm (text : Mem) (prs : Scraped) :
    (scanStat text prs).prs.comm =
      match parens text with
      | none => prs.comm
      | some span => (copyComm (assign pidTargets (sscanf text pidFormat) prs)
          ((text.set span.2 nul).drop (span.1 + 1)) ((span.2 : Int) - span.1 - 1)).comm := by
  have hpid := (stat_assign_comm (sscanf text pidFormat) prs).1
  unfold scanStat parens closeParen
  dsimp only
  by_cases hone : (sscanf text pidFormat).length ≠ 1
  · rw [if_pos hone, if_pos hone]
    exact hpid
  · rw [if_neg hone, if_neg hone]
    cases strrchr text ')' with
    | none => exact hpid
    | some c =>
        rw [Option.bind_some]
        dsimp only
        cases strchr (text.set c nul) '(' with
        | none => exact hpid
        | some o =>
            dsimp only [Option.map_some]
            split
            · exact (stat_assign_comm _ _).2
            · exact (stat_assign_comm _ _).2

/-- A name whose length is positive is copied, any other leaves the buffer. -/
theorem scanStat_copied {text : Mem} {prs : Scraped} (hsize : prs.comm.length = sizeofComm)
    {span : Nat × Nat} (hspan : parens text = some span) (hpos : 0 < (commLen span).toInt) :
    (scanStat text prs).prs.comm = strncpy ((text.set span.2 nul).drop (span.1 + 1)) 15 ++ [nul] := by
  have hsize' : (assign pidTargets (sscanf text pidFormat) prs).comm.length = sizeofComm := by
    rw [(stat_assign_comm _ prs).1, hsize]
  rw [scanStat_comm, hspan]
  dsimp only
  rw [copyComm_stored hsize' _ hpos]

theorem scanStat_kept {text : Mem} {prs : Scraped}
    (h : ∀ span, parens text = some span → ¬ 0 < (commLen span).toInt) :
    (scanStat text prs).prs.comm = prs.comm := by
  rw [scanStat_comm]
  cases hspan : parens text with
  | none => rfl
  | some span =>
      have hneg := h span hspan
      rw [commLen] at hneg
      dsimp only
      rw [copyComm_eq, if_neg hneg]
      exact (stat_assign_comm _ prs).1

/-- A length is not negative as an `int` when its lower half is below
`2 ^ 31`. -/
theorem toInt_ofInt_nonneg_iff (n : Nat) :
    0 ≤ (Int32.ofInt (n : Int)).toInt ↔ n % 2 ^ 32 < 2 ^ 31 := by
  have hsize : ((Int32.size : Nat) : Int) = 2 ^ 32 := rfl
  rw [Int32.toInt_ofInt, Int.bmod_def, hsize]
  split <;> omega

/-- **When `get_proc_stat` stays inside**: when no name is cut out of the text,
or the length of the name, taken modulo `2 ^ 32`, is below `2 ^ 31`. -/
theorem stat_inside_iff (text : Mem) {prs : Scraped} (hsize : prs.comm.length = sizeofComm) :
    StaysInside text prs ↔
      ∀ span, parens text = some span → (nameBetween text span).length % 2 ^ 32 < 2 ^ 31 := by
  have hlength : ∀ span, parens text = some span →
      ((nameBetween text span).length : Int) = (span.2 : Int) - span.1 - 1 := by
    intro span hspan
    obtain ⟨hclose, hopen, _⟩ := parens_spec hspan
    rw [strlen] at hclose
    rw [nameBetween, List.length_drop, List.length_take]
    omega
  have hlen : ∀ span, parens text = some span →
      (0 ≤ (commLen span).toInt ↔ (nameBetween text span).length % 2 ^ 32 < 2 ^ 31) := by
    intro span hspan
    rw [commLen, ← hlength span hspan]
    exact toInt_ofInt_nonneg_iff _
  constructor
  · intro h span hspan
    exact (hlen span hspan).mp (h.comm_len span hspan)
  · intro h
    refine ⟨fun _ => closeParen_lt, fun _ => closeParen_lt, ?_, ?_, ?_, scanStat_kept⟩
    · intro span hspan
      obtain ⟨hclose, hopen, _⟩ := parens_spec hspan
      exact ⟨hopen, hclose⟩
    · intro span hspan
      exact (hlen span hspan).mpr (h span hspan)
    · intro span hspan hpos
      obtain ⟨_, _, hname⟩ := parens_spec hspan
      rw [scanStat_copied hsize hspan hpos]
      refine ⟨?_, List.mem_append_right _ (List.mem_singleton_self nul), ?_⟩
      · rw [List.length_append, length_strncpy]
        rfl
      · rw [cstr_strncpy_nul, hname]

/-- A text with an opening parenthesis in the name, and one behind the last
closing one. -/
theorem stat_inside_iff_odd_name :
    StaysInside ("7 (a(b) ) S (".toList ++ [nul]) Scraped.zero := by
  refine (stat_inside_iff _ rfl).mpr ?_
  have hspan : parens ("7 (a(b) ) S (".toList ++ [nul]) = some (2, 8) := by decide +kernel
  intro span h
  rw [hspan] at h
  obtain rfl := Option.some.inj h
  decide +kernel

/-- The parentheses of a record of the kernel are the outer ones. -/
theorem ProcessRecord.parens_render (r : ProcessRecord) (junk : Mem) :
    parens (r.render ++ nul :: junk) = some (r.pidText.length, r.head.length) := by
  have hpid : sscanf (r.render ++ nul :: junk) pidFormat = [.num r.pid.toInt] := by
    rw [← r.sscanf_pid, sscanf, sscanf, r.cstr_render]
  have hclose : strrchr (r.render ++ nul :: junk) ')' = some r.head.length := by
    rw [← r.strrchr_close, strrchr, strrchr, r.cstr_render]
  have hset : (r.render ++ nul :: junk).set r.head.length nul =
      r.head ++ nul :: (r.tail ++ nul :: junk) := by
    rw [render, List.append_assoc]
    exact set_split r.head _ ')' nul
  have hopen : strchr (r.head ++ nul :: (r.tail ++ nul :: junk)) '(' = some r.pidText.length := by
    rw [← r.strchr_open, strchr, strchr, cstr_append_nul, cstr_append_nul]
  rw [parens, closeParen, hpid, if_neg (by simp), hclose, Option.bind_some, hset, hopen]
  rfl

/-- **A name whose length is negative**: it has `2 ^ 31` bytes. -/
theorem stat_not_inside_longName :
    ¬ StaysInside ((recordNamed longName nul_not_mem_longName).render ++ [nul]) Scraped.zero := by
  intro h
  have hneg := h.comm_len _ ((recordNamed longName nul_not_mem_longName).parens_render [])
  have hlen : (recordNamed longName nul_not_mem_longName).comm.length = 2 ^ 31 :=
    List.length_replicate
  rw [commLen, ProcessRecord.comm_length, hlen] at hneg
  revert hneg
  decide

end Linux
