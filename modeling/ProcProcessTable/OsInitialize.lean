import ProcProcessTable.LinuxReadFile
import ProcProcessTable.LineLoop
import ProcProcessTable.Scanf

/-!
# OS_initialize

`OS_initialize` runs `init_static_vars` once and reports an error by returning
its text.  The initialisation cannot return a result through `pthread_once`, so
it leaves a flag, and `OS_initialize` looks at that flag before it runs the
initialisation and not after.

`reports_failure_iff` is the exact condition under which a sequence of calls
reports every failure: the first call that finds `/proc` mounted must not be the
one whose initialisation fails.
-/

namespace Linux

open CText Scanf MemPool

/-- The static variables, the flag, and the state of `globals_init`. -/
structure Statics where
  globals : Globals
  initFailed : Bool
  onceDone : Bool

/-- The state the library is loaded in. -/
def Statics.init : Statics := ⟨⟨0, 0, 0, 0⟩, false, false⟩

/-- What the system answers to one call of `OS_initialize`.  `totalMemory` is
what the local variable of that name holds, which is never set. -/
structure InitCall where
  /-- `statfs("/proc", &sfs)` succeeds -/
  procMounted : Bool
  pageSize : UInt32
  hertz : UInt32
  statFile : Kernel
  meminfo : Kernel
  totalMemory : UInt64

/-- The conversion strings of the two loops. -/
def btimeFormat : List Directive := directives "btime %lld".toList
def memTotalFormat : List Directive := directives "MemTotal: %llu".toList

/-- The body of the two loops of `init_static_vars`: a line that starts with the
word is scanned, and ends the loop when its number was read. -/
def numberLine {σ : Type} (word : List Char) (format : List Directive) (store : Int → σ → σ)
    (fileOff : Mem) (s : σ) : σ × Bool :=
  if startsWith fileOff word then
    let vals := sscanf fileOff format
    (assign [Target.int store] vals s, decide (vals.length = 1))
  else (s, false)

def btimeLine : Mem → Globals → Globals × Bool :=
  numberLine "btime".toList btimeFormat fun v g => { g with bootTime := Int64.ofInt v }

/-- The number is in kilobytes, and converted to bytes. -/
def memTotalLine : Mem → Globals → Globals × Bool :=
  numberLine "MemTotal:".toList memTotalFormat
    fun v g => { g with systemMemory := UInt64.ofInt v * 1024 }

/-- `init_static_vars`; `none` when it does not return. -/
def initStaticVars (res : Residue (Procstat Nat)) (call : InitCall) (s : Statics) :
    Option Statics :=
  let fail := fun g => some { s with globals := g, initFailed := true }
  let g : Globals :=
    { bootTime := -1, systemMemory := -1, pageSize := call.pageSize, systemHertz := call.hertz }
  let out := readFile res call.statFile "stat".toList none Pool.init
  match out.text with
  | none => fail g
  | some (fileText, _) =>
      match LineLoop.loop btimeLine (out.pool.bytesAt fileText) g with
      | none => none
      | some g =>
          let pool := out.pool.free fileText
          if g.bootTime = -1 then fail g
          else
            let out := readFile res call.meminfo "meminfo".toList none pool
            match out.text with
            | none => fail g
            | some (fileText, _) =>
                match LineLoop.loop memTotalLine (out.pool.bytesAt fileText) g with
                | none => none
                | some g =>
                    if call.totalMemory = -1 then fail g
                    else some { s with globals := g }

/-- The text of an error. -/
def errorText (elem : Nat) : List Char := cstr (stringAt (getString elem))

/-- `OS_initialize`: the error text, if any, and the state it leaves; `none`
when it does not return. -/
def osInitialize (res : Residue (Procstat Nat)) (call : InitCall) (s : Statics) :
    Option (Option (List Char) × Statics) :=
  if s.initFailed then some (some (errorText STR_ERR_INIT), s)
  else if call.procMounted = false then some (some (errorText STR_ERR_PROC_STATFS), s)
  else
    -- pthread_once
    let s := if s.onceDone then some s
      else (initStaticVars res call s).map fun s => { s with onceDone := true }
    s.map fun s => (none, s)

/-- The calls of a sequence that return, each with what it returns and the
state it leaves. -/
def runCalls (res : Residue (Procstat Nat)) :
    List InitCall → Statics → List (Option (List Char) × Statics)
  | [], _ => []
  | call :: calls, s =>
      match osInitialize res call s with
      | none => []
      | some out => out :: runCalls res calls out.2

/-- The number of a line that starts with the word. -/
def lineNumber (word : List Char) (format : List Directive) (line : Mem) : Option Int :=
  if startsWith line word then
    match sscanf line format with
    | [.num v] => some v
    | _ => none
  else none

/-- The number of the first line of a text that has one. -/
def firstNumber (word : List Char) (format : List Directive) (text : Mem) : Option Int :=
  (LineLoop.lineStarts (cstr text)).findSome? (lineNumber word format)

section

variable {σ : Type} {word : List Char} {format : List Directive} {store : Int → σ → σ}
  (hformat : ∀ s, scan format s = [] ∨ ∃ v, scan format s = [.num v])

theorem numberLine_readsString : LineLoop.ReadsString (numberLine word format store) := by
  intro m g
  rw [numberLine, numberLine, startsWith, startsWith, sscanf, sscanf, cstr_cstr]

include hformat

/-- One line. -/
theorem numberLine_eq (line : Mem) (g : σ) :
    numberLine word format store line g =
      match lineNumber word format line with
      | some v => (store v g, true)
      | none => (g, false) := by
  unfold numberLine lineNumber
  cases startsWith line word with
  | false => rfl
  | true =>
      rw [if_pos rfl, if_pos rfl, sscanf]
      rcases hformat (cstr line) with h | ⟨v, h⟩ <;> rw [h] <;> rfl

/-- **The loop finds the first number**, unless the text begins with a newline. -/
theorem loop_numberLine (text : Mem) (g : σ) (hhead : (cstr text).head? ≠ some '\n') :
    LineLoop.loop (numberLine word format store) text g =
      some (match firstNumber word format text with
        | some v => store v g
        | none => g) := by
  rw [LineLoop.loop_eq_scan _ numberLine_readsString g hhead, firstNumber]
  refine congrArg some ?_
  induction LineLoop.lineStarts (cstr text) with
  | nil => rfl
  | cons line lines ih =>
      rw [LineLoop.scan, numberLine_eq hformat, List.findSome?_cons]
      cases lineNumber word format line with
      | some v => rfl
      | none => exact ih

omit hformat in
/-- A line that begins with a newline is not looked at further. -/
theorem numberLine_newline {c : Char} {rest : List Char} (hword : word = c :: rest)
    (hc : c ≠ '\n') {text : Mem} (g : σ) (hhead : (cstr text).head? = some '\n') :
    numberLine word format store text g = (g, false) := by
  rw [numberLine, hword, startsWith_of_head hhead hc rest]
  rfl

omit hformat in
/-- A text that begins with a newline is never left. -/
theorem loop_numberLine_hangs {c : Char} {rest : List Char} (hword : word = c :: rest)
    (hc : c ≠ '\n') {text : Mem} (g : σ) (hhead : (cstr text).head? = some '\n') :
    LineLoop.loop (numberLine word format store) text g = none :=
  LineLoop.run_eq_none _ hhead (numberLine_newline hword hc g hhead) _

end

theorem scan_btimeFormat (s : List Char) :
    scan btimeFormat s = [] ∨ ∃ v, scan btimeFormat s = [.num v] := by
  have hformat : btimeFormat =
      [.lit 'b', .lit 't', .lit 'i', .lit 'm', .lit 'e', .space] ++ [.number .lld] := by
    decide +kernel
  rw [hformat]
  exact scan_literals_number (by simp) .lld s

theorem scan_memTotalFormat (s : List Char) :
    scan memTotalFormat s = [] ∨ ∃ v, scan memTotalFormat s = [.num v] := by
  have hformat : memTotalFormat =
      [.lit 'M', .lit 'e', .lit 'm', .lit 'T', .lit 'o', .lit 't', .lit 'a', .lit 'l', .lit ':',
        .space] ++ [.number .llu] := by
    decide +kernel
  rw [hformat]
  exact scan_literals_number (by simp) .llu s

/-- What a file of `/proc` is read as. -/
theorem readFile_cases (res : Residue (Procstat Nat)) (k : Kernel) {path : List Char}
    {pool : Pool (Procstat Nat)} (hrest : pool.growing = []) (hpath : nul ∉ pidPath path none) :
    (fileContent (k.openFile (pidPath path none)) = none ∧
      (readFile res k path none pool).text = none) ∨
    ∃ content text len, fileContent (k.openFile (pidPath path none)) = some content ∧
      (readFile res k path none pool).text = some (text, len) ∧
      cstr ((readFile res k path none pool).pool.bytesAt text) = cstr content := by
  cases hfile : fileContent (k.openFile (pidPath path none)) with
  | none => exact Or.inl ⟨rfl, (readFile_none res k hrest hpath hfile).1⟩
  | some content =>
      obtain ⟨htext, junk, hpush⟩ := readFile_some res k hrest hpath hfile
      refine Or.inr ⟨content, _, _, rfl, htext, ?_⟩
      rw [bytesAt_pushed hpush, cstr_append_nul]

namespace InitCall

variable (call : InitCall)

/-- The content of `/proc/stat` and of `/proc/meminfo`. -/
def statText : Option (List Char) :=
  fileContent (call.statFile.openFile (pidPath "stat".toList none))

def memText : Option (List Char) :=
  fileContent (call.meminfo.openFile (pidPath "meminfo".toList none))

end InitCall

/-- The boot time of a text; -1 when there is none. -/
def bootTimeOf (text : Mem) : Int64 :=
  match firstNumber "btime".toList btimeFormat text with
  | some v => Int64.ofInt v
  | none => -1

/-- The memory of a text, in bytes; -1 when there is none. -/
def systemMemoryOf (text : Mem) : UInt64 :=
  match firstNumber "MemTotal:".toList memTotalFormat text with
  | some v => UInt64.ofInt v * 1024
  | none => -1

/-- The loop over a text ends. -/
def LoopEnds (text : Mem) : Prop := (cstr text).head? ≠ some '\n'

instance (text : Mem) : Decidable (LoopEnds text) := inferInstanceAs (Decidable (_ ≠ _))

/-- The initialisation gets to its end. -/
def InitCall.InitSucceeds (call : InitCall) : Prop :=
  ∃ text mem, call.statText = some text ∧ LoopEnds text ∧ bootTimeOf text ≠ -1 ∧
    call.memText = some mem ∧ LoopEnds mem ∧ call.totalMemory ≠ -1

/-- The initialisation gets to one of its failure exits. -/
def InitCall.InitFails (call : InitCall) : Prop :=
  call.statText = none ∨ ∃ text, call.statText = some text ∧ LoopEnds text ∧
    (bootTimeOf text = -1 ∨ call.memText = none ∨
      ∃ mem, call.memText = some mem ∧ LoopEnds mem ∧ call.totalMemory = -1)

theorem InitCall.InitSucceeds.not_fails {call : InitCall} (h : call.InitSucceeds) :
    ¬ call.InitFails := by
  obtain ⟨text, mem, htext, _, hboot, hmem, _, htotal⟩ := h
  rintro (hnone | ⟨text', htext', _, hfail⟩)
  · rw [htext] at hnone
    cases hnone
  · rw [htext] at htext'
    obtain rfl := Option.some.inj htext'
    rcases hfail with hfail | hfail | ⟨_, _, _, hfail⟩
    · exact hboot hfail
    · rw [hmem] at hfail
      cases hfail
    · exact htotal hfail

/-- A loop over `/proc/stat` that never ends reaches no exit. -/
theorem InitCall.stuck_stat {call : InitCall} {content : List Char}
    (hstat : call.statText = some content) (hends : ¬ LoopEnds content) :
    ¬ call.InitFails ∧ ¬ call.InitSucceeds := by
  have hstuck : ∀ text, call.statText = some text → ¬ LoopEnds text := by
    intro text htext
    rw [hstat] at htext
    rw [← Option.some.inj htext]
    exact hends
  constructor
  · rintro (hnone | ⟨text, htext, hloop, _⟩)
    · rw [hstat] at hnone
      cases hnone
    · exact hstuck text htext hloop
  · rintro ⟨text, _, htext, hloop, _⟩
    exact hstuck text htext hloop

/-- Nor does one over `/proc/meminfo`, once there is a boot time. -/
theorem InitCall.stuck_meminfo {call : InitCall} {content content' : List Char}
    (hstat : call.statText = some content) (hboot : bootTimeOf content ≠ -1)
    (hmem : call.memText = some content') (hends : ¬ LoopEnds content') :
    ¬ call.InitFails ∧ ¬ call.InitSucceeds := by
  have hstuck : ∀ mem, call.memText = some mem → ¬ LoopEnds mem := by
    intro mem hmem'
    rw [hmem] at hmem'
    rw [← Option.some.inj hmem']
    exact hends
  constructor
  · rintro (hnone | ⟨text, htext, _, hfail⟩)
    · rw [hstat] at hnone
      cases hnone
    · rw [hstat] at htext
      rcases hfail with hfail | hfail | ⟨mem, hmem', hloop, _⟩
      · rw [← Option.some.inj htext] at hfail
        exact hboot hfail
      · rw [hmem] at hfail
        cases hfail
      · exact hstuck mem hmem' hloop
  · rintro ⟨_, mem, _, _, _, hmem', hloop, _⟩
    exact hstuck mem hmem' hloop

/-- The loop over `/proc/stat` sets the boot time to that of the text. -/
theorem loop_btimeLine (text : Mem) {g : Globals} (hg : g.bootTime = -1) :
    LineLoop.loop btimeLine text g =
      if LoopEnds text then some { g with bootTime := bootTimeOf text } else none := by
  by_cases hends : LoopEnds text
  · rw [if_pos hends, btimeLine, loop_numberLine scan_btimeFormat text g hends, bootTimeOf]
    cases firstNumber "btime".toList btimeFormat text with
    | some v => rfl
    | none => rw [← hg]
  · rw [if_neg hends, btimeLine, loop_numberLine_hangs (rfl : "btime".toList = 'b' :: _)
      (by decide) g (not_not.mp hends)]

/-- The loop over `/proc/meminfo` sets the memory to that of the text. -/
theorem loop_memTotalLine (text : Mem) {g : Globals} (hg : g.systemMemory = -1) :
    LineLoop.loop memTotalLine text g =
      if LoopEnds text then some { g with systemMemory := systemMemoryOf text } else none := by
  by_cases hends : LoopEnds text
  · rw [if_pos hends, memTotalLine, loop_numberLine scan_memTotalFormat text g hends,
      systemMemoryOf]
    cases firstNumber "MemTotal:".toList memTotalFormat text with
    | some v => rfl
    | none => rw [← hg]
  · rw [if_neg hends, memTotalLine, loop_numberLine_hangs (rfl : "MemTotal:".toList = 'M' :: _)
      (by decide) g (not_not.mp hends)]

/-- The text is read as a string. -/
theorem textOf_congr {m m' : Mem} (h : cstr m = cstr m') :
    bootTimeOf m = bootTimeOf m' ∧ systemMemoryOf m = systemMemoryOf m' ∧
      (LoopEnds m ↔ LoopEnds m') := by
  rw [bootTimeOf, bootTimeOf, systemMemoryOf, systemMemoryOf, firstNumber, firstNumber, firstNumber,
    firstNumber, LoopEnds, LoopEnds, h]
  exact ⟨rfl, rfl, Iff.rfl⟩

/-- The global variables, with what has been found so far. -/
def InitCall.globals (call : InitCall) (bootTime : Int64) (systemMemory : UInt64) : Globals :=
  ⟨bootTime, call.pageSize, systemMemory, call.hertz⟩

/-- **The initialisation, on the texts of the two files.** -/
theorem initStaticVars_eq (res : Residue (Procstat Nat)) (call : InitCall) (s : Statics) :
    initStaticVars res call s =
      match call.statText with
      | none => some { s with globals := call.globals (-1) (-1), initFailed := true }
      | some text =>
          if LoopEnds text then
            if bootTimeOf text = -1 then
              some { s with globals := call.globals (bootTimeOf text) (-1), initFailed := true }
            else
              match call.memText with
              | none =>
                  some { s with globals := call.globals (bootTimeOf text) (-1), initFailed := true }
              | some mem =>
                  if LoopEnds mem then
                    if call.totalMemory = -1 then
                      some { s with
                        globals := call.globals (bootTimeOf text) (systemMemoryOf mem)
                        initFailed := true }
                    else
                      some { s with
                        globals := call.globals (bootTimeOf text) (systemMemoryOf mem) }
                  else none
          else none := by
  unfold initStaticVars
  dsimp only
  rcases readFile_cases res call.statFile (rfl : (Pool.init : Pool (Procstat Nat)).growing = [])
    (show nul ∉ pidPath "stat".toList none by decide) with ⟨hfile, htext⟩ |
      ⟨content, text, len, hfile, htext, hstr⟩
  · rw [htext, show call.statText = none from hfile]
    rfl
  · rw [htext, show call.statText = some content from hfile]
    obtain ⟨hboot, _, hends⟩ := textOf_congr hstr
    dsimp only
    rw [loop_btimeLine _ (by rfl), hboot, if_congr hends rfl rfl]
    by_cases hstat : LoopEnds content
    · rw [if_pos hstat, if_pos hstat]
      dsimp only
      refine if_congr Iff.rfl rfl ?_
      rcases readFile_cases res call.meminfo
        (rfl : ((readFile res call.statFile "stat".toList none Pool.init).pool.free text).growing = [])
        (show nul ∉ pidPath "meminfo".toList none by decide) with ⟨hfile', htext'⟩ |
          ⟨content', text', len', hfile', htext', hstr'⟩
      · rw [htext', show call.memText = none from hfile']
        rfl
      · rw [htext', show call.memText = some content' from hfile']
        obtain ⟨_, hmemory, hends'⟩ := textOf_congr hstr'
        dsimp only
        rw [loop_memTotalLine _ (by rfl), hmemory, if_congr hends' rfl rfl]
        by_cases hmem : LoopEnds content'
        · rw [if_pos hmem, if_pos hmem]
          rfl
        · rw [if_neg hmem, if_neg hmem]
    · rw [if_neg hstat, if_neg hstat]

/-- **What the initialisation leaves.** -/
theorem initStaticVars_spec (res : Residue (Procstat Nat)) (call : InitCall) (s : Statics) :
    match initStaticVars res call s with
    | none => ¬ call.InitFails ∧ ¬ call.InitSucceeds
    | some s' => (s'.initFailed = true ∧ call.InitFails) ∨
        (s'.initFailed = s.initFailed ∧ call.InitSucceeds) := by
  rw [initStaticVars_eq]
  cases hstat : call.statText with
  | none => exact Or.inl ⟨rfl, Or.inl hstat⟩
  | some text =>
      dsimp only
      by_cases hends : LoopEnds text
      · rw [if_pos hends]
        by_cases hboot : bootTimeOf text = -1
        · rw [if_pos hboot]
          exact Or.inl ⟨rfl, Or.inr ⟨text, hstat, hends, Or.inl hboot⟩⟩
        · rw [if_neg hboot]
          cases hmem : call.memText with
          | none => exact Or.inl ⟨rfl, Or.inr ⟨text, hstat, hends, Or.inr (Or.inl hmem)⟩⟩
          | some mem =>
              dsimp only
              by_cases hends' : LoopEnds mem
              · rw [if_pos hends']
                by_cases htotal : call.totalMemory = -1
                · rw [if_pos htotal]
                  exact Or.inl ⟨rfl, Or.inr ⟨text, hstat, hends,
                    Or.inr (Or.inr ⟨mem, hmem, hends', htotal⟩)⟩⟩
                · rw [if_neg htotal]
                  exact Or.inr ⟨rfl, text, mem, hstat, hends, hboot, hmem, hends', htotal⟩
              · rw [if_neg hends']
                exact InitCall.stuck_meminfo hstat hboot hmem hends'
      · rw [if_neg hends]
        exact InitCall.stuck_stat hstat hends

/-- Once the initialisation has run, a call leaves the state. -/
theorem osInitialize_done (res : Residue (Procstat Nat)) (call : InitCall) {s : Statics}
    (hdone : s.onceDone = true) : ∃ err, osInitialize res call s = some (err, s) := by
  unfold osInitialize
  split
  · exact ⟨_, rfl⟩
  · split
    · exact ⟨_, rfl⟩
    · exact ⟨none, rfl⟩

/-- A call that finds no `/proc` returns an error and leaves the state. -/
theorem osInitialize_missing (res : Residue (Procstat Nat)) {call : InitCall} (s : Statics)
    (hmissing : call.procMounted = false) :
    ∃ msg, osInitialize res call s = some (some msg, s) := by
  unfold osInitialize
  split
  · exact ⟨_, rfl⟩
  · exact ⟨_, rfl⟩

/-- **The call that runs the initialisation.**  It returns no error, whatever
came of it. -/
theorem osInitialize_first (res : Residue (Procstat Nat)) {call : InitCall} {s : Statics}
    (hmounted : call.procMounted = true) (hfresh : s.initFailed = false ∧ s.onceDone = false) :
    match osInitialize res call s with
    | none => ¬ call.InitFails ∧ ¬ call.InitSucceeds
    | some (err, s') => err = none ∧ s'.onceDone = true ∧
        ((s'.initFailed = true ∧ call.InitFails) ∨
          (s'.initFailed = false ∧ call.InitSucceeds)) := by
  have hinit := initStaticVars_spec res call s
  unfold osInitialize
  rw [if_neg (by rw [hfresh.1]; exact Bool.false_ne_true),
    if_neg (by rw [hmounted]; exact Bool.noConfusion),
    if_neg (by rw [hfresh.2]; exact Bool.false_ne_true)]
  cases hrun : initStaticVars res call s with
  | none =>
      rw [hrun] at hinit
      exact hinit
  | some s' =>
      rw [hrun, hfresh.1] at hinit
      exact ⟨rfl, rfl, hinit⟩

/-- Every call that returned no error left an initialisation that did not
fail. -/
def ReportsFailure (outs : List (Option (List Char) × Statics)) : Prop :=
  ∀ out ∈ outs, out.1 = none → out.2.onceDone = true ∧ out.2.initFailed = false

theorem reportsFailure_cons {out : Option (List Char) × Statics}
    {outs : List (Option (List Char) × Statics)} :
    ReportsFailure (out :: outs) ↔
      (out.1 = none → out.2.onceDone = true ∧ out.2.initFailed = false) ∧ ReportsFailure outs :=
  List.forall_mem_cons

/-- After an initialisation that did not fail every call keeps to it. -/
theorem runCalls_done (res : Residue (Procstat Nat)) (calls : List InitCall) {s : Statics}
    (hdone : s.onceDone = true) (hok : s.initFailed = false) :
    ReportsFailure (runCalls res calls s) := by
  induction calls with
  | nil => exact fun _ h => absurd h List.not_mem_nil
  | cons call calls ih =>
      obtain ⟨err, hrun⟩ := osInitialize_done res call hdone
      rw [runCalls, hrun]
      exact reportsFailure_cons.mpr ⟨fun _ => ⟨hdone, hok⟩, ih⟩

/-- A call that finds no `/proc` leaves the others what they are. -/
theorem runCalls_missing (res : Residue (Procstat Nat)) {call : InitCall} (calls : List InitCall)
    (s : Statics) (hmissing : call.procMounted = false) :
    ∃ msg, runCalls res (call :: calls) s = (some msg, s) :: runCalls res calls s := by
  obtain ⟨msg, hrun⟩ := osInitialize_missing res s hmissing
  exact ⟨msg, by rw [runCalls, hrun]⟩

/-- The first call that finds `/proc` decides for all. -/
theorem reportsFailure_first (res : Residue (Procstat Nat)) {call : InitCall}
    (calls : List InitCall) (hmounted : call.procMounted = true) :
    ReportsFailure (runCalls res (call :: calls) Statics.init) ↔ ¬ call.InitFails := by
  have hfirst := osInitialize_first res hmounted
    (show Statics.init.initFailed = false ∧ Statics.init.onceDone = false from ⟨rfl, rfl⟩)
  rw [runCalls]
  cases hrun : osInitialize res call Statics.init with
  | none =>
      rw [hrun] at hfirst
      exact iff_of_true (fun _ h => absurd h List.not_mem_nil) hfirst.1
  | some out =>
      obtain ⟨err, s⟩ := out
      rw [hrun] at hfirst
      obtain ⟨rfl, hdone, hout⟩ := hfirst
      dsimp only
      rw [reportsFailure_cons]
      rcases hout with ⟨hfailed, hfails⟩ | ⟨hok, hsucceeds⟩
      · refine iff_of_false (fun h => ?_) (not_not_intro hfails)
        have hhead := (h.1 rfl).2
        rw [hfailed] at hhead
        cases hhead
      · exact iff_of_true ⟨fun _ => ⟨hdone, hok⟩, runCalls_done res calls hdone hok⟩
          hsucceeds.not_fails

/-- An initialisation that can succeed does. -/
theorem osInitialize_succeeds (res : Residue (Procstat Nat)) {call : InitCall}
    (hmounted : call.procMounted = true) (hsucceeds : call.InitSucceeds) :
    ∃ s, osInitialize res call Statics.init = some (none, s) ∧ s.onceDone = true ∧
      s.initFailed = false := by
  have hfirst := osInitialize_first res hmounted
    (show Statics.init.initFailed = false ∧ Statics.init.onceDone = false from ⟨rfl, rfl⟩)
  cases hrun : osInitialize res call Statics.init with
  | none =>
      rw [hrun] at hfirst
      exact absurd hsucceeds hfirst.2
  | some out =>
      obtain ⟨err, s⟩ := out
      rw [hrun] at hfirst
      obtain ⟨rfl, hdone, ⟨_, hfails⟩ | ⟨hok, _⟩⟩ := hfirst
      · exact absurd hfails hsucceeds.not_fails
      · exact ⟨s, rfl, hdone, hok⟩

/-- **When the calls report every failure.**  No call of a sequence returns
without an error on a failed initialisation exactly when the first call that
finds `/proc` mounted does not fail to initialise.  A call that finds it missing
returns an error and does not use the initialisation up, so one that comes
later, and succeeds, returns none. -/
theorem reports_failure_iff (res : Residue (Procstat Nat)) (calls : List InitCall) :
    (ReportsFailure (runCalls res calls Statics.init) ↔
      ∀ call, calls.find? InitCall.procMounted = some call → ¬ call.InitFails) ∧
    (∀ call s, call.procMounted = false → ∃ msg, osInitialize res call s = some (some msg, s)) ∧
    ∀ missing call, (∀ m ∈ missing, m.procMounted = false) → call.procMounted = true →
      call.InitSucceeds → ∃ s, (runCalls res (missing ++ [call]) Statics.init).getLast? =
        some (none, s) ∧ s.onceDone = true ∧ s.initFailed = false := by
  refine ⟨?_, fun call s => osInitialize_missing res s, ?_⟩
  · induction calls with
    | nil => exact iff_of_true (fun _ h => absurd h List.not_mem_nil) fun _ h => by cases h
    | cons call calls ih =>
        cases hmounted : call.procMounted with
        | false =>
            obtain ⟨msg, hrun⟩ := runCalls_missing res calls Statics.init hmounted
            rw [hrun, reportsFailure_cons,
              List.find?_cons_of_neg (by rw [hmounted]; exact Bool.false_ne_true), ← ih]
            exact and_iff_right fun hnone => by cases hnone
        | true =>
            rw [reportsFailure_first res calls hmounted, List.find?_cons_of_pos hmounted]
            exact ⟨fun h c hc => Option.some.inj hc ▸ h, fun h => h call rfl⟩
  · intro missing call hmissing hmounted hsucceeds
    induction missing with
    | nil =>
        obtain ⟨s, hrun, hs⟩ := osInitialize_succeeds res hmounted hsucceeds
        refine ⟨s, ?_, hs⟩
        rw [List.nil_append, runCalls, hrun]
        rfl
    | cons m missing ih =>
        obtain ⟨msg, hrun⟩ := runCalls_missing res (missing ++ [call]) Statics.init
          (hmissing m List.mem_cons_self)
        obtain ⟨s, hlast, hs⟩ := ih fun m' hm' => hmissing m' (List.mem_cons_of_mem _ hm')
        refine ⟨s, ?_, hs⟩
        rw [List.cons_append, hrun, List.getLast?_cons, hlast]
        rfl

/-- A system on which every file has the content given. -/
def callOf (mounted : Bool) (content : Option (List Char)) : InitCall :=
  let k : Kernel :=
    { stat := fun _ => none
      access := fun _ => mounted
      openFile := fun _ => content.map Reads.bytewise
      realpath := fun _ => none
      time := 0 }
  ⟨mounted, 4096, 100, k, k, 0⟩

/-- A call that finds no `/proc`, and one that finds the boot time. -/
theorem reports_failure_iff_remounted :
    ∃ s, (runCalls ⟨fun _ _ => nul, fun _ => Procstat.zero⟩
        ([callOf false none] ++ [callOf true (some "btime 5".toList)]) Statics.init).getLast? =
      some (none, s) ∧ s.onceDone = true ∧ s.initFailed = false := by
  have htext : fileContent (some (Reads.bytewise "btime 5".toList)) = some "btime 5".toList :=
    fileContent_bytewise _
  refine (reports_failure_iff ⟨fun _ _ => nul, fun _ => Procstat.zero⟩ []).2.2 [callOf false none]
    (callOf true (some "btime 5".toList)) ?_ rfl ?_
  · intro m hm
    rw [List.mem_singleton.mp hm]
    rfl
  · exact ⟨_, _, htext, by decide, by decide +kernel, htext, by decide, by decide⟩

/-- **A failure that is not reported**: `/proc/stat` cannot be read, the call that
finds this out returns no error, and the next one does. -/
theorem initialisation_failure_not_reported :
    ∃ s, runCalls ⟨fun _ _ => nul, fun _ => Procstat.zero⟩ [callOf true none, callOf true none]
        Statics.init = [(none, s), (some "intilization failed".toList, s)] ∧
      s.initFailed = true ∧
      ¬ ReportsFailure (runCalls ⟨fun _ _ => nul, fun _ => Procstat.zero⟩ [callOf true none]
        Statics.init) := by
  have hfirst : osInitialize ⟨fun _ _ => nul, fun _ => Procstat.zero⟩ (callOf true none)
      Statics.init = some (none, ⟨⟨-1, 4096, -1, 100⟩, true, true⟩) := rfl
  have htext : errorText STR_ERR_INIT = "intilization failed".toList := by decide +kernel
  refine ⟨⟨⟨-1, 4096, -1, 100⟩, true, true⟩, ?_, rfl, fun h => ?_⟩
  · rw [runCalls, hfirst]
    dsimp only
    rw [runCalls, osInitialize, if_pos rfl, htext]
    rfl
  · rw [runCalls, hfirst] at h
    have hok := (h _ List.mem_cons_self rfl).2
    cases hok

end Linux
