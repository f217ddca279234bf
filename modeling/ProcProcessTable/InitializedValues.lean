import ProcProcessTable.OsInitialize

/-!
# What a successful initialisation has read

`init_static_vars` looks for two numbers, the boot time in `/proc/stat` and the
memory in `/proc/meminfo`, and sets each variable to -1 before it looks.  Behind
the first loop it tests the variable the loop writes.  Behind the second it
tests `total_memory`, a local variable that nothing writes, in place of
`system_memory`.

`valuesRead_iff` is the exact condition under which the outcome tells whether
both numbers were read.
-/

namespace Linux

open CText MemPool

namespace InitCall

variable (call : InitCall)

/-- The number of the first `btime` line of `/proc/stat` that has one. -/
def btimeNumber : Option Int := call.statText.bind (firstNumber "btime".toList btimeFormat)

/-- The number of the first `MemTotal:` line of `/proc/meminfo` that has one. -/
def memTotalNumber : Option Int :=
  call.memText.bind (firstNumber "MemTotal:".toList memTotalFormat)

/-- The outcome tells whether both numbers were read: a state without failure
has them, and a missing number leaves a failure. -/
def ValuesRead (initVars : Statics → Option Statics) : Prop :=
  ∀ g once,
    (∀ s, initVars ⟨g, false, once⟩ = some s → s.initFailed = false →
      (∃ v, call.btimeNumber = some v ∧ s.globals.bootTime = Int64.ofInt v) ∧
      ∃ v, call.memTotalNumber = some v ∧ s.globals.systemMemory = UInt64.ofInt v * 1024) ∧
    (call.btimeNumber = none ∨ call.memTotalNumber = none →
      ∃ s, initVars ⟨g, false, once⟩ = some s ∧ s.initFailed = true)

/-- Both numbers can be found. -/
def BothNumbers : Prop := call.btimeNumber ≠ none ∧ call.memTotalNumber ≠ none

variable {call}

theorem bootTimeOf_btimeNumber {text : Mem} (htext : call.statText = some text) {v : Int}
    (hv : call.btimeNumber = some v) : bootTimeOf text = Int64.ofInt v := by
  rw [btimeNumber, htext, Option.bind_some] at hv
  rw [bootTimeOf, hv]

theorem systemMemoryOf_memTotalNumber {mem : Mem} (hmem : call.memText = some mem) {v : Int}
    (hv : call.memTotalNumber = some v) : systemMemoryOf mem = UInt64.ofInt v * 1024 := by
  rw [memTotalNumber, hmem, Option.bind_some] at hv
  rw [systemMemoryOf, hv]

end InitCall

variable (res : Residue (Procstat Nat)) {call : InitCall}

/-- An initialisation that gets to its end leaves what the two texts say. -/
theorem initStaticVars_succeeds {text mem : Mem} (htext : call.statText = some text)
    (hends : LoopEnds text) (hboot : bootTimeOf text ≠ -1) (hmem : call.memText = some mem)
    (hends' : LoopEnds mem) (htotal : call.totalMemory ≠ -1) (s : Statics) :
    initStaticVars res call s =
      some { s with globals := call.globals (bootTimeOf text) (systemMemoryOf mem) } := by
  rw [initStaticVars_eq, htext]
  dsimp only
  rw [if_pos hends, if_neg hboot, hmem]
  dsimp only
  rw [if_pos hends', if_neg htotal]

/-- Where both numbers can be found, an end without failure has found them. -/
theorem valuesRead_of_bothNumbers (h : call.BothNumbers) :
    call.ValuesRead (initStaticVars res call) := by
  obtain ⟨b, hb⟩ := Option.ne_none_iff_exists'.mp h.1
  obtain ⟨m, hm⟩ := Option.ne_none_iff_exists'.mp h.2
  intro g once
  refine ⟨fun s hs hok => ?_, fun hmissing => ?_⟩
  · have hspec := initStaticVars_spec res call ⟨g, false, once⟩
    rw [hs] at hspec
    rcases hspec with ⟨hfailed, _⟩ | ⟨_, text, mem, htext, hends, hboot, hmem, hends', htotal⟩
    · rw [hok] at hfailed
      cases hfailed
    · rw [initStaticVars_succeeds res htext hends hboot hmem hends' htotal] at hs
      obtain rfl := Option.some.inj hs
      exact ⟨⟨b, hb, InitCall.bootTimeOf_btimeNumber htext hb⟩,
        m, hm, InitCall.systemMemoryOf_memTotalNumber hmem hm⟩
  · rcases hmissing with hnone | hnone
    · exact absurd hnone h.1
    · exact absurd hnone h.2

/-- A failure exit is right whatever is missing. -/
theorem valuesRead_of_fails (h : call.InitFails) :
    call.ValuesRead (initStaticVars res call) := by
  intro g once
  have hspec := initStaticVars_spec res call ⟨g, false, once⟩
  cases hrun : initStaticVars res call ⟨g, false, once⟩ with
  | none =>
      rw [hrun] at hspec
      exact absurd h hspec.1
  | some s =>
      rw [hrun] at hspec
      rcases hspec with ⟨hfailed, _⟩ | ⟨_, hsucceeds⟩
      · refine ⟨fun s' hs' hok => ?_, fun _ => ⟨s, rfl, hfailed⟩⟩
        rw [← Option.some.inj hs', hfailed] at hok
        cases hok
      · exact absurd h hsucceeds.not_fails

/-- With a number missing, only a failure exit is right. -/
theorem fails_of_valuesRead (h : call.ValuesRead (initStaticVars res call))
    (hmissing : ¬ call.BothNumbers) : call.InitFails := by
  have hnone : call.btimeNumber = none ∨ call.memTotalNumber = none := by
    rw [InitCall.BothNumbers, not_and_or, not_not, not_not] at hmissing
    exact hmissing
  obtain ⟨s, hrun, hfailed⟩ := (h ⟨0, 0, 0, 0⟩ false).2 hnone
  have hspec := initStaticVars_spec res call ⟨⟨0, 0, 0, 0⟩, false, false⟩
  rw [hrun] at hspec
  rcases hspec with ⟨_, hfails⟩ | ⟨hok, _⟩
  · exact hfails
  · rw [hfailed] at hok
    cases hok

end Linux

namespace Cygwin

/-- `init_static_vars` of the Cygwin port: the text of the Linux port's. -/
def initStaticVars := Linux.initStaticVars

end Cygwin

namespace Linux

open CText MemPool

/-- **When the outcome tells what was read**, in both ports: when both numbers
can be found, or the initialisation comes to one of its failure exits. -/
theorem valuesRead_iff (res : Residue (Procstat Nat)) (call : InitCall) :
    (call.ValuesRead (initStaticVars res call) ↔ call.BothNumbers ∨ call.InitFails) ∧
    (call.ValuesRead (Cygwin.initStaticVars res call) ↔ call.BothNumbers ∨ call.InitFails) := by
  have hlinux : call.ValuesRead (initStaticVars res call) ↔
      call.BothNumbers ∨ call.InitFails := by
    constructor
    · intro h
      by_cases hboth : call.BothNumbers
      · exact Or.inl hboth
      · exact Or.inr (fails_of_valuesRead res h hboth)
    · rintro (hboth | hfails)
      · exact valuesRead_of_bothNumbers res hboth
      · exact valuesRead_of_fails res hfails
  exact ⟨hlinux, hlinux⟩

/-- **A memory that was not read**: neither file has a `MemTotal:` line, and the
initialisation ends without a failure, with -1 for the memory. -/
theorem memory_not_read :
    initStaticVars ⟨fun _ _ => nul, fun _ => Procstat.zero⟩ (callOf true (some "btime 5".toList))
        ⟨⟨0, 0, 0, 0⟩, false, false⟩ = some ⟨⟨5, 4096, -1, 100⟩, false, false⟩ ∧
      ¬ (callOf true (some "btime 5".toList)).ValuesRead
        (initStaticVars ⟨fun _ _ => nul, fun _ => Procstat.zero⟩
          (callOf true (some "btime 5".toList))) := by
  have htext : (callOf true (some "btime 5".toList)).statText = some "btime 5".toList :=
    fileContent_bytewise _
  have hmem : (callOf true (some "btime 5".toList)).memText = some "btime 5".toList :=
    fileContent_bytewise _
  have hboot : bootTimeOf "btime 5".toList = 5 := by decide +kernel
  have hmissing : firstNumber "MemTotal:".toList memTotalFormat "btime 5".toList = none := by
    decide +kernel
  have hmemory : systemMemoryOf "btime 5".toList = -1 := by
    rw [systemMemoryOf, hmissing]
  have hrun : initStaticVars ⟨fun _ _ => nul, fun _ => Procstat.zero⟩
      (callOf true (some "btime 5".toList)) ⟨⟨0, 0, 0, 0⟩, false, false⟩ =
        some ⟨⟨5, 4096, -1, 100⟩, false, false⟩ := by
    have hends : LoopEnds "btime 5".toList := by decide
    rw [initStaticVars_succeeds _ htext hends (by rw [hboot]; decide) hmem hends (by decide),
      hboot, hmemory]
    rfl
  refine ⟨hrun, fun h => ?_⟩
  obtain ⟨v, hv, _⟩ := ((h ⟨0, 0, 0, 0⟩ false).1 _ hrun rfl).2
  rw [InitCall.memTotalNumber, hmem, Option.bind_some, hmissing] at hv
  cases hv

end Linux
