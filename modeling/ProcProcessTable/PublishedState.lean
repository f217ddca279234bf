import ProcProcessTable.StatRoundTrip
import ProcProcessTable.TableObjects

/-!
# The published state is a word

`fixup_stat_values` turns the state letter into a number of `enum state`, and
the number into an offset through `strings_index`, a table that the state words
share with the error messages and the field names.  `enum state` has one more
enumerator than the table has state words: the index of `PARKED` is that of the
first error message.

`state_published_iff` says for which letters the field is undefined or the word
of the state.
-/

namespace Linux

open CText Scanf MemPool Xs

/-- The word a state is named by. -/
def State.word : State → String
  | .sleep => "sleep"
  | .wait => "wait"
  | .run => "run"
  | .idle => "idle"
  | .defunct => "defunct"
  | .stop => "stop"
  | .uwait => "uwait"
  | .dead => "dead"
  | .wakekill => "wakekill"
  | .tracingstop => "tracingstop"
  | .parked => "parked"

/-- The process states among the words of `strings`. -/
def stateWords : List String := stringWords.take 10

/-- The scalar made of the state field: its format character, and its slot. -/
def stateField (formatStr : Mem) (prs : Scraped) : Except Fault SV :=
  (groupValue ((formatStr[Field.state.idx]?).getD nul) [.ptr (prs.state.map stringAt)]).map Prod.fst

/-- `get_proc_stat` behind `read_file`, and `fixup_stat_values`. -/
def statAndFixup (g : Globals) (fp : FloatOps) (text formatStr : Mem) (prs : Scraped) :
    Mem × Scraped :=
  let scan := scanStat text prs
  fixupStatValues g fp
    (if scan.enabled then fieldEnableRange formatStr .pid .wchan else formatStr) scan.prs

/-- The scalar is undefined, or it is the word of the state the letter stands
for, and that is one of the process states. -/
def IsStateWord (letter : Option Char) (v : Except Fault SV) : Prop :=
  v = .ok .undef ∨ ∃ c state, letter = some c ∧ stateOf c = some state ∧
    state.word ∈ stateWords ∧ v = .ok (.pv state.word.toList)

/-- What the offset of a state leads to: its word, but for the last state. -/
theorem stringAt_state (state : State) :
    cstr (stringAt (getString state.idx)) =
      if state = .parked then "/proc unavailable".toList else state.word.toList := by
  cases state <;> decide +kernel

theorem word_mem_stateWords (state : State) : state.word ∈ stateWords ↔ state ≠ .parked := by
  cases state <;> decide

theorem stateOf_eq_parked (c : Char) : stateOf c = some .parked ↔ c = 'P' := by
  constructor
  · unfold stateOf
    split <;> intro h <;> first | rfl | cases h
  · rintro rfl
    rfl

/-- The scalar made of a letter. -/
def stateScalar (letter : Option Char) : SV :=
  match letter.bind stateOf with
  | none => .undef
  | some state => .pv (cstr (stringAt (getString state.idx)))

/-- **A letter becomes a state word unless it is `P`.** -/
theorem isStateWord_iff (letter : Option Char) :
    IsStateWord letter (.ok (stateScalar letter)) ↔ letter ≠ some 'P' := by
  unfold stateScalar IsStateWord
  cases letter with
  | none => exact iff_of_true (Or.inl rfl) (Option.some_ne_none _).symm
  | some c =>
      rw [Option.bind_some, ne_eq, Option.some.injEq, ← stateOf_eq_parked]
      cases hstate : stateOf c with
      | none => exact iff_of_true (Or.inl rfl) (Option.some_ne_none _).symm
      | some state =>
          dsimp only
          rw [Option.some.injEq, stringAt_state]
          by_cases hparked : state = .parked
          · subst hparked
            refine iff_of_false ?_ (not_not_intro rfl)
            rintro (h | ⟨c', state', hc, hstate', hword, _⟩)
            · cases h
            · rw [← Option.some.inj hc, hstate] at hstate'
              rw [← Option.some.inj hstate'] at hword
              exact (word_mem_stateWords .parked).mp hword rfl
          · rw [if_neg hparked]
            exact iff_of_true (Or.inr ⟨c, state, rfl, hstate, (word_mem_stateWords state).mpr hparked,
              rfl⟩) hparked

/-- The character of the state field after the calls. -/
theorem formatOf_state (enabled : Field → Bool) :
    ((formatOf enabled)[Field.state.idx]?).getD nul = if enabled .state then 's' else 'S' := by
  rw [formatOf_getElem?, Option.getD_some]
  have hspec : Field.spec .state = 'S' := by
    rw [Field.spec, defaultFormat_eq]
    rfl
  rw [hspec]
  cases enabled .state <;> decide

/-- What `fixup_stat_values` makes of a letter, on a record without a state. -/
theorem stateField_fixup (g : Globals) (fp : FloatOps) {enabled : Field → Bool}
    (hoff : enabled .state = false) {prs : Scraped} (hnone : prs.state = none) :
    stateField (fixupStatValues g fp (formatOf enabled) prs).1
        (fixupStatValues g fp (formatOf enabled) prs).2 =
      .ok (stateScalar (some prs.stateC)) := by
  unfold stateField fixupStatValues stateScalar
  rw [Option.bind_some]
  cases stateOf prs.stateC with
  | none =>
      dsimp only
      rw [fieldEnableRange_formatOf _ (show Field.time.idx ≤ Field.ctime.idx by decide),
        formatOf_state, hoff, hnone]
      rfl
  | some state =>
      dsimp only
      rw [fieldEnable_formatOf,
        fieldEnableRange_formatOf _ (show Field.time.idx ≤ Field.ctime.idx by decide),
        formatOf_state, decide_eq_true rfl, Bool.or_true, Bool.true_or]
      rfl

/-- What the two calls make of a text. -/
theorem stateField_statAndFixup (g : Globals) (fp : FloatOps) (text : Mem)
    {enabled : Field → Bool} (hoff : enabled .state = false) {prs : Scraped}
    (hnone : prs.state = none) (hunset : prs.stateC = nul) :
    stateField (statAndFixup g fp text (formatOf enabled) prs).1
        (statAndFixup g fp text (formatOf enabled) prs).2 =
      .ok (stateScalar (stateLetter text)) := by
  have hscan : (scanStat text prs).prs.state = none := by
    rw [← hnone]
    exact congrArg (fun p => p.2.2) (scanStat_outsideStat text prs)
  have hletter : stateScalar (some (scanStat text prs).prs.stateC) =
      stateScalar (stateLetter text) := by
    rw [scanStat_letter, hunset]
    cases stateLetter text with
    | none => rfl
    | some c => rfl
  rw [← hletter]
  unfold statAndFixup
  dsimp only
  split
  · rw [fieldEnableRange_formatOf _ (show Field.pid.idx ≤ Field.wchan.idx by decide)]
    refine stateField_fixup g fp ?_ hscan
    rw [hoff]
    rfl
  · exact stateField_fixup g fp hoff hscan

/-- **When the published state is a word.**  For every stat text, and every
record whose state has not been set, the state field behind `fixup_stat_values`
is undefined or the word of its state if and only if the state letter of the
text is not `P`. -/
theorem state_published_iff (g : Globals) (fp : FloatOps) (text : Mem) {enabled : Field → Bool}
    (hoff : enabled .state = false) {prs : Scraped} (hnone : prs.state = none)
    (hunset : prs.stateC = nul) :
    IsStateWord (stateLetter text)
        (stateField (statAndFixup g fp text (formatOf enabled) prs).1
          (statAndFixup g fp text (formatOf enabled) prs).2) ↔
      stateLetter text ≠ some 'P' := by
  rw [stateField_statAndFixup g fp text hoff hnone hunset]
  exact isStateWord_iff (stateLetter text)

/-- A record of the kernel gives its own state letter. -/
theorem ProcessRecord.stateLetter_render (r : ProcessRecord) :
    stateLetter (r.render ++ [nul]) = some r.stateC := by
  have hletter := scanStat_letter (r.render ++ [nul]) .zero
  rw [(r.scanStat_render .zero []).2.2] at hletter
  cases hc : stateLetter (r.render ++ [nul]) with
  | some c =>
      rw [hc] at hletter
      exact congrArg some hletter.symm
  | none =>
      rw [hc] at hletter
      have hnul : r.stateC = nul := hletter
      have halpha := r.stateC_isAlpha
      rw [hnul] at halpha
      exact absurd halpha (by decide)

/-- A sleeping process. -/
theorem state_published_iff_sleeping :
    IsStateWord (stateLetter ((recordNamed ['a'] (by decide)).render ++ [nul]))
      (stateField (statAndFixup samplePort.globals samplePort.float
          ((recordNamed ['a'] (by decide)).render ++ [nul]) (formatOf fun _ => false) .zero).1
        (statAndFixup samplePort.globals samplePort.float
          ((recordNamed ['a'] (by decide)).render ++ [nul]) (formatOf fun _ => false) .zero).2) := by
  refine (state_published_iff samplePort.globals samplePort.float _ rfl rfl rfl).mpr ?_
  rw [ProcessRecord.stateLetter_render]
  decide

/-- A process that is parked. -/
def parkedRecord : ProcessRecord :=
  { recordNamed ['a'] (by decide) with
    stateC := 'P'
    stateC_isAlpha := by decide }

/-- **A state that is an error message**: the record of a parked process is
accepted, and its state is the text for a `/proc` that is missing. -/
theorem parked_state_not_word :
    (scanStat (parkedRecord.render ++ [nul]) .zero).readOk = true ∧
    (scanStat (parkedRecord.render ++ [nul]) .zero).enabled = true ∧
    stateField (statAndFixup samplePort.globals samplePort.float (parkedRecord.render ++ [nul])
        (formatOf fun _ => false) .zero).1
      (statAndFixup samplePort.globals samplePort.float (parkedRecord.render ++ [nul])
        (formatOf fun _ => false) .zero).2 =
      .ok (.pv (cstr (stringAt (getString STR_ERR_PROC_STATFS)))) ∧
    ¬ IsStateWord (stateLetter (parkedRecord.render ++ [nul]))
      (stateField (statAndFixup samplePort.globals samplePort.float
          (parkedRecord.render ++ [nul]) (formatOf fun _ => false) .zero).1
        (statAndFixup samplePort.globals samplePort.float (parkedRecord.render ++ [nul])
          (formatOf fun _ => false) .zero).2) := by
  obtain ⟨hok, hen, _⟩ := parkedRecord.scanStat_render .zero []
  have hfield := @stateField_statAndFixup samplePort.globals samplePort.float
    (parkedRecord.render ++ [nul]) (fun _ => false) rfl .zero rfl rfl
  rw [parkedRecord.stateLetter_render] at hfield ⊢
  refine ⟨hok, hen, hfield, fun h => ?_⟩
  rw [hfield] at h
  exact (isStateWord_iff (some 'P')).mp h rfl

/-- The state letter of the stat file of an entry. -/
def DirEntry.stateLetter (e : DirEntry) : Option Char :=
  (e.file .procStat "stat").bind fun text => Linux.stateLetter (text ++ [nul])

theorem upToStat_letter (e : DirEntry) :
    (Row.upToStat e).2.prs.stateC = e.stateLetter.getD nul := by
  have hinfo : (Row.init.userInfo (e.world .userInfo) e.dName).prs.stateC = nul := by
    unfold Row.userInfo
    cases (e.world .userInfo).stat (pidPath e.dName none) <;> rfl
  unfold Row.upToStat Row.procStat DirEntry.stateLetter DirEntry.file
  cases Row.file (e.world .procStat) e.dName "stat".toList with
  | none => exact hinfo
  | some text =>
      have hscan := scanStat_letter (text ++ [nul])
        (Row.init.userInfo (e.world .userInfo) e.dName).prs.toScraped
      rw [hinfo] at hscan
      exact hscan

/-- **The state of a published object** is what its letter stands for, and so a
state word unless the letter is `P`. -/
theorem object_state {port : Port} {res : Residue (Procstat Nat)} {xs : Interp}
    {pre : List DirEntry} {e : DirEntry} {obj : HV} (hobj : obj ∈ addedBy port res xs pre e) :
    obj "state" = some (stateScalar e.stateLetter) ∧
      (IsStateWord e.stateLetter (.ok (stateScalar e.stateLetter)) ↔
        e.stateLetter ≠ some 'P') := by
  refine ⟨?_, isStateWord_iff e.stateLetter⟩
  obtain ⟨_, r, value, hrow, hvalue, rfl⟩ :=
    Row.of_mem_added ((mem_addedBy port res xs pre e).mp hobj).2
  have hname : Field.state.name = "state" := by
    rw [Field.name, fieldKeys_eq]
    rfl
  have hletter : stateScalar e.stateLetter = stateScalar (some (Row.upToStat e).2.prs.stateC) := by
    rw [upToStat_letter]
    cases e.stateLetter with
    | none => rfl
    | some c => rfl
  have hv := hvalue .state
  rw [enabledFields_state, DirEntry.stateKnown, fieldSlots, (ready_members hrow).2.1, Field.char,
    Field.spec, defaultFormat_eq] at hv
  rw [← hname, objectOf_name, hletter]
  unfold stateScalar
  rw [Option.bind_some]
  cases hstate : stateOf (Row.upToStat e).2.prs.stateC with
  | none =>
      rw [hstate] at hv
      rw [← Except.ok.inj hv]
  | some state =>
      rw [hstate] at hv
      rw [← Except.ok.inj hv]

end Linux
