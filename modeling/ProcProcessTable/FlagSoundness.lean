import ProcProcessTable.LinuxObject

/-!
# What a lowered flag promises

A field is to be published as defined only if every value it is computed from
was obtained for this process in this scan.  `Obtained` says when that is so, in
terms of what the files held.

Most scrapers keep the promise, but three stages lower flags without looking at
what was scanned: `fixup_stat_values` (time, ctime), `calc_prec` (pctcpu,
pctmem) and `get_proc_status` (the fields of a line whose prefix matched).
`flags_sound_iff` is the exact condition under which an entry gets sound flags.
-/

namespace Linux

open CText Scanf MemPool Xs

/-- Without a value the state letter is what it was. -/
theorem scanStat_stateC {m : Mem} (prs : Scraped) (h : statConversions m = []) :
    (scanStat m prs).prs.stateC = prs.stateC := by
  rw [scanStat_letter, stateLetter, h]
  rfl

/-- A line up to its end.  `sscanf` is handed the rest of the text, and a blank of
its format skips a line break like any other white space. -/
def ownLine (line : List Char) : List Char := line.takeWhile (· ≠ '\n')

/-- The numbers of the kind were obtained: some line of the kind that was looked at
has them all, and no such line took a number from the lines behind it. -/
def DirEntry.kindScanned (e : DirEntry) (kind : LineKind) : Prop :=
  ∃ text, e.file .status "status" = some text ∧
    (∃ l ∈ visitedLines text, LineKind.ofLine? l = some kind ∧
      (kind.scanLine (ownLine l)).length = kind.targets.length) ∧
    ∀ l ∈ visitedLines text, LineKind.ofLine? l = some kind →
      (kind.scanLine l).length = (kind.scanLine (ownLine l)).length

/-- Numbers that are scanned and do not stand in the line. -/
example :
    (LineKind.uid.scanLine "Uid:\t1\n2\n3\n4\n".toList).length = 4 ∧
      (LineKind.uid.scanLine (ownLine "Uid:\t1\n2\n3\n4\n".toList)).length = 1 := by
  decide +kernel

/-- A line of the kind was looked at. -/
def DirEntry.kindVisited (e : DirEntry) (kind : LineKind) : Prop :=
  ∃ text, e.file .status "status" = some text ∧ ∃ l ∈ visitedLines text,
    LineKind.ofLine? l = some kind

/-- **Every value the field is computed from was obtained** for this process in
this scan. -/
def Obtained (e : DirEntry) : Field → Prop
  | .uid | .gid => e.owner ≠ none
  | .state => ∃ text, e.file .procStat "stat" = some text ∧ statConversions (text ++ [nul]) ≠ []
  | .euid | .suid | .fuid => e.kindScanned .uid
  | .egid | .sgid | .fgid => e.kindScanned .gid
  | .tracer => e.kindScanned .tracer
  | .cmndline => e.file .cmndline "cmdline" ≠ none
  | .cmdline => e.file .cmdline "cmdline" ≠ none
  | .environ => e.file .environ "environ" ≠ none
  | .cwd => e.link .cwd "cwd" ≠ none
  | .exec => e.link .exec "exe" ≠ none
  | .pid | .fname | .ppid | .pgrp | .sess | .ttynum | .flags | .minflt | .cminflt | .majflt
  | .cmajflt | .utime | .stime | .cutime | .cstime | .priority | .start | .size | .rss | .wchan
  | .time | .ctime | .pctcpu | .pctmem =>
      ∃ text, e.file .procStat "stat" = some text ∧
        (statConversions (text ++ [nul])).length = 33

/-- A known state letter was scanned. -/
theorem obtained_state {e : DirEntry} (h : e.stateKnown = true) : Obtained e .state := by
  unfold DirEntry.stateKnown at h
  have hinfo : (Row.init.userInfo (e.world .userInfo) e.dName).prs.stateC = nul := by
    unfold Row.userInfo
    cases (e.world .userInfo).stat (pidPath e.dName none) <;> rfl
  have hnul : (stateOf nul).isSome = false := by decide
  show ∃ text, e.file .procStat "stat" = some text ∧ statConversions (text ++ [nul]) ≠ []
  unfold Row.upToStat Row.procStat at h
  cases hfile : e.file .procStat "stat" with
  | none =>
      have hfile' : Row.file (e.world .procStat) e.dName "stat".toList = none := hfile
      rw [hfile'] at h
      dsimp only at h
      rw [hinfo, hnul] at h
      cases h
  | some text =>
      have hfile' : Row.file (e.world .procStat) e.dName "stat".toList = some text := hfile
      rw [hfile'] at h
      refine ⟨text, rfl, fun hnone => ?_⟩
      have hstate := scanStat_stateC (Row.init.userInfo (e.world .userInfo) e.dName).prs.toScraped hnone
      rw [hinfo] at hstate
      dsimp only [Procstat.scraped] at h
      rw [hstate, hnul] at h
      cases h

/-- The status file enables a field when a line of its kind was looked at. -/
theorem statusOccurs_iff (e : DirEntry) (f : Field) :
    e.statusOccurs f = true ↔ ∃ kind : LineKind, kind.fields f = true ∧ e.kindVisited kind := by
  unfold DirEntry.statusOccurs DirEntry.kindVisited
  cases e.file .status "status" with
  | none => simp
  | some text =>
      rw [Option.any_some, kindOccurs, List.any_eq_true]
      constructor
      · rintro ⟨l, hl, hkind⟩
        obtain ⟨kind, hkind, hf⟩ := Option.any_eq_true _ _ |>.mp hkind
        exact ⟨kind, hf, text, rfl, l, hl, hkind⟩
      · rintro ⟨kind, hf, t, ht, l, hl, hkind⟩
        obtain rfl := Option.some.inj ht
        exact ⟨l, hl, by rw [hkind]; exact hf⟩

/-- The fields of a kind are enabled by its lines alone. -/
theorem enabledFields_status (port : Port) (e : DirEntry) {kind : LineKind} {f : Field}
    (hf : kind.fields f = true) : e.enabledFields port f = true ↔ e.kindVisited kind := by
  have hstatus : e.enabledFields port f = e.statusOccurs f := by
    revert hf
    cases kind <;> cases f <;> intro hf <;>
      first
        | exact absurd hf (by decide)
        | simp [DirEntry.enabledFields, Field.between, Field.ctorIdx]
  have honly : ∀ kind' : LineKind, kind'.fields f = true → kind' = kind := by
    intro kind' hf'
    revert hf hf'
    cases kind <;> cases kind' <;> cases f <;> decide
  rw [hstatus, statusOccurs_iff]
  constructor
  · rintro ⟨kind', hf', hvisited⟩
    rw [← honly kind' hf']
    exact hvisited
  · exact fun hvisited => ⟨kind, hf, hvisited⟩

theorem enabledFields_owner (port : Port) (e : DirEntry) {f : Field} (hf : f = .uid ∨ f = .gid) :
    e.enabledFields port f = e.owner.isSome := by
  have hstatus := @statusOccurs_eq_false e f (by
    intro kind
    rcases hf with rfl | rfl <;> cases kind <;> decide)
  rcases hf with rfl | rfl <;>
    simp [DirEntry.enabledFields, hstatus, Field.between, Field.ctorIdx]

/-- The flags that are lowered for every entry. -/
theorem enabledFields_time (port : Port) (e : DirEntry) : e.enabledFields port .time = true := by
  simp [DirEntry.enabledFields, Field.between, Field.ctorIdx]

/-- **When the flags of an entry are sound.** -/
theorem enabledFields_sound_iff (port : Port) (e : DirEntry) :
    (∀ f, e.enabledFields port f = true → Obtained e f) ↔
      (∃ text, e.file .procStat "stat" = some text ∧
        (statConversions (text ++ [nul])).length = 33) ∧
      ∀ kind : LineKind, e.kindVisited kind → e.kindScanned kind := by
  constructor
  · intro h
    refine ⟨h .time (enabledFields_time port e), fun kind hvisited => ?_⟩
    cases kind with
    | uid => exact h .euid ((@enabledFields_status port e .uid .euid rfl).mpr hvisited)
    | gid => exact h .egid ((@enabledFields_status port e .gid .egid rfl).mpr hvisited)
    | tracer => exact h .tracer ((@enabledFields_status port e .tracer .tracer rfl).mpr hvisited)
  · rintro ⟨hstat, hkinds⟩ f hf
    have hkind : ∀ kind : LineKind, kind.fields f = true → e.kindScanned kind :=
      fun kind hk => hkinds kind ((enabledFields_status port e hk).mp hf)
    have hmember : ∀ m : Member, f = m.field → e.text m ≠ none := by
      rintro m rfl
      rw [enabledFields_member] at hf
      exact Option.isSome_iff_ne_none.mp hf
    have howner : f = .uid ∨ f = .gid → e.owner ≠ none := by
      intro hu
      rw [enabledFields_owner port e hu] at hf
      exact Option.isSome_iff_ne_none.mp hf
    cases f
    case uid => exact howner (Or.inl rfl)
    case gid => exact howner (Or.inr rfl)
    case state =>
      rw [enabledFields_state] at hf
      exact obtained_state hf
    case euid => exact hkind .uid rfl
    case suid => exact hkind .uid rfl
    case fuid => exact hkind .uid rfl
    case egid => exact hkind .gid rfl
    case sgid => exact hkind .gid rfl
    case fgid => exact hkind .gid rfl
    case tracer => exact hkind .tracer rfl
    case cmndline => exact fun h => hmember .cmndline rfl (by rw [DirEntry.text, h]; rfl)
    case cmdline => exact hmember .cmdline rfl
    case environ => exact hmember .environ rfl
    case cwd => exact fun h => hmember .cwd rfl (by rw [DirEntry.text, h]; rfl)
    case exec => exact fun h => hmember .exec rfl (by rw [DirEntry.text, h]; rfl)
    all_goals exact hstat

section

variable (port : Port) (res : Residue (Procstat Nat)) (xs : Interp) (entries : List DirEntry)
  (e : DirEntry)

/-- The flags at a call of `bless_into_proc` are those of `enabledFields`. -/
theorem isEnabled_ready (hgo : (tableRun port res xs entries).fault = none) {prs formatStr : Nat}
    {pool : Memory} (hready : scrapeEntry port res e 0 (tableRun port res xs entries).pool =
      (.ready prs formatStr, pool)) (f : Field) :
    isEnabled (pool.bytesAt formatStr) f = e.enabledFields port f := by
  obtain ⟨start, objs, row, hrow, hframe, _, rfl⟩ := tableRun_ready hgo hready
  rw [hframe.bytesAt_format, Row.ready_formatStr hrow, isEnabled_formatOf]

end

end Linux
