import ProcProcessTable.PublishedNumbers
import ProcProcessTable.PublishedProcesses
import ProcProcessTable.StatRoundTrip

/-!
# Rows and what stands outside them

Two runs whose listings both contain a process, and to which the system gave the
same answers for it, should publish the same object for it.  The other entries,
their order and outcomes, what the recycled memory holds, and the halves of the
argument slots that nobody writes are free in both runs.

The memory never shows.  Two things outside the row do: an entry in front that
is not worked on to its end, and the upper half of the slot in which `flags` is
passed.  `rows_independent_iff` says exactly when.  The terminal name is looked
up in the interpreter's table and not in the row.
-/

namespace Linux

open CText Scanf MemPool Xs

/-- The system gave the same answers for both entries. -/
structure SameOutcomes (e e' : DirEntry) : Prop where
  dName : e.dName = e'.dName
  owner : e.owner = e'.owner
  present : e.present = e'.present
  stat : e.file .procStat "stat" = e'.file .procStat "stat"
  cmndline : e.file .cmndline "cmdline" = e'.file .cmndline "cmdline"
  cmdline : e.file .cmdline "cmdline" = e'.file .cmdline "cmdline"
  environ : e.file .environ "environ" = e'.file .environ "environ"
  cwd : e.link .cwd "cwd" = e'.link .cwd "cwd"
  exec : e.link .exec "exe" = e'.link .exec "exe"
  status : e.file .status "status" = e'.file .status "status"
  clock : (e.world .calcPrec).time = (e'.world .calcPrec).time

namespace Row

variable {e e' : DirEntry} (h : SameOutcomes e e')

include h

/-- The row after the stat file. -/
theorem upToStat_congr : upToStat e = upToStat e' := by
  have howner : ∀ r : Row, r.userInfo (e.world .userInfo) e.dName =
      r.userInfo (e'.world .userInfo) e'.dName := by
    intro r
    unfold userInfo
    rw [show (e.world .userInfo).stat (pidPath e.dName none) =
      (e'.world .userInfo).stat (pidPath e'.dName none) from h.owner]
  have hstat : ∀ r : Row, r.procStat (e.world .procStat) e.dName =
      r.procStat (e'.world .procStat) e'.dName := by
    intro r
    unfold procStat
    rw [show file (e.world .procStat) e.dName "stat".toList =
      file (e'.world .procStat) e'.dName "stat".toList from h.stat]
  rw [upToStat, howner, hstat]
  rfl

/-- The row before the status file. -/
theorem links_congr (port : Port) (r : Row) : r.links port e = r.links port e' := by
  have hcmndline : ∀ r : Row, r.cmndline (e.world .cmndline) e.dName =
      r.cmndline (e'.world .cmndline) e'.dName := by
    intro r
    unfold cmndline
    rw [show file (e.world .cmndline) e.dName "cmdline".toList =
      file (e'.world .cmndline) e'.dName "cmdline".toList from h.cmndline]
  have hcmdline : ∀ r : Row, r.cmdline (e.world .cmdline) e.dName =
      r.cmdline (e'.world .cmdline) e'.dName := by
    intro r
    unfold cmdline
    rw [show file (e.world .cmdline) e.dName "cmdline".toList =
      file (e'.world .cmdline) e'.dName "cmdline".toList from h.cmdline]
  have henviron : ∀ r : Row, r.environ (e.world .environ) e.dName =
      r.environ (e'.world .environ) e'.dName := by
    intro r
    unfold environ
    rw [show file (e.world .environ) e.dName "environ".toList =
      file (e'.world .environ) e'.dName "environ".toList from h.environ]
  have hlink : ∀ {m : Moment} {name : String}, e.link m name = e'.link m name →
      ∀ (field : Field) (ptr : Member) (r : Row), r.link (e.world m) e.dName name.toList field ptr =
        r.link (e'.world m) e'.dName name.toList field ptr := by
    intro m name heq field ptr r
    unfold link
    rw [show (e.world m).realpath (pidPath e.dName (some name.toList)) =
      (e'.world m).realpath (pidPath e'.dName (some name.toList)) from heq]
  unfold links
  dsimp only
  rw [hcmndline, hcmdline, henviron, hlink h.cwd, hlink h.exec]

theorem finish_congr (port : Port) (r : Row) : finish port e r = finish port e' r := by
  have hstatus : ∀ r : Row, r.status (e.world .status) e.dName =
      r.status (e'.world .status) e'.dName := by
    intro r
    unfold status
    rw [show file (e.world .status) e.dName "status".toList =
      file (e'.world .status) e'.dName "status".toList from h.status]
  have hpercent : ∀ r : Row, r.percentages port (e.world .calcPrec) =
      r.percentages port (e'.world .calcPrec) := by
    intro r
    unfold percentages calcPrec
    rw [h.clock]
  unfold finish
  rw [links_congr h, hstatus]
  cases (r.links port e').status (e'.world .status) e'.dName with
  | none => rfl
  | some r' =>
      dsimp only
      rw [hpercent]

/-- **The row of an entry is a function of the answers.** -/
theorem scrape_congr (port : Port) : scrape port e = scrape port e' := by
  have hvan : Vanished e ↔ Vanished e' := by
    unfold Vanished
    rw [upToStat_congr h]
    exact and_congr_right fun _ => by rw [show (e.world .pidExists).access (pidPath e.dName none) =
      (e'.world .pidExists).access (pidPath e'.dName none) from h.present]
  rw [scrape, scrape, upToStat_congr h, finish_congr h, h.dName]
  exact if_congr Iff.rfl rfl (if_congr hvan rfl rfl)

end Row

/-- An entry with the same answers is published in both runs or in none. -/
theorem SameOutcomes.publishes_iff {e e' : DirEntry} (h : SameOutcomes e e') (port : Port) :
    e.Publishes port ↔ e'.Publishes port := by
  have hready : (∃ r, Row.scrape port e = .ready r) ↔ ∃ r, Row.scrape port e' = .ready r := by
    rw [Row.scrape_congr h]
  rw [scrape_ready_iff, scrape_ready_iff] at hready
  constructor
  · rintro ⟨hpid, hpresent, hends, hmem, hcmdline, henviron⟩
    obtain ⟨hpid', hpresent', hends', hmem'⟩ := hready.mp ⟨hpid, hpresent, hends, hmem⟩
    exact ⟨hpid', hpresent', hends', hmem', h.cmdline ▸ hcmdline, h.environ ▸ henviron⟩
  · rintro ⟨hpid, hpresent, hends, hmem, hcmdline, henviron⟩
    obtain ⟨hpid', hpresent', hends', hmem'⟩ := hready.mpr ⟨hpid, hpresent, hends, hmem⟩
    exact ⟨hpid', hpresent', hends', hmem', h.cmdline.symm ▸ hcmdline, h.environ.symm ▸ henviron⟩

/-- The flags of the fields are those of the row. -/
theorem SameOutcomes.enabledFields_eq {e e' : DirEntry} (h : SameOutcomes e e') {port : Port}
    {r : Row} (hrow : Row.scrape port e = .ready r) :
    e.enabledFields port = e'.enabledFields port := by
  have hformat := Row.ready_formatStr hrow
  rw [Row.scrape_congr h] at hrow
  rw [Row.ready_formatStr hrow] at hformat
  funext f
  have hf := congrArg (isEnabled · f) hformat
  rw [isEnabled_formatOf, isEnabled_formatOf] at hf
  exact hf.symm

/-- The upper halves show in no field but the flags. -/
theorem groupValue_upper {π : Type} (upper upper' : Field → UInt32) (deref : π → Mem)
    (p : Procstat π) {f : Field} (hf : f ≠ .flags) (on : Bool) :
    groupValue (f.char on) (fieldSlots upper deref p f) =
      groupValue (f.char on) (fieldSlots upper' deref p f) := by
  cases on with
  | false => rw [groupValue_masked, groupValue_masked]
  | true =>
      have harray : ∀ (f : Field) (m : Option Mem) (x : Int32),
          groupValue 'a' [.ptr m, argInt upper f x] = groupValue 'a' [.ptr m, argInt upper' f x] := by
        intro f m x
        obtain ⟨w, hw, hint⟩ := toInt_argInt upper f x
        obtain ⟨w', hw', hint'⟩ := toInt_argInt upper' f x
        rw [hw, hw', groupValue_array, groupValue_array, hint, hint']
      rw [Field.char, Field.spec, defaultFormat_eq]
      cases f
      case flags => exact absurd rfl hf
      case cmdline => exact harray .cmdline _ _
      case environ => exact harray .environ _ _
      case uid | gid | pid | ppid | pgrp | sess | ttynum | euid | suid | fuid | egid | sgid | fgid |
          tracer =>
        exact (groupValue_int upper _ _).trans (groupValue_int upper' _ _).symm
      all_goals rfl

/-- An object is made of its values alone. -/
theorem objectOf_congr {port : Port} (ttydevs : Option HV) {e e' : DirEntry} {r : Row}
    {value value' : Field → SV × Option UInt64} (h : ∀ f, value f = value' f) :
    objectOf port ttydevs e r value = objectOf port ttydevs e' r value' := by
  have hfold : ∀ (e : DirEntry) (value : Field → SV × Option UInt64),
      objectOf port ttydevs e r value =
        Field.all.foldl (fun obj f => storeField ttydevs f.name (value f) obj) HV.empty := by
    intro e value
    rw [objectOf, storeColumns, valueColumns, List.foldl_map]
  rw [hfold, hfold]
  exact congrArg (fun v => Field.all.foldl (fun obj f => storeField ttydevs f.name (v f) obj)
    HV.empty) (funext h)

/-- An object is the same for two terminal tables, up to the terminal name. -/
theorem objectOf_agree (port : Port) (ttydevs ttydevs' : Option HV) (e : DirEntry) (r : Row)
    (value : Field → SV × Option UInt64) {key : String} (hkey : key ≠ "ttydev") :
    objectOf port ttydevs e r value key = objectOf port ttydevs' e r value key := by
  by_cases hmem : key ∈ fieldKeys
  · rw [fieldKeys_eq_map] at hmem
    obtain ⟨f, _, rfl⟩ := List.mem_map.mp hmem
    rw [objectOf_name, objectOf_name]
  · rw [objectOf_other port ttydevs e r value hmem hkey,
      objectOf_other port ttydevs' e r value hmem hkey]

/-- The flags of an object whose stat record was scanned whole: all 8 bytes of
their slot. -/
theorem value_flags {port : Port} {e : DirEntry} {r : Row} {value : Field → SV × Option UInt64}
    (hvalue : RowValues port e r value) (hscanned : e.statScanned = true) :
    value .flags =
      (newSVnv
          (UInt64.ofNat ((e.upper .flags).toNat * 2 ^ 32 + r.prs.flags.toNat)).toInt64.toInt,
        some (UInt64.ofNat ((e.upper .flags).toNat * 2 ^ 32 + r.prs.flags.toNat))) := by
  have hv := hvalue .flags
  rw [@enabledFields_stat port e .flags (by decide), hscanned, Field.char, Field.spec,
    defaultFormat_eq] at hv
  exact (Except.ok.inj hv).symm

/-- **When two published rows are the same**: the stat record was not scanned
whole, so that the flags are undefined, or the upper halves of their slots
agree. -/
theorem SameOutcomes.object_eq_iff {e e' : DirEntry} (h : SameOutcomes e e') {port : Port}
    (ttydevs : Option HV) {r : Row} (hrow : Row.scrape port e = .ready r)
    {value value' : Field → SV × Option UInt64} (hvalue : RowValues port e r value)
    (hvalue' : RowValues port e' r value') :
    (objectOf port ttydevs e r value = objectOf port ttydevs e' r value' ↔
        (e.statScanned = true → e.upper .flags = e'.upper .flags)) ∧
      (objectOf port ttydevs e r value Field.flags.name =
          objectOf port ttydevs e' r value' Field.flags.name →
        e.statScanned = true → e.upper .flags = e'.upper .flags) := by
  have henabled := h.enabledFields_eq hrow
  have hscanned : e'.statScanned = e.statScanned := by
    unfold DirEntry.statScanned
    rw [h.stat]
  have hother : ∀ f, f ≠ .flags → value f = value' f := by
    intro f hf
    have hv := hvalue f
    rw [groupValue_upper e.upper e'.upper _ r.prs hf, henabled, hvalue' f] at hv
    exact (Except.ok.inj hv).symm
  have hflags : objectOf port ttydevs e r value Field.flags.name =
      objectOf port ttydevs e' r value' Field.flags.name →
        e.statScanned = true → e.upper .flags = e'.upper .flags := by
    intro hkey hwhole
    rw [objectOf_name, objectOf_name, value_flags hvalue hwhole,
      value_flags hvalue' (hscanned.trans hwhole)] at hkey
    exact (newSVnv_half_inj _ _ _).mp (Option.some.inj hkey)
  refine ⟨⟨fun hobj => hflags (congrFun hobj _), fun hupper => ?_⟩, hflags⟩
  refine objectOf_congr ttydevs fun f => ?_
  by_cases hf : f = .flags
  · subst hf
    cases hwhole : e.statScanned with
    | true =>
        rw [value_flags hvalue hwhole, value_flags hvalue' (hscanned.trans hwhole), hupper hwhole]
    | false =>
        have hmasked : ∀ {e : DirEntry} {value : Field → SV × Option UInt64},
            RowValues port e r value → e.statScanned = false → value .flags = (.undef, none) := by
          intro e value hvalue hwhole
          have hv := hvalue .flags
          rw [@enabledFields_stat port e .flags (by decide), hwhole, groupValue_masked] at hv
          exact (Except.ok.inj hv).symm
        rw [hmasked hvalue hwhole, hmasked hvalue' (hscanned.trans hwhole)]
  · exact hother f hf

/-- What two runs publish for an entry is the same: as many objects, which agree
on every key but the terminal name, and are equal under one terminal table. -/
def SameRows (xs₁ xs₂ : Interp) : List HV → List HV → Prop :=
  List.Forall₂ fun obj₁ obj₂ =>
    (∀ key, key ≠ "ttydev" → obj₁ key = obj₂ key) ∧ (xs₁.ttydevs = xs₂.ttydevs → obj₁ = obj₂)

section

variable (port : Port) (res₁ res₂ : Residue (Procstat Nat)) (xs₁ xs₂ : Interp)
  (pre₁ pre₂ : List DirEntry) {e₁ e₂ : DirEntry}

/-- **When a row depends on nothing outside it.**  In two runs an entry with the
same answers is published alike exactly when, if it is published at all, the
entries in front of it let both runs get there or neither, and the upper half of
the slot of defined flags is the same in both. -/
theorem rows_independent_iff (h : SameOutcomes e₁ e₂) :
    SameRows xs₁ xs₂ (addedBy port res₁ xs₁ pre₁ e₁) (addedBy port res₂ xs₂ pre₂ e₂) ↔
      (e₁.Publishes port →
        ((∀ e ∈ pre₁, e.Completes port) ↔ ∀ e ∈ pre₂, e.Completes port) ∧
        ((∀ e ∈ pre₁, e.Completes port) → e₁.statScanned = true →
          e₁.upper .flags = e₂.upper .flags)) := by
  unfold SameRows
  rw [← tableRun_go_iff port res₁ xs₁, ← tableRun_go_iff port res₂ xs₂]
  by_cases hpub : e₁.Publishes port
  · have hpub' := (h.publishes_iff port).mp hpub
    rw [addedBy_eq, addedBy_eq]
    obtain ⟨r, value₁, hrow, hvalue₁, hadd₁⟩ := Row.added_of_publishes hpub xs₁.ttydevs
    obtain ⟨r', value₂, hrow', hvalue₂, hadd₂⟩ := Row.added_of_publishes hpub' xs₂.ttydevs
    rw [← Row.scrape_congr h, hrow] at hrow'
    obtain rfl := Row.Outcome.ready.inj hrow'
    rw [forall_prop_of_true hpub, hadd₁, hadd₂]
    cases hgo₁ : (tableRun port res₁ xs₁ pre₁).fault with
    | some f =>
        have hnot : ¬ (some f = (none : Option Fault)) := Option.some_ne_none f
        cases hgo₂ : (tableRun port res₂ xs₂ pre₂).fault with
        | some f' =>
            exact iff_of_true .nil
              ⟨iff_of_false hnot (Option.some_ne_none f'), fun h => absurd h hnot⟩
        | none => exact iff_of_false (fun h => by cases h) fun h => hnot (h.1.mpr rfl)
    | none =>
        cases hgo₂ : (tableRun port res₂ xs₂ pre₂).fault with
        | some f' =>
            refine iff_of_false (fun h => by cases h) fun h => ?_
            exact Option.some_ne_none f' (h.1.mp rfl)
        | none =>
            dsimp only
            have hobj := h.object_eq_iff xs₁.ttydevs hrow hvalue₁ hvalue₂
            rw [List.forall₂_cons, and_iff_left List.Forall₂.nil, and_iff_right Iff.rfl,
              forall_prop_of_true rfl]
            have hname : Field.flags.name ≠ "ttydev" := Field.flags.name_ne_ttydev
            constructor
            · rintro ⟨hkeys, _⟩
              refine hobj.2 ?_
              rw [hkeys _ hname]
              exact objectOf_agree port _ _ e₂ r value₂ hname
            · intro hupper
              rw [hobj.1.mpr hupper]
              exact ⟨fun key hkey => objectOf_agree port _ _ e₂ r value₂ hkey,
                fun htty => by rw [htty]⟩
  · have hnil : ∀ {e : DirEntry} (res : Residue (Procstat Nat)) (xs : Interp) (pre : List DirEntry),
        ¬ e.Publishes port → addedBy port res xs pre e = [] := by
      intro e res xs pre hnot
      refine List.eq_nil_iff_forall_not_mem.mpr fun obj hobj => hnot ?_
      exact (Row.of_mem_added ((mem_addedBy port res xs pre e).mp hobj).2).1
    rw [hnil res₁ xs₁ pre₁ hpub, hnil res₂ xs₂ pre₂ fun hp => hpub ((h.publishes_iff port).mpr hp)]
    exact iff_of_true .nil fun hp => absurd hp hpub

end

/-- Memory that holds what an earlier process left there. -/
def usedMemory : Residue (Procstat Nat) :=
  ⟨fun _ _ => 'x', fun _ => { Procstat.zero with pid := 7, cmndline := some 3 }⟩

/-- Another process, whose directory went away. -/
def goneEntry : DirEntry where
  dName := ['7']
  world := fun _ => ⟨fun _ => some (7, 7), fun _ => false, fun _ => none, fun _ => none, 0⟩
  upper := fun _ => 0
  dName_nulFree := by decide
  dName_length := by decide

/-- A process alone on cleared memory, and behind one that went away on memory
that was used. -/
theorem rows_independent_iff_unreadable :
    SameRows ⟨none, none, []⟩ ⟨none, none, []⟩
        (addedBy samplePort clearedMemory ⟨none, none, []⟩ [] unreadableEntry)
        (addedBy samplePort usedMemory ⟨none, none, []⟩ [goneEntry] unreadableEntry) ↔
      (unreadableEntry.Publishes samplePort →
        ((∀ e ∈ ([] : List DirEntry), e.Completes samplePort) ↔
          ∀ e ∈ [goneEntry], e.Completes samplePort) ∧
        ((∀ e ∈ ([] : List DirEntry), e.Completes samplePort) →
          unreadableEntry.statScanned = true →
          unreadableEntry.upper .flags = unreadableEntry.upper .flags)) :=
  rows_independent_iff samplePort clearedMemory usedMemory ⟨none, none, []⟩ ⟨none, none, []⟩ []
    [goneEntry] ⟨rfl, rfl, rfl, rfl, rfl, rfl, rfl, rfl, rfl, rfl, rfl⟩

/-- A shell of which the stat file can be read and nothing else, with this in the
upper halves of its slots. -/
def shellOn (upper : Field → UInt32) : DirEntry where
  dName := ['4', '2']
  world := fun m =>
    if m = .procStat then Kernel.constant (recordNamed ['s', 'h'] (by decide)).render
    else ⟨fun _ => none, fun _ => true, fun _ => none, fun _ => none, 0⟩
  upper := upper
  dName_nulFree := unreadableEntry.dName_nulFree
  dName_length := unreadableEntry.dName_length

/-- A process whose status file begins with an empty line. -/
def hangingEntry : DirEntry where
  dName := ['7']
  world := fun m =>
    if m = .status then Kernel.constant ['\n']
    else ⟨fun _ => none, fun _ => true, fun _ => none, fun _ => none, 0⟩
  upper := fun _ => 0
  dName_nulFree := goneEntry.dName_nulFree
  dName_length := goneEntry.dName_length

theorem shellOn_publishes (upper : Field → UInt32) : (shellOn upper).Publishes samplePort := by
  have hstat : (shellOn upper).file .procStat "stat" = some _ := fileContent_bytewise _
  have hnone : ArrayFits none := fun _ h => by cases h
  have hpid : isPid ['4', '2'] = true := by decide
  refine ⟨hpid, ?_, fun text h => (by cases h), fun h => absurd rfl h, hnone, hnone⟩
  exact (shellOn upper).not_gone_of_there (Or.inr (statScanned_of_render hstat).1)

/-- **Rows that depend on what stands outside them**: the flags of a shell are
what the unwritten half of their slot makes of them, and behind a process whose
status file begins with an empty line the shell is not published at all. -/
theorem rows_depend :
    SameOutcomes (shellOn noUpper) (shellOn fun _ => 1) ∧
    (∃ obj₁ obj₂,
      addedBy samplePort clearedMemory ⟨none, none, []⟩ [] (shellOn noUpper) = [obj₁] ∧
      addedBy samplePort clearedMemory ⟨none, none, []⟩ [] (shellOn fun _ => 1) = [obj₂] ∧
      obj₁ Field.flags.name ≠ obj₂ Field.flags.name) ∧
    addedBy samplePort clearedMemory ⟨none, none, []⟩ [hangingEntry] (shellOn noUpper) = [] := by
  have hsame : SameOutcomes (shellOn noUpper) (shellOn fun _ => 1) :=
    ⟨rfl, rfl, rfl, rfl, rfl, rfl, rfl, rfl, rfl, rfl, rfl⟩
  have hstat : (shellOn noUpper).file .procStat "stat" = some _ := fileContent_bytewise _
  obtain ⟨r, value, hrow, hvalue, hadded⟩ := @addedBy_of_publishes samplePort clearedMemory
    ⟨none, none, []⟩ [] _ rfl (shellOn_publishes noUpper)
  obtain ⟨r', value', hrow', hvalue', hadded'⟩ := @addedBy_of_publishes samplePort clearedMemory
    ⟨none, none, []⟩ [] _ rfl (shellOn_publishes fun _ => 1)
  rw [← Row.scrape_congr hsame, hrow] at hrow'
  obtain rfl := Row.Outcome.ready.inj hrow'
  refine ⟨hsame, ⟨_, _, hadded, hadded', fun hkey => ?_⟩, ?_⟩
  · have hupper := (hsame.object_eq_iff none hrow hvalue hvalue').2 hkey
      (statScanned_of_render hstat).1
    exact absurd hupper (by decide)
  · have hstop : ¬ (tableRun samplePort clearedMemory ⟨none, none, []⟩ [hangingEntry]).fault =
        none := by
      rw [tableRun_go_iff, List.forall_mem_singleton]
      rintro (hskip | hpub)
      · exact hangingEntry.not_skipped_iff.mpr
          ⟨by decide, hangingEntry.not_gone_of_there (Or.inl rfl)⟩ hskip
      · exact hpub.statusEnds ['\n'] (fileContent_bytewise _) rfl
    rw [addedBy_eq]
    cases hfault : (tableRun samplePort clearedMemory ⟨none, none, []⟩ [hangingEntry]).fault with
    | none => exact absurd hfault hstop
    | some f => rfl

end Linux
