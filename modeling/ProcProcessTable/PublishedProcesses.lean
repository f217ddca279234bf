import ProcProcessTable.TableObjects

/-!
# One identified object per process

A table is to hold one object for each process that is there, under the
process's own number, and nothing else (`Identified`).  An entry whose stat file
could not be scanned whole is published all the same when its directory is still
there, with the fields of that file undefined, so what holds of every run is
`table_one_object`, and `identified_iff` says when it comes to `Identified`.

Such an object lacks the terminal name as well, the one key that is stored with
a field and not for it (`table_keys`).
-/

namespace Linux

open CText Scanf MemPool Xs

/-- The number an entry's name spells. -/
def DirEntry.number (e : DirEntry) : Nat := Nat.ofDigitChars 10 e.dName 0

/-- What one entry is to add to the list. -/
structure Identified (e : DirEntry) (added : List HV) : Prop where
  atMostOne : added.length ≤ 1
  nonNumeric : isPid e.dName = false → added = []
  stillPresent : isPid e.dName = true → ¬ e.Gone → added.length = 1
  pid : ∀ obj ∈ added, obj "pid" = some (.iv e.number)

/-- The files of the entry let it be published under its own number. -/
structure DirEntry.WellRead (port : Port) (e : DirEntry) : Prop where
  statScanned : e.statScanned = true
  pid : ∃ pid : Int32, e.statPid = some pid ∧ pid.toInt = e.number
  statusEnds : e.statusEnds
  pctmemFits : e.PctmemFits port
  cmdlineFits : ArrayFits (e.file .cmdline "cmdline")
  environFits : ArrayFits (e.file .environ "environ")

/-- A record that was scanned whole starts with a process id. -/
theorem statPid_of_statScanned {e : DirEntry} (h : e.statScanned = true) :
    ∃ pid, e.statPid = some pid := by
  obtain ⟨text, hfile, hcomplete⟩ := (Option.any_eq_true _ _).mp h
  rw [statComplete, decide_eq_true_eq] at hcomplete
  have hpid : pidConversion (text ++ [nul]) ≠ none := by
    rw [← length_pidScan]
    by_contra hone
    rw [statConversions, if_pos hone] at hcomplete
    cases hcomplete
  obtain ⟨pid, hpid⟩ := Option.ne_none_iff_exists'.mp hpid
  refine ⟨pid, ?_⟩
  rw [DirEntry.statPid, hfile]
  exact hpid

/-- An entry is not gone when its directory is there or its record was scanned
whole. -/
theorem DirEntry.not_gone_of_there (e : DirEntry)
    (h : e.present = true ∨ e.statScanned = true) : ¬ e.Gone := by
  rintro ⟨hread, habsent⟩
  rcases h with hpresent | hscanned
  · rw [hpresent] at habsent
    cases habsent
  · obtain ⟨text, hfile, hcomplete⟩ := (Option.any_eq_true _ _).mp hscanned
    rw [(hread text hfile).2] at hcomplete
    cases hcomplete

/-- The record the kernel prints is scanned whole, and gives its process id. -/
theorem statScanned_of_render {e : DirEntry} {r : ProcessRecord}
    (h : e.file .procStat "stat" = some r.render) :
    e.statScanned = true ∧ e.statPid = some r.pid := by
  obtain ⟨hpid, hall⟩ := r.conversions_render
  constructor
  · rw [DirEntry.statScanned, h, Option.any_some, statComplete, decide_eq_true_eq]
    exact hall
  · rw [DirEntry.statPid, h, Option.bind_some]
    exact hpid

/-- The process id of an object is the one scanned, if the record was scanned
whole. -/
theorem objectOf_pid {port : Port} (ttydevs : Option HV) {e : DirEntry} {r : Row}
    {value : Field → SV × Option UInt64} (hrow : Row.scrape port e = .ready r)
    (hvalue : RowValues port e r value) :
    objectOf port ttydevs e r value "pid" =
      some (if e.statScanned then .iv (e.statPid.getD 0).toInt else .undef) := by
  have hname : Field.pid.name = "pid" := by
    rw [Field.name, fieldKeys_eq]
    rfl
  have hv := hvalue .pid
  rw [@enabledFields_stat port e .pid (by decide)] at hv
  rw [← hname, objectOf_name]
  refine congrArg some ?_
  cases hscanned : e.statScanned with
  | false =>
      rw [hscanned, groupValue_masked] at hv
      rw [← Except.ok.inj hv]
      rfl
  | true =>
      obtain ⟨w, hw, hint⟩ := toInt_argInt e.upper .pid r.prs.pid
      rw [hscanned, Field.char, Field.spec, defaultFormat_eq, fieldSlots, hw] at hv
      rw [← Except.ok.inj hv, ← (ready_members hrow).1, ← hint]
      rfl

/-- An entry that is published is identified exactly when its stat file gave
its own number. -/
theorem identified_published_iff {port : Port} (ttydevs : Option HV) {e : DirEntry} {r : Row}
    {value : Field → SV × Option UInt64} (hpub : e.Publishes port)
    (hrow : Row.scrape port e = .ready r) (hvalue : RowValues port e r value) :
    Identified e [objectOf port ttydevs e r value] ↔ e.WellRead port := by
  have hpid := objectOf_pid ttydevs hrow hvalue
  constructor
  · intro hid
    have hnumber := hid.pid _ List.mem_cons_self
    rw [hpid] at hnumber
    have hscanned : e.statScanned = true := by
      by_contra hnot
      rw [if_neg hnot] at hnumber
      cases hnumber
    obtain ⟨pid, hstat⟩ := statPid_of_statScanned hscanned
    rw [if_pos hscanned, hstat] at hnumber
    exact ⟨hscanned, ⟨pid, hstat, SV.iv.inj (Option.some.inj hnumber)⟩, hpub.statusEnds,
      hpub.pctmemFits, hpub.cmdlineFits, hpub.environFits⟩
  · intro hread
    obtain ⟨pid, hstat, hnumber⟩ := hread.pid
    refine ⟨Nat.le_refl 1, fun hnot => ?_, fun _ _ => rfl, fun obj hobj => ?_⟩
    · rw [hpub.isPid] at hnot
      cases hnot
    · rw [List.mem_singleton.mp hobj, hpid, if_pos hread.statScanned, hstat, Option.getD_some,
        hnumber]

theorem DirEntry.WellRead.publishes {port : Port} {e : DirEntry} (hpid : isPid e.dName = true)
    (hpresent : ¬ e.Gone) (h : e.WellRead port) : e.Publishes port :=
  ⟨hpid, hpresent, h.statusEnds, h.pctmemFits, h.cmdlineFits, h.environFits⟩

section

variable (port : Port) (res : Residue (Procstat Nat)) (xs : Interp) (entries : List DirEntry)

/-- An entry that is there adds an object. -/
theorem not_identified_nil {e : DirEntry} (hskip : ¬ e.Skipped) : ¬ Identified e [] := by
  intro hid
  obtain ⟨hpid, hpresent⟩ := e.not_skipped_iff.mp hskip
  have hone := hid.stillPresent hpid hpresent
  cases hone

/-- An entry that faults adds nothing although it is there, so no prefix ends with a fault. -/
theorem fault_none_of_identified
    (hall : ∀ pre e post, entries = pre ++ e :: post → Identified e (addedBy port res xs pre e)) :
    ∀ pre post, entries = pre ++ post → (tableRun port res xs pre).fault = none := by
  intro pre
  induction pre using List.reverseRecOn with
  | nil => exact fun _ _ => rfl
  | append_singleton pre e ih =>
      intro post hpost
      have hsplit : entries = pre ++ e :: post := by rw [hpost, List.append_assoc]; rfl
      have hpre := ih (e :: post) hsplit
      have hid := hall pre e post hsplit
      rw [addedBy_eq, hpre] at hid
      rw [(tableRun_added port res xs pre e hpre).2]
      rcases Row.added_cases port xs.ttydevs e with ⟨_, h⟩ | ⟨_, _, _, _, _, h⟩ | ⟨hnot, f, h⟩
      · rw [h]
      · rw [h]
      · rw [h] at hid
        exact absurd hid (not_identified_nil fun hskip => hnot (Or.inl hskip))

/-- Entries whose files are well read take the scan to its end. -/
theorem completes_of_wellRead
    (hall : ∀ e ∈ entries, isPid e.dName = true → ¬ e.Gone → e.WellRead port) :
    ∀ e ∈ entries, e.Completes port := by
  intro e he
  by_cases hskip : e.Skipped
  · exact Or.inl hskip
  · obtain ⟨hpid, hpresent⟩ := e.not_skipped_iff.mp hskip
    exact Or.inr ((hall e he hpid hpresent).publishes hpid hpresent)

/-- **A table identifies its processes exactly when** the files of every
numeric entry that is still there let it be published under its own number. -/
theorem identified_iff :
    (∀ pre e post, entries = pre ++ e :: post → Identified e (addedBy port res xs pre e)) ↔
      ∀ e ∈ entries, isPid e.dName = true → ¬ e.Gone → e.WellRead port := by
  constructor
  · intro hall e he hpid hpresent
    obtain ⟨pre, post, hsplit⟩ := List.append_of_mem he
    have hpre := fault_none_of_identified port res xs entries hall pre (e :: post) hsplit
    have hid := hall pre e post hsplit
    rw [addedBy_eq, hpre] at hid
    have hskip : ¬ e.Skipped := e.not_skipped_iff.mpr ⟨hpid, hpresent⟩
    rcases Row.added_cases port xs.ttydevs e with ⟨hskip', _⟩ | ⟨hpub, r, value, hrow, hvalue, h⟩ |
      ⟨_, f, h⟩
    · exact absurd hskip' hskip
    · rw [h] at hid
      exact (identified_published_iff xs.ttydevs hpub hrow hvalue).mp hid
    · rw [h] at hid
      exact absurd hid (not_identified_nil hskip)
  · intro hall pre e post hsplit
    have hcompletes := completes_of_wellRead port entries hall
    have hpre : (tableRun port res xs pre).fault = none := by
      rw [tableRun_go_iff]
      intro e' he'
      exact hcompletes e' (hsplit ▸ List.mem_append_left _ he')
    have he : e ∈ entries := hsplit ▸ List.mem_append_right _ List.mem_cons_self
    rw [addedBy_eq, hpre]
    rcases Row.added_cases port xs.ttydevs e with ⟨hskip, h⟩ | ⟨hpub, r, value, hrow, hvalue, h⟩ |
      ⟨hnot, _⟩
    · rw [h]
      refine ⟨Nat.zero_le 1, fun _ => rfl, fun hpid hpresent => ?_, fun _ hobj => ?_⟩
      · exact absurd hskip (e.not_skipped_iff.mpr ⟨hpid, hpresent⟩)
      · exact absurd hobj List.not_mem_nil
    · rw [h]
      exact (identified_published_iff xs.ttydevs hpub hrow hvalue).mpr
        (hall e he hpub.isPid hpub.present)
    · exact absurd (hcompletes e he) hnot

end

section

variable (port : Port) (res : Residue (Procstat Nat)) (xs : Interp) (entries : List DirEntry)

/-- **One object per process.**  No entry yields two objects, an entry that is
no number yields none, and in a call that returns an entry whose directory is
still there, or whose stat record was scanned whole, yields one.  The process id
of an object is the number its stat file starts with, and undefined when that
file was not scanned whole. -/
theorem table_one_object {pre : List DirEntry} {e : DirEntry} {post : List DirEntry}
    (hsplit : entries = pre ++ e :: post) :
    (addedBy port res xs pre e).length ≤ 1 ∧
      (isPid e.dName = false → addedBy port res xs pre e = []) ∧
      ((osGetTable port res (some entries) xs).fault = none → isPid e.dName = true →
        e.present = true ∨ e.statScanned = true → (addedBy port res xs pre e).length = 1) ∧
      ∀ obj ∈ addedBy port res xs pre e, obj "pid" =
        some (if e.statScanned then .iv (e.statPid.getD 0).toInt else .undef) := by
  rw [osGetTable_fault, tableRun_go_iff, addedBy_eq]
  have hgo : (∀ e' ∈ entries, e'.Completes port) →
      (tableRun port res xs pre).fault = none ∧ e.Completes port := by
    intro hall
    rw [tableRun_go_iff]
    exact ⟨fun e' he' => hall e' (hsplit ▸ List.mem_append_left _ he'),
      hall e (hsplit ▸ List.mem_append_right _ List.mem_cons_self)⟩
  cases hfault : (tableRun port res xs pre).fault with
  | some f =>
      refine ⟨Nat.zero_le 1, fun _ => rfl, fun hall => ?_, fun _ h => absurd h List.not_mem_nil⟩
      rw [hfault] at hgo
      exact absurd (hgo hall).1 (Option.some_ne_none f)
  | none =>
      rcases Row.added_cases port xs.ttydevs e with ⟨hskip, h⟩ | ⟨hpub, r, value, hrow, hvalue, h⟩ |
        ⟨hnot, f, h⟩
      · rw [h]
        refine ⟨Nat.zero_le 1, fun _ => rfl, fun _ hpid hthere => ?_,
          fun _ h => absurd h List.not_mem_nil⟩
        rcases hskip with hskip | hgone
        · rw [hpid] at hskip
          cases hskip
        · exact absurd hgone (e.not_gone_of_there hthere)
      · rw [h]
        refine ⟨Nat.le_refl 1, fun hskip => ?_, fun _ _ _ => rfl, fun obj hobj => ?_⟩
        · rw [hpub.isPid] at hskip
          cases hskip
        · rw [List.mem_singleton.mp hobj]
          exact objectOf_pid xs.ttydevs hrow hvalue
      · rw [h]
        exact ⟨Nat.zero_le 1, fun _ => rfl, fun hall => absurd (hgo hall).2 hnot,
          fun _ h => absurd h List.not_mem_nil⟩

end

/-- What the entry whose files cannot be opened is published as. -/
theorem table_one_object_unreadable :
    (addedBy samplePort clearedMemory ⟨none, none, []⟩ [] unreadableEntry).length ≤ 1 ∧
      (isPid unreadableEntry.dName = false →
        addedBy samplePort clearedMemory ⟨none, none, []⟩ [] unreadableEntry = []) ∧
      ((osGetTable samplePort clearedMemory (some [unreadableEntry]) ⟨none, none, []⟩).fault = none →
        isPid unreadableEntry.dName = true →
        unreadableEntry.present = true ∨ unreadableEntry.statScanned = true →
        (addedBy samplePort clearedMemory ⟨none, none, []⟩ [] unreadableEntry).length = 1) ∧
      ∀ obj ∈ addedBy samplePort clearedMemory ⟨none, none, []⟩ [] unreadableEntry, obj "pid" =
        some (if unreadableEntry.statScanned then .iv (unreadableEntry.statPid.getD 0).toInt
          else .undef) :=
  table_one_object samplePort clearedMemory ⟨none, none, []⟩ [unreadableEntry] rfl

/-- What the entry whose files cannot be opened adds to a fresh list. -/
theorem addedBy_unreadable :
    ∃ r value, Row.scrape samplePort unreadableEntry = .ready r ∧
      RowValues samplePort unreadableEntry r value ∧
      addedBy samplePort clearedMemory ⟨none, none, []⟩ [] unreadableEntry =
        [objectOf samplePort none unreadableEntry r value] := by
  have hpub : unreadableEntry.Publishes samplePort := by
    obtain ⟨hpid, hpresent, hends, hfits⟩ :=
      (scrape_ready_iff samplePort unreadableEntry).mp unreadableEntry_ready
    have hnone : ArrayFits none := fun _ h => by cases h
    exact ⟨hpid, hpresent, hends, hfits, hnone, hnone⟩
  exact addedBy_of_publishes rfl hpub

/-- **An object without a process id**: the directory is there, the stat file
cannot be opened, and the entry is published all the same. -/
theorem unreadable_not_identified :
    ∃ obj, addedBy samplePort clearedMemory ⟨none, none, []⟩ [] unreadableEntry = [obj] ∧
      obj "pid" = some .undef ∧ ¬ Identified unreadableEntry [obj] := by
  obtain ⟨r, value, hrow, hvalue, hadded⟩ := addedBy_unreadable
  have hpid := objectOf_pid none hrow hvalue
  refine ⟨_, hadded, hpid, fun hid => ?_⟩
  have hnumber := hid.pid _ List.mem_cons_self
  rw [hpid] at hnumber
  cases hnumber

/-- The keys of an object are the names of the fields and the terminal name. -/
def UniformKeys (xs : Interp) (obj : HV) : Prop :=
  ∀ key, (obj key).isSome = true ↔ key ∈ xs.fieldList ∨ key = "ttydev"

/-- The keys of an object: the terminal name is there when the stat record was
scanned whole. -/
theorem objectOf_keys {port : Port} (ttydevs : Option HV) {e : DirEntry} {r : Row}
    {value : Field → SV × Option UInt64} (hvalue : RowValues port e r value) (key : String) :
    (objectOf port ttydevs e r value key).isSome = true ↔
      key ∈ fieldKeys ∨ (key = "ttydev" ∧ e.statScanned = true) := by
  have htty := objectOf_ttydev ttydevs hvalue
  by_cases hkey : key ∈ fieldKeys
  · have hmem := hkey
    rw [fieldKeys_eq_map] at hmem
    obtain ⟨f, _, rfl⟩ := List.mem_map.mp hmem
    rw [objectOf_name]
    exact iff_of_true rfl (Or.inl hkey)
  · rw [or_iff_right hkey]
    by_cases hdev : key = "ttydev"
    · rw [hdev, htty]
      exact (and_iff_right rfl).symm
    · rw [objectOf_other port ttydevs e r value hkey hdev]
      exact iff_of_false (fun h => by cases h) fun h => hdev h.1

/-- No other names than the port's are known. -/
def KnowsPort (xs : Interp) : Prop :=
  xs.fields = none ∨ xs.fields = some (fieldKeys, Field.all.length)

section

variable (port : Port) (res : Residue (Procstat Nat)) {xs : Interp} (entries : List DirEntry)

/-- A call keeps the port's names, and knows them when it has pushed an object. -/
theorem blessIntoProc_names (hxs : KnowsPort xs) {e : DirEntry} {r : Row}
    (hrow : Row.scrape port e = .ready r) :
    (r.bless e.upper xs).1.fields = some (fieldKeys, Field.all.length) := by
  have hlen : strlen r.formatStr = Field.all.length := by
    rw [Row.ready_formatStr hrow, strlen, cstr_formatOf, List.length_map]
  rw [Row.bless, blessIntoProc_frame, hlen]
  unfold Interp.setFields
  rcases hxs with h | h
  · rw [h]
  · rw [h]
    exact h

/-- The names are known as soon as the list has grown. -/
theorem tableRun_names (hxs : KnowsPort xs) :
    (tableRun port res xs entries).xs.fields = some (fieldKeys, Field.all.length) ∨
      ((tableRun port res xs entries).xs.fields = none ∧
        (tableRun port res xs entries).xs.proclist = xs.proclist) := by
  induction entries using List.reverseRecOn with
  | nil => exact hxs.elim (fun h => Or.inr ⟨h, rfl⟩) Or.inl
  | append_singleton entries e ih =>
      cases hfault : (tableRun port res xs entries).fault with
      | some f =>
          rw [tableRun_fault port res xs entries e hfault]
          exact ih
      | none =>
          have hstep := congrArg Prod.fst (tableRun_snoc port res xs entries e hfault)
          have hknows : KnowsPort (tableRun port res xs entries).xs :=
            ih.elim Or.inr fun h => Or.inl h.1
          dsimp only at hstep
          rw [hstep]
          unfold Row.step
          cases hrow : Row.scrape port e with
          | notPid => exact ih
          | gone => exact ih
          | fault f => exact ih
          | ready r => exact Or.inl (blessIntoProc_names port hknows hrow)

/-- A call leaves no other names than the port's. -/
theorem osGetTable_knowsPort (hxs : KnowsPort xs) :
    KnowsPort (osGetTable port res (some entries) xs).xs := by
  rw [osGetTable_xs]
  exact (tableRun_names port res entries hxs).elim Or.inr fun h => Or.inl h.1

/-- **The keys of a table.**  Every object has the names `fields()` returns, and
besides them the terminal name when its stat record was scanned whole. -/
theorem table_keys (hxs : KnowsPort xs) {pre : List DirEntry} {e : DirEntry}
    {post : List DirEntry} (hsplit : entries = pre ++ e :: post) :
    ∀ obj ∈ addedBy port res xs pre e, ∀ key, (obj key).isSome = true ↔
      key ∈ (osGetTable port res (some entries) xs).xs.fieldList ∨
        (key = "ttydev" ∧ e.statScanned = true) := by
  intro obj hobj
  have hpub := (mem_published port res xs entries obj).mpr ⟨pre, e, post, hsplit, hobj⟩
  have hlist : (osGetTable port res (some entries) xs).xs.fieldList = fieldKeys := by
    rw [published, osGetTable_xs] at hpub
    rw [osGetTable_xs]
    rcases tableRun_names port res entries hxs with h | ⟨_, h⟩
    · rw [Interp.fieldList, h, fieldKeys_eq]
      rfl
    · rw [h, List.drop_length] at hpub
      exact absurd hpub List.not_mem_nil
  rw [hlist]
  obtain ⟨_, _, value, _, hvalue, rfl⟩ := Row.of_mem_added ((mem_addedBy port res xs pre e).mp hobj).2
  exact objectOf_keys xs.ttydevs hvalue

end

/-- The keys of the entry whose files cannot be opened, in a first call. -/
theorem table_keys_unreadable :
    ∃ obj ∈ addedBy samplePort clearedMemory ⟨none, none, []⟩ [] unreadableEntry,
      ∀ key, (obj key).isSome = true ↔
        key ∈ (osGetTable samplePort clearedMemory (some [unreadableEntry])
          ⟨none, none, []⟩).xs.fieldList ∨
        (key = "ttydev" ∧ unreadableEntry.statScanned = true) := by
  obtain ⟨r, value, _, _, hadded⟩ := addedBy_unreadable
  have hmem : objectOf samplePort none unreadableEntry r value ∈
      addedBy samplePort clearedMemory ⟨none, none, []⟩ [] unreadableEntry := by
    rw [hadded]
    exact List.mem_cons_self
  exact ⟨_, hmem,
    table_keys samplePort clearedMemory [unreadableEntry] (Or.inl rfl) rfl _ hmem⟩

/-- **An object without the terminal name**: the directory is there, and the
stat file cannot be opened. -/
theorem unreadable_not_uniform :
    ∃ obj ∈ published samplePort clearedMemory ⟨none, none, []⟩ [unreadableEntry],
      obj "ttydev" = none ∧
      ¬ UniformKeys (osGetTable samplePort clearedMemory (some [unreadableEntry])
        ⟨none, none, []⟩).xs obj := by
  obtain ⟨r, value, _, hvalue, hadded⟩ := addedBy_unreadable
  have hnone : objectOf samplePort none unreadableEntry r value "ttydev" = none := by
    have htty := objectOf_ttydev none hvalue
    have hscanned : unreadableEntry.statScanned = false := rfl
    rw [hscanned] at htty
    exact Option.not_isSome_iff_eq_none.mp fun h => by rw [htty] at h; cases h
  have hmem : objectOf samplePort none unreadableEntry r value ∈
      addedBy samplePort clearedMemory ⟨none, none, []⟩ [] unreadableEntry := by
    rw [hadded]
    exact List.mem_cons_self
  refine ⟨_, (mem_published _ _ _ _ _).mpr ⟨[], unreadableEntry, [], rfl, hmem⟩, hnone, fun h => ?_⟩
  have hdev := (h "ttydev").mpr (Or.inr rfl)
  rw [hnone] at hdev
  cases hdev

end Linux
