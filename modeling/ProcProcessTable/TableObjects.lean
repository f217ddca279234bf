import ProcProcessTable.CarriedState
import ProcProcessTable.LinuxObject

/-!
# The objects of a table

What a run of `OS_get_table` adds to the process list, entry by entry.  An
entry adds nothing when it is no process or went away, it adds one object when
it is published, and otherwise the run ends with a fault there
(`added_cases`).  What it adds is a function of the port, the terminal table and
what the system answered for that entry (`addedBy_eq`).
-/

namespace Linux

open CText Scanf MemPool Xs

/-- An entry that is worked on to the end and pushes an object. -/
structure DirEntry.Publishes (port : Port) (e : DirEntry) : Prop where
  isPid : isPid e.dName = true
  present : ¬ e.Gone
  statusEnds : e.statusEnds
  pctmemFits : e.PctmemFits port
  cmdlineFits : ArrayFits (e.file .cmdline "cmdline")
  environFits : ArrayFits (e.file .environ "environ")

/-- An entry that is passed over. -/
def DirEntry.Skipped (e : DirEntry) : Prop := isPid e.dName = false ∨ e.Gone

/-- An entry behind which the run goes on. -/
def DirEntry.Completes (port : Port) (e : DirEntry) : Prop := e.Skipped ∨ e.Publishes port

theorem DirEntry.not_skipped_iff (e : DirEntry) :
    ¬ e.Skipped ↔ isPid e.dName = true ∧ ¬ e.Gone := by
  rw [DirEntry.Skipped, not_or, Bool.not_eq_false]

namespace Row

/-- What one iteration adds to the list, and the fault it ends with. -/
def added (port : Port) (ttydevs : Option HV) (e : DirEntry) : List HV × Option Fault :=
  let s := step port ⟨none, ttydevs, []⟩ e
  (s.1.proclist, s.2)

/-- An iteration leaves the terminal table, and adds its objects whatever is in
the list. -/
theorem step_frame (port : Port) (xs : Interp) (e : DirEntry) :
    (step port xs e).1.ttydevs = xs.ttydevs ∧
      (step port xs e).1.proclist = xs.proclist ++ (added port xs.ttydevs e).1 ∧
      (step port xs e).2 = (added port xs.ttydevs e).2 := by
  unfold added step
  cases scrape port e with
  | notPid => exact ⟨rfl, (List.append_nil _).symm, rfl⟩
  | gone => exact ⟨rfl, (List.append_nil _).symm, rfl⟩
  | fault f => exact ⟨rfl, (List.append_nil _).symm, rfl⟩
  | ready r =>
      dsimp only
      have hframe := blessIntoProc_frame r.formatStr fieldKeys
        (blessArgs e.upper (fun text => text ++ [nul]) r.prs) xs
      unfold bless
      rw [hframe]
      exact ⟨Interp.setFields_ttydevs _ _ _, rfl, rfl⟩

/-- The entries that are passed over. -/
theorem scrape_skips_iff (port : Port) (e : DirEntry) :
    (scrape port e = .notPid ∨ scrape port e = .gone) ↔ e.Skipped := by
  have hfinish : ∀ r, finish port e r ≠ .notPid ∧ finish port e r ≠ .gone := by
    intro r
    unfold finish
    split
    · exact ⟨Outcome.noConfusion, Outcome.noConfusion⟩
    · split <;> exact ⟨Outcome.noConfusion, Outcome.noConfusion⟩
  unfold scrape DirEntry.Skipped
  rw [← vanished_iff]
  by_cases hpid : isPid e.dName = false
  · rw [if_pos hpid]
    exact iff_of_true (Or.inl rfl) (Or.inl hpid)
  · rw [if_neg hpid]
    by_cases hvan : Vanished e
    · rw [if_pos hvan]
      exact iff_of_true (Or.inr rfl) (Or.inr hvan)
    · rw [if_neg hvan]
      obtain ⟨hnot, hgone⟩ := hfinish (upToStat e).2
      exact iff_of_false (fun h => h.elim hnot hgone) fun h => h.elim hpid hvan

theorem not_skipped_of_publishes {port : Port} {e : DirEntry} (h : e.Publishes port) :
    ¬ e.Skipped :=
  e.not_skipped_iff.mpr ⟨h.isPid, h.present⟩

/-- **What an entry adds.** -/
theorem added_cases (port : Port) (ttydevs : Option HV) (e : DirEntry) :
    (e.Skipped ∧ added port ttydevs e = ([], none)) ∨
    (e.Publishes port ∧ ∃ r value, scrape port e = .ready r ∧ RowValues port e r value ∧
      added port ttydevs e = ([objectOf port ttydevs e r value], none)) ∨
    (¬ e.Completes port ∧ ∃ f, added port ttydevs e = ([], some f)) := by
  have hskips := scrape_skips_iff port e
  have hready := scrape_ready_iff port e
  unfold added step
  cases hscrape : scrape port e with
  | notPid => exact Or.inl ⟨hskips.mp (Or.inl hscrape), rfl⟩
  | gone => exact Or.inl ⟨hskips.mp (Or.inr hscrape), rfl⟩
  | fault f =>
      refine Or.inr (Or.inr ⟨?_, f, rfl⟩)
      rintro (hskip | hpub)
      · rcases hskips.mpr hskip with h | h <;> rw [hscrape] at h <;> cases h
      · obtain ⟨r, hr⟩ := hready.mpr ⟨hpub.isPid, hpub.present, hpub.statusEnds, hpub.pctmemFits⟩
        rw [hscrape] at hr
        cases hr
  | ready r =>
      obtain ⟨hpid, hpresent, hends, hfits⟩ := hready.mp ⟨r, hscrape⟩
      have hpush := bless_pushes_iff hscrape ⟨none, ttydevs, []⟩
      dsimp only
      cases hbless : r.bless e.upper ⟨none, ttydevs, []⟩ with
      | mk xs fault =>
          cases fault with
          | none =>
              obtain ⟨value, hvalue, hxs⟩ := bless_object hscrape hbless
              obtain ⟨hcmdline, henviron⟩ := hpush.mp ⟨_, by rw [hbless, hxs]⟩
              refine Or.inr (Or.inl ⟨⟨hpid, hpresent, hends, hfits, hcmdline, henviron⟩, r, value,
                rfl, hvalue, ?_⟩)
              rw [hxs]
              rfl
          | some f =>
              have hnot : ¬ e.Publishes port := by
                intro hpub
                obtain ⟨obj, hobj⟩ := hpush.mpr ⟨hpub.cmdlineFits, hpub.environFits⟩
                rw [hbless] at hobj
                exact absurd (congrArg Prod.snd hobj) (Option.some_ne_none f)
              refine Or.inr (Or.inr ⟨?_, f, ?_⟩)
              · rintro (hskip | hpub)
                · rcases hskips.mpr hskip with h | h <;> rw [hscrape] at h <;> cases h
                · exact hnot hpub
              · rw [bless_eq hscrape] at hbless
                cases hgroups : blessGroups ttydevs (fieldColumns (e.enabledFields port)
                    (fieldSlots e.upper (fun t => t ++ [nul]) r.prs)) HV.empty with
                | ok obj =>
                    rw [hgroups] at hbless
                    exact absurd (congrArg Prod.snd hbless) (Option.some_ne_none f).symm
                | error f' =>
                    rw [hgroups] at hbless
                    rw [← (Prod.mk.inj hbless).1]
                    rfl

/-- An object that is added is the row's, and its entry was worked on to the
end. -/
theorem of_mem_added {port : Port} {ttydevs : Option HV} {e : DirEntry} {obj : HV}
    (h : obj ∈ (added port ttydevs e).1) :
    e.Publishes port ∧ ∃ r value, scrape port e = .ready r ∧ RowValues port e r value ∧
      obj = objectOf port ttydevs e r value := by
  rcases added_cases port ttydevs e with ⟨_, hadd⟩ | ⟨hpub, r, value, hrow, hvalue, hadd⟩ |
    ⟨_, f, hadd⟩
  · rw [hadd] at h
    exact absurd h List.not_mem_nil
  · rw [hadd] at h
    exact ⟨hpub, r, value, hrow, hvalue, List.mem_singleton.mp h⟩
  · rw [hadd] at h
    exact absurd h List.not_mem_nil

/-- An entry that is published adds one object. -/
theorem added_of_publishes {port : Port} {e : DirEntry} (h : e.Publishes port)
    (ttydevs : Option HV) : ∃ r value, scrape port e = .ready r ∧ RowValues port e r value ∧
      added port ttydevs e = ([objectOf port ttydevs e r value], none) := by
  rcases added_cases port ttydevs e with ⟨hskip, _⟩ | ⟨_, r, value, hadd⟩ | ⟨hnot, _⟩
  · exact absurd hskip (not_skipped_of_publishes h)
  · exact ⟨r, value, hadd⟩
  · exact absurd (Or.inr h) hnot

end Row

/-- The objects an entry adds to the process list. -/
def addedBy (port : Port) (res : Residue (Procstat Nat)) (xs : Interp) (entries : List DirEntry)
    (e : DirEntry) : List HV :=
  (tableRun port res xs (entries ++ [e])).xs.proclist.drop
    (tableRun port res xs entries).xs.proclist.length

section

variable (port : Port) (res : Residue (Procstat Nat)) (xs : Interp) (entries : List DirEntry)
  (e : DirEntry)

/-- One more entry is one step of the row. -/
theorem tableRun_snoc (hgo : (tableRun port res xs entries).fault = none) :
    ((tableRun port res xs (entries ++ [e])).xs, (tableRun port res xs (entries ++ [e])).fault) =
      Row.step port (tableRun port res xs entries).xs e := by
  rw [tableRun_append]
  exact (tableStep_refines ((tableRun_refines port res xs entries).2 hgo) hgo).1

/-- A fault is final. -/
theorem tableRun_fault {f : Fault} (h : (tableRun port res xs entries).fault = some f) :
    tableRun port res xs (entries ++ [e]) = tableRun port res xs entries := by
  rw [tableRun_append, tableStep, h]

/-- A run leaves the terminal table. -/
theorem tableRun_ttydevs : (tableRun port res xs entries).xs.ttydevs = xs.ttydevs := by
  induction entries using List.reverseRecOn with
  | nil => rfl
  | append_singleton entries e ih =>
      cases hfault : (tableRun port res xs entries).fault with
      | some f =>
          rw [tableRun_fault port res xs entries e hfault]
          exact ih
      | none =>
          have hstep := congrArg (fun s => s.1.ttydevs) (tableRun_snoc port res xs entries e hfault)
          exact (hstep.trans (Row.step_frame port _ e).1).trans ih

/-- **One more entry**, from any state the loop reaches. -/
theorem tableRun_added (hgo : (tableRun port res xs entries).fault = none) :
    (tableRun port res xs (entries ++ [e])).xs.proclist =
        (tableRun port res xs entries).xs.proclist ++ (Row.added port xs.ttydevs e).1 ∧
      (tableRun port res xs (entries ++ [e])).fault = (Row.added port xs.ttydevs e).2 := by
  obtain ⟨_, hlist, hfault⟩ := Row.step_frame port (tableRun port res xs entries).xs e
  obtain ⟨hxs, hf⟩ := Prod.mk.inj (tableRun_snoc port res xs entries e hgo)
  rw [tableRun_ttydevs] at hlist hfault
  exact ⟨(congrArg Interp.proclist hxs).trans hlist, hf.trans hfault⟩

/-- **What an entry adds depends on the run only in whether it gets there.** -/
theorem addedBy_eq :
    addedBy port res xs entries e =
      match (tableRun port res xs entries).fault with
      | none => (Row.added port xs.ttydevs e).1
      | some _ => [] := by
  unfold addedBy
  cases hfault : (tableRun port res xs entries).fault with
  | some f => rw [tableRun_fault port res xs entries e hfault, List.drop_length]
  | none => rw [(tableRun_added port res xs entries e hfault).1, List.drop_left]

theorem mem_addedBy {obj : HV} :
    obj ∈ addedBy port res xs entries e ↔
      (tableRun port res xs entries).fault = none ∧ obj ∈ (Row.added port xs.ttydevs e).1 := by
  rw [addedBy_eq]
  cases (tableRun port res xs entries).fault with
  | none => exact (and_iff_right rfl).symm
  | some f => exact iff_of_false List.not_mem_nil fun h => absurd h.1 (Option.some_ne_none f)

/-- A run that gets to an entry that is published adds its object. -/
theorem addedBy_of_publishes {port : Port} {res : Residue (Procstat Nat)} {xs : Interp}
    {entries : List DirEntry} {e : DirEntry} (hgo : (tableRun port res xs entries).fault = none)
    (hpub : e.Publishes port) :
    ∃ r value, Row.scrape port e = .ready r ∧ RowValues port e r value ∧
      addedBy port res xs entries e = [objectOf port xs.ttydevs e r value] := by
  obtain ⟨r, value, hrow, hvalue, h⟩ := Row.added_of_publishes hpub xs.ttydevs
  refine ⟨r, value, hrow, hvalue, ?_⟩
  rw [addedBy_eq, hgo, h]

/-- The list grows by what the entry adds. -/
theorem proclist_addedBy :
    (tableRun port res xs (entries ++ [e])).xs.proclist =
      (tableRun port res xs entries).xs.proclist ++ addedBy port res xs entries e := by
  rw [addedBy_eq]
  cases hfault : (tableRun port res xs entries).fault with
  | some f => rw [tableRun_fault port res xs entries e hfault, List.append_nil]
  | none => exact (tableRun_added port res xs entries e hfault).1

/-- **A run goes on as long as every entry completes.** -/
theorem tableRun_go_iff :
    (tableRun port res xs entries).fault = none ↔ ∀ e ∈ entries, e.Completes port := by
  induction entries using List.reverseRecOn with
  | nil => exact iff_of_true rfl fun e he => absurd he List.not_mem_nil
  | append_singleton entries e ih =>
      rw [List.forall_mem_append, List.forall_mem_singleton]
      cases hfault : (tableRun port res xs entries).fault with
      | some f =>
          rw [tableRun_fault port res xs entries e hfault, hfault]
          refine iff_of_false (Option.some_ne_none f) fun h => ?_
          rw [ih.mpr h.1] at hfault
          cases hfault
      | none =>
          rw [(tableRun_added port res xs entries e hfault).2, and_iff_right (ih.mp hfault)]
          rcases Row.added_cases port xs.ttydevs e with ⟨hskip, h⟩ | ⟨hpub, _, _, _, _, h⟩ |
            ⟨hnot, f, h⟩
          · exact iff_of_true (congrArg Prod.snd h) (Or.inl hskip)
          · exact iff_of_true (congrArg Prod.snd h) (Or.inr hpub)
          · refine iff_of_false ?_ hnot
            rw [h]
            exact Option.some_ne_none f

/-- `OS_get_table` leaves the list its loop leaves. -/
theorem osGetTable_xs :
    (osGetTable port res (some entries) xs).xs = (tableRun port res xs entries).xs := by
  have htable := osGetTable_refines port res xs entries
  rw [← (tableRun_refines port res xs entries).1] at htable
  exact congrArg Prod.fst htable

/-- `OS_get_table` returns when its loop does. -/
theorem osGetTable_fault :
    (osGetTable port res (some entries) xs).fault = (tableRun port res xs entries).fault := by
  have htable := osGetTable_refines port res xs entries
  rw [← (tableRun_refines port res xs entries).1] at htable
  exact congrArg Prod.snd htable

/-- The objects a call of `OS_get_table` puts on the list. -/
def published : List HV :=
  (osGetTable port res (some entries) xs).xs.proclist.drop xs.proclist.length

/-- They are the objects the entries add, each entry behind the ones before
it. -/
theorem mem_published (obj : HV) :
    obj ∈ published port res xs entries ↔
      ∃ pre e post, entries = pre ++ e :: post ∧ obj ∈ addedBy port res xs pre e := by
  have hobjs : ∃ objs, (tableRun port res xs entries).xs.proclist = xs.proclist ++ objs ∧
      (obj ∈ objs ↔
        ∃ pre e post, entries = pre ++ e :: post ∧ obj ∈ addedBy port res xs pre e) := by
    induction entries using List.reverseRecOn with
    | nil =>
        refine ⟨[], (List.append_nil _).symm, iff_of_false List.not_mem_nil ?_⟩
        rintro ⟨pre, e, post, hsplit, _⟩
        exact CarriedState.nil_ne_split pre e post hsplit
    | append_singleton entries e ih =>
        obtain ⟨objs, hlist, hmem⟩ := ih
        refine ⟨objs ++ addedBy port res xs entries e, ?_, ?_⟩
        · rw [proclist_addedBy, hlist, List.append_assoc]
        · rw [List.mem_append, hmem, CarriedState.exists_split_concat]
  obtain ⟨objs, hlist, hmem⟩ := hobjs
  rw [published, osGetTable_xs, hlist, List.drop_left]
  exact hmem

end

end Linux
