import ProcProcessTable.LinuxTable

/-!
# The object of an entry

Which entries are published and what their objects hold.  An enabled pointer
field has a text behind it (`ready_pointer`), so the only thing that can go
wrong in `bless_into_proc` is an array whose strings do not fit the `int` that
takes their length; `scrape_ready_iff` and `bless_pushes_iff` are the exact
conditions, and `objectOf_name` reads the object key by key.
-/

namespace Linux

open CText MemPool Xs

/-- No kind of status line enables the field. -/
theorem statusOccurs_eq_false (e : DirEntry) {f : Field}
    (h : ∀ kind : LineKind, kind.fields f = false) : e.statusOccurs f = false := by
  unfold DirEntry.statusOccurs
  cases e.file .status "status" with
  | none => rfl
  | some text =>
      rw [Option.any_some, kindOccurs, List.any_eq_false]
      intro l _
      cases LineKind.ofLine? l with
      | none => simp
      | some kind => simp [h kind]

/-- The field of a pointer member. -/
def Member.field : Member → Field
  | .cwd => .cwd
  | .cmndline => .cmndline
  | .cmdline => .cmdline
  | .environ => .environ
  | .exec => .exec

section

variable (port : Port) (e : DirEntry)

theorem enabledFields_state : e.enabledFields port .state = e.stateKnown := by
  have hstatus := @statusOccurs_eq_false e .state (by intro kind; cases kind <;> decide)
  simp [DirEntry.enabledFields, hstatus, Field.between, Field.ctorIdx]

theorem enabledFields_member (m : Member) :
    e.enabledFields port m.field = (e.text m).isSome := by
  have hstatus := @statusOccurs_eq_false e m.field (by
    intro kind
    cases kind <;> cases m <;> decide)
  cases m <;>
    simp [Member.field] at hstatus <;>
    simp [DirEntry.enabledFields, Member.field, hstatus, Field.between, Field.ctorIdx,
      DirEntry.text]

/-- The fields of the stat file are enabled together. -/
theorem enabledFields_stat {f : Field} (hf : Field.between .pid .wchan f = true) :
    e.enabledFields port f = e.statScanned := by
  have hstatus := @statusOccurs_eq_false e f (by
    intro kind
    revert hf
    cases kind <;> cases f <;> decide)
  revert hf hstatus
  cases f <;> intro hf hstatus <;>
    first
      | exact absurd hf (by decide)
      | simp [DirEntry.enabledFields, hstatus, Field.between, Field.ctorIdx]

end

theorem Field.mem_all (f : Field) : f ∈ Field.all := by
  cases f <;> decide

theorem fieldKeys_nodup : fieldKeys.Nodup ∧ "ttydev" ∉ fieldKeys := by
  rw [fieldKeys_eq]
  decide

theorem Field.name_ne_ttydev (f : Field) : f.name ≠ "ttydev" := by
  intro h
  apply fieldKeys_nodup.2
  rw [← h, fieldKeys_eq_map]
  exact List.mem_map_of_mem f.mem_all

/-- The fields of a call whose values are known. -/
def valueColumns (enabled : Field → Bool) (slots : Field → List Slot)
    (value : Field → SV × Option UInt64) : List Column :=
  Field.all.map fun f => ⟨f.char (enabled f), f.name, slots f, value f⟩

theorem valueColumns_key (enabled : Field → Bool) (slots : Field → List Slot)
    (value : Field → SV × Option UInt64) :
    (valueColumns enabled slots value).map Column.key = fieldKeys := by
  rw [valueColumns, List.map_map, fieldKeys_eq_map]
  rfl

section

variable {enabled : Field → Bool} {slots : Field → List Slot}

/-- When every field has a value the object holds the values. -/
theorem blessGroups_of_values (ttydevs : Option HV) {value : Field → SV × Option UInt64}
    (h : ∀ f, groupValue (f.char (enabled f)) (slots f) = .ok (value f)) (myhash : HV) :
    blessGroups ttydevs (fieldColumns enabled slots) myhash =
      .ok (storeColumns ttydevs (valueColumns enabled slots value) myhash) := by
  unfold fieldColumns valueColumns
  induction Field.all generalizing myhash with
  | nil => rfl
  | cons f fs ih =>
      rw [List.map_cons, List.map_cons, blessGroups, h f]
      exact ih (storeField ttydevs f.name (value f) myhash)

/-- An object was filled only if every field has a value. -/
theorem values_of_blessGroups {ttydevs : Option HV} {myhash obj : HV}
    (h : blessGroups ttydevs (fieldColumns enabled slots) myhash = .ok obj) :
    ∃ value : Field → SV × Option UInt64,
      ∀ f, groupValue (f.char (enabled f)) (slots f) = .ok (value f) := by
  have hall : ∀ (fs : List Field) (myhash : HV),
      blessGroups ttydevs (fs.map fun f => (f.char (enabled f), f.name, slots f)) myhash = .ok obj →
        ∀ f ∈ fs, ∃ v, groupValue (f.char (enabled f)) (slots f) = .ok v := by
    intro fs
    induction fs with
    | nil => exact fun _ _ f hf => absurd hf List.not_mem_nil
    | cons f fs ih =>
        intro myhash h g hg
        rw [List.map_cons, blessGroups] at h
        cases hv : groupValue (f.char (enabled f)) (slots f) with
        | error _ =>
            rw [hv] at h
            cases h
        | ok v =>
            rw [hv] at h
            rcases List.mem_cons.mp hg with rfl | hg
            · exact ⟨v, hv⟩
            · exact ih _ h g hg
  exact Classical.axiomOfChoice fun f => hall Field.all myhash h f f.mem_all

end

/-- A filled object is the object of its values. -/
theorem exists_values {enabled : Field → Bool} {slots : Field → List Slot} {ttydevs : Option HV}
    {myhash obj : HV} (h : blessGroups ttydevs (fieldColumns enabled slots) myhash = .ok obj) :
    ∃ value : Field → SV × Option UInt64,
      (∀ f, groupValue (f.char (enabled f)) (slots f) = .ok (value f)) ∧
        obj = storeColumns ttydevs (valueColumns enabled slots value) myhash := by
  obtain ⟨value, hvalue⟩ := values_of_blessGroups h
  rw [blessGroups_of_values ttydevs hvalue myhash] at h
  exact ⟨value, hvalue, (Except.ok.inj h).symm⟩

/-- **Each field is read back under its own name.** -/
theorem storeColumns_name (ttydevs : Option HV) (enabled : Field → Bool)
    (slots : Field → List Slot) (value : Field → SV × Option UInt64) (f : Field) :
    storeColumns ttydevs (valueColumns enabled slots value) HV.empty f.name = some (value f).1 := by
  have hkeys := valueColumns_key enabled slots value
  have hmem : (⟨f.char (enabled f), f.name, slots f, value f⟩ : Column) ∈
      valueColumns enabled slots value :=
    List.mem_map_of_mem f.mem_all
  exact storeColumns_of_mem ttydevs HV.empty (by rw [hkeys]; exact fieldKeys_nodup.1) hmem
    f.name_ne_ttydev

/-- A masked field is undef and looks no terminal up. -/
theorem groupValue_masked {π : Type} (upper : Field → UInt32) (deref : π → Mem) (p : Procstat π) (f : Field) :
    groupValue (f.char false) (fieldSlots upper deref p f) = .ok (.undef, none) := by
  rw [Field.char, Field.spec, defaultFormat_eq]
  cases f <;> rfl

/-- The strings of a text fit the `int` that takes their length. -/
def ArrayFits (text : Option (List Char)) : Prop :=
  ∀ t, text = some t →
    ∃ elems, newArray (some (t ++ [nul])) (Int32.ofNat t.length) = .ok (.av elems)

/-- An enabled field has a value, unless a pointer is NULL or an array's strings
do not fit. -/
theorem groupValue_enabled {π : Type} (upper : Field → UInt32) (deref : π → Mem) (p : Procstat π) (f : Field)
    (hstate : f = .state → p.state ≠ none)
    (hget : ∀ m : Member, f = m.field → p.get m ≠ none)
    (harray : f = .cmdline ∨ f = .environ →
      ∃ v, groupValue (f.char true) (fieldSlots upper deref p f) = .ok v) :
    ∃ v, groupValue (f.char true) (fieldSlots upper deref p f) = .ok v := by
  have hptr : ∀ o : Option π, o ≠ none →
      ∃ v, groupValue 's' [.ptr (o.map deref)] = .ok v := by
    intro o ho
    cases o with
    | none => exact absurd rfl ho
    | some ptr => exact ⟨_, rfl⟩
  revert hstate hget harray
  rw [Field.char, Field.spec, defaultFormat_eq]
  cases f <;> intro hstate hget harray
  case state =>
    cases hs : p.state with
    | none => exact absurd hs (hstate rfl)
    | some s =>
        rw [fieldSlots, hs]
        exact ⟨_, rfl⟩
  case cmndline => exact hptr p.cmndline (hget .cmndline rfl)
  case exec => exact hptr p.exec (hget .exec rfl)
  case cwd => exact hptr p.cwd (hget .cwd rfl)
  case cmdline => exact harray (Or.inl rfl)
  case environ => exact harray (Or.inr rfl)
  all_goals exact ⟨_, rfl⟩

/-- The members that are computed from the stat file, and the lengths. -/
theorem ready_members {port : Port} {e : DirEntry} {r : Row} (h : Row.scrape port e = .ready r) :
    r.prs.pid = e.statPid.getD 0 ∧
      r.prs.state = (stateOf (Row.upToStat e).2.prs.stateC).map (fun s => getString s.idx) ∧
      r.prs.cmdlineLen = lengthOf r.prs.cmdline ∧ r.prs.environLen = lengthOf r.prs.environ := by
  obtain ⟨hget, hlast⟩ := Row.ready_prs h
  obtain ⟨_, hpid, _, _, hstate⟩ := Row.fixup_prs port (Row.upToStat e).2
  have hnone : (Row.upToStat e).2.prs.state = none :=
    congrArg (fun p => p.2.2) (Row.upToStat_prs e).2
  rw [hnone, Option.or_none] at hstate
  refine ⟨(congrArg Scraped.pid hlast).trans (hpid.trans (Row.upToStat_stat e).2.1),
    (congrArg Scraped.state hlast).trans hstate, ?_, ?_⟩
  · exact (congrArg Scraped.cmdlineLen hlast).trans (congrArg lengthOf (hget .cmdline)).symm
  · exact (congrArg Scraped.environLen hlast).trans (congrArg lengthOf (hget .environ)).symm

/-- **An enabled pointer field has something to point to.** -/
theorem ready_pointer {port : Port} {e : DirEntry} {r : Row} (h : Row.scrape port e = .ready r) :
    (e.enabledFields port .state = true → r.prs.state ≠ none) ∧
      ∀ m : Member, e.enabledFields port m.field = true → r.prs.get m ≠ none := by
  refine ⟨fun hen => ?_, fun m hen => ?_⟩
  · rw [enabledFields_state, DirEntry.stateKnown] at hen
    rw [(ready_members h).2.1]
    cases hs : stateOf (Row.upToStat e).2.prs.stateC with
    | none => simp [hs] at hen
    | some s => simp
  · rw [enabledFields_member] at hen
    rw [(Row.ready_prs h).1 m]
    exact Option.isSome_iff_ne_none.mp hen

/-- The text of the memory percentage fits its array. -/
def DirEntry.PctmemFits (port : Port) (e : DirEntry) : Prop :=
  port.globals.systemMemory ≠ 0 →
    (port.float.pctmemText (e.statRss * port.globals.pageSize.toUInt64.toInt64)
      port.globals.systemMemory).length < sizeofPctmem

theorem percentages_ok_iff (port : Port) (k : Kernel) (r : Row) :
    (∃ r', r.percentages port k = .ok r') ↔
      (port.globals.systemMemory ≠ 0 →
        (port.float.pctmemText r.prs.rss port.globals.systemMemory).length < sizeofPctmem) := by
  unfold Row.percentages calcPrec
  by_cases hmem : port.globals.systemMemory ≠ 0
  · simp only [if_pos hmem]
    by_cases hfit : (port.float.pctmemText r.prs.rss port.globals.systemMemory).length < sizeofPctmem
    · simp only [if_pos hfit]
      exact iff_of_true ⟨_, rfl⟩ fun _ => hfit
    · simp only [if_neg hfit]
      refine iff_of_false ?_ fun h => hfit (h hmem)
      rintro ⟨r', h⟩
      cases h
  · simp only [if_neg hmem]
    exact iff_of_true ⟨_, rfl⟩ fun h => absurd h hmem

/-- The resident size at the percentages, in bytes. -/
theorem status_rss {port : Port} {e : DirEntry} {r' : Row}
    (h : ((Row.upToStat e).2.links port e).status (e.world .status) e.dName = some r') :
    r'.prs.rss = e.statRss * port.globals.pageSize.toUInt64.toInt64 := by
  rw [← (Row.upToStat_stat e).2.2]
  obtain ⟨hget, hout⟩ := Row.upToStat_prs e
  have hs2 := (Row.status_prs (Row.links_formatStr port e) (Row.links_fresh e) h).2
  have hs1 := (Row.links_prs port e hget hout).2
  have hfix : ((Row.upToStat e).2.fixup port).prs.rss =
      (Row.upToStat e).2.prs.rss * port.globals.pageSize.toUInt64.toInt64 := by
    unfold Row.fixup fixupStatValues
    cases stateOf (Row.upToStat e).2.prs.stateC <;> rfl
  exact (congrArg Scraped.rss hs2).trans ((congrArg Scraped.rss hs1).trans hfix)

/-- **When an entry reaches the call of `bless_into_proc`.** -/
theorem scrape_ready_iff (port : Port) (e : DirEntry) :
    (∃ r, Row.scrape port e = .ready r) ↔
      isPid e.dName = true ∧ ¬ e.Gone ∧ e.statusEnds ∧ e.PctmemFits port := by
  rw [← Row.vanished_iff]
  have hstatus := Row.status_formatStr (Row.links_formatStr port e) (Row.links_fresh e)
    (e.world .status) e.dName
  constructor
  · rintro ⟨r, h⟩
    obtain ⟨hpid, hvan, r', hr', hpercent⟩ := Row.scrape_eq_ready h
    rw [hr'] at hstatus
    have hfits := (percentages_ok_iff port (e.world .calcPrec) r').mp ⟨r, hpercent⟩
    rw [status_rss hr'] at hfits
    exact ⟨hpid, hvan, hstatus.1, hfits⟩
  · rintro ⟨hpid, hvan, hends, hfits⟩
    cases hr' : ((Row.upToStat e).2.links port e).status (e.world .status) e.dName with
    | none =>
        rw [hr'] at hstatus
        obtain ⟨text, hfile, hhead⟩ := hstatus
        exact absurd hhead (hends text hfile)
    | some r' =>
        have hfits' : port.globals.systemMemory ≠ 0 →
            (port.float.pctmemText r'.prs.rss port.globals.systemMemory).length < sizeofPctmem := by
          rw [status_rss hr']
          exact hfits
        obtain ⟨r, hr⟩ := (percentages_ok_iff port (e.world .calcPrec) r').mpr hfits'
        refine ⟨r, ?_⟩
        rw [Row.scrape, if_neg (by simp [hpid]), if_neg hvan, Row.finish, hr']
        dsimp only
        rw [hr]

/-- The fields of a published row with their values. -/
def RowValues (port : Port) (e : DirEntry) (r : Row) (value : Field → SV × Option UInt64) : Prop :=
  ∀ f, groupValue (f.char (e.enabledFields port f))
    (fieldSlots e.upper (fun t => t ++ [nul]) r.prs f) = .ok (value f)

/-- The object with these values. -/
def objectOf (port : Port) (ttydevs : Option HV) (e : DirEntry) (r : Row)
    (value : Field → SV × Option UInt64) : HV :=
  storeColumns ttydevs
    (valueColumns (e.enabledFields port) (fieldSlots e.upper (fun t => t ++ [nul]) r.prs) value)
    HV.empty

section Published

variable {port : Port} {e : DirEntry} {r : Row} (h : Row.scrape port e = .ready r)

include h

/-- The call of `bless_into_proc`, field by field. -/
theorem bless_eq (xs : Interp) :
    r.bless e.upper xs =
      match blessGroups xs.ttydevs (fieldColumns (e.enabledFields port)
        (fieldSlots e.upper (fun t => t ++ [nul]) r.prs)) HV.empty with
      | .ok obj => ((xs.setFields fieldKeys Field.all.length).push obj, none)
      | .error f => (xs.setFields fieldKeys Field.all.length, some f) := by
  rw [Row.bless, Row.ready_formatStr h, blessArgs_eq]
  exact blessIntoProc_fields (fun f => takes_fieldSlots e.upper _ r.prs f _) xs

/-- The slots of an array field: its text, and the length as an `int`. -/
theorem array_slots (m : Member) (hm : m = .cmdline ∨ m = .environ) :
    ∃ len, fieldSlots e.upper (fun t => t ++ [nul]) r.prs m.field =
      [.ptr ((e.text m).map fun t => t ++ [nul]), .word len] ∧
        toInt len = lengthOf (e.text m) ∧ m.field.char true = 'a' := by
  have hget := (Row.ready_prs h).1 m
  obtain ⟨_, _, hcmdline, henviron⟩ := ready_members h
  rw [← hget]
  rcases hm with rfl | rfl
  · obtain ⟨w, hw, hint⟩ := toInt_argInt e.upper .cmdline r.prs.cmdlineLen
    refine ⟨w, ?_, hint.trans hcmdline, ?_⟩
    · rw [Member.field, fieldSlots, hw]
      rfl
    · rw [Field.char, Field.spec, defaultFormat_eq]
      rfl
  · obtain ⟨w, hw, hint⟩ := toInt_argInt e.upper .environ r.prs.environLen
    refine ⟨w, ?_, hint.trans henviron, ?_⟩
    · rw [Member.field, fieldSlots, hw]
      rfl
    · rw [Field.char, Field.spec, defaultFormat_eq]
      rfl

/-- An array field has a value when its strings fit. -/
theorem array_value_iff (m : Member) (hm : m = .cmdline ∨ m = .environ) :
    (∃ v, groupValue (m.field.char (e.enabledFields port m.field))
        (fieldSlots e.upper (fun t => t ++ [nul]) r.prs m.field) = .ok v) ↔ ArrayFits (e.text m) := by
  obtain ⟨len, hgroup, hlen, hchar⟩ := array_slots h m hm
  rw [enabledFields_member]
  cases htext : e.text m with
  | none =>
      refine iff_of_true ⟨_, groupValue_masked e.upper _ r.prs m.field⟩ ?_
      intro t ht
      cases ht
  | some t =>
      rw [htext] at hgroup hlen
      rw [Option.isSome_some, hchar, hgroup, groupValue_array, hlen]
      constructor
      · rintro ⟨v, hv⟩ t' ht'
        obtain rfl := Option.some.inj ht'
        rw [Option.map_some, lengthOf, Option.map_some, Option.getD_some] at hv
        cases harray : newArray (some (t ++ [nul])) (Int32.ofNat t.length) with
        | error f =>
            rw [harray] at hv
            cases hv
        | ok av =>
            obtain ⟨elems, rfl⟩ := newArray_av harray
            exact ⟨elems, rfl⟩
      · intro hfits
        obtain ⟨elems, helems⟩ := hfits t rfl
        refine ⟨(.av elems, none), ?_⟩
        rw [Option.map_some, lengthOf, Option.map_some, Option.getD_some, helems]
        rfl

/-- **When `bless_into_proc` pushes an object.** -/
theorem bless_pushes_iff (xs : Interp) :
    (∃ obj, r.bless e.upper xs = ((xs.setFields fieldKeys Field.all.length).push obj, none)) ↔
      ArrayFits (e.file .cmdline "cmdline") ∧ ArrayFits (e.file .environ "environ") := by
  have hcmdline := array_value_iff h .cmdline (Or.inl rfl)
  have henviron := array_value_iff h .environ (Or.inr rfl)
  obtain ⟨hstate, hget⟩ := ready_pointer h
  rw [bless_eq h xs]
  constructor
  · rintro ⟨obj, hobj⟩
    cases hgroups : blessGroups xs.ttydevs (fieldColumns (e.enabledFields port)
        (fieldSlots e.upper (fun t => t ++ [nul]) r.prs)) HV.empty with
    | error f =>
        rw [hgroups] at hobj
        exact absurd (congrArg Prod.snd hobj) (Option.some_ne_none f)
    | ok obj' =>
        obtain ⟨value, hvalue⟩ := values_of_blessGroups hgroups
        exact ⟨hcmdline.mp ⟨_, hvalue .cmdline⟩, henviron.mp ⟨_, hvalue .environ⟩⟩
  · rintro ⟨hc, he⟩
    have hall : ∀ f : Field, ∃ v, groupValue (f.char (e.enabledFields port f))
        (fieldSlots e.upper (fun t => t ++ [nul]) r.prs f) = .ok v := by
      intro f
      cases hen : e.enabledFields port f with
      | false => exact ⟨_, groupValue_masked e.upper _ r.prs f⟩
      | true =>
          apply groupValue_enabled e.upper _ r.prs f
          · rintro rfl
            exact hstate hen
          · rintro m rfl
            exact hget m hen
          · rintro (rfl | rfl)
            · have hv := hcmdline.mpr hc
              rw [show Member.cmdline.field = Field.cmdline from rfl, hen] at hv
              exact hv
            · have hv := henviron.mpr he
              rw [show Member.environ.field = Field.environ from rfl, hen] at hv
              exact hv
    obtain ⟨value, hvalue⟩ := Classical.axiomOfChoice hall
    rw [blessGroups_of_values xs.ttydevs hvalue HV.empty]
    exact ⟨_, rfl⟩

/-- The object that is pushed holds the values of the row's fields. -/
theorem bless_object {xs xs' : Interp} (hbless : r.bless e.upper xs = (xs', none)) :
    ∃ value, RowValues port e r value ∧
      xs' = (xs.setFields fieldKeys Field.all.length).push
        (objectOf port xs.ttydevs e r value) := by
  rw [bless_eq h xs] at hbless
  cases hgroups : blessGroups xs.ttydevs (fieldColumns (e.enabledFields port)
      (fieldSlots e.upper (fun t => t ++ [nul]) r.prs)) HV.empty with
  | error f =>
      rw [hgroups] at hbless
      exact absurd (congrArg Prod.snd hbless) (Option.some_ne_none f)
  | ok obj =>
      rw [hgroups] at hbless
      obtain ⟨value, hvalue, rfl⟩ := exists_values hgroups
      exact ⟨value, hvalue, (Prod.mk.inj hbless).1.symm⟩

end Published

/-- The object, field by field. -/
theorem objectOf_name (port : Port) (ttydevs : Option HV) (e : DirEntry) (r : Row)
    (value : Field → SV × Option UInt64) (f : Field) :
    objectOf port ttydevs e r value f.name = some (value f).1 :=
  storeColumns_name ttydevs _ _ value f

/-- A key that is neither a field's nor the terminal name is absent. -/
theorem objectOf_other (port : Port) (ttydevs : Option HV) (e : DirEntry) (r : Row)
    (value : Field → SV × Option UInt64) {key : String} (hkey : key ∉ fieldKeys)
    (htty : key ≠ "ttydev") : objectOf port ttydevs e r value key = none := by
  have hkeys := valueColumns_key (e.enabledFields port)
    (fieldSlots e.upper (fun t => t ++ [nul]) r.prs) value
  exact storeColumns_of_not_mem ttydevs HV.empty (by rw [hkeys]; exact hkey) htty

/-- **The terminal name is there exactly when the stat record was scanned.** -/
theorem objectOf_ttydev {port : Port} (ttydevs : Option HV) {e : DirEntry} {r : Row}
    {value : Field → SV × Option UInt64} (hvalue : RowValues port e r value) :
    (objectOf port ttydevs e r value "ttydev").isSome = e.statScanned := by
  have hkeys := valueColumns_key (e.enabledFields port)
    (fieldSlots e.upper (fun t => t ++ [nul]) r.prs) value
  have hen := @enabledFields_stat port e .ttynum (by decide)
  have htty : (value .ttynum).2.isSome = e.statScanned := by
    have hv := hvalue .ttynum
    rw [hen] at hv
    cases hs : e.statScanned with
    | false =>
        rw [hs, groupValue_masked] at hv
        rw [← Except.ok.inj hv]
        rfl
    | true =>
        rw [hs, Field.char, Field.spec, defaultFormat_eq] at hv
        rw [← Except.ok.inj hv]
        rfl
  rw [objectOf, storeColumns_ttydev ttydevs (by rw [hkeys]; exact fieldKeys_nodup.2)]
  have hany : (valueColumns (e.enabledFields port)
      (fieldSlots e.upper (fun t => t ++ [nul]) r.prs) value).any
        (fun col => decide (col.key = "ttynum") && col.value.2.isSome) =
      (value .ttynum).2.isSome := by
    have hname : ∀ f : Field, f.name = "ttynum" ↔ f = .ttynum := by
      intro f
      rw [Field.name, fieldKeys_eq]
      cases f <;> decide
    rw [Bool.eq_iff_iff, List.any_eq_true, valueColumns]
    constructor
    · rintro ⟨col, hcol, hval⟩
      obtain ⟨f, _, rfl⟩ := List.mem_map.mp hcol
      rw [Bool.and_eq_true, decide_eq_true_eq, hname] at hval
      rw [← hval.1]
      exact hval.2
    · intro hval
      refine ⟨_, List.mem_map_of_mem (Field.mem_all .ttynum), ?_⟩
      rw [Bool.and_eq_true, decide_eq_true_eq, hname]
      exact ⟨rfl, hval⟩
  rw [hany, htty]
  rfl

/-- A port on a machine whose memory size is not known. -/
def samplePort : Port where
  globals := ⟨0, 4096, 0, 100⟩
  float := ⟨fun x _ => x, fun x _ => x, fun _ _ => ['0'], fun _ _ => ['0']⟩

/-- A process whose directory is there but whose files cannot be opened. -/
def unreadableEntry : DirEntry where
  dName := ['4', '2']
  world := fun _ => ⟨fun _ => none, fun _ => true, fun _ => none, fun _ => none, 0⟩
  upper := fun _ => 0
  dName_nulFree := by decide
  dName_length := by decide

theorem unreadableEntry_ready : ∃ r, Row.scrape samplePort unreadableEntry = .ready r := by
  refine (scrape_ready_iff samplePort unreadableEntry).mpr ⟨by decide, ?_, ?_, ?_⟩
  · exact fun h => Bool.noConfusion h.2
  · exact fun text h => by cases h
  · exact fun h => absurd rfl h

end Linux
