import ProcProcessTable.LinuxRefinement
import ProcProcessTable.LinuxRowValues

/-!
# The call of bless_into_proc

The argument list of the Linux port is cut into one group of slots for each
field, and both characters a field can have take its group whole
(`takes_fieldSlots`).  So the object is filled field by field
(`blessIntoProc_fields`), and since a group on the pool is worth what the row's
group is worth (`groupValue_represents`), the object is the row's.
-/

namespace Linux

open CText MemPool Xs

/-- The slots of one field. -/
def fieldSlots {π : Type} (upper : Field → UInt32) (deref : π → Mem) (prs : Procstat π) : Field → List Slot
  | .uid => [argInt upper .uid prs.uid]
  | .gid => [argInt upper .gid prs.gid]
  | .pid => [argInt upper .pid prs.pid]
  | .fname => [.ptr (some prs.comm)]
  | .ppid => [argInt upper .ppid prs.ppid]
  | .pgrp => [argInt upper .pgrp prs.pgrp]
  | .sess => [argInt upper .sess prs.sid]
  | .ttynum => [argInt upper .ttynum prs.tty]
  | .flags => [argHalf upper .flags prs.flags]
  | .minflt => [.word prs.minflt]
  | .cminflt => [.word prs.cminflt]
  | .majflt => [.word prs.majflt]
  | .cmajflt => [.word prs.cmajflt]
  | .utime => [.word prs.utime]
  | .stime => [.word prs.stime]
  | .cutime => [.word prs.cutime.toUInt64]
  | .cstime => [.word prs.cstime.toUInt64]
  | .priority => [.word prs.priority.toUInt64]
  | .start => [.word prs.startTime]
  | .size => [.word prs.vsize]
  | .rss => [.word prs.rss.toUInt64]
  | .wchan => [.word prs.wchan]
  | .time => [.word prs.time]
  | .ctime => [.word prs.ctime]
  | .state => [.ptr (prs.state.map stringAt)]
  | .euid => [argInt upper .euid prs.euid]
  | .suid => [argInt upper .suid prs.suid]
  | .fuid => [argInt upper .fuid prs.fuid]
  | .egid => [argInt upper .egid prs.egid]
  | .sgid => [argInt upper .sgid prs.sgid]
  | .fgid => [argInt upper .fgid prs.fgid]
  | .pctcpu => [.ptr (some prs.pctcpu)]
  | .pctmem => [.ptr (some prs.pctmem)]
  | .cmndline => [.ptr (prs.cmndline.map deref)]
  | .exec => [.ptr (prs.exec.map deref)]
  | .cwd => [.ptr (prs.cwd.map deref)]
  | .cmdline => [.ptr (prs.cmdline.map deref), argInt upper .cmdline prs.cmdlineLen]
  | .environ => [.ptr (prs.environ.map deref), argInt upper .environ prs.environLen]
  | .tracer => [argInt upper .tracer prs.tracer]

/-- The format character of a field. -/
def Field.char (f : Field) (enabled : Bool) : Char := if enabled then f.spec.toLower else f.spec

section

variable {π : Type} (upper : Field → UInt32) (deref : π → Mem) (prs : Procstat π)

/-- The argument list, field by field. -/
theorem blessArgs_eq : blessArgs upper deref prs = Field.all.flatMap (fieldSlots upper deref prs) :=
  rfl

/-- Both characters of a field take its slots. -/
theorem takes_fieldSlots (f : Field) (on : Bool) : Takes (f.char on) (fieldSlots upper deref prs f) := by
  rw [Field.char, Field.spec, defaultFormat_eq]
  cases f <;> cases on <;>
    first
      | exact takes_word (by decide) _
      | exact takes_string (by decide) _
      | exact takes_array (by decide) _ _

end

/-- The fields of a call with their characters, names and slots. -/
def fieldColumns (enabled : Field → Bool) (slots : Field → List Slot) :
    List (Char × String × List Slot) :=
  Field.all.map fun f => (f.char (enabled f), f.name, slots f)

/-- **The object is filled field by field.** -/
theorem blessIntoProc_fields {enabled : Field → Bool} {slots : Field → List Slot}
    (htakes : ∀ f, Takes (f.char (enabled f)) (slots f)) (xs : Interp) :
    blessIntoProc (formatOf enabled) fieldKeys (Field.all.flatMap slots) xs =
      match blessGroups xs.ttydevs (fieldColumns enabled slots) HV.empty with
      | .ok myhash => ((xs.setFields fieldKeys Field.all.length).push myhash, none)
      | .error f => (xs.setFields fieldKeys Field.all.length, some f) := by
  have hcols : ∀ col ∈ fieldColumns enabled slots, Takes col.1 col.2.2 := by
    intro col hcol
    obtain ⟨f, _, rfl⟩ := List.mem_map.mp hcol
    exact htakes f
  have hchars : (fieldColumns enabled slots).map (fun col => col.1) = cstr (formatOf enabled) := by
    rw [cstr_formatOf, fieldColumns, List.map_map]
    rfl
  have hkeys : (fieldColumns enabled slots).map (fun col => col.2.1) = fieldKeys := by
    rw [fieldKeys_eq_map, fieldColumns, List.map_map]
    rfl
  have hslots : (fieldColumns enabled slots).flatMap (fun col => col.2.2) =
      Field.all.flatMap slots := by
    rw [fieldColumns, List.flatMap_map]
  have hlen : strlen (formatOf enabled) = Field.all.length := by
    rw [strlen, cstr_formatOf, List.length_map]
  have hloop := blessLoop_groups xs.ttydevs hcols HV.empty
  rw [hchars, hkeys, hslots] at hloop
  rw [blessIntoProc, hlen, Interp.setFields_ttydevs, ← hloop]
  cases blessLoop xs.ttydevs (cstr (formatOf enabled)) fieldKeys (Field.all.flatMap slots)
      HV.empty with
  | error f => rfl
  | ok out => rfl

/-- Fields worth the same fill the same object. -/
theorem blessGroups_congr (ttydevs : Option HV) {enabled : Field → Bool}
    {slots slots' : Field → List Slot}
    (h : ∀ f, groupValue (f.char (enabled f)) (slots f) =
      groupValue (f.char (enabled f)) (slots' f)) (myhash : HV) :
    blessGroups ttydevs (fieldColumns enabled slots) myhash =
      blessGroups ttydevs (fieldColumns enabled slots') myhash := by
  unfold fieldColumns
  induction Field.all generalizing myhash with
  | nil => rfl
  | cons f fs ih =>
      rw [List.map_cons, List.map_cons, blessGroups, blessGroups, h f]
      cases groupValue (f.char (enabled f)) (slots' f) with
      | error _ => rfl
      | ok v => exact ih _

/-- The `int` in the slot of a 4-byte argument. -/
theorem toInt_argInt (upper : Field → UInt32) (f : Field) (x : Int32) :
    ∃ w, argInt upper f x = .word w ∧ toInt w = x := by
  refine ⟨_, rfl, ?_⟩
  rw [toInt, toUInt32_slot]
  rfl

/-- An `int` is read as it was passed, and looked up with its sign. -/
theorem groupValue_int (upper : Field → UInt32) (f : Field) (x : Int32) :
    groupValue 'i' [argInt upper f x] = .ok (.iv x.toInt, some x.toInt64.toUInt64) := by
  obtain ⟨w, hw, hint⟩ := toInt_argInt upper f x
  rw [hw, ← hint]
  rfl

/-- The value of an array field. -/
theorem groupValue_array (m : Option Mem) (w : UInt64) :
    groupValue 'a' [.ptr m, .word w] = (newArray m (toInt w)).map fun av => (av, none) := by
  show Except.map Prod.fst (do let av ← newArray m (toInt w); Except.ok ((av, none), [])) = _
  cases newArray m (toInt w) <;> rfl

/-- A text whose length is handed over is worth the same whatever lies behind
its NUL. -/
theorem newArray_append (text junk : List Char) :
    newArray (some (text ++ nul :: junk)) (Int32.ofNat text.length) =
      newArray (some (text ++ [nul])) (Int32.ofNat text.length) := by
  rw [newArray, newArray, splitStrings_append text junk (toInt_ofNat_le text.length)]

section Represents

variable {base : Nat} {objs : List (Block (Procstat Nat))} {pool : Memory} {p : Procstat Nat}
  {q : Procstat (List Char)}

/-- The objects of a frame are read from the pool. -/
def ReadsObjects (base : Nat) (objs : List (Block (Procstat Nat))) (pool : Memory) : Prop :=
  ∀ i m, objs[i]? = some (.bytes m) → pool.bytesAt (base + i) = m

/-- What a pointer reaches, and the text it stands for. -/
theorem PtrShows.deref (hread : ReadsObjects base objs pool) {ptr : Option Nat}
    {text : Option (List Char)} (h : PtrShows base objs ptr text) :
    (ptr = none ∧ text = none) ∨
      ∃ t junk, text = some t ∧ ptr.map pool.bytesAt = some (t ++ nul :: junk) := by
  cases ptr with
  | none =>
      cases text with
      | none => exact Or.inl ⟨rfl, rfl⟩
      | some t => exact h.elim
  | some ptr =>
      cases text with
      | none => exact h.elim
      | some t =>
          obtain ⟨i, junk, rfl, hobj⟩ := h
          exact Or.inr ⟨t, junk, rfl, congrArg some (hread i _ hobj)⟩

theorem groupValue_ptr (hread : ReadsObjects base objs pool) {ptr : Option Nat}
    {text : Option (List Char)} (h : PtrShows base objs ptr text) {c : Char} (hc : c ∈ ['S', 's']) :
    groupValue c [.ptr (ptr.map pool.bytesAt)] =
      groupValue c [.ptr (text.map fun t => t ++ [nul])] := by
  apply groupValue_string hc
  rcases h.deref hread with ⟨rfl, rfl⟩ | ⟨t, junk, rfl, hptr⟩
  · rfl
  · rw [hptr, Option.map_some, Option.map_some, Option.map_some, cstr_append_nul, cstr_append_nul]

theorem groupValue_ptr_array (upper : Field → UInt32) (f : Field) (hread : ReadsObjects base objs pool)
    {ptr : Option Nat} {text : Option (List Char)} (h : PtrShows base objs ptr text) {c : Char}
    (hc : c ∈ ['A', 'a']) :
    groupValue c [.ptr (ptr.map pool.bytesAt), argInt upper f (lengthOf text)] =
      groupValue c [.ptr (text.map fun t => t ++ [nul]), argInt upper f (lengthOf text)] := by
  obtain ⟨w, hw, hint⟩ := toInt_argInt upper f (lengthOf text)
  rw [hw]
  simp only [List.mem_cons, List.not_mem_nil, or_false] at hc
  rcases hc with rfl | rfl
  · rfl
  · rw [groupValue_array, groupValue_array, hint]
    rcases h.deref hread with ⟨rfl, rfl⟩ | ⟨t, junk, rfl, hptr⟩
    · rfl
    · rw [hptr, Option.map_some]
      exact congrArg (Except.map _) (newArray_append t junk)

/-- **A field on the pool is worth what the row's field is worth.** -/
theorem groupValue_represents (upper : Field → UInt32) (h : Represents base objs p q)
    (hread : ReadsObjects base objs pool) (hcmdline : q.cmdlineLen = lengthOf q.cmdline)
    (henviron : q.environLen = lengthOf q.environ) (f : Field) (on : Bool) :
    groupValue (f.char on) (fieldSlots upper pool.bytesAt p f) =
      groupValue (f.char on) (fieldSlots upper (fun t => t ++ [nul]) q f) := by
  have hchars : ∀ f : Field, f ∈ [Field.cmndline, .exec, .cwd] → f.char on ∈ ['S', 's'] := by
    intro f hf
    rw [Field.char, Field.spec, defaultFormat_eq]
    simp only [List.mem_cons, List.not_mem_nil, or_false] at hf
    rcases hf with rfl | rfl | rfl <;> cases on <;> decide
  have hchara : ∀ f : Field, f ∈ [Field.cmdline, .environ] → f.char on ∈ ['A', 'a'] := by
    intro f hf
    rw [Field.char, Field.spec, defaultFormat_eq]
    simp only [List.mem_cons, List.not_mem_nil, or_false] at hf
    rcases hf with rfl | rfl <;> cases on <;> decide
  obtain ⟨⟨⟩, cwd, cmndline, cmdline, environ, exec⟩ := p
  obtain ⟨⟨⟩, cwd', cmndline', cmdline', environ', exec'⟩ := q
  obtain ⟨hs, hptr⟩ := h
  cases hs
  dsimp only at hcmdline henviron
  cases f
  case cmndline => exact groupValue_ptr hread (hptr .cmndline) (hchars _ (by decide))
  case exec => exact groupValue_ptr hread (hptr .exec) (hchars _ (by decide))
  case cwd => exact groupValue_ptr hread (hptr .cwd) (hchars _ (by decide))
  case cmdline =>
      simp only [fieldSlots, hcmdline]
      exact groupValue_ptr_array upper .cmdline hread (hptr .cmdline) (hchara _ (by decide))
  case environ =>
      simp only [fieldSlots, henviron]
      exact groupValue_ptr_array upper .environ hread (hptr .environ) (hchara _ (by decide))
  all_goals rfl

end Represents

end Linux
