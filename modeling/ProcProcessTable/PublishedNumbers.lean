import ProcProcessTable.LinuxObject
import ProcProcessTable.ScalarNumbers

/-!
# The numbers an object holds

`OS_get_table` hands the members of `struct procstat` over one slot each, and
`bless_into_proc` reads each slot at the width the format character says.  The
two agree for every numeric field but two: `flags` has 4 bytes and is read as a
`long`, and `priority` is a `long` and is read as an `int`.

`published_numbers_iff` is the exact condition under which an object holds the
numbers it was given.
-/

namespace Linux

open CText Xs

/-- The number handed over for a numeric field: the member as it stands in the
record. -/
def Field.number {π : Type} (prs : Procstat π) : Field → Option Int
  | .uid => some prs.uid.toInt
  | .gid => some prs.gid.toInt
  | .pid => some prs.pid.toInt
  | .ppid => some prs.ppid.toInt
  | .pgrp => some prs.pgrp.toInt
  | .sess => some prs.sid.toInt
  | .ttynum => some prs.tty.toInt
  | .flags => some prs.flags.toNat
  | .minflt => some prs.minflt.toNat
  | .cminflt => some prs.cminflt.toNat
  | .majflt => some prs.majflt.toNat
  | .cmajflt => some prs.cmajflt.toNat
  | .utime => some prs.utime.toNat
  | .stime => some prs.stime.toNat
  | .cutime => some prs.cutime.toInt
  | .cstime => some prs.cstime.toInt
  | .priority => some prs.priority.toInt
  | .start => some prs.startTime.toNat
  | .size => some prs.vsize.toNat
  | .rss => some prs.rss.toInt
  | .wchan => some prs.wchan.toNat
  | .time => some prs.time.toNat
  | .ctime => some prs.ctime.toNat
  | .euid => some prs.euid.toInt
  | .suid => some prs.suid.toInt
  | .fuid => some prs.fuid.toInt
  | .egid => some prs.egid.toInt
  | .sgid => some prs.sgid.toInt
  | .fgid => some prs.fgid.toInt
  | .tracer => some prs.tracer.toInt
  | .fname | .state | .pctcpu | .pctmem | .cmndline | .exec | .cwd | .cmdline | .environ => none

/-- A character reads this number from a slot, or does not. -/
def ReadsNumber (c : Char) (slots : List Slot) (n : Int) : Prop :=
  ∃ v, groupValue c slots = .ok v ∧ v.1.number = some n

theorem readsNumber_iff {c : Char} {slots : List Slot} {v : SV × Option UInt64} {n : Int}
    (h : groupValue c slots = .ok v) : ReadsNumber c slots n ↔ v.1.number = some n := by
  constructor
  · rintro ⟨v', h', hn⟩
    rw [h] at h'
    rw [Except.ok.inj h']
    exact hn
  · exact fun hn => ⟨v, h, hn⟩

/-- A 4-byte signed argument is read as an `int`. -/
theorem readsNumber_int (upper : Field → UInt32) (f : Field) (x : Int32) :
    ReadsNumber 'i' [argInt upper f x] x.toInt := by
  obtain ⟨w, hw, hint⟩ := toInt_argInt upper f x
  rw [hw]
  refine ⟨_, rfl, ?_⟩
  rw [hint, SV.number]

/-- An 8-byte unsigned argument is read at its width. -/
theorem readsNumber_unsigned {c : Char} (hc : c ∈ ['l', 'p', 'j']) {w : UInt64}
    (hw : (w.toNat : Int).natAbs < 2 ^ 53) : ReadsNumber c [.word w] w.toNat := by
  have hsigned : w.toInt64.toInt = w.toNat := by
    rw [toInt_toInt64, Int.bmod_def]
    split <;> omega
  have hnv : (newSVnv w.toNat).number = some (w.toNat : Int) := by
    rw [newSVnv_of_lt hw, SV.number]
  simp only [List.mem_cons, List.not_mem_nil, or_false] at hc
  rcases hc with rfl | rfl | rfl
  · refine ⟨_, rfl, ?_⟩
    rw [hsigned]
    exact hnv
  · exact ⟨_, rfl, hnv⟩
  · refine ⟨_, rfl, ?_⟩
    rw [hsigned]
    exact hnv

/-- An 8-byte signed argument is read at its width. -/
theorem readsNumber_signed {c : Char} (hc : c ∈ ['l', 'j']) {x : Int64}
    (hx : x.toInt.natAbs < 2 ^ 53) : ReadsNumber c [.word x.toUInt64] x.toInt := by
  have hnv : (newSVnv x.toInt).number = some x.toInt := by
    rw [newSVnv_of_lt hx, SV.number]
  simp only [List.mem_cons, List.not_mem_nil, or_false] at hc
  rcases hc with rfl | rfl
  · exact ⟨_, rfl, hnv⟩
  · exact ⟨_, rfl, hnv⟩

/-- The priority is a `long` and is read as an `int`. -/
theorem readsNumber_priority (x : Int64) :
    ReadsNumber 'i' [.word x.toUInt64] x.toInt ↔ -2 ^ 31 ≤ x.toInt ∧ x.toInt < 2 ^ 31 := by
  have hlow : (toInt x.toUInt64).toInt = ((x.toUInt64.toNat % 2 ^ 32 : Nat) : Int).bmod (2 ^ 32) := by
    rw [← UInt64.toNat_toUInt32]
    exact BitVec.toInt_eq_toNat_bmod x.toUInt64.toUInt32.toBitVec
  have hall : x.toInt = (x.toUInt64.toNat : Int).bmod (2 ^ 64) := toInt_toInt64 x.toUInt64
  rw [readsNumber_iff (show groupValue 'i' [.word x.toUInt64] = .ok (_, _) from rfl), SV.number,
    Option.some.injEq, hlow, hall, Int.bmod_def, Int.bmod_def]
  have hlt := x.toUInt64.toNat_lt
  generalize x.toUInt64.toNat = w at hlt
  constructor
  · intro h
    split at h <;> split at h <;> omega
  · intro h
    split <;> split at h <;> omega

/-- The flags have 4 bytes and are read as a `long`. -/
theorem readsNumber_flags (upper : Field → UInt32) (w : UInt32) :
    ReadsNumber 'l' [argHalf upper .flags w] w.toNat ↔ upper .flags = 0 := by
  rw [readsNumber_iff (show groupValue 'l' [argHalf upper .flags w] = .ok (_, _) from rfl)]
  exact newSVnv_half (upper .flags) w

/-- Every numeric field is read as the number it was handed over with, the two
fields of another width under a condition. -/
theorem readsNumber_field {π : Type} (upper : Field → UInt32) (deref : π → Mem) {prs : Procstat π} {f : Field}
    {n : Int} (hn : f.number prs = some n) (hbound : n.natAbs < 2 ^ 53) :
    ReadsNumber (f.char true) (fieldSlots upper deref prs f) n ↔
      (f = .flags → upper .flags = 0) ∧
        (f = .priority → -2 ^ 31 ≤ prs.priority.toInt ∧ prs.priority.toInt < 2 ^ 31) := by
  rw [Field.char, Field.spec, defaultFormat_eq]
  cases f <;> cases hn
  case flags.refl =>
      have h := readsNumber_flags upper prs.flags
      exact h.trans ⟨fun h => ⟨fun _ => h, fun h => Field.noConfusion h⟩, fun h => h.1 rfl⟩
  case priority.refl =>
      have h := readsNumber_priority prs.priority
      exact h.trans ⟨fun h => ⟨fun h => Field.noConfusion h, fun _ => h⟩, fun h => h.2 rfl⟩
  all_goals
    refine iff_of_true ?_ ⟨fun h => Field.noConfusion h, fun h => Field.noConfusion h⟩
    first
      | exact readsNumber_int upper _ _
      | exact readsNumber_unsigned (by decide) hbound
      | exact readsNumber_signed (by decide) hbound

/-- A call that returns pushes one object, which holds what each character makes
of its slots. -/
theorem blessIntoProc_object {π : Type} {upper : Field → UInt32} {deref : π → Mem} {prs : Procstat π}
    {enabled : Field → Bool} {xs xs' : Interp}
    (hcall : blessIntoProc (formatOf enabled) fieldKeys (blessArgs upper deref prs) xs =
      (xs', none)) :
    ∃ obj, xs'.proclist = xs.proclist ++ [obj] ∧ ∀ f : Field, ∃ v,
      groupValue (f.char (enabled f)) (fieldSlots upper deref prs f) = .ok v ∧
        obj f.name = some v.1 := by
  rw [blessArgs_eq, blessIntoProc_fields fun f => takes_fieldSlots upper deref prs f _] at hcall
  cases hgroups : blessGroups xs.ttydevs (fieldColumns enabled (fieldSlots upper deref prs))
      HV.empty with
  | error f =>
      rw [hgroups] at hcall
      exact absurd (congrArg Prod.snd hcall) (Option.some_ne_none f)
  | ok obj =>
      rw [hgroups] at hcall
      obtain ⟨value, hvalue, rfl⟩ := exists_values hgroups
      refine ⟨storeColumns xs.ttydevs (valueColumns enabled (fieldSlots upper deref prs) value)
        HV.empty, ?_, fun f => ⟨value f, hvalue f, storeColumns_name _ _ _ value f⟩⟩
      rw [← (Prod.mk.inj hcall).1, Interp.push, Interp.setFields_proclist]

/-- **When an object holds the numbers it was given.**  With every number below
`2 ^ 53`, each enabled numeric field of the object is the member handed over
exactly when the upper half of the slot of an enabled `flags` is zero and an
enabled `priority` fits an `int`. -/
theorem published_numbers_iff {π : Type} (upper : Field → UInt32) (deref : π → Mem) (prs : Procstat π)
    (enabled : Field → Bool) {xs xs' : Interp}
    (hbound : ∀ (f : Field) (n : Int), f.number prs = some n → n.natAbs < 2 ^ 53)
    (hcall : blessIntoProc (formatOf enabled) fieldKeys (blessArgs upper deref prs) xs =
      (xs', none)) :
    ∃ obj, xs'.proclist = xs.proclist ++ [obj] ∧
      ((∀ (f : Field) (n : Int), enabled f = true → f.number prs = some n →
          (obj f.name).bind SV.number = some n) ↔
        (enabled .flags = true → upper .flags = 0) ∧
          (enabled .priority = true →
            -2 ^ 31 ≤ prs.priority.toInt ∧ prs.priority.toInt < 2 ^ 31)) := by
  obtain ⟨obj, hpush, hobj⟩ := blessIntoProc_object hcall
  have hfield : ∀ (f : Field) (n : Int), enabled f = true → f.number prs = some n →
      ((obj f.name).bind SV.number = some n ↔
        (f = .flags → upper .flags = 0) ∧
          (f = .priority → -2 ^ 31 ≤ prs.priority.toInt ∧ prs.priority.toInt < 2 ^ 31)) := by
    intro f n hon hn
    obtain ⟨v, hv, hname⟩ := hobj f
    rw [hon] at hv
    rw [hname, Option.bind_some, ← readsNumber_iff hv]
    exact readsNumber_field upper deref hn (hbound f n hn)
  refine ⟨obj, hpush, ?_⟩
  constructor
  · intro h
    constructor
    · intro hon
      exact ((hfield .flags _ hon rfl).mp (h .flags _ hon rfl)).1 rfl
    · intro hon
      exact ((hfield .priority _ hon rfl).mp (h .priority _ hon rfl)).2 rfl
  · intro h f n hon hn
    apply (hfield f n hon hn).mpr
    constructor
    · rintro rfl
      exact h.1 hon
    · rintro rfl
      exact h.2 hon

/-- Slots with zeros in their upper halves. -/
def noUpper : Field → UInt32 := fun _ => 0

/-- The flags that publish the two fields of another width and mask the rest. -/
def twoNumbers (f : Field) : Bool := decide (f = .flags) || decide (f = .priority)

/-- A record of zeros with this priority. -/
def recordOfPriority (x : Int64) : Procstat Unit := { (Procstat.zero : Procstat Unit) with priority := x }

theorem recordOfPriority_bound {x : Int64} (hx : x.toInt.natAbs < 2 ^ 53) (f : Field) (n : Int)
    (hn : f.number (recordOfPriority x) = some n) : n.natAbs < 2 ^ 53 := by
  have hzero : (0 : Int).natAbs < 2 ^ 53 := by decide
  cases f <;> cases hn <;> first | exact hx | exact hzero

/-- A call that masks every pointer returns. -/
theorem blessIntoProc_twoNumbers (upper : Field → UInt32) (x : Int64) :
    ∃ xs', blessIntoProc (formatOf twoNumbers) fieldKeys
      (blessArgs upper (fun _ => []) (recordOfPriority x)) ⟨none, none, []⟩ = (xs', none) := by
  have hvalues : ∀ f : Field, ∃ v, groupValue (f.char (twoNumbers f))
      (fieldSlots upper (fun _ => []) (recordOfPriority x) f) = .ok v := by
    intro f
    rw [Field.char, Field.spec, defaultFormat_eq]
    cases f <;> exact ⟨_, rfl⟩
  obtain ⟨value, hvalue⟩ := Classical.axiomOfChoice hvalues
  rw [blessArgs_eq, blessIntoProc_fields fun f => takes_fieldSlots upper _ _ f _,
    blessGroups_of_values none hvalue HV.empty]
  exact ⟨_, rfl⟩

/-- A priority of 20, with zeros in the upper halves. -/
theorem published_numbers_iff_twenty :
    ∃ (xs' : Interp) (obj : HV), xs'.proclist = [obj] ∧
      ((∀ (f : Field) (n : Int), twoNumbers f = true → f.number (recordOfPriority 20) = some n →
          (obj f.name).bind SV.number = some n) ↔
        (twoNumbers .flags = true → noUpper .flags = 0) ∧
          (twoNumbers .priority = true →
            -2 ^ 31 ≤ (20 : Int64).toInt ∧ (20 : Int64).toInt < 2 ^ 31)) := by
  obtain ⟨xs', hcall⟩ := blessIntoProc_twoNumbers noUpper 20
  obtain ⟨obj, hobj, hiff⟩ := published_numbers_iff noUpper (fun _ => []) (recordOfPriority 20)
    twoNumbers (recordOfPriority_bound (by decide)) hcall
  exact ⟨xs', obj, hobj, hiff⟩

/-- **A priority that is published as another number**: `2 ^ 31` reads as
`-2 ^ 31`. -/
theorem priority_not_published :
    ∃ (xs' : Interp) (obj : HV), blessIntoProc (formatOf twoNumbers) fieldKeys
        (blessArgs noUpper (fun _ => []) (recordOfPriority (2 ^ 31))) ⟨none, none, []⟩ =
          (xs', none) ∧ xs'.proclist = [obj] ∧ twoNumbers .priority = true ∧
      Field.priority.number (recordOfPriority (2 ^ 31)) = some (2 ^ 31) ∧
      (obj Field.priority.name).bind SV.number = some (-2 ^ 31) := by
  obtain ⟨xs', hcall⟩ := blessIntoProc_twoNumbers noUpper (2 ^ 31)
  obtain ⟨obj, hpush, hobj⟩ := blessIntoProc_object hcall
  obtain ⟨v, hv, hname⟩ := hobj .priority
  have hchar : Field.priority.char (twoNumbers .priority) = 'i' := by
    rw [Field.char, Field.spec, defaultFormat_eq]
    decide
  rw [hchar] at hv
  refine ⟨xs', obj, hcall, hpush, rfl, by decide, ?_⟩
  rw [hname, ← Except.ok.inj hv]
  decide

end Linux
