import ProcProcessTable.LinuxHeader

/-!
# Enabling fields

A field is published once its character in `format_str` has been lowered.  In
every format string the port works on, a character is the field's own specifier
in one case or the other, so the string is `formatOf enabled` for a set of
enabled fields, and the two functions that lower characters grow that set.
-/

namespace Linux

open CText

/-- `field_enable`. -/
def fieldEnable (formatStr : Mem) (field : Field) : Mem :=
  formatStr.modify field.idx Char.toLower

/-- `field_enable_range`. -/
def fieldEnableRange (formatStr : Mem) (field1 field2 : Field) : Mem :=
  (List.range' field1.idx (field2.idx + 1 - field1.idx)).foldl
    (fun s i => s.modify i Char.toLower) formatStr

/-- `islower(format_str[field])`. -/
def isEnabled (formatStr : Mem) (field : Field) : Bool :=
  (formatStr[field.idx]?).any Char.isLower

/-- The format string in which exactly the fields of `enabled` are lowered. -/
def formatOf (enabled : Field → Bool) : Mem :=
  Field.all.map (fun f => if enabled f then f.spec.toLower else f.spec) ++ [nul]

/-- The characters of the default format. -/
theorem spec_mem (f : Field) :
    f.spec = 'I' ∨ f.spec = 'S' ∨ f.spec = 'L' ∨ f.spec = 'J' ∨ f.spec = 'P' ∨ f.spec = 'A' := by
  rw [Field.spec, defaultFormat_eq]
  cases f <;> decide

theorem spec_cases (f : Field) :
    f.spec.isLower = false ∧ f.spec.toLower.isLower = true ∧
      f.spec.toLower.toLower = f.spec.toLower ∧ f.spec ≠ nul ∧ f.spec.toLower ≠ nul := by
  rcases spec_mem f with h | h | h | h | h | h <;> rw [h] <;> decide

theorem formatOf_getElem? (enabled : Field → Bool) (f : Field) :
    (formatOf enabled)[f.idx]? = some (if enabled f then f.spec.toLower else f.spec) := by
  have hlt : f.idx < (Field.all.map fun f => if enabled f then f.spec.toLower else f.spec).length := by
    simpa using f.idx_lt
  rw [formatOf, List.getElem?_append_left hlt, List.getElem?_map, f.all_getElem?]
  rfl

/-- The flag of a field is read back from the string. -/
@[simp] theorem isEnabled_formatOf (enabled : Field → Bool) (f : Field) :
    isEnabled (formatOf enabled) f = enabled f := by
  obtain ⟨hspec, hlow, _, _, _⟩ := spec_cases f
  rw [isEnabled, formatOf_getElem?]
  cases enabled f <;> simp [hspec, hlow]

/-- The string every entry starts with. -/
theorem defaultFormat_append_nul : defaultFormat ++ [nul] = formatOf fun _ => false := by
  rw [defaultFormat_eq_map]
  rfl

theorem cstr_formatOf (enabled : Field → Bool) :
    cstr (formatOf enabled) =
      Field.all.map fun f => if enabled f then f.spec.toLower else f.spec := by
  refine cstr_terminated ?_ []
  intro h
  obtain ⟨f, _, hf⟩ := List.mem_map.mp h
  obtain ⟨_, _, _, hupper, hlower⟩ := spec_cases f
  cases he : enabled f with
  | true => exact hlower (by simpa [he] using hf)
  | false => exact hupper (by simpa [he] using hf)

/-- Lowering one character enables its field. -/
theorem modify_formatOf (enabled : Field → Bool) (f : Field) :
    (formatOf enabled).modify f.idx Char.toLower = formatOf fun g => enabled g || decide (g = f) := by
  apply List.ext_getElem?
  intro i
  rw [List.getElem?_modify]
  by_cases hi : i < Field.all.length
  · obtain ⟨g, rfl⟩ := Field.exists_idx hi
    rw [formatOf_getElem?, formatOf_getElem?]
    obtain ⟨_, _, hidem, _, _⟩ := spec_cases g
    by_cases hfg : f.idx = g.idx
    · have hgf : g = f := Field.idx_injective hfg.symm
      subst hgf
      cases enabled g <;> simp [hidem]
    · have hgf : g ≠ f := fun h => hfg (by rw [h])
      cases enabled g <;> simp [hfg, hgf]
  · have hne : f.idx ≠ i := by
      have := f.idx_lt
      omega
    have htail : ∀ e : Field → Bool, (formatOf e)[i]? = [nul][i - Field.all.length]? := by
      intro e
      rw [formatOf, List.getElem?_append_right (by simpa using Nat.le_of_not_lt hi)]
      simp
    rw [htail, htail]
    simp [hne]

theorem fieldEnable_formatOf (enabled : Field → Bool) (f : Field) :
    fieldEnable (formatOf enabled) f = formatOf fun g => enabled g || decide (g = f) :=
  modify_formatOf enabled f

/-- Lowering a row of characters enables the fields whose numbers lie in it. -/
theorem foldl_modify_formatOf (enabled : Field → Bool) (first : Nat) :
    ∀ n, first + n ≤ Field.all.length →
      (List.range' first n).foldl (fun s i => s.modify i Char.toLower) (formatOf enabled) =
        formatOf fun g => enabled g || decide (first ≤ g.idx ∧ g.idx < first + n) := by
  intro n
  induction n with
  | zero =>
      intro _
      refine congrArg formatOf (funext fun g => ?_)
      have hnot : ¬ (first ≤ g.idx ∧ g.idx < first + 0) := by omega
      rw [decide_eq_false hnot, Bool.or_false]
  | succ n ih =>
      intro hn
      obtain ⟨f, hf⟩ := @Field.exists_idx (first + n) (by omega)
      rw [List.range'_1_concat, List.foldl_append, ih (by omega)]
      simp only [List.foldl_cons, List.foldl_nil]
      rw [← hf, modify_formatOf]
      refine congrArg formatOf (funext fun g => ?_)
      have hiff : g = f ↔ g.idx = first + n :=
        ⟨fun h => by rw [h, hf], fun h => Field.idx_injective (h.trans hf.symm)⟩
      rw [Bool.or_assoc]
      refine congrArg (enabled g || ·) ?_
      rw [← Bool.decide_or]
      refine decide_eq_decide.mpr ?_
      rw [hiff]
      omega

/-- `field_enable_range` enables the fields from the first to the last. -/
theorem fieldEnableRange_formatOf (enabled : Field → Bool) {f1 f2 : Field} (h : f1.idx ≤ f2.idx) :
    fieldEnableRange (formatOf enabled) f1 f2 =
      formatOf fun g => enabled g || decide (f1.idx ≤ g.idx ∧ g.idx ≤ f2.idx) := by
  have hlt := f2.idx_lt
  rw [fieldEnableRange, foldl_modify_formatOf enabled f1.idx _ (by omega)]
  refine congrArg formatOf (funext fun g => ?_)
  refine congrArg (enabled g || ·) (decide_eq_decide.mpr ?_)
  omega

end Linux
