import ProcProcessTable.BlessIntoProc

/-!
# Masking a field moves no other field

A format masks a field by writing its character in upper case.  The slots of a
masked field stay in the argument list as placeholders, so the masked and the
plain character must take the same slots.  `LaidOut format args` says that the
arguments are those the format calls for; a placeholder under a masked string
or array may be any pointer.
-/

namespace Xs

open CText

/-- The characters whose argument is one integer. -/
def wordChars : List Char := ['I', 'i', 'U', 'u', 'L', 'l', 'P', 'p', 'J', 'j']

/-- The characters that ignore their argument. -/
def maskChars : List Char := ['A', 'S', 'I', 'U', 'L', 'P', 'J']

/-- A text and its length as case `a` takes them: a NUL stands right behind the
last byte counted or is that byte, and the text is no longer than an `int`. -/
def TerminatedArray (m : Mem) (len : Int32) : Prop :=
  ∃ j : Nat, m[j]? = some nul ∧ len.toInt ≤ j + 1 ∧ j < 2 ^ 31

/-- The slots one character calls for. -/
inductive Group : Char → List Slot → Prop
  | word {c : Char} {w : UInt64} (hc : c ∈ wordChars) : Group c [.word w]
  | maskedString (m : Option Mem) : Group 'S' [.ptr m]
  | string {m : Mem} (hm : nul ∈ m) : Group 's' [.ptr (some m)]
  | maskedArray (m : Option Mem) (w : UInt64) : Group 'A' [.ptr m, .word w]
  | array {m : Mem} {w : UInt64} (hm : TerminatedArray m (toInt w)) :
      Group 'a' [.ptr (some m), .word w]
  | scalar (v : SV) : Group 'V' [.sv v]

/-- The arguments a format calls for. -/
inductive LaidOut : List Char → List Slot → Prop
  | nil : LaidOut [] []
  | cons {c : Char} {group args : List Slot} {format : List Char}
      (hgroup : Group c group) (hrest : LaidOut format args) :
      LaidOut (c :: format) (group ++ args)

/-- Two formats that differ only in the case of their characters. -/
def SameUpToCase (format format' : List Char) : Prop :=
  format.map Char.toUpper = format'.map Char.toUpper

instance (format format' : List Char) : Decidable (SameUpToCase format format') :=
  inferInstanceAs (Decidable (_ = _))

/-- The distance to a NUL bounds the string read. -/
theorem strlen_drop_le {m : Mem} {off j : Nat} (hj : m[j]? = some nul) (hoff : off ≤ j) :
    strlen (m.drop off) ≤ j - off := by
  obtain ⟨hlt, hget⟩ := List.getElem?_eq_some_iff.mp hj
  have hsplit : m.drop off = (m.drop off).take (j - off) ++ nul :: m.drop (j + 1) := by
    have hdrop : (m.drop off).drop (j - off) = nul :: m.drop (j + 1) := by
      rw [List.drop_drop, Nat.add_sub_cancel' hoff, List.drop_eq_getElem_cons hlt, hget]
    rw [← hdrop, List.take_append_drop]
  rw [strlen, hsplit, cstr_append_nul]
  refine Nat.le_trans (List.IsPrefix.length_le (List.takeWhile_prefix _)) ?_
  rw [List.length_take]
  exact Nat.min_le_left _ _

/-- The loop of case `a` ends, with fuel for every byte of the text. -/
theorem splitStrings_ok {m : Mem} {j : Nat} {iVal : Int} (hj : m[j]? = some nul)
    (hlen : iVal ≤ j + 1) (hsize : j < 2 ^ 31) :
    ∀ fuel off : Nat, iVal ≤ off + fuel → ∃ elems, splitStrings m iVal fuel off = .ok elems := by
  intro fuel
  induction fuel with
  | zero =>
      intro off hfuel
      have hend : ¬ (off : Int) < iVal := by omega
      exact ⟨[], by simp [splitStrings, hend]⟩
  | succ fuel ih =>
      intro off hfuel
      by_cases hlt : (off : Int) < iVal
      · have hstr := @strlen_drop_le m off j hj (by omega)
        have hint : (Int32.ofNat (strlen (m.drop off))).toInt = strlen (m.drop off) :=
          Int32.toInt_ofNat_of_lt (by omega)
        obtain ⟨rest, hrest⟩ := ih (off + strlen (m.drop off) + 1) (by omega)
        refine ⟨(m.drop off).take (strlen (m.drop off)) :: rest, ?_⟩
        rw [splitStrings, if_pos hlt]
        simp only [hint, Int.toNat_natCast, hrest]
        rw [if_neg (by omega)]
        rfl
      · exact ⟨[], by simp [splitStrings, hlt]⟩

/-- A character takes the slots it calls for, and no other. -/
theorem Group.convert {c : Char} {group : List Slot} (h : Group c group) :
    ∃ v, ∀ args, convert c (group ++ args) = .ok (v, args) := by
  cases h with
  | word hc =>
      simp only [wordChars, List.mem_cons, List.not_mem_nil, or_false] at hc
      rcases hc with rfl | rfl | rfl | rfl | rfl | rfl | rfl | rfl | rfl | rfl <;>
        exact ⟨_, fun _ => rfl⟩
  | maskedString m => exact ⟨_, fun _ => rfl⟩
  | string hm => exact ⟨_, fun _ => rfl⟩
  | maskedArray m w => exact ⟨_, fun _ => rfl⟩
  | @array m w hm =>
      obtain ⟨j, hj, hlen, hsize⟩ := hm
      obtain ⟨elems, helems⟩ := splitStrings_ok hj hlen hsize (toInt w).toInt.toNat 0 (by omega)
      have harray : newArray (some m) (toInt w) = .ok (.av elems) := by
        rw [newArray, helems]
        rfl
      refine ⟨(.av elems, none), fun args => ?_⟩
      show (do let av ← newArray (some m) (toInt w); Except.ok ((av, none), args)) = _
      rw [harray]
      rfl
  | scalar v => exact ⟨_, fun _ => rfl⟩

/-- A masked character stores undef and looks no terminal up. -/
theorem Group.convert_masked {c : Char} {group : List Slot} (h : Group c group)
    (hc : c ∈ maskChars) (args : List Slot) :
    Xs.convert c (group ++ args) = .ok ((.undef, none), args) := by
  simp only [maskChars, List.mem_cons, List.not_mem_nil, or_false] at hc
  rcases hc with rfl | rfl | rfl | rfl | rfl | rfl | rfl <;> cases h <;> first | rfl | contradiction

/-- The number of slots depends on the character up to case. -/
theorem Group.length_eq {c : Char} {group : List Slot} (h : Group c group) :
    group.length = if c.toUpper = 'A' then 2 else 1 := by
  cases h with
  | word hc =>
      simp only [wordChars, List.mem_cons, List.not_mem_nil, or_false] at hc
      rcases hc with rfl | rfl | rfl | rfl | rfl | rfl | rfl | rfl | rfl | rfl <;> rfl
  | maskedString m => rfl
  | string hm => rfl
  | maskedArray m w => rfl
  | array hm => rfl
  | scalar v => rfl

/-- A laid-out call is a row of fitting columns. -/
theorem LaidOut.columns {format : List Char} {args : List Slot} (h : LaidOut format args)
    {fields : List String} (hlen : fields.length = format.length) :
    ∃ cols : List Column, cols.map Column.char = format ∧ cols.map Column.key = fields ∧
      cols.flatMap Column.group = args ∧ ∀ col ∈ cols, Group col.char col.group ∧ col.Fits := by
  induction h generalizing fields with
  | nil =>
      have hnil : fields = [] := List.length_eq_zero_iff.mp hlen
      exact ⟨[], rfl, hnil.symm, rfl, by simp⟩
  | @cons c group args format hgroup hrest ih =>
      cases fields with
      | nil => simp at hlen
      | cons key fields =>
          obtain ⟨cols, hchar, hkey, hargs, hcols⟩ := @ih fields (by simpa using hlen)
          obtain ⟨v, hv⟩ := hgroup.convert
          refine ⟨⟨c, key, group, v⟩ :: cols, by simp [hchar], by simp [hkey], by simp [hargs], ?_⟩
          intro col hcol
          rcases List.mem_cons.mp hcol with rfl | htail
          · exact ⟨hgroup, hv⟩
          · exact hcols col htail

/-- Two fitting rows over the same slots, whose characters agree up to case,
cut the slots into the same groups. -/
theorem columns_group_eq {cols cols' : List Column}
    (hcase : SameUpToCase (cols.map Column.char) (cols'.map Column.char))
    (hargs : cols.flatMap Column.group = cols'.flatMap Column.group)
    (hgroup : ∀ col ∈ cols, Group col.char col.group)
    (hgroup' : ∀ col ∈ cols', Group col.char col.group) :
    cols.map Column.group = cols'.map Column.group := by
  have hwidth : ∀ cs : List Column, (∀ col ∈ cs, Group col.char col.group) →
      (cs.map Column.group).map List.length =
        ((cs.map Column.char).map Char.toUpper).map fun c => if c = 'A' then 2 else 1 := by
    intro cs hcs
    simp only [List.map_map]
    exact List.map_congr_left fun col hcol => (hcs col hcol).length_eq
  rw [List.eq_iff_flatten_eq]
  refine ⟨by simpa [List.flatMap] using hargs, ?_⟩
  rw [hwidth cols hgroup, hwidth cols' hgroup', hcase]

/-- A character that calls for slots does not end a format. -/
theorem Group.ne_nul {c : Char} {group : List Slot} (h : Group c group) : c ≠ nul := by
  intro hnul
  cases h with
  | word hc =>
      rw [hnul] at hc
      revert hc
      decide
  | maskedString m => exact absurd hnul (by decide)
  | string hm => exact absurd hnul (by decide)
  | maskedArray m w => exact absurd hnul (by decide)
  | array hm => exact absurd hnul (by decide)
  | scalar v => exact absurd hnul (by decide)

theorem LaidOut.nul_not_mem {format : List Char} {args : List Slot} (h : LaidOut format args) :
    nul ∉ format := by
  induction h with
  | nil => exact List.not_mem_nil
  | cons hgroup hrest ih =>
      rw [List.mem_cons, not_or]
      exact ⟨fun hc => hgroup.ne_nul hc.symm, ih⟩

/-- A call whose loop takes its arguments pushes the hash that was filled. -/
theorem blessIntoProc_of_loop {format : List Char} {args rest : List Slot} (hnul : nul ∉ format)
    {fields : List String} {xs : Interp} {h : HV}
    (hloop : blessLoop xs.ttydevs format fields args HV.empty = .ok (h, rest)) :
    blessIntoProc (format ++ [nul]) fields args xs =
      ((xs.setFields fields format.length).push h, none) := by
  rw [blessIntoProc, strlen, cstr_terminated hnul, Interp.setFields_ttydevs, hloop]

/-- A format that masks more calls for no more: what is laid out for a format
is laid out for every format that is masked further. -/
theorem LaidOut.mask {format format' : List Char} {args : List Slot} (h : LaidOut format args)
    (hmask : List.Forall₂ (fun c c' => c' = c ∨ c' = c.toUpper) format format') :
    LaidOut format' args := by
  induction h generalizing format' with
  | nil =>
      cases hmask
      exact .nil
  | @cons c group args format hgroup hrest ih =>
      cases hmask with
      | @cons _ c' _ format' hc hformat =>
          refine .cons ?_ (ih hformat)
          rcases hc with rfl | rfl
          · exact hgroup
          · cases hgroup with
            | word hw =>
                refine .word ?_
                simp only [wordChars, List.mem_cons, List.not_mem_nil, or_false] at hw
                rcases hw with rfl | rfl | rfl | rfl | rfl | rfl | rfl | rfl | rfl | rfl <;> decide
            | maskedString m => exact .maskedString m
            | string hm => exact .maskedString _
            | maskedArray m w => exact .maskedArray m w
            | array hm => exact .maskedArray _ _
            | scalar v => exact .scalar v

/-- A masked column that fits has no value. -/
theorem Column.value_masked {col : Column} (hgroup : Group col.char col.group) (hfits : col.Fits)
    (hmask : col.char ∈ maskChars) : col.value.1 = .undef := by
  have heq := (hfits []).symm.trans (hgroup.convert_masked hmask [])
  simp only [Except.ok.injEq, Prod.mk.injEq, and_true] at heq
  rw [heq]

/-- A column that fits takes its value from its character and its slots. -/
theorem Column.value_congr {col col' : Column} (hfits : col.Fits) (hfits' : col'.Fits)
    (hchar : col.char = col'.char) (hgroup : col.group = col'.group) : col.value = col'.value := by
  have hvalue := hfits []
  rw [hchar, hgroup, hfits' []] at hvalue
  simp only [Except.ok.injEq, Prod.mk.injEq, and_true] at hvalue
  exact hvalue.symm

/-- The column behind a name and a character, and what is stored for it. -/
theorem column_at (ttydevs : Option HV) {cols : List Column} (hnames : (cols.map Column.key).Nodup)
    {i : Nat} {name : String} {c : Char} (hname : (cols.map Column.key)[i]? = some name)
    (htty : name ≠ "ttydev") (hc : (cols.map Column.char)[i]? = some c) :
    ∃ col, cols[i]? = some col ∧ col ∈ cols ∧ col.char = c ∧
      storeColumns ttydevs cols HV.empty name = some col.value.1 := by
  obtain ⟨col, hcol, rfl⟩ : ∃ col, cols[i]? = some col ∧ col.char = c := by
    simpa [List.getElem?_map] using hc
  have hkey : col.key = name := by
    rw [List.getElem?_map, hcol] at hname
    exact Option.some.inj hname
  subst hkey
  have hmem := List.mem_of_getElem? hcol
  exact ⟨col, hcol, hmem, rfl, storeColumns_of_mem ttydevs HV.empty hnames hmem htty⟩

/-- **Masking never shifts other fields.**  Two calls with the same names and
arguments, whose formats differ only in case, both take the argument list whole
and push an object; a field whose character is the same in both has the same
value in both objects, and a masked field is undef.  The arguments are laid out
for both formats: what the second one unmasks must be there. -/
theorem blessIntoProc_sameUpToCase (xs : Interp) {fields : List String}
    {format format' : List Char} {args : List Slot} (hnames : fields.Nodup)
    (hlen : fields.length = format.length) (hcase : SameUpToCase format format')
    (hargs : LaidOut format args) (hargs' : LaidOut format' args) :
    ∃ h h' : HV,
      blessIntoProc (format ++ [nul]) fields args xs =
          ((xs.setFields fields format.length).push h, none) ∧
      blessIntoProc (format' ++ [nul]) fields args xs =
          ((xs.setFields fields format'.length).push h', none) ∧
      blessLoop xs.ttydevs format fields args HV.empty = .ok (h, []) ∧
      blessLoop xs.ttydevs format' fields args HV.empty = .ok (h', []) ∧
      ∀ (i : Nat) (name : String) (c c' : Char), fields[i]? = some name → name ≠ "ttydev" →
        format[i]? = some c → format'[i]? = some c' →
          (c = c' → h name = h' name) ∧
          (c ∈ maskChars → h name = some .undef) ∧
          (c' ∈ maskChars → h' name = some .undef) := by
  have hnul := hargs.nul_not_mem
  have hnul' := hargs'.nul_not_mem
  have hlen' : fields.length = format'.length := by
    have hl := congrArg List.length hcase
    simp only [List.length_map] at hl
    omega
  obtain ⟨cols, rfl, hkeys, rfl, hcols⟩ := hargs.columns hlen
  obtain ⟨cols', rfl, hkeys', hsame, hcols'⟩ := hargs'.columns hlen'
  have hgroups : cols.map Column.group = cols'.map Column.group :=
    columns_group_eq hcase hsame.symm (fun col hc => (hcols col hc).1)
      (fun col hc => (hcols' col hc).1)
  have hrun := blessLoop_columns xs.ttydevs (fun col hc => (hcols col hc).2) [] HV.empty
  have hrun' := blessLoop_columns xs.ttydevs (fun col hc => (hcols' col hc).2) [] HV.empty
  rw [List.append_nil, hkeys] at hrun
  rw [List.append_nil, hkeys', hsame] at hrun'
  refine ⟨_, _, blessIntoProc_of_loop hnul hrun, blessIntoProc_of_loop hnul' hrun', hrun, hrun', ?_⟩
  intro i name c c' hname htty hc hc'
  obtain ⟨col, hcol, hmem, rfl, hread⟩ := column_at xs.ttydevs (by rw [hkeys]; exact hnames)
    (by rw [hkeys]; exact hname) htty hc
  obtain ⟨col', hcol', hmem', rfl, hread'⟩ := column_at xs.ttydevs (by rw [hkeys']; exact hnames)
    (by rw [hkeys']; exact hname) htty hc'
  have hgroup : col.group = col'.group := by
    have hi := congrArg (fun gs : List (List Slot) => gs[i]?) hgroups
    simpa [List.getElem?_map, hcol, hcol'] using hi
  obtain ⟨hlaid, hfits⟩ := hcols col hmem
  obtain ⟨hlaid', hfits'⟩ := hcols' col' hmem'
  refine ⟨?_, ?_, ?_⟩
  · intro hchar
    rw [hread, hread', Column.value_congr hfits hfits' hchar hgroup]
  · intro hm
    rw [hread, Column.value_masked hlaid hfits hm]
  · intro hm
    rw [hread', Column.value_masked hlaid' hfits' hm]

/-- The two formats of a call with an `int`, a masked NULL and a string. -/
theorem blessIntoProc_sameUpToCase_instance :
    ∃ h h' : HV,
      blessIntoProc (['i', 'S', 's'] ++ [nul]) ["ttynum", "cwd", "fname"]
          [.word 7, .ptr none, .ptr (some ['x', nul])] ⟨none, none, []⟩ =
        ((Interp.setFields ⟨none, none, []⟩ ["ttynum", "cwd", "fname"] 3).push h, none) ∧
      blessIntoProc (['I', 'S', 's'] ++ [nul]) ["ttynum", "cwd", "fname"]
          [.word 7, .ptr none, .ptr (some ['x', nul])] ⟨none, none, []⟩ =
        ((Interp.setFields ⟨none, none, []⟩ ["ttynum", "cwd", "fname"] 3).push h', none) ∧
      h "fname" = h' "fname" ∧ h' "ttynum" = some .undef := by
  have hargs : LaidOut ['i', 'S', 's'] ([.word 7] ++ ([.ptr none] ++ ([.ptr (some ['x', nul])] ++ []))) :=
    .cons (.word (by decide)) (.cons (.maskedString none) (.cons (.string (by decide)) .nil))
  have hargs' := hargs.mask (.cons (Or.inr rfl) (.cons (Or.inl rfl) (.cons (Or.inl rfl) .nil)))
  obtain ⟨h, h', hrun, hrun', _, _, hvalue⟩ :=
    blessIntoProc_sameUpToCase ⟨none, none, []⟩
      (show ["ttynum", "cwd", "fname"].Nodup by decide) rfl (by decide +kernel) hargs hargs'
  refine ⟨h, h', hrun, hrun', ?_, ?_⟩
  · exact (hvalue 2 "fname" 's' 's' rfl (by decide) rfl rfl).1 rfl
  · exact (hvalue 0 "ttynum" 'i' 'I' rfl (by decide) rfl rfl).2.2 (by decide)

end Xs
