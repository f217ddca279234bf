import ProcProcessTable.ObjectCalls

/-!
# Calls of bless_into_proc with one slot a field

Most ports never pass an array, so each format character takes one slot.
Format, names and arguments of such a call stand side by side (`BlessCall.Rows`),
and the object is read off row by row: `object_row` and `object_at` for the value under a name,
`object_ttydev` for the terminal that is looked up behind `ttynum`, and
`object_congr` for two calls that show the same.
-/

namespace ProcessTable

open CText Xs

/-- A 4-byte argument.  Nothing is said about the upper half of its slot. -/
def half (upper low : UInt32) : Slot := .word (UInt64.ofNat (upper.toNat * 2 ^ 32 + low.toNat))

/-- The string at an index of a table of strings, when the index is inside. -/
def wordAt (words : List String) (i : Int) : Option String :=
  if 0 ≤ i then words[i.toNat]? else none

theorem wordAt_none_iff (words : List String) (i : Int) :
    wordAt words i = none ↔ ¬ (0 ≤ i ∧ i < words.length) := by
  unfold wordAt
  split
  · rw [List.getElem?_eq_none_iff]
    omega
  · refine iff_of_true rfl ?_
    omega

/-- A field of a call: its format character, its name and its argument. -/
structure CallRow where
  char : Char
  key : String
  slot : Slot

/-- The character takes the slot, and makes something of it. -/
def reads (c : Char) : Slot → Bool
  | .word _ => decide (c ∈ ['I', 'i', 'U', 'u', 'L', 'l', 'P', 'p', 'J', 'j'])
  | .ptr (some _) => c = 's' || c = 'S'
  | .ptr none => c = 'S'
  | .sv _ => c = 'V'

/-- What it makes of the slot. -/
def shown (c : Char) (slot : Slot) : SV × Option UInt64 :=
  match groupValue c [slot] with
  | .ok v => v
  | .error _ => (.undef, none)

/-- An `int` is read back from the lower half of its slot. -/
theorem shown_half (upper : UInt32) (x : Int32) :
    (shown 'i' (half upper x.toUInt32)).1 = .iv x.toInt := by
  show SV.iv (UInt64.ofNat (upper.toNat * 2 ^ 32 + x.toUInt32.toNat)).toUInt32.toInt32.toInt = _
  rw [toUInt32_slot]
  rfl

/-- A row as a column of the call. -/
def CallRow.column (row : CallRow) : Column :=
  ⟨row.char, row.key, [row.slot], shown row.char row.slot⟩

theorem CallRow.fits {row : CallRow} (h : reads row.char row.slot = true) : row.column.Fits := by
  obtain ⟨c, key, slot⟩ := row
  dsimp only at h
  cases slot with
  | word w =>
      have hc : c ∈ ['I', 'i', 'U', 'u', 'L', 'l', 'P', 'p', 'J', 'j'] := of_decide_eq_true h
      simp only [List.mem_cons, List.not_mem_nil, or_false] at hc
      rcases hc with rfl | rfl | rfl | rfl | rfl | rfl | rfl | rfl | rfl | rfl <;> exact fun _ => rfl
  | ptr m =>
      cases m with
      | none =>
          obtain rfl : c = 'S' := of_decide_eq_true h
          exact fun _ => rfl
      | some m =>
          have hc : c = 's' ∨ c = 'S' := by simpa [reads] using h
          rcases hc with rfl | rfl
          · exact fun _ => rfl
          · exact fun _ => rfl
  | sv v =>
      obtain rfl : c = 'V' := of_decide_eq_true h
      exact fun _ => rfl

/-- The rows of a call. -/
structure BlessCall.Rows (call : BlessCall) (rows : List CallRow) : Prop where
  format : cstr call.format = rows.map CallRow.char
  fields : call.fields = rows.map CallRow.key
  args : call.args = rows.map CallRow.slot
  reads : ∀ row ∈ rows, reads row.char row.slot = true

/-- Format, names and arguments side by side. -/
def callRows (format : List Char) (fields : List String) (args : List Slot) : List CallRow :=
  List.zipWith (fun c field => CallRow.mk c field.1 field.2) format (fields.zip args)

theorem callRows_columns {format : List Char} {fields : List String} {args : List Slot}
    (hfields : fields.length = format.length) (hargs : args.length = format.length) :
    (callRows format fields args).map CallRow.char = format ∧
      (callRows format fields args).map CallRow.key = fields ∧
      (callRows format fields args).map CallRow.slot = args := by
  induction format generalizing fields args with
  | nil =>
      obtain rfl := List.eq_nil_of_length_eq_zero hfields
      obtain rfl := List.eq_nil_of_length_eq_zero hargs
      exact ⟨rfl, rfl, rfl⟩
  | cons c format ih =>
      cases fields with
      | nil => cases hfields
      | cons field fields =>
          cases args with
          | nil => cases hargs
          | cons arg args =>
              obtain ⟨hc, hf, ha⟩ := ih (Nat.succ.inj hfields) (Nat.succ.inj hargs)
              exact ⟨congrArg (List.cons c) hc, congrArg (List.cons field) hf,
                congrArg (List.cons arg) ha⟩

/-- The rows of a call whose three parts are of one length. -/
theorem BlessCall.rows_of {call : BlessCall} {format : List Char}
    (hformat : cstr call.format = format) (hfields : call.fields.length = format.length)
    (hargs : call.args.length = format.length)
    (hreads : (callRows format call.fields call.args).all
      (fun row => ProcessTable.reads row.char row.slot) = true) :
    call.Rows (callRows format call.fields call.args) := by
  obtain ⟨hchars, hkeys, hslots⟩ := callRows_columns hfields hargs
  exact ⟨hformat.trans hchars.symm, hkeys.symm, hslots.symm, List.all_eq_true.mp hreads⟩

/-- The stores of a row of rows, in order. -/
def storeRows (ttydevs : Option HV) (rows : List CallRow) (myhash : HV) : HV :=
  storeColumns ttydevs (rows.map CallRow.column) myhash

section

variable {call call' : BlessCall} {rows rows' : List CallRow} (ttydevs : Option HV)

/-- **A call makes one object**, row by row. -/
theorem BlessCall.Rows.made (h : call.Rows rows) :
    call.made ttydevs = ([storeRows ttydevs rows HV.empty], none) := by
  apply BlessCall.made_columns
  · intro col hcol
    obtain ⟨row, hrow, rfl⟩ := List.mem_map.mp hcol
    exact CallRow.fits (h.reads row hrow)
  · rw [List.map_map]
    exact h.format
  · rw [List.map_map]
    exact h.fields
  · rw [List.flatMap_map, h.args]
    exact List.map_eq_flatMap

theorem BlessCall.Rows.object (h : call.Rows rows) :
    call.object ttydevs = storeRows ttydevs rows HV.empty := by
  unfold BlessCall.object
  rw [h.made]
  rfl

theorem BlessCall.Rows.made_object (h : call.Rows rows) :
    call.made ttydevs = ([call.object ttydevs], none) := by
  rw [h.made, h.object]

theorem keys_column (rows : List CallRow) :
    (rows.map CallRow.column).map Column.key = rows.map CallRow.key := by
  rw [List.map_map]
  rfl

/-- **A row is read back under its name**, when names are distinct. -/
theorem BlessCall.Rows.object_row (h : call.Rows rows) (hnodup : (rows.map CallRow.key).Nodup)
    {row : CallRow} (hrow : row ∈ rows) (htty : row.key ≠ "ttydev") :
    call.object ttydevs row.key = some (shown row.char row.slot).1 := by
  rw [h.object]
  have hcolumns : ((rows.map CallRow.column).map Column.key).Nodup := by
    rw [keys_column]
    exact hnodup
  have hcol : row.column ∈ rows.map CallRow.column := List.mem_map_of_mem hrow
  exact storeColumns_of_mem ttydevs HV.empty hcolumns hcol htty

/-- The same for a row at its place. -/
theorem BlessCall.Rows.object_at (h : call.Rows rows) (hnodup : call.fields.Nodup) {i : Nat}
    {row : CallRow} (hrow : rows[i]? = some row) (htty : row.key ≠ "ttydev") :
    call.object ttydevs row.key = some (shown row.char row.slot).1 := by
  rw [h.fields] at hnodup
  exact h.object_row ttydevs hnodup (List.mem_of_getElem? hrow) htty

/-- Rows behind the terminal number that name neither it nor the terminal keep
what was looked up. -/
theorem storeRows_ttydev {rows : List CallRow} (myhash : HV)
    (hdev : "ttydev" ∉ rows.map CallRow.key) (hnum : "ttynum" ∉ rows.map CallRow.key) :
    storeRows ttydevs rows myhash "ttydev" = myhash "ttydev" := by
  induction rows generalizing myhash with
  | nil => rfl
  | cons row rows ih =>
      rw [List.map_cons, List.mem_cons, not_or] at hdev hnum
      have hstep : storeField ttydevs row.key (shown row.char row.slot) myhash "ttydev" =
          myhash "ttydev" := by
        unfold storeField
        cases (shown row.char row.slot).2 with
        | none => exact HV.store_of_ne hdev.1 _ _
        | some ttynum =>
            dsimp only
            rw [if_neg (Ne.symm hnum.1)]
            exact HV.store_of_ne hdev.1 _ _
      exact (ih _ hdev.2 hnum.2).trans hstep

/-- **The terminal of an object** is what was looked up behind the terminal
number, when the rows behind it name neither. -/
theorem BlessCall.Rows.object_ttydev {before after : List CallRow} {row : CallRow}
    (h : call.Rows (before ++ row :: after)) (hkey : row.key = "ttynum") {ttynum : UInt64}
    (hnumber : (shown row.char row.slot).2 = some ttynum)
    (hdev : "ttydev" ∉ after.map CallRow.key) (hnum : "ttynum" ∉ after.map CallRow.key) :
    call.object ttydevs "ttydev" =
      some ((ttydevs.bind fun devs => devs (toString ttynum.toNat)).getD (.pv [])) := by
  rw [h.object]
  unfold storeRows storeColumns
  rw [List.map_append, List.foldl_append, List.map_cons, List.foldl_cons]
  refine (storeRows_ttydev ttydevs _ hdev hnum).trans ?_
  unfold storeField
  rw [CallRow.column, hnumber]
  dsimp only
  rw [if_pos hkey]
  unfold storeTtydev
  cases ttydevs.bind fun devs => devs (toString ttynum.toNat) with
  | none => exact HV.store_self _ _ _
  | some dev => exact HV.store_self _ _ _

/-- **Calls that show the same make the same object.** -/
theorem BlessCall.Rows.object_congr (h : call.Rows rows) (h' : call'.Rows rows')
    (hsame : rows.map (fun row => (row.key, shown row.char row.slot)) =
      rows'.map fun row => (row.key, shown row.char row.slot)) :
    call.object ttydevs = call'.object ttydevs := by
  have hfold : ∀ rows : List CallRow, storeRows ttydevs rows HV.empty =
      (rows.map fun row => (row.key, shown row.char row.slot)).foldl
        (fun myhash pair => storeField ttydevs pair.1 pair.2 myhash) HV.empty := by
    intro rows
    unfold storeRows storeColumns
    rw [List.foldl_map, List.foldl_map]
    rfl
  rw [h.object, h'.object, hfold, hfold, hsame]

/-- Of a text only its string. -/
def stringSlot : Slot → Slot
  | .ptr (some m) => .ptr (some (cstr m))
  | slot => slot

theorem shown_string {c : Char} {slot : Slot} (h : reads c slot = true) :
    shown c (stringSlot slot) = shown c slot ∧ reads c (stringSlot slot) = true := by
  cases slot with
  | word w => exact ⟨rfl, h⟩
  | sv v => exact ⟨rfl, h⟩
  | ptr m =>
      cases m with
      | none => exact ⟨rfl, h⟩
      | some m =>
          have hc : c ∈ ['S', 's'] := by simpa [reads, or_comm] using h
          have hsame : groupValue c [.ptr (some (cstr m))] = groupValue c [.ptr (some m)] :=
            groupValue_string hc (congrArg some (cstr_cstr m))
          refine ⟨?_, h⟩
          unfold shown stringSlot
          dsimp only
          rw [hsame]

/-- **Of its texts a call publishes the strings.** -/
theorem BlessCall.Rows.object_strings (h : call.Rows rows) :
    call.object ttydevs =
      BlessCall.object ⟨call.format, call.fields, call.args.map stringSlot⟩ ttydevs := by
  have h' : BlessCall.Rows ⟨call.format, call.fields, call.args.map stringSlot⟩
      (rows.map fun row => { row with slot := stringSlot row.slot }) := by
    refine ⟨?_, ?_, ?_, ?_⟩
    · rw [List.map_map]
      exact h.format
    · rw [List.map_map]
      exact h.fields
    · rw [List.map_map, h.args, List.map_map]
      rfl
    · intro row hrow
      obtain ⟨row, hmem, rfl⟩ := List.mem_map.mp hrow
      exact (shown_string (h.reads row hmem)).2
  apply h.object_congr ttydevs h'
  rw [List.map_map]
  apply List.map_congr_left
  intro row hrow
  exact congrArg (Prod.mk row.key) (shown_string (h.reads row hrow)).1.symm

end

end ProcessTable
