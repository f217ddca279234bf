import ProcProcessTable.CText
import Mathlib.Data.Nat.Log

/-!
# ProcessTable.xs: bless_into_proc

A port hands one process over as a format string and a variable argument
list.  The list is positional and untyped: each argument is a slot, and each
format character takes as many slots as it thinks its field has.  `convert` is
the `switch` of the source, one branch a character; `blessLoop` walks format,
names and slots together and fills the hash.

`blessLoop_columns` says what a whole call leaves in the hash when every
character finds the slots it expects, and the lemmas behind it read single keys
of that hash.
-/

namespace Xs

open CText

/-- Why a call has no result. -/
inductive Fault
  /-- it does not return -/
  | hang
  /-- it raises a Perl exception -/
  | croak (message : String)
  /-- it reads through NULL -/
  | nullDeref
  /-- it writes or reads outside an array -/
  | overflow
  /-- it reads an argument the caller did not pass -/
  | badArgument
  deriving DecidableEq, Repr

/-- A store that falls outside its array. -/
def inBounds {α : Type} : Option α → Except Fault α
  | some a => .ok a
  | none => .error .overflow

/-- Where two steps have a result, each of them has. -/
theorem bind_eq_ok {α β : Type} {x : Except Fault α} {f : α → Except Fault β} {b : β}
    (h : x >>= f = .ok b) : ∃ a, x = .ok a ∧ f a = .ok b := by
  cases x with
  | error fault => cases h
  | ok a => exact ⟨a, rfl, h⟩

theorem inBounds_eq_ok {α : Type} {x : Option α} {a : α} (h : inBounds x = .ok a) : x = some a := by
  cases x with
  | none => cases h
  | some b => exact congrArg some (Except.ok.inj h)

/-- A Perl scalar. -/
inductive SV
  | undef
  | iv (n : Int)
  | uv (n : Nat)
  /-- a floating-point number with an integral value -/
  | nv (x : Int)
  | pv (s : List Char)
  /-- a reference to an array of strings -/
  | av (elems : List (List Char))
  /-- any other scalar, made by the port itself -/
  | other (n : Nat)
  deriving DecidableEq, Repr

/-- A Perl hash. -/
abbrev HV := String → Option SV

/-- `newHV`. -/
def HV.empty : HV := fun _ => none

/-- `hv_store`. -/
def HV.store (h : HV) (key : String) (v : SV) : HV :=
  fun k => if k = key then some v else h k

@[simp] theorem HV.store_self (h : HV) (key : String) (v : SV) : h.store key v key = some v := by
  simp [HV.store]

theorem HV.store_of_ne {k key : String} (hne : k ≠ key) (h : HV) (v : SV) :
    h.store key v k = h k := by
  simp [HV.store, hne]

/-- A natural number rounded to 53 significant bits, ties to even. -/
def roundDouble (n : Nat) : Nat :=
  let e := Nat.log2 n - 52
  let q := n / 2 ^ e
  let r := n % 2 ^ e
  (if 2 ^ (e - 1) < r ∨ (2 ^ (e - 1) = r ∧ q % 2 = 1) then q + 1 else q) * 2 ^ e

/-- `newSVnv` of an integer: the conversion to `double`. -/
def newSVnv (x : Int) : SV :=
  .nv (if x < 0 then -(roundDouble x.natAbs : Int) else roundDouble x.natAbs)

/-- One 8-byte slot of a variable argument list: an integer (an argument of 4
bytes fills the lower half), a pointer, or a Perl scalar. -/
inductive Slot
  | word (w : UInt64)
  | ptr (m : Option Mem)
  | sv (v : SV)

/-- `va_arg` of an 8-byte integer type. -/
def vaWord : List Slot → Except Fault (UInt64 × List Slot)
  | .word w :: args => .ok (w, args)
  | _ => .error .badArgument

/-- `va_arg(args, char *)`. -/
def vaPtr : List Slot → Except Fault (Option Mem × List Slot)
  | .ptr m :: args => .ok (m, args)
  | _ => .error .badArgument

/-- `va_arg(args, SV *)`. -/
def vaSV : List Slot → Except Fault (SV × List Slot)
  | .sv v :: args => .ok (v, args)
  | _ => .error .badArgument

/-- The `int` in a slot. -/
def toInt (w : UInt64) : Int32 := w.toUInt32.toInt32

/-- The lower half of a slot is the 4-byte argument in it. -/
theorem toUInt32_slot (upper low : UInt32) :
    (UInt64.ofNat (upper.toNat * 2 ^ 32 + low.toNat)).toUInt32 = low := by
  apply UInt32.toNat_inj.mp
  have hlt := low.toNat_lt
  rw [UInt64.toNat_toUInt32, UInt64.toNat_ofNat']
  omega

/-- The strings the loop of case `a` pushes, from offset `off` of the text on.
`len` is an `int`, and `newSVpvn` refuses a length that became negative. -/
def splitStrings (s : Mem) (iVal : Int) : Nat → Nat → Except Fault (List (List Char))
  | 0, off => if (off : Int) < iVal then .error .hang else .ok []
  | fuel + 1, off =>
      if (off : Int) < iVal then
        let len := Int32.ofNat (strlen (s.drop off))
        if len.toInt < 0 then .error (.croak "panic: memory wrap")
        else do
          let rest ← splitStrings s iVal fuel (off + len.toInt.toNat + 1)
          .ok ((s.drop off).take len.toInt.toNat :: rest)
      else .ok []

/-- Case `a`: the array built from a text and its length. -/
def newArray (s : Option Mem) (iVal : Int32) : Except Fault SV :=
  match s with
  | some s => do
      let elems ← splitStrings s iVal.toInt iVal.toInt.toNat 0
      .ok (.av elems)
  | none => if 0 < iVal.toInt then .error .nullDeref else .ok (.av [])

theorem newArray_av {s : Option Mem} {iVal : Int32} {v : SV} (h : newArray s iVal = .ok v) :
    ∃ elems, v = .av elems := by
  cases s with
  | none =>
      rw [newArray] at h
      split at h
      · cases h
      · exact ⟨[], (Except.ok.inj h).symm⟩
  | some s =>
      rw [newArray] at h
      cases hsplit : splitStrings s iVal.toInt iVal.toInt.toNat 0 with
      | error f =>
          rw [hsplit] at h
          cases h
      | ok elems =>
          rw [hsplit] at h
          exact ⟨elems, (Except.ok.inj h).symm⟩

theorem splitStrings_ne_nullDeref (s : Mem) (iVal : Int) (fuel off : Nat) :
    splitStrings s iVal fuel off ≠ .error .nullDeref := by
  induction fuel generalizing off with
  | zero =>
      rw [splitStrings]
      split <;> intro h <;> cases h
  | succ fuel ih =>
      rw [splitStrings]
      split
      · dsimp only
        split
        · intro h
          cases h
        · cases hrest : splitStrings s iVal fuel
              (off + (Int32.ofNat (strlen (s.drop off))).toInt.toNat + 1) with
          | error f =>
              intro h
              obtain rfl := Except.error.inj h
              exact ih _ hrest
          | ok rest =>
              intro h
              cases h
      · intro h
        cases h

/-- An array that has a text is never read through NULL. -/
theorem newArray_ne_nullDeref (s : Mem) (iVal : Int32) :
    newArray (some s) iVal ≠ .error .nullDeref := by
  rw [newArray]
  cases hsplit : splitStrings s iVal.toInt iVal.toInt.toNat 0 with
  | error f =>
      intro h
      obtain rfl := Except.error.inj h
      exact splitStrings_ne_nullDeref _ _ _ _ hsplit
  | ok elems =>
      intro h
      cases h

/-- The `switch`: the scalar stored for one format character, the number
`store_ttydev` would be called with, and the arguments left. -/
def convert (format : Char) (args : List Slot) :
    Except Fault ((SV × Option UInt64) × List Slot) :=
  match format with
  | 'A' => do
      let (_, args) ← vaPtr args
      let (_, args) ← vaWord args
      .ok ((.undef, none), args)
  | 'a' => do
      let (sVal, args) ← vaPtr args
      let (iVal, args) ← vaWord args
      let av ← newArray sVal (toInt iVal)
      .ok ((av, none), args)
  | 'S' => do
      let (_, args) ← vaPtr args
      .ok ((.undef, none), args)
  | 's' => do
      let (sVal, args) ← vaPtr args
      match sVal with
      | some s => .ok ((.pv (cstr s), none), args)
      | none => .error .nullDeref
  | 'I' => do
      let (_, args) ← vaWord args
      .ok ((.undef, none), args)
  | 'i' => do
      let (iVal, args) ← vaWord args
      .ok ((.iv (toInt iVal).toInt, some (toInt iVal).toInt64.toUInt64), args)
  | 'U' => do
      let (_, args) ← vaWord args
      .ok ((.undef, none), args)
  | 'u' => do
      let (uVal, args) ← vaWord args
      .ok ((.uv uVal.toUInt32.toNat, none), args)
  | 'L' => do
      let (_, args) ← vaWord args
      .ok ((.undef, none), args)
  | 'l' => do
      let (lVal, args) ← vaWord args
      .ok ((newSVnv lVal.toInt64.toInt, some lVal), args)
  | 'P' => do
      let (_, args) ← vaWord args
      .ok ((.undef, none), args)
  | 'p' => do
      let (pVal, args) ← vaWord args
      .ok ((newSVnv pVal.toNat, none), args)
  | 'J' => do
      let (_, args) ← vaWord args
      .ok ((.undef, none), args)
  | 'j' => do
      let (llVal, args) ← vaWord args
      .ok ((newSVnv llVal.toInt64.toInt, none), args)
  | 'V' => do
      let (v, args) ← vaSV args
      .ok ((v, none), args)
  | c =>
      .error (.croak
        (String.ofList ("Unknown data format type `".toList ++ c :: "' returned from OS_get_table".toList)))

/-- `store_ttydev`, on the hash `Ttydevs` points to. -/
def storeTtydev (ttydevs : Option HV) (myhash : HV) (ttynum : UInt64) : HV :=
  match ttydevs.bind fun h => h (toString ttynum.toNat) with
  | some dev => myhash.store "ttydev" dev
  | none => myhash.store "ttydev" (.pv [])

/-- The `hv_store` of one branch, with the terminal lookup behind it. -/
def storeField (ttydevs : Option HV) (key : String) (v : SV × Option UInt64) (myhash : HV) : HV :=
  let myhash := myhash.store key v.1
  match v.2 with
  | some ttynum => if key = "ttynum" then storeTtydev ttydevs myhash ttynum else myhash
  | none => myhash

/-- The `while` loop over format, names and arguments. -/
def blessLoop (ttydevs : Option HV) :
    List Char → List String → List Slot → HV → Except Fault (HV × List Slot)
  | [], _, args, myhash => .ok (myhash, args)
  | _ :: _, [], _, _ => .error .badArgument
  | c :: format, key :: fields, args, myhash => do
      let (v, args) ← convert c args
      blessLoop ttydevs format fields args (storeField ttydevs key v myhash)

/-- One field of a call: its character, its name, its slots, and what
`convert` makes of them. -/
structure Column where
  char : Char
  key : String
  group : List Slot
  value : SV × Option UInt64

/-- The character takes exactly the column's slots. -/
def Column.Fits (col : Column) : Prop :=
  ∀ args, convert col.char (col.group ++ args) = .ok (col.value, args)

/-- The stores of a row of columns, in order. -/
def storeColumns (ttydevs : Option HV) (cols : List Column) (myhash : HV) : HV :=
  cols.foldl (fun h col => storeField ttydevs col.key col.value h) myhash

/-- **A call whose slots fit consumes them all and stores column by column.** -/
theorem blessLoop_columns (ttydevs : Option HV) {cols : List Column}
    (hfits : ∀ col ∈ cols, col.Fits) (args : List Slot) (myhash : HV) :
    blessLoop ttydevs (cols.map Column.char) (cols.map Column.key)
        (cols.flatMap Column.group ++ args) myhash =
      .ok (storeColumns ttydevs cols myhash, args) := by
  induction cols generalizing myhash with
  | nil => rfl
  | cons col cols ih =>
      have hcol := hfits col List.mem_cons_self (cols.flatMap Column.group ++ args)
      have htail := ih (fun c hc => hfits c (List.mem_cons_of_mem _ hc))
      simp only [List.map_cons, List.flatMap_cons, List.append_assoc, blessLoop, hcol]
      exact htail (storeField ttydevs col.key col.value myhash)

/-- The terminal lookup stores under one key, whatever it finds. -/
theorem storeTtydev_eq (ttydevs : Option HV) (myhash : HV) (ttynum : UInt64) :
    ∃ dev, storeTtydev ttydevs myhash ttynum = myhash.store "ttydev" dev := by
  unfold storeTtydev
  cases ttydevs.bind fun h => h (toString ttynum.toNat) with
  | none => exact ⟨_, rfl⟩
  | some dev => exact ⟨dev, rfl⟩

/-- A store touches its own key and the terminal name. -/
theorem storeField_of_ne (ttydevs : Option HV) {k key : String} (v : SV × Option UInt64)
    (myhash : HV) (hkey : k ≠ key) (htty : k ≠ "ttydev") :
    storeField ttydevs key v myhash k = myhash k := by
  unfold storeField
  cases v.2 with
  | none => exact HV.store_of_ne hkey _ _
  | some ttynum =>
      by_cases hk : key = "ttynum"
      · obtain ⟨dev, hdev⟩ := storeTtydev_eq ttydevs (myhash.store key v.1) ttynum
        simp only [hk, if_true] at hdev ⊢
        rw [hk] at hkey
        rw [hdev, HV.store_of_ne htty, HV.store_of_ne hkey]
      · simp only [hk, if_false]
        exact HV.store_of_ne hkey _ _

/-- A store leaves its value under its own key. -/
theorem storeField_self (ttydevs : Option HV) {key : String} (v : SV × Option UInt64)
    (myhash : HV) : storeField ttydevs key v myhash key = some v.1 := by
  unfold storeField
  cases v.2 with
  | none => exact HV.store_self _ _ _
  | some ttynum =>
      by_cases hk : key = "ttynum"
      · obtain ⟨dev, hdev⟩ := storeTtydev_eq ttydevs (myhash.store key v.1) ttynum
        simp only [hk, if_true] at hdev ⊢
        rw [hdev, HV.store_of_ne (by decide), HV.store_self]
      · simp only [hk, if_false]
        exact HV.store_self _ _ _

/-- A key that is no column's keeps its value. -/
theorem storeColumns_of_not_mem (ttydevs : Option HV) {cols : List Column} (myhash : HV)
    {k : String} (hk : k ∉ cols.map Column.key) (htty : k ≠ "ttydev") :
    storeColumns ttydevs cols myhash k = myhash k := by
  induction cols generalizing myhash with
  | nil => rfl
  | cons col cols ih =>
      rw [List.map_cons, List.mem_cons, not_or] at hk
      have hstep := storeField_of_ne ttydevs col.value myhash hk.1 htty
      exact (ih (storeField ttydevs col.key col.value myhash) hk.2).trans hstep

/-- **Each column is read back under its own name**, when names are distinct. -/
theorem storeColumns_of_mem (ttydevs : Option HV) {cols : List Column} (myhash : HV)
    (hnodup : (cols.map Column.key).Nodup) {col : Column} (hcol : col ∈ cols)
    (htty : col.key ≠ "ttydev") :
    storeColumns ttydevs cols myhash col.key = some col.value.1 := by
  induction cols generalizing myhash with
  | nil => cases hcol
  | cons c cols ih =>
      rw [List.map_cons, List.nodup_cons] at hnodup
      rcases List.mem_cons.mp hcol with rfl | htail
      · have hlast := storeColumns_of_not_mem ttydevs
          (storeField ttydevs col.key col.value myhash) hnodup.1 htty
        exact hlast.trans (storeField_self ttydevs col.value myhash)
      · exact ih (storeField ttydevs c.key c.value myhash) hnodup.2 htail

/-- The terminal name is stored with a terminal number, and only then. -/
theorem storeField_ttydev (ttydevs : Option HV) {key : String} (hkey : key ≠ "ttydev")
    (v : SV × Option UInt64) (myhash : HV) :
    (storeField ttydevs key v myhash "ttydev").isSome =
      ((myhash "ttydev").isSome || (decide (key = "ttynum") && v.2.isSome)) := by
  have hkeep : (myhash.store key v.1) "ttydev" = myhash "ttydev" := HV.store_of_ne hkey.symm _ _
  unfold storeField
  cases v.2 with
  | none => simp [hkeep]
  | some ttynum =>
      by_cases hk : key = "ttynum"
      · obtain ⟨dev, hdev⟩ := storeTtydev_eq ttydevs (myhash.store key v.1) ttynum
        simp [hk] at hdev ⊢
        simp [hdev]
      · simp [hk, hkeep]

theorem storeColumns_ttydev (ttydevs : Option HV) {cols : List Column}
    (hkeys : "ttydev" ∉ cols.map Column.key) (myhash : HV) :
    (storeColumns ttydevs cols myhash "ttydev").isSome =
      ((myhash "ttydev").isSome ||
        cols.any fun col => decide (col.key = "ttynum") && col.value.2.isSome) := by
  induction cols generalizing myhash with
  | nil => simp [storeColumns]
  | cons col cols ih =>
      rw [List.map_cons, List.mem_cons, not_or] at hkeys
      have hstep := storeField_ttydev ttydevs (fun h => hkeys.1 h.symm) col.value myhash
      refine (ih hkeys.2 (storeField ttydevs col.key col.value myhash)).trans ?_
      rw [hstep, List.any_cons, Bool.or_assoc]

/-- What a character makes of its own slots. -/
def groupValue (c : Char) (group : List Slot) : Except Fault (SV × Option UInt64) :=
  (convert c group).map Prod.fst

/-- A string that differs behind its NUL only is worth the same. -/
theorem groupValue_string {c : Char} (hc : c ∈ ['S', 's']) {m m' : Option Mem}
    (h : m.map cstr = m'.map cstr) : groupValue c [.ptr m] = groupValue c [.ptr m'] := by
  simp only [List.mem_cons, List.not_mem_nil, or_false] at hc
  rcases hc with rfl | rfl
  · rfl
  · cases m with
    | none =>
        cases m' with
        | none => rfl
        | some m' => cases h
    | some m =>
        cases m' with
        | none => cases h
        | some m' =>
            have hstr : cstr m = cstr m' := Option.some.inj h
            show Except.ok (SV.pv (cstr m), none) = Except.ok (SV.pv (cstr m'), none)
            rw [hstr]

/-- The character takes exactly these slots, whatever comes of them. -/
def Takes (c : Char) (group : List Slot) : Prop :=
  ∀ args, convert c (group ++ args) = (groupValue c group).map fun v => (v, args)

/-- The stores of a row of characters, names and slots, up to the first fault. -/
def blessGroups (ttydevs : Option HV) : List (Char × String × List Slot) → HV → Except Fault HV
  | [], myhash => .ok myhash
  | (c, key, group) :: rest, myhash =>
      match groupValue c group with
      | .error f => .error f
      | .ok v => blessGroups ttydevs rest (storeField ttydevs key v myhash)

/-- The fault of a row is the fault of one of its groups. -/
theorem blessGroups_error {ttydevs : Option HV} {cols : List (Char × String × List Slot)}
    {myhash : HV} {f : Fault} (h : blessGroups ttydevs cols myhash = .error f) :
    ∃ col ∈ cols, groupValue col.1 col.2.2 = .error f := by
  induction cols generalizing myhash with
  | nil => cases h
  | cons col cols ih =>
      obtain ⟨c, key, group⟩ := col
      rw [blessGroups] at h
      cases hv : groupValue c group with
      | error f' =>
          rw [hv] at h
          obtain rfl := Except.error.inj h
          exact ⟨(c, key, group), List.mem_cons_self, hv⟩
      | ok v =>
          rw [hv] at h
          obtain ⟨col, hcol, herr⟩ := ih h
          exact ⟨col, List.mem_cons_of_mem _ hcol, herr⟩

/-- **A call whose slots are cut as its characters take them** stores group by
group, or ends with the fault of the first group that has one. -/
theorem blessLoop_groups (ttydevs : Option HV) {cols : List (Char × String × List Slot)}
    (htakes : ∀ col ∈ cols, Takes col.1 col.2.2) (myhash : HV) :
    (blessLoop ttydevs (cols.map fun col => col.1) (cols.map fun col => col.2.1)
        (cols.flatMap fun col => col.2.2) myhash).map Prod.fst =
      blessGroups ttydevs cols myhash := by
  induction cols generalizing myhash with
  | nil => rfl
  | cons col cols ih =>
      obtain ⟨c, key, group⟩ := col
      have hcol := htakes (c, key, group) List.mem_cons_self (cols.flatMap fun col => col.2.2)
      simp only [List.map_cons, List.flatMap_cons, blessLoop, blessGroups, hcol]
      cases groupValue c group with
      | error f => rfl
      | ok v => exact ih (fun col hc => htakes col (List.mem_cons_of_mem _ hc)) _

theorem takes_word {c : Char} (hc : c ∈ ['I', 'i', 'L', 'l', 'P', 'p', 'J', 'j']) (w : UInt64) :
    Takes c [.word w] := by
  simp only [List.mem_cons, List.not_mem_nil, or_false] at hc
  rcases hc with rfl | rfl | rfl | rfl | rfl | rfl | rfl | rfl <;> exact fun _ => rfl

theorem takes_string {c : Char} (hc : c ∈ ['S', 's']) (m : Option Mem) : Takes c [.ptr m] := by
  simp only [List.mem_cons, List.not_mem_nil, or_false] at hc
  rcases hc with rfl | rfl
  · exact fun _ => rfl
  · cases m <;> exact fun _ => rfl

theorem takes_array {c : Char} (hc : c ∈ ['A', 'a']) (m : Option Mem) (w : UInt64) :
    Takes c [.ptr m, .word w] := by
  simp only [List.mem_cons, List.not_mem_nil, or_false] at hc
  rcases hc with rfl | rfl
  · exact fun _ => rfl
  · intro args
    show (do let av ← newArray m (toInt w); Except.ok ((av, none), args)) = _
    have hvalue : groupValue 'a' [.ptr m, .word w] =
        (newArray m (toInt w)).map fun av => (av, none) := by
      show Except.map Prod.fst (do let av ← newArray m (toInt w); Except.ok ((av, none), [])) = _
      cases newArray m (toInt w) <;> rfl
    rw [hvalue]
    cases newArray m (toInt w) <;> rfl

/-- An `int` holds at most the number stored into it. -/
theorem toInt_ofNat_le (n : Nat) : (Int32.ofNat n).toInt ≤ n := by
  have hmod : (n : Int) % (Int32.size : Nat) ≤ n := by
    rw [← Int.natCast_emod]
    exact Int.ofNat_le.mpr (Nat.mod_le n _)
  rw [Int32.toInt_ofNat', Int.bmod_def]
  split
  · exact hmod
  · omega

/-- The split of a text looks at the text and its NUL only. -/
theorem splitStrings_append (text junk : List Char) {iVal : Int} (hle : iVal ≤ text.length) :
    ∀ fuel off : Nat, splitStrings (text ++ nul :: junk) iVal fuel off =
      splitStrings (text ++ [nul]) iVal fuel off := by
  intro fuel
  induction fuel with
  | zero => intro off; rfl
  | succ fuel ih =>
      intro off
      by_cases hlt : (off : Int) < iVal
      · have hoff : off ≤ text.length := by omega
        have hdrop : ∀ rest, (text ++ nul :: rest).drop off = text.drop off ++ nul :: rest :=
          fun rest => List.drop_append_of_le_length hoff
        have hlen : strlen ((text ++ nul :: junk).drop off) = strlen ((text ++ [nul]).drop off) := by
          rw [strlen, strlen, hdrop, hdrop, cstr_append_nul, cstr_append_nul]
        have hint : (Int32.ofNat (strlen ((text ++ [nul]).drop off))).toInt.toNat ≤
            (text.drop off).length := by
          have hle : strlen ((text ++ [nul]).drop off) ≤ (text.drop off).length := by
            rw [strlen, hdrop, cstr_append_nul]
            exact (List.takeWhile_prefix _).length_le
          have hwrap : (Int32.ofNat (strlen ((text ++ [nul]).drop off))).toInt ≤
              strlen ((text ++ [nul]).drop off) := toInt_ofNat_le _
          omega
        rw [splitStrings, splitStrings, if_pos hlt, if_pos hlt, hlen]
        dsimp only
        split
        · rfl
        · have htake : ∀ rest,
              ((text ++ nul :: rest).drop off).take
                  (Int32.ofNat (strlen ((text ++ [nul]).drop off))).toInt.toNat =
                (text.drop off).take
                  (Int32.ofNat (strlen ((text ++ [nul]).drop off))).toInt.toNat := by
            intro rest
            rw [hdrop rest, List.take_append_of_le_length hint]
          rw [ih, htake junk, htake []]
      · rw [splitStrings, splitStrings, if_neg hlt, if_neg hlt]

/-- The static variables of the extension: `Fields` with `Numfields`, the hash
behind `Ttydevs`, and the array behind `Proclist`. -/
@[ext] structure Interp where
  fields : Option (List String × Nat)
  ttydevs : Option HV
  proclist : List HV

/-- Remember the field names at the first call. -/
def Interp.setFields (xs : Interp) (fields : List String) (numfields : Nat) : Interp :=
  match xs.fields with
  | none => { xs with fields := some (fields, numfields) }
  | some _ => xs

@[simp] theorem Interp.setFields_ttydevs (xs : Interp) (fields : List String) (n : Nat) :
    (xs.setFields fields n).ttydevs = xs.ttydevs := by
  unfold Interp.setFields
  split <;> rfl

@[simp] theorem Interp.setFields_proclist (xs : Interp) (fields : List String) (n : Nat) :
    (xs.setFields fields n).proclist = xs.proclist := by
  unfold Interp.setFields
  split <;> rfl

/-- Push a blessed object. -/
def Interp.push (xs : Interp) (obj : HV) : Interp := { xs with proclist := xs.proclist ++ [obj] }

/-- `bless_into_proc`: the state it leaves, and the fault it ends with. -/
def blessIntoProc (format : Mem) (fields : List String) (args : List Slot) (xs : Interp) :
    Interp × Option Fault :=
  let xs := xs.setFields fields (strlen format)
  match blessLoop xs.ttydevs (cstr format) fields args HV.empty with
  | .ok (myhash, _) => (xs.push myhash, none)
  | .error fault => (xs, some fault)

/-- What a call adds to the list, and the fault it ends with, depend on its
arguments and the terminal table alone. -/
theorem blessIntoProc_frame (format : Mem) (fields : List String) (args : List Slot) (xs : Interp) :
    blessIntoProc format fields args xs =
      ({ (xs.setFields fields (strlen format)) with
          proclist := xs.proclist ++
            (blessIntoProc format fields args ⟨none, xs.ttydevs, []⟩).1.proclist },
        (blessIntoProc format fields args ⟨none, xs.ttydevs, []⟩).2) := by
  obtain ⟨known, ttydevs, proclist⟩ := xs
  unfold blessIntoProc
  cases known with
  | none =>
      dsimp only [Interp.setFields]
      cases blessLoop ttydevs (cstr format) fields args HV.empty with
      | error f => exact Prod.ext (Interp.ext rfl rfl (List.append_nil _).symm) rfl
      | ok out => rfl
  | some names =>
      dsimp only [Interp.setFields]
      cases blessLoop ttydevs (cstr format) fields args HV.empty with
      | error f => exact Prod.ext (Interp.ext rfl rfl (List.append_nil _).symm) rfl
      | ok out => rfl

/-- The names `fields()` returns once they are known. -/
def Interp.fieldList (xs : Interp) : List String :=
  match xs.fields with
  | some (fields, numfields) => fields.take numfields
  | none => []

end Xs
