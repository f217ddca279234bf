import ProcProcessTable.BlessIntoProc
import ProcProcessTable.Initialize
import Mathlib.Logic.Function.Basic

/-!
# The calls on ProcessTable objects

`new`, `table` and `fields` share the static variables of the extension: two
mutexes of a threaded build, the names of the first process, and a pointer to
the array that `bless_into_proc` pushes to.  `table` points it at the array
behind the `Table` key of its object, cleared or new, for the time of one scan.

What a port does in a scan is a list of calls of `bless_into_proc`, and perhaps
an exception of its own (`Scan`).

* `table_contents`: over any sequence of calls each object keeps one array, and
  in it the objects of its last scan;
* `locks_released_iff`: which sequences of calls leave both mutexes unlocked.
-/

namespace ProcessTable

open Xs CText Initialize

/-- One call of `bless_into_proc`. -/
structure BlessCall where
  format : Mem
  fields : List String
  args : List Slot

/-- What a port does in `OS_get_table`: its calls, and the fault it ends with. -/
structure Scan where
  calls : List BlessCall
  fault : Option Fault

/-- The object a call makes, if it makes one, and the fault it ends with. -/
def BlessCall.made (c : BlessCall) (ttydevs : Option HV) : List HV × Option Fault :=
  let out := blessIntoProc c.format c.fields c.args ⟨none, ttydevs, []⟩
  (out.1.proclist, out.2)

/-- The objects a row of calls makes, up to the first fault, and that fault. -/
def madeAll (ttydevs : Option HV) : List BlessCall → List HV × Option Fault
  | [] => ([], none)
  | c :: calls =>
      match c.made ttydevs with
      | (objs, some f) => (objs, some f)
      | (objs, none) => (objs ++ (madeAll ttydevs calls).1, (madeAll ttydevs calls).2)

/-- A call makes the object that its loop ends with, or ends with its fault. -/
theorem BlessCall.made_eq (c : BlessCall) (ttydevs : Option HV) :
    c.made ttydevs = match blessLoop ttydevs (cstr c.format) c.fields c.args HV.empty with
      | .ok out => ([out.1], none)
      | .error f => ([], some f) := by
  unfold BlessCall.made blessIntoProc
  dsimp only [Interp.setFields]
  cases blessLoop ttydevs (cstr c.format) c.fields c.args HV.empty <;> rfl

/-- A call makes one object, or it ends with a fault and makes none. -/
theorem BlessCall.made_cases (c : BlessCall) (ttydevs : Option HV) :
    (c.made ttydevs).1 = [] ∨ ∃ obj, c.made ttydevs = ([obj], none) := by
  rw [c.made_eq]
  cases blessLoop ttydevs (cstr c.format) c.fields c.args HV.empty with
  | error f => exact Or.inl rfl
  | ok out => exact Or.inr ⟨out.1, rfl⟩

/-- Calls that make one object each make these objects. -/
theorem madeAll_of_made {ttydevs : Option HV} {calls : List BlessCall} {obj : BlessCall → HV}
    (h : ∀ c ∈ calls, c.made ttydevs = ([obj c], none)) :
    madeAll ttydevs calls = (calls.map obj, none) := by
  induction calls with
  | nil => rfl
  | cons c calls ih =>
      rw [madeAll, h c List.mem_cons_self, ih fun c' hc' => h c' (List.mem_cons_of_mem _ hc')]
      rfl

/-- A call whose slots fit its format makes one object, column by column. -/
theorem BlessCall.made_columns (c : BlessCall) (ttydevs : Option HV) {cols : List Column}
    (hfits : ∀ col ∈ cols, col.Fits) (hformat : cstr c.format = cols.map Column.char)
    (hfields : c.fields = cols.map Column.key) (hargs : c.args = cols.flatMap Column.group) :
    c.made ttydevs = ([storeColumns ttydevs cols HV.empty], none) := by
  have hloop := blessLoop_columns ttydevs hfits [] HV.empty
  rw [List.append_nil] at hloop
  unfold BlessCall.made blessIntoProc
  rw [hformat, hfields, hargs]
  dsimp only [Interp.setFields]
  rw [hloop]
  rfl

/-- The object of a call that makes one. -/
def BlessCall.object (c : BlessCall) (ttydevs : Option HV) : HV :=
  (c.made ttydevs).1.headD HV.empty

/-- The objects of a scan, in the order they are blessed. -/
def Scan.objects (scan : Scan) (ttydevs : Option HV) : List HV := (madeAll ttydevs scan.calls).1

/-- The fault a scan ends with. -/
def Scan.ends (scan : Scan) (ttydevs : Option HV) : Option Fault :=
  match (madeAll ttydevs scan.calls).2 with
  | some f => some f
  | none => scan.fault

/-- The interpreter: the static variables of the extension, `%TTYDEVS`, the
arrays by address, and the array behind the `Table` key of each object. -/
structure Interpreter (Obj : Type) where
  mutexNew : Bool
  mutexTable : Bool
  fields : Option (List String × Nat)
  ttydevs : Option HV
  proclist : Option Nat
  arrays : Nat → List HV
  nextArray : Nat
  tables : Obj → Option Nat

/-- How a call ends. -/
inductive Exit
  /-- with the array it returns a reference to, if any -/
  | returned (array : Option Nat)
  | threw (message : String)
  /-- it waits for a mutex -/
  | blocked
  /-- the process ends, or the call never does -/
  | crashed (f : Fault)
  deriving DecidableEq, Repr

section

variable {Obj : Type}

/-- `bless_into_proc`, pushing to the array `Proclist` points to. -/
def bless (c : BlessCall) (s : Interpreter Obj) : Interpreter Obj × Option Fault :=
  match s.proclist with
  | none => (s, some .nullDeref)
  | some a =>
      let out := blessIntoProc c.format c.fields c.args ⟨s.fields, s.ttydevs, s.arrays a⟩
      ({ s with fields := out.1.fields, arrays := Function.update s.arrays a out.1.proclist },
        out.2)

/-- The calls of a scan, up to the first fault. -/
def blessAll : List BlessCall → Interpreter Obj → Interpreter Obj × Option Fault
  | [], s => (s, none)
  | c :: calls, s =>
      match bless c s with
      | (s, none) => blessAll calls s
      | (s, some f) => (s, some f)

/-- `OS_get_table`. -/
def osGetTable (scan : Scan) (s : Interpreter Obj) : Interpreter Obj × Option Fault :=
  match blessAll scan.calls s with
  | (s, none) => (s, scan.fault)
  | (s, some f) => (s, some f)

variable [DecidableEq Obj]

/-- The beginning of `table`: clear the array of the object or give it one, and
point `Proclist` at it. -/
def pointProclist (s : Interpreter Obj) (obj : Obj) : Interpreter Obj :=
  match s.tables obj with
  | some a => { s with proclist := some a, arrays := Function.update s.arrays a [] }
  | none =>
      { s with
        proclist := some s.nextArray
        arrays := Function.update s.arrays s.nextArray []
        nextArray := s.nextArray + 1
        tables := Function.update s.tables obj (some s.nextArray) }

/-- `table`, on an object or on something else.  Only a threaded build has
mutexes. -/
def table (threaded : Bool) (s : Interpreter Obj) (obj : Option Obj) (scan : Scan) :
    Interpreter Obj × Exit :=
  match obj with
  | none => (s, .threw "Must call table from an initalized object created with new")
  | some obj =>
      if threaded && s.mutexTable then (s, .blocked)
      else
        let s := { s with mutexTable := threaded }
        let s := pointProclist s obj
        match osGetTable scan s with
        | (s, some (.croak message)) => (s, .threw message)
        | (s, some f) => (s, .crashed f)
        | (s, none) => ({ s with mutexTable := false }, .returned s.proclist)

/-- `fields`, which calls `table` when no process has been seen. -/
def fields (threaded : Bool) (s : Interpreter Obj) (obj : Option Obj) (scan : Scan) :
    Interpreter Obj × Exit :=
  match obj with
  | none => (s, .threw "Must call fields from an initalized object created with new")
  | some obj =>
      match s.fields with
      | some _ => (s, .returned none)
      | none =>
          match table threaded s (some obj) scan with
          | (s, .returned _) => (s, .returned none)
          | out => out

omit [DecidableEq Obj] in
/-- `new`: how the operations of `initialize` end, the text it dies with if it
does, and `%TTYDEVS` behind it. -/
def new (threaded : Bool) (s : Interpreter Obj) (opts : Options) (answer : Point → Bool)
    (error : String) (ttydevs : Option HV) : Interpreter Obj × Exit :=
  if threaded && s.mutexNew then (s, .blocked)
  else
    let s := { s with mutexNew := threaded, ttydevs := ttydevs }
    if initializeSelf opts answer then ({ s with mutexNew := false }, .returned none)
    else (s, .threw error)

end

/-- A call with what its run depends on. -/
inductive Call (Obj : Type)
  | new (opts : Options) (answer : Point → Bool) (error : String) (ttydevs : Option HV)
  | table (obj : Option Obj) (scan : Scan)
  | fields (obj : Option Obj) (scan : Scan)

/-- The object whose array a call may write. -/
def Call.obj {Obj : Type} : Call Obj → Option Obj
  | .new .. => none
  | .table obj _ => obj
  | .fields obj _ => obj

section

variable {Obj : Type} [DecidableEq Obj] (threaded : Bool)

/-- One call. -/
def perform (s : Interpreter Obj) : Call Obj → Interpreter Obj × Exit
  | .new opts answer error ttydevs => new threaded s opts answer error ttydevs
  | .table obj scan => table threaded s obj scan
  | .fields obj scan => fields threaded s obj scan

/-- The state behind a sequence of calls. -/
def run (s : Interpreter Obj) (calls : List (Call Obj)) : Interpreter Obj :=
  calls.foldl (fun s call => (perform threaded s call).1) s

end

/-- The state the extension is loaded in. -/
def Interpreter.init {Obj : Type} : Interpreter Obj where
  mutexNew := false
  mutexTable := false
  fields := none
  ttydevs := none
  proclist := none
  arrays := fun _ => []
  nextArray := 0
  tables := fun _ => none

section

variable {Obj : Type}

/-- What two states have in common when only the array at `a` was pushed to and
the names were remembered. -/
structure SameBut (a : Nat) (s s' : Interpreter Obj) : Prop where
  mutexNew : s'.mutexNew = s.mutexNew
  mutexTable : s'.mutexTable = s.mutexTable
  ttydevs : s'.ttydevs = s.ttydevs
  proclist : s'.proclist = s.proclist
  nextArray : s'.nextArray = s.nextArray
  tables : s'.tables = s.tables
  arrays : ∀ b, b ≠ a → s'.arrays b = s.arrays b

theorem SameBut.refl (a : Nat) (s : Interpreter Obj) : SameBut a s s :=
  ⟨rfl, rfl, rfl, rfl, rfl, rfl, fun _ _ => rfl⟩

theorem SameBut.trans {a : Nat} {s s' s'' : Interpreter Obj} (h : SameBut a s s')
    (h' : SameBut a s' s'') : SameBut a s s'' where
  mutexNew := h'.mutexNew.trans h.mutexNew
  mutexTable := h'.mutexTable.trans h.mutexTable
  ttydevs := h'.ttydevs.trans h.ttydevs
  proclist := h'.proclist.trans h.proclist
  nextArray := h'.nextArray.trans h.nextArray
  tables := h'.tables.trans h.tables
  arrays := fun b hb => (h'.arrays b hb).trans (h.arrays b hb)

/-- One call of `bless_into_proc` pushes what it makes to the array `Proclist`
points to. -/
theorem bless_spec (c : BlessCall) {s : Interpreter Obj} {a : Nat} (ha : s.proclist = some a) :
    SameBut a s (bless c s).1 ∧
      (bless c s).1.arrays a = s.arrays a ++ (c.made s.ttydevs).1 ∧
      (bless c s).2 = (c.made s.ttydevs).2 := by
  have hframe := blessIntoProc_frame c.format c.fields c.args ⟨s.fields, s.ttydevs, s.arrays a⟩
  unfold bless BlessCall.made
  rw [ha]
  dsimp only
  rw [hframe]
  refine ⟨⟨rfl, rfl, rfl, ha.symm, rfl, rfl, fun b hb => Function.update_of_ne hb _ _⟩, ?_, rfl⟩
  exact Function.update_self a _ _

/-- A row of calls pushes what they make, in order, up to the first fault. -/
theorem blessAll_spec (calls : List BlessCall) {s : Interpreter Obj} {a : Nat}
    (ha : s.proclist = some a) :
    SameBut a s (blessAll calls s).1 ∧
      (blessAll calls s).1.arrays a = s.arrays a ++ (madeAll s.ttydevs calls).1 ∧
      (blessAll calls s).2 = (madeAll s.ttydevs calls).2 := by
  induction calls generalizing s with
  | nil => exact ⟨SameBut.refl a s, (List.append_nil _).symm, rfl⟩
  | cons c calls ih =>
      obtain ⟨hsame, harray, hfault⟩ := bless_spec c ha
      rw [blessAll, madeAll]
      cases hb : bless c s with
      | mk s' fault =>
          rw [hb] at hsame harray hfault
          cases hm : c.made s.ttydevs with
          | mk objs fault' =>
              rw [hm] at harray hfault
              obtain rfl : fault = fault' := hfault
              cases fault with
              | some f => exact ⟨hsame, harray, rfl⟩
              | none =>
                  obtain ⟨hsame', harray', hfault'⟩ := ih (hsame.proclist.trans ha)
                  rw [hsame.ttydevs] at harray' hfault'
                  refine ⟨hsame.trans hsame', ?_, hfault'⟩
                  rw [harray', harray, List.append_assoc]

/-- **A scan pushes its objects**, and ends as its calls and its port do. -/
theorem osGetTable_spec (scan : Scan) {s : Interpreter Obj} {a : Nat} (ha : s.proclist = some a) :
    SameBut a s (osGetTable scan s).1 ∧
      (osGetTable scan s).1.arrays a = s.arrays a ++ scan.objects s.ttydevs ∧
      (osGetTable scan s).2 = scan.ends s.ttydevs := by
  obtain ⟨hsame, harray, hfault⟩ := blessAll_spec scan.calls ha
  unfold osGetTable Scan.objects Scan.ends
  cases hb : blessAll scan.calls s with
  | mk s' fault =>
      rw [hb] at hsame harray hfault
      rw [← hfault]
      cases fault with
      | none => exact ⟨hsame, harray, rfl⟩
      | some f => exact ⟨hsame, harray, rfl⟩

/-- Every array is allocated, and none is behind two objects. -/
structure WellFormed (s : Interpreter Obj) : Prop where
  allocated : ∀ o a, s.tables o = some a → a < s.nextArray
  apart : ∀ o o' a, s.tables o = some a → s.tables o' = some a → o = o'

/-- The arrays behind the objects in `keep` are the same and hold the same. -/
structure Keeps (keep : Obj → Prop) (s s' : Interpreter Obj) : Prop where
  tables : ∀ o, keep o → s'.tables o = s.tables o
  arrays : ∀ o a, keep o → s.tables o = some a → s'.arrays a = s.arrays a

theorem WellFormed.init : WellFormed (Interpreter.init : Interpreter Obj) :=
  ⟨fun _ _ h => (by cases h), fun _ _ _ h => (by cases h)⟩

/-- The arrays are in order whatever they hold. -/
theorem WellFormed.congr {s s' : Interpreter Obj} (h : WellFormed s) (htables : s'.tables = s.tables)
    (hnext : s'.nextArray = s.nextArray) : WellFormed s' := by
  constructor
  · intro o a ha
    rw [htables] at ha
    rw [hnext]
    exact h.allocated o a ha
  · intro o o' a ha ha'
    rw [htables] at ha ha'
    exact h.apart o o' a ha ha'

variable [DecidableEq Obj]

/-- An object may be given the next array. -/
theorem WellFormed.fresh {s s' : Interpreter Obj} (h : WellFormed s) (obj : Obj)
    (htables : s'.tables = Function.update s.tables obj (some s.nextArray))
    (hnext : s'.nextArray = s.nextArray + 1) : WellFormed s' := by
  have hother : ∀ o a, o ≠ obj → s'.tables o = some a → s.tables o = some a := by
    intro o a ho ha
    rwa [htables, Function.update_of_ne ho] at ha
  have hself : ∀ a, s'.tables obj = some a → a = s.nextArray := by
    intro a ha
    rw [htables, Function.update_self] at ha
    exact (Option.some.inj ha).symm
  constructor
  · intro o a ha
    rw [hnext]
    by_cases ho : o = obj
    · rw [hself a (ho ▸ ha)]
      exact Nat.lt_succ_self _
    · exact Nat.lt_succ_of_lt (h.allocated o a (hother o a ho ha))
  · intro o o' a ha ha'
    by_cases ho : o = obj
    · by_cases ho' : o' = obj
      · exact ho.trans ho'.symm
      · have hlt := h.allocated o' a (hother o' a ho' ha')
        exact absurd (hself a (ho ▸ ha)) (Nat.ne_of_lt hlt)
    · have hlt := h.allocated o a (hother o a ho ha)
      by_cases ho' : o' = obj
      · exact absurd (hself a (ho' ▸ ha')) (Nat.ne_of_lt hlt)
      · exact h.apart o o' a (hother o a ho ha) (hother o' a ho' ha')

/-- `Proclist` points to an empty array that is behind the object and no
other. -/
structure Pointed (obj : Obj) (s s' : Interpreter Obj) (a : Nat) : Prop where
  proclist : s'.proclist = some a
  table : s'.tables obj = some a
  same : ∀ b, s.tables obj = some b → b = a
  empty : s'.arrays a = []
  ttydevs : s'.ttydevs = s.ttydevs
  mutexNew : s'.mutexNew = s.mutexNew
  mutexTable : s'.mutexTable = s.mutexTable
  wellFormed : WellFormed s'
  keeps : Keeps (· ≠ obj) s s'

theorem pointProclist_spec {s : Interpreter Obj} (h : WellFormed s) (obj : Obj) :
    ∃ a, Pointed obj s (pointProclist s obj) a := by
  unfold pointProclist
  cases htable : s.tables obj with
  | some a =>
      refine ⟨a, rfl, htable, fun b hb => ?_, Function.update_self a _ _, rfl, rfl, rfl,
        h.congr rfl rfl, fun _ _ => rfl, ?_⟩
      · rw [htable] at hb
        exact (Option.some.inj hb).symm
      · intro o b ho hb
        apply Function.update_of_ne
        intro hba
        exact ho (h.apart o obj a (hba ▸ hb) htable)
  | none =>
      refine ⟨s.nextArray, rfl, Function.update_self obj _ _, fun b hb => ?_,
        Function.update_self _ _ _, rfl, rfl, rfl, h.fresh obj rfl rfl,
        fun o ho => Function.update_of_ne ho _ _, ?_⟩
      · rw [htable] at hb
        cases hb
      · intro o b _ hb
        apply Function.update_of_ne
        exact Nat.ne_of_lt (h.allocated o b hb)

/-- How `table` ends when its scan does. -/
def exitOf (a : Nat) : Option Fault → Exit
  | none => .returned (some a)
  | some (.croak message) => .threw message
  | some f => .crashed f

/-- What a call of `table` leaves that gets the mutex: the object's array holds
the objects of the scan, and the mutex is unlocked unless the scan ended with a
fault. -/
structure Tabled (threaded : Bool) (obj : Obj) (scan : Scan) (s : Interpreter Obj) (a : Nat)
    (out : Interpreter Obj × Exit) : Prop where
  table : out.1.tables obj = some a
  same : ∀ b, s.tables obj = some b → b = a
  contents : out.1.arrays a = scan.objects s.ttydevs
  exit : out.2 = exitOf a (scan.ends s.ttydevs)
  mutexTable : out.1.mutexTable = (threaded && (scan.ends s.ttydevs).isSome)
  mutexNew : out.1.mutexNew = s.mutexNew
  ttydevs : out.1.ttydevs = s.ttydevs
  wellFormed : WellFormed out.1
  keeps : Keeps (· ≠ obj) s out.1

/-- **What `table` does.** -/
theorem table_spec (threaded : Bool) {s : Interpreter Obj} (h : WellFormed s) (obj : Obj)
    (scan : Scan) (hfree : (threaded && s.mutexTable) = false) :
    ∃ a, Tabled threaded obj scan s a (table threaded s (some obj) scan) := by
  obtain ⟨a, hpointed⟩ := pointProclist_spec
    (h.congr rfl rfl : WellFormed { s with mutexTable := threaded }) obj
  have hptr := hpointed.proclist
  have htty : (pointProclist { s with mutexTable := threaded } obj).ttydevs = s.ttydevs :=
    hpointed.ttydevs
  obtain ⟨hscan, hcontents, hfault⟩ := osGetTable_spec scan hptr
  rw [hpointed.empty, List.nil_append, htty] at hcontents
  rw [htty] at hfault
  refine ⟨a, ?_⟩
  have hstate : Tabled threaded obj scan s a
      ({ (osGetTable scan (pointProclist { s with mutexTable := threaded } obj)).1 with
          mutexTable := threaded && (scan.ends s.ttydevs).isSome },
        exitOf a (scan.ends s.ttydevs)) := by
    refine ⟨?_, hpointed.same, hcontents, rfl, rfl, hscan.mutexNew.trans hpointed.mutexNew,
      hscan.ttydevs.trans htty, hpointed.wellFormed.congr hscan.tables hscan.nextArray, ⟨?_, ?_⟩⟩
    · exact (congrFun hscan.tables obj).trans hpointed.table
    · intro o ho
      exact (congrFun hscan.tables o).trans (hpointed.keeps.tables o ho)
    · intro o b ho hb
      have hb' := (hpointed.keeps.tables o ho).trans hb
      have hba : b ≠ a := fun hba =>
        ho (hpointed.wellFormed.apart o obj a (hba ▸ hb') hpointed.table)
      exact (hscan.arrays b hba).trans (hpointed.keeps.arrays o b ho hb)
  have hmutex' : (osGetTable scan (pointProclist { s with mutexTable := threaded } obj)).1.mutexTable =
      threaded := hscan.mutexTable.trans hpointed.mutexTable
  have hptr' := hscan.proclist.trans hptr
  unfold table
  dsimp only
  rw [hfree, if_neg Bool.false_ne_true]
  cases hout : osGetTable scan (pointProclist { s with mutexTable := threaded } obj) with
  | mk s' fault =>
      rw [hout] at hstate hmutex' hfault hptr'
      dsimp only at hstate hmutex' hfault hptr'
      rw [← hfault] at hstate
      have hlocked : s' = { s' with mutexTable := threaded && true } := by
        rw [Bool.and_true, ← hmutex']
      cases fault with
      | none =>
          have hexit : exitOf a none = .returned s'.proclist := congrArg Exit.returned hptr'.symm
          rw [Option.isSome_none, Bool.and_false, hexit] at hstate
          exact hstate
      | some f =>
          rw [Option.isSome_some, ← hlocked] at hstate
          cases f <;> exact hstate

theorem table_blocked {threaded : Bool} {s : Interpreter Obj} (obj : Obj) (scan : Scan)
    (h : (threaded && s.mutexTable) = true) : table threaded s (some obj) scan = (s, .blocked) :=
  if_pos h

/-- What a call of `table` returns is the object's array. -/
theorem table_returned (threaded : Bool) {s : Interpreter Obj} (h : WellFormed s) {obj : Obj}
    {scan : Scan} {a : Nat} {r : Option Nat}
    (ha : (table threaded s (some obj) scan).1.tables obj = some a)
    (hr : (table threaded s (some obj) scan).2 = .returned r) : r = some a := by
  cases hfree : (threaded && s.mutexTable) with
  | true =>
      rw [table_blocked obj scan hfree] at hr
      cases hr
  | false =>
      obtain ⟨b, htabled⟩ := table_spec threaded h obj scan hfree
      rw [htabled.table] at ha
      rw [htabled.exit] at hr
      cases ha
      cases hends : scan.ends s.ttydevs with
      | none =>
          rw [hends] at hr
          exact (Exit.returned.inj hr).symm
      | some f =>
          rw [hends] at hr
          cases f <;> cases hr

/-- What every call keeps: the arrays are in order, an object keeps its array,
and the arrays of the other objects keep their contents. -/
structure Orderly (obj : Option Obj) (s s' : Interpreter Obj) : Prop where
  wellFormed : WellFormed s'
  persists : ∀ o a, s.tables o = some a → s'.tables o = some a
  keeps : Keeps (fun o => obj ≠ some o) s s'

omit [DecidableEq Obj] in
theorem Orderly.refl {s : Interpreter Obj} (h : WellFormed s) (obj : Option Obj) :
    Orderly obj s s :=
  ⟨h, fun _ _ ha => ha, fun _ _ => rfl, fun _ _ _ _ => rfl⟩

theorem table_orderly (threaded : Bool) {s : Interpreter Obj} (h : WellFormed s)
    (obj : Option Obj) (scan : Scan) : Orderly obj s (table threaded s obj scan).1 := by
  cases obj with
  | none => exact Orderly.refl h none
  | some obj =>
      cases hfree : (threaded && s.mutexTable) with
      | true =>
          rw [table_blocked obj scan hfree]
          exact Orderly.refl h (some obj)
      | false =>
          obtain ⟨a, htabled⟩ := table_spec threaded h obj scan hfree
          have hother : ∀ o, some obj ≠ some o → o ≠ obj := fun o ho heq => ho (congrArg some heq.symm)
          refine ⟨htabled.wellFormed, ?_, ?_, ?_⟩
          · intro o b hb
            by_cases ho : o = obj
            · rw [ho] at hb ⊢
              rw [htabled.same b hb]
              exact htabled.table
            · exact (htabled.keeps.tables o ho).trans hb
          · intro o ho
            exact htabled.keeps.tables o (hother o ho)
          · intro o b ho hb
            exact htabled.keeps.arrays o b (hother o ho) hb

/-- `fields` does what `table` does, or nothing. -/
theorem fields_state (threaded : Bool) (s : Interpreter Obj) (obj : Option Obj) (scan : Scan) :
    (fields threaded s obj scan).1 = s ∨
      (fields threaded s obj scan).1 = (table threaded s obj scan).1 := by
  unfold fields
  cases obj with
  | none => exact Or.inl rfl
  | some obj =>
      dsimp only
      cases s.fields with
      | some names => exact Or.inl rfl
      | none =>
          right
          cases table threaded s (some obj) scan with
          | mk s' exit => cases exit <;> rfl

/-- **One call.** -/
theorem perform_orderly (threaded : Bool) {s : Interpreter Obj} (h : WellFormed s)
    (call : Call Obj) : Orderly call.obj s (perform threaded s call).1 := by
  cases call with
  | new opts answer error ttydevs =>
      have hnew : ∀ m, Orderly none s { s with mutexNew := m, ttydevs := ttydevs } := fun m =>
        ⟨h.congr rfl rfl, fun _ _ ha => ha, fun _ _ => rfl, fun _ _ _ _ => rfl⟩
      change Orderly none s (new threaded s opts answer error ttydevs).1
      unfold new
      split
      · exact Orderly.refl h none
      · dsimp only
        split
        · exact hnew false
        · exact hnew threaded
  | table obj scan => exact table_orderly threaded h obj scan
  | fields obj scan =>
      have hstate := fields_state threaded s obj scan
      change Orderly obj s (fields threaded s obj scan).1
      rcases hstate with hstate | hstate <;> rw [hstate]
      · exact Orderly.refl h obj
      · exact table_orderly threaded h obj scan

/-- **A sequence of calls**: every object keeps its array, and one that no call
is made on keeps its contents. -/
theorem run_orderly (threaded : Bool) {s : Interpreter Obj} (h : WellFormed s)
    (calls : List (Call Obj)) :
    WellFormed (run threaded s calls) ∧
      (∀ o a, s.tables o = some a → (run threaded s calls).tables o = some a) ∧
      ∀ o a, (∀ call ∈ calls, call.obj ≠ some o) → s.tables o = some a →
        (run threaded s calls).arrays a = s.arrays a := by
  induction calls generalizing s with
  | nil => exact ⟨h, fun _ _ ha => ha, fun _ _ _ _ => rfl⟩
  | cons call calls ih =>
      have hstep := perform_orderly threaded h call
      obtain ⟨hwf, hpersists, hkeeps⟩ := ih hstep.wellFormed
      refine ⟨hwf, fun o a ha => hpersists o a (hstep.persists o a ha), ?_⟩
      intro o a hno ha
      have hcall := hno call List.mem_cons_self
      have hrest := hkeeps o a (fun c hc => hno c (List.mem_cons_of_mem _ hc))
        (hstep.persists o a ha)
      exact hrest.trans (hstep.keeps.arrays o a hcall ha)

/-- **What an object's array holds.**  After any calls, let `table` be called on
an object, and not wait for its mutex for ever.  Then the object has an array,
which holds the objects blessed in this call in order and nothing else; the
arrays of the other objects are others, and the same as before; and the array
stays that object's own whatever calls follow: every later `table` that returns
returns it, and it keeps its contents until the next call on the object. -/
theorem table_contents (threaded : Bool) (before : List (Call Obj)) (obj : Obj) (scan : Scan)
    (hruns : (table threaded (run threaded Interpreter.init before) (some obj) scan).2 ≠ .blocked) :
    let s := run threaded Interpreter.init before
    let out := table threaded s (some obj) scan
    ∃ a, out.1.tables obj = some a ∧ out.1.arrays a = scan.objects s.ttydevs ∧
      (∀ r, out.2 = .returned r → r = some a) ∧
      (∀ o, o ≠ obj → out.1.tables o = s.tables o ∧
        ∀ b, s.tables o = some b → b ≠ a ∧ out.1.arrays b = s.arrays b) ∧
      (∀ later scan' r, (table threaded (run threaded out.1 later) (some obj) scan').2 = .returned r →
        r = some a) ∧
      ∀ later, (∀ call ∈ later, call.obj ≠ some obj) →
        (run threaded out.1 later).tables obj = some a ∧
          (run threaded out.1 later).arrays a = scan.objects s.ttydevs := by
  intro s out
  have hwf : WellFormed s := (run_orderly threaded WellFormed.init before).1
  have hfree : (threaded && s.mutexTable) = false := by
    cases hfree : (threaded && s.mutexTable) with
    | false => rfl
    | true => exact absurd (congrArg Prod.snd (table_blocked obj scan hfree)) hruns
  obtain ⟨a, htabled⟩ := table_spec threaded hwf obj scan hfree
  refine ⟨a, htabled.table, htabled.contents, fun r hr =>
    table_returned threaded hwf htabled.table hr, ?_, ?_, ?_⟩
  · intro o ho
    refine ⟨htabled.keeps.tables o ho, fun b hb => ⟨?_, htabled.keeps.arrays o b ho hb⟩⟩
    intro hba
    have hb' := (htabled.keeps.tables o ho).trans hb
    exact ho (htabled.wellFormed.apart o obj a (hba ▸ hb') htabled.table)
  · intro later scan' r hr
    obtain ⟨hlater, hpersists, _⟩ := run_orderly threaded htabled.wellFormed later
    refine table_returned threaded hlater ?_ hr
    exact (table_orderly threaded hlater (some obj) scan').persists obj a
      (hpersists obj a htabled.table)
  · intro later hno
    obtain ⟨_, hpersists, hkeeps⟩ := run_orderly threaded htabled.wellFormed later
    exact ⟨hpersists obj a htabled.table,
      (hkeeps obj a hno htabled.table).trans htabled.contents⟩

end

/-- A scan of one process of which only the id is known. -/
def sampleScan (pid : UInt64) : Scan := ⟨[⟨['i'], ["pid"], [.word pid]⟩], none⟩

theorem table_contents_sample :
    let before := [Call.table (some false) (sampleScan 1), Call.table (some true) (sampleScan 2)]
    let s := run true Interpreter.init before
    let out := table true s (some false) (sampleScan 3)
    ∃ a, out.1.tables false = some a ∧ out.1.arrays a = (sampleScan 3).objects s.ttydevs ∧
      (∀ r, out.2 = .returned r → r = some a) ∧
      (∀ o, o ≠ false → out.1.tables o = s.tables o ∧
        ∀ b, s.tables o = some b → b ≠ a ∧ out.1.arrays b = s.arrays b) ∧
      (∀ later scan' r, (table true (run true out.1 later) (some false) scan').2 = .returned r →
        r = some a) ∧
      ∀ later, (∀ call ∈ later, call.obj ≠ some false) →
        (run true out.1 later).tables false = some a ∧
          (run true out.1 later).arrays a = (sampleScan 3).objects s.ttydevs :=
  table_contents true [.table (some false) (sampleScan 1), .table (some true) (sampleScan 2)] false
    (sampleScan 3) (by decide)

/-- `initialize` gets through: the libraries are there, the cache is read or
written for the next caller or was written meanwhile, and the port starts. -/
def Initializes (opts : Options) (answer : Point → Bool) : Prop :=
  (opts.enableTtys = true → opts.cacheTtys = true →
    answer .requireStorable = true ∧
    (answer .testCache = true → answer .retrieve = true) ∧
    (answer .testCache = false → answer .requireTemp = true ∧ answer .tempfile = true ∧
      (answer .rename = true ∨ answer .retestCache = true))) ∧
  answer .initializeOs = true

theorem initializeSelf_iff (opts : Options) (answer : Point → Bool) :
    initializeSelf opts answer = true ↔ Initializes opts answer := by
  unfold initializeSelf Initializes
  cases opts.enableTtys
  · simp
  · cases opts.cacheTtys
    · simp
    · cases answer .requireStorable
      · simp
      · cases answer .testCache
        · cases answer .requireTemp
          · simp
          · cases answer .tempfile
            · simp
            · cases answer .rename <;> cases answer .retestCache <;> simp
        · cases answer .retrieve <;> simp

section

variable {Obj : Type} [DecidableEq Obj]

/-- Neither mutex is locked. -/
def Released (s : Interpreter Obj) : Prop := s.mutexNew = false ∧ s.mutexTable = false

/-- A scan ends with an exception. -/
def Scan.Croaks (scan : Scan) (ttydevs : Option HV) : Prop :=
  ∃ message, scan.ends ttydevs = some (.croak message)

/-- A call that cannot fail with a mutex locked: `initialize` gets through, and a
scan that is made raises no exception. -/
def Harmless (s : Interpreter Obj) : Call Obj → Prop
  | .new opts answer _ _ => Initializes opts answer
  | .table obj scan => obj ≠ none → ¬ scan.Croaks s.ttydevs
  | .fields obj scan => obj ≠ none → s.fields = none → ¬ scan.Croaks s.ttydevs

/-- The states and the ends of the calls of a sequence; nothing comes behind a
crash. -/
def trace (threaded : Bool) (s : Interpreter Obj) : List (Call Obj) → List (Interpreter Obj × Exit)
  | [] => []
  | call :: calls =>
      let out := perform threaded s call
      match out.2 with
      | .crashed _ => [out]
      | _ => out :: trace threaded out.1 calls

/-- Every call of a sequence is harmless where it is made. -/
def HarmlessRun (threaded : Bool) (s : Interpreter Obj) : List (Call Obj) → Prop
  | [] => True
  | call :: calls =>
      let out := perform threaded s call
      Harmless s call ∧ match out.2 with
        | .crashed _ => True
        | _ => HarmlessRun threaded out.1 calls

/-- The call did not wait for ever, and if it ended both mutexes are unlocked. -/
def Disciplined (out : Interpreter Obj × Exit) : Prop :=
  out.2 ≠ .blocked ∧ ((∃ r, out.2 = .returned r) ∨ (∃ m, out.2 = .threw m) → Released out.1)

omit [DecidableEq Obj] in
/-- A call that ends is disciplined when the mutexes are unlocked behind it. -/
theorem disciplined_of_ends {out : Interpreter Obj × Exit}
    (h : (∃ r, out.2 = .returned r) ∨ ∃ m, out.2 = .threw m) : Disciplined out ↔ Released out.1 := by
  constructor
  · intro hdisc
    exact hdisc.2 h
  · intro hreleased
    refine ⟨?_, fun _ => hreleased⟩
    rintro hblocked
    rcases h with ⟨r, hr⟩ | ⟨m, hm⟩
    · rw [hblocked] at hr
      cases hr
    · rw [hblocked] at hm
      cases hm

/-- `table` on an object locks one mutex, and leaves it locked when its scan
raises an exception. -/
theorem table_disciplined_iff {s : Interpreter Obj} (hwf : WellFormed s) (h : Released s) (obj : Obj)
    (scan : Scan) : Disciplined (table true s (some obj) scan) ↔ ¬ scan.Croaks s.ttydevs := by
  have hfree : (true && s.mutexTable) = false := by rw [h.2]; rfl
  obtain ⟨a, htabled⟩ := table_spec true hwf obj scan hfree
  have hexit := htabled.exit
  have hmutex := htabled.mutexTable
  have hnew := htabled.mutexNew.trans h.1
  unfold Scan.Croaks
  cases hends : scan.ends s.ttydevs with
  | none =>
      rw [hends] at hexit hmutex
      rw [disciplined_of_ends (Or.inl ⟨_, hexit⟩)]
      exact iff_of_true ⟨hnew, hmutex⟩ fun ⟨_, hcroak⟩ => (by cases hcroak)
  | some f =>
      rw [hends] at hexit hmutex
      have hlocked : ¬ Released (table true s (some obj) scan).1 := by
        intro hreleased
        rw [hreleased.2] at hmutex
        cases hmutex
      cases f with
      | croak message =>
          rw [disciplined_of_ends (Or.inr ⟨_, hexit⟩)]
          exact iff_of_false hlocked fun hno => hno ⟨message, rfl⟩
      | hang | nullDeref | overflow | badArgument =>
          refine iff_of_true ⟨?_, ?_⟩ fun ⟨_, hcroak⟩ => (by cases hcroak)
          · rw [hexit]
            exact Exit.noConfusion
          · rintro (⟨r, hr⟩ | ⟨m, hm⟩)
            · rw [hexit] at hr
              cases hr
            · rw [hexit] at hm
              cases hm

omit [DecidableEq Obj] in
/-- `new` locks the other mutex, and leaves it locked when `initialize` dies. -/
theorem new_disciplined_iff {s : Interpreter Obj} (h : Released s) (opts : Options)
    (answer : Point → Bool) (error : String) (ttydevs : Option HV) :
    Disciplined (new true s opts answer error ttydevs) ↔ Initializes opts answer := by
  have hfree : ¬ (true && s.mutexNew) = true := by rw [h.1]; exact Bool.false_ne_true
  unfold new
  rw [if_neg hfree, ← initializeSelf_iff]
  dsimp only
  cases initializeSelf opts answer
  · rw [if_neg Bool.false_ne_true, disciplined_of_ends (Or.inr ⟨error, rfl⟩)]
    exact iff_of_false (fun hreleased => Bool.noConfusion hreleased.1) Bool.false_ne_true
  · rw [if_pos rfl, disciplined_of_ends (Or.inl ⟨none, rfl⟩)]
    exact iff_of_true ⟨rfl, h.2⟩ rfl

/-- `fields` ends as the `table` does that it calls. -/
theorem fields_disciplined_iff {s : Interpreter Obj} (obj : Obj) (scan : Scan)
    (hfields : s.fields = none) : Disciplined (fields true s (some obj) scan) ↔
      Disciplined (table true s (some obj) scan) := by
  unfold fields
  rw [hfields]
  dsimp only
  cases hout : table true s (some obj) scan with
  | mk s' exit =>
      cases exit with
      | returned r =>
          rw [disciplined_of_ends (Or.inl ⟨none, rfl⟩), disciplined_of_ends (Or.inl ⟨r, rfl⟩)]
      | threw m => exact Iff.rfl
      | blocked => exact Iff.rfl
      | crashed f => exact Iff.rfl

/-- **One call from unlocked mutexes** leaves them unlocked, if it ends, exactly
when it is harmless. -/
theorem perform_disciplined_iff {s : Interpreter Obj} (hwf : WellFormed s) (h : Released s)
    (call : Call Obj) : Disciplined (perform true s call) ↔ Harmless s call := by
  have hthrew : ∀ m, Disciplined (s, Exit.threw m) := fun m =>
    (disciplined_of_ends (Or.inr ⟨m, rfl⟩)).mpr h
  cases call with
  | new opts answer error ttydevs => exact new_disciplined_iff h opts answer error ttydevs
  | table obj scan =>
      cases obj with
      | none => exact iff_of_true (hthrew _) fun hobj => absurd rfl hobj
      | some obj =>
          refine (table_disciplined_iff hwf h obj scan).trans ?_
          exact ⟨fun hno _ => hno, fun hno => hno (Option.some_ne_none obj)⟩
  | fields obj scan =>
      cases obj with
      | none => exact iff_of_true (hthrew _) fun hobj => absurd rfl hobj
      | some obj =>
          cases hfields : s.fields with
          | some names =>
              have hknown : perform true s (.fields (some obj) scan) = (s, .returned none) := by
                unfold perform fields
                rw [hfields]
              rw [hknown, disciplined_of_ends (Or.inl ⟨none, rfl⟩)]
              refine iff_of_true h fun _ hnone => ?_
              rw [hfields] at hnone
              cases hnone
          | none =>
              refine (fields_disciplined_iff obj scan hfields).trans
                ((table_disciplined_iff hwf h obj scan).trans ?_)
              exact ⟨fun hno _ _ => hno, fun hno => hno (Option.some_ne_none obj) hfields⟩

/-- The calls of a sequence are disciplined as long as they are harmless. -/
theorem trace_disciplined_iff {s : Interpreter Obj} (hwf : WellFormed s) (h : Released s)
    (calls : List (Call Obj)) :
    (∀ out ∈ trace true s calls, Disciplined out) ↔ HarmlessRun true s calls := by
  induction calls generalizing s with
  | nil => exact iff_of_true (fun _ hout => absurd hout List.not_mem_nil) trivial
  | cons call calls ih =>
      have hstep := perform_disciplined_iff hwf h call
      have hwf' := (perform_orderly true hwf call).wellFormed
      rw [trace, HarmlessRun]
      by_cases hharmless : Harmless s call
      · have hdisc := hstep.mpr hharmless
        cases hexit : (perform true s call).2 with
        | crashed f =>
            rw [List.forall_mem_singleton]
            exact iff_of_true hdisc ⟨hharmless, trivial⟩
        | blocked => exact absurd hexit hdisc.1
        | returned r =>
            have hreleased := hdisc.2 (Or.inl ⟨r, hexit⟩)
            rw [List.forall_mem_cons, ih hwf' hreleased]
            exact and_congr_left' (iff_of_true hdisc hharmless)
        | threw m =>
            have hreleased := hdisc.2 (Or.inr ⟨m, hexit⟩)
            rw [List.forall_mem_cons, ih hwf' hreleased]
            exact and_congr_left' (iff_of_true hdisc hharmless)
      · have hdisc : ¬ Disciplined (perform true s call) := fun hd => hharmless (hstep.mp hd)
        refine iff_of_false (fun hall => hdisc (hall _ ?_)) fun hrun => hharmless hrun.1
        split <;> exact List.mem_cons_self

/-- **The lock discipline of a threaded build.**  In a sequence of calls every
call gets its mutex, and leaves both unlocked when it returns or throws, if and
only if every call is harmless where it is made. -/
theorem locks_released_iff (calls : List (Call Obj)) :
    (∀ out ∈ trace true Interpreter.init calls, Disciplined out) ↔
      HarmlessRun true Interpreter.init calls :=
  trace_disciplined_iff WellFormed.init ⟨rfl, rfl⟩ calls

end

/-- A `new` with `cache_ttys` that finds no cache, cannot rename its file into
place, and finds no cache then. -/
def renameFails : Call Unit :=
  .new ⟨true, true⟩
    (fun p => p ≠ .testCache && p ≠ .rename && p ≠ .retestCache)
    "Renaming /tmp/ProcessTable_abcdefgh to /tmp/TTYDEVS_12345678 failed: Permission denied"
    none

/-- A `table` whose port passes a format that `bless_into_proc` does not know. -/
def scanCroaks : Call Unit := .table (some ()) ⟨[⟨['x'], ["pid"], []⟩], none⟩

/-- An exception on the way leaves a mutex locked, and the next call waits for
it for ever: `new` behind a `new` that died, `table` behind a `table` that did. -/
theorem exception_leaves_lock :
    (trace true Interpreter.init [renameFails, renameFails]).map Prod.snd =
      [.threw
        "Renaming /tmp/ProcessTable_abcdefgh to /tmp/TTYDEVS_12345678 failed: Permission denied",
       .blocked] ∧
    (trace true Interpreter.init [scanCroaks, scanCroaks]).map Prod.snd =
      [.threw "Unknown data format type `x' returned from OS_get_table", .blocked] := by
  decide

end ProcessTable
