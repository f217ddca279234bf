import ProcProcessTable.ObjectCalls
import ProcProcessTable.Interleaving

/-!
# A build with PROCESSTABLE_THREAD

The threads of a process share the static variables of the extension, and each
has an interpreter of its own: its objects, its arrays, its `%TTYDEVS`.  `table`
works between `mutex_table(1)` and `mutex_table(0)`, `new` between the calls of
`mutex_new`, and `fields` takes no mutex but in the `table` it may call.

`advance` is the code as it runs between the threads: a step reads or writes one of
the shared variables.  `bless_into_proc` is one step a format character.
-/

namespace ProcessTable.Threads

open Xs CText Initialize Interleaving

/-- The static variables, and the memory behind them. -/
structure Shared (Thread Obj : Type) where
  mutexNew : Option Thread
  mutexTable : Option Thread
  fields : Option (List String)
  numfields : Nat
  /-- the thread whose `%TTYDEVS` it points to -/
  ttydevs : Option Thread
  proclist : Option Nat
  hashes : Thread → Option HV
  arrays : Nat → List HV
  nextArray : Nat
  tables : Thread → Obj → Option Nat

/-- A call of `table`, by the program or by `fields`. -/
structure Errand (Obj : Type) where
  obj : Obj
  scan : Scan
  forFields : Bool

/-- The `while` loop of `bless_into_proc`: what is left of the format, the names and
the arguments, and the hash so far. -/
structure Walk where
  format : List Char
  fields : List String
  args : List Slot
  myhash : HV

/-- Where a thread stands. -/
inductive Place (Obj : Type)
  | idle
  /-- in `table`, before `mutex_table(1)` -/
  | lockTable (e : Errand Obj)
  | getTtydevs (e : Errand Obj)
  | getProclist (e : Errand Obj)
  | clearTable (e : Errand Obj)
  | storeTable (e : Errand Obj)
  /-- in `OS_get_table`, before these calls of `bless_into_proc` -/
  | scanning (e : Errand Obj) (calls : List BlessCall)
  | setFields (e : Errand Obj) (c : BlessCall) (calls : List BlessCall)
  | setNumfields (e : Errand Obj) (c : BlessCall) (calls : List BlessCall)
  | converting (e : Errand Obj) (c : BlessCall) (calls : List BlessCall) (w : Walk)
  | pushing (e : Errand Obj) (c : BlessCall) (calls : List BlessCall) (myhash : HV)
  | makeRef (e : Errand Obj)
  | unlockTable (e : Errand Obj) (array : Option Nat)
  /-- in `table`, and it will never go on -/
  | crashed (e : Errand Obj)
  /-- in `fields` -/
  | testFields (obj : Obj) (scan : Scan)
  | extendStack
  | countNames (extended : Nat) (names : List String)
  | pushName (extended : Nat) (names : List String)
  /-- in `fields`, and it will never go on -/
  | strayed
  /-- in `new`, before `mutex_new(1)` -/
  | lockNew (opts : Options) (answer : Point → Bool) (ttydevs : Option HV)
  | initializing (opts : Options) (answer : Point → Bool) (ttydevs : Option HV)
  | unlockNew

/-- What a thread may do next. -/
inductive Request (Obj : Type)
  | new (opts : Options) (answer : Point → Bool) (ttydevs : Option HV)
  | table (obj : Obj) (scan : Scan)
  | fields (obj : Obj) (scan : Scan)

/-- What a thread lets the others see of its calls. -/
inductive Event (Thread Obj : Type)
  /-- `table` returns an array, and this is in it -/
  | table (t : Thread) (obj : Obj) (scan : Scan) (result : List HV)
  /-- `table` raises an exception -/
  | threw (t : Thread) (obj : Obj) (scan : Scan) (message : String)
  /-- `Numfields` is set for the names in `Fields` -/
  | named (fields : List String) (numfields : Nat)
  | fieldsCalled (t : Thread)
  /-- `fields` returns these names, with room for so many on the stack -/
  | fields (t : Thread) (names : List String) (extended : Nat)
  /-- `initialize` has filled `%TTYDEVS` -/
  | initialized (t : Thread) (ttydevs : Option HV)

section

variable {Thread Obj : Type}

/-- The place a call begins at. -/
def Request.place : Request Obj → Place Obj
  | .new opts answer ttydevs => .lockNew opts answer ttydevs
  | .table obj scan => .lockTable ⟨obj, scan, false⟩
  | .fields obj scan => .testFields obj scan

/-- What the beginning of a call shows. -/
def Request.event (t : Thread) : Request Obj → Option (Event Thread Obj)
  | .fields _ _ => some (.fieldsCalled t)
  | _ => none

/-- The hash behind `Ttydevs`. -/
def Shared.ttydevsHash (s : Shared Thread Obj) : Option HV := s.ttydevs.bind s.hashes

/-- A fault in `OS_get_table`: an exception leaves `table`, and everything else ends
the thread. -/
def Errand.fail (t : Thread) (e : Errand Obj) (s : Shared Thread Obj) :
    Fault → Option (Event Thread Obj) × Place Obj × Shared Thread Obj
  | .croak message => (some (.threw t e.obj e.scan message), .idle, s)
  | _ => (none, .crashed e, s)

variable [DecidableEq Thread] [DecidableEq Obj]

/-- One step of a thread that is in a call; `none` when it waits or is gone. -/
def advance (t : Thread) (l : Place Obj) (s : Shared Thread Obj) :
    Option (Option (Event Thread Obj) × Place Obj × Shared Thread Obj) :=
  match l with
  | .idle => none
  | .lockTable e =>
      match s.mutexTable with
      | none => some (none, .getTtydevs e, { s with mutexTable := some t })
      | some _ => none
  | .getTtydevs e =>
      some (none, .getProclist e, { s with ttydevs := (s.hashes t).map fun _ => t })
  | .getProclist e =>
      match s.tables t e.obj with
      | some a => some (none, .clearTable e, { s with proclist := some a })
      | none =>
          some (none, .storeTable e,
            { s with
              proclist := some s.nextArray
              arrays := Function.update s.arrays s.nextArray []
              nextArray := s.nextArray + 1 })
  | .clearTable e =>
      match s.proclist with
      | some a =>
          some (none, .scanning e e.scan.calls, { s with arrays := Function.update s.arrays a [] })
      | none => some (none, .crashed e, s)
  | .storeTable e =>
      some (none, .scanning e e.scan.calls,
        { s with
          tables := Function.update s.tables t (Function.update (s.tables t) e.obj s.proclist) })
  | .scanning e (c :: calls) =>
      match s.fields with
      | none => some (none, .setFields e c calls, s)
      | some _ => some (none, .converting e c calls ⟨cstr c.format, c.fields, c.args, HV.empty⟩, s)
  | .scanning e [] =>
      match e.scan.fault with
      | none => some (none, .makeRef e, s)
      | some f => some (e.fail t s f)
  | .setFields e c calls => some (none, .setNumfields e c calls, { s with fields := some c.fields })
  | .setNumfields e c calls =>
      some (some (.named c.fields (strlen c.format)),
        .converting e c calls ⟨cstr c.format, c.fields, c.args, HV.empty⟩,
        { s with numfields := strlen c.format })
  | .converting e c calls w =>
      match w.format, w.fields with
      | [], _ => some (none, .pushing e c calls w.myhash, s)
      | _ :: _, [] => some (e.fail t s .badArgument)
      | char :: format, key :: fields =>
          match convert char w.args with
          | .error f => some (e.fail t s f)
          | .ok (v, args) =>
              some (none,
                .converting e c calls
                  ⟨format, fields, args, storeField s.ttydevsHash key v w.myhash⟩, s)
  | .pushing e _ calls myhash =>
      match s.proclist with
      | some a =>
          some (none, .scanning e calls,
            { s with arrays := Function.update s.arrays a (s.arrays a ++ [myhash]) })
      | none => some (none, .crashed e, s)
  | .makeRef e => some (none, .unlockTable e s.proclist, s)
  | .unlockTable e (some a) =>
      some (some (.table t e.obj e.scan (s.arrays a)),
        if e.forFields then .extendStack else .idle, { s with mutexTable := none })
  | .unlockTable e none => some (none, .crashed e, s)
  | .crashed _ => none
  | .testFields obj scan =>
      match s.fields with
      | none => some (none, .lockTable ⟨obj, scan, true⟩, s)
      | some _ => some (none, .extendStack, s)
  | .extendStack => some (none, .countNames s.numfields [], s)
  | .countNames extended names =>
      if names.length < s.numfields then some (none, .pushName extended names, s)
      else some (some (.fields t names extended), .idle, s)
  | .pushName extended names =>
      match s.fields.bind fun fields => fields[names.length]? with
      | some name => some (none, .countNames extended (names ++ [name]), s)
      | none => some (none, .strayed, s)
  | .strayed => none
  | .lockNew opts answer ttydevs =>
      match s.mutexNew with
      | none => some (none, .initializing opts answer ttydevs, { s with mutexNew := some t })
      | some _ => none
  | .initializing opts answer ttydevs =>
      some (some (.initialized t ttydevs), if initializeSelf opts answer then .unlockNew else .idle,
        { s with hashes := Function.update s.hashes t ttydevs })
  | .unlockNew => some (none, .idle, { s with mutexNew := none })

/-- The steps of a thread: it begins a call, or goes on with one. -/
inductive Code (t : Thread) : Place Obj → Shared Thread Obj → Option (Event Thread Obj) → Place Obj →
    Shared Thread Obj → Prop
  | call (s : Shared Thread Obj) (r : Request Obj) : Code t .idle s (r.event t) r.place s
  | advance {l l' : Place Obj} {s s' : Shared Thread Obj} {e : Option (Event Thread Obj)}
      (h : advance t l s = some (e, l', s')) : Code t l s e l' s'

end

/-- The extension is loaded, and no thread is in it. -/
def start {Thread Obj : Type} : Config Thread (Place Obj) (Shared Thread Obj) where
  places := fun _ => .idle
  shared :=
    { mutexNew := none
      mutexTable := none
      fields := none
      numfields := 0
      ttydevs := none
      proclist := none
      hashes := fun _ => none
      arrays := fun _ => []
      nextArray := 0
      tables := fun _ _ => none }

end ProcessTable.Threads
