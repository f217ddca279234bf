import ProcProcessTable.TableThreads

/-!
# What the mutex of a threaded build is good for

Whatever the order of the steps, the calls have the effect of calls that are made
one at a time.  `atomic` is that order: an event of `table` fills one array at once,
with the objects of its own scan and the terminals of its own thread.

`fields` reads without the mutex.  It gets all names, or none when nothing was named
at its call.
-/

namespace ProcessTable

open Xs CText Initialize Interleaving

/-- Calls behind calls that went well add their objects. -/
theorem madeAll_append {ttydevs : Option HV} {done : List BlessCall}
    (hclean : (madeAll ttydevs done).2 = none) (calls : List BlessCall) :
    madeAll ttydevs (done ++ calls) =
      ((madeAll ttydevs done).1 ++ (madeAll ttydevs calls).1, (madeAll ttydevs calls).2) := by
  induction done with
  | nil => rfl
  | cons c done ih =>
      rw [List.cons_append, madeAll, madeAll] at *
      cases hc : c.made ttydevs with
      | mk objs fault =>
          rw [hc] at hclean
          cases fault with
          | some f => cases hclean
          | none =>
              dsimp only at hclean ⊢
              rw [ih hclean, List.append_assoc]

namespace Threads

/-- Calls that are made one at a time: the arrays of the objects, the names, each
`%TTYDEVS`, what was named when a thread called `fields`, and whether an exception
has left the mutex locked. -/
structure Atomic (Thread Obj : Type) where
  contents : Thread → Obj → Option (List HV)
  names : Option (List String × Nat)
  hashes : Thread → Option HV
  began : Thread → Option (List String × Nat)
  closed : Bool

section

variable {Thread Obj : Type}

def Atomic.init : Atomic Thread Obj where
  contents := fun _ _ => none
  names := none
  hashes := fun _ => none
  began := fun _ => none
  closed := false

/-- The names `fields` may return, and the room it needs for them. -/
def Atomic.Offers (a : Atomic Thread Obj) (t : Thread) (names : List String) (extended : Nat) : Prop :=
  (∃ fields n, a.names = some (fields, n) ∧ names = fields.take n ∧ names.length = n ∧
    (n ≤ extended ∨ a.began t = none)) ∨ names = [] ∧ a.began t = none

def Atomic.Allowed (a : Atomic Thread Obj) : Event Thread Obj → Prop
  | .table t _ scan result =>
      a.closed = false ∧ scan.ends (a.hashes t) = none ∧ result = scan.objects (a.hashes t) ∧
        (result ≠ [] → a.names ≠ none)
  | .threw t _ scan message => a.closed = false ∧ scan.ends (a.hashes t) = some (.croak message)
  | .named _ _ => a.names = none
  | .fieldsCalled _ => True
  | .fields t names extended => a.Offers t names extended
  | .initialized _ _ => True

variable [DecidableEq Thread] [DecidableEq Obj]

/-- The array behind an object is replaced. -/
def Atomic.fill (a : Atomic Thread Obj) (t : Thread) (obj : Obj) (objects : List HV) :
    Atomic Thread Obj :=
  { a with
    contents := Function.update a.contents t (Function.update (a.contents t) obj (some objects)) }

def Atomic.next (a : Atomic Thread Obj) : Event Thread Obj → Atomic Thread Obj
  | .table t obj scan _ => a.fill t obj (scan.objects (a.hashes t))
  | .threw t obj scan _ => { a.fill t obj (scan.objects (a.hashes t)) with closed := true }
  | .named fields n => { a with names := some (fields, n) }
  | .fieldsCalled t => { a with began := Function.update a.began t a.names }
  | .fields _ _ _ => a
  | .initialized t ttydevs => { a with hashes := Function.update a.hashes t ttydevs }

/-- The calls, one at a time. -/
def atomic : Spec (Atomic Thread Obj) (Event Thread Obj) where
  allowed := Atomic.Allowed
  next := Atomic.next

/-- The table of the call holds its objects. -/
theorem Atomic.fill_self (a : Atomic Thread Obj) (t : Thread) (obj : Obj) (objects : List HV) :
    (a.fill t obj objects).contents t obj = some objects := by
  unfold Atomic.fill
  dsimp only
  rw [Function.update_self, Function.update_self]

/-- The other tables of the thread hold what they held. -/
theorem Atomic.fill_of_ne (a : Atomic Thread Obj) (t : Thread) {obj obj' : Obj} (h : obj' ≠ obj)
    (objects : List HV) : (a.fill t obj objects).contents t obj' = a.contents t obj' := by
  unfold Atomic.fill
  dsimp only
  rw [Function.update_self, Function.update_of_ne h]

/-- And so do the tables of other threads. -/
theorem Atomic.fill_other (a : Atomic Thread Obj) {t u : Thread} (h : u ≠ t) (obj : Obj)
    (objects : List HV) : (a.fill t obj objects).contents u = a.contents u :=
  Function.update_of_ne h _ _

end

/-! ## What a thread knows -/

section

variable {Thread Obj : Type}

/-- The call of `table` a thread is in, from `mutex_table(1)` on. -/
def Place.errand : Place Obj → Option (Errand Obj)
  | .getTtydevs e | .getProclist e | .clearTable e | .storeTable e | .scanning e _
  | .setFields e _ _ | .setNumfields e _ _ | .converting e _ _ _ | .pushing e _ _ _ | .makeRef e
  | .unlockTable e _ | .crashed e => some e
  | _ => none

/-- The array of an object holds what the calls have put there, unless the thread is
about to change it. -/
def Coupled (t : Thread) (l : Place Obj) (s : Shared Thread Obj) (a : Atomic Thread Obj) : Prop :=
  ∀ obj, (∀ e, l.errand = some e → e.obj ≠ obj) →
    (s.tables t obj).map s.arrays = a.contents t obj

/-- No thread is between the assignments to `Fields` and `Numfields`. -/
def Settled (s : Shared Thread Obj) (a : Atomic Thread Obj) : Prop :=
  s.fields = none ∨ a.names ≠ none

/-- The thread has the mutex, and no exception has come before. -/
structure Inside (t : Thread) (s : Shared Thread Obj) (a : Atomic Thread Obj) : Prop where
  holds : s.mutexTable = some t
  opened : a.closed = false

/-- `Ttydevs` points to the thread's own hash, if it has one. -/
def OwnTtydevs (t : Thread) (s : Shared Thread Obj) : Prop :=
  s.ttydevs = (s.hashes t).map fun _ => t

/-- The scan is under way: `Proclist` points to the array of the object, and these
calls have filled it. -/
structure Filling (t : Thread) (e : Errand Obj) (done calls : List BlessCall)
    (s : Shared Thread Obj) (a : Atomic Thread Obj) (x : Nat) : Prop where
  inside : Inside t s a
  ttydevs : OwnTtydevs t s
  proclist : s.proclist = some x
  table : s.tables t e.obj = some x
  array : s.arrays x = (madeAll (s.hashes t) done).1
  clean : (madeAll (s.hashes t) done).2 = none
  split : e.scan.calls = done ++ calls
  named : done ≠ [] → a.names ≠ none

/-- The array is the next one, and behind no object yet. -/
structure Fresh (t : Thread) (obj : Obj) (s : Shared Thread Obj) (x : Nat) : Prop where
  proclist : s.proclist = some x
  missing : s.tables t obj = none
  unused : ∀ u o, s.tables u o ≠ some x
  allocated : x < s.nextArray
  empty : s.arrays x = []

/-- The loop of `bless_into_proc` ends as it would from its beginning. -/
def Walks (ttydevs : Option HV) (c : BlessCall) (w : Walk) : Prop :=
  blessLoop ttydevs w.format w.fields w.args w.myhash =
    blessLoop ttydevs (cstr c.format) c.fields c.args HV.empty

/-- The names read so far are the first of all. -/
def Reading (t : Thread) (a : Atomic Thread Obj) (extended : Nat) (names : List String)
    (n : Nat) : Prop :=
  ∃ fields, a.names = some (fields, n) ∧ names = fields.take names.length ∧ names.length ≤ n ∧
    (n ≤ extended ∨ a.began t = none)

/-- What a thread knows at its place, besides the contents of its arrays. -/
def Stage (t : Thread) (l : Place Obj) (s : Shared Thread Obj) (a : Atomic Thread Obj) : Prop :=
  match l with
  | .idle | .lockTable _ | .testFields _ _ | .extendStack | .strayed => True
  | .lockNew _ _ _ | .initializing _ _ _ | .unlockNew => True
  | .getTtydevs _ => Inside t s a ∧ Settled s a
  | .getProclist _ => Inside t s a ∧ Settled s a ∧ OwnTtydevs t s
  | .clearTable e =>
      Inside t s a ∧ Settled s a ∧ OwnTtydevs t s ∧
        ∃ x, s.proclist = some x ∧ s.tables t e.obj = some x
  | .storeTable e =>
      Inside t s a ∧ Settled s a ∧ OwnTtydevs t s ∧ ∃ x, Fresh t e.obj s x
  | .scanning e calls => Settled s a ∧ ∃ done x, Filling t e done calls s a x
  | .setFields e c calls =>
      (s.fields = none ∧ a.names = none) ∧ ∃ done x, Filling t e done (c :: calls) s a x
  | .setNumfields e c calls =>
      (s.fields = some c.fields ∧ a.names = none) ∧ ∃ done x, Filling t e done (c :: calls) s a x
  | .converting e c calls w =>
      (a.names ≠ none ∧ Walks (s.hashes t) c w) ∧ ∃ done x, Filling t e done (c :: calls) s a x
  | .pushing e c calls myhash =>
      (a.names ≠ none ∧ c.made (s.hashes t) = ([myhash], none)) ∧
        ∃ done x, Filling t e done (c :: calls) s a x
  | .makeRef e => (Settled s a ∧ e.scan.fault = none) ∧ ∃ x, Filling t e e.scan.calls [] s a x
  | .unlockTable e array =>
      (Settled s a ∧ e.scan.fault = none) ∧
        ∃ x, Filling t e e.scan.calls [] s a x ∧ array = some x
  | .crashed e => s.mutexTable = some t ∧ e.scan.ends (s.hashes t) ≠ none
  | .countNames extended names =>
      (∃ n, Reading t a extended names n) ∨ names = [] ∧ a.began t = none
  | .pushName extended names => ∃ n, Reading t a extended names n ∧ names.length < n

/-- What holds whoever is where. -/
structure Invariant (s : Shared Thread Obj) (a : Atomic Thread Obj) : Prop where
  allocated : ∀ t obj x, s.tables t obj = some x → x < s.nextArray
  apart : ∀ t obj u obj' x, s.tables t obj = some x → s.tables u obj' = some x → t = u ∧ obj = obj'
  hashes : a.hashes = s.hashes
  named : ∀ fields n, a.names = some (fields, n) → s.fields = some fields ∧ s.numfields = n
  unnamed : a.names = none → s.numfields = 0
  began : ∀ t names, a.began t = some names → a.names = some names
  settled : s.mutexTable = none → Settled s a
  opened : s.mutexTable = none → a.closed = false

/-- The variables that are changed with the mutex only are as they were. -/
structure Untouched (s : Shared Thread Obj) (a : Atomic Thread Obj) (s' : Shared Thread Obj)
    (a' : Atomic Thread Obj) : Prop where
  fields : s'.fields = s.fields
  numfields : s'.numfields = s.numfields
  ttydevs : s'.ttydevs = s.ttydevs
  proclist : s'.proclist = s.proclist
  arrays : s'.arrays = s.arrays
  nextArray : s'.nextArray = s.nextArray
  tables : s'.tables = s.tables
  contents : a'.contents = a.contents
  names : a'.names = a.names
  closed : a'.closed = a.closed

/-- What a step of a thread leaves to the others. -/
structure Guarantee (t : Thread) (s : Shared Thread Obj) (a : Atomic Thread Obj)
    (s' : Shared Thread Obj) (a' : Atomic Thread Obj) : Prop where
  hashes : ∀ u, u ≠ t → s'.hashes u = s.hashes u
  tables : ∀ u, u ≠ t → s'.tables u = s.tables u
  arrays : ∀ u, u ≠ t → ∀ obj x, s.tables u obj = some x → s'.arrays x = s.arrays x
  contents : ∀ u, u ≠ t → a'.contents u = a.contents u
  began : ∀ u, u ≠ t → a'.began u = a.began u
  names : ∀ names, a.names = some names → a'.names = some names
  mutexTable : ∀ u, u ≠ t → s.mutexTable = some u → s'.mutexTable = some u
  untouched : s.mutexTable ≠ some t → Untouched s a s' a'

/-- What a thread knows at its place. -/
structure Knows (t : Thread) (l : Place Obj) (s : Shared Thread Obj) (a : Atomic Thread Obj) :
    Prop where
  coupled : Coupled t l s a
  stage : Stage t l s a

/-! ## The steps of other threads -/

section

variable {t u : Thread} {s s' : Shared Thread Obj} {a a' : Atomic Thread Obj}

/-- While `u` holds the mutex no other thread changes what the mutex is for. -/
theorem Guarantee.untouchedBy (h : Guarantee t s a s' a') (hu : u ≠ t)
    (hholds : s.mutexTable = some u) : Untouched s a s' a' :=
  h.untouched fun ht => hu (Option.some.inj (hholds.symm.trans ht))

/-- A thread inside stays inside while others move. -/
theorem Inside.stable (h : Inside u s a) (hu : u ≠ t) (hg : Guarantee t s a s' a') :
    Inside u s' a' :=
  ⟨hg.mutexTable u hu h.holds, (hg.untouchedBy hu h.holds).closed.trans h.opened⟩

/-- Whether the names are settled is read from these variables. -/
theorem Settled.congr (h : Settled s a) (hun : Untouched s a s' a') : Settled s' a' := by
  unfold Settled
  rw [hun.fields, hun.names]
  exact h

/-- The terminal table of `u` stays its own while it is inside. -/
theorem OwnTtydevs.stable (h : OwnTtydevs u s) (hu : u ≠ t) (hg : Guarantee t s a s' a')
    (hun : Untouched s a s' a') : OwnTtydevs u s' := by
  unfold OwnTtydevs
  rw [hun.ttydevs, hg.hashes u hu]
  exact h

/-- A new array stays new. -/
theorem Fresh.congr {obj : Obj} {x : Nat} (h : Fresh u obj s x) (hun : Untouched s a s' a') :
    Fresh u obj s' x := by
  refine ⟨hun.proclist.trans h.proclist, ?_, fun v o => ?_, ?_, ?_⟩
  · rw [hun.tables]
    exact h.missing
  · rw [hun.tables]
    exact h.unused v o
  · rw [hun.nextArray]
    exact h.allocated
  · rw [hun.arrays]
    exact h.empty

/-- **A table that is half filled** is not disturbed. -/
theorem Filling.stable {e : Errand Obj} {done calls : List BlessCall} {x : Nat}
    (h : Filling u e done calls s a x) (hu : u ≠ t) (hg : Guarantee t s a s' a') :
    Filling u e done calls s' a' x := by
  have hun := hg.untouchedBy hu h.inside.holds
  refine ⟨h.inside.stable hu hg, h.ttydevs.stable hu hg hun, hun.proclist.trans h.proclist, ?_, ?_, ?_,
    h.split, fun hdone => hun.names ▸ h.named hdone⟩
  · rw [hun.tables]
    exact h.table
  · rw [hun.arrays, hg.hashes u hu]
    exact h.array
  · rw [hg.hashes u hu]
    exact h.clean

/-- `fields()` reads without the mutex: the names do not change once they are known. -/
theorem Reading.stable {extended n : Nat} {names : List String} (h : Reading u a extended names n)
    (hu : u ≠ t) (hg : Guarantee t s a s' a') : Reading u a' extended names n := by
  obtain ⟨fields, hnames, htake, hle, hroom⟩ := h
  refine ⟨fields, hg.names _ hnames, htake, hle, ?_⟩
  rw [hg.began u hu]
  exact hroom

/-- No other thread changes the tables of `u`. -/
theorem Coupled.stable {l : Place Obj} (h : Coupled u l s a) (hu : u ≠ t)
    (hg : Guarantee t s a s' a') : Coupled u l s' a' := by
  intro obj hobj
  rw [hg.tables u hu, hg.contents u hu, ← h obj hobj]
  cases htable : s.tables u obj with
  | none => rfl
  | some x => exact congrArg some (hg.arrays u hu obj x htable)

/-- **What a thread knows at its place, another thread does not undo.** -/
theorem Stage.stable {l : Place Obj} (h : Stage u l s a) (hu : u ≠ t)
    (hg : Guarantee t s a s' a') : Stage u l s' a' := by
  have hfilling : ∀ {e : Errand Obj} {done calls : List BlessCall} {x : Nat},
      Filling u e done calls s a x → Filling u e done calls s' a' x ∧ Untouched s a s' a' :=
    fun hf => ⟨hf.stable hu hg, hg.untouchedBy hu hf.inside.holds⟩
  cases l with
  | idle | lockTable | testFields | extendStack | strayed | lockNew | initializing | unlockNew =>
      trivial
  | getTtydevs e =>
      obtain ⟨hin, hset⟩ := h
      exact ⟨hin.stable hu hg, hset.congr (hg.untouchedBy hu hin.holds)⟩
  | getProclist e =>
      obtain ⟨hin, hset, htty⟩ := h
      have hun := hg.untouchedBy hu hin.holds
      exact ⟨hin.stable hu hg, hset.congr hun, htty.stable hu hg hun⟩
  | clearTable e =>
      obtain ⟨hin, hset, htty, x, hptr, htable⟩ := h
      have hun := hg.untouchedBy hu hin.holds
      refine ⟨hin.stable hu hg, hset.congr hun, htty.stable hu hg hun, x, hun.proclist.trans hptr, ?_⟩
      rw [hun.tables]
      exact htable
  | storeTable e =>
      obtain ⟨hin, hset, htty, x, hfresh⟩ := h
      have hun := hg.untouchedBy hu hin.holds
      exact ⟨hin.stable hu hg, hset.congr hun, htty.stable hu hg hun, x, hfresh.congr hun⟩
  | scanning e calls =>
      obtain ⟨hset, done, x, hf⟩ := h
      obtain ⟨hf', hun⟩ := hfilling hf
      exact ⟨hset.congr hun, done, x, hf'⟩
  | setFields e c calls =>
      obtain ⟨⟨hfields, hnames⟩, done, x, hf⟩ := h
      obtain ⟨hf', hun⟩ := hfilling hf
      exact ⟨⟨hun.fields.trans hfields, hun.names.trans hnames⟩, done, x, hf'⟩
  | setNumfields e c calls =>
      obtain ⟨⟨hfields, hnames⟩, done, x, hf⟩ := h
      obtain ⟨hf', hun⟩ := hfilling hf
      exact ⟨⟨hun.fields.trans hfields, hun.names.trans hnames⟩, done, x, hf'⟩
  | converting e c calls w =>
      obtain ⟨⟨hnames, hwalks⟩, done, x, hf⟩ := h
      obtain ⟨hf', hun⟩ := hfilling hf
      refine ⟨⟨hun.names ▸ hnames, ?_⟩, done, x, hf'⟩
      rw [hg.hashes u hu]
      exact hwalks
  | pushing e c calls myhash =>
      obtain ⟨⟨hnames, hmade⟩, done, x, hf⟩ := h
      obtain ⟨hf', hun⟩ := hfilling hf
      refine ⟨⟨hun.names ▸ hnames, ?_⟩, done, x, hf'⟩
      rw [hg.hashes u hu]
      exact hmade
  | makeRef e =>
      obtain ⟨⟨hset, hfault⟩, x, hf⟩ := h
      obtain ⟨hf', hun⟩ := hfilling hf
      exact ⟨⟨hset.congr hun, hfault⟩, x, hf'⟩
  | unlockTable e array =>
      obtain ⟨⟨hset, hfault⟩, x, hf, harray⟩ := h
      obtain ⟨hf', hun⟩ := hfilling hf
      exact ⟨⟨hset.congr hun, hfault⟩, x, hf', harray⟩
  | crashed e =>
      refine ⟨hg.mutexTable u hu h.1, ?_⟩
      rw [hg.hashes u hu]
      exact h.2
  | countNames extended names =>
      rcases h with ⟨n, hreading⟩ | ⟨hnil, hbegan⟩
      · exact Or.inl ⟨n, hreading.stable hu hg⟩
      · exact Or.inr ⟨hnil, (hg.began u hu).trans hbegan⟩
  | pushName extended names =>
      obtain ⟨n, hreading, hlt⟩ := h
      exact ⟨n, hreading.stable hu hg, hlt⟩

/-- The two parts of what a thread knows. -/
theorem Knows.stable {l : Place Obj} (h : Knows u l s a) (hu : u ≠ t)
    (hg : Guarantee t s a s' a') : Knows u l s' a' :=
  ⟨h.coupled.stable hu hg, h.stage.stable hu hg⟩

end

end

end Threads

end ProcessTable
