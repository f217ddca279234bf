import ProcProcessTable.LinuxTable
import ProcProcessTable.ObjectCalls

/-!
# The scan of the Linux port

`table` knows a port by the calls of `bless_into_proc` it makes and the fault it
ends with.  Here are those of the Linux port: one call for each row that is
published (`scanOf`), and `osGetTable_scanOf` says that nothing else of
`OS_get_table` reaches the interpreter.
-/

namespace Linux

open CText MemPool Xs

/-- The call of `bless_into_proc` that publishes a row. -/
def Row.call (upper : Field → UInt32) (r : Row) : ProcessTable.BlessCall :=
  ⟨r.formatStr, fieldKeys, blessArgs upper (fun text => text ++ [nul]) r.prs⟩

/-- The scan of a list of directory entries. -/
def scanOf (port : Port) : List DirEntry → ProcessTable.Scan
  | [] => ⟨[], none⟩
  | e :: entries =>
      match Row.scrape port e with
      | .notPid => scanOf port entries
      | .gone => scanOf port entries
      | .fault f => ⟨[], some f⟩
      | .ready r => ⟨r.call e.upper :: (scanOf port entries).calls, (scanOf port entries).fault⟩

/-- A run stays where it met a fault. -/
theorem Row.table_fault (port : Port) (entries : List DirEntry) (xs : Interp) (f : Fault) :
    Row.table port entries (xs, some f) = (xs, some f) := by
  induction entries with
  | nil => rfl
  | cons e entries ih => exact ih

end Linux

namespace ProcessTable

open CText MemPool Xs

variable {Obj : Type}

/-- What the extension sees of the interpreter while `Proclist` points at an
array. -/
def Interpreter.interp (s : Interpreter Obj) (a : Nat) : Interp := ⟨s.fields, s.ttydevs, s.arrays a⟩

/-- The interpreter with what the extension left. -/
def Interpreter.withInterp (s : Interpreter Obj) (a : Nat) (xs : Interp) : Interpreter Obj :=
  { s with fields := xs.fields, arrays := Function.update s.arrays a xs.proclist }

/-- What is put back unchanged changes nothing. -/
theorem Interpreter.withInterp_self (s : Interpreter Obj) (a : Nat) :
    s.withInterp a (s.interp a) = s := by
  unfold Interpreter.withInterp Interpreter.interp
  rw [Function.update_eq_self]

/-- Of two states the last one stays. -/
theorem Interpreter.withInterp_withInterp (s : Interpreter Obj) (a : Nat) (xs xs' : Interp) :
    (s.withInterp a xs).withInterp a xs' = s.withInterp a xs' := by
  unfold Interpreter.withInterp
  rw [Function.update_idem]

/-- What is put in comes out. -/
theorem Interpreter.interp_withInterp (s : Interpreter Obj) (a : Nat) {xs : Interp}
    (h : xs.ttydevs = s.ttydevs) : (s.withInterp a xs).interp a = xs := by
  unfold Interpreter.withInterp Interpreter.interp
  exact Interp.ext rfl h.symm (Function.update_self a _ _)

/-- **A call on the interpreter** is a call on the part of it that the port sees. -/
theorem bless_eq (c : BlessCall) {s : Interpreter Obj} {a : Nat} (ha : s.proclist = some a) :
    bless c s = (s.withInterp a (blessIntoProc c.format c.fields c.args (s.interp a)).1,
      (blessIntoProc c.format c.fields c.args (s.interp a)).2) := by
  obtain ⟨mutexNew, mutexTable, fields, ttydevs, proclist, arrays, nextArray, tables⟩ := s
  obtain rfl : proclist = some a := ha
  rfl

/-- The rows of the Linux port do to the array `Proclist` points at what its scan
does. -/
theorem osGetTable_rows (port : Linux.Port) (entries : List Linux.DirEntry) {s : Interpreter Obj}
    {a : Nat} (ha : s.proclist = some a) :
    osGetTable (Linux.scanOf port entries) s =
      (s.withInterp a (Linux.Row.table port entries (s.interp a, none)).1,
        (Linux.Row.table port entries (s.interp a, none)).2) := by
  induction entries generalizing s with
  | nil =>
      have hnone : osGetTable (Linux.scanOf port []) s = (s, none) := rfl
      rw [hnone]
      exact Prod.ext (s.withInterp_self a).symm rfl
  | cons e entries ih =>
      have hstep : Linux.Row.table port (e :: entries) (s.interp a, none) =
          Linux.Row.table port entries (Linux.Row.step port (s.interp a) e) := rfl
      rw [hstep]
      unfold Linux.scanOf Linux.Row.step
      cases Linux.Row.scrape port e with
      | notPid => exact ih ha
      | gone => exact ih ha
      | fault f =>
          dsimp only
          rw [Linux.Row.table_fault]
          exact Prod.ext (s.withInterp_self a).symm rfl
      | ready r =>
          dsimp only
          have hbless : bless (r.call e.upper) s =
              (s.withInterp a (r.bless e.upper (s.interp a)).1, (r.bless e.upper (s.interp a)).2) :=
            bless_eq (r.call e.upper) ha
          have htty : (r.bless e.upper (s.interp a)).1.ttydevs = s.ttydevs := by
            unfold Linux.Row.bless
            rw [blessIntoProc_frame]
            exact Interp.setFields_ttydevs _ _ _
          unfold osGetTable
          dsimp only
          rw [blessAll, hbless]
          cases hout : r.bless e.upper (s.interp a) with
          | mk xs fault =>
              rw [hout] at htty
              cases fault with
              | some f =>
                  dsimp only
                  rw [Linux.Row.table_fault]
              | none =>
                  have hrest := @ih (s.withInterp a xs) ha
                  rw [s.interp_withInterp a htty, s.withInterp_withInterp] at hrest
                  exact hrest

/-- **The Linux port does to the interpreter what its scan does**: it pushes the
objects of its calls to the array `Proclist` points at and remembers the names,
and ends with the fault of the scan. -/
theorem osGetTable_scanOf (port : Linux.Port) (res : Residue (Linux.Procstat Nat))
    (entries : List Linux.DirEntry) {s : Interpreter Obj} {a : Nat} (ha : s.proclist = some a) :
    osGetTable (Linux.scanOf port entries) s =
      (s.withInterp a (Linux.osGetTable port res (some entries) (s.interp a)).xs,
        (Linux.osGetTable port res (some entries) (s.interp a)).fault) := by
  have hrows := Linux.osGetTable_refines port res (s.interp a) entries
  rw [osGetTable_rows port entries ha, ← hrows]

end ProcessTable
