import ProcProcessTable.ArgumentLoop
import ProcProcessTable.CallRows
import ProcProcessTable.ScanLoop

/-!
# The process table of SunOS

`OS_get_table` of `SunOS.c` asks `kvm_nextproc` for one process after the other and
passes those over whose u-area or credentials it cannot read.  It joins the arguments
with `strncat`, which stays inside the array, and puts the blanks behind them with
`strcat`, which may not.  The number of a state is looked up in `States` without a check.
The answer of the last `kvm_read`, for the session, is not
looked at.

`table_listed` says which processes end a scan, and what the others are
published with.
-/

namespace SunOs

open CText Xs ProcessTable ArgumentLoop

def Format : List Char := "iiiiiiiiiiiiissllsiii".toList

def Fields : List String :=
  ["uid", "gid", "euid", "egid", "pid", "ppid", "pgrp", "priority", "flags", "size", "rss", "nice",
    "time", "fname", "cmndline", "cpticks", "pctcpu", "state", "sess", "sid", "ttynum"]

def States : List String := ["", "sleep", "wait", "run", "idle", "zombie", "stop"]

/-- The members of `struct proc` that are read. -/
structure Proc where
  pPid : Int32
  pPpid : Int32
  pPgrp : Int32
  pPri : Int32
  pFlag : Int32
  pDsize : Int32
  pSsize : Int32
  pRssize : Int32
  pNice : Int32
  pTime : Int32
  pCpticks : Int32
  pPctcpu : Int32
  pStat : Int8

/-- The members of `struct ucred` that are read. -/
structure Ucred where
  crRuid : Int32
  crRgid : Int32
  crUid : Int32
  crGid : Int32

/-- The members of `struct sess` that are read. -/
structure Sess where
  sSid : Int32
  sTtyd : UInt32

/-- A process, and what the kernel answers about it: the command of its u-area, its
arguments, its credentials and its session; `none` where the call fails. -/
structure Entry where
  proc : Proc
  comm : Option Mem
  argv : Option (List Mem)
  cred : Option Ucred
  sess : Option Sess

/-- The constants of the system, what it makes of a device number, and the upper halves
of the 4-byte arguments, by their places in the call. -/
structure Machine where
  POSIX_ARG_MAX : Nat
  POSIX_PATH_MAX : Nat
  minor : UInt32 → Int32
  major : UInt32 → Int32
  upper : Nat → UInt32
  argMax_pos : 0 < POSIX_ARG_MAX

/-- The variables of `OS_get_table` that outlive a turn of the loop. -/
structure Locals (m : Machine) where
  sess : Sess
  cmdline : CharArray m.POSIX_ARG_MAX
  fname : CharArray m.POSIX_PATH_MAX

/-- The `while` loop over the arguments. -/
def joinArgs {size : Nat} : List Mem → CharArray size → Except Fault (CharArray size)
  | [], cmdline => .ok cmdline
  | arg :: argv, cmdline => do
      let count := size - strlen cmdline.bytes - 1
      let cmdline ← inBounds (cmdline.strncat arg count)
      let cmdline ← appendBlank (fun _ => strcat) cmdline argv
      joinArgs argv cmdline

/-- The file name and the command line. -/
def getTexts (m : Machine) (comm : Mem) (argv : Option (List Mem)) (s : Locals m) :
    Except Fault (Locals m) :=
  let fname := CharArray.cleared m.POSIX_PATH_MAX
  match argv with
  | none => do
      let fname ← inBounds (fname.sprintf (cstr comm))
      let cmdline ← inBounds (s.cmdline.sprintf (cstr comm))
      return { s with fname := fname, cmdline := cmdline }
  | some [] => .error .nullDeref
  | some (arg :: argv) => do
      let fname ← inBounds (fname.sprintf (cstr arg))
      let cmdline ← joinArgs (arg :: argv) (CharArray.cleared m.POSIX_ARG_MAX)
      return { s with fname := fname, cmdline := cmdline }

/-- A `long` has 32 bits there, as an `int` has. -/
def long (x : Int32) : Slot := .word x.toInt64.toUInt64

/-- The minor device number; -1 without a terminal. -/
def ttynum (m : Machine) (sess : Sess) : Int32 :=
  if m.major sess.sTtyd = 0 then -1 else m.minor sess.sTtyd

/-- The arguments behind `Format` and `Fields`. -/
def args (m : Machine) (p : Proc) (state : String) (cr : Ucred) (sess : Sess)
    (fname cmdline : Mem) : List Slot :=
  [half (m.upper 0) cr.crRuid.toUInt32,
    half (m.upper 1) cr.crRgid.toUInt32,
    half (m.upper 2) cr.crUid.toUInt32,
    half (m.upper 3) cr.crGid.toUInt32,
    half (m.upper 4) p.pPid.toUInt32,
    half (m.upper 5) p.pPpid.toUInt32,
    half (m.upper 6) p.pPgrp.toUInt32,
    half (m.upper 7) p.pPri.toUInt32,
    half (m.upper 8) p.pFlag.toUInt32,
    half (m.upper 9) ((p.pDsize + p.pSsize) * 4).toUInt32,
    half (m.upper 10) (p.pRssize * 4).toUInt32,
    half (m.upper 11) p.pNice.toUInt32,
    half (m.upper 12) p.pTime.toUInt32,
    .ptr (some fname),
    .ptr (some cmdline),
    long p.pCpticks,
    long p.pPctcpu,
    .ptr (some (state.toList ++ [nul])),
    half (m.upper 18) sess.sSid.toUInt32,
    half (m.upper 19) sess.sSid.toUInt32,
    half (m.upper 20) (ttynum m sess).toUInt32]

/-- `States[(int)p->p_stat]`, which no check keeps inside the table. -/
def Proc.state (p : Proc) : Option String := wordAt States p.pStat.toInt

/-- One turn of the loop. -/
def visit (m : Machine) (s : Locals m) (e : Entry) : Locals m × Except Fault (Option BlessCall) :=
  match e.comm with
  | none => (s, .ok none)
  | some comm =>
      match getTexts m comm e.argv s with
      | .error f => (s, .error f)
      | .ok s =>
          match e.cred with
          | none => (s, .ok none)
          | some cr =>
              -- where the session cannot be read the variable keeps the one before
              let s := { s with sess := e.sess.getD s.sess }
              match e.proc.state with
              | none => (s, .error .overflow)
              | some state => (s, .ok (some ⟨Format ++ [nul], Fields,
                  args m e.proc state cr s.sess s.fname.bytes s.cmdline.bytes⟩))

/-- `OS_get_table`; the kernel may not be opened. -/
def osGetTable (m : Machine) (kvmOpen : Option (List Entry)) (residue : Locals m) : Scan :=
  match kvmOpen with
  | none => ⟨[], some (.croak "kvm_open: can't open kernel")⟩
  | some procs => loopScan (visit m) residue procs

/-! ### The arguments -/

section

variable {size : Nat}

/-- The argument and the blank. -/
theorem joinArgs_next (a : CharArray size) (arg next : Mem) (argv : List Mem)
    (hroom : strlen a.bytes + strlen arg + 1 < size) :
    ∃ a', a'.string = a.string ++ cstr arg ++ [' '] ∧
      strlen a'.bytes = strlen a.bytes + strlen arg + 1 ∧
      joinArgs (arg :: next :: argv) a = joinArgs (next :: argv) a' := by
  have harg : (cstr arg).length = strlen arg := rfl
  have hcount : strlen a.bytes + (size - strlen a.bytes - 1) + 1 ≤ size := by omega
  obtain ⟨mid, hmid, hstring⟩ := a.string_strncat arg hcount
  rw [List.take_of_length_le (by omega)] at hstring
  have hmidLen : strlen mid.bytes = strlen a.bytes + strlen arg := CharArray.strlen_of_string hstring
  have hblank : strlen [' ', nul] = 1 := rfl
  obtain ⟨a', ha', hstring'⟩ := appends_strcat 2 mid [' ', nul] (by rw [hmidLen, hblank]; exact hroom)
  have hall : a'.string = a.string ++ cstr arg ++ [' '] := by
    rw [hstring', hstring]
    rfl
  refine ⟨a', hall, ?_, ?_⟩
  · rw [CharArray.strlen_of_string hstring', hmidLen]
    rfl
  · rw [joinArgs, hmid]
    show (appendBlank (fun _ => strcat) mid (next :: argv) >>= _) = _
    dsimp only at ha'
    rw [appendBlank, ha']
    rfl

/-- An argument that fills the array leaves no room for the blank. -/
theorem joinArgs_full (a : CharArray size) (ha : strlen a.bytes < size) (arg next : Mem)
    (argv : List Mem) (hfull : size ≤ strlen a.bytes + strlen arg + 1) :
    joinArgs (arg :: next :: argv) a = .error .overflow := by
  have harg : (cstr arg).length = strlen arg := rfl
  have hcount : strlen a.bytes + (size - strlen a.bytes - 1) + 1 ≤ size := by omega
  obtain ⟨mid, hmid, hstring⟩ := a.string_strncat arg hcount
  have hmidLen := CharArray.strlen_of_string hstring
  rw [List.length_take] at hmidLen
  have hblank : strlen [' ', nul] = 1 := rfl
  have hover : strcat mid [' ', nul] = .error .overflow := by
    apply strcat_overflow
    omega
  rw [joinArgs, hmid]
  show (appendBlank (fun _ => strcat) mid (next :: argv) >>= _) = _
  rw [appendBlank, hover]
  rfl

/-- **The loop over the arguments** joins them and cuts the end off, unless the blank
behind one of them does not fit. -/
theorem joinArgs_spec (argv : List Mem) (a : CharArray size) (ha : strlen a.bytes < size) :
    (strlen a.bytes + used argv.dropLast < size →
      ∃ out, joinArgs argv a = .ok out ∧
        out.string = a.string ++ (joined argv).take (size - 1 - strlen a.bytes)) ∧
    (size ≤ strlen a.bytes + used argv.dropLast → joinArgs argv a = .error .overflow) := by
  induction argv generalizing a with
  | nil =>
      refine ⟨fun _ => ⟨a, rfl, ?_⟩, fun hfull => ?_⟩
      · have hnone : joined [] = [] := rfl
        rw [hnone, List.take_nil, List.append_nil]
      · rw [List.dropLast_nil, used_nil] at hfull
        omega
  | cons arg argv ih =>
      cases argv with
      | nil =>
          refine ⟨fun _ => ?_, fun hfull => ?_⟩
          · have hcount : strlen a.bytes + (size - strlen a.bytes - 1) + 1 ≤ size := by omega
            obtain ⟨out, hout, hstring⟩ := a.string_strncat arg hcount
            refine ⟨out, ?_, ?_⟩
            · rw [joinArgs, hout]
              rfl
            · rw [hstring, joined_singleton, Nat.sub_right_comm]
          · rw [List.dropLast_singleton, used_nil] at hfull
            omega
      | cons next argv =>
          rw [List.dropLast_cons_of_ne_nil (List.cons_ne_nil next argv), used_cons]
          by_cases hroom : strlen a.bytes + strlen arg + 1 < size
          · obtain ⟨a', hstring, hlen, hloop⟩ := joinArgs_next a arg next argv hroom
            obtain ⟨hfits, hfull⟩ := ih a' (by omega)
            rw [hloop]
            rw [hlen] at hfits hfull
            refine ⟨fun h => ?_, fun h => hfull (by omega)⟩
            obtain ⟨out, hout, hjoined⟩ := hfits (by omega)
            refine ⟨out, hout, ?_⟩
            have hargLen : (cstr arg).length = strlen arg := rfl
            have hleft : size - 1 - strlen a.bytes =
                (cstr arg).length + (size - 1 - (strlen a.bytes + strlen arg + 1) + 1) := by omega
            rw [hjoined, hstring, joined_cons_cons, hleft, List.take_length_add_append,
              List.take_succ_cons, List.append_assoc, List.append_assoc]
            rfl
          · refine ⟨fun h => by omega, fun _ => ?_⟩
            exact joinArgs_full a ha arg next argv (by omega)

end

/-! ### One turn -/

/-- The file name of a process. -/
def fnameOf (comm : Mem) : Option (List Mem) → List Char
  | some (arg :: _) => cstr arg
  | _ => cstr comm

/-- Its command line. -/
def cmndlineOf (m : Machine) (comm : Mem) : Option (List Mem) → List Char
  | some argv => (joined argv).take (m.POSIX_ARG_MAX - 1)
  | none => cstr comm

/-- A name or a command line does not fit, or there is no argument to take the name
from. -/
def Unfit (m : Machine) (comm : Mem) : Option (List Mem) → Prop
  | none => m.POSIX_PATH_MAX ≤ strlen comm ∨ m.POSIX_ARG_MAX ≤ strlen comm
  | some [] => True
  | some (arg :: argv) =>
      m.POSIX_PATH_MAX ≤ strlen arg ∨ m.POSIX_ARG_MAX ≤ used (arg :: argv).dropLast

/-- A cleared array is empty. -/
theorem strlen_cleared (size : Nat) : strlen (CharArray.cleared size).bytes = 0 := by
  cases size with
  | zero => rfl
  | succ n => exact congrArg List.length (cstr_terminated List.not_mem_nil (List.replicate n nul))

/-- **The texts of a process.** -/
theorem getTexts_spec (m : Machine) (comm : Mem) (argv : Option (List Mem)) (s : Locals m) :
    (¬ Unfit m comm argv → ∃ s', getTexts m comm argv s = .ok s' ∧ s'.sess = s.sess ∧
      s'.fname.string = fnameOf comm argv ∧ s'.cmdline.string = cmndlineOf m comm argv) ∧
    (Unfit m comm argv → ∃ f, getTexts m comm argv s = .error f) := by
  have hprint : ∀ {size : Nat} (a : CharArray size) (text : Mem),
      (strlen text < size → ∃ a', a.sprintf (cstr text) = some a' ∧ a'.string = cstr text) ∧
        (size ≤ strlen text → a.sprintf (cstr text) = none) := fun a text =>
    ⟨fun h => a.string_sprintf h (nul_not_mem_cstr text), fun h => a.sprintf_of_le h⟩
  unfold getTexts
  dsimp only
  cases argv with
  | none =>
      obtain ⟨hname, hlongName⟩ := hprint (CharArray.cleared m.POSIX_PATH_MAX) comm
      obtain ⟨hline, hlongLine⟩ := hprint s.cmdline comm
      refine ⟨fun hfit => ?_, fun hunfit => ?_⟩
      · obtain ⟨hshort, hshort'⟩ := not_or.mp hfit
        obtain ⟨fname, hfname, hstring⟩ := hname (Nat.lt_of_not_le hshort)
        obtain ⟨cmdline, hcmdline, hstring'⟩ := hline (Nat.lt_of_not_le hshort')
        rw [hfname, hcmdline]
        exact ⟨_, rfl, rfl, hstring, hstring'⟩
      · by_cases hlong : m.POSIX_PATH_MAX ≤ strlen comm
        · rw [hlongName hlong]
          exact ⟨_, rfl⟩
        · obtain ⟨fname, hfname, _⟩ := hname (Nat.lt_of_not_le hlong)
          rw [hfname, hlongLine (hunfit.resolve_left hlong)]
          exact ⟨_, rfl⟩
  | some argv =>
      cases argv with
      | nil => exact ⟨fun hfit => absurd trivial hfit, fun _ => ⟨_, rfl⟩⟩
      | cons arg argv =>
          dsimp only
          obtain ⟨hname, hlongName⟩ := hprint (CharArray.cleared m.POSIX_PATH_MAX) arg
          have hclear := strlen_cleared m.POSIX_ARG_MAX
          have hempty : (CharArray.cleared m.POSIX_ARG_MAX).string = [] :=
            List.eq_nil_of_length_eq_zero hclear
          obtain ⟨hjoins, hlongLine⟩ := joinArgs_spec (arg :: argv)
            (CharArray.cleared m.POSIX_ARG_MAX) (by rw [hclear]; exact m.argMax_pos)
          rw [hclear, Nat.zero_add] at hjoins hlongLine
          refine ⟨fun hfit => ?_, fun hunfit => ?_⟩
          · obtain ⟨hshort, hshort'⟩ := not_or.mp hfit
            obtain ⟨fname, hfname, hstring⟩ := hname (Nat.lt_of_not_le hshort)
            obtain ⟨cmdline, hcmdline, hstring'⟩ := hjoins (Nat.lt_of_not_le hshort')
            rw [hempty, List.nil_append] at hstring'
            rw [hfname]
            refine ⟨{ s with fname := fname, cmdline := cmdline }, ?_, rfl, hstring, hstring'⟩
            show (joinArgs (arg :: argv) (CharArray.cleared m.POSIX_ARG_MAX) >>= _) = _
            rw [hcmdline]
            rfl
          · by_cases hlong : m.POSIX_PATH_MAX ≤ strlen arg
            · rw [hlongName hlong]
              exact ⟨_, rfl⟩
            · obtain ⟨fname, hfname, _⟩ := hname (Nat.lt_of_not_le hlong)
              rw [hfname]
              refine ⟨.overflow, ?_⟩
              show (joinArgs (arg :: argv) (CharArray.cleared m.POSIX_ARG_MAX) >>= _) = _
              rw [hlongLine (hunfit.resolve_left hlong)]
              rfl

/-- The number of the state is the place of a word. -/
def Proc.Known (p : Proc) : Prop := 0 ≤ p.pStat.toInt ∧ p.pStat.toInt < States.length

instance (p : Proc) : Decidable p.Known := inferInstanceAs (Decidable (_ ∧ _))

/-- When the word is read outside the table. -/
theorem Proc.state_none_iff (p : Proc) : p.state = none ↔ ¬ p.Known :=
  wordAt_none_iff States p.pStat.toInt

/-- The word for the state. -/
def Proc.word (p : Proc) : String := p.state.getD ""

/-- A process ends the scan. -/
def Entry.Faults (m : Machine) (e : Entry) : Prop :=
  ∃ comm, e.comm = some comm ∧ (Unfit m comm e.argv ∨ (e.cred ≠ none ∧ ¬ e.proc.Known))

/-- What a process is published with. -/
structure Listed where
  proc : Proc
  cred : Ucred
  sess : Sess
  fname : List Char
  cmndline : List Char

/-- A process whose u-area and credentials can be read is on the list, with its own
session or the one that was read last. -/
def Entry.listed (m : Machine) (sess : Sess) (e : Entry) : Option Listed :=
  match e.comm, e.cred with
  | some comm, some cr =>
      some ⟨e.proc, cr, e.sess.getD sess, fnameOf comm e.argv, cmndlineOf m comm e.argv⟩
  | _, _ => none

def listed (m : Machine) : Sess → List Entry → List Listed
  | _, [] => []
  | sess, e :: procs =>
      match e.listed m sess with
      | some x => x :: listed m x.sess procs
      | none => listed m sess procs

/-- The call for a process, with the texts themselves in the place of the arrays. -/
def callOf (m : Machine) (x : Listed) : BlessCall :=
  ⟨Format ++ [nul], Fields,
    args m x.proc x.proc.word x.cred x.sess (x.fname ++ [nul]) (x.cmndline ++ [nul])⟩

def rows (m : Machine) (x : Listed) : List CallRow :=
  callRows Format Fields
    (args m x.proc x.proc.word x.cred x.sess (x.fname ++ [nul]) (x.cmndline ++ [nul]))

/-- The call of a turn, as a row of names, characters and slots. -/
theorem callOf_rows (m : Machine) (x : Listed) : (callOf m x).Rows (rows m x) :=
  BlessCall.rows_of rfl rfl rfl rfl

/-- Of the arrays only the strings get into a call. -/
theorem call_made (m : Machine) (x : Listed) {fname cmdline : Mem} (hfname : cstr fname = cstr x.fname)
    (hcmdline : cstr cmdline = cstr x.cmndline) (ttydevs : Option HV) :
    BlessCall.made ⟨Format ++ [nul], Fields,
        args m x.proc x.proc.word x.cred x.sess fname cmdline⟩ ttydevs =
      ([(callOf m x).object ttydevs], none) := by
  have hrows : BlessCall.Rows ⟨Format ++ [nul], Fields,
        args m x.proc x.proc.word x.cred x.sess fname cmdline⟩
      (callRows Format Fields (args m x.proc x.proc.word x.cred x.sess fname cmdline)) :=
    BlessCall.rows_of rfl rfl rfl rfl
  have hstrings : (args m x.proc x.proc.word x.cred x.sess fname cmdline).map stringSlot =
      (args m x.proc x.proc.word x.cred x.sess (x.fname ++ [nul])
        (x.cmndline ++ [nul])).map stringSlot := by
    have hset : ∀ f c : Mem, (args m x.proc x.proc.word x.cred x.sess f c).map stringSlot =
        (((args m x.proc x.proc.word x.cred x.sess [] []).map stringSlot).set 13
          (.ptr (some (cstr f)))).set 14 (.ptr (some (cstr c))) := fun _ _ => rfl
    rw [hset, hset (x.fname ++ [nul]), hfname, hcmdline, cstr_append_nul, cstr_append_nul]
  rw [hrows.made_object, hrows.object_strings, (callOf_rows m x).object_strings]
  dsimp only
  rw [hstrings]
  rfl

/-- Such a process ends the scan. -/
theorem visit_fault (m : Machine) (s : Locals m) {e : Entry} (h : e.Faults m) :
    ∃ f, (visit m s e).2 = .error f := by
  obtain ⟨comm, hcomm, hbad⟩ := h
  unfold visit
  rw [hcomm]
  dsimp only
  by_cases hunfit : Unfit m comm e.argv
  · obtain ⟨f, hf⟩ := (getTexts_spec m comm e.argv s).2 hunfit
    rw [hf]
    exact ⟨f, rfl⟩
  · obtain ⟨hcred, hunknown⟩ := hbad.resolve_left hunfit
    obtain ⟨s', htexts, -⟩ := (getTexts_spec m comm e.argv s).1 hunfit
    obtain ⟨cr, hcr⟩ := Option.ne_none_iff_exists'.mp hcred
    rw [htexts, hcr]
    dsimp only
    rw [e.proc.state_none_iff.mpr hunknown]
    exact ⟨.overflow, rfl⟩

/-- **One turn** that does not end the scan. -/
theorem visit_listed (m : Machine) (s : Locals m) {e : Entry} (h : ¬ e.Faults m) :
    (∀ ttydevs, turn ttydevs (visit m s e).2 =
      ((e.listed m s.sess).toList.map fun x => (callOf m x).object ttydevs, none)) ∧
    (visit m s e).1.sess = ((e.listed m s.sess).map Listed.sess).getD s.sess := by
  unfold visit Entry.listed
  cases hcomm : e.comm with
  | none => exact ⟨fun _ => rfl, rfl⟩
  | some comm =>
      have hfit : ¬ Unfit m comm e.argv := fun hunfit => h ⟨comm, hcomm, Or.inl hunfit⟩
      obtain ⟨s', htexts, hsess, hfname, hcmdline⟩ := (getTexts_spec m comm e.argv s).1 hfit
      dsimp only
      rw [htexts]
      dsimp only
      cases hcred : e.cred with
      | none => exact ⟨fun _ => rfl, hsess⟩
      | some cr =>
          have hknown : e.proc.state ≠ none := fun hnone => h ⟨comm, hcomm, Or.inr
            ⟨by rw [hcred]; exact Option.some_ne_none cr, e.proc.state_none_iff.mp hnone⟩⟩
          obtain ⟨state, hstate⟩ := Option.ne_none_iff_exists'.mp hknown
          have hword : state = e.proc.word := by
            rw [Proc.word, hstate]
            rfl
          dsimp only
          rw [hsess, hstate, hword]
          refine ⟨fun ttydevs => turn_call ?_, rfl⟩
          let x : Listed :=
            ⟨e.proc, cr, e.sess.getD s.sess, fnameOf comm e.argv, cmndlineOf m comm e.argv⟩
          have hname : cstr s'.fname.bytes = cstr x.fname := by
            show s'.fname.string = cstr (fnameOf comm e.argv)
            rw [← hfname]
            exact (cstr_cstr s'.fname.bytes).symm
          have hline : cstr s'.cmdline.bytes = cstr x.cmndline := by
            show s'.cmdline.string = cstr (cmndlineOf m comm e.argv)
            rw [← hcmdline]
            exact (cstr_cstr s'.cmdline.bytes).symm
          exact call_made m x hname hline ttydevs

/-- **A whole scan.** -/
theorem scan_listed (m : Machine) (ttydevs : Option HV) (procs : List Entry) (s : Locals m) :
    ((loopScan (visit m) s procs).ends ttydevs = none ↔ ∀ e ∈ procs, ¬ e.Faults m) ∧
    ((∀ e ∈ procs, ¬ e.Faults m) → (loopScan (visit m) s procs).objects ttydevs =
      (listed m s.sess procs).map fun x => (callOf m x).object ttydevs) := by
  induction procs generalizing s with
  | nil => exact ⟨iff_of_true rfl fun e he => absurd he List.not_mem_nil, fun _ => rfl⟩
  | cons e procs ih =>
      have hcons := Scan.collect_cons ttydevs (visit m s e).2
        (CarriedState.outputs (visit m) (visit m s e).1 procs)
      rw [List.forall_mem_cons]
      by_cases hfault : e.Faults m
      · obtain ⟨f, hf⟩ := visit_fault m s hfault
        rw [hf] at hcons
        have hends : (loopScan (visit m) s (e :: procs)).ends ttydevs = some f := by
          unfold loopScan
          rw [CarriedState.outputs, hf]
          exact congrArg Prod.snd hcons
        rw [hends]
        exact ⟨iff_of_false (Option.some_ne_none f) fun h => h.1 hfault, fun h => absurd hfault h.1⟩
      · obtain ⟨hturn, hsess⟩ := visit_listed m s hfault
        obtain ⟨hends, hobjects⟩ := ih (visit m s e).1
        rw [hturn] at hcons
        obtain ⟨hall, hlast⟩ := Prod.mk.inj hcons
        rw [and_iff_right hfault]
        refine ⟨(iff_of_eq (congrArg (· = none) hlast)).trans hends, fun hrest => ?_⟩
        have hlater := hobjects hrest
        refine hall.trans ?_
        rw [loopScan] at hlater
        rw [hlater, hsess, listed]
        cases e.listed m s.sess with
        | none => rfl
        | some x => rfl

/-- The object has the value of each field. -/
def Published (m : Machine) (x : Listed) (obj : HV) : Prop :=
  ∀ row ∈ rows m x, obj row.key = some (shown row.char row.slot).1

theorem fields_nodup : Fields.Nodup := by decide

theorem fields_no_ttydev : "ttydev" ∉ Fields := by decide

/-- What the call makes is the process. -/
theorem callOf_published (m : Machine) (ttydevs : Option HV) (x : Listed) :
    Published m x ((callOf m x).object ttydevs) := by
  have hrows := callOf_rows m x
  have hkeys : (rows m x).map CallRow.key = Fields := hrows.fields.symm
  intro row hrow
  apply hrows.object_row ttydevs (hkeys.symm ▸ fields_nodup) hrow
  intro htty
  apply fields_no_ttydev
  rw [← hkeys, ← htty]
  exact List.mem_map_of_mem hrow

/-- Where the list of some processes ends, the list of the next ones goes on with the
session of the last. -/
theorem listed_append (m : Machine) (sess : Sess) (front back : List Entry) :
    listed m sess (front ++ back) = listed m sess front ++
      listed m (((listed m sess front).getLast?.map Listed.sess).getD sess) back := by
  induction front generalizing sess with
  | nil => rfl
  | cons e front ih =>
      rw [List.cons_append, listed, listed]
      cases e.listed m sess with
      | none => exact ih sess
      | some x =>
          dsimp only
          rw [ih x.sess, List.cons_append, List.getLast?_cons]
          cases (listed m x.sess front).getLast? with
          | none => rfl
          | some y => rfl

/-- A machine with small arrays. -/
def sampleMachine : Machine where
  POSIX_ARG_MAX := 32
  POSIX_PATH_MAX := 16
  minor dev := (dev &&& 0xff).toInt32
  major dev := (dev >>> 8).toInt32
  upper _ := 0
  argMax_pos := by decide

/-- A process that sleeps. -/
def sleeping (pid : Int32) : Proc where
  pPid := pid
  pPpid := 1
  pPgrp := pid
  pPri := 26
  pFlag := 0
  pDsize := 10
  pSsize := 2
  pRssize := 20
  pNice := 20
  pTime := 3
  pCpticks := 0
  pPctcpu := 0
  pStat := 1

/-- A shell on a terminal, and behind it a process whose session cannot be read. -/
def shell : Entry where
  proc := sleeping 70
  comm := some ("sh".toList ++ [nul])
  argv := some ["-sh".toList ++ [nul], "-i".toList ++ [nul]]
  cred := some ⟨100, 10, 100, 10⟩
  sess := some ⟨70, 0x1403⟩

def detached : Entry where
  proc := sleeping 71
  comm := some ("cron".toList ++ [nul])
  argv := none
  cred := some ⟨0, 0, 0, 0⟩
  sess := none

def sampleLocals : Locals sampleMachine := ⟨⟨0, 0⟩, .cleared 32, .cleared 16⟩

theorem shell_fits : ¬ shell.Faults sampleMachine := by
  rintro ⟨comm, -, (hname | hline) | ⟨-, hunknown⟩⟩
  · exact absurd hname (by decide)
  · exact absurd hline (by decide)
  · exact hunknown (by decide)

theorem detached_fits : ¬ detached.Faults sampleMachine := by
  rintro ⟨comm, hcomm, (hname | hline) | ⟨-, hunknown⟩⟩
  · obtain rfl := Option.some.inj hcomm
    exact absurd hname (by decide)
  · obtain rfl := Option.some.inj hcomm
    exact absurd hline (by decide)
  · exact hunknown (by decide)

end SunOs
