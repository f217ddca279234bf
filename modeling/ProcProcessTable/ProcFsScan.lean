import ProcProcessTable.CallRows
import ProcProcessTable.ScalarNumbers
import ProcProcessTable.ScanLoop
import ProcProcessTable.StructLayout

/-!
# The scan of /proc by its psinfo files

The ports for Solaris and UnixWare read the `psinfo` file of each process into
one struct that stands outside the loop.  So do the text for the state, which the
`switch` leaves as it is when it does not know the code, and on Solaris the count
of the threads, which is lowered by 2 also when the directory of the threads
could not be opened.  Solaris prints two percentages into arrays of 7 bytes.  Where a
`long` has 8 bytes, a number of 4 bytes or less leaves the upper half of its slot as it was.

A port is what the two loops differ in (`Port`).  `published_own_iff` says for which
entries what is published is their own, and `pids_nodup` that then no process is
published twice.
-/

namespace ProcFs

open CText Xs ProcessTable StructLayout

/-- An argument of the call of `bless_into_proc`. -/
inductive Arg
  /-- a number in `psbuf` -/
  | number (m : Member)
  /-- a number in `psbuf`, multiplied -/
  | scaled (m : Member) (factor : Nat)
  /-- a character array in `psbuf` -/
  | text (m : Member)
  /-- the array with what `sprintf` makes of a number in `psbuf` -/
  | printed (m : Member) (sprintf : UInt64 → List Char)
  | state
  | numthr

/-- The member of `psbuf` an argument is taken from. -/
def Arg.member : Arg → Option Member
  | .number m => some m
  | .scaled m _ => some m
  | .text m => some m
  | .printed m _ => some m
  | .state => none
  | .numthr => none

/-- The format character reads what the argument is. -/
def Arg.fits (c : Char) : Arg → Bool
  | .number _ => c = 'i' || c = 'l'
  | .scaled _ _ => c = 'i' || c = 'l'
  | .numthr => c = 'i'
  | .text _ => c = 's'
  | .printed _ _ => c = 's'
  | .state => c = 's'

/-- What a port's `OS_get_table` has of its own.  The member that ends last,
`pr_lwp.pr_onpro`, has 4 bytes. -/
structure Port where
  bigEndian : Bool
  /-- whether a `long` has 8 bytes; it has 4 otherwise, and no number more -/
  lp64 : Bool
  /-- `sizeof(struct psinfo)` -/
  sizeofPsinfo : Nat
  /-- whether the entries of the lwp directory are counted -/
  countsLwps : Bool
  format : List Char
  fields : List String
  args : List Arg
  prState : Member
  prPid : Member
  prOnpro : Member
  /-- the `switch` over the state -/
  states : List (UInt64 × String)
  format_nulFree : nul ∉ format
  fields_length : fields.length = format.length
  args_length : args.length = format.length
  fields_nodup : fields.Nodup
  fields_ttydev : "ttydev" ∉ fields
  fits : ∀ row ∈ format.zip (fields.zip args), row.2.2.fits row.1 = true
  state_row : ('s', "state", Arg.state) ∈ format.zip (fields.zip args)
  pid_row : ('i', "pid", Arg.number prPid) ∈ format.zip (fields.zip args)
  onpro_row : ('i', "onpro", Arg.number prOnpro) ∈ format.zip (fields.zip args)
  numthr_row : countsLwps = true → ('i', "numthr", Arg.numthr) ∈ format.zip (fields.zip args)
  numthr_counted : countsLwps = false → Arg.numthr ∉ args
  onpro_size : prOnpro.size = 4
  onpro_last : ∀ m ∈ args.filterMap Arg.member, m.stop ≤ prOnpro.stop
  state_before : prState.stop ≤ prOnpro.stop
  onpro_inside : prOnpro.stop ≤ sizeofPsinfo

/-- The variables of `OS_get_table` that outlive a turn of the loop. -/
structure Locals (port : Port) where
  psbuf : List UInt8
  psbuf_length : psbuf.length = port.sizeofPsinfo
  state : Mem
  numthr : Int32

/-- A directory entry, with what the system answers about it: the number of
entries of its lwp directory, if that can be opened, and the bytes that `read`
stores from its psinfo file, if that can.  And what is in the upper halves of the
slots in its call, field by field. -/
structure Entry where
  dName : Mem
  lwps : Option Nat
  psinfo : Option (List UInt8)
  upper : String → UInt32

/-- The entry, with something else in the upper halves. -/
def Entry.on (e : Entry) (upper : String → UInt32) : Entry := { e with upper := upper }

/-- `strtok(d_name, "0123456789") == NULL`. -/
def noToken (dName : Mem) : Bool := (cstr dName).all Char.isDigit

/-- The count of the threads. -/
def countLwps (port : Port) (numthr : Int32) (lwps : Option Nat) : Int32 :=
  if port.countsLwps then
    (match lwps with
    | some n => Int32.ofNat n
    | none => numthr) - 2
  else numthr

/-- The `switch` over the state. -/
def translate (port : Port) (state : Mem) (prState : UInt64) : Mem :=
  match port.states.lookup prState with
  | some text => strcpy state text.toList
  | none => state

/-- The slot of a number of the width of a member.  One of 8 bytes fills it, a smaller one
the lower half, and a slot of 4 bytes is read as a `long` as a whole. -/
def Member.slot (lp64 : Bool) (upper : UInt32) (m : Member) (n : Nat) : Slot :=
  if 4 < m.size then .word (m.extend n)
  else if lp64 then half upper (m.extend n).toUInt32
  else .word (m.extend n).toUInt32.toInt32.toInt64.toUInt64

/-- The slot of an argument. -/
def Arg.slot (port : Port) (upper : UInt32) (psbuf : List UInt8) (state : Mem) (numthr : Int32) :
    Arg → Slot
  | .number m => Member.slot port.lp64 upper m (StructLayout.number port.bigEndian (m.bytes psbuf))
  | .scaled m factor =>
      Member.slot port.lp64 upper m (StructLayout.number port.bigEndian (m.bytes psbuf) * factor)
  | .text m => .ptr (some ((m.bytes psbuf).map fun b => Char.ofNat b.toNat))
  | .printed m sprintf => .ptr (some (sprintf (m.word port.bigEndian psbuf) ++ [nul]))
  | .state => .ptr (some state)
  | .numthr => half upper numthr.toUInt32

/-- The call of `bless_into_proc`. -/
def call (port : Port) (upper : String → UInt32) (psbuf : List UInt8) (state : Mem)
    (numthr : Int32) : BlessCall where
  format := port.format
  fields := port.fields
  args := (port.fields.zip port.args).map fun arg =>
    arg.2.slot port (upper arg.1) psbuf state numthr

/-- `sizeof(pctcpu)`, and that of `pctmem`. -/
def sizeofPct : Nat := 7

/-- What `sprintf` prints leaves its array. -/
def Arg.overflows (port : Port) (psbuf : List UInt8) : Arg → Bool
  | .printed m sprintf => sizeofPct ≤ (sprintf (m.word port.bigEndian psbuf)).length
  | _ => false

/-- One turn of the loop. -/
def visit (port : Port) (s : Locals port) (e : Entry) :
    Locals port × Except Fault (Option BlessCall) :=
  if noToken e.dName = false then (s, .ok none)
  else
    let numthr := countLwps port s.numthr e.lwps
    match e.psinfo with
    | none => ({ s with numthr := numthr }, .ok none)
    | some bytes =>
        let psbuf := fill s.psbuf bytes
        let state := translate port s.state (port.prState.word port.bigEndian psbuf)
        (⟨psbuf, (length_fill s.psbuf bytes).trans s.psbuf_length, state, numthr⟩,
          if port.args.any (Arg.overflows port psbuf) then .error .overflow
          else .ok (some (call port e.upper psbuf state numthr)))

/-- `OS_get_table`, from what its variables hold on entry. -/
def osGetTable (port : Port) (procdir : Option (List Entry)) (residue : Locals port) : Scan :=
  match procdir with
  | none => ⟨[], none⟩
  | some entries => loopScan (visit port) residue entries

/-- What is published for an entry is its own: whatever is in the upper halves, in every
listing in which the scan gets to it, it gets further, and the entry adds the same to the
list, whatever stands behind it. -/
def PublishedOwn (port : Port) (ttydevs : Option HV) (e : Entry) (upper upper' : String → UInt32) :
    Prop :=
  ∃ objs, ∀ e' ∈ [e.on upper, e.on upper'], ∀ residue before,
    (osGetTable port (some before) residue).ends ttydevs = none →
      (osGetTable port (some (before ++ [e'])) residue).ends ttydevs = none ∧
        ∀ after, ∃ rest, (osGetTable port (some (before ++ e' :: after)) residue).objects ttydevs =
          (osGetTable port (some before) residue).objects ttydevs ++ objs ++
            (osGetTable port (some after) rest).objects ttydevs

/-- The argument is a number that does not fill its slot. -/
def Arg.isHalf : Arg → Bool
  | .number m => m.size ≤ 4
  | .scaled m _ => m.size ≤ 4
  | .numthr => true
  | _ => false

/-- Format, names and arguments side by side. -/
def Port.rows (port : Port) : List (Char × String × Arg) :=
  port.format.zip (port.fields.zip port.args)

/-- The fields of which the upper half of the slot is read. -/
def Port.widened (port : Port) : List String :=
  (port.rows.filter fun row => port.lp64 && row.1 = 'l' && row.2.2.isHalf).map fun row => row.2.1

/-- What an entry needs to be published from its own files: threads that can be
counted where they are, a psinfo file that is read as far as the port looks, a
state that the port knows, percentages that fit, and the same in the upper halves that
are read. -/
def Entry.Settles (port : Port) (e : Entry) (upper upper' : String → UInt32) : Prop :=
  noToken e.dName = true → ∀ bytes, e.psinfo = some bytes →
    (port.countsLwps = true → e.lwps ≠ none) ∧ port.prOnpro.stop ≤ bytes.length ∧
      port.prState.word port.bigEndian bytes ∈ port.states.map Prod.fst ∧
      port.args.any (Arg.overflows port bytes) = false ∧
      ∀ key ∈ port.widened, upper key = upper' key

/-- The pid in the psinfo file of an entry. -/
def ownPid (port : Port) (e : Entry) : Option SV :=
  if noToken e.dName = false then none
  else e.psinfo.map fun bytes =>
    .iv (port.prPid.word port.bigEndian bytes).toUInt32.toInt32.toInt

/-! ### The object of a call -/

section

variable (port : Port)

theorem Port.rows_snd : port.rows.map Prod.snd = port.fields.zip port.args := by
  have hzip : (port.fields.zip port.args).length = port.format.length := by
    rw [List.length_zip, port.fields_length, port.args_length, Nat.min_self]
  exact List.map_snd_zip hzip.le

theorem Port.rows_fields : port.rows.map (fun row => row.2.1) = port.fields := by
  have hlen : port.fields.length = port.args.length :=
    port.fields_length.trans port.args_length.symm
  have hfields := congrArg (List.map Prod.fst) port.rows_snd
  rw [List.map_map, List.map_fst_zip hlen.le] at hfields
  exact hfields

theorem Port.rows_args : port.rows.map (fun row => row.2.2) = port.args := by
  have hlen : port.fields.length = port.args.length :=
    port.fields_length.trans port.args_length.symm
  have hargs := congrArg (List.map Prod.snd) port.rows_snd
  rw [List.map_map, List.map_snd_zip hlen.ge] at hargs
  exact hargs

variable (upper : String → UInt32) (psbuf : List UInt8) (state : Mem) (numthr : Int32)

/-- A row of the call. -/
def Port.callRow (row : Char × String × Arg) : CallRow :=
  ⟨row.1, row.2.1, row.2.2.slot port (upper row.2.1) psbuf state numthr⟩

theorem slot_word (lp64 : Bool) (upper : UInt32) (m : Member) (n : Nat) :
    ∃ w, Member.slot lp64 upper m n = .word w := by
  unfold Member.slot
  split
  · exact ⟨_, rfl⟩
  · split
    · exact ⟨_, rfl⟩
    · exact ⟨_, rfl⟩

theorem reads_word {c : Char} (hc : (c = 'i' || c = 'l') = true) (w : UInt64) :
    reads c (.word w) = true := by
  have hor : c = 'i' ∨ c = 'l' := by simpa using hc
  rcases hor with rfl | rfl
  · rfl
  · rfl

theorem reads_callRow {row : Char × String × Arg} (hrow : row.2.2.fits row.1 = true) :
    reads (port.callRow upper psbuf state numthr row).char
      (port.callRow upper psbuf state numthr row).slot = true := by
  obtain ⟨c, key, arg⟩ := row
  have htext : ∀ m : Mem, decide (c = 's') = true → reads c (.ptr (some m)) = true := by
    intro m hc
    obtain rfl : c = 's' := of_decide_eq_true hc
    rfl
  have hnumber : ∀ (m : Member) (n : Nat), (c = 'i' || c = 'l') = true →
      reads c (Member.slot port.lp64 (upper key) m n) = true := by
    intro m n hc
    obtain ⟨w, hw⟩ := slot_word port.lp64 (upper key) m n
    rw [hw]
    exact reads_word hc w
  cases arg with
  | number m => exact hnumber m _ hrow
  | scaled m factor => exact hnumber m _ hrow
  | numthr =>
      obtain rfl : c = 'i' := of_decide_eq_true hrow
      rfl
  | text m => exact htext _ hrow
  | printed m sprintf => exact htext _ hrow
  | state => exact htext _ hrow

/-- **The rows of a call.** -/
theorem call_rows : (call port upper psbuf state numthr).Rows
    (port.rows.map (port.callRow upper psbuf state numthr)) := by
  have hzip : (port.fields.zip port.args).length = port.format.length := by
    rw [List.length_zip, port.fields_length, port.args_length, Nat.min_self]
  constructor
  · rw [List.map_map]
    exact (cstr_of_nulFree port.format_nulFree).trans (List.map_fst_zip hzip.ge).symm
  · rw [List.map_map]
    exact port.rows_fields.symm
  · unfold call
    dsimp only
    rw [← port.rows_snd, List.map_map, List.map_map]
    rfl
  · intro row hrow
    obtain ⟨row, hmem, rfl⟩ := List.mem_map.mp hrow
    exact reads_callRow port upper psbuf state numthr (port.fits row hmem)

/-- **A row is read back under its name.** -/
theorem object_row (ttydevs : Option HV) {row : Char × String × Arg} (hrow : row ∈ port.rows) :
    (call port upper psbuf state numthr).object ttydevs row.2.1 =
      some (shown row.1 (row.2.2.slot port (upper row.2.1) psbuf state numthr)).1 := by
  have hkeys : (port.rows.map (port.callRow upper psbuf state numthr)).map CallRow.key =
      port.fields := by
    rw [List.map_map]
    exact port.rows_fields
  have hkey : row.2.1 ∈ port.fields := by
    rw [← port.rows_fields]
    exact List.mem_map_of_mem hrow
  have hmem : port.callRow upper psbuf state numthr row ∈
      port.rows.map (port.callRow upper psbuf state numthr) := List.mem_map_of_mem hrow
  exact (call_rows port upper psbuf state numthr).object_row ttydevs
    (hkeys ▸ port.fields_nodup) hmem fun heq => port.fields_ttydev (heq ▸ hkey)

/-- The object depends on its arguments through what their rows show. -/
theorem object_congr (ttydevs : Option HV) {upper upper' : String → UInt32}
    {psbuf psbuf' : List UInt8} {state state' : Mem} {numthr numthr' : Int32}
    (h : ∀ row ∈ port.rows,
      shown row.1 (row.2.2.slot port (upper row.2.1) psbuf state numthr) =
        shown row.1 (row.2.2.slot port (upper' row.2.1) psbuf' state' numthr')) :
    (call port upper psbuf state numthr).object ttydevs =
      (call port upper' psbuf' state' numthr').object ttydevs := by
  apply (call_rows port upper psbuf state numthr).object_congr ttydevs
    (call_rows port upper' psbuf' state' numthr')
  rw [List.map_map, List.map_map]
  apply List.map_congr_left
  intro row hrow
  exact congrArg (Prod.mk row.2.1) (h row hrow)

end

/-! ### What a row shows of its slot -/

/-- What an `int` reads of a slot is its lower half. -/
theorem shown_int (w : UInt64) :
    shown 'i' (.word w) = (.iv w.toUInt32.toInt32.toInt, some w.toUInt32.toInt32.toInt64.toUInt64) :=
  rfl

/-- A widened `int` has its own 4 bytes in the lower half. -/
theorem toUInt32_widened (low : UInt32) : low.toInt32.toInt64.toUInt64.toUInt32 = low := by
  have hbits : (low.toBitVec.signExtend 64).setWidth 32 = low.toBitVec := by
    ext i hi
    rw [BitVec.getElem_setWidth, BitVec.getLsbD_signExtend]
    simp [hi, BitVec.getLsbD_eq_getElem]
    omega
  exact UInt32.toBitVec_inj.mp hbits

/-- The lower half of the slot of a number. -/
theorem slot_low (lp64 : Bool) (upper : UInt32) (m : Member) (n : Nat) :
    ∃ w : UInt64, Member.slot lp64 upper m n = .word w ∧ w.toUInt32 = (m.extend n).toUInt32 := by
  unfold Member.slot
  split
  · exact ⟨_, rfl, rfl⟩
  · split
    · exact ⟨_, rfl, toUInt32_slot _ _⟩
    · exact ⟨_, rfl, toUInt32_widened _⟩

/-- An `int` shows nothing of the upper half. -/
theorem shown_int_slot (lp64 : Bool) (upper upper' : UInt32) (m : Member) (n : Nat) :
    shown 'i' (Member.slot lp64 upper m n) = shown 'i' (Member.slot lp64 upper' m n) := by
  obtain ⟨w, hw, hlow⟩ := slot_low lp64 upper m n
  obtain ⟨w', hw', hlow'⟩ := slot_low lp64 upper' m n
  rw [hw, hw', shown_int, shown_int, hlow, hlow']

/-! ### One turn of the loop -/

section

variable {port : Port}

/-- The call that a turn gets to, unless it overflows. -/
def openedCall (port : Port) (s : Locals port) (e : Entry) (bytes : List UInt8) : BlessCall :=
  call port e.upper (fill s.psbuf bytes)
    (translate port s.state (port.prState.word port.bigEndian (fill s.psbuf bytes)))
    (countLwps port s.numthr e.lwps)

/-- An entry that is no process is passed over. -/
theorem visit_of_token (s : Locals port) {e : Entry} (h : noToken e.dName = false) :
    (visit port s e).2 = .ok none := by
  unfold visit
  rw [if_pos h]

/-- So is one whose psinfo file cannot be opened. -/
theorem visit_of_not_opened (s : Locals port) {e : Entry} (h : noToken e.dName = true)
    (hpsinfo : e.psinfo = none) : (visit port s e).2 = .ok none := by
  unfold visit
  rw [if_neg (by simp [h]), hpsinfo]

theorem visit_of_opened (s : Locals port) {e : Entry} (h : noToken e.dName = true)
    {bytes : List UInt8} (hpsinfo : e.psinfo = some bytes) :
    (visit port s e).2 = if port.args.any (Arg.overflows port (fill s.psbuf bytes)) then
      .error .overflow else .ok (some (openedCall port s e bytes)) := by
  unfold visit
  rw [if_neg (by simp [h]), hpsinfo]
  rfl

theorem turn_of_opened (ttydevs : Option HV) (s : Locals port) {e : Entry}
    (h : noToken e.dName = true) {bytes : List UInt8} (hpsinfo : e.psinfo = some bytes)
    (hfits : port.args.any (Arg.overflows port (fill s.psbuf bytes)) = false) :
    turn ttydevs (visit port s e).2 = ([(openedCall port s e bytes).object ttydevs], none) := by
  rw [visit_of_opened s h hpsinfo, hfits, if_neg (by decide)]
  exact turn_call ((call_rows port _ _ _ _).made_object ttydevs)

/-- A turn that ends without a fault did not overflow. -/
theorem fits_of_turn {ttydevs : Option HV} {s : Locals port} {e : Entry}
    (h : noToken e.dName = true) {bytes : List UInt8} (hpsinfo : e.psinfo = some bytes)
    (hends : (turn ttydevs (visit port s e).2).2 = none) :
    port.args.any (Arg.overflows port (fill s.psbuf bytes)) = false := by
  cases hover : port.args.any (Arg.overflows port (fill s.psbuf bytes)) with
  | false => rfl
  | true =>
      rw [visit_of_opened s h hpsinfo, hover, if_pos rfl] at hends
      cases hends

/-- The variables with one byte everywhere in `psbuf`. -/
def Locals.filled (port : Port) (b : UInt8) (state : Mem) (numthr : Int32) : Locals port :=
  ⟨List.replicate port.sizeofPsinfo b, List.length_replicate, state, numthr⟩

/-- A member that is used and was read is the file's. -/
theorem bytes_read {m : Member} (s : Locals port) {bytes : List UInt8}
    (hlast : m.stop ≤ port.prOnpro.stop) (hread : port.prOnpro.stop ≤ bytes.length) :
    m.bytes (fill s.psbuf bytes) = m.bytes bytes := by
  apply bytes_fill (hlast.trans hread)
  rw [s.psbuf_length]
  exact hlast.trans port.onpro_inside

/-- So are the members of the arguments. -/
theorem arg_read {arg : Arg} (harg : arg ∈ port.args) (s : Locals port) {bytes : List UInt8}
    (hread : port.prOnpro.stop ≤ bytes.length) :
    ∀ m, arg.member = some m → m.bytes (fill s.psbuf bytes) = m.bytes bytes := by
  intro m hm
  exact bytes_read s (port.onpro_last m (List.mem_filterMap.mpr ⟨arg, harg, hm⟩)) hread

/-- The code of the state, when it was read, is the file's. -/
theorem prState_read (s : Locals port) {bytes : List UInt8}
    (hread : port.prOnpro.stop ≤ bytes.length) :
    port.prState.word port.bigEndian (fill s.psbuf bytes) =
      port.prState.word port.bigEndian bytes := by
  rw [Member.word, Member.word, bytes_read s port.state_before hread]

/-- Whether the percentages fit is then the file's business too. -/
theorem overflows_read (s : Locals port) {bytes : List UInt8}
    (hread : port.prOnpro.stop ≤ bytes.length) :
    port.args.any (Arg.overflows port (fill s.psbuf bytes)) =
      port.args.any (Arg.overflows port bytes) := by
  have hsame : ∀ arg ∈ port.args,
      Arg.overflows port (fill s.psbuf bytes) arg = Arg.overflows port bytes arg := by
    intro arg harg
    have hmember := arg_read harg s hread
    cases arg with
    | printed m sprintf =>
        rw [Arg.overflows, Arg.overflows, Member.word, Member.word, hmember m rfl]
    | number m => rfl
    | scaled m factor => rfl
    | text m => rfl
    | state => rfl
    | numthr => rfl
  rw [Bool.eq_iff_iff, List.any_eq_true, List.any_eq_true]
  constructor
  · rintro ⟨arg, harg, hover⟩
    exact ⟨arg, harg, hsame arg harg ▸ hover⟩
  · rintro ⟨arg, harg, hover⟩
    exact ⟨arg, harg, (hsame arg harg).symm ▸ hover⟩

/-- Threads that were counted are counted the same. -/
theorem countLwps_counted {lwps : Option Nat} (hport : port.countsLwps = true)
    (hlwps : lwps ≠ none) (numthr numthr' : Int32) :
    countLwps port numthr lwps = countLwps port numthr' lwps := by
  obtain ⟨n, rfl⟩ := Option.ne_none_iff_exists'.mp hlwps
  unfold countLwps
  rw [if_pos hport, if_pos hport]

/-- What the `switch` leaves when it knows the code. -/
theorem cstr_translate {code : UInt64} (h : code ∈ port.states.map Prod.fst) (state state' : Mem) :
    cstr (translate port state code) = cstr (translate port state' code) := by
  unfold translate
  cases hlookup : port.states.lookup code with
  | some text => exact (cstr_strcpy _ _).trans (cstr_strcpy _ _).symm
  | none =>
      obtain ⟨pair, hpair, rfl⟩ := List.mem_map.mp h
      have hne := List.lookup_eq_none_iff.mp hlookup pair hpair
      exact absurd hne (by simp)

/-- It leaves the text when it does not. -/
theorem translate_unknown {code : UInt64} (h : code ∉ port.states.map Prod.fst) (state : Mem) :
    translate port state code = state := by
  have hlookup : port.states.lookup code = none := by
    apply List.lookup_eq_none_iff.mpr
    intro pair hpair
    have hne : code ≠ pair.1 := fun heq => h (heq ▸ List.mem_map_of_mem hpair)
    simpa using hne
  unfold translate
  rw [hlookup]

theorem mem_args_of_row {row : Char × String × Arg} (hrow : row ∈ port.rows) :
    row.2.2 ∈ port.args := by
  rw [← port.rows_args]
  exact List.mem_map_of_mem hrow

theorem mem_widened {row : Char × String × Arg} (hrow : row ∈ port.rows)
    (h : (port.lp64 && row.1 = 'l' && row.2.2.isHalf) = true) : row.2.1 ∈ port.widened :=
  List.mem_map_of_mem (List.mem_filter.mpr ⟨hrow, h⟩)

/-- **A slot shows the same under a format character that fits it**, when its upper half is
the same where a `long` is read from an argument of 4 bytes. -/
theorem shown_slot {c : Char} (hc : (c = 'i' || c = 'l') = true) {lp64 : Bool}
    {upper upper' : UInt32} {m : Member} {n : Nat}
    (hupper : (lp64 && c = 'l' && m.size ≤ 4) = true → upper = upper') :
    shown c (Member.slot lp64 upper m n) = shown c (Member.slot lp64 upper' m n) := by
  have hor : c = 'i' ∨ c = 'l' := by simpa using hc
  rcases hor with rfl | rfl
  · exact shown_int_slot lp64 upper upper' m n
  · unfold Member.slot
    split
    · rfl
    · rename_i hsize
      cases lp64 with
      | false => rw [if_neg Bool.false_ne_true, if_neg Bool.false_ne_true]
      | true =>
          have hhalf : upper = upper' := by
            apply hupper
            rw [decide_eq_true rfl, decide_eq_true (Nat.le_of_not_lt hsize)]
            rfl
          rw [hhalf]

/-- **A row shows the same** whatever the variables held, when the members it is
taken from were read. -/
theorem value_same {row : Char × String × Arg} (hrow : row ∈ port.rows) (s s' : Locals port)
    {bytes : List UInt8} (hread : port.prOnpro.stop ≤ bytes.length) {state state' : Mem}
    (hstate : cstr state = cstr state') {numthr numthr' : Int32}
    (hnumthr : port.countsLwps = true → numthr = numthr') {upper upper' : UInt32}
    (hupper : row.2.1 ∈ port.widened → upper = upper') :
    shown row.1 (row.2.2.slot port upper (fill s.psbuf bytes) state numthr) =
      shown row.1 (row.2.2.slot port upper' (fill s'.psbuf bytes) state' numthr') := by
  have harg := mem_args_of_row hrow
  have hfits := port.fits row hrow
  have hbytes : ∀ m, row.2.2.member = some m →
      m.bytes (fill s.psbuf bytes) = m.bytes (fill s'.psbuf bytes) := by
    intro m hm
    rw [arg_read harg s hread m hm, arg_read harg s' hread m hm]
  have hwidened := fun h => hupper (mem_widened hrow h)
  obtain ⟨c, key, arg⟩ := row
  dsimp only at harg hfits hbytes hwidened ⊢
  cases arg with
  | number m =>
      rw [Arg.slot, Arg.slot, hbytes m rfl]
      exact shown_slot hfits hwidened
  | scaled m factor =>
      rw [Arg.slot, Arg.slot, hbytes m rfl]
      exact shown_slot hfits hwidened
  | text m => rw [Arg.slot, Arg.slot, hbytes m rfl]
  | printed m sprintf => rw [Arg.slot, Arg.slot, Member.word, Member.word, hbytes m rfl]
  | state =>
      obtain rfl : c = 's' := of_decide_eq_true hfits
      show (SV.pv (cstr state), none) = (SV.pv (cstr state'), none)
      rw [hstate]
  | numthr =>
      have hcounts : port.countsLwps = true := by
        by_contra hno
        exact port.numthr_counted (Bool.eq_false_of_not_eq_true hno) harg
      obtain rfl : c = 'i' := of_decide_eq_true hfits
      rw [hnumthr hcounts, Arg.slot, Arg.slot, half, half, shown_int, shown_int, toUInt32_slot,
        toUInt32_slot]

section

variable {ttydevs : Option HV} {e : Entry} {upper upper' : String → UInt32} {objs : List HV}

/-- Every turn at an entry comes to the same objects, whatever is in the upper halves. -/
def SameTurns (port : Port) (ttydevs : Option HV) (e : Entry) (upper upper' : String → UInt32)
    (objs : List HV) : Prop :=
  ∀ e' ∈ [e.on upper, e.on upper'], ∀ s, turn ttydevs (visit port s e').2 = (objs, none)

variable (hsame : SameTurns port ttydevs e upper upper' objs) (hpid : noToken e.dName = true)
  {bytes : List UInt8} (hpsinfo : e.psinfo = some bytes)

include hsame hpid hpsinfo

/-- Then every row shows the same. -/
theorem row_of_same {row : Char × String × Arg} (hrow : row ∈ port.rows) (s s' : Locals port)
    {upper₁ upper₂ : String → UInt32} (h₁ : e.on upper₁ ∈ [e.on upper, e.on upper'])
    (h₂ : e.on upper₂ ∈ [e.on upper, e.on upper']) :
    (shown row.1 (row.2.2.slot port (upper₁ row.2.1) (fill s.psbuf bytes)
      (translate port s.state (port.prState.word port.bigEndian (fill s.psbuf bytes)))
      (countLwps port s.numthr e.lwps))).1 =
    (shown row.1 (row.2.2.slot port (upper₂ row.2.1) (fill s'.psbuf bytes)
      (translate port s'.state (port.prState.word port.bigEndian (fill s'.psbuf bytes)))
      (countLwps port s'.numthr e.lwps))).1 := by
  have hobject : ∀ (s : Locals port) {upper₀ : String → UInt32},
      e.on upper₀ ∈ [e.on upper, e.on upper'] →
        objs = [(openedCall port s (e.on upper₀) bytes).object ttydevs] := by
    intro s upper₀ h₀
    have hturn := hsame _ h₀ s
    have hfits := fits_of_turn (e := e.on upper₀) hpid hpsinfo (congrArg Prod.snd hturn)
    rw [turn_of_opened (e := e.on upper₀) ttydevs s hpid hpsinfo hfits] at hturn
    exact (congrArg Prod.fst hturn).symm
  have hboth := List.singleton_inj.mp ((hobject s h₁).symm.trans (hobject s' h₂))
  have hkey := congrFun hboth row.2.1
  unfold openedCall at hkey
  rw [object_row port _ _ _ _ ttydevs hrow, object_row port _ _ _ _ ttydevs hrow] at hkey
  exact Option.some.inj hkey

/-- So its file was read up to `pr_onpro`. -/
theorem read_of_same : port.prOnpro.stop ≤ bytes.length := by
  by_contra hshort
  have hrow := row_of_same hsame hpid hpsinfo port.onpro_row (.filled port 0 [] 0)
    (.filled port 1 [] 0) List.mem_cons_self List.mem_cons_self
  obtain ⟨w, hw, hlow⟩ := slot_low port.lp64 (upper "onpro") port.prOnpro
    (StructLayout.number port.bigEndian
      (port.prOnpro.bytes (fill (Locals.filled port 0 [] 0).psbuf bytes)))
  obtain ⟨w', hw', hlow'⟩ := slot_low port.lp64 (upper "onpro") port.prOnpro
    (StructLayout.number port.bigEndian
      (port.prOnpro.bytes (fill (Locals.filled port 1 [] 0).psbuf bytes)))
  dsimp only at hrow
  rw [Arg.slot, Arg.slot, hw, hw', shown_int, shown_int] at hrow
  have hword := congrArg Int32.toUInt32 (Int32.toInt_inj.mp (SV.iv.inj hrow))
  have hsize : 0 < port.prOnpro.size := by rw [port.onpro_size]; decide
  apply bytes_fill_ne hsize (Nat.lt_of_not_le hshort) port.onpro_inside
  apply Member.bytes_eq_of_word port.onpro_size _ _ (hlow.symm.trans (hword.trans hlow'))
  · rw [length_fill, Locals.psbuf_length]
    exact port.onpro_inside
  · rw [length_fill, Locals.psbuf_length]
    exact port.onpro_inside

/-- And its threads were counted, where they are. -/
theorem counted_of_same (hcounts : port.countsLwps = true) : e.lwps ≠ none := by
  intro hclosed
  have hcount := row_of_same hsame hpid hpsinfo (port.numthr_row hcounts) (.filled port 0 [] 0)
    (.filled port 0 [] 1) List.mem_cons_self List.mem_cons_self
  unfold countLwps at hcount
  rw [if_pos hcounts, if_pos hcounts, hclosed] at hcount
  dsimp only [Locals.filled] at hcount
  rw [Arg.slot, Arg.slot, shown_half, shown_half] at hcount
  exact absurd (SV.iv.inj hcount) (by decide)

/-- And its state is known. -/
theorem known_of_same : port.prState.word port.bigEndian bytes ∈ port.states.map Prod.fst := by
  by_contra hunknown
  have hread := read_of_same hsame hpid hpsinfo
  have hstate := row_of_same hsame hpid hpsinfo port.state_row (.filled port 0 [] 0)
    (.filled port 0 ['x'] 0) List.mem_cons_self List.mem_cons_self
  rw [prState_read _ hread, prState_read _ hread, translate_unknown hunknown,
    translate_unknown hunknown] at hstate
  have hne : cstr [] ≠ cstr ['x'] := by decide
  exact hne (SV.pv.inj hstate)

/-- And its percentages fit. -/
theorem fits_of_same : port.args.any (Arg.overflows port bytes) = false := by
  have hturn := hsame _ List.mem_cons_self (.filled port 0 [] 0)
  have hfits := fits_of_turn (e := e.on upper) hpid hpsinfo (congrArg Prod.snd hturn)
  rw [overflows_read _ (read_of_same hsame hpid hpsinfo)] at hfits
  exact hfits

/-- And the upper halves that are read are the same. -/
theorem upper_of_same {key : String} (hkey : key ∈ port.widened) : upper key = upper' key := by
  obtain ⟨⟨c, key, arg⟩, hmem, rfl⟩ := List.mem_map.mp hkey
  obtain ⟨hrow, hhalf⟩ := List.mem_filter.mp hmem
  have hshown := row_of_same hsame hpid hpsinfo hrow (.filled port 0 [] 0) (.filled port 0 [] 0)
    List.mem_cons_self (List.mem_cons_of_mem _ List.mem_cons_self)
  have hfits := port.fits _ hrow
  obtain ⟨hlong, hsize⟩ := Bool.and_eq_true_iff.mp hhalf
  obtain ⟨hlp64, hc⟩ := Bool.and_eq_true_iff.mp hlong
  obtain rfl : c = 'l' := of_decide_eq_true hc
  have hslot : ∀ (m : Member) (n : Nat) (upper : UInt32), m.size ≤ 4 →
      Member.slot port.lp64 upper m n = half upper (m.extend n).toUInt32 := by
    intro m n upper hm
    rw [Member.slot, if_neg (Nat.not_lt.mpr hm), if_pos hlp64]
  dsimp only at hshown hsize hfits ⊢
  cases arg with
  | number m =>
      have hm : m.size ≤ 4 := of_decide_eq_true hsize
      rw [Arg.slot, Arg.slot, hslot m _ _ hm, hslot m _ _ hm] at hshown
      exact (newSVnv_half_inj _ _ _).mp hshown
  | scaled m factor =>
      have hm : m.size ≤ 4 := of_decide_eq_true hsize
      rw [Arg.slot, Arg.slot, hslot m _ _ hm, hslot m _ _ hm] at hshown
      exact (newSVnv_half_inj _ _ _).mp hshown
  | numthr => cases hfits
  | text m => cases hsize
  | printed m sprintf => cases hsize
  | state => cases hsize

end

/-- **The turns at an entry are the same exactly when its own files settle it.** -/
theorem sameTurns_iff (ttydevs : Option HV) (e : Entry) (upper upper' : String → UInt32) :
    (∃ objs, SameTurns port ttydevs e upper upper' objs) ↔ e.Settles port upper upper' := by
  constructor
  · rintro ⟨objs, hsame⟩ hpid bytes hpsinfo
    exact ⟨counted_of_same hsame hpid hpsinfo, read_of_same hsame hpid hpsinfo,
      known_of_same hsame hpid hpsinfo, fits_of_same hsame hpid hpsinfo,
      fun key => upper_of_same hsame hpid hpsinfo⟩
  · intro hsettles
    cases hpid : noToken e.dName with
    | false =>
        refine ⟨[], fun e' he' s => ?_⟩
        have htoken : noToken e'.dName = false := by
          rcases List.mem_pair.mp he' with rfl | rfl <;> exact hpid
        rw [visit_of_token s htoken]
        rfl
    | true =>
        cases hpsinfo : e.psinfo with
        | none =>
            refine ⟨[], fun e' he' s => ?_⟩
            have hnot : noToken e'.dName = true ∧ e'.psinfo = none := by
              rcases List.mem_pair.mp he' with rfl | rfl <;> exact ⟨hpid, hpsinfo⟩
            rw [visit_of_not_opened s hnot.1 hnot.2]
            rfl
        | some bytes =>
            obtain ⟨hcounts, hread, hknown, hfits, hupper⟩ := hsettles hpid bytes hpsinfo
            have hopened : ∀ e' ∈ [e.on upper, e.on upper'], ∀ s,
                turn ttydevs (visit port s e').2 =
                  ([(openedCall port s e' bytes).object ttydevs], none) := by
              intro e' he' s
              have hopen : noToken e'.dName = true ∧ e'.psinfo = some bytes := by
                rcases List.mem_pair.mp he' with rfl | rfl <;> exact ⟨hpid, hpsinfo⟩
              apply turn_of_opened ttydevs s hopen.1 hopen.2
              rw [overflows_read s hread, hfits]
            refine ⟨[(openedCall port (.filled port 0 [] 0) (e.on upper) bytes).object ttydevs],
              fun e' he' s => ?_⟩
            have hentry : e'.lwps = e.lwps ∧ ∀ key ∈ port.widened, e'.upper key = upper key := by
              rcases List.mem_pair.mp he' with rfl | rfl
              · exact ⟨rfl, fun key _ => rfl⟩
              · exact ⟨rfl, fun key hkey => (hupper key hkey).symm⟩
            rw [hopened e' he' s]
            refine congrArg (fun obj => ([obj], none)) (object_congr port ttydevs fun row hmem => ?_)
            apply value_same hmem _ _ hread
            · rw [prState_read _ hread, prState_read _ hread]
              exact cstr_translate hknown _ _
            · intro hport
              rw [hentry.1]
              exact countLwps_counted hport (hcounts hport) _ _
            · exact hentry.2 row.2.1

end

/-! ### A whole scan -/

section

variable (port : Port) (ttydevs : Option HV)

/-- **What is published for an entry is its own exactly when its own files settle it.** -/
theorem published_own_iff (e : Entry) (upper upper' : String → UInt32) :
    PublishedOwn port ttydevs e upper upper' ↔ e.Settles port upper upper' := by
  rw [← sameTurns_iff ttydevs e upper upper']
  refine exists_congr fun objs => ?_
  constructor
  · intro hown e' he' s
    obtain ⟨hends, hobjects⟩ := hown e' he' s [] rfl
    obtain ⟨rest, hafter⟩ := hobjects []
    have hobjs : (osGetTable port (some [e']) s).objects ttydevs = objs :=
      hafter.trans (List.append_nil _)
    exact (loopScan_concat (visit port) ttydevs s [] e').symm.trans (Prod.ext hobjs hends)
  · intro hsame e' he' residue before hends
    have hfront : (loopScan (visit port) residue before).ends ttydevs = none := hends
    have hone := loopScan_concat (visit port) ttydevs residue before e'
    rw [hfront, hsame e' he' (CarriedState.after (visit port) residue before)] at hone
    obtain ⟨hobjs, hends'⟩ := Prod.mk.inj hone
    refine ⟨hends', fun after => ⟨CarriedState.after (visit port) residue (before ++ [e']), ?_⟩⟩
    have hall := objects_append (visit port) ttydevs hends' after
    rw [hobjs, List.append_assoc, List.singleton_append] at hall
    exact hall

variable {port}

/-- The pid in the object of a settled entry is the one in its own file. -/
theorem pid_visit {e : Entry} (hsettles : e.Settles port e.upper e.upper) (s : Locals port) :
    (turn ttydevs (visit port s e).2).2 = none ∧
      (turn ttydevs (visit port s e).2).1.map (· "pid") = ((ownPid port e).map some).toList := by
  unfold ownPid
  cases hpid : noToken e.dName with
  | false =>
      rw [visit_of_token s hpid]
      exact ⟨rfl, rfl⟩
  | true =>
      rw [if_neg (by decide)]
      cases hpsinfo : e.psinfo with
      | none =>
          rw [visit_of_not_opened s hpid hpsinfo]
          exact ⟨rfl, rfl⟩
      | some bytes =>
          obtain ⟨-, hread, -, hfits, -⟩ := hsettles hpid bytes hpsinfo
          have hlast := arg_read (mem_args_of_row port.pid_row) s hread port.prPid rfl
          rw [turn_of_opened ttydevs s hpid hpsinfo (by rw [overflows_read s hread, hfits])]
          refine ⟨rfl, congrArg (fun value => [value]) ?_⟩
          unfold openedCall
          obtain ⟨w, hw, hlow⟩ := slot_low port.lp64 (e.upper "pid") port.prPid
            (StructLayout.number port.bigEndian (port.prPid.bytes bytes))
          refine (object_row port _ _ _ _ ttydevs port.pid_row).trans (congrArg some ?_)
          rw [Arg.slot, hlast]
          dsimp only
          rw [hw, shown_int, hlow]
          rfl

/-- **No process is published twice** when every entry is settled and the files
name different processes. -/
theorem pids_nodup {entries : List Entry}
    (hsettles : ∀ e ∈ entries, e.Settles port e.upper e.upper)
    (hpids : (entries.filterMap (ownPid port)).Nodup) (residue : Locals port) :
    (osGetTable port (some entries) residue).ends ttydevs = none ∧
      (((osGetTable port (some entries) residue).objects ttydevs).map (· "pid")).Nodup := by
  have hscan : (loopScan (visit port) residue entries).ends ttydevs = none ∧
      ((loopScan (visit port) residue entries).objects ttydevs).map (· "pid") =
        (entries.filterMap (ownPid port)).map some := by
    clear hpids
    induction entries using List.reverseRecOn with
    | nil => exact ⟨rfl, rfl⟩
    | append_singleton entries e ih =>
        obtain ⟨hends, hobjects⟩ := ih fun e' he' => hsettles e' (List.mem_append_left _ he')
        obtain ⟨hnone, hpid⟩ := pid_visit ttydevs (hsettles e (List.mem_append_right _
          List.mem_cons_self)) (CarriedState.after (visit port) residue entries)
        have hone := loopScan_concat (visit port) ttydevs residue entries e
        rw [hends] at hone
        obtain ⟨hobjs, hends'⟩ := Prod.mk.inj hone
        refine ⟨hends'.trans hnone, ?_⟩
        rw [hobjs, List.map_append, hobjects, hpid, List.filterMap_append, List.map_append,
          List.filterMap_cons]
        cases ownPid port e with
        | none => rfl
        | some pid => rfl
  refine ⟨hscan.1, ?_⟩
  have hobjects : ((osGetTable port (some entries) residue).objects ttydevs).map (· "pid") =
      (entries.filterMap (ownPid port)).map some := hscan.2
  rw [hobjects]
  exact hpids.map (Option.some_injective SV)

end

end ProcFs
