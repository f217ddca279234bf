import ProcProcessTable.CarriedState
import ProcProcessTable.ObjectCalls

/-!
# Process owners on Windows

The native Windows port walks a snapshot of the processes and asks for the owner
of each one that it can open.  The three buffers for the answer stand outside the
loop; `get_process_owner` clears them before it asks, and is called only for a
process that was opened.  The uid is computed from the first buffer for every
process.

`owner_own_iff` says for which processes the owner that is published is their
own.
-/

namespace Windows

open CText Xs ProcessTable CarriedState

/-- How `LookupAccountSidA` ends. -/
inductive Account
  | found (user domain : List Char)
  /-- with `ERROR_NONE_MAPPED` -/
  | noneMapped
  | failed

/-- What the system answers to `get_process_owner`. -/
structure OwnerAnswers where
  /-- `OpenProcessToken` -/
  tokenOpens : Bool
  /-- `GetTokenInformation` without a buffer, which may fail for want of one -/
  sizeKnown : Bool
  /-- `malloc` -/
  allocates : Bool
  /-- `GetTokenInformation` into the buffer -/
  tokenRead : Bool
  /-- `ConvertSidToStringSidA` -/
  stringSid : Option (List Char)
  account : Account

/-- What the system answers about a process that could be opened. -/
structure ProcessAnswers where
  /-- `GetProcessTimes`: the two halves of the creation time -/
  times : Option (UInt32 × UInt32)
  owner : OwnerAnswers

/-- One entry of the snapshot, and what the system answers when `OpenProcess`
succeeds. -/
structure Entry where
  th32ProcessID : UInt32
  th32ParentProcessID : UInt32
  szExeFile : List Char
  process : Option ProcessAnswers

/-- The buffers of `OS_get_table`. -/
structure Buffers where
  stringSid : Mem
  userName : Mem
  domainName : Mem

/-- Between 1601 and 1970, in units of 100 ns. -/
def FACTOR : Int64 := 0x19db1ded53ea710

def NSPERSEC : Int64 := 10000000

/-- `to_time_t`; a `long` has 32 bits. -/
def toTimeT (dwHighDateTime dwLowDateTime : UInt32) : Int32 :=
  let x := (dwHighDateTime.toUInt64 <<< 32).toInt64 + dwLowDateTime.toUInt64.toInt64
  let x := x - FACTOR
  let rem := (x % NSPERSEC).toInt32
  let rem := (rem.toInt64 + NSPERSEC / 2).toInt32
  let x := x / NSPERSEC
  let x := x + (rem.toInt64 / NSPERSEC)
  x.toInt32

/-- `LookupAccountSidA` into the buffers for the names. -/
def putAccount (account : Account) (b : Buffers) : Buffers :=
  match account with
  | .found user domain =>
      { b with userName := strcpy b.userName user, domainName := strcpy b.domainName domain }
  | .noneMapped =>
      { b with
        userName := strcpy b.userName "NONE_MAPPED".toList
        domainName := strcpy b.domainName "NONE_MAPPED".toList }
  | .failed => b

/-- `get_process_owner`. -/
def getProcessOwner (answers : OwnerAnswers) (b : Buffers) : Buffers :=
  let b : Buffers := ⟨b.stringSid.set 0 nul, b.userName.set 0 nul, b.domainName.set 0 nul⟩
  if answers.tokenOpens = false then b
  else if answers.sizeKnown = false then b
  else if answers.allocates = false then b
  else if answers.tokenRead = false then b
  else
    putAccount answers.account
      (match answers.stringSid with
      | some sid => if strlen sid < 184 then { b with stringSid := strcpy b.stringSid sid } else b
      | none => b)

/-- `get_uid_from_string_sid`; `strtoul` clamps to 32 bits. -/
def getUidFromStringSid (stringSid : Mem) : UInt32 :=
  match strrchr stringSid '-' with
  | none => 0
  | some i =>
      let uidPtr := cstr (stringSid.drop (i + 1))
      if uidPtr.any fun c => c < '0' || c > '9' then 0
      else UInt32.ofNat (min (Nat.ofDigitChars 10 uidPtr 0) (2 ^ 32 - 1))

/-- `Fields`. -/
def fieldNames : List String :=
  ["uid", "pid", "ppid", "fname", "start", "sid", "user_name", "domain_name"]

/-- The call of `bless_into_proc`. -/
def call (uid : UInt32) (e : Entry) (startTime : Int32) (b : Buffers) : BlessCall where
  format := "pppslsss".toList
  fields := fieldNames
  args :=
    [.word uid.toUInt64, .word e.th32ProcessID.toUInt64, .word e.th32ParentProcessID.toUInt64,
     .ptr (some e.szExeFile), .word startTime.toInt64.toUInt64, .ptr (some b.stringSid),
     .ptr (some b.userName), .ptr (some b.domainName)]

/-- One turn of the loop. -/
def visit (b : Buffers) (e : Entry) : Buffers × BlessCall :=
  let (startTime, b) := match e.process with
    | some answers =>
        let startTime := match answers.times with
          | some (high, low) => toTimeT high low
          | none => 0
        (startTime, getProcessOwner answers.owner b)
    | none => (0, b)
  let uid := getUidFromStringSid b.stringSid
  (b, call uid e startTime b)

/-- `OS_get_table`, from what the buffers hold on entry: nothing without the
three functions or the snapshot. -/
def osGetTable (initWinResult : Bool) (snapshot : Option (List Entry)) (residue : Buffers) : Scan :=
  if initWinResult = false then ⟨[], none⟩
  else
    match snapshot with
    | none => ⟨[], none⟩
    | some entries => ⟨outputs visit residue entries, none⟩

/-- What an object says about the owner of its process. -/
def owner (obj : HV) : Option SV × Option SV × Option SV × Option SV :=
  (obj "uid", obj "sid", obj "user_name", obj "domain_name")

/-- The columns of a call. -/
def columns (uid : UInt32) (e : Entry) (startTime : Int32) (b : Buffers) : List Column :=
  [⟨'p', "uid", [.word uid.toUInt64], (newSVnv uid.toUInt64.toNat, none)⟩,
   ⟨'p', "pid", [.word e.th32ProcessID.toUInt64], (newSVnv e.th32ProcessID.toUInt64.toNat, none)⟩,
   ⟨'p', "ppid", [.word e.th32ParentProcessID.toUInt64],
     (newSVnv e.th32ParentProcessID.toUInt64.toNat, none)⟩,
   ⟨'s', "fname", [.ptr (some e.szExeFile)], (.pv (cstr e.szExeFile), none)⟩,
   ⟨'l', "start", [.word startTime.toInt64.toUInt64],
     (newSVnv startTime.toInt64.toUInt64.toInt64.toInt, some startTime.toInt64.toUInt64)⟩,
   ⟨'s', "sid", [.ptr (some b.stringSid)], (.pv (cstr b.stringSid), none)⟩,
   ⟨'s', "user_name", [.ptr (some b.userName)], (.pv (cstr b.userName), none)⟩,
   ⟨'s', "domain_name", [.ptr (some b.domainName)], (.pv (cstr b.domainName), none)⟩]

theorem columns_fit (uid : UInt32) (e : Entry) (startTime : Int32) (b : Buffers) :
    ∀ col ∈ columns uid e startTime b, col.Fits := by
  intro col hcol args
  simp only [columns, List.mem_cons, List.not_mem_nil, or_false] at hcol
  rcases hcol with rfl | rfl | rfl | rfl | rfl | rfl | rfl | rfl <;> rfl

/-! ### What the buffers say -/

theorem cstr_clear (m : Mem) : cstr (m.set 0 nul) = [] := by
  cases m with
  | nil => rfl
  | cons c m => rfl

/-- The uid is computed from the string in the buffer. -/
theorem getUidFromStringSid_cstr (m : Mem) :
    getUidFromStringSid (cstr m) = getUidFromStringSid m := by
  unfold getUidFromStringSid strrchr
  rw [cstr_cstr]
  cases hlast : lastIdx? '-' (cstr m) with
  | none => rfl
  | some i =>
      have hle : i + 1 ≤ strlen m := lastIdx?_lt hlast
      have hle' : i + 1 ≤ strlen (cstr m) := by rw [strlen, cstr_cstr]; exact hle
      dsimp only
      rw [cstr_drop hle', cstr_cstr, cstr_drop hle]

/-- The buffers hold the same strings. -/
structure SameTexts (b b' : Buffers) : Prop where
  stringSid : cstr b.stringSid = cstr b'.stringSid
  userName : cstr b.userName = cstr b'.userName
  domainName : cstr b.domainName = cstr b'.domainName

theorem SameTexts.setSid {b b' : Buffers} (h : SameTexts b b') (sid : List Char) :
    SameTexts { b with stringSid := strcpy b.stringSid sid }
      { b' with stringSid := strcpy b'.stringSid sid } :=
  ⟨by rw [cstr_strcpy, cstr_strcpy], h.userName, h.domainName⟩

theorem SameTexts.setNames {b b' : Buffers} (h : SameTexts b b') (user domain : List Char) :
    SameTexts
      { b with userName := strcpy b.userName user, domainName := strcpy b.domainName domain }
      { b' with userName := strcpy b'.userName user, domainName := strcpy b'.domainName domain } :=
  ⟨h.stringSid, by rw [cstr_strcpy, cstr_strcpy], by rw [cstr_strcpy, cstr_strcpy]⟩

theorem SameTexts.putAccount {b b' : Buffers} (h : SameTexts b b') (account : Account) :
    SameTexts (Windows.putAccount account b) (Windows.putAccount account b') := by
  cases account with
  | found user domain => exact h.setNames user domain
  | noneMapped => exact h.setNames _ _
  | failed => exact h

/-- **What `get_process_owner` leaves** is what the system answered to it. -/
theorem getProcessOwner_same (answers : OwnerAnswers) (b b' : Buffers) :
    SameTexts (getProcessOwner answers b) (getProcessOwner answers b') := by
  have hclear : SameTexts ⟨b.stringSid.set 0 nul, b.userName.set 0 nul, b.domainName.set 0 nul⟩
      ⟨b'.stringSid.set 0 nul, b'.userName.set 0 nul, b'.domainName.set 0 nul⟩ := by
    constructor <;> rw [cstr_clear, cstr_clear]
  unfold getProcessOwner
  dsimp only
  by_cases hopens : answers.tokenOpens = false
  · rw [if_pos hopens, if_pos hopens]
    exact hclear
  by_cases hsize : answers.sizeKnown = false
  · rw [if_neg hopens, if_neg hopens, if_pos hsize, if_pos hsize]
    exact hclear
  by_cases hmalloc : answers.allocates = false
  · rw [if_neg hopens, if_neg hopens, if_neg hsize, if_neg hsize, if_pos hmalloc, if_pos hmalloc]
    exact hclear
  by_cases hread : answers.tokenRead = false
  · rw [if_neg hopens, if_neg hopens, if_neg hsize, if_neg hsize, if_neg hmalloc, if_neg hmalloc,
      if_pos hread, if_pos hread]
    exact hclear
  rw [if_neg hopens, if_neg hopens, if_neg hsize, if_neg hsize, if_neg hmalloc, if_neg hmalloc,
    if_neg hread, if_neg hread]
  apply SameTexts.putAccount
  cases answers.stringSid with
  | none => exact hclear
  | some sid =>
      dsimp only
      by_cases hlen : strlen sid < 184
      · rw [if_pos hlen, if_pos hlen]
        exact hclear.setSid sid
      · rw [if_neg hlen, if_neg hlen]
        exact hclear

/-- The buffers a call is made with. -/
def asked (b : Buffers) (e : Entry) : Buffers := (visit b e).1

/-- A process that is opened is asked for its owner. -/
theorem asked_same {e : Entry} (hopened : e.process ≠ none) (b b' : Buffers) :
    SameTexts (asked b e) (asked b' e) := by
  unfold asked visit
  cases hprocess : e.process with
  | none => exact absurd hprocess hopened
  | some answers => exact getProcessOwner_same answers.owner b b'

/-- One that is not leaves the buffers as they are. -/
theorem asked_of_not_opened {e : Entry} (h : e.process = none) (b : Buffers) : asked b e = b := by
  unfold asked visit
  rw [h]

/-- The call is made with the buffers and the uid computed from them. -/
theorem visit_call (b : Buffers) (e : Entry) :
    ∃ startTime, (visit b e).2 =
      call (getUidFromStringSid (asked b e).stringSid) e startTime (asked b e) := by
  unfold asked visit
  cases e.process with
  | none => exact ⟨_, rfl⟩
  | some answers => exact ⟨_, rfl⟩

/-! ### What is published -/

/-- A call makes one object, column by column. -/
theorem made_call (ttydevs : Option HV) (uid : UInt32) (e : Entry) (startTime : Int32)
    (b : Buffers) :
    (call uid e startTime b).made ttydevs =
      ([storeColumns ttydevs (columns uid e startTime b) HV.empty], none) :=
  BlessCall.made_columns _ ttydevs (columns_fit uid e startTime b) rfl rfl rfl

theorem made_visit (ttydevs : Option HV) (b : Buffers) (e : Entry) :
    (visit b e).2.made ttydevs = ([(visit b e).2.object ttydevs], none) := by
  obtain ⟨startTime, hcall⟩ := visit_call b e
  unfold BlessCall.object
  rw [hcall, made_call]
  rfl

/-- A scan publishes one object for each entry of the snapshot. -/
theorem objects_osGetTable (entries : List Entry) (residue : Buffers) (ttydevs : Option HV) :
    (osGetTable true (some entries) residue).objects ttydevs =
      (outputs visit residue entries).map (·.object ttydevs) := by
  have hmade : ∀ c ∈ outputs visit residue entries,
      c.made ttydevs = ([c.object ttydevs], none) := by
    intro c hc
    obtain ⟨b, e, -, rfl⟩ := mem_outputs visit hc
    exact made_visit ttydevs b e
  exact congrArg Prod.fst (madeAll_of_made hmade)

/-- The owner in an object is what the buffers said. -/
theorem owner_visit (ttydevs : Option HV) (b : Buffers) (e : Entry) :
    owner ((visit b e).2.object ttydevs) =
      (some (newSVnv (getUidFromStringSid (asked b e).stringSid).toUInt64.toNat),
        some (.pv (cstr (asked b e).stringSid)), some (.pv (cstr (asked b e).userName)),
        some (.pv (cstr (asked b e).domainName))) := by
  obtain ⟨startTime, hcall⟩ := visit_call b e
  have hread : ∀ col ∈ columns (getUidFromStringSid (asked b e).stringSid) e startTime (asked b e),
      (visit b e).2.object ttydevs col.key = some col.value.1 := by
    intro col hcol
    have hnodup : fieldNames.Nodup := by decide
    have htty : "ttydev" ∉ fieldNames := by decide
    have hkey : col.key ∈ fieldNames := List.mem_map_of_mem hcol
    unfold BlessCall.object
    rw [hcall, made_call]
    refine storeColumns_of_mem ttydevs HV.empty ?_ hcol (fun heq => htty (heq ▸ hkey))
    exact hnodup
  simp only [columns, List.forall_mem_cons] at hread
  obtain ⟨huid, -, -, -, -, hsid, huser, hdomain, -⟩ := hread
  unfold owner
  rw [huid, hsid, huser, hdomain]

/-- **The owner of a process is settled exactly when the process is opened.** -/
theorem settled_iff (ttydevs : Option HV) (e : Entry) :
    Settled visit (fun c => owner (c.object ttydevs)) e ↔ e.process ≠ none := by
  constructor
  · intro hsettled hclosed
    have halice := hsettled ⟨[], ['a', 'l', 'i', 'c', 'e'], []⟩ ⟨[], [], []⟩
    dsimp only at halice
    rw [owner_visit, owner_visit, asked_of_not_opened hclosed, asked_of_not_opened hclosed]
      at halice
    have huser := congrArg (fun o => o.2.2.1) halice
    exact absurd huser (by decide)
  · intro hopened b b'
    have hsame := asked_same hopened b b'
    dsimp only
    rw [owner_visit, owner_visit, ← getUidFromStringSid_cstr, hsame.stringSid,
      getUidFromStringSid_cstr, hsame.userName, hsame.domainName]

/-- **The owner published for a process is its own** in every snapshot it stands
in, whatever the buffers held before the scan, if and only if the process could
be opened. -/
theorem owner_own_iff (ttydevs : Option HV) (e : Entry) :
    (∀ residue residue' before before' after after',
      (((osGetTable true (some (before ++ e :: after)) residue).objects ttydevs)[before.length]?).map
          owner =
        (((osGetTable true (some (before' ++ e :: after')) residue').objects
          ttydevs)[before'.length]?).map owner) ↔ e.process ≠ none := by
  rw [← settled_iff ttydevs e, ← view_same_iff visit]
  simp only [objects_osGetTable, List.getElem?_map, Option.map_map]
  rfl

/-- What the system answers about a process of an account. -/
def opened (sid user domain : String) : ProcessAnswers where
  times := some (30000000, 0)
  owner := ⟨true, true, true, true, some sid.toList, .found user.toList domain.toList⟩

/-- A scan of a process that can be opened and one that cannot. -/
def twoProcesses (first : ProcessAnswers) : Scan :=
  osGetTable true
    (some
      [⟨1200, 880, "editor.exe".toList, some first⟩, ⟨4, 0, "System".toList, none⟩])
    ⟨List.replicate 184 nul, List.replicate 256 nul, List.replicate 256 nul⟩

/-- A process that cannot be opened is published with the owner of the process in
front of it. -/
theorem owner_of_another :
    (((twoProcesses (opened "S-1-5-21-7-1001" "alice" "DESK")).objects none)[1]?).map
        (fun obj => (obj "pid", owner obj)) =
      some (some (newSVnv 4), some (newSVnv 1001), some (.pv "S-1-5-21-7-1001".toList),
        some (.pv "alice".toList), some (.pv "DESK".toList)) ∧
    (((twoProcesses (opened "S-1-5-21-7-1002" "bob" "DESK")).objects none)[1]?).map
        (fun obj => (obj "pid", owner obj)) =
      some (some (newSVnv 4), some (newSVnv 1002), some (.pv "S-1-5-21-7-1002".toList),
        some (.pv "bob".toList), some (.pv "DESK".toList)) := by
  exact ⟨rfl, rfl⟩

end Windows
