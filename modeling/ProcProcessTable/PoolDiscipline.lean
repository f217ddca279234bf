import ProcProcessTable.LinuxObject

/-!
# The pool at the call of bless_into_proc

Path strings, file texts and long-lived results are pushed on one stack by nine
helpers with different failure exits.

* `pool_discipline` — no release in an iteration names the record, the format
  string or an object the record points to, or anything below one of them; at
  the call of `bless_into_proc` all of them hold what they were given;
* `helper_growing` — no helper leaves an object half grown;
* `enabled_pointer_ne_null` — a field that is handed over as a string or an
  array has a pointer that is not NULL.
-/

namespace Linux

open CText MemPool Xs

section Helpers

variable (res : Residue (Procstat Nat)) (k : Kernel) (pid : List Char) (prs formatStr : Nat)
  (pool : Memory)

/-- Whatever comes of it, a file is read without leaving a half-grown object. -/
theorem readFile_growing (path : List Char) (extraPath : Option (List Char)) :
    (readFile res k path extraPath pool).pool.growing = [] := by
  unfold readFile
  obtain ⟨file, pool₁⟩ := procPidFile path extraPath pool
  dsimp only
  cases k.openFile (cstr (pool₁.bytesAt file)) with
  | none => rfl
  | some reads =>
      dsimp only
      obtain ⟨len, pool₂⟩ := readLoop res reads.failed reads.chunks 0 (pool₁.free file)
      cases len <;> rfl

/-- The helpers that `OS_get_table` calls on the pool. -/
inductive Helper
  | userInfo | procStat | pidExists | cmndline | cmdline | environ | cwd | exec | status
  deriving DecidableEq, Repr

/-- The pool a helper leaves; `none` when it does not return. -/
def Helper.run : Helper → Option Memory
  | .userInfo => some (getUserInfo k pid prs formatStr pool)
  | .procStat => some (getProcStat res k pid prs formatStr pool).2
  | .pidExists => some (Linux.pidExists k pid pool).2
  | .cmndline => some (getProcCmndline res k pid prs formatStr pool)
  | .cmdline => some (getProcCmdline res k pid prs formatStr pool)
  | .environ => some (getProcEnviron res k pid prs formatStr pool)
  | .cwd => some (evalLink k pid "cwd".toList .cwd .cwd prs formatStr pool)
  | .exec => some (evalLink k pid "exe".toList .exec .exec prs formatStr pool)
  | .status => getProcStatus res k pid prs formatStr pool

theorem evalLink_growing (linkRel : List Char) (field : Field) (ptr : Member) :
    (evalLink k pid linkRel field ptr prs formatStr pool).growing = [] := by
  unfold evalLink
  obtain ⟨linkFile, pool₁⟩ := procPidFile pid (some linkRel) pool
  dsimp only
  cases k.realpath (cstr (pool₁.bytesAt linkFile)) with
  | none => rfl
  | some link =>
      dsimp only
      rw [Pool.modifyBytes_growing, Pool.modifyRecord_growing]
      rfl

theorem getUserInfo_growing : (getUserInfo k pid prs formatStr pool).growing = [] := by
  unfold getUserInfo
  obtain ⟨pathPid, pool₁⟩ := procPidFile pid none pool
  dsimp only
  cases k.stat (cstr (pool₁.bytesAt pathPid)) with
  | none => rfl
  | some ids =>
      dsimp only
      rw [Pool.modifyBytes_growing, Pool.modifyRecord_growing]
      rfl

theorem getProcStat_growing : (getProcStat res k pid prs formatStr pool).2.growing = [] := by
  unfold getProcStat
  dsimp only
  cases htext : (readFile res k pid (some "stat".toList) pool).text with
  | none => exact readFile_growing res k pool pid _
  | some out => rfl

theorem getProcCmndline_growing :
    (getProcCmndline res k pid prs formatStr pool).growing = [] := by
  unfold getProcCmndline
  dsimp only
  cases htext : (readFile res k pid (some "cmdline".toList) pool).text with
  | none => exact readFile_growing res k pool pid _
  | some out =>
      dsimp only
      rw [Pool.modifyBytes_growing, Pool.modifyRecord_growing, Pool.modifyBytes_growing]
      exact readFile_growing res k pool pid _

theorem getProcCmdline_growing : (getProcCmdline res k pid prs formatStr pool).growing = [] := by
  unfold getProcCmdline
  dsimp only
  cases htext : (readFile res k pid (some "cmdline".toList) pool).text with
  | none => exact readFile_growing res k pool pid _
  | some out =>
      dsimp only
      rw [Pool.modifyBytes_growing, Pool.modifyRecord_growing]
      exact readFile_growing res k pool pid _

theorem getProcEnviron_growing : (getProcEnviron res k pid prs formatStr pool).growing = [] := by
  unfold getProcEnviron
  dsimp only
  cases htext : (readFile res k pid (some "environ".toList) pool).text with
  | none => exact readFile_growing res k pool pid _
  | some out =>
      dsimp only
      rw [Pool.modifyBytes_growing, Pool.modifyRecord_growing]
      exact readFile_growing res k pool pid _

/-- The one helper that need not return. -/
theorem getProcStatus_growing {pool' : Memory}
    (h : getProcStatus res k pid prs formatStr pool = some pool') : pool'.growing = [] := by
  rw [getProcStatus] at h
  dsimp only at h
  cases htext : (readFile res k pid (some "status".toList) pool).text with
  | none =>
      rw [htext] at h
      obtain rfl := Option.some.inj h
      exact readFile_growing res k pool pid _
  | some out =>
      rw [htext] at h
      dsimp only at h
      split at h
      · cases h
      · obtain rfl := Option.some.inj h
        rfl

/-- **No helper leaves an object half grown**, on any pool. -/
theorem helper_growing (helper : Helper) {pool' : Memory}
    (h : helper.run res k pid prs formatStr pool = some pool') : pool'.growing = [] := by
  cases helper with
  | userInfo =>
      obtain rfl := Option.some.inj h
      exact getUserInfo_growing k pid prs formatStr pool
  | procStat =>
      obtain rfl := Option.some.inj h
      exact getProcStat_growing res k pid prs formatStr pool
  | pidExists =>
      obtain rfl := Option.some.inj h
      rfl
  | cmndline =>
      obtain rfl := Option.some.inj h
      exact getProcCmndline_growing res k pid prs formatStr pool
  | cmdline =>
      obtain rfl := Option.some.inj h
      exact getProcCmdline_growing res k pid prs formatStr pool
  | environ =>
      obtain rfl := Option.some.inj h
      exact getProcEnviron_growing res k pid prs formatStr pool
  | cwd =>
      obtain rfl := Option.some.inj h
      exact evalLink_growing k pid prs formatStr pool _ _ _
  | exec =>
      obtain rfl := Option.some.inj h
      exact evalLink_growing k pid prs formatStr pool _ _ _
  | status => exact getProcStatus_growing res k pid prs formatStr pool h

end Helpers

section Discipline

variable (port : Port) (res : Residue (Procstat Nat)) (xs : Interp) (entries : List DirEntry)
  (e : DirEntry)

/-- What the pool holds when `bless_into_proc` is called: the record with the
values that were scraped, the format string, and behind every pointer of the
record the text it was given, all of them still allocated. -/
structure HoldsRow (pool : Memory) (prs formatStr : Nat) (e : DirEntry) (row : Row) : Prop where
  scraped : scrapedAt pool prs = row.prs.toScraped
  format : pool.bytesAt formatStr = row.formatStr
  texts : ∃ p, pool.recordAt? prs = some p ∧ ∀ m : Member,
    match p.get m, e.text m with
    | none, none => True
    | some ptr, some text => ∃ junk, pool.finished[ptr]? = some (.bytes (text ++ nul :: junk))
    | _, _ => False

theorem Frame.holdsRow {start pool : Memory} {objs : List (Block (Procstat Nat))} {row : Row}
    (h : Frame start objs [] pool row) {port : Port} {e : DirEntry}
    (hrow : Row.scrape port e = .ready row) :
    HoldsRow pool start.finished.length (start.finished.length + 1) e row := by
  obtain ⟨p, hp, hstack⟩ := h.stack
  obtain ⟨p', hp', hat⟩ := h.record_at
  refine ⟨h.scrapedAt_eq, h.bytesAt_format, p', Pool.recordAt?_of_getElem? hat, fun m => ?_⟩
  have hshow := hp'.2 m
  rw [(Row.ready_prs hrow).1 m] at hshow
  cases hptr : p'.get m with
  | none =>
      cases htext : e.text m with
      | none => trivial
      | some text =>
          rw [hptr, htext] at hshow
          exact hshow
  | some ptr =>
      cases htext : e.text m with
      | none =>
          rw [hptr, htext] at hshow
          exact hshow
      | some text =>
          rw [hptr, htext] at hshow
          obtain ⟨i, junk, rfl, hobj⟩ := hshow
          refine ⟨junk, ?_⟩
          have hidx : start.finished.length + 2 + i - start.finished.length = i + 2 := by omega
          rw [hstack, List.append_nil, List.getElem?_append_right (by omega), hidx]
          exact hobj

/-- **The stack discipline of one iteration.**  From any state that the loop
reaches, whatever the files answer: every release of the iteration names
something above the record, the format string and all the record points to, no
object is left half grown, and if `bless_into_proc` is called the pool still
holds all of them with the contents they were given; between two helper calls
no object is half grown either. -/
theorem pool_discipline (hgo : (tableRun port res xs entries).fault = none) :
    let pool := (tableRun port res xs entries).pool
    let out := scrapeEntry port res e 0 pool
    (∀ r ∈ out.2.releases, r ∈ pool.releases ∨
      Safe pool.finished.length (pool.finished.length + 1) r.live r.ptr) ∧
    out.2.growing = [] ∧
    (∀ prs formatStr, out.1 = .ready prs formatStr →
      prs = pool.finished.length ∧ formatStr = pool.finished.length + 1 ∧
        ∃ row, Row.scrape port e = .ready row ∧ HoldsRow out.2 prs formatStr e row) ∧
    ∀ (helper : Helper) (k : Kernel) (prs formatStr : Nat) (before after : Memory),
      helper.run res k e.dName prs formatStr before = some after → after.growing = [] := by
  have hrest := (tableRun_refines port res xs entries).2 hgo
  obtain ⟨m, hent, hlen⟩ := hrest.entry
  have hentry := scrapeEntry_refines (e := e) res port hrest.growing hent hlen
  have hstart : ((tableRun port res xs entries).pool.modifyBytes 0
      fun m => overwrite m dNameOffset (e.dName ++ [nul])).finished.length =
        (tableRun port res xs entries).pool.finished.length := by
    rw [Pool.modifyBytes_finished _ hent, List.length_set]
  have hreleases : ((tableRun port res xs entries).pool.modifyBytes 0
      fun m => overwrite m dNameOffset (e.dName ++ [nul])).releases =
        (tableRun port res xs entries).pool.releases := by
    rw [Pool.modifyBytes, hent]
  have hgrowing := (@AtRest.readdir 0 _ e hrest).growing
  have hframe : ∀ {objs : List (Block (Procstat Nat))} {pool : Memory} {row : Row},
      Frame ((tableRun port res xs entries).pool.modifyBytes 0
        fun m => overwrite m dNameOffset (e.dName ++ [nul])) objs [] pool row →
      ∀ r ∈ pool.releases, r ∈ (tableRun port res xs entries).pool.releases ∨
        Safe (tableRun port res xs entries).pool.finished.length
          ((tableRun port res xs entries).pool.finished.length + 1) r.live r.ptr := by
    intro objs pool row h r hmem
    have hsafe := h.safe r hmem
    rw [SafeSince, hreleases, hstart] at hsafe
    exact hsafe
  have hhelpers : ∀ (helper : Helper) (k : Kernel) (prs formatStr : Nat) (before after : Memory),
      helper.run res k e.dName prs formatStr before = some after → after.growing = [] :=
    fun helper k prs formatStr before _ h => helper_growing res k e.dName prs formatStr before helper h
  dsimp only
  cases hscrape : scrapeEntry port res e 0 (tableRun port res xs entries).pool with
  | mk scrape pool =>
      rw [hscrape] at hentry
      generalize hrow : Row.scrape port e = outcome at hentry ⊢
      cases hentry with
      | notPid =>
          exact ⟨fun r hr => Or.inl (hreleases ▸ hr), hgrowing, fun _ _ h => (by cases h), hhelpers⟩
      | gone h => exact ⟨hframe h, h.growing, fun _ _ h => (by cases h), hhelpers⟩
      | fault f h => exact ⟨hframe h, h.growing, fun _ _ h => (by cases h), hhelpers⟩
      | ready h =>
          refine ⟨hframe h, h.growing, fun prs formatStr hready => ?_, hhelpers⟩
          obtain ⟨rfl, rfl⟩ := Scrape.ready.inj hready
          exact ⟨hstart, congrArg (· + 1) hstart, _, rfl, h.holdsRow hrow⟩

/-- The fields that are handed over as a string or an array. -/
theorem char_enabled {f : Field} {on : Bool} (h : f.char on = 's' ∨ f.char on = 'a') : on = true := by
  cases on with
  | true => rfl
  | false =>
      rcases spec_mem f with hs | hs | hs | hs | hs | hs <;>
        rw [Field.char, hs] at h <;> revert h <;> decide

/-- Their slots begin with a pointer that is not NULL. -/
theorem fieldSlots_pointer {π : Type} {upper : Field → UInt32} {deref : π → Mem} {p : Procstat π} {f : Field}
    (hchar : f.char true = 's' ∨ f.char true = 'a') (hstate : f = .state → p.state ≠ none)
    (hget : ∀ m : Member, f = m.field → p.get m ≠ none) :
    ∃ text rest, fieldSlots upper deref p f = .ptr (some text) :: rest := by
  have hptr : ∀ o : Option π, o ≠ none → ∃ text, o.map deref = some text := by
    intro o ho
    cases o with
    | none => exact absurd rfl ho
    | some ptr => exact ⟨_, rfl⟩
  revert hchar hstate hget
  rw [Field.char, Field.spec, defaultFormat_eq]
  cases f <;> intro hchar hstate hget
  case fname => exact ⟨_, _, rfl⟩
  case pctcpu => exact ⟨_, _, rfl⟩
  case pctmem => exact ⟨_, _, rfl⟩
  case state =>
    cases hs : p.state with
    | none => exact absurd hs (hstate rfl)
    | some s =>
        rw [fieldSlots, hs]
        exact ⟨_, _, rfl⟩
  case cmndline =>
    obtain ⟨text, ht⟩ := hptr p.cmndline (hget .cmndline rfl)
    exact ⟨text, _, by rw [fieldSlots, ht]⟩
  case exec =>
    obtain ⟨text, ht⟩ := hptr p.exec (hget .exec rfl)
    exact ⟨text, _, by rw [fieldSlots, ht]⟩
  case cwd =>
    obtain ⟨text, ht⟩ := hptr p.cwd (hget .cwd rfl)
    exact ⟨text, _, by rw [fieldSlots, ht]⟩
  case cmdline =>
    obtain ⟨text, ht⟩ := hptr p.cmdline (hget .cmdline rfl)
    exact ⟨text, _, by rw [fieldSlots, ht]⟩
  case environ =>
    obtain ⟨text, ht⟩ := hptr p.environ (hget .environ rfl)
    exact ⟨text, _, by rw [fieldSlots, ht]⟩
  all_goals exact absurd hchar (by decide)

/-- A field with a pointer that is not NULL is not read through NULL. -/
theorem groupValue_ne_nullDeref {π : Type} (upper : Field → UInt32) (deref : π → Mem) (p : Procstat π)
    (f : Field) (hstate : f = .state → p.state ≠ none)
    (hget : ∀ m : Member, f = m.field → p.get m ≠ none) :
    groupValue (f.char true) (fieldSlots upper deref p f) ≠ .error .nullDeref := by
  by_cases harray : f = .cmdline ∨ f = .environ
  · have hchar : f.char true = 'a' := by
      rw [Field.char, Field.spec, defaultFormat_eq]
      rcases harray with rfl | rfl <;> rfl
    obtain ⟨text, rest, hslots⟩ := @fieldSlots_pointer π upper deref p f (Or.inr hchar) hstate hget
    have hrest : ∃ w, rest = [.word w] := by
      rcases harray with rfl | rfl
      · exact ⟨_, ((List.cons.inj hslots).2).symm⟩
      · exact ⟨_, ((List.cons.inj hslots).2).symm⟩
    obtain ⟨w, rfl⟩ := hrest
    rw [hchar, hslots, groupValue_array]
    cases hv : newArray (some text) (toInt w) with
    | error f =>
        intro h
        obtain rfl := Except.error.inj h
        exact newArray_ne_nullDeref _ _ hv
    | ok av =>
        intro h
        cases h
  · obtain ⟨v, hv⟩ := groupValue_enabled upper deref p f hstate hget fun h => absurd h harray
    rw [hv]
    intro h
    cases h

/-- The pointers of a record that an iteration leaves: none of an enabled field is NULL. -/
theorem Frame.pointers {start pool : Memory} {objs : List (Block (Procstat Nat))} {row : Row}
    (h : Frame start objs [] pool row) {port : Port} {e : DirEntry}
    (hrow : Row.scrape port e = .ready row) :
    ∃ p, pool.recordAt? start.finished.length = some p ∧
      (e.enabledFields port .state = true → p.state ≠ none) ∧
      ∀ m : Member, e.enabledFields port m.field = true → p.get m ≠ none := by
  obtain ⟨p, hp, hat⟩ := h.record_at
  obtain ⟨hstate, hget⟩ := ready_pointer hrow
  refine ⟨p, Pool.recordAt?_of_getElem? hat, ?_, ?_⟩
  · rw [show p.state = row.prs.state from congrArg Scraped.state hp.1]
    exact hstate
  · intro m hen hnone
    have hshow := hp.2 m
    rw [hnone] at hshow
    cases htext : row.prs.get m with
    | none => exact hget m hen htext
    | some text =>
        rw [htext] at hshow
        exact hshow

/-- With such pointers the call does not read through NULL. -/
theorem bless_ne_nullDeref {π : Type} {port : Port} {upper : Field → UInt32} {deref : π → Mem}
    {p : Procstat π} {e : DirEntry}
    (hstate : e.enabledFields port .state = true → p.state ≠ none)
    (hget : ∀ m : Member, e.enabledFields port m.field = true → p.get m ≠ none) (xs : Interp) :
    (blessIntoProc (formatOf (e.enabledFields port)) fieldKeys (blessArgs upper deref p) xs).2 ≠
      some .nullDeref := by
  rw [blessArgs_eq, blessIntoProc_fields fun f => takes_fieldSlots upper _ p f _]
  cases hgroups : blessGroups xs.ttydevs
      (fieldColumns (e.enabledFields port) (fieldSlots upper deref p)) HV.empty with
  | ok obj =>
      intro h
      cases h
  | error fault =>
      intro h
      obtain rfl := Option.some.inj h
      obtain ⟨col, hcol, herr⟩ := blessGroups_error hgroups
      obtain ⟨f, _, rfl⟩ := List.mem_map.mp hcol
      dsimp only at herr
      cases hen : e.enabledFields port f with
      | false =>
          rw [hen, groupValue_masked] at herr
          cases herr
      | true =>
          rw [hen] at herr
          refine groupValue_ne_nullDeref upper _ p f ?_ ?_ herr
          · rintro rfl
            exact hstate hen
          · rintro m rfl
            exact hget m hen

/-- **No enabled pointer is NULL.**  At every call of `bless_into_proc`, a field
whose format character is `s` or `a` has a pointer argument that is not NULL,
and the call does not read through NULL. -/
theorem enabled_pointer_ne_null (hgo : (tableRun port res xs entries).fault = none)
    {prs formatStr : Nat} {pool : Memory}
    (hready : scrapeEntry port res e 0 (tableRun port res xs entries).pool =
      (.ready prs formatStr, pool)) :
    ∃ p, pool.recordAt? prs = some p ∧
      blessArgs e.upper pool.bytesAt p = Field.all.flatMap (fieldSlots e.upper pool.bytesAt p) ∧
      (∀ f : Field, (pool.bytesAt formatStr)[f.idx]? = some 's' ∨
          (pool.bytesAt formatStr)[f.idx]? = some 'a' →
        ∃ text rest, fieldSlots e.upper pool.bytesAt p f = .ptr (some text) :: rest) ∧
      (blessIntoProc (pool.bytesAt formatStr) fieldKeys (blessArgs e.upper pool.bytesAt p)
        (tableRun port res xs entries).xs).2 ≠ some .nullDeref := by
  obtain ⟨start, objs, row, hrow, hframe, rfl, rfl⟩ := tableRun_ready hgo hready
  obtain ⟨p, hat, hstate, hget⟩ := hframe.pointers hrow
  have hformat : pool.bytesAt (start.finished.length + 1) = formatOf (e.enabledFields port) := by
    rw [hframe.bytesAt_format, Row.ready_formatStr hrow]
  refine ⟨p, hat, blessArgs_eq e.upper _ p, ?_, ?_⟩
  · intro f hf
    have hchar : f.char (e.enabledFields port f) = 's' ∨ f.char (e.enabledFields port f) = 'a' := by
      rw [hformat, formatOf_getElem?] at hf
      exact hf.imp Option.some.inj Option.some.inj
    have hen := char_enabled hchar
    rw [hen] at hchar
    apply fieldSlots_pointer hchar
    · rintro rfl
      exact hstate hen
    · rintro m rfl
      exact hget m hen
  · rw [hformat]
    exact bless_ne_nullDeref hstate hget _

end Discipline

/-- The discipline of an iteration that gets to `bless_into_proc`. -/
theorem pool_discipline_unreadable :
    ∃ prs formatStr pool row,
      scrapeEntry samplePort clearedMemory unreadableEntry 0
          (tableRun samplePort clearedMemory ⟨none, none, []⟩ []).pool =
        (.ready prs formatStr, pool) ∧
      Row.scrape samplePort unreadableEntry = .ready row ∧
      HoldsRow pool prs formatStr unreadableEntry row ∧ pool.growing = [] ∧
      ∀ r ∈ pool.releases,
        r ∈ (tableRun samplePort clearedMemory ⟨none, none, []⟩ []).pool.releases ∨
          Safe prs formatStr r.live r.ptr := by
  obtain ⟨r, hr⟩ := unreadableEntry_ready
  obtain ⟨prs, formatStr, pool, hready⟩ := @tableRun_ready_of samplePort clearedMemory
    unreadableEntry ⟨none, none, []⟩ [] rfl r hr
  obtain ⟨hsafe, hgrowing, hholds, _⟩ :=
    pool_discipline samplePort clearedMemory ⟨none, none, []⟩ [] unreadableEntry rfl
  rw [hready] at hsafe hgrowing hholds
  obtain ⟨hprs, hformat, row, hrow, hrows⟩ := hholds prs formatStr rfl
  refine ⟨prs, formatStr, pool, row, hready, hrow, hrows, hgrowing, ?_⟩
  rw [hprs, hformat]
  exact hsafe

/-- The pointers of an iteration that gets to `bless_into_proc`. -/
theorem enabled_pointer_ne_null_unreadable :
    ∃ prs formatStr pool p,
      scrapeEntry samplePort clearedMemory unreadableEntry 0
          (tableRun samplePort clearedMemory ⟨none, none, []⟩ []).pool =
        (.ready prs formatStr, pool) ∧
      pool.recordAt? prs = some p ∧
      ∀ f : Field, (pool.bytesAt formatStr)[f.idx]? = some 's' ∨
          (pool.bytesAt formatStr)[f.idx]? = some 'a' →
        ∃ text rest, fieldSlots unreadableEntry.upper pool.bytesAt p f = .ptr (some text) :: rest := by
  obtain ⟨r, hr⟩ := unreadableEntry_ready
  obtain ⟨prs, formatStr, pool, hready⟩ := @tableRun_ready_of samplePort clearedMemory
    unreadableEntry ⟨none, none, []⟩ [] rfl r hr
  obtain ⟨p, hp, _, hpointer, _⟩ :=
    enabled_pointer_ne_null samplePort clearedMemory ⟨none, none, []⟩ [] unreadableEntry rfl hready
  exact ⟨prs, formatStr, pool, p, hready, hp, hpointer⟩

end Linux
