import ProcProcessTable.LinuxPrograms

/-!
# The requests of OS_get_table are legal

Every request that `OS_get_table` makes of its pool asks only for objects that
are on the pool, stays inside them, and appends what fits into the address
space.  The frame of the iteration says which objects there are; the lengths
are those of lists the scans only ever change in place.
-/

namespace Linux

open CText MemPool Xs

/-! ## Lengths that do not change -/

/-- One character is replaced. -/
@[simp] theorem length_fieldEnable (formatStr : Mem) (f : Field) :
    (fieldEnable formatStr f).length = formatStr.length := List.length_modify _ _ _

/-- And one after the other. -/
@[simp] theorem length_fieldEnableRange (formatStr : Mem) (f1 f2 : Field) :
    (fieldEnableRange formatStr f1 f2).length = formatStr.length := by
  unfold fieldEnableRange
  generalize List.range' f1.idx (f2.idx + 1 - f1.idx) = fields
  induction fields generalizing formatStr with
  | nil => rfl
  | cons i fields ih =>
      rw [List.foldl_cons, ih]
      exact List.length_modify _ _ _

/-- The NULs in front are replaced. -/
theorem length_nulsToSpaces (m : Mem) (n : Nat) : (nulsToSpaces m n).length = m.length := by
  unfold nulsToSpaces
  rw [List.length_append, List.length_map, ← List.length_append, List.take_append_drop]

/-- `get_proc_stat` puts a NUL into the text, which stays as long as it was. -/
theorem length_scanStat_text (m : Mem) (prs : Scraped) : (scanStat m prs).text.length = m.length := by
  unfold scanStat
  dsimp only
  split
  · rfl
  · split
    · rfl
    · split
      · exact List.length_set
      · split <;> exact List.length_set

/-- `fixup_stat_values` lowers characters of the format. -/
theorem length_fixup (g : Globals) (fp : FloatOps) (formatStr : Mem) (prs : Scraped) :
    (fixupStatValues g fp formatStr prs).1.length = formatStr.length := by
  unfold fixupStatValues
  cases stateOf prs.stateC with
  | none => exact length_fieldEnableRange _ _ _
  | some state => exact (length_fieldEnableRange _ _ _).trans (length_fieldEnable _ _)

/-- `calc_prec` too. -/
theorem length_calcPrec {g : Globals} {fp : FloatOps} {k : Kernel} {formatStr : Mem} {prs : Scraped}
    {out : Mem × Scraped} (h : calcPrec g fp k formatStr prs = .ok out) :
    out.1.length = formatStr.length := by
  unfold calcPrec at h
  dsimp only at h
  split at h
  · split at h
    · obtain rfl := Except.ok.inj h
      exact (length_fieldEnable _ _).trans (length_fieldEnable _ _)
    · cases h
  · obtain rfl := Except.ok.inj h
    exact length_fieldEnable _ _

/-- And the body of the loop over the status lines. -/
theorem length_statusBody (m : Mem) (s : Mem × Scraped) :
    (statusBody m s).1.1.length = s.1.length := by
  unfold statusBody
  dsimp only
  split
  · exact length_fieldEnableRange _ _ _
  · split
    · exact length_fieldEnableRange _ _ _
    · split
      · exact length_fieldEnable _ _
      · rfl

/-- What the body of a line loop keeps, the loop keeps. -/
theorem lineLoop_keeps {σ : Type} {body : Mem → σ → σ × Bool} {P : σ → Prop}
    (hbody : ∀ m s, P s → P (body m s).1) {text : Mem} {fuel off : Nat} {s s' : σ}
    (h : LineLoop.run body text fuel off s = some s') (hs : P s) : P s' := by
  induction fuel generalizing off s with
  | zero => cases h
  | succ fuel ih =>
      rw [LineLoop.run] at h
      generalize (if off = 0 then off else off + 1) = start at h
      have hnext := hbody (text.drop start) s hs
      cases hb : body (text.drop start) s with
      | mk s₁ stop =>
          rw [hb] at h hnext
          cases stop with
          | true =>
              obtain rfl := Option.some.inj h
              exact hnext
          | false =>
              dsimp only at h
              split at h
              · obtain rfl := Option.some.inj h
                exact hnext
              · exact ih h hnext

/-- Hence the whole loop. -/
theorem length_scanStatus {m formatStr : Mem} {prs : Scraped} {out : Mem × Scraped}
    (h : scanStatus m formatStr prs = some out) : out.1.length = formatStr.length :=
  lineLoop_keeps (P := fun s : Mem × Scraped => s.1.length = formatStr.length)
    (fun m s hs => (length_statusBody m s).trans hs) h rfl

namespace OnPool

/-! ## Requests that are legal -/

section

variable {word : Nat} (hword : 2 ^ 16 ≤ word) {ρ : Type} {res : Residue ρ}

include hword

/-- A path with a name of at most 255 characters. -/
theorem procPidFile_legal {pid : List Char} (hpid : pid.length ≤ 255) {file : Option (List Char)}
    (hfile : ∀ f ∈ file, f.length ≤ 255) (p : Pool ρ) :
    (procPidFile pid file).Legal word res p := by
  have hdir : procDir.length = 6 := rfl
  unfold procPidFile
  simp only [Program.legal_bind, Program.legal_grow, List.length_append]
  refine ⟨by omega, ?_⟩
  cases file with
  | none =>
      simp only [Program.legal_bind, Program.legal_oneGrow, Program.legal_finish, and_true]
  | some f =>
      have hf := hfile f rfl
      simp only [Program.legal_bind, Program.legal_grow, Program.legal_oneGrow,
        Program.legal_finish, List.length_cons]
      exact ⟨by omega, trivial, trivial⟩

/-- Each turn of the loop asks for 1024 bytes more, and keeps those it read. -/
theorem readLoop_legal (failed : Bool) {chunks : List (List Char)}
    (hchunks : ∀ c ∈ chunks, c.length ≤ 1024) :
    ∀ (len : Nat) (p : Pool ρ), len ≤ p.growing.length →
      (readLoop failed chunks len).Legal word res p := by
  induction chunks with
  | nil =>
      intro len p _
      simp only [readLoop, Program.legal_bind, Program.legal_blank, Program.legal_pure]
      exact ⟨by omega, trivial⟩
  | cons chunk chunks ih =>
      intro len p hlen
      have hchunk := hchunks chunk List.mem_cons_self
      have hblank : (p.blank res 1024).growing.length = p.growing.length + 1024 := by
        simp [Pool.blank]
      have hfit : len + chunk.length ≤ (p.blank res 1024).growing.length := by omega
      simp only [readLoop, Program.legal_bind, Program.legal_blank, Program.run_blank,
        Program.legal_poke, Program.run_poke]
      refine ⟨by omega, hfit, ih (fun c hc => hchunks c (List.mem_cons_of_mem _ hc)) _ _ ?_⟩
      show _ ≤ (overwrite _ _ _).length
      rw [length_overwrite hfit]
      exact hfit

/-- A file may be read whenever nothing grows. -/
theorem readFile_legal (k : Kernel) {path : List Char} {extraPath : Option (List Char)} {p : Pool ρ}
    (hrest : p.growing = []) (hlen : path.length ≤ 255) (hextra : ∀ f ∈ extraPath, f.length ≤ 255) :
    (readFile k path extraPath).Legal word res p := by
  obtain ⟨hptr, hpush⟩ := procPidFile_pushed path extraPath hrest
  unfold readFile
  rw [Program.legal_bind, procPidFile_run]
  refine ⟨procPidFile_legal hword hlen hextra p, ?_⟩
  generalize Linux.procPidFile path extraPath p = out at hptr hpush ⊢
  have hfile : out.2.finished[out.1]? = some (.bytes (pidPath path extraPath ++ [nul])) := by
    rw [hpush.finished, hptr, List.getElem?_append_right (Nat.le_refl _), Nat.sub_self]
    rfl
  rw [Program.legal_bind, Program.legal_bytesAt, Program.run_bytesAt, Program.legal_bind,
    Program.legal_free, Program.run_free]
  refine ⟨⟨_, hfile⟩, Pool.lt_of_getElem? hfile, ?_⟩
  cases k.openFile (cstr (out.2.bytesAt out.1)) with
  | none => exact Program.legal_pure _ _
  | some reads =>
      have hchunks : ∀ c ∈ reads.chunks, c.length ≤ 1024 := fun c hc => (reads.chunk_bounds c hc).2
      obtain ⟨p₂, junk, hrun, hgrow, hjunk, _, _⟩ :=
        readLoop_spec res reads.failed hchunks [] [] (out.2.free out.1) rfl
      rw [List.length_nil, List.nil_append] at hrun
      rw [List.nil_append] at hgrow
      dsimp only
      rw [Program.legal_bind, readLoop_run, hrun]
      refine ⟨readLoop_legal hword _ hchunks 0 _ (Nat.zero_le _), ?_⟩
      cases reads.failed with
      | true =>
          simp only [if_true, Program.legal_bind, Program.legal_finish, Program.legal_free,
            Program.run_finish, Program.legal_pure]
          refine ⟨trivial, ?_, trivial⟩
          rw [Pool.finish_ptr, Pool.finish_finished, List.length_append]
          exact Nat.lt_succ_self _
      | false =>
          simp only [Bool.false_eq_true, if_false, Program.legal_bind, Program.legal_poke,
            Program.legal_finish, Program.legal_pure, and_self, and_true]
          rw [hgrow, List.length_append, List.length_singleton]
          omega

end

section

variable {word : Nat} (hword : 2 ^ 16 ≤ word) {res : Residue (Procstat Nat)} {start pool : Memory}
  {objs tmp : List (Block (Procstat Nat))} {row : Row} (k : Kernel) {pid : List Char}

/-- The record of a frame may be changed. -/
theorem legal_record (h : Frame start objs tmp pool row) (f : Procstat Nat → Procstat Nat) :
    (Program.modifyRecord start.finished.length f).Legal word res pool := by
  obtain ⟨p, _, hat⟩ := h.record_at
  exact (Program.legal_modifyRecord _ _ f).mpr ⟨p, hat⟩

/-- So may its format string, in place. -/
theorem legal_format (h : Frame start objs tmp pool row) {f : Mem → Mem}
    (hf : (f row.formatStr).length = row.formatStr.length) :
    (Program.modifyBytes (start.finished.length + 1) f).Legal word res pool :=
  (Program.legal_modifyBytes _ _ f).mpr ⟨_, h.format_at, hf⟩

/-- The record may be read. -/
theorem readScraped_legal (h : Frame start objs tmp pool row) :
    (readScraped start.finished.length).Legal word res pool := by
  obtain ⟨p, _, hat⟩ := h.record_at
  unfold readScraped
  rw [Program.legal_bind, Program.legal_recordAt?]
  exact ⟨⟨p, hat⟩, Program.legal_pure _ _⟩

/-- A path is read and released. -/
theorem legal_path {p : Pool (Procstat Nat)} (hrest : p.growing = []) (file : Option (List Char)) :
    (∃ m, (Linux.procPidFile pid file p).2.finished[(Linux.procPidFile pid file p).1]? =
        some (.bytes m)) ∧
      (Linux.procPidFile pid file p).1 < (Linux.procPidFile pid file p).2.finished.length := by
  obtain ⟨hptr, hpush⟩ := procPidFile_pushed pid file hrest
  have hfile : (Linux.procPidFile pid file p).2.finished[(Linux.procPidFile pid file p).1]? =
      some (.bytes (pidPath pid file ++ [nul])) := by
    rw [hpush.finished, hptr, List.getElem?_append_right (Nat.le_refl _), Nat.sub_self]
    rfl
  exact ⟨⟨_, hfile⟩, Pool.lt_of_getElem? hfile⟩

include hword

/-- **The helpers one by one**: in a frame each asks only for what is there. -/
theorem getUserInfo_legal (h : Frame start objs [] pool row) (hpid : nul ∉ pid)
    (hlen : pid.length ≤ 255) :
    (getUserInfo k pid start.finished.length (start.finished.length + 1)).Legal word res pool := by
  obtain ⟨_, hfree⟩ := procPidFile_frame h (@nul_not_mem_pidPath pid hpid none (by simp))
  obtain ⟨hread, hlt⟩ := @legal_path pid _ h.growing none
  unfold getUserInfo
  rw [Program.legal_bind, procPidFile_run]
  refine ⟨procPidFile_legal hword hlen (by simp) pool, ?_⟩
  rw [Program.legal_bind, Program.legal_bytesAt, Program.run_bytesAt, Program.legal_bind,
    Program.legal_free, Program.run_free]
  refine ⟨hread, hlt, ?_⟩
  dsimp only
  cases k.stat (cstr ((Linux.procPidFile pid none pool).2.bytesAt
      (Linux.procPidFile pid none pool).1)) with
  | none => exact Program.legal_pure _ _
  | some ids =>
      dsimp only
      rw [Program.legal_bind, Program.run_modifyRecord]
      refine ⟨legal_record hfree _, ?_⟩
      apply legal_format (hfree.scraped fun s => { s with
        uid := ids.1.toInt32, gid := ids.2.toInt32 })
      rw [length_fieldEnable, length_fieldEnable]

/-- This one needs no frame. -/
theorem pidExists_legal (hlen : pid.length ≤ 255) :
    (pidExists k pid).Legal word res pool := by
  have hdir : procDir.length = 6 := rfl
  unfold pidExists
  simp only [Program.legal_bind, Program.legal_grow, Program.legal_oneGrow, Program.legal_finish,
    Program.run_grow, Program.run_oneGrow, Program.run_finish, Program.legal_bytesAt,
    Program.run_bytesAt, Program.legal_free, Program.legal_pure, Pool.finish_ptr,
    Pool.finish_finished, Pool.grow_finished, List.length_append, List.length_singleton]
  refine ⟨by omega, trivial, trivial, ⟨((pool.grow (procDir ++ pid)).grow [nul]).growing, ?_⟩,
    Nat.lt_succ_self _, trivial⟩
  rw [List.getElem?_append_right (Nat.le_refl _), Nat.sub_self]
  rfl

/-- What follows `read_file`, with and without a text on top of the frame. -/
theorem legal_readFile {β : Type} {next : Option (Nat × Nat) → OnMemory β}
    (h : Frame start objs [] pool row) (hpid : nul ∉ pid) (hlen : pid.length ≤ 255)
    {name : List Char} (hname : nul ∉ name) (hnamelen : name.length ≤ 255)
    (hnone : ∀ pool' : Memory, Frame start objs [] pool' row → (next none).Legal word res pool')
    (hsome : ∀ (content junk : List Char) (pool' : Memory),
      Pool.Pushed pool [.bytes (content ++ nul :: junk)] pool' →
      Frame start objs [.bytes (content ++ nul :: junk)] pool' row →
      (next (some (start.finished.length + 2 + objs.length, content.length))).Legal word res pool') :
    (readFile k pid (some name) >>= next).Legal word res pool := by
  have hpath : nul ∉ pidPath pid (some name) := by
    refine nul_not_mem_pidPath hpid ?_
    intro f hf
    rwa [← Option.mem_some.mp hf]
  have hshort : ∀ f ∈ some name, f.length ≤ 255 := by
    intro f hf
    rwa [← Option.mem_some.mp hf]
  rw [Program.legal_bind, readFile_run]
  refine ⟨readFile_legal hword k h.growing hlen hshort, ?_⟩
  dsimp only
  cases hfile : Row.file k pid name with
  | none =>
      obtain ⟨htext, hframe⟩ := readFile_frame_none res k h hpath hfile
      rw [htext]
      exact hnone _ hframe
  | some content =>
      obtain ⟨junk, htext, hpush⟩ := readFile_frame_some res k h hpath hfile
      rw [htext]
      exact hsome content junk _ hpush (h.pushed hpush)

omit hword in
/-- The object on top of a frame. -/
theorem top_at {m : Mem} (h : Frame start objs [.bytes m] pool row) :
    pool.finished[start.finished.length + 2 + objs.length]? = some (.bytes m) := by
  obtain ⟨p, _, hstack⟩ := h.stack
  rw [hstack, List.getElem?_append_right (by omega)]
  have hidx : start.finished.length + 2 + objs.length - start.finished.length =
      objs.length + 2 := by omega
  rw [hidx]
  show (objs ++ [Block.bytes m])[objs.length]? = _
  rw [List.getElem?_append_right (Nat.le_refl _), Nat.sub_self]
  rfl

/-- The text is cut in place, and the record filled. -/
theorem getProcStat_legal (h : Frame start objs [] pool row) (hpid : nul ∉ pid)
    (hlen : pid.length ≤ 255) :
    (getProcStat k pid start.finished.length (start.finished.length + 1)).Legal word res pool := by
  refine legal_readFile hword k h hpid hlen (by decide +kernel) (by decide +kernel)
    (fun _ _ => Program.legal_pure _ _) ?_
  intro content junk pool' hpush hframe
  have hcut : Frame start objs
      [.bytes (scanStat (content ++ nul :: junk) row.prs.toScraped).text]
      (pool'.modifyBytes (start.finished.length + 2 + objs.length) fun _ =>
        (scanStat (content ++ nul :: junk) row.prs.toScraped).text) row := by
    have hmod := h.pushed (hpush.modifyTop fun _ =>
      (scanStat (content ++ nul :: junk) row.prs.toScraped).text)
    rwa [h.length_eq] at hmod
  have hset := hcut.scraped fun _ => (scanStat (content ++ nul :: junk) row.prs.toScraped).prs
  have htop := top_at hframe
  have hread := Pool.bytesAt_of_getElem? htop
  dsimp only
  rw [Program.legal_bind, Program.legal_bytesAt, Program.run_bytesAt]
  refine ⟨⟨_, htop⟩, ?_⟩
  rw [Program.legal_bind, readScraped_run]
  refine ⟨readScraped_legal hframe, ?_⟩
  dsimp only
  rw [hframe.scrapedAt_eq, hread, Program.legal_bind, Program.legal_modifyBytes,
    Program.run_modifyBytes]
  refine ⟨⟨_, htop, length_scanStat_text _ _⟩, ?_⟩
  rw [Program.legal_bind, Program.run_modifyRecord]
  refine ⟨legal_record hcut _, ?_⟩
  dsimp only
  cases (scanStat (content ++ nul :: junk) row.prs.toScraped).enabled with
  | false =>
      rw [if_neg Bool.noConfusion]
      exact (Program.legal_bind _ _ _).mpr
        ⟨(Program.legal_free _ _).mpr (Pool.lt_of_getElem? (top_at hset)), Program.legal_pure _ _⟩
  | true =>
      rw [if_pos rfl, Program.legal_bind, Program.run_modifyBytes]
      refine ⟨legal_format hset (length_fieldEnableRange _ _ _), ?_⟩
      have hformat := hset.format fun s => fieldEnableRange s .pid .wchan
      exact (Program.legal_bind _ _ _).mpr
        ⟨(Program.legal_free _ _).mpr (Pool.lt_of_getElem? (top_at hformat)), Program.legal_pure _ _⟩

omit hword in
/-- A pointer is set and its field enabled. -/
theorem legal_point (h : Frame start objs tmp pool row) (f : Procstat Nat → Procstat Nat)
    (field : Field) :
    (do Program.modifyRecord start.finished.length f
        Program.modifyBytes (start.finished.length + 1) fun s => fieldEnable s field :
      OnMemory Unit).Legal word res pool := by
  obtain ⟨p, _, hat⟩ := h.record_at
  rw [Program.legal_bind, Program.run_modifyRecord, Program.legal_modifyBytes]
  refine ⟨legal_record h f, row.formatStr, ?_, length_fieldEnable _ _⟩
  dsimp only
  rw [Pool.modifyRecord_finished f hat, List.getElem?_set_ne (by omega)]
  exact h.format_at

/-- The text is changed in place, and stays on the stack. -/
theorem getProcCmndline_legal (h : Frame start objs [] pool row) (hpid : nul ∉ pid)
    (hlen : pid.length ≤ 255) :
    (getProcCmndline k pid start.finished.length (start.finished.length + 1)).Legal word res pool := by
  refine legal_readFile hword k h hpid hlen (by decide +kernel) (by decide +kernel)
    (fun _ _ => Program.legal_pure _ _) ?_
  intro content junk pool' hpush hframe
  have hmod := h.pushed (hpush.modifyTop fun m => nulsToSpaces m content.length)
  rw [h.length_eq] at hmod
  dsimp only
  rw [Program.legal_bind, Program.legal_modifyBytes, Program.run_modifyBytes]
  exact ⟨⟨_, top_at hframe, length_nulsToSpaces _ _⟩, legal_point hmod _ .cmndline⟩

/-- The text stays as it was read. -/
theorem getProcCmdline_legal (h : Frame start objs [] pool row) (hpid : nul ∉ pid)
    (hlen : pid.length ≤ 255) :
    (getProcCmdline k pid start.finished.length (start.finished.length + 1)).Legal word res pool :=
  legal_readFile hword k h hpid hlen (by decide +kernel) (by decide +kernel)
    (fun _ _ => Program.legal_pure _ _)
    fun _ _ _ _ hframe => legal_point hframe _ .cmdline

/-- The same for the environment. -/
theorem getProcEnviron_legal (h : Frame start objs [] pool row) (hpid : nul ∉ pid)
    (hlen : pid.length ≤ 255) :
    (getProcEnviron k pid start.finished.length (start.finished.length + 1)).Legal word res pool :=
  legal_readFile hword k h hpid hlen (by decide +kernel) (by decide +kernel)
    (fun _ _ => Program.legal_pure _ _)
    fun _ _ _ _ hframe => legal_point hframe _ .environ

/-- The path is put on the stack, where it must fit. -/
theorem evalLink_legal (h : Frame start objs [] pool row) (hpid : nul ∉ pid)
    (hlen : pid.length ≤ 255) {linkRel : List Char} (hrel : nul ∉ linkRel)
    (hrellen : linkRel.length ≤ 255)
    (hlink : ∀ path link, k.realpath path = some link → link.length < word) (field : Field)
    (ptr : Member) :
    (evalLink k pid linkRel field ptr start.finished.length (start.finished.length + 1)).Legal word
      res pool := by
  have hpath : nul ∉ pidPath pid (some linkRel) := by
    refine nul_not_mem_pidPath hpid ?_
    intro f hf
    rwa [← Option.mem_some.mp hf]
  have hshort : ∀ f ∈ some linkRel, f.length ≤ 255 := by
    intro f hf
    rwa [← Option.mem_some.mp hf]
  obtain ⟨_, hfree⟩ := procPidFile_frame h hpath
  obtain ⟨hread, hlt⟩ := @legal_path pid _ h.growing (some linkRel)
  unfold evalLink
  rw [Program.legal_bind, procPidFile_run]
  refine ⟨procPidFile_legal hword hlen hshort pool, ?_⟩
  generalize Linux.procPidFile pid (some linkRel) pool = out at hfree hread hlt ⊢
  rw [Program.legal_bind, Program.legal_bytesAt, Program.run_bytesAt, Program.legal_bind,
    Program.legal_free, Program.run_free]
  refine ⟨hread, hlt, ?_⟩
  dsimp only
  cases hreal : k.realpath (cstr (out.2.bytesAt out.1)) with
  | none => exact Program.legal_pure _ _
  | some link =>
      have hcstr : (cstr link).length ≤ link.length := (List.takeWhile_sublist _).length_le
      have hfit := hlink _ _ hreal
      have hpush := Pool.Pushed.of_finish (p := out.2.free out.1)
        (q := ((out.2.free out.1).grow (cstr link)).grow [nul]) rfl rfl
      have hframe := hfree.pushed hpush
      dsimp only
      rw [Program.legal_bind, Program.legal_grow, Program.run_grow, Program.legal_bind,
        Program.run_oneGrow, Program.legal_bind, Program.run_finish]
      exact ⟨by omega, Program.legal_oneGrow _ _, Program.legal_finish _,
        legal_point hframe _ field⟩

/-- The format string is changed in place. -/
theorem getProcStatus_legal (h : Frame start objs [] pool row) (hpid : nul ∉ pid)
    (hlen : pid.length ≤ 255) :
    (getProcStatus k pid start.finished.length (start.finished.length + 1)).Legal word res pool := by
  refine legal_readFile hword k h hpid hlen (by decide +kernel) (by decide +kernel)
    (fun _ _ => Program.legal_pure _ _) ?_
  intro content junk pool' hpush hframe
  have htop := top_at hframe
  dsimp only
  rw [Program.legal_bind, Program.legal_bytesAt, Program.run_bytesAt]
  refine ⟨⟨_, htop⟩, ?_⟩
  rw [Program.legal_bind, Program.legal_bytesAt, Program.run_bytesAt]
  refine ⟨⟨_, hframe.format_at⟩, ?_⟩
  rw [Program.legal_bind, readScraped_run]
  refine ⟨readScraped_legal hframe, ?_⟩
  dsimp only
  rw [hframe.bytesAt_format]
  cases hscan : scanStatus (pool'.bytesAt (start.finished.length + 2 + objs.length)) row.formatStr
      (scrapedAt pool' start.finished.length) with
  | none => exact Program.legal_pure _ _
  | some out =>
      have hset := hframe.scraped fun _ => out.2
      have hformat := hset.format fun _ => out.1
      dsimp only
      rw [Program.legal_bind, Program.run_modifyRecord]
      refine ⟨legal_record hframe _, ?_⟩
      rw [Program.legal_bind, Program.run_modifyBytes]
      refine ⟨legal_format hset (length_scanStatus hscan), ?_⟩
      exact (Program.legal_bind _ _ _).mpr
        ⟨(Program.legal_free _ _).mpr (Pool.lt_of_getElem? (top_at hformat)), Program.legal_pure _ _⟩

/-- The two objects of a new process. -/
theorem newEntry_legal (hrest : pool.growing = []) : newEntry.Legal word res pool := by
  have hformat : defaultFormat.length < word := by
    have hshort : defaultFormat.length ≤ 255 := by
      rw [defaultFormat_eq]
      decide
    omega
  have hat : (pool.allocRecord res).2.finished[pool.finished.length]? =
      some (.record (res.record pool.clock)) := by
    simp [Pool.allocRecord]
  unfold newEntry
  simp only [Program.legal_bind, Program.legal_allocRecord, Program.run_allocRecord,
    Program.legal_modifyRecord, Program.legal_grow, Program.legal_oneGrow, Program.legal_finish,
    Program.legal_pure, and_true]
  exact ⟨hrest, ⟨_, hat⟩, hformat⟩

end

section

variable {word : Nat} (hword : 2 ^ 16 ≤ word) {res : Residue (Procstat Nat)} {start pool : Memory}
  {objs : List (Block (Procstat Nat))} {row : Row} {port : Port} {e : DirEntry} {dirEnt : Nat}

/-- The paths that the kernel resolves fit into the address space. -/
def PathsFit (word : Nat) (e : DirEntry) : Prop :=
  ∀ moment path link, (e.world moment).realpath path = some link → link.length < word

/-- What an iteration owes to the directory entry below it. -/
structure Named (start : Memory) (e : DirEntry) (dirEnt : Nat) : Prop where
  name : Linux.readName dirEnt start = e.dName
  entry : ∃ m, start.finished[dirEnt]? = some (.bytes m)

/-- The entry is one of the objects. -/
theorem Named.lt (h : Named start e dirEnt) : dirEnt < start.finished.length := by
  obtain ⟨m, hm⟩ := h.entry
  exact Pool.lt_of_getElem? hm

/-- The name is read at any point of the iteration. -/
theorem legal_readName {β : Type} {next : List Char → OnMemory β}
    {tmp : List (Block (Procstat Nat))} (hnamed : Named start e dirEnt)
    (h : Frame start objs tmp pool row) (hnext : (next e.dName).Legal word res pool) :
    (readName dirEnt >>= next).Legal word res pool := by
  obtain ⟨m, hm⟩ := hnamed.entry
  obtain ⟨p, _, hstack⟩ := h.stack
  rw [Program.legal_bind, readName_run, h.readName_eq hnamed.name hnamed.lt]
  refine ⟨?_, hnext⟩
  unfold readName
  rw [Program.legal_bind, Program.legal_bytesAt]
  refine ⟨⟨m, ?_⟩, Program.legal_pure _ _⟩
  rw [hstack]
  exact Pool.getElem?_append_of_some hm

include hword

/-- **The parts of an iteration**: first what it needs the stat file for. -/
theorem scrapeStat_legal (hnamed : Named start e dirEnt) (h : Frame start objs [] pool row) :
    (scrapeStat e dirEnt start.finished.length (start.finished.length + 1)).Legal word res pool := by
  have hpid := e.dName_nulFree
  have hlen := e.dName_length
  have h₁ := getUserInfo_frame (e.world .userInfo) h hpid
  obtain ⟨_, h₂⟩ := getProcStat_frame res (e.world .procStat) h₁ hpid
  refine legal_readName hnamed h ?_
  rw [Program.legal_bind, getUserInfo_run]
  refine ⟨getUserInfo_legal hword _ h hpid hlen, legal_readName hnamed h₁ ?_⟩
  rw [Program.legal_bind, getProcStat_run]
  refine ⟨getProcStat_legal hword _ h₁ hpid hlen, ?_⟩
  split
  · exact legal_readName hnamed h₂ (pidExists_legal hword _ hlen)
  · exact Program.legal_pure _ _

/-- Then the other files and the links. -/
theorem scrapeFiles_legal (hnamed : Named start e dirEnt) (hpaths : PathsFit word e)
    (h : Frame start objs [] pool row) :
    (scrapeFiles port e dirEnt start.finished.length (start.finished.length + 1)).Legal word res
      pool := by
  have hpid := e.dName_nulFree
  have hlen := e.dName_length
  have h₀ := (h.scraped fun _ => (fixupStatValues port.globals port.float row.formatStr
    row.prs.toScraped).2).format fun _ => (fixupStatValues port.globals port.float row.formatStr
    row.prs.toScraped).1
  obtain ⟨_, h₁⟩ := getProcCmndline_frame res (e.world .cmndline) h₀ hpid
  obtain ⟨_, h₂⟩ := getProcCmdline_frame res (e.world .cmdline) h₁ hpid
  obtain ⟨_, h₃⟩ := getProcEnviron_frame res (e.world .environ) h₂ hpid
  obtain ⟨_, h₄⟩ := @evalLink_frame _ _ _ _ _ (e.world .cwd) h₃ hpid "cwd".toList
    (by decide +kernel) .cwd .cwd
  unfold scrapeFiles
  rw [Program.legal_bind, Program.legal_bytesAt, Program.run_bytesAt]
  refine ⟨⟨_, h.format_at⟩, ?_⟩
  rw [Program.legal_bind, readScraped_run]
  refine ⟨readScraped_legal h, ?_⟩
  dsimp only
  rw [h.bytesAt_format, h.scrapedAt_eq, Program.legal_bind, Program.run_modifyRecord]
  refine ⟨legal_record h _, ?_⟩
  rw [Program.legal_bind, Program.run_modifyBytes]
  refine ⟨legal_format (h.scraped fun _ => _) (length_fixup _ _ _ _), legal_readName hnamed h₀ ?_⟩
  rw [Program.legal_bind, getProcCmndline_run]
  refine ⟨getProcCmndline_legal hword _ h₀ hpid hlen, legal_readName hnamed h₁ ?_⟩
  rw [Program.legal_bind, getProcCmdline_run]
  refine ⟨getProcCmdline_legal hword _ h₁ hpid hlen, legal_readName hnamed h₂ ?_⟩
  rw [Program.legal_bind, getProcEnviron_run]
  refine ⟨getProcEnviron_legal hword _ h₂ hpid hlen, legal_readName hnamed h₃ ?_⟩
  rw [Program.legal_bind, evalLink_run]
  refine ⟨evalLink_legal hword _ h₃ hpid hlen (by decide +kernel) (by decide +kernel)
    (hpaths .cwd) _ _, legal_readName hnamed h₄ ?_⟩
  exact evalLink_legal hword _ h₄ hpid hlen (by decide +kernel) (by decide +kernel)
    (hpaths .exec) _ _

/-- Last the status file and the shares. -/
theorem scrapeRest_legal (hnamed : Named start e dirEnt) (h : Frame start objs [] pool row) :
    (scrapeRest port e dirEnt start.finished.length (start.finished.length + 1)).Legal word res
      pool := by
  have hpid := e.dName_nulFree
  have hstatus := getProcStatus_frame res (e.world .status) h hpid
  have hrun := getProcStatus_run res (e.world .status) e.dName start.finished.length
    (start.finished.length + 1) pool
  refine legal_readName hnamed h ?_
  rw [Program.legal_bind]
  refine ⟨getProcStatus_legal hword _ h hpid e.dName_length, ?_⟩
  cases hrow : row.status (e.world .status) e.dName with
  | none =>
      rw [hrow] at hstatus
      rw [hstatus] at hrun
      dsimp only at hrun
      rw [if_pos hrun]
      exact Program.legal_pure _ _
  | some row' =>
      rw [hrow] at hstatus
      obtain ⟨pool', hstatus, h'⟩ := hstatus
      rw [hstatus] at hrun
      dsimp only at hrun
      rw [hrun, if_neg Bool.noConfusion]
      rw [Program.legal_bind, Program.legal_bytesAt, Program.run_bytesAt]
      refine ⟨⟨_, h'.format_at⟩, ?_⟩
      rw [Program.legal_bind, readScraped_run]
      refine ⟨readScraped_legal h', ?_⟩
      dsimp only
      rw [h'.bytesAt_format]
      cases hcalc : calcPrec port.globals port.float (e.world .calcPrec) row'.formatStr
          (scrapedAt pool' start.finished.length) with
      | error f => exact Program.legal_pure _ _
      | ok out =>
          dsimp only
          rw [Program.legal_bind, Program.run_modifyRecord]
          refine ⟨legal_record h' _, ?_⟩
          rw [Program.legal_bind, Program.run_modifyBytes]
          exact ⟨legal_format (h'.scraped fun _ => out.2) (length_calcPrec hcalc),
            Program.legal_pure _ _⟩

/-- Together, from a pool at rest. -/
theorem scrapeEntry_legal (hpaths : PathsFit word e) (hrest : AtRest dirEnt pool) :
    (scrapeEntry port e dirEnt).Legal word res pool := by
  obtain ⟨m, hent, hlen⟩ := hrest.entry
  have hstart := hrest.readdir (e := e)
  have hname := readName_readdir (e := e) hent hlen
  have hnamelen := e.dName_length
  have hfits : (overwrite m dNameOffset (e.dName ++ [nul])).length = m.length := by
    apply length_overwrite
    rw [hlen, List.length_append, List.length_singleton]
    unfold dNameOffset sizeofDirent
    omega
  unfold scrapeEntry
  rw [Program.legal_bind, Program.legal_modifyBytes, Program.run_modifyBytes]
  refine ⟨⟨m, hent, hfits⟩, ?_⟩
  dsimp only
  obtain ⟨m', hent', _⟩ := hstart.entry
  generalize pool.modifyBytes dirEnt (fun m => overwrite m dNameOffset (e.dName ++ [nul])) = start
    at hstart hname hent' ⊢
  have hnamed : Named start e dirEnt := ⟨hname, m', hent'⟩
  obtain ⟨pool₀, hnew, h₀⟩ := newEntry_frame res hstart.growing
  rw [Program.legal_bind, readName_run, hname]
  refine ⟨?_, ?_⟩
  · unfold readName
    rw [Program.legal_bind, Program.legal_bytesAt]
    exact ⟨⟨m', hent'⟩, Program.legal_pure _ _⟩
  · dsimp only
    split
    · exact Program.legal_pure _ _
    · rw [Program.legal_bind, newEntry_run, hnew]
      refine ⟨newEntry_legal hword hstart.growing, ?_⟩
      dsimp only
      rw [Program.legal_bind, scrapeStat_run]
      refine ⟨scrapeStat_legal hword hnamed h₀, ?_⟩
      obtain ⟨_, h₁⟩ := scrapeStat_frame res hnamed.name hnamed.lt h₀
      split
      · exact Program.legal_pure _ _
      · obtain ⟨objs₂, h₂⟩ := @scrapeFiles_frame port res _ _ _ _ _ _ hnamed.name hnamed.lt h₁
        rw [Program.legal_bind, scrapeFiles_run]
        exact ⟨scrapeFiles_legal hword hnamed hpaths h₁, scrapeRest_legal hword hnamed h₂⟩

omit hword in
/-- The members that point to text are read behind the iteration. -/
theorem readTexts_legal (h : Frame start objs [] pool row) {p : Procstat Nat}
    (hp : pool.recordAt? start.finished.length = some p) :
    (readTexts p).Legal word res pool := by
  obtain ⟨p', hrep, hat⟩ := h.record_at
  obtain rfl : p' = p := Option.some.inj ((Pool.recordAt?_of_getElem? hat).symm.trans hp)
  have hpool : ∀ ptr : Option Nat, ((readMember ptr).run res pool).2 = pool := by
    intro ptr
    cases ptr <;> rfl
  have hmember : ∀ m : Member, (readMember (p'.get m)).Legal word res pool := by
    intro m
    have hshow := hrep.2 m
    cases hptr : p'.get m with
    | none => exact Program.legal_pure _ _
    | some ptr =>
        rw [hptr] at hshow
        cases htext : row.prs.get m with
        | none =>
            rw [htext] at hshow
            exact hshow.elim
        | some text =>
            rw [htext] at hshow
            obtain ⟨i, junk, rfl, hobj⟩ := hshow
            obtain ⟨q, _, hstack⟩ := h.stack
            unfold readMember
            rw [Program.legal_bind, Program.legal_bytesAt]
            refine ⟨⟨text ++ nul :: junk, ?_⟩, Program.legal_pure _ _⟩
            have hidx : start.finished.length + 2 + i - start.finished.length = i + 2 := by omega
            rw [hstack, List.append_nil, List.getElem?_append_right (by omega), hidx]
            exact hobj
  unfold readTexts
  simp only [Program.legal_bind, hpool]
  exact ⟨hmember .cwd, hmember .cmndline, hmember .cmdline, hmember .environ, hmember .exec,
    Program.legal_pure _ _⟩

/-- **One iteration** with its call and the release of its objects. -/
theorem tableStep_legal (hpaths : PathsFit word e) (hrest : AtRest dirEnt pool) (xs : Interp) :
    (tableStep port dirEnt (xs, none) e).Legal word res pool := by
  obtain ⟨m, hent, hlen⟩ := hrest.entry
  have hentry := scrapeEntry_refines (e := e) res port hrest.growing hent hlen
  obtain ⟨hscrape, hpool⟩ := scrapeEntry_run res dirEnt pool port e
  unfold tableStep
  dsimp only
  rw [Program.legal_bind, hscrape]
  refine ⟨scrapeEntry_legal hword hpaths hrest, ?_⟩
  cases hcase : Linux.scrapeEntry port res e dirEnt pool with
  | mk scrape pool' =>
      rw [hcase] at hentry hpool
      generalize hrow : Row.scrape port e = outcome at hentry
      cases hentry with
      | notPid => exact Program.legal_pure _ _
      | gone _ => exact Program.legal_pure _ _
      | fault f _ => exact Program.legal_pure _ _
      | ready hframe =>
          obtain ⟨p, _, hat⟩ := hframe.record_at
          have hrecord := Pool.recordAt?_of_getElem? hat
          rw [hpool (by simp)]
          dsimp only
          rw [Program.legal_bind, Program.legal_recordAt?, Program.run_recordAt?, hrecord]
          refine ⟨⟨p, hat⟩, ?_⟩
          dsimp only
          rw [Program.legal_bind, readTexts_run]
          refine ⟨readTexts_legal hframe hrecord, ?_⟩
          dsimp only
          rw [Program.legal_bind, Program.legal_bytesAt, Program.run_bytesAt]
          refine ⟨⟨_, hframe.format_at⟩, ?_⟩
          dsimp only
          split
          · exact Program.legal_pure _ _
          · rw [Program.legal_bind, Program.legal_free]
            exact ⟨Pool.lt_of_getElem? hat, Program.legal_pure _ _⟩

/-- **The loop**: every request is legal, and on the stack the loop is the one of
`OS_get_table`. -/
theorem tableLoop_spec (entries : List DirEntry) (hpaths : ∀ e ∈ entries, PathsFit word e)
    (s : Table) (hrest : s.fault = none → AtRest dirEnt s.pool) :
    (tableLoop port dirEnt entries (s.xs, s.fault)).Legal word res s.pool ∧
      ((tableLoop port dirEnt entries (s.xs, s.fault)).run res s.pool).1 =
        ((entries.foldl (Linux.tableStep port res dirEnt) s).xs,
          (entries.foldl (Linux.tableStep port res dirEnt) s).fault) := by
  induction entries generalizing s with
  | nil => exact ⟨Program.legal_pure _ _, rfl⟩
  | cons e entries ih =>
      have htail : ∀ e' ∈ entries, PathsFit word e' := fun e' he' =>
        hpaths e' (List.mem_cons_of_mem e he')
      rw [tableLoop, Program.legal_bind, Program.run_bind, List.foldl_cons]
      obtain ⟨pool, xs, fault⟩ := s
      cases fault with
      | some f => exact ⟨⟨Program.legal_pure _ _, (ih htail _ hrest).1⟩, (ih htail _ hrest).2⟩
      | none =>
          obtain ⟨hout, hpool⟩ := tableStep_run res dirEnt pool port xs e
          have hlegal := @tableStep_legal _ hword res pool port e dirEnt
            (hpaths e List.mem_cons_self) (hrest rfl) xs
          obtain ⟨_, hrest'⟩ := @tableStep_refines port res dirEnt e ⟨pool, xs, none⟩ (hrest rfl) rfl
          dsimp only
          rw [hout]
          generalize Linux.tableStep port res dirEnt ⟨pool, xs, none⟩ e = s' at hpool hrest' ⊢
          cases hfault : s'.fault with
          | some f =>
              -- behind a fault nothing is asked for
              have hstuck : ∀ (rest : List DirEntry) (p : Memory),
                  (tableLoop port dirEnt rest (s'.xs, some f)).Legal word res p ∧
                    ((tableLoop port dirEnt rest (s'.xs, some f)).run res p).1 =
                      (s'.xs, some f) := by
                intro rest
                induction rest with
                | nil => exact fun p => ⟨Program.legal_pure _ _, rfl⟩
                | cons e' rest ih' =>
                    intro p
                    rw [tableLoop, Program.legal_bind, Program.run_bind]
                    exact ⟨⟨Program.legal_pure _ _, (ih' p).1⟩, (ih' p).2⟩
              have hfold : ∀ rest : List DirEntry,
                  rest.foldl (Linux.tableStep port res dirEnt) s' = s' := by
                intro rest
                induction rest with
                | nil => rfl
                | cons e' rest ih' =>
                    rw [List.foldl_cons]
                    have hstay : Linux.tableStep port res dirEnt s' e' = s' := by
                      unfold Linux.tableStep
                      rw [hfault]
                    rw [hstay]
                    exact ih'
              rw [hfold, hfault]
              exact ⟨⟨hlegal, (hstuck entries _).1⟩, (hstuck entries _).2⟩
          | none =>
              obtain ⟨hlegal', hout'⟩ := ih htail s' hrest'
              rw [hfault] at hlegal' hout'
              rw [hpool hfault]
              exact ⟨⟨hlegal, hlegal'⟩, hout'⟩

omit hword in
/-- What a call publishes, without the pool. -/
def published (port : Port) (xs : Interp) : Option (List DirEntry) → Interp × Option Fault
  | none => (xs, none)
  | some entries => Row.table port entries (xs, none)

/-- **Every request of `OS_get_table`** up to the release of the pool is legal, and
on the stack they come to the rows. -/
theorem osGetTable_spec (proc : Option (List DirEntry))
    (hpaths : ∀ entries ∈ proc, ∀ e ∈ entries, PathsFit word e) (xs : Interp) :
    (osGetTable port proc xs).Legal word res Pool.init ∧
      ((osGetTable port proc xs).run res Pool.init).1 = published port xs proc := by
  have hsize : sizeofDirent < word := by
    unfold sizeofDirent
    omega
  unfold osGetTable
  rw [Program.legal_bind, Program.legal_alloc, Program.run_alloc, Program.run_bind,
    Program.run_alloc]
  cases proc with
  | none => exact ⟨⟨⟨hsize, rfl⟩, Program.legal_pure _ _⟩, rfl⟩
  | some entries =>
      obtain ⟨hlegal, hrun⟩ := @tableLoop_spec _ hword res port 0 entries (hpaths entries rfl)
        ⟨(Pool.init.alloc res sizeofDirent).2, xs, none⟩ fun _ => atRest_init res
      refine ⟨⟨⟨hsize, rfl⟩, hlegal⟩, hrun.trans ?_⟩
      exact (tableRun_refines port res xs entries).1

end

end OnPool

end Linux
