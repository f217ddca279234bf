import ProcProcessTable.LinuxFrame

/-!
# The pool refines the row

Each scraper, run on a pool that frames a row, leaves a pool that frames the row
its counterpart computes.  Chained, this says that `scrapeEntry` ends where
`Row.scrape` ends, and that whole runs of `OS_get_table` publish what the rows
publish, whatever the pool memory held.
-/

namespace Linux

open CText MemPool Xs

section Helpers

variable {start pool : Memory} {objs : List (Block (Procstat Nat))} {row : Row}
  {pid : List Char} (res : Residue (Procstat Nat)) (k : Kernel)

/-- A path is built, read and released. -/
theorem procPidFile_frame (h : Frame start objs [] pool row) {file : Option (List Char)}
    (hpath : nul ∉ pidPath pid file) :
    cstr ((procPidFile pid file pool).2.bytesAt (procPidFile pid file pool).1) = pidPath pid file ∧
      Frame start objs [] ((procPidFile pid file pool).2.free (procPidFile pid file pool).1) row := by
  obtain ⟨hptr, hpush⟩ := procPidFile_pushed pid file h.growing
  refine ⟨readFile_opens h.growing hpath, ?_⟩
  rw [hptr]
  exact (h.pushed hpush).free h.length_eq

theorem getUserInfo_frame (h : Frame start objs [] pool row) (hpid : nul ∉ pid) :
    Frame start objs []
      (getUserInfo k pid start.finished.length (start.finished.length + 1) pool)
      (row.userInfo k pid) := by
  obtain ⟨hread, hfree⟩ := procPidFile_frame h (@nul_not_mem_pidPath pid hpid none (by simp))
  unfold getUserInfo Row.userInfo
  simp only [hread]
  cases k.stat (pidPath pid none) with
  | none => exact hfree
  | some ids =>
      exact (hfree.scraped fun s => { s with uid := ids.1.toInt32, gid := ids.2.toInt32 }).format _

theorem pidExists_frame (h : Frame start objs [] pool row) (hpid : nul ∉ pid) :
    (pidExists k pid pool).1 = k.access (pidPath pid none) ∧
      Frame start objs [] (pidExists k pid pool).2 row := by
  obtain ⟨hread, hfree⟩ := procPidFile_frame h (@nul_not_mem_pidPath pid hpid none (by simp))
  exact ⟨congrArg k.access hread, hfree⟩

/-- A file that could not be read. -/
theorem readFile_frame_none (h : Frame start objs [] pool row) {name : List Char}
    (hpath : nul ∉ pidPath pid (some name)) (hfile : Row.file k pid name = none) :
    (readFile res k pid (some name) pool).text = none ∧
      Frame start objs [] (readFile res k pid (some name) pool).pool row := by
  obtain ⟨htext, hpush⟩ := readFile_none res k h.growing hpath hfile
  exact ⟨htext, h.pushed hpush⟩

/-- A file that could be read: its text lies above the frame. -/
theorem readFile_frame_some (h : Frame start objs [] pool row) {name content : List Char}
    (hpath : nul ∉ pidPath pid (some name)) (hfile : Row.file k pid name = some content) :
    ∃ junk, (readFile res k pid (some name) pool).text =
        some (start.finished.length + 2 + objs.length, content.length) ∧
      Pool.Pushed pool [.bytes (content ++ nul :: junk)]
        (readFile res k pid (some name) pool).pool := by
  obtain ⟨htext, junk, hpush⟩ := readFile_some res k h.growing hpath hfile
  refine ⟨junk, ?_, hpush⟩
  rw [htext, h.length_eq]

theorem getProcStat_frame (h : Frame start objs [] pool row) (hpid : nul ∉ pid) :
    (getProcStat res k pid start.finished.length (start.finished.length + 1) pool).1 =
        (row.procStat k pid).1 ∧
      Frame start objs []
        (getProcStat res k pid start.finished.length (start.finished.length + 1) pool).2
        (row.procStat k pid).2 := by
  have hpath : nul ∉ pidPath pid (some "stat".toList) :=
    nul_not_mem_pidPath hpid (by decide +kernel)
  unfold getProcStat Row.procStat
  cases hfile : Row.file k pid "stat".toList with
  | none =>
      obtain ⟨htext, hframe⟩ := readFile_frame_none res k h hpath hfile
      simp only [htext]
      exact ⟨trivial, hframe⟩
  | some content =>
      obtain ⟨junk, htext, hpush⟩ := readFile_frame_some res k h hpath hfile
      have hread := bytesAt_pushed hpush
      have hcstr : cstr (content ++ nul :: junk) = cstr (content ++ [nul]) := by
        rw [cstr_append_nul, cstr_append_nul]
      obtain ⟨hok, hen, hprs⟩ := scanStat_congr hcstr row.prs.toScraped
      have hframe := h.pushed hpush
      rw [h.length_eq] at hread
      simp only [htext, hread, hframe.scrapedAt_eq, hok, hen, hprs]
      refine ⟨trivial, ?_⟩
      have hcut := h.pushed (hpush.modifyTop fun _ =>
        (scanStat (content ++ nul :: junk) row.prs.toScraped).text)
      rw [h.length_eq] at hcut
      have hset := hcut.scraped fun _ => (scanStat (content ++ [nul]) row.prs.toScraped).prs
      cases (scanStat (content ++ [nul]) row.prs.toScraped).enabled with
      | false => exact hset.free rfl
      | true => exact (hset.format _).free rfl

theorem getProcStatus_frame (h : Frame start objs [] pool row) (hpid : nul ∉ pid) :
    match row.status k pid with
    | none =>
        getProcStatus res k pid start.finished.length (start.finished.length + 1) pool = none
    | some row' =>
        ∃ pool', getProcStatus res k pid start.finished.length (start.finished.length + 1) pool =
          some pool' ∧ Frame start objs [] pool' row' := by
  have hpath : nul ∉ pidPath pid (some "status".toList) :=
    nul_not_mem_pidPath hpid (by decide +kernel)
  unfold getProcStatus Row.status
  cases hfile : Row.file k pid "status".toList with
  | none =>
      obtain ⟨htext, hframe⟩ := readFile_frame_none res k h hpath hfile
      simp only [htext]
      exact ⟨_, rfl, hframe⟩
  | some content =>
      obtain ⟨junk, htext, hpush⟩ := readFile_frame_some res k h hpath hfile
      have hread := bytesAt_pushed hpush
      have hcstr : cstr (content ++ nul :: junk) = cstr (content ++ [nul]) := by
        rw [cstr_append_nul, cstr_append_nul]
      have hframe := h.pushed hpush
      rw [h.length_eq] at hread
      simp only [htext, hread, hframe.scrapedAt_eq, hframe.bytesAt_format]
      rw [scanStatus_congr hcstr]
      cases scanStatus (content ++ [nul]) row.formatStr row.prs.toScraped with
      | none => rfl
      | some out =>
          refine ⟨_, rfl, ?_⟩
          have hset := (hframe.scraped fun _ => out.2).format fun _ => out.1
          exact hset.free rfl

/-- A pointer to the object above the frame. -/
theorem ptrShows_top (base : Nat) (objs : List (Block (Procstat Nat))) (text junk : List Char) :
    PtrShows base (objs ++ [.bytes (text ++ nul :: junk)]) (some (base + objs.length))
      (some text) := by
  refine ⟨objs.length, junk, rfl, ?_⟩
  rw [List.getElem?_append_right (Nat.le_refl _)]
  simp

/-- A text is kept: the record is pointed at it and its field enabled. -/
theorem Frame.point {text junk : List Char}
    (h : Frame start objs [.bytes (text ++ nul :: junk)] pool row) (m : Member)
    (f : Scraped → Scraped) (field : Field) :
    Frame start (objs ++ [.bytes (text ++ nul :: junk)]) []
      ((pool.modifyRecord start.finished.length fun p =>
        (p.set m (start.finished.length + 2 + objs.length)).scraped f).modifyBytes
          (start.finished.length + 1) fun s => fieldEnable s field)
      ⟨fieldEnable row.formatStr field, (row.prs.set m text).scraped f⟩ := by
  have hset := h.keep.modifyRecord
    (fun p => (p.set m (start.finished.length + 2 + objs.length)).scraped f)
    fun p hp => (hp.set m (ptrShows_top _ objs text junk)).scraped f
  exact hset.format fun s => fieldEnable s field

theorem getProcCmdline_frame (h : Frame start objs [] pool row) (hpid : nul ∉ pid) :
    ∃ objs', Frame start objs' []
      (getProcCmdline res k pid start.finished.length (start.finished.length + 1) pool)
      (row.cmdline k pid) := by
  have hpath : nul ∉ pidPath pid (some "cmdline".toList) :=
    nul_not_mem_pidPath hpid (by decide +kernel)
  unfold getProcCmdline Row.cmdline
  cases hfile : Row.file k pid "cmdline".toList with
  | none =>
      obtain ⟨htext, hframe⟩ := readFile_frame_none res k h hpath hfile
      simp only [htext]
      exact ⟨objs, hframe⟩
  | some content =>
      obtain ⟨junk, htext, hpush⟩ := readFile_frame_some res k h hpath hfile
      simp only [htext]
      exact ⟨_, (h.pushed hpush).point .cmdline _ .cmdline⟩

theorem getProcEnviron_frame (h : Frame start objs [] pool row) (hpid : nul ∉ pid) :
    ∃ objs', Frame start objs' []
      (getProcEnviron res k pid start.finished.length (start.finished.length + 1) pool)
      (row.environ k pid) := by
  have hpath : nul ∉ pidPath pid (some "environ".toList) :=
    nul_not_mem_pidPath hpid (by decide +kernel)
  unfold getProcEnviron Row.environ
  cases hfile : Row.file k pid "environ".toList with
  | none =>
      obtain ⟨htext, hframe⟩ := readFile_frame_none res k h hpath hfile
      simp only [htext]
      exact ⟨objs, hframe⟩
  | some content =>
      obtain ⟨junk, htext, hpush⟩ := readFile_frame_some res k h hpath hfile
      simp only [htext]
      exact ⟨_, (h.pushed hpush).point .environ _ .environ⟩

/-- The blanks reach no further than the content. -/
theorem nulsToSpaces_append (content rest : List Char) :
    nulsToSpaces (content ++ rest) content.length =
      nulsToSpaces content content.length ++ rest := by
  have hle : content.length - 1 ≤ content.length := Nat.sub_le _ _
  rw [nulsToSpaces, nulsToSpaces, List.take_append_of_le_length hle,
    List.drop_append_of_le_length hle, List.append_assoc]

theorem getProcCmndline_frame (h : Frame start objs [] pool row) (hpid : nul ∉ pid) :
    ∃ objs', Frame start objs' []
      (getProcCmndline res k pid start.finished.length (start.finished.length + 1) pool)
      (row.cmndline k pid) := by
  have hpath : nul ∉ pidPath pid (some "cmdline".toList) :=
    nul_not_mem_pidPath hpid (by decide +kernel)
  unfold getProcCmndline Row.cmndline
  cases hfile : Row.file k pid "cmdline".toList with
  | none =>
      obtain ⟨htext, hframe⟩ := readFile_frame_none res k h hpath hfile
      simp only [htext]
      exact ⟨objs, hframe⟩
  | some content =>
      obtain ⟨junk, htext, hpush⟩ := readFile_frame_some res k h hpath hfile
      have htop := hpush.modifyTop fun m => nulsToSpaces m content.length
      rw [h.length_eq, nulsToSpaces_append] at htop
      simp only [htext]
      exact ⟨_, (h.pushed htop).point .cmndline id .cmndline⟩

theorem evalLink_frame (h : Frame start objs [] pool row) (hpid : nul ∉ pid) {linkRel : List Char}
    (hrel : nul ∉ linkRel) (field : Field) (ptr : Member) :
    ∃ objs', Frame start objs' []
      (evalLink k pid linkRel field ptr start.finished.length (start.finished.length + 1) pool)
      (row.link k pid linkRel field ptr) := by
  have hpath : nul ∉ pidPath pid (some linkRel) := by
    refine nul_not_mem_pidPath hpid ?_
    intro f hf
    rw [Option.mem_some] at hf
    rwa [← hf]
  obtain ⟨hread, hfree⟩ := procPidFile_frame h hpath
  unfold evalLink Row.link
  simp only [hread]
  cases k.realpath (pidPath pid (some linkRel)) with
  | none => exact ⟨objs, hfree⟩
  | some link =>
      have hpush := Pool.Pushed.of_finish (p := (procPidFile pid (some linkRel) pool).2.free
          (procPidFile pid (some linkRel) pool).1)
        (q := ((((procPidFile pid (some linkRel) pool).2.free
          (procPidFile pid (some linkRel) pool).1).grow (cstr link)).grow [nul])) rfl rfl
      have hgrow : ((((procPidFile pid (some linkRel) pool).2.free
          (procPidFile pid (some linkRel) pool).1).grow (cstr link)).grow [nul]).growing =
          cstr link ++ nul :: [] := by
        simp [Pool.grow]
      rw [hgrow] at hpush
      have hpoint := (hfree.pushed hpush).point ptr id field
      rw [← hfree.length_eq] at hpoint
      exact ⟨_, hpoint⟩

end Helpers

/-- Where the work on an entry ends on the pool and where it ends without. -/
inductive Refines (start : Memory) : Scrape × Memory → Row.Outcome → Prop
  | notPid : Refines start (.notPid, start) .notPid
  | gone {objs : List (Block (Procstat Nat))} {pool : Memory} {row : Row}
      (h : Frame start objs [] pool row) : Refines start (.gone, pool) .gone
  | fault {objs : List (Block (Procstat Nat))} {pool : Memory} {row : Row} (f : Fault)
      (h : Frame start objs [] pool row) : Refines start (.fault f, pool) (.fault f)
  | ready {objs : List (Block (Procstat Nat))} {pool : Memory} {row : Row}
      (h : Frame start objs [] pool row) :
      Refines start (.ready start.finished.length (start.finished.length + 1), pool) (.ready row)

section Entry

variable {port : Port} (res : Residue (Procstat Nat)) {e : DirEntry} {dirEnt : Nat}
  {start pool : Memory} {objs tmp : List (Block (Procstat Nat))} {row : Row}

/-- The name can be read all through the iteration. -/
theorem Frame.readName_eq (hname : readName dirEnt start = e.dName)
    (hdir : dirEnt < start.finished.length) (h : Frame start objs tmp pool row) :
    readName dirEnt pool = e.dName := by
  rw [readName, h.below hdir]
  exact hname

/-- The frame an iteration starts with. -/
theorem newEntry_frame (hrest : start.growing = []) :
    ∃ pool, newEntry res start = (start.finished.length, start.finished.length + 1, pool) ∧
      Frame start [] [] pool Row.init := by
  have hat : (start.allocRecord res).2.finished[start.finished.length]? =
      some (.record (res.record start.clock)) := by
    simp [Pool.allocRecord]
  have hfin := Pool.modifyRecord_finished (fun _ => Procstat.zero) hat
  have hset : ((start.allocRecord res).2.modifyRecord start.finished.length
      fun _ => Procstat.zero).finished = start.finished ++ [.record Procstat.zero] := by
    rw [hfin]
    simp [Pool.allocRecord]
  refine ⟨((((start.allocRecord res).2.modifyRecord start.finished.length fun _ =>
    Procstat.zero).grow defaultFormat).grow [nul]).finish.2, ?_,
    ⟨Procstat.zero, ⟨rfl, fun m => ?_⟩, ?_⟩, rfl, ?_⟩
  · have hlen := congrArg List.length hset
    rw [List.length_append, List.length_singleton] at hlen
    exact congrArg (fun n => (start.finished.length, n, _)) hlen
  · cases m <;> trivial
  · have hgrow : ((start.allocRecord res).2.modifyRecord start.finished.length
        fun _ => Procstat.zero).growing = [] := by
      rw [Pool.modifyRecord_growing]
      exact hrest
    rw [Pool.finish_finished, Pool.grow_finished, Pool.grow_finished, hset]
    simp only [Pool.grow, hgrow, List.nil_append, defaultFormat_append_nul, List.append_assoc]
    rfl
  · intro r hr
    have hrel : r ∈ start.releases := by
      simpa [Pool.finish, Pool.grow, Pool.modifyRecord, Pool.allocRecord] using hr
    exact Or.inl hrel

theorem scrapeFiles_frame (hname : readName dirEnt start = e.dName)
    (hdir : dirEnt < start.finished.length) (h : Frame start objs [] pool row) :
    ∃ objs', Frame start objs' []
      (scrapeFiles port res e dirEnt start.finished.length (start.finished.length + 1) pool)
      (row.links port e) := by
  have hpid := e.dName_nulFree
  have h0 := (h.scraped fun _ => (fixupStatValues port.globals port.float row.formatStr
    row.prs.toScraped).2).format fun _ => (fixupStatValues port.globals port.float row.formatStr
    row.prs.toScraped).1
  obtain ⟨_, h1⟩ := getProcCmndline_frame res (e.world .cmndline) h0 hpid
  obtain ⟨_, h2⟩ := getProcCmdline_frame res (e.world .cmdline) h1 hpid
  obtain ⟨_, h3⟩ := getProcEnviron_frame res (e.world .environ) h2 hpid
  obtain ⟨_, h4⟩ := @evalLink_frame _ _ _ _ _ (e.world .cwd) h3 hpid "cwd".toList
    (by decide +kernel) .cwd .cwd
  obtain ⟨_, h5⟩ := @evalLink_frame _ _ _ _ _ (e.world .exec) h4 hpid "exe".toList
    (by decide +kernel) .exec .exec
  unfold scrapeFiles
  simp only [h.scrapedAt_eq, h.bytesAt_format, h0.readName_eq hname hdir,
    h1.readName_eq hname hdir, h2.readName_eq hname hdir, h3.readName_eq hname hdir,
    h4.readName_eq hname hdir]
  exact ⟨_, h5⟩

/-- The stages up to the existence test. -/
theorem scrapeStat_frame (hname : readName dirEnt start = e.dName)
    (hdir : dirEnt < start.finished.length) (h : Frame start objs [] pool Row.init) :
    let out := scrapeStat res e dirEnt start.finished.length (start.finished.length + 1) pool
    (out.1 = false ↔ Row.Vanished e) ∧ Frame start objs [] out.2 (Row.upToStat e).2 := by
  have h1 := getUserInfo_frame (e.world .userInfo) h e.dName_nulFree
  obtain ⟨hok, h2⟩ := getProcStat_frame res (e.world .procStat) h1 e.dName_nulFree
  obtain ⟨hexists, h3⟩ := pidExists_frame (e.world .pidExists) h2 e.dName_nulFree
  simp only [scrapeStat, h.readName_eq hname hdir, h1.readName_eq hname hdir]
  rw [h2.readName_eq hname hdir]
  unfold Row.Vanished Row.upToStat
  rw [← hok]
  split
  · next hfail =>
      rw [hexists]
      exact ⟨⟨fun hgone => ⟨hfail, hgone⟩, fun hgone => hgone.2⟩, h3⟩
  · next hgood =>
      refine ⟨⟨fun hgone => ?_, fun hgone => absurd hgone.1 hgood⟩, h2⟩
      exact Bool.noConfusion hgone

/-- The stages behind the existence test. -/
theorem scrapeRest_refines (hname : readName dirEnt start = e.dName)
    (hdir : dirEnt < start.finished.length) (h : Frame start objs [] pool row) :
    Refines start
      (scrapeRest port res e dirEnt start.finished.length (start.finished.length + 1)
        (scrapeFiles port res e dirEnt start.finished.length (start.finished.length + 1) pool))
      (Row.finish port e row) := by
  obtain ⟨objs', hfiles⟩ := @scrapeFiles_frame port res _ _ _ _ _ _ hname hdir h
  generalize scrapeFiles port res e dirEnt start.finished.length (start.finished.length + 1) pool =
    pool₁ at hfiles ⊢
  have hstatus := getProcStatus_frame res (e.world .status) hfiles e.dName_nulFree
  unfold scrapeRest Row.finish
  rw [hfiles.readName_eq hname hdir]
  cases hrow : (row.links port e).status (e.world .status) e.dName with
  | none =>
      rw [hrow] at hstatus
      rw [hstatus]
      exact .fault .hang hfiles
  | some row' =>
      rw [hrow] at hstatus
      obtain ⟨pool', hrun, hframe⟩ := hstatus
      rw [hrun]
      dsimp only
      rw [hframe.bytesAt_format, hframe.scrapedAt_eq, Row.percentages]
      cases calcPrec port.globals port.float (e.world .calcPrec) row'.formatStr
          row'.prs.toScraped with
      | error f => exact .fault f hframe
      | ok out => exact .ready ((hframe.scraped fun _ => out.2).format fun _ => out.1)

/-- What `readdir_r` stores is read back as the name. -/
theorem readName_readdir {m : Mem} (hent : pool.finished[dirEnt]? = some (.bytes m))
    (hlen : m.length = sizeofDirent) :
    readName dirEnt (pool.modifyBytes dirEnt fun m => overwrite m dNameOffset (e.dName ++ [nul])) =
      e.dName := by
  have hlt := Pool.lt_of_getElem? hent
  have hat : (pool.modifyBytes dirEnt
      fun m => overwrite m dNameOffset (e.dName ++ [nul])).bytesAt dirEnt =
        overwrite m dNameOffset (e.dName ++ [nul]) := by
    apply Pool.bytesAt_of_getElem?
    rw [Pool.modifyBytes_finished _ hent, List.getElem?_set_self hlt]
  have htake : (m.take dNameOffset).length = dNameOffset := by
    rw [List.length_take, hlen]
    rfl
  have hdrop : (overwrite m dNameOffset (e.dName ++ [nul])).drop dNameOffset =
      e.dName ++ nul :: m.drop (dNameOffset + (e.dName ++ [nul]).length) := by
    rw [overwrite, List.append_assoc, List.drop_append_of_le_length (Nat.le_of_eq htake.symm),
      List.drop_of_length_le (Nat.le_of_eq htake), List.nil_append, List.append_assoc]
    rfl
  rw [readName, hat, hdrop, cstr_terminated e.dName_nulFree]

/-- **One entry.**  The work on the pool ends where the work on the row ends,
and at the call of `bless_into_proc` the pool frames the row. -/
theorem scrapeEntry_refines (port : Port) {m : Mem} (hrest : pool.growing = [])
    (hent : pool.finished[dirEnt]? = some (.bytes m)) (hlen : m.length = sizeofDirent) :
    Refines (pool.modifyBytes dirEnt fun m => overwrite m dNameOffset (e.dName ++ [nul]))
      (scrapeEntry port res e dirEnt pool) (Row.scrape port e) := by
  have hname := readName_readdir (e := e) hent hlen
  have hgrow : (pool.modifyBytes dirEnt
      fun m => overwrite m dNameOffset (e.dName ++ [nul])).growing = [] := by
    rw [Pool.modifyBytes_growing]
    exact hrest
  have hdir : dirEnt < (pool.modifyBytes dirEnt
      fun m => overwrite m dNameOffset (e.dName ++ [nul])).finished.length := by
    rw [Pool.modifyBytes_finished _ hent, List.length_set]
    exact Pool.lt_of_getElem? hent
  unfold scrapeEntry Row.scrape
  generalize (pool.modifyBytes dirEnt
    fun m => overwrite m dNameOffset (e.dName ++ [nul])) = start at hname hgrow hdir ⊢
  simp only [hname]
  by_cases hpid : isPid e.dName = false
  · rw [if_pos hpid, if_pos hpid]
    exact .notPid
  · rw [if_neg hpid, if_neg hpid]
    obtain ⟨pool₀, hnew, h0⟩ := newEntry_frame res hgrow
    obtain ⟨hgone, hframe⟩ := scrapeStat_frame res hname hdir h0
    rw [hnew]
    by_cases hvanished : Row.Vanished e
    · rw [if_pos (hgone.mpr hvanished), if_pos hvanished]
      exact .gone hframe
    · rw [if_neg (fun h => hvanished (hgone.mp h)), if_neg hvanished]
      exact scrapeRest_refines res hname hdir hframe

end Entry

end Linux
