import ProcProcessTable.LinuxBless
import Mathlib.Data.List.Induction

/-!
# Whole runs of OS_get_table

Between two iterations the pool is at rest and holds the directory entry
(`AtRest`).  One iteration from there does to the table what `Row.step` does
(`tableStep_refines`), so a run publishes what `Row.table` publishes
(`tableRun_refines`): the pool and what its memory held before have no influence.
-/

namespace Linux

open CText MemPool Xs

/-- The pool between two iterations. -/
structure AtRest (dirEnt : Nat) (pool : Memory) : Prop where
  growing : pool.growing = []
  entry : ∃ m, pool.finished[dirEnt]? = some (.bytes m) ∧ m.length = sizeofDirent

/-- The loop of `OS_get_table` over a list of entries, from the pool it starts
with; the directory entry is the first object. -/
def tableRun (port : Port) (res : Residue (Procstat Nat)) (xs : Interp) (entries : List DirEntry) :
    Table :=
  entries.foldl (tableStep port res 0) ⟨(Pool.init.alloc res sizeofDirent).2, xs, none⟩

theorem tableRun_append (port : Port) (res : Residue (Procstat Nat)) (xs : Interp)
    (entries : List DirEntry) (e : DirEntry) :
    tableRun port res xs (entries ++ [e]) =
      tableStep port res 0 (tableRun port res xs entries) e := by
  rw [tableRun, List.foldl_append]
  rfl

section

variable {port : Port} {res : Residue (Procstat Nat)} {dirEnt : Nat} {pool : Memory}
  {e : DirEntry}

/-- The iteration starts by storing the name in the directory entry. -/
theorem AtRest.readdir (h : AtRest dirEnt pool) :
    AtRest dirEnt (pool.modifyBytes dirEnt fun m => overwrite m dNameOffset (e.dName ++ [nul])) := by
  obtain ⟨m, hent, hlen⟩ := h.entry
  refine ⟨?_, overwrite m dNameOffset (e.dName ++ [nul]), ?_, ?_⟩
  · rw [Pool.modifyBytes_growing]
    exact h.growing
  · rw [Pool.modifyBytes_finished _ hent]
    exact List.getElem?_set_self (Pool.lt_of_getElem? hent)
  · have hname := e.dName_length
    rw [length_overwrite, hlen]
    rw [hlen, List.length_append, List.length_singleton]
    unfold dNameOffset sizeofDirent
    omega

/-- What lies below a frame is at rest when it was before. -/
theorem Frame.atRest {start : Memory} {objs tmp : List (Block (Procstat Nat))} {row : Row}
    (h : Frame start objs tmp pool row) (hstart : AtRest dirEnt start) : AtRest dirEnt pool := by
  obtain ⟨m, hent, hlen⟩ := hstart.entry
  obtain ⟨p, _, hstack⟩ := h.stack
  refine ⟨h.growing, m, ?_, hlen⟩
  rw [hstack]
  exact Pool.getElem?_append_of_some hent

/-- Releasing the record ends the iteration. -/
theorem Frame.release {start : Memory} {objs tmp : List (Block (Procstat Nat))} {row : Row}
    (h : Frame start objs tmp pool row) (hstart : AtRest dirEnt start) :
    AtRest dirEnt (pool.free start.finished.length) := by
  obtain ⟨m, hent, hlen⟩ := hstart.entry
  obtain ⟨p, _, hstack⟩ := h.stack
  refine ⟨rfl, m, ?_, hlen⟩
  rw [Pool.free_finished, hstack, List.take_left]
  exact hent

/-- The objects of a frame are read from the pool. -/
theorem Frame.readsObjects {start : Memory} {objs : List (Block (Procstat Nat))} {row : Row}
    (h : Frame start objs [] pool row) :
    ReadsObjects (start.finished.length + 2) objs pool := by
  obtain ⟨p, _, hstack⟩ := h.stack
  intro i m hi
  apply Pool.bytesAt_of_getElem?
  have hidx : start.finished.length + 2 + i - start.finished.length = i + 2 := by omega
  rw [hstack, List.append_nil, List.getElem?_append_right (by omega), hidx]
  exact hi

/-- **The call of `bless_into_proc` on a pool that frames a published row.** -/
theorem Frame.bless {start : Memory} {objs : List (Block (Procstat Nat))} {row : Row}
    (h : Frame start objs [] pool row) (hready : Row.scrape port e = .ready row) (xs : Interp) :
    ∃ p, pool.recordAt? start.finished.length = some p ∧
      blessIntoProc (pool.bytesAt (start.finished.length + 1)) fieldKeys
          (blessArgs e.upper pool.bytesAt p) xs = row.bless e.upper xs := by
  obtain ⟨p, hp, hat⟩ := h.record_at
  refine ⟨p, Pool.recordAt?_of_getElem? hat, ?_⟩
  obtain ⟨hget, hlast⟩ := Row.ready_prs hready
  have hcmdline : row.prs.cmdlineLen = lengthOf row.prs.cmdline :=
    (congrArg Scraped.cmdlineLen hlast).trans (congrArg lengthOf (hget .cmdline)).symm
  have henviron : row.prs.environLen = lengthOf row.prs.environ :=
    (congrArg Scraped.environLen hlast).trans (congrArg lengthOf (hget .environ)).symm
  have hvalue := groupValue_represents e.upper hp h.readsObjects hcmdline henviron
  rw [h.bytesAt_format, Row.bless, Row.ready_formatStr hready, blessArgs_eq, blessArgs_eq,
    blessIntoProc_fields fun f => takes_fieldSlots e.upper _ p f _,
    blessIntoProc_fields fun f => takes_fieldSlots e.upper _ row.prs f _,
    blessGroups_congr xs.ttydevs fun f => hvalue f _]

/-- **One iteration.**  From a pool at rest the loop does to the table what the
row does, and unless it ends with a fault the pool is at rest again. -/
theorem tableStep_refines {s : Table} (hrest : AtRest dirEnt s.pool) (hgo : s.fault = none) :
    ((tableStep port res dirEnt s e).xs, (tableStep port res dirEnt s e).fault) =
        Row.step port s.xs e ∧
      ((tableStep port res dirEnt s e).fault = none →
        AtRest dirEnt (tableStep port res dirEnt s e).pool) := by
  obtain ⟨m, hent, hlen⟩ := hrest.entry
  have hentry := scrapeEntry_refines (e := e) res port hrest.growing hent hlen
  have hstart : AtRest dirEnt (s.pool.modifyBytes dirEnt
      fun m => overwrite m dNameOffset (e.dName ++ [nul])) := hrest.readdir
  generalize s.pool.modifyBytes dirEnt
    (fun m => overwrite m dNameOffset (e.dName ++ [nul])) = start at hentry hstart
  unfold tableStep Row.step
  rw [hgo]
  dsimp only
  cases hscrape : scrapeEntry port res e dirEnt s.pool with
  | mk scrape pool =>
      rw [hscrape] at hentry
      generalize hrow : Row.scrape port e = outcome at hentry
      cases hentry with
      | notPid => exact ⟨rfl, fun _ => hstart⟩
      | gone hframe => exact ⟨rfl, fun _ => hframe.atRest hstart⟩
      | fault f _ => exact ⟨rfl, fun h => by cases h⟩
      | @ready objs pool row hframe =>
          obtain ⟨p, hp, hbless⟩ := hframe.bless hrow s.xs
          dsimp only
          rw [hp]
          dsimp only
          rw [hbless]
          cases hout : row.bless e.upper s.xs with
          | mk xs fault =>
              cases fault with
              | some f => exact ⟨rfl, fun h => by cases h⟩
              | none => exact ⟨rfl, fun _ => hframe.release hstart⟩

/-- The loop starts at rest. -/
theorem atRest_init (res : Residue (Procstat Nat)) :
    AtRest 0 (Pool.init.alloc res sizeofDirent).2 := by
  refine ⟨rfl, (List.range sizeofDirent).map (res.byte 0), rfl, ?_⟩
  rw [List.length_map, List.length_range]

/-- **A run publishes what the rows publish**, and leaves the pool at rest
unless it ends with a fault. -/
theorem tableRun_refines (port : Port) (res : Residue (Procstat Nat)) (xs : Interp)
    (entries : List DirEntry) :
    ((tableRun port res xs entries).xs, (tableRun port res xs entries).fault) =
        Row.table port entries (xs, none) ∧
      ((tableRun port res xs entries).fault = none →
        AtRest 0 (tableRun port res xs entries).pool) := by
  induction entries using List.reverseRecOn with
  | nil => exact ⟨rfl, fun _ => atRest_init res⟩
  | append_singleton entries e ih =>
      obtain ⟨hxs, hrest⟩ := ih
      rw [tableRun_append, Row.table, List.foldl_append]
      rw [Row.table] at hxs
      rw [← hxs, List.foldl_cons, List.foldl_nil]
      cases hfault : (tableRun port res xs entries).fault with
      | some f =>
          have hstay : tableStep port res 0 (tableRun port res xs entries) e =
              tableRun port res xs entries := by
            unfold tableStep
            rw [hfault]
          rw [hstay, hfault]
          exact ⟨rfl, fun h => by cases h⟩
      | none => exact tableStep_refines (hrest hfault) hfault

/-- The call of `bless_into_proc` in a run: its pool frames the row. -/
theorem tableRun_ready {xs : Interp} {entries : List DirEntry}
    (hgo : (tableRun port res xs entries).fault = none) {prs formatStr : Nat}
    (hready : scrapeEntry port res e 0 (tableRun port res xs entries).pool =
      (.ready prs formatStr, pool)) :
    ∃ start objs row, Row.scrape port e = .ready row ∧ Frame start objs [] pool row ∧
      prs = start.finished.length ∧ formatStr = start.finished.length + 1 := by
  have hrest := (tableRun_refines port res xs entries).2 hgo
  obtain ⟨m, hent, hlen⟩ := hrest.entry
  have hentry := scrapeEntry_refines (e := e) res port hrest.growing hent hlen
  rw [hready] at hentry
  generalize hrow : Row.scrape port e = outcome at hentry
  cases hentry with
  | @ready objs pool row hframe => exact ⟨_, objs, row, rfl, hframe, rfl, rfl⟩

/-- A run calls `bless_into_proc` for every entry whose row is published. -/
theorem tableRun_ready_of {xs : Interp} {entries : List DirEntry}
    (hgo : (tableRun port res xs entries).fault = none) {row : Row}
    (hrow : Row.scrape port e = .ready row) :
    ∃ prs formatStr pool, scrapeEntry port res e 0 (tableRun port res xs entries).pool =
      (.ready prs formatStr, pool) := by
  have hrest := (tableRun_refines port res xs entries).2 hgo
  obtain ⟨m, hent, hlen⟩ := hrest.entry
  have hentry := scrapeEntry_refines (e := e) res port hrest.growing hent hlen
  rw [hrow] at hentry
  cases hscrape : scrapeEntry port res e 0 (tableRun port res xs entries).pool with
  | mk scrape pool =>
      rw [hscrape] at hentry
      cases hentry with
      | ready hframe => exact ⟨_, _, pool, rfl⟩

/-- `OS_get_table` publishes what the rows publish. -/
theorem osGetTable_refines (port : Port) (res : Residue (Procstat Nat)) (xs : Interp)
    (entries : List DirEntry) :
    ((osGetTable port res (some entries) xs).xs, (osGetTable port res (some entries) xs).fault) =
      Row.table port entries (xs, none) := by
  rw [← (tableRun_refines port res xs entries).1]
  -- only the pool is freed behind the rows, and only when no call left the function
  have hrun : osGetTable port res (some entries) xs = tableRun port res xs entries ∨
      osGetTable port res (some entries) xs = { tableRun port res xs entries with
        pool := (tableRun port res xs entries).pool.free 0 } := by
    dsimp only [osGetTable]
    split
    · exact Or.inl rfl
    · exact Or.inr rfl
  rcases hrun with hrun | hrun
  · rw [hrun]
  · rw [hrun]

end

/-- Memory that is handed out cleared. -/
def clearedMemory : Residue (Procstat Nat) := ⟨fun _ _ => nul, fun _ => Procstat.zero⟩

end Linux
