import ProcProcessTable.LinuxHeader
import ProcProcessTable.MemPool

/-!
# Reading files under /proc

`read_file` grows a buffer on the pool by 1024 bytes before every `read`, and
closes the text with a NUL.  What it leaves on the pool is one object, the
content followed by a NUL and by whatever the memory held before
(`readFile_some`), or nothing (`readFile_none`).

A `Kernel` gives the answers of the system at one moment.  The answers may
differ from one moment to the next without any relation between them, so a
process may come, go, or be replaced by another under the same number at any
point.
-/

namespace Linux

open CText MemPool

/-- The results of the `read` calls on an open file: chunks of 1 to 1024
bytes, then 0 or an error. -/
structure Reads where
  chunks : List (List Char)
  failed : Bool
  chunk_bounds : ∀ c ∈ chunks, 0 < c.length ∧ c.length ≤ 1024

/-- What the system answers at one moment, to calls that name a path and to
`time(NULL)`. -/
structure Kernel where
  /-- the owner's user and group id -/
  stat : List Char → Option (UInt32 × UInt32)
  access : List Char → Bool
  openFile : List Char → Option Reads
  realpath : List Char → Option (List Char)
  time : Int64

/-- The content of a file that could be opened and read to its end. -/
def fileContent (fd : Option Reads) : Option (List Char) :=
  fd.bind fun reads => if reads.failed then none else some reads.chunks.flatten

/-- A file that is read one byte at a time. -/
def Reads.bytewise (text : List Char) : Reads where
  chunks := text.map fun c => [c]
  failed := false
  chunk_bounds := by
    intro c hc
    obtain ⟨x, _, rfl⟩ := List.mem_map.mp hc
    exact ⟨Nat.zero_lt_one, Nat.le_add_left 1 1023⟩

theorem fileContent_bytewise (text : List Char) :
    fileContent (some (Reads.bytewise text)) = some text := by
  have hflat : (text.map fun c => [c]).flatten = text := by
    rw [← List.flatMap_def, List.flatMap_singleton']
  exact congrArg some hflat

/-- The directory every path starts with. -/
def procDir : List Char := "/proc/".toList

/-- The path `proc_pid_file` builds. -/
def pidPath (pid : List Char) : Option (List Char) → List Char
  | none => procDir ++ pid
  | some file => procDir ++ pid ++ '/' :: file

theorem nul_not_mem_procDir : nul ∉ procDir := by
  decide +kernel

/-- A path is a string when its parts are. -/
theorem nul_not_mem_pidPath {pid : List Char} (hpid : nul ∉ pid) {file : Option (List Char)}
    (hfile : ∀ f ∈ file, nul ∉ f) : nul ∉ pidPath pid file := by
  have hslash : nul ≠ '/' := by decide
  cases file with
  | none =>
      rw [pidPath, List.mem_append, not_or]
      exact ⟨nul_not_mem_procDir, hpid⟩
  | some f =>
      rw [pidPath, List.mem_append, List.mem_append, List.mem_cons, not_or, not_or, not_or]
      exact ⟨⟨nul_not_mem_procDir, hpid⟩, hslash, hfile f rfl⟩

variable {ρ : Type}

/-- `proc_pid_file`. -/
def procPidFile (pid : List Char) (file : Option (List Char)) (pool : Pool ρ) : Nat × Pool ρ :=
  let pool := pool.grow (procDir ++ pid)
  let pool :=
    match file with
    | some file => pool.grow ('/' :: file)
    | none => pool
  (pool.grow [nul]).finish

/-- The `for` loop of `read_file`: the total length, unless a `read` fails. -/
def readLoop (res : Residue ρ) (failed : Bool) :
    List (List Char) → Nat → Pool ρ → Option Nat × Pool ρ
  | [], len, pool => (if failed then none else some len, pool.blank res 1024)
  | chunk :: chunks, len, pool =>
      readLoop res failed chunks (len + chunk.length) ((pool.blank res 1024).poke len chunk)

/-- The descriptor calls of `read_file`. -/
inductive FdCall
  | openCall (path : List Char) (ok : Bool)
  | closeCall
  deriving DecidableEq, Repr

/-- What `read_file` returns: the text with its length, the pool, and the
descriptor calls it made. -/
structure ReadFile (ρ : Type) where
  text : Option (Nat × Nat)
  pool : Pool ρ
  calls : List FdCall

/-- `read_file`. -/
def readFile (res : Residue ρ) (k : Kernel) (path : List Char) (extraPath : Option (List Char))
    (pool : Pool ρ) : ReadFile ρ :=
  let (file, pool) := procPidFile path extraPath pool
  let name := cstr (pool.bytesAt file)
  let pool := pool.free file
  match k.openFile name with
  | none => ⟨none, pool, [.openCall name false]⟩
  | some reads =>
      match readLoop res reads.failed reads.chunks 0 pool with
      | (none, pool) =>
          let (obj, pool) := pool.finish
          ⟨none, pool.free obj, [.openCall name true, .closeCall]⟩
      | (some len, pool) =>
          let (text, pool) := (pool.poke len [nul]).finish
          ⟨some (text, len), pool, [.openCall name true, .closeCall]⟩

/-- `proc_pid_file` pushes the path. -/
theorem procPidFile_pushed (pid : List Char) (file : Option (List Char)) {pool : Pool ρ}
    (hrest : pool.growing = []) :
    (procPidFile pid file pool).1 = pool.finished.length ∧
      Pool.Pushed pool [.bytes (pidPath pid file ++ [nul])] (procPidFile pid file pool).2 := by
  cases file with
  | none =>
      refine ⟨rfl, ?_⟩
      have hp := Pool.Pushed.of_finish (p := pool)
        (q := (pool.grow (procDir ++ pid)).grow [nul]) rfl rfl
      simpa [procPidFile, pidPath, Pool.grow, hrest] using hp
  | some file =>
      refine ⟨rfl, ?_⟩
      have hp := Pool.Pushed.of_finish (p := pool)
        (q := ((pool.grow (procDir ++ pid)).grow ('/' :: file)).grow [nul]) rfl rfl
      simpa [procPidFile, pidPath, Pool.grow, hrest] using hp

/-- A push at rest is read back. -/
theorem bytesAt_pushed {pool pool' : Pool ρ} {m : Mem} {rest : List (Block ρ)}
    (h : Pool.Pushed pool (.bytes m :: rest) pool') : pool'.bytesAt pool.finished.length = m := by
  apply Pool.bytesAt_of_getElem?
  rw [h.finished, List.getElem?_append_right (Nat.le_refl _)]
  simp

/-- Storing a chunk where the text so far ends extends the text. -/
theorem overwrite_append (text junk chunk : List Char) :
    overwrite (text ++ junk) text.length chunk = text ++ chunk ++ junk.drop chunk.length := by
  simp [overwrite, List.drop_append, List.drop_eq_nil_of_le]

/-- **The read loop appends the chunks.**  Each chunk fits into the bytes that
were grown for it, and at least 1024 bytes stay free behind the text. -/
theorem readLoop_spec (res : Residue ρ) (failed : Bool) {chunks : List (List Char)}
    (hchunks : ∀ c ∈ chunks, c.length ≤ 1024) :
    ∀ (text junk : List Char) (pool : Pool ρ), pool.growing = text ++ junk →
      ∃ pool' junk', readLoop res failed chunks text.length pool =
          (if failed then none else some (text ++ chunks.flatten).length, pool') ∧
        pool'.growing = text ++ chunks.flatten ++ junk' ∧ 1024 ≤ junk'.length ∧
        pool'.finished = pool.finished ∧ pool'.releases = pool.releases := by
  induction chunks with
  | nil =>
      intro text junk pool hgrow
      refine ⟨pool.blank res 1024, junk ++ (List.range 1024).map (res.byte pool.clock), ?_, ?_, ?_,
        rfl, rfl⟩
      · simp [readLoop]
      · simp [Pool.blank, hgrow]
      · simp
  | cons chunk chunks ih =>
      intro text junk pool hgrow
      have hle := hchunks chunk List.mem_cons_self
      let junk' := junk ++ (List.range 1024).map (res.byte pool.clock)
      have hfit : chunk.length ≤ junk'.length := by
        simp [junk']
        omega
      have hpoke : ((pool.blank res 1024).poke text.length chunk).growing =
          text ++ chunk ++ junk'.drop chunk.length := by
        have hblank : (pool.blank res 1024).growing = text ++ junk' := by
          simp [Pool.blank, hgrow, junk']
        rw [Pool.poke, hblank]
        exact overwrite_append _ _ _
      obtain ⟨pool', junk'', hrun, hgrow', hjunk, hfin, hrel⟩ :=
        ih (fun c hc => hchunks c (List.mem_cons_of_mem _ hc)) (text ++ chunk) _ _ hpoke
      refine ⟨pool', junk'', ?_, ?_, hjunk, hfin, hrel⟩
      · rw [readLoop, ← List.length_append, hrun]
        simp [List.append_assoc]
      · rw [hgrow']
        simp [List.append_assoc]

/-- The path a call of `read_file` opens. -/
theorem readFile_opens {path : List Char} {extraPath : Option (List Char)} {pool : Pool ρ}
    (hrest : pool.growing = []) (hpath : nul ∉ pidPath path extraPath) :
    cstr ((procPidFile path extraPath pool).2.bytesAt (procPidFile path extraPath pool).1) =
      pidPath path extraPath := by
  obtain ⟨hptr, hpush⟩ := procPidFile_pushed path extraPath hrest
  rw [hptr, bytesAt_pushed hpush]
  exact cstr_terminated hpath []

/-- **A file that cannot be read leaves nothing.** -/
theorem readFile_none (res : Residue ρ) (k : Kernel) {path : List Char}
    {extraPath : Option (List Char)} {pool : Pool ρ} (hrest : pool.growing = [])
    (hpath : nul ∉ pidPath path extraPath)
    (hfile : fileContent (k.openFile (pidPath path extraPath)) = none) :
    (readFile res k path extraPath pool).text = none ∧
      Pool.Pushed pool [] (readFile res k path extraPath pool).pool := by
  obtain ⟨hptr, hpush⟩ := procPidFile_pushed path extraPath hrest
  have hfree := hpush.free
  unfold readFile
  simp only [readFile_opens hrest hpath]
  rw [hptr]
  cases hopen : k.openFile (pidPath path extraPath) with
  | none => exact ⟨rfl, hfree⟩
  | some reads =>
      have hfailed : reads.failed = true := by simpa [fileContent, hopen] using hfile
      obtain ⟨pool', junk, hrun, _, _, hfin, hrel⟩ :=
        readLoop_spec res reads.failed (fun c hc => (reads.chunk_bounds c hc).2) [] []
          ((procPidFile path extraPath pool).2.free pool.finished.length) rfl
      simp only [List.length_nil, hfailed, if_true] at hrun
      simp only [hfailed, hrun, true_and]
      have hobj := Pool.Pushed.of_finish hfin hrel
      have hlen : ((procPidFile path extraPath pool).2.free pool.finished.length).finished.length =
          pool.finished.length := by rw [hfree.finished, List.append_nil]
      have hback := (hfree.trans hobj).free
      rw [Pool.finish_ptr, hfin, hlen]
      exact hback

/-- **A file that can be read leaves its text.**  The object pushed is the
content, a NUL, and the residue of the memory behind it. -/
theorem readFile_some (res : Residue ρ) (k : Kernel) {path : List Char}
    {extraPath : Option (List Char)} {pool : Pool ρ} {content : List Char}
    (hrest : pool.growing = []) (hpath : nul ∉ pidPath path extraPath)
    (hfile : fileContent (k.openFile (pidPath path extraPath)) = some content) :
    (readFile res k path extraPath pool).text = some (pool.finished.length, content.length) ∧
      ∃ junk, Pool.Pushed pool [.bytes (content ++ nul :: junk)]
        (readFile res k path extraPath pool).pool := by
  obtain ⟨hptr, hpush⟩ := procPidFile_pushed path extraPath hrest
  have hfree := hpush.free
  have hlen : ((procPidFile path extraPath pool).2.free pool.finished.length).finished.length =
      pool.finished.length := by rw [hfree.finished, List.append_nil]
  unfold readFile
  simp only [readFile_opens hrest hpath]
  rw [hptr]
  cases hopen : k.openFile (pidPath path extraPath) with
  | none => simp [fileContent, hopen] at hfile
  | some reads =>
      obtain ⟨hok, rfl⟩ : reads.failed = false ∧ reads.chunks.flatten = content := by
        simpa [fileContent, hopen] using hfile
      obtain ⟨pool', junk, hrun, hgrow, hjunk, hfin, hrel⟩ :=
        readLoop_spec res reads.failed (fun c hc => (reads.chunk_bounds c hc).2) [] []
          ((procPidFile path extraPath pool).2.free pool.finished.length) rfl
      simp only [List.length_nil, List.nil_append, hok, Bool.false_eq_true, if_false] at hrun hgrow
      simp only [hok, hrun]
      have hterm : (pool'.poke reads.chunks.flatten.length [nul]).growing =
          reads.chunks.flatten ++ nul :: junk.drop 1 := by
        rw [Pool.poke, hgrow]
        simpa using overwrite_append reads.chunks.flatten junk [nul]
      refine ⟨?_, junk.drop 1, ?_⟩
      · simp only [Pool.finish_ptr, Pool.poke_finished, hfin, hlen]
      · have hobj := Pool.Pushed.of_finish (q := pool'.poke reads.chunks.flatten.length [nul]) hfin hrel
        rw [hterm] at hobj
        exact hfree.trans hobj

end Linux
