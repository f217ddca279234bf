import ProcProcessTable.LinuxReadFile

/-!
# read_file assembles the file

The buffer of `read_file` grows by 1024 bytes in front of every `read`, and the
text grows by what was read.  So the text is never longer than the buffer, and a
`read` that is about to be made finds the 1024 bytes it was promised, however
short the reads before it were (`readStores_inside`).

A `Store` names the bytes a call may write into the growing object, as offsets
from its base, which may move; `readFile_exact` says what `read_file` leaves for
every answer of the system, and that all its stores lie inside.
-/

namespace Linux

open CText MemPool

variable {ρ : Type}

/-- A store into the growing object: where it starts, how many bytes it may
write, and how far the object has grown. -/
structure Store where
  off : Nat
  size : Nat
  grown : Nat

/-- The store stays inside the object. -/
def Store.Inside (s : Store) : Prop := s.off + s.size ≤ s.grown

/-- The windows `read` is given by the loop of `read_file`, the one in which it
finds the end of the file or fails included. -/
def readStores (res : Residue ρ) : List (List Char) → Nat → Pool ρ → List Store
  | [], len, pool => [⟨len, 1024, (pool.blank res 1024).growing.length⟩]
  | chunk :: chunks, len, pool =>
      ⟨len, 1024, (pool.blank res 1024).growing.length⟩ ::
        readStores res chunks (len + chunk.length) ((pool.blank res 1024).poke len chunk)

/-- The store of the terminator, behind a loop that was not cut short. -/
def terminatorStore : Option Nat × Pool ρ → List Store
  | (none, _) => []
  | (some len, pool) => [⟨len, 1, pool.growing.length⟩]

/-- The stores of a call of `read_file` behind the release of the path. -/
def readFileStores (res : Residue ρ) (k : Kernel) (path : List Char)
    (extraPath : Option (List Char)) (pool : Pool ρ) : List Store :=
  let (file, pool) := procPidFile path extraPath pool
  let name := cstr (pool.bytesAt file)
  let pool := pool.free file
  match k.openFile name with
  | none => []
  | some reads =>
      readStores res reads.chunks 0 pool ++
        terminatorStore (readLoop res reads.failed reads.chunks 0 pool)

/-- **Every window lies inside the buffer**, as long as the text does. -/
theorem readStores_inside (res : Residue ρ) {chunks : List (List Char)}
    (hchunks : ∀ c ∈ chunks, c.length ≤ 1024) :
    ∀ (len : Nat) (pool : Pool ρ), len ≤ pool.growing.length →
      ∀ s ∈ readStores res chunks len pool, s.Inside := by
  have hblank : ∀ pool : Pool ρ, (pool.blank res 1024).growing.length =
      pool.growing.length + 1024 := by
    intro pool
    rw [Pool.blank, List.length_append, List.length_map, List.length_range]
  induction chunks with
  | nil =>
      intro len pool hlen s hs
      obtain rfl := List.mem_singleton.mp hs
      rw [Store.Inside, hblank]
      exact Nat.add_le_add_right hlen 1024
  | cons chunk chunks ih =>
      intro len pool hlen s hs
      have hle := hchunks chunk List.mem_cons_self
      rcases List.mem_cons.mp hs with rfl | hs
      · rw [Store.Inside, hblank]
        exact Nat.add_le_add_right hlen 1024
      · -- the chunk was delivered into its window, and the buffer keeps its size
        have hfit : len + chunk.length ≤ (pool.blank res 1024).growing.length := by
          rw [hblank]
          omega
        have hpoke : ((pool.blank res 1024).poke len chunk).growing.length =
            (pool.blank res 1024).growing.length := length_overwrite hfit
        exact ih (fun c hc => hchunks c (List.mem_cons_of_mem _ hc)) (len + chunk.length) _
          (hpoke ▸ hfit) s hs

/-- The terminator is stored behind the text, and the buffer reaches that far. -/
theorem terminatorStore_inside (res : Residue ρ) (failed : Bool) {chunks : List (List Char)}
    (hchunks : ∀ c ∈ chunks, c.length ≤ 1024) {pool : Pool ρ} (hrest : pool.growing = []) :
    ∀ s ∈ terminatorStore (readLoop res failed chunks 0 pool), s.Inside := by
  obtain ⟨pool', junk, hrun, hgrow, hjunk, _⟩ := readLoop_spec res failed hchunks [] [] pool hrest
  rw [List.length_nil, List.nil_append] at hrun
  rw [hrun]
  cases failed with
  | true => exact fun s hs => absurd hs List.not_mem_nil
  | false =>
      intro s hs
      obtain rfl := List.mem_singleton.mp hs
      have hroom : chunks.flatten.length + 1 ≤ pool'.growing.length := by
        rw [hgrow, List.nil_append, List.length_append]
        omega
      exact hroom

/-- The descriptor calls of a call of `read_file`. -/
theorem readFile_calls (res : Residue ρ) (k : Kernel) (path : List Char)
    (extraPath : Option (List Char)) (pool : Pool ρ) :
    (readFile res k path extraPath pool).calls =
      let name := cstr ((procPidFile path extraPath pool).2.bytesAt
        (procPidFile path extraPath pool).1)
      if (k.openFile name).isSome then [.openCall name true, .closeCall]
      else [.openCall name false] := by
  unfold readFile
  dsimp only
  cases k.openFile (cstr ((procPidFile path extraPath pool).2.bytesAt
      (procPidFile path extraPath pool).1)) with
  | none => rfl
  | some reads =>
      dsimp only
      split <;> rfl

/-- All stores of a call lie inside the buffer as it was grown. -/
theorem readFileStores_inside (res : Residue ρ) (k : Kernel) {path : List Char}
    {extraPath : Option (List Char)} {pool : Pool ρ} (hrest : pool.growing = [])
    (hpath : nul ∉ pidPath path extraPath) :
    ∀ s ∈ readFileStores res k path extraPath pool, s.Inside := by
  unfold readFileStores
  dsimp only
  rw [readFile_opens hrest hpath]
  cases k.openFile (pidPath path extraPath) with
  | none => exact fun s hs => absurd hs List.not_mem_nil
  | some reads =>
      have hchunks : ∀ c ∈ reads.chunks, c.length ≤ 1024 := fun c hc => (reads.chunk_bounds c hc).2
      intro s hs
      rcases List.mem_append.mp hs with hs | hs
      · exact readStores_inside res hchunks 0 _ (Nat.zero_le _) s hs
      · exact terminatorStore_inside res reads.failed hchunks rfl s hs

/-- `read_file` has done its work exactly, for the answer of the system to the
call of `open`. -/
def ReadsExactly (fd : Option Reads) (path : List Char) (before : Pool ρ) (out : ReadFile ρ) :
    Prop :=
  match fd with
  | none =>
      out.calls = [.openCall path false] ∧ out.text = none ∧ Pool.Pushed before [] out.pool
  | some reads =>
      out.calls = [.openCall path true, .closeCall] ∧
        if reads.failed then out.text = none ∧ Pool.Pushed before [] out.pool
        else ∃ ptr junk, out.text = some (ptr, (reads.chunks.map List.length).sum) ∧
          out.pool.bytesAt ptr = reads.chunks.flatten ++ nul :: junk ∧
          Pool.Pushed before [.bytes (out.pool.bytesAt ptr)] out.pool

/-- **`read_file` assembles the file exactly.**  For every path, every pool and
every answer of the system, it returns the chunks that were delivered, their
total length and a NUL behind them, or NULL when the file could not be opened or
a `read` failed; it closes the file if it was opened, leaves nothing else on the
pool, and all its stores lie inside the buffer as it was grown. -/
theorem readFile_exact (res : Residue ρ) (k : Kernel) {path : List Char}
    {extraPath : Option (List Char)} {pool : Pool ρ} (hrest : pool.growing = [])
    (hpath : nul ∉ pidPath path extraPath) :
    ReadsExactly (k.openFile (pidPath path extraPath)) (pidPath path extraPath) pool
        (readFile res k path extraPath pool) ∧
      ∀ s ∈ readFileStores res k path extraPath pool, s.Inside := by
  refine ⟨?_, readFileStores_inside res k hrest hpath⟩
  have hcalls := readFile_calls res k path extraPath pool
  rw [readFile_opens hrest hpath] at hcalls
  dsimp only at hcalls
  unfold ReadsExactly
  cases hopen : k.openFile (pidPath path extraPath) with
  | none =>
      have hfile : fileContent (k.openFile (pidPath path extraPath)) = none := by
        rw [hopen]
        rfl
      rw [hopen] at hcalls
      exact ⟨hcalls, readFile_none res k hrest hpath hfile⟩
  | some reads =>
      rw [hopen] at hcalls
      refine ⟨hcalls, ?_⟩
      have hfile : fileContent (k.openFile (pidPath path extraPath)) =
          if reads.failed then none else some reads.chunks.flatten := by
        rw [hopen]
        rfl
      cases hfailed : reads.failed with
      | true =>
          rw [hfailed] at hfile
          exact readFile_none res k hrest hpath hfile
      | false =>
          rw [hfailed] at hfile
          obtain ⟨htext, junk, hpush⟩ := readFile_some res k hrest hpath hfile
          have hbytes := bytesAt_pushed hpush
          refine ⟨_, junk, by rw [htext, List.length_flatten], hbytes, ?_⟩
          rw [hbytes]
          exact hpush

/-- Three bytes that come in two reads, or the first two of them and an error. -/
def shortReads (failed : Bool) : Kernel where
  stat := fun _ => none
  access := fun _ => true
  openFile := fun _ => some
    { chunks := if failed then [['a', nul]] else [['a', nul], ['b']]
      failed := failed
      chunk_bounds := by cases failed <;> decide }
  realpath := fun _ => none
  time := 0

theorem readFile_exact_short_reads :
    (ReadsExactly ((shortReads false).openFile (pidPath ['4', '2'] (some ['s'])))
        (pidPath ['4', '2'] (some ['s'])) (Pool.init : Pool Unit)
        (readFile ⟨fun _ _ => 'x', fun _ => ()⟩ (shortReads false) ['4', '2'] (some ['s'])
          Pool.init) ∧
      ∀ s ∈ readFileStores ⟨fun _ _ => 'x', fun _ => ()⟩ (shortReads false) ['4', '2'] (some ['s'])
        (Pool.init : Pool Unit), s.Inside) ∧
    ReadsExactly ((shortReads true).openFile (pidPath ['4', '2'] (some ['s'])))
        (pidPath ['4', '2'] (some ['s'])) (Pool.init : Pool Unit)
        (readFile ⟨fun _ _ => 'x', fun _ => ()⟩ (shortReads true) ['4', '2'] (some ['s'])
          Pool.init) ∧
      ∀ s ∈ readFileStores ⟨fun _ _ => 'x', fun _ => ()⟩ (shortReads true) ['4', '2'] (some ['s'])
        (Pool.init : Pool Unit), s.Inside :=
  ⟨readFile_exact _ (shortReads false) rfl (by decide),
    readFile_exact _ (shortReads true) rfl (by decide)⟩

end Linux
