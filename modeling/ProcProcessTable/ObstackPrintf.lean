import ProcProcessTable.CharArray
import ProcProcessTable.LinuxReadFile

/-!
# os/obstack_printf.c and eval_link on Cygwin

Cygwin has no `obstack_printf`, and the port brings its own: `vsnprintf` into a
local array of 1024 bytes, and as many bytes of that array as `vsnprintf` says
the text has.  `vsnprintf` says it of the whole text, of which the array holds
1023 bytes at most.

`obstackPrintf_exact_iff` says for which texts the two agree, and
`evalLink_exact_iff` what that does to the paths `eval_link` stores.
-/

namespace Cygwin

open CText MemPool

section

variable {ρ : Type}

/-- `obstack_grow` from a local array, which must hold the bytes. -/
def obstackGrow {size : Nat} (buf : CharArray size) (len : Int32) (pool : Pool ρ) :
    Option (Pool ρ) :=
  -- `len` becomes a `size_t`
  if len.toInt < 0 then none else (buf.read len.toInt.toNat).map pool.grow

/-- `obstack_printf`, for a format that makes `text` of its arguments.  `buf` is
what the call finds in its array. -/
def obstackPrintf (buf : CharArray 1024) (text : List Char) (pool : Pool ρ) : Option (Pool ρ) :=
  let out := buf.vsnprintf text
  obstackGrow out.1 out.2 pool

/-- A text shorter than the array is appended as it is. -/
theorem obstackPrintf_of_lt (buf : CharArray 1024) {text : List Char} (h : text.length < 1024)
    (pool : Pool ρ) : obstackPrintf buf text pool = some (pool.grow text) := by
  have hint : text.length < 2 ^ 31 := by omega
  have hlen := buf.vsnprintf_length hint
  unfold obstackPrintf obstackGrow
  dsimp only
  rw [hlen, if_neg (by omega), Int.toNat_natCast, buf.read_vsnprintf h, Option.map_some]

/-- A text of its size is appended with a NUL for its last byte. -/
theorem obstackPrintf_of_eq (buf : CharArray 1024) {text : List Char} (h : text.length = 1024)
    (pool : Pool ρ) :
    obstackPrintf buf text pool = some (pool.grow (text.take 1023 ++ [nul])) := by
  have hint : text.length < 2 ^ 31 := by omega
  have hlen := buf.vsnprintf_length hint
  unfold obstackPrintf obstackGrow
  dsimp only
  rw [hlen, if_neg (by omega), Int.toNat_natCast, buf.read_vsnprintf_eq (by decide) h,
    Option.map_some]

/-- A longer one is read from behind the array. -/
theorem obstackPrintf_of_gt (buf : CharArray 1024) {text : List Char} (h : 1024 < text.length)
    (pool : Pool ρ) : obstackPrintf buf text pool = none := by
  unfold obstackPrintf obstackGrow
  dsimp only
  by_cases hint : text.length < 2 ^ 31
  · rw [buf.vsnprintf_length hint, if_neg (by omega), Int.toNat_natCast,
      CharArray.read_of_lt _ h, Option.map_none]
  · rw [buf.vsnprintf_tooLong (Nat.le_of_not_lt hint)]
    rfl

/-- A string with a NUL for its last byte is another one. -/
theorem cut_ne (s : Mem) : (cstr s).take 1023 ++ [nul] ≠ cstr s := by
  intro heq
  apply nul_not_mem_cstr s
  rw [← heq]
  exact List.mem_append_right _ List.mem_cons_self

/-- **When `obstack_printf` appends the text**: exactly when it is shorter than
the array. -/
theorem obstackPrintf_exact (s : Mem) (pool : Pool ρ) :
    (∀ buf, obstackPrintf buf (cstr s) pool = some (pool.grow (cstr s))) ↔ strlen s < 1024 := by
  constructor
  · intro hexact
    have hcall := hexact ⟨List.replicate 1024 nul, List.length_replicate⟩
    rcases Nat.lt_trichotomy (strlen s) 1024 with hlt | heq | hgt
    · exact hlt
    · rw [obstackPrintf_of_eq _ heq] at hcall
      have hgrow := congrArg Pool.growing (Option.some.inj hcall)
      exact absurd (List.append_cancel_left hgrow) (cut_ne s)
    · rw [obstackPrintf_of_gt _ hgt] at hcall
      cases hcall
  · intro hlt buf
    exact obstackPrintf_of_lt buf hlt pool

/-- `proc_pid_file`. -/
def procPidFile (stack : Nat → CharArray 1024) (pid : List Char) (file : Option (List Char))
    (pool : Pool ρ) : Option (Nat × Pool ρ) := do
  let pool ← obstackPrintf (stack 0) (Linux.procDir ++ pid) pool
  let pool ← match file with
    | some file => obstackPrintf (stack 1) ('/' :: file) pool
    | none => some pool
  some (pool.grow [nul]).finish

/-- The name of a directory entry is short enough: the path is the one Linux
builds. -/
theorem procPidFile_eq (stack : Nat → CharArray 1024) {pid file : List Char}
    (hpid : pid.length ≤ 255) (hfile : file.length ≤ 255) (pool : Pool ρ) :
    procPidFile stack pid (some file) pool = some (Linux.procPidFile pid (some file) pool) := by
  have hdir : (Linux.procDir ++ pid).length < 1024 := by
    have hproc : Linux.procDir.length = 6 := rfl
    rw [List.length_append]
    omega
  have hrel : ('/' :: file).length < 1024 := by
    rw [List.length_cons]
    omega
  unfold procPidFile
  rw [obstackPrintf_of_lt _ hdir]
  show (obstackPrintf (stack 1) ('/' :: file) _ >>= _) = _
  rw [obstackPrintf_of_lt _ hrel]
  rfl

end

/-- The pointer members of `struct procstat` that `eval_link` is given. -/
structure Links where
  exec : Option Nat
  cwd : Option Nat

inductive Link
  | exec | cwd
  deriving DecidableEq, Repr

/-- `F_EXEC` and `F_CWD`. -/
def Link.field : Link → Nat
  | .exec => 33
  | .cwd => 34

/-- The name of the link below the directory of the process. -/
def Link.rel : Link → List Char
  | .exec => "exe".toList
  | .cwd => "cwd".toList

def Links.get (prs : Links) : Link → Option Nat
  | .exec => prs.exec
  | .cwd => prs.cwd

def Links.set (prs : Links) (ptr : Link) (obj : Nat) : Links :=
  match ptr with
  | .exec => { prs with exec := some obj }
  | .cwd => { prs with cwd := some obj }

theorem Links.get_set (prs : Links) (ptr : Link) (obj : Nat) :
    (prs.set ptr obj).get ptr = some obj := by
  cases ptr with
  | exec => rfl
  | cwd => rfl

/-- The end of `eval_link`: the path goes onto the pool, and the member points at
it. -/
def storeLink (buf : CharArray 1024) (link : Mem) (field : Nat) (ptr : Link)
    (prs formatStr : Nat) (pool : Pool Links) : Option (Pool Links) :=
  (obstackPrintf buf (cstr link) pool).map fun pool =>
    let out := (pool.grow [nul]).finish
    let pool := out.2.modifyRecord prs fun p => p.set ptr out.1
    pool.modifyBytes formatStr fun s => s.modify field Char.toLower

/-- `eval_link`. -/
def evalLink (stack : Nat → CharArray 1024) (realpath : List Char → Option Mem)
    (pid linkRel : List Char) (field : Nat) (ptr : Link) (prs formatStr : Nat)
    (pool : Pool Links) : Option (Pool Links) :=
  (procPidFile stack pid (some linkRel) pool).bind fun linkFile =>
    let pool := linkFile.2.free linkFile.1
    match realpath (cstr (linkFile.2.bytesAt linkFile.1)) with
    | none => some pool
    | some link => storeLink (stack 2) link field ptr prs formatStr pool

/-- Where `OS_get_table` calls `eval_link`: the record and the format string are on
the pool, and no object is growing. -/
structure Ready (pool : Pool Links) (prs formatStr : Nat) : Prop where
  growing : pool.growing = []
  record : ∃ r, pool.recordAt? prs = some r
  format : formatStr < pool.finished.length

section

variable {pool : Pool Links} {prs formatStr : Nat} {pid : List Char} {ptr : Link}
  {realpath : List Char → Option Mem} {link : Mem} {stack : Nat → CharArray 1024}

/-- Behind the name of the link the pool is as it was, but for the release. -/
theorem evalLink_eq (hready : Ready pool prs formatStr) (hpid : nul ∉ pid)
    (hlen : pid.length ≤ 255) (hlink : realpath (Linux.pidPath pid (some ptr.rel)) = some link) :
    ∃ start, start.finished = pool.finished ∧ start.growing = [] ∧
      ∀ stack, evalLink stack realpath pid ptr.rel ptr.field ptr prs formatStr pool =
        storeLink (stack 2) link ptr.field ptr prs formatStr start := by
  have hrel : nul ∉ ptr.rel ∧ ptr.rel.length ≤ 255 := by
    cases ptr with
    | exec => decide
    | cwd => decide
  have hpath : nul ∉ Linux.pidPath pid (some ptr.rel) := by
    apply Linux.nul_not_mem_pidPath hpid
    intro f hf
    rw [← Option.mem_some.mp hf]
    exact hrel.1
  obtain ⟨hptr, hpush⟩ := Linux.procPidFile_pushed pid (some ptr.rel) hready.growing
  have hopens := Linux.readFile_opens hready.growing hpath
  have hfree := hpush.free
  refine ⟨(Linux.procPidFile pid (some ptr.rel) pool).2.free pool.finished.length, ?_,
    hfree.growing, ?_⟩
  · rw [hfree.finished, List.append_nil]
  · intro stack
    unfold evalLink
    rw [procPidFile_eq stack hlen hrel.2, Option.bind_some]
    dsimp only
    rw [hopens, hlink, hptr]

/-- The member points at the text that was appended. -/
theorem storeLink_text (hready : Ready pool prs formatStr) {start : Pool Links}
    (hfinished : start.finished = pool.finished) (hgrowing : start.growing = [])
    {buf : CharArray 1024} {text : List Char}
    (happend : obstackPrintf buf (cstr link) start = some (start.grow text)) :
    ∃ pool', storeLink buf link ptr.field ptr prs formatStr start = some pool' ∧
      (pool'.recordAt? prs).bind (·.get ptr) = some pool.finished.length ∧
      pool'.bytesAt pool.finished.length = text ++ [nul] := by
  obtain ⟨r, hr⟩ := hready.record
  have htop : ((start.grow text).grow [nul]).finish.2.finished =
      pool.finished ++ [.bytes (text ++ [nul])] := by
    rw [Pool.finish_finished, Pool.grow_finished, Pool.grow_finished, hfinished]
    unfold Pool.grow
    dsimp only
    rw [hgrowing, List.nil_append]
  have hrecord := Pool.recordAt?_append htop hr
  have hne : pool.finished.length ≠ formatStr := Nat.ne_of_gt hready.format
  unfold storeLink
  rw [happend, Option.map_some]
  refine ⟨_, rfl, ?_, ?_⟩
  · rw [Pool.recordAt?_modifyBytes, Pool.recordAt?_modifyRecord_self hrecord, Option.bind_some,
      Links.get_set, Pool.finish_ptr, Pool.grow_finished, Pool.grow_finished, hfinished]
  · rw [Pool.bytesAt_modifyBytes_of_ne _ hne, Pool.bytesAt_modifyRecord]
    apply Pool.bytesAt_of_getElem?
    rw [htop, List.getElem?_append_right (Nat.le_refl _), Nat.sub_self]
    rfl

/-- **The path that is stored** is the one that was resolved exactly when
`obstack_printf` appends it. -/
theorem evalLink_exact (hready : Ready pool prs formatStr) (hpid : nul ∉ pid)
    (hlen : pid.length ≤ 255) (hlink : realpath (Linux.pidPath pid (some ptr.rel)) = some link) :
    (∀ stack, ∃ pool' obj,
        evalLink stack realpath pid ptr.rel ptr.field ptr prs formatStr pool = some pool' ∧
          (pool'.recordAt? prs).bind (·.get ptr) = some obj ∧
            cstr (pool'.bytesAt obj) = cstr link) ↔
      strlen link < 1024 := by
  obtain ⟨start, hfinished, hgrowing, heval⟩ := evalLink_eq hready hpid hlen hlink
  constructor
  · intro hexact
    obtain ⟨pool', obj, hcall, hobj, htext⟩ :=
      hexact fun _ => ⟨List.replicate 1024 nul, List.length_replicate⟩
    rw [heval] at hcall
    rcases Nat.lt_trichotomy (strlen link) 1024 with hlt | heq | hgt
    · exact hlt
    · have hcut := obstackPrintf_of_eq ⟨List.replicate 1024 nul, List.length_replicate⟩ heq start
      obtain ⟨_, hstore, hptr, hbytes⟩ :=
        @storeLink_text _ _ _ ptr link hready _ hfinished hgrowing _ _ hcut
      rw [hstore] at hcall
      obtain rfl := Option.some.inj hcall
      rw [hptr] at hobj
      obtain rfl := Option.some.inj hobj
      -- what can be read there ends one byte before the path does
      have hfree : nul ∉ (cstr link).take 1023 := fun hmem =>
        nul_not_mem_cstr link (List.mem_of_mem_take hmem)
      rw [hbytes, List.append_assoc, List.singleton_append, cstr_terminated hfree] at htext
      have hshort := congrArg List.length htext
      have hstrlen : (cstr link).length = strlen link := rfl
      rw [List.length_take] at hshort
      omega
    · unfold storeLink at hcall
      rw [obstackPrintf_of_gt _ hgt] at hcall
      cases hcall
  · intro hlt stack
    obtain ⟨pool', hstore, hptr, hbytes⟩ := @storeLink_text _ _ _ ptr link hready _ hfinished
      hgrowing _ _ (obstackPrintf_of_lt (stack 2) hlt start)
    refine ⟨pool', _, (heval stack).trans hstore, hptr, ?_⟩
    rw [hbytes]
    exact cstr_terminated (nul_not_mem_cstr link) []

end

/-- **Texts and paths that survive `obstack_printf`.**  Whatever the local array
held, the text of a string is appended as it is, and `eval_link` stores it as it
is when it is the path that was resolved, if and only if it has fewer than 1024
bytes. -/
theorem obstackPrintf_exact_iff (s : Mem) :
    (∀ (ρ : Type) (pool : Pool ρ),
      (∀ buf, obstackPrintf buf (cstr s) pool = some (pool.grow (cstr s))) ↔ strlen s < 1024) ∧
    ∀ (pool : Pool Links) (prs formatStr : Nat) (pid : List Char) (ptr : Link)
      (realpath : List Char → Option Mem), Ready pool prs formatStr → nul ∉ pid →
      pid.length ≤ 255 → realpath (Linux.pidPath pid (some ptr.rel)) = some s →
      ((∀ stack, ∃ pool' obj,
          evalLink stack realpath pid ptr.rel ptr.field ptr prs formatStr pool = some pool' ∧
            (pool'.recordAt? prs).bind (·.get ptr) = some obj ∧
              cstr (pool'.bytesAt obj) = cstr s) ↔
        strlen s < 1024) :=
  ⟨fun _ pool => obstackPrintf_exact s pool,
    fun _ _ _ _ _ _ hready hpid hlen hlink => evalLink_exact hready hpid hlen hlink⟩

/-- A record and a format string, as an iteration has put them on the pool. -/
def samplePool : Pool Links := ⟨[.record ⟨none, none⟩, .bytes ("ISS".toList ++ [nul])], [], 0, []⟩

theorem samplePool_ready : Ready samplePool 0 1 := ⟨rfl, ⟨_, rfl⟩, by decide⟩

/-- The shell, whose path is short. -/
theorem obstackPrintf_exact_iff_sh :
    (∀ stack, ∃ pool' obj,
        evalLink stack (fun _ => some "/bin/sh".toList) "1".toList Link.exec.rel Link.exec.field
            .exec 0 1 samplePool = some pool' ∧
          (pool'.recordAt? 0).bind (·.get .exec) = some obj ∧
            cstr (pool'.bytesAt obj) = cstr "/bin/sh".toList) ↔
      strlen "/bin/sh".toList < 1024 :=
  (obstackPrintf_exact_iff "/bin/sh".toList).2 samplePool 0 1 "1".toList .exec _ samplePool_ready
    (by decide) (by decide) rfl

/-- Eight directories with names of 127 bytes. -/
def deepPath : List Char := (List.replicate 8 ('/' :: List.replicate 127 'd')).flatten

theorem length_deepPath : deepPath.length = 1024 := by
  rw [deepPath, List.length_flatten, List.map_replicate, List.sum_replicate_nat, List.length_cons,
    List.length_replicate]

theorem deepPath_nulFree : nul ∉ deepPath := by
  intro hmem
  obtain ⟨part, hpart, hnul⟩ := List.mem_flatten.mp hmem
  obtain rfl := List.eq_of_mem_replicate hpart
  rcases List.mem_cons.mp hnul with heq | htail
  · exact absurd heq (by decide)
  · exact absurd (List.eq_of_mem_replicate htail) (by decide)

/-- **A path that loses its last byte.**  It has 1024 bytes, and the pointer in the
record reaches 1023 of them. -/
theorem path_cut :
    ∃ pool' obj,
      evalLink (fun _ => ⟨List.replicate 1024 nul, List.length_replicate⟩) (fun _ => some deepPath)
          "1".toList Link.cwd.rel Link.cwd.field .cwd 0 1 samplePool = some pool' ∧
        (pool'.recordAt? 0).bind (·.get .cwd) = some obj ∧
          cstr (pool'.bytesAt obj) = deepPath.take 1023 ∧
            cstr (pool'.bytesAt obj) ≠ cstr deepPath := by
  have hcstr : cstr deepPath = deepPath := cstr_of_nulFree deepPath_nulFree
  have hstrlen : (cstr deepPath).length = 1024 := by
    rw [hcstr, length_deepPath]
  obtain ⟨start, hfinished, hgrowing, heval⟩ :=
    @evalLink_eq samplePool 0 1 "1".toList .cwd (fun _ => some deepPath) deepPath samplePool_ready
      (by decide) (by decide) rfl
  have hcut := obstackPrintf_of_eq ⟨List.replicate 1024 nul, List.length_replicate⟩ hstrlen start
  obtain ⟨pool', hstore, hptr, hbytes⟩ :=
    @storeLink_text _ _ _ .cwd deepPath samplePool_ready _ hfinished hgrowing _ _ hcut
  have hfree : nul ∉ deepPath.take 1023 := fun hmem =>
    deepPath_nulFree (List.mem_of_mem_take hmem)
  have htext : cstr (pool'.bytesAt samplePool.finished.length) = deepPath.take 1023 := by
    rw [hbytes, hcstr, List.append_assoc, List.singleton_append, cstr_terminated hfree]
  refine ⟨pool', _, (heval _).trans hstore, hptr, htext, ?_⟩
  rw [htext, hcstr]
  intro heq
  have hlen := congrArg List.length heq
  rw [List.length_take, length_deepPath] at hlen
  exact absurd hlen (by decide)

end Cygwin
