import ProcProcessTable.Initialize
import Mathlib.Logic.Function.Basic
import Mathlib.Logic.Relation

/-!
# The cache of terminal devices

Any number of processes run `initialize` with `cache_ttys` at the same time and
share one file.  A process that finds no readable cache scans `/dev`, writes its
map to a temporary file of its own, and renames that file into place.

The rename is atomic, so the cache is what some process had in its temporary
file.  Whether that was its whole map is told by the results of `store_fd` and
`close`, which `initialize` throws away.  `cache_intact` says that the cache is
absent or a complete map in every run in which no process that failed to write
its map gets its file renamed; `cache_truncated` is a run in which one does.
-/

namespace TtyCache

open Initialize

/-- What is used of `Storable`: a map is written as bytes and read back from
them. -/
structure Storable (Map : Type) where
  freeze : Map → List UInt8
  thaw : List UInt8 → Option Map
  thaw_freeze : ∀ m, thaw (freeze m) = some m

abbrev Path := String

/-- The files by name. -/
abbrev Files := Path → Option (List UInt8)

/-- One process: where it is, `%TTYDEVS`, its temporary file, and what
`store_fd` and `close` returned. -/
structure Process (Map : Type) where
  point : Point
  ttydevs : Option Map
  tmpfile : Path
  stored : Bool
  closed : Bool

/-- The files, the processes, and the maps their scans have found. -/
structure State (ι Map : Type) where
  files : Files
  process : ι → Process Map
  scans : List Map

/-- How one operation ends: the map a scan finds, the name `tempfile` takes,
what the temporary file holds behind a write. -/
structure Answer (Map : Type) where
  ok : Bool
  found : Map
  name : Path
  written : List UInt8

section

variable {ι Map : Type} [DecidableEq ι] (S : Storable Map) (cache : Path)

/-- The next operation of one process. -/
def perform (a : Answer Map) (p : Process Map) (files : Files) : Process Map × Files :=
  let p' := { p with point := next p.point a.ok }
  match p.point with
  | .retrieve => ({ p' with ttydevs := (files cache).bind S.thaw }, files)
  | .getTtyList => ({ p' with ttydevs := some a.found }, files)
  | .tempfile =>
      if a.ok then ({ p' with tmpfile := a.name }, Function.update files a.name (some []))
      else (p', files)
  | .storeFd => ({ p' with stored := a.ok }, Function.update files p.tmpfile (some a.written))
  | .close => ({ p' with closed := a.ok }, Function.update files p.tmpfile (some a.written))
  | .rename =>
      if a.ok then
        (p', Function.update (Function.update files cache (files p.tmpfile)) p.tmpfile none)
      else (p', files)
  | .unlink => if a.ok then (p', Function.update files p.tmpfile none) else (p', files)
  | _ => (p', files)

/-- How an operation may end: a file that tests readable is there, `tempfile`
creates a file, and a map is in its file when `store_fd` and `close` both say so.
Before that, and when one of them failed, any first part of it may be. -/
def Permitted (a : Answer Map) (p : Process Map) (files : Files) : Prop :=
  match p.point with
  | .testCache | .retestCache => a.ok = true → files cache ≠ none
  | .retrieve => a.ok = ((files cache).bind S.thaw).isSome
  | .tempfile => a.ok = true → files a.name = none ∧ a.name ≠ cache
  | .storeFd => ∀ m, p.ttydevs = some m → a.written <+: S.freeze m
  | .close => ∀ m, p.ttydevs = some m → a.written <+: S.freeze m ∧
      (p.stored = true → a.ok = true → a.written = S.freeze m)
  | _ => True

/-- One process goes on. -/
def step (s : State ι Map) (i : ι) (a : Answer Map) : State ι Map :=
  let out := perform S cache a (s.process i) s.files
  { files := out.2
    process := Function.update s.process i out.1
    scans := match (s.process i).point with
      | .getTtyList => a.found :: s.scans
      | _ => s.scans }

/-- A process about to call `initialize`. -/
def Process.calling (p : Process Map) : Process Map := { p with point := start ⟨true, true⟩ }

/-- A step of some process, each operation under a condition. -/
inductive Step (cond : Process Map → Answer Map → Prop) (s : State ι Map) : State ι Map → Prop
  | operate (i : ι) (a : Answer Map) (permitted : Permitted S cache a (s.process i) s.files)
      (meets : cond (s.process i) a) : Step cond s (step S cache s i a)
  | call (i : ι) (idle : (s.process i).point = .returned ∨ (s.process i).point = .died) :
      Step cond s { s with process := Function.update s.process i (s.process i).calling }

/-- The operations may end so, one after the other, from a state on. -/
def Follows (cond : Process Map → Answer Map → Prop) (s : State ι Map) :
    List (ι × Answer Map) → Prop
  | [] => True
  | (i, a) :: rest => Permitted S cache a (s.process i) s.files ∧ cond (s.process i) a ∧
      Follows cond (step S cache s i a) rest

/-- The cache is absent or the serialisation of a map that a process found. -/
def Complete (s : State ι Map) : Prop :=
  s.files cache = none ∨ ∃ m ∈ s.scans, s.files cache = some (S.freeze m)

/-- Every process is about to call, and the cache is complete. -/
def Start (s : State ι Map) : Prop :=
  Complete S cache s ∧ ∀ i, (s.process i).point = start ⟨true, true⟩

/-- A file that is renamed into place has been written: `store_fd` and `close`
both returned true. -/
def WritesOut (p : Process Map) (a : Answer Map) : Prop :=
  p.point = .rename → a.ok = true → p.stored = true ∧ p.closed = true

/-- The process has a temporary file. -/
def holdsFile : Point → Bool
  | .chmod | .storeFd | .close | .rename | .unlink => true
  | _ => false

/-- The process has a map that it found itself, and is to write. -/
def hasScanned : Point → Bool
  | .requireTemp | .tempfile | .chmod | .storeFd | .close | .rename => true
  | _ => false

/-- What one process keeps true of the files. -/
structure Process.Sound (p : Process Map) (files : Files) (scans : List Map) : Prop where
  held : holdsFile p.point = true → files p.tmpfile ≠ none ∧ p.tmpfile ≠ cache
  scanned : hasScanned p.point = true → ∃ m ∈ scans, p.ttydevs = some m ∧
    (p.point = .rename → p.stored = true → p.closed = true → files p.tmpfile = some (S.freeze m))

/-- The invariant: the cache is complete, each process is sound, and no two have
the same temporary file. -/
structure Inv (s : State ι Map) : Prop where
  complete : Complete S cache s
  sound : ∀ i, (s.process i).Sound S cache s.files s.scans
  apart : ∀ i j, i ≠ j → holdsFile (s.process i).point = true →
    holdsFile (s.process j).point = true → (s.process i).tmpfile ≠ (s.process j).tmpfile

variable {S cache}

omit [DecidableEq ι] in
theorem Start.inv {s : State ι Map} (h : Start S cache s) : Inv S cache s := by
  refine ⟨h.1, fun i => ⟨?_, ?_⟩, fun i j _ hi => ?_⟩
  · rw [h.2 i]
    intro hi
    cases hi
  · rw [h.2 i]
    intro hi
    cases hi
  · rw [h.2 i] at hi
    cases hi

/-- **One process changes.**  The invariant is kept if the cache stays complete,
the files of the others stay as they are, and the process is sound with a
temporary file of its own. -/
theorem Inv.update {s : State ι Map} (h : Inv S cache s) (i : ι) {p : Process Map} {files : Files}
    {scans : List Map} (hscans : ∀ m ∈ s.scans, m ∈ scans)
    (hcache : files cache = s.files cache ∨ ∃ m ∈ scans, files cache = some (S.freeze m))
    (hframe : ∀ j, j ≠ i → holdsFile (s.process j).point = true →
      files (s.process j).tmpfile = s.files (s.process j).tmpfile)
    (hsound : p.Sound S cache files scans)
    (hapart : holdsFile p.point = true → ∀ j, j ≠ i → holdsFile (s.process j).point = true →
      p.tmpfile ≠ (s.process j).tmpfile) :
    Inv S cache ⟨files, Function.update s.process i p, scans⟩ := by
  refine ⟨?_, ?_, ?_⟩
  · rcases hcache with hsame | hnew
    · rcases h.complete with hnone | ⟨m, hm, hfile⟩
      · exact Or.inl (hsame.trans hnone)
      · exact Or.inr ⟨m, hscans m hm, hsame.trans hfile⟩
    · exact Or.inr hnew
  · intro j
    dsimp only
    by_cases hj : j = i
    · subst hj
      rw [Function.update_self]
      exact hsound
    · rw [Function.update_of_ne hj]
      obtain ⟨hheld, hscanned⟩ := h.sound j
      refine ⟨fun hholds => ?_, fun hscan => ?_⟩
      · rw [hframe j hj hholds]
        exact hheld hholds
      · obtain ⟨m, hm, hdevs, hwritten⟩ := hscanned hscan
        refine ⟨m, hscans m hm, hdevs, fun hpoint hstored hclosed => ?_⟩
        rw [hframe j hj (by rw [hpoint]; rfl)]
        exact hwritten hpoint hstored hclosed
  · intro j k hjk hj hk
    dsimp only at hj hk ⊢
    by_cases hji : j = i
    · subst hji
      rw [Function.update_self] at hj ⊢
      rw [Function.update_of_ne hjk.symm] at hk ⊢
      exact hapart hj k hjk.symm hk
    · rw [Function.update_of_ne hji] at hj ⊢
      by_cases hki : k = i
      · subst hki
        rw [Function.update_self] at hk ⊢
        exact (hapart hk j hji hj).symm
      · rw [Function.update_of_ne hki] at hk ⊢
        exact h.apart j k hjk hj hk

/-- An operation that leaves the files alone, and behind which the process has a
temporary file or a map to write only if it had. -/
theorem Inv.quiet {s : State ι Map} (h : Inv S cache s) (i : ι) {p : Process Map}
    (hholds : holdsFile p.point = true → holdsFile (s.process i).point = true ∧
      p.tmpfile = (s.process i).tmpfile)
    (hscan : hasScanned p.point = true → hasScanned (s.process i).point = true ∧
      p.ttydevs = (s.process i).ttydevs)
    (hrename : p.point ≠ .rename) :
    Inv S cache ⟨s.files, Function.update s.process i p, s.scans⟩ := by
  refine h.update i (fun _ hm => hm) (Or.inl rfl) (fun _ _ _ => rfl) ⟨?_, ?_⟩ ?_
  · intro hp
    obtain ⟨hi, htmp⟩ := hholds hp
    rw [htmp]
    exact (h.sound i).held hi
  · intro hp
    obtain ⟨hi, hdevs⟩ := hscan hp
    obtain ⟨m, hm, hmap, _⟩ := (h.sound i).scanned hi
    exact ⟨m, hm, hdevs.trans hmap, fun hpoint => absurd hpoint hrename⟩
  · intro hp j hj hheld
    obtain ⟨hi, htmp⟩ := hholds hp
    rw [htmp]
    exact h.apart i j hj.symm hi hheld

/-- A process writes to its temporary file. -/
theorem Inv.write {s : State ι Map} (h : Inv S cache s) (i : ι)
    (hi : holdsFile (s.process i).point = true) {p : Process Map} (bytes : List UInt8)
    (htmp : p.tmpfile = (s.process i).tmpfile)
    (hscan : hasScanned p.point = true → ∃ m ∈ s.scans, p.ttydevs = some m ∧
      (p.point = .rename → p.stored = true → p.closed = true → bytes = S.freeze m)) :
    Inv S cache ⟨Function.update s.files (s.process i).tmpfile (some bytes),
      Function.update s.process i p, s.scans⟩ := by
  obtain ⟨_, hcache⟩ := (h.sound i).held hi
  refine h.update i (fun _ hm => hm) (Or.inl (Function.update_of_ne hcache.symm _ _)) ?_ ⟨?_, ?_⟩ ?_
  · intro j hj hheld
    exact Function.update_of_ne (h.apart j i hj hheld hi) _ _
  · intro _
    rw [htmp, Function.update_self]
    exact ⟨Option.some_ne_none _, hcache⟩
  · intro hp
    obtain ⟨m, hm, hdevs, hbytes⟩ := hscan hp
    refine ⟨m, hm, hdevs, fun hpoint hstored hclosed => ?_⟩
    rw [htmp, Function.update_self, hbytes hpoint hstored hclosed]
  · intro _ j hj hheld
    rw [htmp]
    exact h.apart i j hj.symm hi hheld

/-- An operation that leaves the process without a file and without a map to
write. -/
theorem Inv.idle {s : State ι Map} (h : Inv S cache s) (i : ι) {p : Process Map}
    (hholds : holdsFile p.point = false) (hscan : hasScanned p.point = false) :
    Inv S cache ⟨s.files, Function.update s.process i p, s.scans⟩ := by
  refine h.quiet i (fun hp => ?_) (fun hp => ?_) (fun hpoint => ?_)
  · rw [hholds] at hp
    cases hp
  · rw [hscan] at hp
    cases hp
  · rw [hpoint] at hscan
    cases hscan

/-- `tempfile` creates a file that nobody has. -/
theorem Inv.create {s : State ι Map} (h : Inv S cache s) (i : ι)
    (hi : (s.process i).point = .tempfile) {name : Path} (hfresh : s.files name = none)
    (hname : name ≠ cache) {p : Process Map} (hp : p.point = .chmod) (htmp : p.tmpfile = name)
    (hdevs : p.ttydevs = (s.process i).ttydevs) :
    Inv S cache ⟨Function.update s.files name (some []), Function.update s.process i p, s.scans⟩ := by
  have hothers : ∀ j, holdsFile (s.process j).point = true → (s.process j).tmpfile ≠ name := by
    intro j hheld heq
    exact ((h.sound j).held hheld).1 (heq ▸ hfresh)
  refine h.update i (fun _ hm => hm) (Or.inl (Function.update_of_ne hname.symm _ _)) ?_ ⟨?_, ?_⟩ ?_
  · intro j _ hheld
    exact Function.update_of_ne (hothers j hheld) _ _
  · intro _
    rw [htmp, Function.update_self]
    exact ⟨Option.some_ne_none _, hname⟩
  · intro _
    obtain ⟨m, hm, hmap, _⟩ := (h.sound i).scanned (by rw [hi]; rfl)
    refine ⟨m, hm, hdevs.trans hmap, fun hpoint => ?_⟩
    rw [hp] at hpoint
    cases hpoint
  · intro _ j _ hheld
    rw [htmp]
    exact (hothers j hheld).symm

/-- A written file is renamed into place. -/
theorem Inv.publish {s : State ι Map} (h : Inv S cache s) (i : ι)
    (hi : (s.process i).point = .rename) (hwritten : (s.process i).stored = true ∧
      (s.process i).closed = true) {p : Process Map} (hholds : holdsFile p.point = false)
    (hscan : hasScanned p.point = false) :
    Inv S cache ⟨Function.update (Function.update s.files cache
        (s.files (s.process i).tmpfile)) (s.process i).tmpfile none,
      Function.update s.process i p, s.scans⟩ := by
  have hheldi : holdsFile (s.process i).point = true := by rw [hi]; rfl
  obtain ⟨_, hcache⟩ := (h.sound i).held hheldi
  obtain ⟨m, hm, _, hfile⟩ := (h.sound i).scanned (by rw [hi]; rfl)
  refine h.update i (fun _ hm => hm) (Or.inr ⟨m, hm, ?_⟩) ?_ ⟨?_, ?_⟩ ?_
  · rw [Function.update_of_ne hcache.symm, Function.update_self]
    exact hfile hi hwritten.1 hwritten.2
  · intro j hj hheld
    rw [Function.update_of_ne (h.apart j i hj hheld hheldi),
      Function.update_of_ne ((h.sound j).held hheld).2]
  · rw [hholds]
    exact fun hc => Bool.noConfusion hc
  · rw [hscan]
    exact fun hc => Bool.noConfusion hc
  · rw [hholds]
    exact fun hc => Bool.noConfusion hc

/-- A file that could not be renamed is removed. -/
theorem Inv.remove {s : State ι Map} (h : Inv S cache s) (i : ι)
    (hi : holdsFile (s.process i).point = true) {p : Process Map} (hholds : holdsFile p.point = false)
    (hscan : hasScanned p.point = false) :
    Inv S cache ⟨Function.update s.files (s.process i).tmpfile none,
      Function.update s.process i p, s.scans⟩ := by
  obtain ⟨_, hcache⟩ := (h.sound i).held hi
  refine h.update i (fun _ hm => hm) (Or.inl (Function.update_of_ne hcache.symm _ _)) ?_ ⟨?_, ?_⟩ ?_
  · intro j hj hheld
    exact Function.update_of_ne (h.apart j i hj hheld hi) _ _
  · rw [hholds]
    exact fun hc => Bool.noConfusion hc
  · rw [hscan]
    exact fun hc => Bool.noConfusion hc
  · rw [hholds]
    exact fun hc => Bool.noConfusion hc

/-- A scan of `/dev` finds a map. -/
theorem Inv.scan {s : State ι Map} (h : Inv S cache s) (i : ι) (found : Map) {p : Process Map}
    (hp : p.point = .requireTemp) (hdevs : p.ttydevs = some found) :
    Inv S cache ⟨s.files, Function.update s.process i p, found :: s.scans⟩ := by
  refine h.update i (fun _ hm => List.mem_cons_of_mem _ hm) (Or.inl rfl) (fun _ _ _ => rfl) ⟨?_, ?_⟩ ?_
  · rw [hp]
    exact fun hc => Bool.noConfusion hc
  · intro _
    refine ⟨found, List.mem_cons_self, hdevs, fun hpoint => ?_⟩
    rw [hp] at hpoint
    cases hpoint
  · rw [hp]
    exact fun hc => Bool.noConfusion hc

/-- **One step keeps the invariant**, if what it renames into place has been
written. -/
theorem Inv.operate {s : State ι Map} (h : Inv S cache s) (i : ι) {a : Answer Map}
    (hpermitted : Permitted S cache a (s.process i) s.files) (hcond : WritesOut (s.process i) a) :
    Inv S cache (step S cache s i a) := by
  have hsound := h.sound i
  unfold step perform
  unfold Permitted at hpermitted
  unfold WritesOut at hcond
  cases hpoint : (s.process i).point <;> rw [hpoint] at hpermitted hcond <;>
    dsimp only at hpermitted ⊢
  case requireStorable => cases a.ok <;> exact h.idle i rfl rfl
  case testCache => cases a.ok <;> exact h.idle i rfl rfl
  case retrieve => cases a.ok <;> exact h.idle i rfl rfl
  case getTtyList => exact h.scan i a.found rfl rfl
  case requireTemp =>
    cases a.ok
    · exact h.idle i rfl rfl
    · exact h.quiet i (fun hc => Bool.noConfusion hc) (fun _ => ⟨by rw [hpoint]; rfl, rfl⟩)
        Point.noConfusion
  case tempfile =>
    cases hok : a.ok
    · exact h.idle i rfl rfl
    · obtain ⟨hfresh, hname⟩ := hpermitted hok
      exact h.create i hpoint hfresh hname rfl rfl rfl
  case chmod =>
    refine h.quiet i (fun _ => ⟨by rw [hpoint]; rfl, rfl⟩) (fun _ => ⟨by rw [hpoint]; rfl, rfl⟩)
      Point.noConfusion
  case storeFd =>
    refine h.write i (by rw [hpoint]; rfl) a.written rfl fun _ => ?_
    obtain ⟨m, hm, hmap, _⟩ := hsound.scanned (by rw [hpoint]; rfl)
    exact ⟨m, hm, hmap, Point.noConfusion⟩
  case close =>
    refine h.write i (by rw [hpoint]; rfl) a.written rfl fun _ => ?_
    obtain ⟨m, hm, hmap, _⟩ := hsound.scanned (by rw [hpoint]; rfl)
    exact ⟨m, hm, hmap, fun _ hstored hclosed => (hpermitted m hmap).2 hstored hclosed⟩
  case rename =>
    cases hok : a.ok
    · exact h.quiet i (fun _ => ⟨by rw [hpoint]; rfl, rfl⟩) (fun hc => Bool.noConfusion hc)
        Point.noConfusion
    · exact h.publish i hpoint (hcond rfl hok) rfl rfl
  case unlink =>
    cases a.ok
    · exact h.idle i rfl rfl
    · exact h.remove i (by rw [hpoint]; rfl) rfl rfl
  case retestCache => cases a.ok <;> exact h.idle i rfl rfl
  case getTtyListOnly => exact h.idle i rfl rfl
  case initializeOs => cases a.ok <;> exact h.idle i rfl rfl
  case returned => exact h.idle i rfl rfl
  case died => exact h.idle i rfl rfl

/-- The invariant holds in every state that is reached. -/
theorem Inv.run {s₀ s : State ι Map} (h : Inv S cache s₀)
    (hrun : Relation.ReflTransGen (Step S cache WritesOut) s₀ s) : Inv S cache s := by
  induction hrun with
  | refl => exact h
  | tail _ hstep ih =>
      cases hstep with
      | operate i a permitted meets => exact ih.operate i permitted meets
      | call i idle => exact ih.idle i rfl rfl

/-- **The cache is never truncated** in a run in which only written files are
renamed into place: at every moment it is absent or the whole of a map that some
process found, and what a process retrieves from it is that map. -/
theorem cache_intact {s₀ s : State ι Map} (hstart : Start S cache s₀)
    (hrun : Relation.ReflTransGen (Step S cache WritesOut) s₀ s) :
    Complete S cache s ∧
      ∀ bytes, s.files cache = some bytes → ∃ m ∈ s.scans, S.thaw bytes = some m := by
  have hcomplete := (hstart.inv.run hrun).complete
  refine ⟨hcomplete, fun bytes hbytes => ?_⟩
  rcases hcomplete with hnone | ⟨m, hm, hfile⟩
  · rw [hnone] at hbytes
    cases hbytes
  · rw [hfile] at hbytes
    cases hbytes
    exact ⟨m, hm, S.thaw_freeze m⟩

/-- The state behind a list of operations is reached. -/
theorem Follows.run {cond : Process Map → Answer Map → Prop} {s : State ι Map}
    {ops : List (ι × Answer Map)} (h : Follows S cache cond s ops) :
    Relation.ReflTransGen (Step S cache cond) s
      (ops.foldl (fun s op => step S cache s op.1 op.2) s) := by
  induction ops generalizing s with
  | nil => exact Relation.ReflTransGen.refl
  | cons op ops ih =>
      obtain ⟨hpermitted, hcond, hrest⟩ := h
      exact Relation.ReflTransGen.head (Step.operate op.1 op.2 hpermitted hcond) (ih hrest)

end

/-- A map as a list of bytes, between a magic number and an end mark. -/
def sampleStorable : Storable (List UInt8) where
  freeze m := 112 :: 115 :: 116 :: 48 :: (m ++ [255])
  thaw
    | 112 :: 115 :: 116 :: 48 :: bytes =>
        if bytes.getLast? = some 255 then some bytes.dropLast else none
    | _ => none
  thaw_freeze m := by simp

/-- One process and no cache. -/
def sampleStart : State Unit (List UInt8) where
  files := fun _ => none
  process := fun _ => ⟨.requireStorable, none, "", false, false⟩
  scans := []

theorem sampleStart_start : Start sampleStorable "/tmp/TTYDEVS_12345678" sampleStart :=
  ⟨Or.inl rfl, fun _ => rfl⟩

/-- The operations of a process, with the results of `store_fd` and `close` and
what they leave in the temporary file. -/
def sampleOps (stored : Bool) (afterStore : List UInt8) (closed : Bool) (afterClose : List UInt8) :
    List (Unit × Answer (List UInt8)) :=
  let quiet : Bool → Answer (List UInt8) := fun ok => ⟨ok, [], "", []⟩
  [quiet true, quiet false, ⟨true, [4, 1], "", []⟩, quiet true,
   ⟨true, [], "/tmp/ProcessTable_abcdefgh", []⟩, quiet true, ⟨stored, [], "", afterStore⟩,
   ⟨closed, [], "", afterClose⟩, quiet true].map ((), ·)

theorem cache_intact_sample :
    ∃ s, Relation.ReflTransGen (Step sampleStorable "/tmp/TTYDEVS_12345678" WritesOut) sampleStart s ∧
      s.files "/tmp/TTYDEVS_12345678" = some [112, 115, 116, 48, 4, 1, 255] ∧
      Complete sampleStorable "/tmp/TTYDEVS_12345678" s ∧
      ∀ bytes, s.files "/tmp/TTYDEVS_12345678" = some bytes →
        ∃ m ∈ s.scans, sampleStorable.thaw bytes = some m := by
  have hrun : Follows sampleStorable "/tmp/TTYDEVS_12345678" WritesOut sampleStart
      (sampleOps true [112] true [112, 115, 116, 48, 4, 1, 255]) := by
    simp [Follows, sampleOps, Permitted, WritesOut, step, perform, next, sampleStart, sampleStorable]
  exact ⟨_, hrun.run, rfl, cache_intact sampleStart_start hrun.run⟩

/-- A full disk: neither `store_fd` nor `close` gets a byte into the file, both
say so, and the empty file becomes the cache. -/
theorem cache_truncated :
    ∃ s, Relation.ReflTransGen
        (Step sampleStorable "/tmp/TTYDEVS_12345678" fun _ _ => True) sampleStart s ∧
      Start sampleStorable "/tmp/TTYDEVS_12345678" sampleStart ∧
      s.files "/tmp/TTYDEVS_12345678" = some [] ∧
      ¬ Complete sampleStorable "/tmp/TTYDEVS_12345678" s := by
  have hrun : Follows sampleStorable "/tmp/TTYDEVS_12345678" (fun _ _ => True) sampleStart
      (sampleOps false [] false []) := by
    simp [Follows, sampleOps, Permitted, step, perform, next, sampleStart, sampleStorable]
  refine ⟨_, hrun.run, sampleStart_start, rfl, ?_⟩
  rintro (hnone | ⟨m, _, hfile⟩)
  · cases hnone
  · cases hfile

end TtyCache
