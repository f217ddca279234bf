import ProcProcessTable.AixGetprocs
import ProcProcessTable.PagedRead

/-!
# The blocks of getprocs

`OS_get_table` of `aix_getprocs.c` fetches 1000 slots of the kernel's process table at a
time, as long as it gets so many.  Each block is the table at that moment.  Without memory
for a block it warns, and publishes nothing.

`blocks_published` says what gets on the list when processes come and go meanwhile.
-/

namespace AixGetprocs

open CText Xs ProcessTable PagedRead

theorem full_of_fetched : ∀ n, PROCS_TO_FETCH ≤ n → decide (PROCS_TO_FETCH ≤ n) = true :=
  fun _ h => decide_eq_true h

theorem not_full_zero : decide (PROCS_TO_FETCH ≤ 0) = false := rfl

/-- The `while` loop. -/
def reader : Reader :=
  ⟨PROCS_TO_FETCH, fun n => decide (PROCS_TO_FETCH ≤ n), full_of_fetched, not_full_zero⟩

/-- The table of the kernel at the time of each request: the processes with their
slots. -/
abbrev Kernel := Snapshots (Prod.fst : Nat × Entry → Nat)

/-- What `getprocs` returns, and what the variables of `bless_procs` hold each time. -/
def blocksOf (pages : List (List (Nat × Entry))) (residue : Nat → Locals) :
    List (List Entry × Locals) :=
  pages.zipIdx.map fun page => (page.1.map Prod.snd, residue page.2)

/-- `OS_get_table`, on the table of the kernel. -/
def osGetTableFrom (sys : System) (malloc : Bool) (kernel : Kernel) (residue : Nat → Locals) :
    Option String × Scan :=
  match pages kernel reader (kernel.bound + 1) 0 0 with
  | some pages => osGetTable sys malloc (blocksOf pages residue)
  | none => (none, ⟨[], some .hang⟩)

/-- The processes of the blocks are those of the pages. -/
theorem blocksOf_procs (pages : List (List (Nat × Entry))) (residue : Nat → Locals) :
    (blocksOf pages residue).flatMap Prod.fst = pages.flatten.map Prod.snd := by
  have hpages := List.zipIdx_map_fst 0 pages
  rw [blocksOf, List.flatMap_map, List.map_flatten]
  calc pages.zipIdx.flatMap (fun page => page.1.map Prod.snd)
      = ((pages.zipIdx.map Prod.fst).map (List.map Prod.snd)).flatten := by
        rw [List.map_map, List.flatMap_def]
        rfl
    _ = (pages.map (List.map Prod.snd)).flatten := by rw [hpages]

/-- The loop of the port goes on as long as the reader does. -/
theorem fetched_pages {kernel : Kernel} {fuel k idx : Nat} {out : List (List (Nat × Entry))}
    (h : pages kernel reader fuel k idx = some out) (residue : Nat → Locals) (n : Nat) :
    fetched ((out.zipIdx n).map fun page => (page.1.map Prod.snd, residue page.2)) =
      (out.zipIdx n).map fun page => (page.1.map Prod.snd, residue page.2) := by
  induction fuel generalizing k idx out n with
  | zero => cases h
  | succ fuel ih =>
      rcases pages_succ h with ⟨hstop, rfl⟩ | ⟨hmore, rest, hrest, rfl⟩
      · have hshort := of_decide_eq_false hstop
        rw [List.zipIdx_singleton, List.map_singleton, fetched, List.length_map, if_neg hshort]
      · have hfull := of_decide_eq_true hmore
        rw [List.zipIdx_cons, List.map_cons, fetched, List.length_map, if_pos hfull,
          ih hrest (n + 1)]

/-- The processes of a row that are there. -/
def present (procs : List Entry) : List Entry :=
  procs.filter fun p => decide (p.info.piState ≠ .SNONE)

theorem present_append (front back : List Entry) :
    present (front ++ back) = present front ++ present back :=
  List.filter_append ..

/-- The process id of an object. -/
theorem call_pid (sys : System) (p : Procsinfo64) (s : Locals) (cmndline : Mem)
    (ttydevs : Option HV) :
    (call sys p s cmndline).object ttydevs "pid" = some (.iv p.piPid.toInt) := by
  obtain ⟨euid, stat, ttynum, ttympx, pctmem, hrows⟩ := call_rows sys p s cmndline
  generalize times sys p = t, pctcpu sys p = pctcpu at hrows
  have hnodup : Fields.Nodup := by decide
  have hrow : (callRows (formatChars euid stat ttynum ttympx pctmem) Fields
      (args sys p t.1 t.2 s pctcpu cmndline))[0]? =
        some ⟨'i', "pid", half (sys.upper 0) p.piPid.toUInt32⟩ := rfl
  have hpid := hrows.object_at ttydevs hnodup hrow (show "pid" ≠ "ttydev" by decide)
  rw [shown_half] at hpid
  exact hpid

/-- A turn in front of others that does not overflow. -/
theorem turn_pids (sys : System) (s : Locals) {e : Entry} (ttydevs : Option HV)
    (hfits : ¬ e.Overflows sys) :
    ∃ objs, turn ttydevs (visit sys s e).2 = (objs, none) ∧
      objs.map (fun obj => obj "pid") =
        (present [e]).map fun p => some (SV.iv p.info.piPid.toInt) := by
  by_cases hstate : e.info.piState = .SNONE
  · have hnone : present [e] = [] := by simp [present, hstate]
    refine ⟨[], ?_, ?_⟩
    · rw [(visit_cases sys s e).2.1 hstate]
      rfl
    · rw [hnone]
      rfl
  · have hsome : present [e] = [e] := by simp [present, hstate]
    obtain ⟨text, -, hturn⟩ := turn_published sys s ttydevs hfits hstate
    refine ⟨_, hturn, ?_⟩
    rw [hsome]
    exact congrArg (fun pid => [pid]) (call_pid sys e.info _ text ttydevs)

/-- **One block.** -/
theorem block_pids (sys : System) (s : Locals) (ttydevs : Option HV) (procs : List Entry)
    (hfits : ∀ p ∈ procs, ¬ p.Overflows sys) :
    ((blessProcs sys procs s).objects ttydevs).map (fun obj => obj "pid") =
      (present procs).map fun p => some (SV.iv p.info.piPid.toInt) := by
  unfold blessProcs loopScan
  induction procs generalizing s with
  | nil => rfl
  | cons e procs ih =>
      obtain ⟨objs, hturn, hpids⟩ := turn_pids sys s ttydevs (hfits e List.mem_cons_self)
      have hcons := congrArg Prod.fst
        (Scan.collect_cons ttydevs (visit sys s e).2 (CarriedState.outputs (visit sys) (visit sys s e).1 procs))
      rw [hturn] at hcons
      dsimp only at hcons
      have hrest := ih (visit sys s e).1 fun p hp => hfits p (List.mem_cons_of_mem e hp)
      rw [CarriedState.outputs, hcons, List.map_append, hpids, hrest, ← List.map_append,
        ← present_append]
      rfl

/-- **The blocks of a table**: without an overflow each process that is there is published,
in order. -/
theorem blocks_pids (sys : System) (ttydevs : Option HV) (blocks : List (List Entry × Locals)) :
    ((Scan.collect (blocks.flatMap fun block =>
        CarriedState.outputs (visit sys) block.2 block.1)).ends ttydevs = none ↔
      ∀ p ∈ blocks.flatMap Prod.fst, ¬ p.Overflows sys) ∧
    ((∀ p ∈ blocks.flatMap Prod.fst, ¬ p.Overflows sys) →
      ((Scan.collect (blocks.flatMap fun block =>
          CarriedState.outputs (visit sys) block.2 block.1)).objects ttydevs).map
            (fun obj => obj "pid") =
        (present (blocks.flatMap Prod.fst)).map fun p => some (SV.iv p.info.piPid.toInt)) := by
  induction blocks with
  | nil => exact ⟨iff_of_true rfl fun p hp => absurd hp List.not_mem_nil, fun _ => rfl⟩
  | cons block blocks ih =>
      obtain ⟨hends, hpids⟩ := ih
      have hsplit : (∀ p ∈ (block :: blocks).flatMap Prod.fst, ¬ p.Overflows sys) ↔
          (∀ p ∈ block.1, ¬ p.Overflows sys) ∧ ∀ p ∈ blocks.flatMap Prod.fst, ¬ p.Overflows sys := by
        rw [List.flatMap_cons, List.forall_mem_append]
      have hfirst := scan_ends_iff sys block.2 ttydevs block.1
      have happend := Scan.collect_append ttydevs (CarriedState.outputs (visit sys) block.2 block.1)
        (blocks.flatMap fun block => CarriedState.outputs (visit sys) block.2 block.1)
      rw [hsplit, List.flatMap_cons, List.flatMap_cons]
      by_cases hfits : ∀ p ∈ block.1, ¬ p.Overflows sys
      · have hnone : (Scan.collect (CarriedState.outputs (visit sys) block.2 block.1)).ends ttydevs =
            none := hfirst.mpr hfits
        rw [hnone] at happend
        obtain ⟨hobjects, hfault⟩ := Prod.mk.inj happend
        rw [hobjects, hfault, and_iff_right hfits]
        refine ⟨hends, fun hrest => ?_⟩
        have hblock := block_pids sys block.2 ttydevs block.1 hfits
        rw [List.map_append, hpids hrest, present_append, List.map_append]
        exact congrArg (· ++ _) hblock
      · obtain ⟨f, hsome⟩ := Option.ne_none_iff_exists'.mp fun hnone => hfits (hfirst.mp hnone)
        have hsome : (Scan.collect (CarriedState.outputs (visit sys) block.2 block.1)).ends ttydevs =
            some f := hsome
        rw [hsome] at happend
        rw [(Prod.mk.inj happend).2]
        exact ⟨iff_of_false (Option.some_ne_none f) fun h => hfits h.1, fun h => absurd h.1 hfits⟩

/-- A fault of the blocks is an overflow. -/
theorem blocks_overflow (sys : System) {ttydevs : Option HV} {blocks : List (List Entry × Locals)}
    {f : Fault} (h : (Scan.collect (blocks.flatMap fun block =>
      CarriedState.outputs (visit sys) block.2 block.1)).ends ttydevs = some f) : f = .overflow := by
  obtain ⟨out, hout, hturn⟩ := Scan.exists_turn_of_ends h
  obtain ⟨block, -, hblock⟩ := List.mem_flatMap.mp hout
  obtain ⟨s, e, -, rfl⟩ := CarriedState.mem_outputs (visit sys) hblock
  by_cases hfits : e.Overflows sys
  · rw [(visit_cases sys s e).1 hfits] at hturn
    exact (Option.some.inj hturn).symm
  · rw [(turn_ends_iff sys s ttydevs).mpr hfits] at hturn
    cases hturn

/-- **The table while processes come and go.**  Without memory for a block nothing is
published, and there is a warning.  Otherwise the scan comes to an end, and without a
fault exactly when nothing overflows for a process it has seen.  Then the list holds one
object for each process that was in its slot; no slot is seen twice, and the slots in
order; only processes that were there; every process that was there all the time; and all
of the table when it did not change. -/
theorem blocks_published (sys : System) (kernel : Kernel) (residue : Nat → Locals)
    (ttydevs : Option HV) :
    osGetTableFrom sys false kernel residue = (some cannotAllocate, ⟨[], none⟩) ∧
    ∃ (scan : Scan) (seen : List (Nat × Entry)),
      osGetTableFrom sys true kernel residue = (none, scan) ∧
      (∀ f, scan.ends ttydevs = some f → f = .overflow) ∧
      (scan.ends ttydevs = none ↔ ∀ p ∈ seen, ¬ p.2.Overflows sys) ∧
      ((∀ p ∈ seen, ¬ p.2.Overflows sys) →
        (scan.objects ttydevs).map (fun obj => obj "pid") =
          (present (seen.map Prod.snd)).map fun p => some (SV.iv p.info.piPid.toInt)) ∧
      (seen.Pairwise fun p q => p.1 < q.1) ∧
      (∀ p ∈ seen, ∃ k table, kernel.table k = some table ∧ p ∈ table) ∧
      (∀ p, (∀ k, ∃ table, kernel.table k = some table ∧ p ∈ table) → p ∈ seen) ∧
      ∀ table, (∀ k, kernel.table k = some table) → seen = table := by
  obtain ⟨out, hpages⟩ : ∃ out, pages kernel reader (kernel.bound + 1) 0 0 = some out :=
    pages_some (Nat.lt_add_one kernel.bound)
  have hscan : ∀ malloc, osGetTableFrom sys malloc kernel residue =
      if malloc then (none, Scan.collect ((blocksOf out residue).flatMap fun block =>
        CarriedState.outputs (visit sys) block.2 block.1))
      else (some cannotAllocate, ⟨[], none⟩) := by
    intro malloc
    unfold osGetTableFrom osGetTable
    rw [hpages]
    dsimp only
    rw [blocksOf, fetched_pages hpages]
  have hseen := blocksOf_procs out residue
  obtain ⟨hends, hpids⟩ := blocks_pids sys ttydevs (blocksOf out residue)
  rw [hseen, List.forall_mem_map] at hends hpids
  refine ⟨hscan false, _, out.flatten, hscan true, fun f => blocks_overflow sys, hends, hpids,
    (read_sorted hpages).1, ?_, ?_, ?_⟩
  · intro p hp
    obtain ⟨k, table, _, htable, hmem⟩ := mem_of_read hpages hp
    exact ⟨k, table, htable, hmem⟩
  · intro p hstays
    exact read_of_stays hpages (Nat.zero_le _) fun k _ => hstays k
  · intro table hstill
    exact read_still hpages fun k _ => hstill k

/-- A process in a slot, active. -/
def daemon (idx : Nat) : Nat × Entry :=
  (idx, { parent .SACTIVE 0 with
    info := { (parent .SACTIVE 0).info with piPid := Int32.ofNat (idx + 1) } })

theorem daemon_place (idx : Nat) : (daemon idx).1 = idx := rfl

theorem daemon_fits (idx : Nat) : ¬ (daemon idx).2.Overflows sampleSystem := by
  intro ⟨_, hlong⟩
  rcases hlong with hpctcpu | hpctmem | ⟨_, content, hcontent, _⟩
  · exact absurd hpctcpu (show ¬ PCT_LENGTH ≤ "0.00".toList.length by decide)
  · exact absurd hpctmem (show ¬ PCT_LENGTH ≤ "0.00".toList.length by decide)
  · cases hcontent

/-- Fifteen hundred processes, so that there are two requests; those in the slots with even
numbers are gone after the first. -/
def leaving : Kernel :=
  .ofSlots 1500 (fun k idx => decide (k = 0 ∨ idx % 2 = 1)) daemon daemon_place

/-- Those that stay are on the list. -/
theorem blocks_published_leaving :
    osGetTableFrom sampleSystem false leaving (fun _ => ⟨0, 0⟩) =
      (some cannotAllocate, ⟨[], none⟩) ∧
    ∃ (scan : Scan) (seen : List (Nat × Entry)),
      osGetTableFrom sampleSystem true leaving (fun _ => ⟨0, 0⟩) = (none, scan) ∧
      scan.ends none = none ∧
      (scan.objects none).map (fun obj => obj "pid") =
        (present (seen.map Prod.snd)).map (fun p => some (SV.iv p.info.piPid.toInt)) ∧
      ∀ idx, idx < 1500 → idx % 2 = 1 → daemon idx ∈ seen := by
  obtain ⟨hwarned, scan, seen, hscan, -, hends, hpids, -, hthere, hstay, -⟩ :=
    blocks_published sampleSystem leaving (fun _ => ⟨0, 0⟩) none
  have hfits : ∀ p ∈ seen, ¬ p.2.Overflows sampleSystem := by
    intro p hp
    obtain ⟨k, table, htable, hmem⟩ := hthere p hp
    obtain rfl := Option.some.inj htable
    obtain ⟨idx, -, -, rfl⟩ := mem_takenSlots.mp hmem
    exact daemon_fits idx
  refine ⟨hwarned, scan, seen, hscan, hends.mpr hfits, hpids hfits, fun idx hidx hodd => ?_⟩
  refine hstay _ fun k => ⟨_, rfl, mem_takenSlots.mpr ⟨idx, hidx, ?_, rfl⟩⟩
  exact decide_eq_true (Or.inr hodd)

end AixGetprocs
