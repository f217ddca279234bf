import ProcProcessTable.Descendants
import Mathlib.Data.Int.Order.Basic

/-!
# Killing a family

`Proc::Killfam` hands `kill` a list of process ids and the ids of all their
descendants in the process table.  `get_pids` finds the latter by a nested loop
and a recursion: for each id given and each entry whose `ppid` it is, the pid of
the entry and what `get_pids` finds for that pid.

The entries stand in the table in any order, and a `ppid` need not be in it.
`getPids_family` says what is found whenever the pids are distinct and none is
its own ancestor.  Nothing checks for the latter: `getPids_ends_iff` says which
calls end in any table.  Nor is a family taken out of another that holds it:
`killfam_nodup_iff` says when an id is handed to `kill` twice.
-/

namespace Killfam

open Descendants

/-- What `get_pids` reads of a process object. -/
structure Process where
  pid : Int
  ppid : Int

/-- `get_pids`, down to a depth of calls. -/
def getPids (procs : List Process) : Nat → List Int → Option (List Int)
  | 0, _ => none
  | depth + 1, kids =>
      kids.foldlM (fun pids kid =>
        procs.foldlM (fun pids proc =>
          if proc.ppid = kid then
            let pid := proc.pid
            (getPids procs depth [pid]).map fun found => pids ++ (pid :: found)
          else some pids) pids) []

/-- `killfam`: the arguments it gives to `kill`. -/
def killfam {σ : Type} (pptOk : Bool) (table : List Process) (depth : Nat) (signal : σ)
    (pids : List Int) : Option (σ × List Int) :=
  if pptOk then (getPids table depth pids).map fun kids => (signal, pids ++ kids)
  else some (signal, pids)

/-- The pids of the entries whose parent is `kid`. -/
def children (procs : List Process) (kid : Int) : List Int :=
  (procs.filter (·.ppid = kid)).map Process.pid

variable {procs : List Process}

theorem mem_children {kid pid : Int} :
    pid ∈ children procs kid ↔ ∃ proc ∈ procs, proc.ppid = kid ∧ proc.pid = pid := by
  simp [children, and_assoc]

/-- An entry makes its process a child of its parent. -/
theorem child_of_mem {proc : Process} (h : proc ∈ procs) :
    Child (children procs) proc.ppid proc.pid :=
  mem_children.mpr ⟨proc, h, rfl, rfl⟩

/-- The loops and the recursion are the descent along `ppid`. -/
theorem getPids_eq_below (procs : List Process) (depth : Nat) (kids : List Int) :
    getPids procs depth kids = below (children procs) depth kids := by
  induction depth generalizing kids with
  | zero => rfl
  | succ depth ih =>
      have hinner : ∀ (kid : Int) (pids : List Int),
          procs.foldlM (fun pids proc =>
            if proc.ppid = kid then
              (getPids procs depth [proc.pid]).map fun found => pids ++ (proc.pid :: found)
            else some pids) pids =
          (collect (fun child => (below (children procs) depth [child]).map (child :: ·))
            (children procs kid)).map (pids ++ ·) := by
        intro kid pids
        have hloop := foldlM_collect (fun proc : Process => proc.ppid = kid)
          (fun proc => (below (children procs) depth [proc.pid]).map (proc.pid :: ·)) procs pids
        rw [children, collect_map]
        refine Eq.trans ?_ hloop
        simp only [ih, Option.map_map]
        rfl
      have houter := foldlM_collect (fun _ : Int => True)
        (fun kid => collect (fun child => (below (children procs) depth [child]).map (child :: ·))
          (children procs kid)) kids []
      simp only [if_true, decide_true, List.filter_true, List.nil_append, Option.map_id_fun',
        id_eq] at houter
      rw [below_succ, getPids]
      simp only [hinner]
      exact houter

/-- Every child stands in the table. -/
theorem children_subset (kid pid : Int) (h : pid ∈ children procs kid) :
    pid ∈ procs.map Process.pid := by
  obtain ⟨proc, hproc, _, hpid⟩ := mem_children.mp h
  exact List.mem_map.mpr ⟨proc, hproc, hpid⟩

section

variable (hdistinct : (procs.map Process.pid).Nodup)

include hdistinct

/-- A pid names one entry, and so one parent. -/
theorem parent_unique (kid kid' pid : Int) (h : pid ∈ children procs kid)
    (h' : pid ∈ children procs kid') : kid = kid' := by
  obtain ⟨proc, hproc, rfl, hpid⟩ := mem_children.mp h
  obtain ⟨proc', hproc', rfl, hpid'⟩ := mem_children.mp h'
  rw [List.inj_on_of_nodup_map hdistinct hproc hproc' (hpid.trans hpid'.symm)]

theorem children_nodup (kid : Int) : (children procs kid).Nodup :=
  hdistinct.sublist (List.filter_sublist.map Process.pid)

end

/-- In a list without repetition a pair that stands in order is in order. -/
theorem idxOf_lt_of_sublist {l : List Int} (hnodup : l.Nodup) {a b : Int}
    (h : [a, b].Sublist l) : l.idxOf a < l.idxOf b := by
  obtain ⟨pre, post, rfl, ha, hb⟩ := List.cons_sublist_iff.mp h
  have hbpost : b ∈ post := List.singleton_sublist.mp hb
  have hbpre : b ∉ pre := fun hb' => List.disjoint_of_nodup_append hnodup hb' hbpost
  rw [List.idxOf_append_of_mem ha, List.idxOf_append_of_notMem hbpre]
  have hlt := List.idxOf_lt_length_of_mem ha
  omega

/-- Where no pid is its own ancestor `get_pids` returns. -/
theorem getPids_isSome (hacyclic : ∀ pid, ¬ Descends (children procs) pid pid) (kids : List Int) :
    ∃ pids, ∀ depth, procs.length < depth → getPids procs depth kids = some pids := by
  obtain ⟨pids, hpids⟩ := below_isSome hacyclic children_subset kids
  refine ⟨pids, fun depth hdepth => ?_⟩
  rw [getPids_eq_below]
  exact hpids depth (by rw [List.length_map]; exact hdepth)

/-- **`get_pids` ends unless it is led into a cycle**: it returns, in a table
of any entries, exactly where no id given descends from itself or has a
descendant that does. -/
theorem getPids_ends_iff (procs : List Process) (kids : List Int) :
    (∃ depth pids, getPids procs depth kids = some pids) ↔
      ∀ kid ∈ kids, ¬ MeetsCycle (children procs) kid := by
  simp only [getPids_eq_below]
  exact below_ends_iff children_subset kids

/-- Process 0 is its own parent; and two processes that took each other's old
ids. -/
theorem getPids_endless :
    (¬ ∃ depth pids, getPids [⟨0, 0⟩] depth [0] = some pids) ∧
      ¬ ∃ depth pids, getPids [⟨5, 7⟩, ⟨7, 5⟩] depth [1, 7] = some pids := by
  constructor
  · intro ⟨depth, pids, h⟩
    have hself : Child (children [⟨0, 0⟩]) 0 0 := child_of_mem (List.mem_singleton_self ⟨0, 0⟩)
    have hends := (getPids_eq_below _ depth [0]).symm.trans h
    exact not_meetsCycle_of_below hends (List.mem_singleton_self 0) ⟨0, .refl, .single hself⟩
  · intro ⟨depth, pids, h⟩
    have hfive : Child (children [⟨5, 7⟩, ⟨7, 5⟩]) 7 5 := child_of_mem List.mem_cons_self
    have hseven : Child (children [⟨5, 7⟩, ⟨7, 5⟩]) 5 7 :=
      child_of_mem (List.mem_cons_of_mem _ (List.mem_singleton_self ⟨7, 5⟩))
    have hends := (getPids_eq_below _ depth [1, 7]).symm.trans h
    have hroot : (7 : Int) ∈ [1, 7] := List.mem_cons_of_mem _ (List.mem_singleton_self 7)
    exact not_meetsCycle_of_below hends hroot ⟨7, .refl, .head hfive (.single hseven)⟩

/-- What `get_pids` returns descends from one of the ids given. -/
theorem mem_getPids {depth : Nat} {kids pids : List Int} (h : getPids procs depth kids = some pids)
    (pid : Int) : pid ∈ pids ↔ ∃ kid ∈ kids, Descends (children procs) kid pid := by
  rw [getPids_eq_below] at h
  exact mem_below h pid

/-- A descendant stands in the table. -/
theorem descends_mem {kid pid : Int} (h : Descends (children procs) kid pid) :
    pid ∈ procs.map Process.pid := by
  obtain ⟨parent, _, hchild⟩ := Relation.TransGen.tail'_iff.mp h
  exact children_subset parent pid hchild

/-- **`get_pids` finds exactly the family.**  In a table of distinct pids of
which none is its own ancestor it returns, and the ids it returns are the
entries that descend from one of the ids given.  From one id each is found once,
a parent before its children. -/
theorem getPids_family (hdistinct : (procs.map Process.pid).Nodup)
    (hacyclic : ∀ pid, ¬ Descends (children procs) pid pid) (kids : List Int) :
    ∃ pids, (∀ depth, procs.length < depth → getPids procs depth kids = some pids) ∧
      (∀ pid, pid ∈ pids ↔ pid ∈ procs.map Process.pid ∧
        ∃ kid ∈ kids, Descends (children procs) kid pid) ∧
      (∀ kid, kids = [kid] → pids.Nodup ∧
        ∀ proc ∈ procs, proc.ppid ∈ pids → pids.idxOf proc.ppid < pids.idxOf proc.pid) := by
  obtain ⟨pids, hpids⟩ := getPids_isSome hacyclic kids
  have hfound := hpids (procs.length + 1) (Nat.lt_succ_self _)
  refine ⟨pids, hpids, ?_, ?_⟩
  · intro pid
    rw [mem_getPids hfound pid, iff_and_self]
    intro ⟨kid, _, hdesc⟩
    exact descends_mem hdesc
  · intro kid hkid
    subst hkid
    rw [getPids_eq_below] at hfound
    have hnodup := below_nodup hacyclic (parent_unique hdistinct) (children_nodup hdistinct) hfound
    refine ⟨hnodup, ?_⟩
    intro proc hproc hppid
    exact idxOf_lt_of_sublist hnodup (below_order hfound hppid (child_of_mem hproc))

/-- `init`, its two children, and a child of one of them, out of order. -/
def sampleProcs : List Process := [⟨30, 10⟩, ⟨10, 1⟩, ⟨1, 0⟩, ⟨20, 1⟩]

/-- In it every child has the greater id. -/
theorem sampleProcs_acyclic (pid : Int) : ¬ Descends (children sampleProcs) pid pid := by
  refine acyclic_of_rank id (fun a c hc => ?_) pid
  obtain ⟨proc, hproc, rfl, rfl⟩ := mem_children.mp hc
  revert proc
  decide

theorem getPids_family_sample :
    ∃ pids, (∀ depth, sampleProcs.length < depth → getPids sampleProcs depth [1] = some pids) ∧
      (∀ pid, pid ∈ pids ↔ pid ∈ sampleProcs.map Process.pid ∧
        ∃ kid ∈ [1], Descends (children sampleProcs) kid pid) ∧
      (∀ kid : Int, [1] = [kid] → pids.Nodup ∧
        ∀ proc ∈ sampleProcs, proc.ppid ∈ pids →
          pids.idxOf proc.ppid < pids.idxOf proc.pid) :=
  getPids_family (by decide) sampleProcs_acyclic [1]

/-- **`killfam` signals the processes given and their descendants**, the former
alone when the process table is missing. -/
theorem mem_killfam {σ : Type} (hacyclic : ∀ pid, ¬ Descends (children procs) pid pid)
    (pptOk : Bool) (signal : σ) (pids : List Int) :
    ∃ out, (∀ depth, procs.length < depth →
        killfam pptOk procs depth signal pids = some (signal, out)) ∧
      ∀ pid, pid ∈ out ↔ pid ∈ pids ∨
        (pptOk = true ∧ ∃ kid ∈ pids, Descends (children procs) kid pid) := by
  cases pptOk with
  | false => exact ⟨pids, fun _ _ => rfl, fun pid => by simp⟩
  | true =>
      obtain ⟨kids, hkids⟩ := getPids_isSome hacyclic pids
      refine ⟨pids ++ kids, ?_, ?_⟩
      · intro depth hdepth
        rw [killfam, if_pos rfl, hkids depth hdepth]
        rfl
      · intro pid
        rw [List.mem_append, mem_getPids (hkids _ (Nat.lt_succ_self _)) pid, eq_self, true_and]

/-- **`killfam` names no process twice exactly where no id given descends from
another**, as long as the process table is there. -/
theorem killfam_nodup_iff {σ : Type} (hdistinct : (procs.map Process.pid).Nodup)
    (hacyclic : ∀ pid, ¬ Descends (children procs) pid pid) (pptOk : Bool) (signal : σ)
    {pids : List Int} (hpids : pids.Nodup) :
    ∃ out, (∀ depth, procs.length < depth →
        killfam pptOk procs depth signal pids = some (signal, out)) ∧
      (out.Nodup ↔ pptOk = false ∨
        ∀ pid ∈ pids, ∀ pid' ∈ pids, ¬ Descends (children procs) pid pid') := by
  cases pptOk with
  | false => exact ⟨pids, fun _ _ => rfl, iff_of_true hpids (Or.inl rfl)⟩
  | true =>
      obtain ⟨kids, hkids⟩ := getPids_isSome hacyclic pids
      refine ⟨pids ++ kids, ?_, ?_⟩
      · intro depth hdepth
        rw [killfam, if_pos rfl, hkids depth hdepth]
        rfl
      · have hfound := hkids (procs.length + 1) (Nat.lt_succ_self _)
        rw [getPids_eq_below] at hfound
        rw [below_nodup_iff hacyclic (parent_unique hdistinct) (children_nodup hdistinct) hpids
          hfound]
        exact ⟨Or.inr, fun h => h.resolve_left Bool.noConfusion⟩

theorem killfam_nodup_iff_siblings :
    ∃ out, (∀ depth, sampleProcs.length < depth →
        killfam true sampleProcs depth "TERM" [10, 20] = some ("TERM", out)) ∧
      (out.Nodup ↔ true = false ∨ ∀ pid ∈ [10, 20], ∀ pid' ∈ [10, 20],
        ¬ Descends (children sampleProcs) pid pid') :=
  killfam_nodup_iff (by decide) sampleProcs_acyclic true "TERM" (by decide)

/-- `init` and one of its children: the child, and its own child, come twice. -/
theorem killfam_twice :
    ∃ out, killfam true sampleProcs 5 "TERM" [1, 10] = some ("TERM", out) ∧
      out = [1, 10, 10, 30, 20, 30] ∧ ¬ out.Nodup :=
  ⟨[1, 10, 10, 30, 20, 30], by decide, rfl, by decide⟩

end Killfam
