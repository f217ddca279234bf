import Mathlib.Data.List.Basic
import Mathlib.Data.List.Perm.Basic
import Mathlib.Data.List.Nodup
import Mathlib.Tactic.Common

/-!
# Walks of a directory tree

A directory is listed in an order that its reader does not choose.  A depth-first
walk takes the entries as they are listed, and goes into a directory where it
stands (`walk`).  `Reordered` relates the listings of one tree, `LeavesFirst` those
of a walk that sees to the directories of a directory when it is through with the
rest of it.

Two names of a tree can be met in either order, unless the walk sees to leaves
first and one name stands in a directory with the other somewhere below it
(`Ahead`): `ahead_before` and `exists_before`.
-/

namespace DirectoryWalk

variable {α δ : Type*}

/-- A directory, entry by entry in the order it is read. -/
inductive Listing (α δ : Type*)
  | nil
  | leaf (v : α) (rest : Listing α δ)
  | dir (d : δ) (inside rest : Listing α δ)

namespace Listing

/-- One listing behind another. -/
def append : Listing α δ → Listing α δ → Listing α δ
  | nil, s => s
  | leaf v r, s => leaf v (r.append s)
  | dir d i r, s => dir d i (r.append s)

variable (descend : δ → Bool)

/-- The names a walk meets, in order.  It does not go into every directory. -/
def walk : Listing α δ → List α
  | nil => []
  | leaf v r => v :: r.walk
  | dir d i r => (if descend d then i.walk else []) ++ r.walk

/-- The names in the directory itself. -/
def leaves : Listing α δ → List α
  | nil => []
  | leaf v r => v :: r.leaves
  | dir _ _ r => r.leaves

/-- The names below its directories. -/
def deeper : Listing α δ → List α
  | nil => []
  | leaf _ r => r.deeper
  | dir d i r => (if descend d then i.walk descend else []) ++ r.deeper

/-- The directories a walk goes into, each as it is listed. -/
def subdirs : Listing α δ → List (Listing α δ)
  | nil => []
  | leaf _ r => r.subdirs
  | dir d i r => (if descend d then i :: i.subdirs else []) ++ r.subdirs

/-- In every directory the leaves stand in front of the directories. -/
def LeavesFirst : Listing α δ → Prop
  | nil => True
  | leaf _ r => r.LeavesFirst
  | dir _ i r => i.LeavesFirst ∧ r.leaves = [] ∧ r.LeavesFirst

/-- Put a directory behind the leaves at the head of a listing. -/
def insertDir (d : δ) (i : Listing α δ) : Listing α δ → Listing α δ
  | leaf v r => leaf v (insertDir d i r)
  | nil => dir d i nil
  | dir d' i' r => dir d i (dir d' i' r)

/-- Put the leaves first everywhere. -/
def sorted : Listing α δ → Listing α δ
  | nil => nil
  | leaf v r => leaf v r.sorted
  | dir d i r => insertDir d i.sorted r.sorted

/-- Two listings of one tree. -/
inductive Reordered : Listing α δ → Listing α δ → Prop
  | refl (l : Listing α δ) : Reordered l l
  | leaf (v : α) {r r' : Listing α δ} (h : Reordered r r') : Reordered (.leaf v r) (.leaf v r')
  | dir (d : δ) {i i' r r' : Listing α δ} (hi : Reordered i i') (hr : Reordered r r') :
      Reordered (.dir d i r) (.dir d i' r')
  | leafLeaf (v w : α) (r : Listing α δ) : Reordered (.leaf v (.leaf w r)) (.leaf w (.leaf v r))
  | leafDir (v : α) (d : δ) (i r : Listing α δ) :
      Reordered (.leaf v (.dir d i r)) (.dir d i (.leaf v r))
  | dirLeaf (v : α) (d : δ) (i r : Listing α δ) :
      Reordered (.dir d i (.leaf v r)) (.leaf v (.dir d i r))
  | dirDir (d d' : δ) (i i' r : Listing α δ) :
      Reordered (.dir d i (.dir d' i' r)) (.dir d' i' (.dir d i r))
  | trans {l l' l'' : Listing α δ} (h : Reordered l l') (h' : Reordered l' l'') : Reordered l l''

variable {descend} {l l' r s i : Listing α δ} {d : δ} {v x y n : α}

/-! ### What an order leaves alone -/

theorem Reordered.leaves_perm (h : Reordered l l') : l.leaves.Perm l'.leaves := by
  induction h with
  | refl l => exact List.Perm.refl _
  | leaf v _ ih => exact ih.cons v
  | dir d _ _ _ ihr => exact ihr
  | leafLeaf v w r => exact List.Perm.swap w v _
  | leafDir v d i r => exact List.Perm.refl _
  | dirLeaf v d i r => exact List.Perm.refl _
  | dirDir d d' i i' r => exact List.Perm.refl _
  | trans _ _ ih ih' => exact ih.trans ih'

theorem Reordered.walk_perm (h : Reordered l l') : (l.walk descend).Perm (l'.walk descend) := by
  induction h with
  | refl l => exact List.Perm.refl _
  | leaf v _ ih => exact ih.cons v
  | dir d _ _ ihi ihr =>
      rw [walk, walk]
      split
      · exact ihi.append ihr
      · exact ihr.append_left []
  | leafLeaf v w r => exact List.Perm.swap w v _
  | leafDir v d i r =>
      rw [walk, walk, walk, walk]
      exact List.perm_middle.symm
  | dirLeaf v d i r =>
      rw [walk, walk, walk, walk]
      exact List.perm_middle
  | dirDir d d' i i' r =>
      rw [walk, walk, walk, walk, ← List.append_assoc, ← List.append_assoc]
      exact List.perm_append_comm.append_right _
  | trans _ _ ih ih' => exact ih.trans ih'

theorem Reordered.deeper_perm (h : Reordered l l') : (l.deeper descend).Perm (l'.deeper descend) := by
  induction h with
  | refl l => exact List.Perm.refl _
  | leaf v _ ih => exact ih
  | dir d hi _ _ ihr =>
      rw [deeper, deeper]
      split
      · exact hi.walk_perm.append ihr
      · exact ihr.append_left []
  | leafLeaf v w r => exact List.Perm.refl _
  | leafDir v d i r => exact List.Perm.refl _
  | dirLeaf v d i r => exact List.Perm.refl _
  | dirDir d d' i i' r =>
      rw [deeper, deeper, deeper, deeper, ← List.append_assoc, ← List.append_assoc]
      exact List.perm_append_comm.append_right _
  | trans _ _ ih ih' => exact ih.trans ih'

/-- A directory of the one is a directory of the other, in its order. -/
theorem Reordered.subdirs (h : Reordered l l') :
    ∀ dir ∈ l.subdirs descend, ∃ dir' ∈ l'.subdirs descend, Reordered dir dir' := by
  have hperm : ∀ {a b : List (Listing α δ)}, a.Perm b →
      ∀ dir ∈ a, ∃ dir' ∈ b, Reordered dir dir' :=
    fun hab dir hdir => ⟨dir, hab.mem_iff.mp hdir, .refl dir⟩
  induction h with
  | refl l => exact hperm (List.Perm.refl _)
  | leaf v _ ih => exact ih
  | @dir d i i' r r' hi _ ihi ihr =>
      intro dir hdir
      rw [Listing.subdirs, List.mem_append] at hdir
      rw [Listing.subdirs]
      by_cases hd : descend d = true
      · rw [if_pos hd] at hdir ⊢
        rcases hdir with hin | hrest
        · rcases List.mem_cons.mp hin with rfl | hin
          · exact ⟨i', List.mem_append_left _ List.mem_cons_self, hi⟩
          · obtain ⟨dir', hdir', hre⟩ := ihi dir hin
            exact ⟨dir', List.mem_append_left _ (List.mem_cons_of_mem _ hdir'), hre⟩
        · obtain ⟨dir', hdir', hre⟩ := ihr dir hrest
          exact ⟨dir', List.mem_append_right _ hdir', hre⟩
      · rw [if_neg hd] at hdir ⊢
        rcases hdir with hin | hrest
        · cases hin
        · obtain ⟨dir', hdir', hre⟩ := ihr dir hrest
          exact ⟨dir', List.mem_append_right _ hdir', hre⟩
  | leafLeaf v w r => exact hperm (List.Perm.refl _)
  | leafDir v d i r => exact hperm (List.Perm.refl _)
  | dirLeaf v d i r => exact hperm (List.Perm.refl _)
  | dirDir d d' i i' r =>
      apply hperm
      rw [Listing.subdirs, Listing.subdirs, Listing.subdirs, Listing.subdirs, ← List.append_assoc,
        ← List.append_assoc]
      exact List.perm_append_comm.append_right _
  | trans _ _ ih ih' =>
      intro dir hdir
      obtain ⟨mid, hmid, hre⟩ := ih dir hdir
      obtain ⟨dir', hdir', hre'⟩ := ih' mid hmid
      exact ⟨dir', hdir', hre.trans hre'⟩

/-! ### Leaves first -/

theorem insertDir_reordered (d : δ) (i r : Listing α δ) : Reordered (.dir d i r) (insertDir d i r) := by
  induction r with
  | nil => exact .refl _
  | leaf v r ih => exact (Reordered.dirLeaf v d i r).trans (.leaf v ih)
  | dir d' i' r => exact .refl _

/-- Every tree can be listed with its leaves first. -/
theorem sorted_reordered (l : Listing α δ) : Reordered l l.sorted := by
  induction l with
  | nil => exact .refl _
  | leaf v r ih => exact .leaf v ih
  | dir d i r ihi ihr => exact (Reordered.dir d ihi ihr).trans (insertDir_reordered d _ _)

theorem LeavesFirst.insertDir (hi : i.LeavesFirst) (hr : r.LeavesFirst) :
    (insertDir d i r).LeavesFirst := by
  induction r with
  | nil => exact ⟨hi, rfl, trivial⟩
  | leaf v r ih => exact ih hr
  | dir d' i' r => exact ⟨hi, hr.2.1, hr⟩

theorem sorted_leavesFirst (l : Listing α δ) : l.sorted.LeavesFirst := by
  induction l with
  | nil => trivial
  | leaf v r ih => exact ih
  | dir d i r ihi ihr => exact ihi.insertDir ihr

/-- A walk of a listing with its leaves first meets them first. -/
theorem LeavesFirst.walk_eq (h : l.LeavesFirst) :
    l.walk descend = l.leaves ++ l.deeper descend := by
  induction l with
  | nil => rfl
  | leaf v r ih => exact congrArg (List.cons v) (ih h)
  | dir d i r _ ihr =>
      rw [walk, leaves, deeper, ihr h.2.2, h.2.1, List.nil_append, List.nil_append]

/-- A directory put behind the leaves is met between them and the others. -/
theorem LeavesFirst.walk_insertDir (hr : r.LeavesFirst) :
    (Listing.insertDir d i r).walk descend =
      r.leaves ++ ((if descend d then i.walk descend else []) ++ r.deeper descend) := by
  induction r with
  | nil => rfl
  | leaf v r ih => exact congrArg (List.cons v) (ih hr)
  | dir d' i' r =>
      rw [Listing.insertDir, walk, hr.walk_eq, leaves, hr.2.1, List.nil_append, List.nil_append]

theorem LeavesFirst.subdirs (h : l.LeavesFirst) : ∀ dir ∈ l.subdirs descend, dir.LeavesFirst := by
  induction l with
  | nil => exact fun dir hdir => absurd hdir List.not_mem_nil
  | leaf v r ih => exact ih h
  | dir d i r ihi ihr =>
      intro dir hdir
      rw [Listing.subdirs, List.mem_append] at hdir
      rcases hdir with hin | hrest
      · split at hin
        · rcases List.mem_cons.mp hin with rfl | hin
          · exact h.1
          · exact ihi h.1 dir hin
        · cases hin
      · exact ihr h.2.2 dir hrest

/-- The walk of a directory is a part of the walk of the tree. -/
theorem walk_subdirs : ∀ dir ∈ l.subdirs descend, (dir.walk descend).Sublist (l.walk descend) := by
  induction l with
  | nil => exact fun dir hdir => absurd hdir List.not_mem_nil
  | leaf v r ih => exact fun dir hdir => (ih dir hdir).cons v
  | dir d i r ihi ihr =>
      intro dir hdir
      rw [Listing.subdirs, List.mem_append] at hdir
      rw [walk]
      rcases hdir with hin | hrest
      · apply List.Sublist.trans ?_ (List.sublist_append_left _ _)
        by_cases hd : descend d = true
        · rw [if_pos hd] at hin ⊢
          rcases List.mem_cons.mp hin with rfl | hin
          · exact List.Sublist.refl _
          · exact ihi dir hin
        · rw [if_neg hd] at hin
          cases hin
      · exact (ihr dir hrest).trans (List.sublist_append_right _ _)

/-! ### Names that can be met in one order only -/

/-- The listings of a tree that a walk may follow. -/
def Order (leavesFirst : Bool) (l l' : Listing α δ) : Prop :=
  Reordered l l' ∧ (leavesFirst = true → l'.LeavesFirst)

/-- One name stands in a directory that has the other below one of its
directories, and leaves come first. -/
def Ahead (descend : δ → Bool) (leavesFirst : Bool) (l : Listing α δ) (x n : α) : Prop :=
  leavesFirst = true ∧
    ∃ dir ∈ l :: l.subdirs descend, x ∈ dir.leaves ∧ n ∈ dir.deeper descend

theorem Ahead.here (hx : x ∈ l.leaves) (hn : n ∈ l.deeper descend) : Ahead descend true l x n :=
  ⟨rfl, l, List.mem_cons_self, hx, hn⟩

section

variable {leavesFirst : Bool} {i r : Listing α δ}

/-- Ahead in the rest of a directory is ahead in the directory. -/
theorem Ahead.leaf (v : α) (h : Ahead descend leavesFirst r x n) :
    Ahead descend leavesFirst (.leaf v r) x n := by
  obtain ⟨hfirst, dir, hdir, hx, hn⟩ := h
  rcases List.mem_cons.mp hdir with rfl | hin
  · exact ⟨hfirst, _, List.mem_cons_self, List.mem_cons_of_mem _ hx, hn⟩
  · exact ⟨hfirst, dir, List.mem_cons_of_mem _ hin, hx, hn⟩

theorem Ahead.dir (d : δ) (i : Listing α δ) (h : Ahead descend leavesFirst r x n) :
    Ahead descend leavesFirst (.dir d i r) x n := by
  obtain ⟨hfirst, dir, hdir, hx, hn⟩ := h
  rcases List.mem_cons.mp hdir with rfl | hin
  · exact ⟨hfirst, _, List.mem_cons_self, hx, List.mem_append_right _ hn⟩
  · exact ⟨hfirst, dir, List.mem_cons_of_mem _ (List.mem_append_right _ hin), hx, hn⟩

/-- So is ahead in a directory of it. -/
theorem Ahead.inside {d : δ} (hd : descend d = true) (r : Listing α δ)
    (h : Ahead descend leavesFirst i x n) : Ahead descend leavesFirst (.dir d i r) x n := by
  obtain ⟨hfirst, dir, hdir, hx, hn⟩ := h
  refine ⟨hfirst, dir, List.mem_cons_of_mem _ ?_, hx, hn⟩
  rw [Listing.subdirs, if_pos hd]
  exact List.mem_append_left _ hdir

end

theorem order_sorted (leavesFirst : Bool) (l : Listing α δ) : Order leavesFirst l l.sorted :=
  ⟨sorted_reordered l, fun _ => sorted_leavesFirst l⟩

/-- **A name that is ahead of another is met in front of it** in every order. -/
theorem ahead_before {leavesFirst : Bool} (h : Ahead descend leavesFirst l x n)
    (horder : Order leavesFirst l l') : [x, n].Sublist (l'.walk descend) := by
  obtain ⟨hfirst, dir, hdir, hx, hn⟩ := h
  have hsorted := horder.2 hfirst
  have hall : ∃ dir' ∈ l' :: l'.subdirs descend, Reordered dir dir' := by
    rcases List.mem_cons.mp hdir with rfl | hdir
    · exact ⟨l', List.mem_cons_self, horder.1⟩
    · obtain ⟨dir', hdir', hre⟩ := horder.1.subdirs dir hdir
      exact ⟨dir', List.mem_cons_of_mem _ hdir', hre⟩
  obtain ⟨dir', hdir', hre⟩ := hall
  have hx' := hre.leaves_perm.mem_iff.mp hx
  have hn' := hre.deeper_perm.mem_iff.mp hn
  have hpart : (dir'.walk descend).Sublist (l'.walk descend) ∧ dir'.LeavesFirst := by
    rcases List.mem_cons.mp hdir' with rfl | hin
    · exact ⟨List.Sublist.refl _, hsorted⟩
    · exact ⟨walk_subdirs dir' hin, hsorted.subdirs dir' hin⟩
  apply List.Sublist.trans ?_ hpart.1
  rw [hpart.2.walk_eq]
  exact (List.singleton_sublist.mpr hx').append (List.singleton_sublist.mpr hn')

/-! ### Names that can be met in either order -/

theorem walk_append (r s : Listing α δ) :
    (r.append s).walk descend = r.walk descend ++ s.walk descend := by
  induction r with
  | nil => rfl
  | leaf v r ih => exact congrArg (List.cons v) ih
  | dir d i r _ ih => rw [append, walk, walk, ih, List.append_assoc]

theorem leaf_reordered (v : α) (r : Listing α δ) :
    Reordered (.leaf v r) (r.append (.leaf v .nil)) := by
  induction r with
  | nil => exact .refl _
  | leaf w r ih => exact (Reordered.leafLeaf v w r).trans (.leaf w ih)
  | dir d i r _ ih => exact (Reordered.leafDir v d i r).trans (.dir d (.refl i) ih)

theorem dir_reordered (d : δ) (i r : Listing α δ) :
    Reordered (.dir d i r) (r.append (.dir d i .nil)) := by
  induction r with
  | nil => exact .refl _
  | leaf w r ih => exact (Reordered.dirLeaf w d i r).trans (.leaf w ih)
  | dir d' i' r _ ih => exact (Reordered.dirDir d d' i i' r).trans (.dir d' (.refl i') ih)

theorem LeavesFirst.append_dir (hr : r.LeavesFirst) (hi : i.LeavesFirst) :
    (r.append (.dir d i .nil)).LeavesFirst := by
  induction r with
  | nil => exact ⟨hi, rfl, trivial⟩
  | leaf w r ih => exact ih hr
  | dir d' i' r _ ih =>
      refine ⟨hr.1, ?_, ih hr.2.2⟩
      have hnone := (Reordered.leaves_perm (dir_reordered d i r)).symm
      rw [leaves, hr.2.1] at hnone
      exact hnone.eq_nil

/-- A leaf can be listed first. -/
theorem exists_front (h : n ∈ l.leaves) : ∃ r, Reordered l (.leaf n r) := by
  induction l with
  | nil => cases h
  | leaf v r ih =>
      rcases List.mem_cons.mp h with rfl | hrest
      · exact ⟨r, .refl _⟩
      · obtain ⟨r', hr'⟩ := ih hrest
        exact ⟨.leaf v r', (Reordered.leaf v hr').trans (.leafLeaf v n r')⟩
  | dir d i r _ ih =>
      obtain ⟨r', hr'⟩ := ih h
      exact ⟨.dir d i r', (Reordered.dir d (.refl i) hr').trans (.dirLeaf n d i r')⟩

theorem mem_walk_iff : n ∈ l.walk descend ↔ n ∈ l.leaves ∨ n ∈ l.deeper descend := by
  rw [(sorted_reordered l).walk_perm.mem_iff, (sorted_leavesFirst l).walk_eq, List.mem_append,
    (sorted_reordered l).leaves_perm.mem_iff, (sorted_reordered l).deeper_perm.mem_iff]

/-- One name in front of another, each in its part of a walk. -/
theorem pair_sublist {a b : List α} (hn : n ∈ a) (hx : x ∈ b) : [n, x].Sublist (a ++ b) :=
  (List.singleton_sublist.mpr hn).append (List.singleton_sublist.mpr hx)

/-- Without a rule about leaves any two names can be met in either order. -/
theorem exists_before_any (hn : n ∈ l.walk descend) (hx : x ∈ l.walk descend) (hne : n ≠ x) :
    ∃ l', Reordered l l' ∧ [n, x].Sublist (l'.walk descend) := by
  induction l with
  | nil => cases hn
  | leaf v r ih =>
      rcases List.mem_cons.mp hn with rfl | hnr
      · -- the first name is where it is to be
        have hxr := List.mem_of_ne_of_mem hne.symm hx
        exact ⟨_, .refl _, (List.singleton_sublist.mpr hxr).cons_cons n⟩
      · rcases List.mem_cons.mp hx with rfl | hxr
        · refine ⟨_, leaf_reordered x r, ?_⟩
          rw [walk_append]
          exact pair_sublist hnr List.mem_cons_self
        · obtain ⟨r', hr', hpair⟩ := ih hnr hxr
          exact ⟨_, .leaf v hr', hpair.cons v⟩
  | dir d i r ihi ihr =>
      rw [walk, List.mem_append] at hn hx
      by_cases hd : descend d = true
      · rw [if_pos hd] at hn hx
        rcases hn with hni | hnr
        · rcases hx with hxi | hxr
          · obtain ⟨i', hi', hpair⟩ := ihi hni hxi
            refine ⟨_, .dir d hi' (.refl r), ?_⟩
            rw [walk, if_pos hd]
            exact hpair.trans (List.sublist_append_left _ _)
          · refine ⟨_, .refl _, ?_⟩
            rw [walk, if_pos hd]
            exact pair_sublist hni hxr
        · rcases hx with hxi | hxr
          · refine ⟨_, dir_reordered d i r, ?_⟩
            rw [walk_append, walk, if_pos hd]
            exact pair_sublist hnr (List.mem_append_left _ hxi)
          · obtain ⟨r', hr', hpair⟩ := ihr hnr hxr
            refine ⟨_, .dir d (.refl i) hr', ?_⟩
            rw [walk]
            exact hpair.trans (List.sublist_append_right _ _)
      · rw [if_neg hd] at hn hx
        obtain ⟨r', hr', hpair⟩ := ihr (hn.resolve_left List.not_mem_nil)
          (hx.resolve_left List.not_mem_nil)
        refine ⟨_, .dir d (.refl i) hr', ?_⟩
        rw [walk]
        exact hpair.trans (List.sublist_append_right _ _)

/-- A directory that is put behind the leaves of the rest, with its inside and the rest listed
with leaves first, when the two names stand in the order of that walk. -/
theorem exists_insertDir {i' r' : Listing α δ} (hi : Reordered i i') (hi' : i'.LeavesFirst)
    (hr : Reordered r r') (hr' : r'.LeavesFirst) (hpair : [n, x].Sublist
      (r'.leaves ++ ((if descend d then i'.walk descend else []) ++ r'.deeper descend))) :
    ∃ l', Reordered (.dir d i r) l' ∧ l'.LeavesFirst ∧ [n, x].Sublist (l'.walk descend) := by
  refine ⟨insertDir d i' r', (Reordered.dir d hi hr).trans (insertDir_reordered d i' r'),
    hi'.insertDir hr', ?_⟩
  rw [hr'.walk_insertDir]
  exact hpair

/-- A name inside a directory is met before one below the rest. -/
theorem exists_inside_first {i r : Listing α δ} {d : δ} (hd : descend d = true)
    (hn : n ∈ i.walk descend) (hx : x ∈ r.deeper descend) :
    ∃ l', Reordered (.dir d i r) l' ∧ l'.LeavesFirst ∧ [n, x].Sublist (l'.walk descend) := by
  apply exists_insertDir (sorted_reordered i) (sorted_leavesFirst i) (sorted_reordered r)
    (sorted_leavesFirst r)
  rw [if_pos hd]
  have hn' := (sorted_reordered i).walk_perm.mem_iff.mp hn
  have hx' := (sorted_reordered r).deeper_perm.mem_iff.mp hx
  exact (pair_sublist hn' hx').trans (List.sublist_append_right _ _)

/-- A name inside a directory is met behind every one of the rest. -/
theorem exists_inside_last {i r : Listing α δ} {d : δ} (hd : descend d = true)
    (hn : n ∈ r.walk descend) (hx : x ∈ i.walk descend) :
    ∃ l', Reordered (.dir d i r) l' ∧ l'.LeavesFirst ∧ [n, x].Sublist (l'.walk descend) := by
  refine ⟨_, (Reordered.dir d (sorted_reordered i) (sorted_reordered r)).trans
    (dir_reordered d _ _), (sorted_leavesFirst r).append_dir (sorted_leavesFirst i), ?_⟩
  have hn' := (sorted_reordered r).walk_perm.mem_iff.mp hn
  have hx' := (sorted_reordered i).walk_perm.mem_iff.mp hx
  rw [walk_append, walk, if_pos hd]
  exact pair_sublist hn' (List.mem_append_left _ hx')

/-- With leaves first it takes that the second name is not ahead of the first. -/
theorem exists_before_sorted (hn : n ∈ l.walk descend) (hx : x ∈ l.walk descend) (hne : n ≠ x)
    (hahead : ¬ Ahead descend true l x n) :
    ∃ l', Reordered l l' ∧ l'.LeavesFirst ∧ [n, x].Sublist (l'.walk descend) := by
  induction l with
  | nil => cases hn
  | leaf v r ih =>
      have hrest : ¬ Ahead descend true r x n := fun h => hahead (h.leaf v)
      rcases List.mem_cons.mp hn with rfl | hnr
      · have hxr := (sorted_reordered r).walk_perm.mem_iff.mp (List.mem_of_ne_of_mem hne.symm hx)
        exact ⟨_, .leaf n (sorted_reordered r), sorted_leavesFirst r,
          (List.singleton_sublist.mpr hxr).cons_cons n⟩
      · rcases List.mem_cons.mp hx with rfl | hxr
        · -- both stand in this directory, and the first is moved to the front
          have hleaf : n ∈ r.leaves := (mem_walk_iff.mp hnr).resolve_right
            fun hdeep => hahead (.here List.mem_cons_self hdeep)
          obtain ⟨r', hr'⟩ := exists_front hleaf
          refine ⟨.leaf n (.leaf x r'.sorted), ?_, sorted_leavesFirst r', ?_⟩
          · exact ((Reordered.leaf x hr').trans (.leafLeaf x n r')).trans
              (.leaf n (.leaf x (sorted_reordered r')))
          · exact ((List.nil_sublist _).cons_cons x).cons_cons n
        · obtain ⟨r', hr', hfirst, hpair⟩ := ih hnr hxr hrest
          exact ⟨_, .leaf v hr', hfirst, hpair.cons v⟩
  | dir d i r ihi ihr =>
      have hrest : ¬ Ahead descend true r x n := fun h => hahead (h.dir d i)
      -- with both names in the rest the directory is put where it does not matter
      have hboth : n ∈ r.walk descend → x ∈ r.walk descend →
          ∃ l', Reordered (.dir d i r) l' ∧ l'.LeavesFirst ∧ [n, x].Sublist (l'.walk descend) := by
        intro hnr hxr
        obtain ⟨r', hr', hfirst, hpair⟩ := ihr hnr hxr hrest
        apply exists_insertDir (sorted_reordered i) (sorted_leavesFirst i) hr' hfirst
        rw [hfirst.walk_eq] at hpair
        exact hpair.trans ((List.Sublist.refl _).append (List.sublist_append_right _ _))
      rw [walk, List.mem_append] at hn hx
      by_cases hd : descend d = true
      · rw [if_pos hd] at hn hx
        rcases hn with hni | hnr
        · rcases hx with hxi | hxr
          · have hinside : ¬ Ahead descend true i x n := fun h => hahead (h.inside hd r)
            obtain ⟨i', hi', hfirst, hpair⟩ := ihi hni hxi hinside
            apply exists_insertDir hi' hfirst (sorted_reordered r) (sorted_leavesFirst r)
            rw [if_pos hd]
            exact (hpair.trans (List.sublist_append_left _ _)).trans (List.sublist_append_right _ _)
          · have hxdeep : x ∈ r.deeper descend := by
              apply (mem_walk_iff.mp hxr).resolve_left
              intro hleaf
              refine hahead (.here hleaf ?_)
              rw [deeper, if_pos hd]
              exact List.mem_append_left _ hni
            exact exists_inside_first hd hni hxdeep
        · rcases hx with hxi | hxr
          · exact exists_inside_last hd hnr hxi
          · exact hboth hnr hxr
      · rw [if_neg hd] at hn hx
        exact hboth (hn.resolve_left List.not_mem_nil) (hx.resolve_left List.not_mem_nil)

/-- **A name that is not ahead of another is met behind it** in some order. -/
theorem exists_before {leavesFirst : Bool} (hn : n ∈ l.walk descend) (hx : x ∈ l.walk descend)
    (hne : n ≠ x) (hahead : ¬ Ahead descend leavesFirst l x n) :
    ∃ l', Order leavesFirst l l' ∧ [n, x].Sublist (l'.walk descend) := by
  cases leavesFirst with
  | false =>
      obtain ⟨l', hl', hpair⟩ := exists_before_any hn hx hne
      exact ⟨l', ⟨hl', fun h => absurd h Bool.false_ne_true⟩, hpair⟩
  | true =>
      obtain ⟨l', hl', hfirst, hpair⟩ := exists_before_sorted hn hx hne hahead
      exact ⟨l', ⟨hl', fun _ => hfirst⟩, hpair⟩

/-! ### The last of some names -/

section

variable {names : List α} {p : α → Bool}

/-- A name with another behind it is not the last of them. -/
theorem last_ne (hnodup : names.Nodup) (hpair : [n, x].Sublist names) (hx : p x = true) :
    (names.filter p).getLast? ≠ some n := by
  intro hlast
  by_cases hn : p n = true
  · have hfilter := hpair.filter p
    have hself : [n, x].filter p = [n, x] := by
      rw [List.filter_cons_of_pos hn, List.filter_cons_of_pos hx, List.filter_nil]
    rw [hself] at hfilter
    obtain ⟨front, hfront⟩ := List.getLast?_eq_some_iff.mp hlast
    have hdistinct := hnodup.filter p
    rw [hfront] at hfilter hdistinct
    have hnot : n ∉ front := by
      intro hmem
      exact (List.disjoint_of_nodup_append hdistinct) hmem List.mem_cons_self
    obtain ⟨a, b, hab, ha, hb⟩ := List.sublist_append_iff.mp hfilter
    cases a with
    | nil =>
        rw [List.nil_append] at hab
        have hlen := hb.length_le
        rw [← hab] at hlen
        exact absurd hlen (by simp)
    | cons n' a =>
        rw [List.cons_append] at hab
        obtain ⟨rfl, -⟩ := List.cons_eq_cons.mp hab
        exact hnot (ha.subset List.mem_cons_self)
  · have hmem := List.mem_of_getLast? hlast
    exact hn (List.mem_filter.mp hmem).2

/-- A name that every other stands in front of is the last. -/
theorem last_eq (hnodup : names.Nodup) (hmem : n ∈ names) (hn : p n = true)
    (hothers : ∀ x ∈ names, p x = true → x ≠ n → [x, n].Sublist names) :
    (names.filter p).getLast? = some n := by
  have hne : names.filter p ≠ [] := List.ne_nil_of_mem (List.mem_filter.mpr ⟨hmem, hn⟩)
  obtain ⟨z, hz⟩ := Option.isSome_iff_exists.mp (List.getLast?_isSome.mpr hne)
  by_cases heq : z = n
  · rw [hz, heq]
  · have hzmem := List.mem_filter.mp (List.mem_of_getLast? hz)
    exact absurd hz (last_ne hnodup (hothers z hzmem.1 hzmem.2 heq) hn)

end

end Listing

end DirectoryWalk
