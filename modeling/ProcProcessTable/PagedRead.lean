import Mathlib.Data.List.Sort

/-!
# Reading a table page by page

A table is kept by someone else and may change at any time.  Its entries have places,
and a reader asks for a page: the first entries from a place on, as they are at that
moment.  Behind the last entry of a page it asks for the next one.  One reader goes on
until a page is empty, another until a page is not full (`Reader`).

* `pages_some`: the reader comes to an end;
* `read_sorted`: it sees no place twice, and the places in order;
* `mem_of_read`: what it sees was there;
* `read_of_stays`: what stays where it is while the reader is on its way is seen;
* `read_still`: of a table that does not change it sees all.
-/

namespace PagedRead

/-- The table at the time of each request, from the first on; `none` where the request
fails.  The entries are in the order of their places. -/
structure Snapshots {α : Type} (place : α → Nat) where
  /-- there is no place from here on -/
  bound : Nat
  table : Nat → Option (List α)
  sorted : ∀ k entries, table k = some entries →
    entries.Pairwise fun a b => place a < place b
  bounded : ∀ k entries, table k = some entries → ∀ a ∈ entries, place a < bound

section

variable {β : Type} {place : β → Nat} (n : Nat) (taken : Nat → Nat → Bool) (content : Nat → β)
  (hplace : ∀ i, place (content i) = i)

/-- What is in the slots below `n` that are taken at the time of a request. -/
def takenSlots (k : Nat) : List β := ((List.range n).filter (taken k)).map content

theorem mem_takenSlots {n : Nat} {taken : Nat → Nat → Bool} {content : Nat → β} {k : Nat} {a : β} :
    a ∈ takenSlots n taken content k ↔ ∃ i, i < n ∧ taken k i = true ∧ content i = a := by
  unfold takenSlots
  simp only [List.mem_map, List.mem_filter, List.mem_range, and_assoc]

include hplace

theorem takenSlots_sorted : ∀ k entries, some (takenSlots n taken content k) = some entries →
    entries.Pairwise fun a b => place a < place b := by
  rintro k _ ⟨⟩
  unfold takenSlots
  simp only [List.pairwise_map, hplace]
  exact List.pairwise_lt_range.sublist List.filter_sublist

theorem takenSlots_bounded : ∀ k entries, some (takenSlots n taken content k) = some entries →
    ∀ a ∈ entries, place a < n := by
  rintro k _ ⟨⟩ a ha
  obtain ⟨i, hi, -, rfl⟩ := mem_takenSlots.mp ha
  rw [hplace]
  exact hi

omit hplace

/-- A table of `n` slots, of which some are taken at a time. -/
def Snapshots.ofSlots : Snapshots place where
  bound := n
  table k := some (takenSlots n taken content k)
  sorted := takenSlots_sorted n taken content hplace
  bounded := takenSlots_bounded n taken content hplace

end

/-- How many entries a reader takes at a time, and whether it goes on behind so many.
It goes on behind a full page, and not behind an empty one. -/
structure Reader where
  burst : Nat
  more : Nat → Bool
  full : ∀ n, burst ≤ n → more n = true
  empty : more 0 = false

variable {α : Type} {place : α → Nat} (s : Snapshots place) (r : Reader)

/-- The answer to request `k`: at most a page of entries, from the place on. -/
def page (k idx : Nat) : List α :=
  match s.table k with
  | some entries => (entries.filter fun a => idx ≤ place a).take r.burst
  | none => []

variable (place) in
/-- The place behind a page. -/
def behind (idx : Nat) (entries : List α) : Nat :=
  match entries.getLast? with
  | some a => place a + 1
  | none => idx

/-- The pages; `none` when there is still one to ask for. -/
def pages : Nat → Nat → Nat → Option (List (List α))
  | 0, _, _ => none
  | fuel + 1, k, idx =>
      let entries := page s r k idx
      if r.more entries.length then (pages fuel (k + 1) (behind place idx entries)).map (entries :: ·)
      else some [entries]

variable {s r}

theorem mem_page {k idx : Nat} {a : α} (h : a ∈ page s r k idx) :
    (∃ entries, s.table k = some entries ∧ a ∈ entries) ∧ idx ≤ place a ∧ place a < s.bound := by
  unfold page at h
  cases htable : s.table k with
  | none =>
      rw [htable] at h
      cases h
  | some entries =>
      rw [htable] at h
      obtain ⟨hmem, hplace⟩ := List.mem_filter.mp (List.mem_of_mem_take h)
      exact ⟨⟨entries, rfl, hmem⟩, of_decide_eq_true hplace, s.bounded k entries htable a hmem⟩

theorem page_sorted (k idx : Nat) :
    (page s r k idx).Pairwise fun a b => place a < place b := by
  unfold page
  cases htable : s.table k with
  | none => exact List.Pairwise.nil
  | some entries =>
      exact ((s.sorted k entries htable).sublist List.filter_sublist).sublist (List.take_sublist _ _)

/-- No entry of a page is behind its last. -/
theorem place_lt_behind {k idx : Nat} {a : α} (h : a ∈ page s r k idx) :
    place a < behind place idx (page s r k idx) := by
  have hsorted := page_sorted (s := s) (r := r) k idx
  unfold behind
  cases hlast : (page s r k idx).getLast? with
  | none =>
      rw [List.getLast?_eq_none_iff.mp hlast] at h
      cases h
  | some b =>
      dsimp only
      obtain ⟨front, hfront⟩ := List.getLast?_eq_some_iff.mp hlast
      rw [hfront, List.pairwise_append] at hsorted
      rw [hfront] at h
      rcases List.mem_append.mp h with hmem | hmem
      · exact Nat.lt_succ_of_lt (hsorted.2.2 a hmem b List.mem_cons_self)
      · rw [List.mem_singleton.mp hmem]
        exact Nat.lt_succ_self _

theorem ne_nil_of_more {entries : List α} (h : r.more entries.length = true) : entries ≠ [] := by
  rintro rfl
  have hempty := r.empty
  rw [List.length_nil, hempty] at h
  cases h

/-- Behind a page the reader is further on, and still within the table. -/
theorem behind_bounds {k idx : Nat} (h : r.more (page s r k idx).length = true) :
    idx < behind place idx (page s r k idx) ∧ behind place idx (page s r k idx) ≤ s.bound := by
  have hne := ne_nil_of_more h
  obtain ⟨_, hle, hlt⟩ := mem_page (List.getLast_mem hne)
  unfold behind
  rw [List.getLast?_eq_some_getLast hne]
  exact ⟨Nat.lt_succ_of_le hle, hlt⟩

/-- An entry of the table is on the page, or behind it, and then the reader goes on. -/
theorem mem_or_behind {k idx : Nat} {entries : List α} {a : α}
    (htable : s.table k = some entries) (hmem : a ∈ entries) (hidx : idx ≤ place a) :
    a ∈ page s r k idx ∨
      r.more (page s r k idx).length = true ∧ behind place idx (page s r k idx) ≤ place a := by
  have hpage : page s r k idx = (entries.filter fun b => idx ≤ place b).take r.burst := by
    unfold page
    rw [htable]
  have hsorted : (entries.filter fun b => idx ≤ place b).Pairwise
      fun b c => place b < place c := (s.sorted k entries htable).sublist List.filter_sublist
  have hfilter : a ∈ entries.filter fun b => idx ≤ place b :=
    List.mem_filter.mpr ⟨hmem, decide_eq_true hidx⟩
  rw [← List.take_append_drop r.burst (entries.filter fun b => idx ≤ place b)] at hfilter hsorted
  rw [← hpage] at hfilter hsorted
  rcases List.mem_append.mp hfilter with hfront | hback
  · exact Or.inl hfront
  · have hlen : r.burst ≤ (page s r k idx).length := by
      have hlt := List.length_pos_of_mem hback
      rw [List.length_drop] at hlt
      rw [hpage, List.length_take]
      omega
    have hmore := r.full _ hlen
    have hne := ne_nil_of_more hmore
    refine Or.inr ⟨hmore, ?_⟩
    unfold behind
    rw [List.getLast?_eq_some_getLast hne]
    exact (List.pairwise_append.mp hsorted).2.2 _ (List.getLast_mem hne) a hback

/-- The pages in turn. -/
theorem pages_succ {fuel k idx : Nat} {out : List (List α)}
    (h : pages s r (fuel + 1) k idx = some out) :
    (r.more (page s r k idx).length = false ∧ out = [page s r k idx]) ∨
      r.more (page s r k idx).length = true ∧ ∃ rest,
        pages s r fuel (k + 1) (behind place idx (page s r k idx)) = some rest ∧
          out = page s r k idx :: rest := by
  rw [pages] at h
  cases hmore : r.more (page s r k idx).length with
  | false =>
      rw [hmore] at h
      exact Or.inl ⟨rfl, (Option.some.inj h).symm⟩
  | true =>
      rw [hmore] at h
      obtain ⟨rest, hrest, hout⟩ := Option.map_eq_some_iff.mp h
      exact Or.inr ⟨rfl, rest, hrest, hout.symm⟩

/-- **The reader comes to an end**, after one request for a place at most. -/
theorem pages_some {fuel k idx : Nat} (h : s.bound - idx < fuel) :
    ∃ out, pages s r fuel k idx = some out := by
  induction fuel generalizing k idx with
  | zero => cases h
  | succ fuel ih =>
      rw [pages]
      cases hmore : r.more (page s r k idx).length with
      | false => exact ⟨_, rfl⟩
      | true =>
          obtain ⟨hlt, hle⟩ := behind_bounds hmore
          obtain ⟨rest, hrest⟩ := @ih (k + 1) (behind place idx (page s r k idx)) (by omega)
          rw [hrest]
          exact ⟨_, rfl⟩

/-- **No place is seen twice.** -/
theorem read_sorted {fuel k idx : Nat} {out : List (List α)} (h : pages s r fuel k idx = some out) :
    (out.flatten.Pairwise fun a b => place a < place b) ∧
      ∀ a ∈ out.flatten, idx ≤ place a := by
  induction fuel generalizing k idx out with
  | zero => cases h
  | succ fuel ih =>
      rcases pages_succ h with ⟨_, rfl⟩ | ⟨hmore, rest, hrest, rfl⟩
      · rw [List.flatten_singleton]
        exact ⟨page_sorted k idx, fun a ha => (mem_page ha).2.1⟩
      · obtain ⟨hsorted, hfrom⟩ := ih hrest
        rw [List.flatten_cons]
        constructor
        · refine List.pairwise_append.mpr ⟨page_sorted k idx, hsorted, fun a ha b hb => ?_⟩
          exact Nat.lt_of_lt_of_le (place_lt_behind ha) (hfrom b hb)
        · intro a ha
          rcases List.mem_append.mp ha with hpage | hlater
          · exact (mem_page hpage).2.1
          · exact Nat.le_trans (Nat.le_of_lt (behind_bounds hmore).1) (hfrom a hlater)

/-- **What is seen was there** at one of the requests. -/
theorem mem_of_read {fuel k idx : Nat} {out : List (List α)} (h : pages s r fuel k idx = some out)
    {a : α} (ha : a ∈ out.flatten) : ∃ j entries, k ≤ j ∧ s.table j = some entries ∧ a ∈ entries := by
  induction fuel generalizing k idx out with
  | zero => cases h
  | succ fuel ih =>
      have hpage : a ∈ page s r k idx →
          ∃ j entries, k ≤ j ∧ s.table j = some entries ∧ a ∈ entries := by
        intro hmem
        obtain ⟨⟨entries, htable, hmem⟩, _⟩ := mem_page hmem
        exact ⟨k, entries, Nat.le_refl k, htable, hmem⟩
      rcases pages_succ h with ⟨_, rfl⟩ | ⟨_, rest, hrest, rfl⟩
      · rw [List.flatten_singleton] at ha
        exact hpage ha
      · rw [List.flatten_cons] at ha
        rcases List.mem_append.mp ha with hfirst | hlater
        · exact hpage hfirst
        · obtain ⟨j, entries, hj, htable, hmem⟩ := ih hrest hlater
          exact ⟨j, entries, by omega, htable, hmem⟩

/-- **What stays where it is is seen**, whatever comes and goes around it. -/
theorem read_of_stays {fuel k idx : Nat} {out : List (List α)} (h : pages s r fuel k idx = some out)
    {a : α} (hidx : idx ≤ place a)
    (hstays : ∀ j, k ≤ j → ∃ entries, s.table j = some entries ∧ a ∈ entries) : a ∈ out.flatten := by
  induction fuel generalizing k idx out with
  | zero => cases h
  | succ fuel ih =>
      obtain ⟨entries, htable, hmem⟩ := hstays k (Nat.le_refl k)
      have hwhere := mem_or_behind (r := r) htable hmem hidx
      rcases pages_succ h with ⟨hstop, rfl⟩ | ⟨_, rest, hrest, rfl⟩
      · rw [List.flatten_singleton]
        refine hwhere.resolve_right fun hlater => ?_
        rw [hstop] at hlater
        cases hlater.1
      · rw [List.flatten_cons]
        rcases hwhere with hpage | ⟨_, hbehind⟩
        · exact List.mem_append_left _ hpage
        · refine List.mem_append_right _ (ih hrest hbehind fun j hj => ?_)
          exact hstays j (by omega)

/-- **A table that does not change is seen as it is.** -/
theorem read_still {fuel k : Nat} {out : List (List α)} {entries : List α}
    (h : pages s r fuel k 0 = some out) (hstill : ∀ j, k ≤ j → s.table j = some entries) :
    out.flatten = entries := by
  have hsorted := s.sorted k entries (hstill k (Nat.le_refl k))
  have hirrefl : Std.Irrefl fun a b => place a < place b := ⟨fun a => Nat.lt_irrefl (place a)⟩
  have hantisymm : Std.Antisymm fun a b => place a < place b :=
    ⟨fun a b hab hba => absurd hba (Nat.lt_asymm hab)⟩
  refine (read_sorted h).1.eq_of_mem_iff hsorted fun a => ⟨fun ha => ?_, fun ha => ?_⟩
  · obtain ⟨j, seen, hj, htable, hmem⟩ := mem_of_read h ha
    rw [hstill j hj] at htable
    rw [Option.some.inj htable]
    exact hmem
  · exact read_of_stays h (Nat.zero_le _) fun j hj => ⟨entries, hstill j hj, ha⟩

end PagedRead
