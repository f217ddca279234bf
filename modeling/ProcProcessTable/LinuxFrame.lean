import ProcProcessTable.LinuxRow

/-!
# The frame of one iteration

While the loop works on an entry the pool is what it was at the start of the
iteration, the record, the format string, the objects the record points to, and
temporaries.  `Frame` says so, and that the record read through the pool is the
row's.

It also says that every release so far was safe: a release is safe if neither
the record nor the format string nor an object the record points to at that
moment lies at or above the object released.
-/

namespace Linux

open CText MemPool Xs

/-- A pool pointer and the text it stands for: the object holds the text, a NUL,
and whatever the memory held before. -/
def PtrShows (base : Nat) (objs : List (Block (Procstat Nat))) :
    Option Nat → Option (List Char) → Prop
  | none, none => True
  | some ptr, some text =>
      ∃ i junk, ptr = base + i ∧ objs[i]? = some (.bytes (text ++ nul :: junk))
  | _, _ => False

/-- The record on the pool and the row's. -/
def Represents (base : Nat) (objs : List (Block (Procstat Nat))) (p : Procstat Nat)
    (q : Procstat (List Char)) : Prop :=
  p.toScraped = q.toScraped ∧ ∀ m : Member, PtrShows base objs (p.get m) (q.get m)

/-- A release that leaves the record, the format string and everything the
record points to. -/
def Safe (prs formatStr : Nat) (live : List (Block (Procstat Nat))) (ptr : Nat) : Prop :=
  prs < ptr ∧ formatStr < ptr ∧
    ∀ p, live[prs]? = some (.record p) → ∀ q ∈ p.pointers, q < ptr

/-- The releases made since `start` are safe for the record and format string
allocated behind it. -/
def SafeSince (start : Memory) (live : List (Block (Procstat Nat))) (ptr : Nat) : Prop :=
  ⟨live, ptr⟩ ∈ start.releases ∨
    Safe start.finished.length (start.finished.length + 1) live ptr

/-- The pool in the middle of an iteration. -/
structure Frame (start : Memory) (objs tmp : List (Block (Procstat Nat))) (pool : Memory)
    (row : Row) : Prop where
  stack : ∃ p : Procstat Nat, Represents (start.finished.length + 2) objs p row.prs ∧
    pool.finished = start.finished ++ .record p :: .bytes row.formatStr :: (objs ++ tmp)
  growing : pool.growing = []
  safe : Pool.Disciplined (SafeSince start) pool

/-- A pointer keeps what it shows when objects are added above. -/
theorem PtrShows.append {base : Nat} {objs : List (Block (Procstat Nat))} {ptr : Option Nat}
    {text : Option (List Char)} (h : PtrShows base objs ptr text)
    (more : List (Block (Procstat Nat))) : PtrShows base (objs ++ more) ptr text := by
  cases ptr with
  | none =>
      cases text with
      | none => trivial
      | some text => exact h
  | some ptr =>
      cases text with
      | none => exact h
      | some text =>
          obtain ⟨i, junk, hptr, hobj⟩ := h
          exact ⟨i, junk, hptr, Pool.getElem?_append_of_some hobj⟩

/-- A pointer reaches an object of the frame. -/
theorem PtrShows.lt {base : Nat} {objs : List (Block (Procstat Nat))} {ptr : Nat}
    {text : Option (List Char)} (h : PtrShows base objs (some ptr) text) :
    ptr < base + objs.length := by
  cases text with
  | none => exact h.elim
  | some text =>
      obtain ⟨i, junk, hptr, hobj⟩ := h
      have hlt := Pool.lt_of_getElem? hobj
      omega

namespace Represents

variable {base : Nat} {objs : List (Block (Procstat Nat))} {p : Procstat Nat}
  {q : Procstat (List Char)}

theorem append (h : Represents base objs p q) (more : List (Block (Procstat Nat))) :
    Represents base (objs ++ more) p q :=
  ⟨h.1, fun m => (h.2 m).append more⟩

theorem scraped (h : Represents base objs p q) (f : Scraped → Scraped) :
    Represents base objs (p.scraped f) (q.scraped f) := by
  refine ⟨congrArg f h.1, fun m => ?_⟩
  rw [Procstat.scraped_get, Procstat.scraped_get]
  exact h.2 m

/-- Setting a pointer to an object that shows its text. -/
theorem set (h : Represents base objs p q) (m : Member) {ptr : Nat} {text : List Char}
    (hptr : PtrShows base objs (some ptr) (some text)) :
    Represents base objs (p.set m ptr) (q.set m text) := by
  refine ⟨?_, fun m' => ?_⟩
  · rw [Procstat.set_toScraped, Procstat.set_toScraped]
    exact h.1
  · rw [Procstat.set_get, Procstat.set_get]
    by_cases hm : m' = m
    · rw [if_pos hm, if_pos hm]
      exact hptr
    · rw [if_neg hm, if_neg hm]
      exact h.2 m'

theorem pointers_lt (h : Represents base objs p q) : ∀ ptr ∈ p.pointers, ptr < base + objs.length := by
  intro ptr hptr
  obtain ⟨m, hm⟩ := Procstat.mem_pointers hptr
  have hshow := h.2 m
  rw [hm] at hshow
  exact hshow.lt

end Represents

namespace Frame

variable {start pool pool' : Memory} {objs tmp new : List (Block (Procstat Nat))} {row : Row}

/-- What a frame holds at the record's and the format string's heights. -/
theorem record_at (h : Frame start objs tmp pool row) :
    ∃ p, Represents (start.finished.length + 2) objs p row.prs ∧
      pool.finished[start.finished.length]? = some (.record p) := by
  obtain ⟨p, hp, hstack⟩ := h.stack
  refine ⟨p, hp, ?_⟩
  rw [hstack, List.getElem?_append_right (Nat.le_refl _)]
  simp

theorem format_at (h : Frame start objs tmp pool row) :
    pool.finished[start.finished.length + 1]? = some (.bytes row.formatStr) := by
  obtain ⟨p, _, hstack⟩ := h.stack
  rw [hstack, List.getElem?_append_right (Nat.le_add_right _ _)]
  simp

theorem bytesAt_format (h : Frame start objs tmp pool row) :
    pool.bytesAt (start.finished.length + 1) = row.formatStr :=
  Pool.bytesAt_of_getElem? h.format_at

theorem scrapedAt_eq (h : Frame start objs tmp pool row) :
    scrapedAt pool start.finished.length = row.prs.toScraped := by
  obtain ⟨p, hp, hat⟩ := h.record_at
  rw [scrapedAt, Pool.recordAt?_of_getElem? hat]
  exact hp.1

/-- What lies below the frame is as it was. -/
theorem below (h : Frame start objs tmp pool row) {i : Nat} (hi : i < start.finished.length) :
    pool.bytesAt i = start.bytesAt i := by
  obtain ⟨p, _, hstack⟩ := h.stack
  unfold Pool.bytesAt
  rw [hstack, List.getElem?_append_left hi]

theorem length_eq (h : Frame start objs [] pool row) :
    pool.finished.length = start.finished.length + 2 + objs.length := by
  obtain ⟨p, _, hstack⟩ := h.stack
  rw [hstack]
  simp only [List.length_append, List.length_cons, List.length_nil]
  omega

/-- Every release at or above the temporaries is safe. -/
theorem safe_above (h : Frame start objs tmp pool row) {ptr : Nat}
    (hptr : start.finished.length + 2 + objs.length ≤ ptr) (above : List (Block (Procstat Nat))) :
    SafeSince start (pool.finished ++ above) ptr := by
  refine Or.inr ⟨by omega, by omega, ?_⟩
  intro p' hp' q hq
  obtain ⟨p, hp, hat⟩ := h.record_at
  rw [Pool.getElem?_append_of_some hat] at hp'
  obtain rfl : p = p' := Block.record.inj (Option.some.inj hp')
  exact Nat.lt_of_lt_of_le (hp.pointers_lt q hq) hptr

/-- Pushing temporaries keeps the frame. -/
theorem pushed (h : Frame start objs [] pool row) (hpush : Pool.Pushed pool new pool') :
    Frame start objs new pool' row := by
  obtain ⟨p, hp, hstack⟩ := h.stack
  refine ⟨⟨p, hp, ?_⟩, hpush.growing, ?_⟩
  · rw [hpush.finished, hstack]
    simp only [List.append_nil, List.append_assoc, List.cons_append]
  · refine hpush.disciplined (SafeSince start) ?_ h.safe
    intro above n hn
    rw [h.length_eq] at hn
    exact h.safe_above hn above

/-- Temporaries become objects of the frame. -/
theorem keep (h : Frame start objs tmp pool row) : Frame start (objs ++ tmp) [] pool row := by
  obtain ⟨p, hp, hstack⟩ := h.stack
  refine ⟨⟨p, hp.append tmp, ?_⟩, h.growing, h.safe⟩
  rw [hstack, List.append_nil]

/-- Releasing the temporaries keeps the frame. -/
theorem free (h : Frame start objs tmp pool row) {ptr : Nat}
    (hptr : ptr = start.finished.length + 2 + objs.length) :
    Frame start objs [] (pool.free ptr) row := by
  obtain ⟨p, hp, hstack⟩ := h.stack
  refine ⟨⟨p, hp, ?_⟩, rfl, ?_⟩
  · have hlen : ptr = (start.finished ++ .record p :: .bytes row.formatStr :: objs).length := by
      rw [hptr]
      simp only [List.length_append, List.length_cons]
      omega
    have hsplit : start.finished ++ .record p :: .bytes row.formatStr :: (objs ++ tmp) =
        (start.finished ++ .record p :: .bytes row.formatStr :: objs) ++ tmp := by
      simp only [List.append_assoc, List.cons_append]
    rw [Pool.free_finished, hstack, hsplit, hlen, List.take_left, List.append_nil]
  · refine h.safe.free ?_
    have hsafe := h.safe_above (Nat.le_of_eq hptr.symm) []
    rwa [List.append_nil] at hsafe

/-- Changing the record changes the row's. -/
theorem modifyRecord (h : Frame start objs tmp pool row) (f : Procstat Nat → Procstat Nat)
    {q : Procstat (List Char)}
    (hf : ∀ p, Represents (start.finished.length + 2) objs p row.prs →
      Represents (start.finished.length + 2) objs (f p) q) :
    Frame start objs tmp (pool.modifyRecord start.finished.length f) ⟨row.formatStr, q⟩ := by
  obtain ⟨p, hp, hstack⟩ := h.stack
  have hat : pool.finished[start.finished.length]? = some (.record p) := by
    rw [hstack, List.getElem?_append_right (Nat.le_refl _)]
    simp
  refine ⟨⟨f p, hf p hp, ?_⟩, ?_, ?_⟩
  · rw [Pool.modifyRecord_finished f hat, hstack, List.set_append_right _ _ (Nat.le_refl _),
      Nat.sub_self, List.set_cons_zero]
  · rw [Pool.modifyRecord_growing]
    exact h.growing
  · exact (Pool.disciplined_modifyRecord _ _).mpr h.safe

/-- Changing the value members changes the row's. -/
theorem scraped (h : Frame start objs tmp pool row) (f : Scraped → Scraped) :
    Frame start objs tmp (pool.modifyRecord start.finished.length fun p => p.scraped f)
      ⟨row.formatStr, row.prs.scraped f⟩ :=
  h.modifyRecord _ fun _ hp => hp.scraped f

/-- Changing the format string changes the row's. -/
theorem format (h : Frame start objs tmp pool row) (f : Mem → Mem) :
    Frame start objs tmp (pool.modifyBytes (start.finished.length + 1) f)
      ⟨f row.formatStr, row.prs⟩ := by
  obtain ⟨p, hp, hstack⟩ := h.stack
  refine ⟨⟨p, hp, ?_⟩, ?_, ?_⟩
  · rw [Pool.modifyBytes_finished f h.format_at, hstack,
      List.set_append_right _ _ (Nat.le_add_right _ _), Nat.add_sub_cancel_left, List.set_cons_succ,
      List.set_cons_zero]
  · rw [Pool.modifyBytes_growing]
    exact h.growing
  · exact (Pool.disciplined_modifyBytes _ _).mpr h.safe

end Frame

end Linux
