import ProcProcessTable.ObstackLayout

/-!
# The invariant of an obstack

A program sees an obstack as a `View`: the finished objects with their
addresses and what they hold, and what the growing object holds.  `Layout` says
that memory and the chunks hold a view, that the allocated regions are the
chunks and the blocks `outs` that belong to somebody else, and that these blocks
hold what they held.

The hard step is `newchunk_spec`: `_obstack_newchunk` keeps the view and makes
room for what is to be added, whatever was asked for.  The size it computes may
wrap around, and then it is one that `malloc` refuses.
-/

namespace ObstackC

open HeapBlocks

variable {κ : Type}

/-- What a program sees of an obstack: the objects, newest first, and the one that
is growing. -/
structure View (κ : Type) where
  objects : List (Block κ)
  growing : List κ

/-- The allocated regions. -/
def regions (chunks : List Chunk) (outs : List (Block κ)) : List Region :=
  chunks.map Chunk.region ++ outs.map Block.region

/-- **The invariant of an obstack.** -/
structure Layout (abi : Abi) (k : Nat) (outs : List (Block κ)) (s : State κ) (v : View κ) :
    Prop where
  alignment : k ≤ abi.bits
  mask : s.h.alignmentMask = 2 ^ k - 1
  stack : Stack abi k s.h.chunks s.h.objectBase (v.objects.map Block.region)
  limit : ∀ c ∈ s.h.chunks.head?, s.h.chunkLimit = c.limit
  next : s.h.nextFree = s.h.objectBase + v.growing.length
  next_le : s.h.nextFree ≤ s.h.chunkLimit
  /-- the current chunk is known to hold no empty object -/
  nonempty : s.h.maybeEmptyObject = false → ∀ c ∈ s.h.chunks.head?, ∀ o ∈ v.objects,
    ¬ NotIn c o.addr → o.cells ≠ []
  valid : s.heap.Valid abi.bits
  live : s.heap.live.Perm (regions s.h.chunks outs)
  objects : ∀ o ∈ v.objects, s.heap.Holds o
  growing : s.heap.Holds ⟨s.h.objectBase, v.growing⟩
  outs : ∀ b ∈ outs, s.heap.Holds b

namespace Layout

variable {abi : Abi} {k : Nat} {outs : List (Block κ)} {s : State κ} {v : View κ}

/-- The current chunk. -/
theorem current (h : Layout abi k outs s v) :
    ∃ c cs, s.h.chunks = c :: cs ∧ s.h.chunkLimit = c.limit ∧
      Stack abi k (c :: cs) s.h.objectBase (v.objects.map Block.region) := by
  have hstack := h.stack
  have hlimit := h.limit
  obtain ⟨c, cs, hchunks⟩ := hstack.chunks_ne_nil
  rw [hchunks] at hstack hlimit
  exact ⟨c, cs, hchunks, hlimit c rfl, hstack⟩

theorem mem_live (h : Layout abi k outs s v) {r : Region} :
    r ∈ s.heap.live ↔ r ∈ regions s.h.chunks outs := h.live.mem_iff

theorem regions_apart (h : Layout abi k outs s v) :
    (regions s.h.chunks outs).Pairwise Region.Apart :=
  h.live.pairwise h.valid.apart Region.Apart.symm

theorem chunks_apart (h : Layout abi k outs s v) :
    (s.h.chunks.map Chunk.region).Pairwise Region.Apart :=
  (List.pairwise_append.mp h.regions_apart).1

theorem chunk_apart_out (h : Layout abi k outs s v) {c : Chunk} (hc : c ∈ s.h.chunks)
    {b : Block κ} (hb : b ∈ outs) : c.region.Apart b.region :=
  (List.pairwise_append.mp h.regions_apart).2.2 _ (List.mem_map_of_mem hc) _
    (List.mem_map_of_mem hb)

/-- The addresses of a chunk. -/
theorem chunk_bounds (h : Layout abi k outs s v) {c : Chunk} (hc : c ∈ s.h.chunks) :
    0 < c.addr ∧ c.addr < c.first abi k ∧ c.first abi k ≤ c.limit ∧ c.limit < 2 ^ abi.bits := by
  have hlive := h.mem_live.mpr (List.mem_append_left (outs.map Block.region) (List.mem_map_of_mem hc))
  have hfirst := h.stack.first_le c hc
  have haddr := Chunk.addr_lt_first abi k c
  have hfits := h.valid.fits _ hlive
  have hword := hfits.limit_lt
  rw [Chunk.region_limit (by omega)] at hword
  exact ⟨hfits.addr_pos, haddr, hfirst, hword⟩

/-- An object lies in a live region. -/
theorem object_within (h : Layout abi k outs s v) {o : Block κ} (ho : o ∈ v.objects) :
    ∃ c ∈ s.h.chunks, o.region.Within c.region ∧ ¬ NotIn c o.addr := by
  obtain ⟨c, hc, hlo, hhi⟩ := h.stack.covered (List.mem_map_of_mem ho)
  have haddr := Chunk.addr_lt_first abi k c
  have hsize : o.addr ≤ o.limit := Nat.le_add_right _ _
  refine ⟨c, hc, Stack.within_chunk hlo hhi, ?_⟩
  simp only [Block.region_addr, Block.region_limit] at hlo hhi
  unfold NotIn
  omega

/-- **Two objects have no address in common.** -/
theorem objects_apart (h : Layout abi k outs s v) :
    (v.objects.map Block.region).Pairwise Region.Apart := h.stack.apart h.chunks_apart

/-- What lies in the current chunk from the growing object on is nobody else's. -/
theorem top_apart (h : Layout abi k outs s v) {a n : Nat} (hlo : s.h.objectBase ≤ a)
    (hhi : a + n ≤ s.h.chunkLimit) :
    (∀ o ∈ v.objects, o.region.Apart ⟨a, n⟩) ∧ (∀ b ∈ outs, b.region.Apart ⟨a, n⟩) ∧
      s.heap.Covers a n := by
  obtain ⟨c, cs, hchunks, hlimit, hstack⟩ := h.current
  have hc : c ∈ s.h.chunks := by
    rw [hchunks]
    exact List.mem_cons_self
  obtain ⟨hpos, haddr, hfirst, hword⟩ := h.chunk_bounds hc
  have htop := hstack.top_bounds
  have hwithin : Region.Within ⟨a, n⟩ c.region := by
    refine ⟨?_, ?_⟩
    · show c.addr ≤ a
      omega
    · rw [Chunk.region_limit (by omega), ← hlimit]
      exact hhi
  refine ⟨?_, ?_, ?_⟩
  · intro o ho
    rcases hstack.mem_bounds (List.mem_map_of_mem ho) with ⟨_, htop'⟩ | ⟨c', hc', hlo', hhi'⟩
    · left
      show o.region.limit ≤ a
      omega
    · have hapart := h.chunks_apart
      rw [hchunks, List.map_cons, List.pairwise_cons] at hapart
      exact (hapart.1 _ (List.mem_map_of_mem hc')).symm.of_within (Stack.within_chunk hlo' hhi')
        hwithin
  · intro b hb
    exact (h.chunk_apart_out hc hb).symm.of_within (Region.Within.refl _) hwithin
  · exact ⟨c.region, h.mem_live.mpr (List.mem_append_left _ (List.mem_map_of_mem hc)), hwithin⟩

/-- The growing object, extended. -/
theorem extend (h : Layout abi k outs s v) {heap : Heap κ} {cells : List κ}
    (hlive : heap.live = s.heap.live) (hobjects : ∀ o ∈ v.objects, heap.Holds o)
    (houts : ∀ b ∈ outs, heap.Holds b) (hgrowing : heap.Holds ⟨s.h.objectBase, v.growing⟩)
    (hcells : heap.Holds ⟨s.h.nextFree, cells⟩)
    (hroom : s.h.nextFree + cells.length ≤ s.h.chunkLimit) :
    Layout abi k outs ⟨heap, { s.h with nextFree := s.h.nextFree + cells.length }⟩
      { v with growing := v.growing ++ cells } where
  alignment := h.alignment
  mask := h.mask
  stack := h.stack
  limit := h.limit
  next := by
    show s.h.nextFree + cells.length = s.h.objectBase + (v.growing ++ cells).length
    rw [h.next, List.length_append, Nat.add_assoc]
  next_le := hroom
  nonempty := h.nonempty
  valid := h.valid.congr hlive
  live := by
    show heap.live.Perm _
    rw [hlive]
    exact h.live
  objects := hobjects
  growing := by
    refine hgrowing.append ?_
    rw [← h.next]
    exact hcells
  outs := houts

/-- Appending to the growing object where there is room. -/
theorem append_ok (h : Layout abi k outs s v) {cells : List κ}
    (hroom : s.h.nextFree + cells.length ≤ s.h.chunkLimit) :
    ∃ s', append s cells = .ok s' ∧
      s'.h = { s.h with nextFree := s.h.nextFree + cells.length } ∧
      Layout abi k outs s' { v with growing := v.growing ++ cells } := by
  obtain ⟨hobjects, houts, hcovers⟩ := h.top_apart (by rw [h.next]; exact Nat.le_add_right _ _) hroom
  have hstore : s.heap.store s.h.nextFree cells = .ok (s.heap.write s.h.nextFree cells) :=
    if_pos hcovers
  have hgrowing : (s.heap.write s.h.nextFree cells).Holds ⟨s.h.objectBase, v.growing⟩ := by
    apply h.growing.write_of_apart
    left
    exact Nat.le_of_eq h.next.symm
  unfold append
  rw [hstore]
  refine ⟨_, rfl, rfl, h.extend rfl ?_ ?_ hgrowing (Heap.read_write _ _ _) hroom⟩
  · exact fun o ho => (h.objects o ho).write_of_apart (hobjects o ho)
  · exact fun b hb => (h.outs b hb).write_of_apart (houts b hb)

/-- The bytes `obstack_blank` adds are what memory holds there. -/
theorem blank_ok (h : Layout abi k outs s v) {n : Nat}
    (hroom : s.h.nextFree + n ≤ s.h.chunkLimit) :
    Layout abi k outs ⟨s.heap, { s.h with nextFree := s.h.nextFree + n }⟩
      { v with growing := v.growing ++ s.heap.read s.h.nextFree n } := by
  have hlen := s.heap.length_read s.h.nextFree n
  have hcells : s.heap.Holds ⟨s.h.nextFree, s.heap.read s.h.nextFree n⟩ := by
    show s.heap.read _ _ = _
    rw [hlen]
  have hext := h.extend rfl h.objects h.outs h.growing hcells (by rw [hlen]; exact hroom)
  rw [hlen] at hext
  exact hext

/-- The growing object is smaller than any request may be. -/
theorem growing_lt (h : Layout abi k outs s v) :
    v.growing.length < 2 ^ (abi.bits - 1) ∧ objectSize abi s.h = v.growing.length ∧
      s.h.nextFree < 2 ^ abi.bits := by
  obtain ⟨c, cs, hchunks, hlimit, hstack⟩ := h.current
  have hc : c ∈ s.h.chunks := by
    rw [hchunks]
    exact List.mem_cons_self
  obtain ⟨_, haddr, hfirst, hword⟩ := h.chunk_bounds hc
  have hlive := h.mem_live.mpr (List.mem_append_left (outs.map Block.region) (List.mem_map_of_mem hc))
  have hsize : c.limit - c.addr < 2 ^ (abi.bits - 1) := (h.valid.fits _ hlive).size_lt
  have htop := hstack.top_bounds
  have hnext := h.next
  have hle := h.next_le
  refine ⟨by omega, ?_, by omega⟩
  rw [objectSize, Abi.diff_of_le (by omega) (by omega)]
  omega

/-- A sum that comes out no smaller than what was added to did not wrap. -/
theorem wrap_add {a b : Nat} (ha : a < 2 ^ abi.bits) (hb : b < 2 ^ abi.bits)
    (hle : a ≤ abi.wrap (a + b)) : a + b < 2 ^ abi.bits := by
  by_contra hover
  rw [Abi.wrap, Nat.mod_eq_sub_mod (Nat.le_of_not_lt hover), Nat.mod_eq_of_lt (by omega)] at hle
  omega

/-- **The size of a new chunk** holds the header, the object and what is to be
added, unless it is one that `malloc` refuses. -/
theorem newSize_fits (h : Layout abi k outs s v) {n size : Nat} (hn : n < 2 ^ abi.bits)
    (hsize : newSize abi s.h n = some size) :
    0 < size ∧ (size < 2 ^ (abi.bits - 1) →
      abi.contents + (2 ^ k - 1) + v.growing.length + n ≤ size) := by
  obtain ⟨hg, hobj, _⟩ := h.growing_lt
  have hword := abi.two_pow_bits
  have hpage := abi.size_lt
  have hheader := abi.contents_le
  have hmask : 2 ^ k ≤ 2 ^ abi.bits := Nat.pow_le_pow_right (by decide) h.alignment
  have hk := Nat.two_pow_pos k
  unfold newSize at hsize
  simp only [hobj, h.mask, Nat.shiftRight_eq_div_pow] at hsize
  split at hsize
  · next hno =>
      obtain ⟨hno1, hno2⟩ := hno
      have hsum1 := wrap_add (by omega) hn hno1
      rw [Abi.wrap_of_lt hsum1] at hno2 hsize
      have hsum2 := wrap_add hsum1 (by omega) hno2
      rw [Abi.wrap_of_lt hsum2] at hsize
      generalize hdef : v.growing.length + n + (2 ^ k - 1) = sum2 at hsum2 hsize
      generalize hg8 : v.growing.length / 2 ^ 3 = slack at hsize
      have hslack_le : 8 * slack ≤ v.growing.length := by omega
      -- the slack itself may wrap, and then the size is one that is refused
      have hplus : ∃ m, sum2 ≤ m ∧ 0 < m ∧ (m < 2 ^ (abi.bits - 1) → sum2 + 100 ≤ m) ∧
          (if abi.wrap (sum2 + slack + 100) < sum2 then sum2
            else abi.wrap (sum2 + slack + 100)) = m := by
        by_cases hover : sum2 + slack + 100 < 2 ^ abi.bits
        · rw [Abi.wrap_of_lt hover, if_neg (by omega)]
          exact ⟨_, by omega, by omega, fun _ => by omega, rfl⟩
        · rw [Abi.wrap, Nat.mod_eq_sub_mod (Nat.le_of_not_lt hover), Nat.mod_eq_of_lt (by omega),
            if_pos (by omega)]
          exact ⟨_, Nat.le_refl _, by omega, fun _ => by omega, rfl⟩
      obtain ⟨m, _, hmpos, hfits, hm⟩ := hplus
      rw [hm] at hsize
      obtain rfl := Option.some.inj hsize
      split
      · exact ⟨by omega, fun _ => by omega⟩
      · exact ⟨hmpos, fun _ => by omega⟩
  · cases hsize

/-- The growing object lies in the current chunk. -/
theorem growing_within (h : Layout abi k outs s v) :
    ∃ c ∈ s.h.chunks.head?, Region.Within ⟨s.h.objectBase, v.growing.length⟩ c.region := by
  obtain ⟨c, cs, hchunks, hlimit, hstack⟩ := h.current
  have htop := hstack.top_bounds
  have haddr := Chunk.addr_lt_first abi k c
  have hnext := h.next
  have hle := h.next_le
  refine ⟨c, by rw [hchunks]; rfl, ?_, ?_⟩
  · show c.addr ≤ s.h.objectBase
    omega
  · rw [Chunk.region_limit (by omega)]
    show s.h.objectBase + v.growing.length ≤ c.limit
    omega

/-- **Moving the growing object into a new chunk.** -/
theorem moveObject_ok (h : Layout abi k outs s v) {heap : Heap κ} {addr size n : Nat}
    (halloc : s.heap.Allocated abi.bits ⟨addr, size⟩ heap)
    (hfit : abi.contents + (2 ^ k - 1) + v.growing.length + n ≤ size) :
    ∃ s', moveObject abi ⟨heap, s.h⟩ addr size = .ok s' ∧
      s'.h.chunks = ⟨addr, addr + size⟩ :: s.h.chunks ∧
      s'.h.objectBase = Chunk.first abi k ⟨addr, addr + size⟩ ∧
      s'.h.nextFree + n ≤ s'.h.chunkLimit ∧ Layout abi k outs s' v := by
  obtain ⟨hg, hobj, _⟩ := h.growing_lt
  have hlo := le_alignUp k (addr + abi.contents)
  have hhi := alignUp_le k (addr + abi.contents)
  have hword : addr + size < 2 ^ abi.bits := halloc.fits.limit_lt
  have hself : (⟨addr, size⟩ : Region) ∈ heap.live := by
    rw [halloc.live]
    exact List.mem_cons_self
  have hheader : storeHeader abi heap addr = .ok () := by
    refine if_pos ⟨⟨addr, size⟩, hself, Nat.le_refl _, ?_⟩
    show addr + abi.contents ≤ addr + size
    omega
  have hbase : firstObject abi addr s.h.alignmentMask = alignUp k (addr + abi.contents) := by
    rw [firstObject, h.mask, Abi.ptrAlign_eq h.alignment (by omega)]
  generalize hb : alignUp k (addr + abi.contents) = base at hlo hhi hbase
  have hin : Region.Within ⟨base, v.growing.length⟩ ⟨addr, size⟩ := by
    refine ⟨?_, ?_⟩
    · show addr ≤ base
      omega
    · show base + v.growing.length ≤ addr + size
      omega
  obtain ⟨c, hc, hgwithin⟩ := h.growing_within
  have hclive : c.region ∈ s.heap.live :=
    h.mem_live.mpr (List.mem_append_left _ (List.mem_map_of_mem (List.mem_of_mem_head? hc)))
  have hgrowing := @Heap.Allocated.holds _ _ _ _ _ _ ⟨s.h.objectBase, v.growing⟩ halloc hclive hgwithin
    h.growing
  have hload : heap.load s.h.objectBase v.growing.length = .ok v.growing := by
    unfold Heap.load
    rw [if_pos ⟨c.region, by rw [halloc.live]; exact List.mem_cons_of_mem _ hclive, hgwithin⟩]
    exact congrArg Except.ok hgrowing
  have hstore : heap.store base v.growing = .ok (heap.write base v.growing) :=
    if_pos ⟨⟨addr, size⟩, hself, hin⟩
  -- what lay in the live regions lies apart from the new one
  have hkeep : ∀ (b : Block κ) (q : Region), q ∈ s.heap.live → b.region.Within q →
      s.heap.Holds b → (heap.write base v.growing).Holds b := by
    intro b q hq hbq hold
    apply (halloc.holds hq hbq hold).write_of_apart
    exact (halloc.apart q hq).symm.of_within hbq hin
  refine ⟨⟨heap.write base v.growing, { s.h with
      chunks := ⟨addr, addr + size⟩ :: s.h.chunks
      chunkLimit := addr + size
      objectBase := base
      nextFree := base + v.growing.length
      maybeEmptyObject := false }⟩, ?_, rfl, hb.symm, ?_, ?_⟩
  · unfold moveObject
    dsimp only
    rw [hheader, hobj, hbase]
    show (heap.load s.h.objectBase v.growing.length >>= _) = _
    rw [hload]
    show (heap.store base v.growing >>= _) = _
    rw [hstore]
    rfl
  · show base + v.growing.length + n ≤ addr + size
    omega
  · refine ⟨h.alignment, h.mask, ?_, ?_, rfl, ?_, ?_, ?_, ?_, ?_, Heap.read_write _ _ _, ?_⟩
    · rw [← hb]
      refine h.stack.chunk ?_
      show alignUp k (addr + abi.contents) ≤ addr + size
      omega
    · intro c' hc'
      rw [← Option.some.inj hc']
    · show base + v.growing.length ≤ addr + size
      omega
    · intro _ c' hc' o ho hin'
      obtain rfl := Option.some.inj hc'
      obtain ⟨c₁, hc₁, _, hin₁⟩ := h.object_within ho
      have hc₁live := h.mem_live.mpr
        (List.mem_append_left (outs.map Block.region) (List.mem_map_of_mem hc₁))
      have hapart := halloc.apart _ hc₁live
      have hbounds := h.chunk_bounds hc₁
      unfold Region.Apart at hapart
      rw [Chunk.region_limit (by omega)] at hapart
      simp only [Chunk.region, Region.limit] at hapart
      unfold NotIn at hin' hin₁
      dsimp only at hin'
      omega
    · exact (halloc.valid h.valid).congr rfl
    · show heap.live.Perm _
      rw [halloc.live]
      have hsize : (⟨addr, size⟩ : Region) = Chunk.region ⟨addr, addr + size⟩ := by
        rw [Chunk.region, Nat.add_sub_cancel_left]
      rw [hsize]
      exact h.live.cons _
    · intro o ho
      obtain ⟨c₁, hc₁, hwithin, _⟩ := h.object_within ho
      exact hkeep o _ (h.mem_live.mpr (List.mem_append_left _ (List.mem_map_of_mem hc₁))) hwithin
        (h.objects o ho)
    · intro b hb'
      exact hkeep b _ (h.mem_live.mpr (List.mem_append_right _ (List.mem_map_of_mem hb')))
        (Region.Within.refl _) (h.outs b hb')

theorem firstObject_eq (h : Layout abi k outs s v) {c : Chunk} (hc : c ∈ s.h.chunks) :
    firstObject abi c.addr s.h.alignmentMask = c.first abi k := by
  have hbounds := h.chunk_bounds hc
  rw [firstObject, h.mask, Abi.ptrAlign_eq_of_lt h.alignment]
  · rfl
  · show c.first abi k < _
    omega

/-- Giving back the chunk behind the current one, when no object is in it. -/
theorem release_old (sys : Allocator κ abi.bits) (h : Layout abi k outs s v) {c old : Chunk}
    {older : List Chunk} (hchunks : s.h.chunks = c :: old :: older)
    (hstack : Stack abi k (c :: older) s.h.objectBase (v.objects.map Block.region)) :
    ∃ heap, sys.release s.heap old.addr = .ok heap ∧
      Layout abi k outs ⟨heap, { s.h with chunks := c :: older }⟩ v := by
  have hperm : s.heap.live.Perm (old.region :: regions (c :: older) outs) := by
    refine h.live.trans ?_
    rw [hchunks]
    exact List.Perm.swap _ _ _
  have hlimit := h.limit
  have hempty := h.nonempty
  obtain ⟨c', hc', hgwithin⟩ := h.growing_within
  rw [hchunks] at hlimit hempty hc'
  obtain rfl := Option.some.inj hc'
  obtain ⟨heap, hrel, hvalid, hlive, hkeep⟩ := sys.release_spec h.valid hperm
  refine ⟨heap, hrel, h.alignment, h.mask, hstack, hlimit, h.next, h.next_le, hempty, hvalid, hlive,
    ?_, ?_, ?_⟩
  · intro o ho
    obtain ⟨c₁, hc₁, hlo, hhi⟩ := hstack.covered (List.mem_map_of_mem ho)
    exact hkeep o ⟨_, List.mem_append_left _ (List.mem_map_of_mem hc₁), Stack.within_chunk hlo hhi⟩
      (h.objects o ho)
  · exact hkeep _ ⟨_, List.mem_append_left _ (List.mem_map_of_mem List.mem_cons_self), hgwithin⟩
      h.growing
  · intro b hb
    exact hkeep b ⟨_, List.mem_append_right _ (List.mem_map_of_mem hb), Region.Within.refl _⟩
      (h.outs b hb)

/-- **`_obstack_newchunk`.**  The view stays, and there is room for what is to be
added. -/
theorem newchunk_spec (sys : Allocator κ abi.bits) (h : Layout abi k outs s v) {n : Nat}
    (hn : n < 2 ^ abi.bits) :
    Yields (fun s' => Layout abi k outs s' v ∧ s'.h.nextFree + n ≤ s'.h.chunkLimit)
      (newchunk abi sys s n) := by
  obtain ⟨old, older, hchunks, _, hstack⟩ := h.current
  have hold : old ∈ s.h.chunks := by
    rw [hchunks]
    exact List.mem_cons_self
  have hfirst := h.firstObject_eq hold
  unfold newchunk
  rw [hchunks]
  dsimp only
  cases hsize : newSize abi s.h n with
  | none => exact Yields.exhausted
  | some size =>
      obtain ⟨hpos, hfits⟩ := h.newSize_fits hn hsize
      show Yields _ (callChunkfun abi sys s.heap size >>= _)
      unfold callChunkfun
      cases hmalloc : sys.malloc s.heap size with
      | none => exact Yields.exhausted
      | some out =>
          have halloc := @sys.malloc_spec s.heap size out.1 out.2 h.valid hpos hmalloc
          obtain ⟨s', hmove, hchunks', hbase, hroom, hlayout⟩ :=
            h.moveObject_ok halloc (hfits halloc.fits.size_lt)
          show Yields _ (moveObject abi ⟨out.2, s.h⟩ out.1 size >>= _)
          rw [hmove]
          show Yields _ (ite _ _ _)
          split
          · next hdrop =>
              obtain ⟨hmaybe, hequal⟩ := Bool.and_eq_true_iff.mp hdrop
              have hfree : s.h.maybeEmptyObject = false := by simpa using hmaybe
              have hobject : s.h.objectBase = old.first abi k := by
                rw [← hfirst]
                exact eq_of_beq hequal
              have hempty : ∀ o ∈ v.objects.map Block.region, ¬ NotIn old o.addr → o.size ≠ 0 := by
                intro r hr hin hzero
                obtain ⟨o, ho, rfl⟩ := List.mem_map.mp hr
                refine h.nonempty hfree old ?_ o ho hin (List.length_eq_zero_iff.mp hzero)
                rw [hchunks]
                rfl
              have hroomy := hlayout.stack.first_le ⟨out.1, out.1 + size⟩ (by
                rw [hchunks']
                exact List.mem_cons_self)
              rw [hobject] at hstack
              have hstack' : Stack abi k (⟨out.1, out.1 + size⟩ :: older) s'.h.objectBase
                  (v.objects.map Block.region) := by
                rw [hbase]
                rcases hstack.drop_chunk hempty with ⟨rfl, hnone⟩ | ⟨top, hrest⟩
                · rw [hnone]
                  exact Stack.bottom hroomy
                · exact hrest.chunk hroomy
              rw [hchunks] at hchunks'
              obtain ⟨heap', hrel, hlayout'⟩ := hlayout.release_old sys hchunks' hstack'
              rw [hrel]
              exact .ok ⟨hlayout', hroom⟩
          · exact .ok ⟨hlayout, hroom⟩

/-- `obstack_make_room`. -/
theorem makeRoom_spec (sys : Allocator κ abi.bits) (h : Layout abi k outs s v) {n : Nat}
    (hn : n < 2 ^ abi.bits) :
    Yields (fun s' => Layout abi k outs s' v ∧ s'.h.nextFree + n ≤ s'.h.chunkLimit)
      (makeRoom abi sys s n) := by
  obtain ⟨c, cs, hchunks, hlimit, hstack⟩ := h.current
  have hbounds := h.chunk_bounds (c := c) (by
    rw [hchunks]
    exact List.mem_cons_self)
  have hle := h.next_le
  have hroom : room abi s.h = s.h.chunkLimit - s.h.nextFree := Abi.diff_of_le hle (by omega)
  unfold makeRoom
  rw [hroom]
  split
  · exact h.newchunk_spec sys hn
  · exact .ok ⟨h, by omega⟩

end Layout

end ObstackC
