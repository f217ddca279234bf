import Mathlib.Data.List.TakeWhile
import ProcProcessTable.ObstackInvariant

/-!
# What the operations of an obstack do

Each operation takes a state with a layout to a state with the layout of the
view it is meant to make, for every allocator: no object moves or changes, no
store leaves the chunks, nothing is given back twice or forgotten.  Growing may
exhaust memory, and a request that is too large for the address space does.
-/

namespace ObstackC

open HeapBlocks

variable {κ : Type}

section Operations

variable {abi : Abi} {k : Nat} {outs : List (Block κ)} {s : State κ} {v : View κ}
  (sys : Allocator κ abi.bits)

/-- `obstack_grow`. -/
theorem grow_spec (h : Layout abi k outs s v) {cells : List κ}
    (hlen : cells.length < 2 ^ abi.bits) :
    Yields (fun s' => Layout abi k outs s' { v with growing := v.growing ++ cells })
      (grow abi sys s cells) := by
  apply (h.makeRoom_spec sys hlen).bind
  rintro s₁ ⟨h₁, hroom⟩
  obtain ⟨s₂, happend, _, h₂⟩ := h₁.append_ok hroom
  rw [happend]
  exact .ok h₂

/-- `obstack_1grow`. -/
theorem oneGrow_spec (h : Layout abi k outs s v) (datum : κ) :
    Yields (fun s' => Layout abi k outs s' { v with growing := v.growing ++ [datum] })
      (oneGrow abi sys s datum) := by
  have hone : 1 < 2 ^ abi.bits := by
    have hpage := abi.size_lt
    have hword := abi.two_pow_bits
    omega
  apply (h.makeRoom_spec sys hone).bind
  rintro s₁ ⟨h₁, hroom⟩
  obtain ⟨s₂, happend, _, h₂⟩ := @Layout.append_ok _ _ _ _ _ _ h₁ [datum] hroom
  rw [happend]
  exact .ok h₂

/-- `obstack_blank`: what the bytes hold is left open. -/
theorem blank_spec (h : Layout abi k outs s v) {n : Nat} (hn : n < 2 ^ abi.bits) :
    Yields (fun s' => ∃ cells : List κ, cells.length = n ∧
        Layout abi k outs s' { v with growing := v.growing ++ cells })
      (blank abi sys s n) := by
  apply (h.makeRoom_spec sys hn).bind
  rintro s₁ ⟨h₁, hroom⟩
  exact .ok ⟨_, s₁.heap.length_read _ _, h₁.blank_ok hroom⟩

/-- **`obstack_finish`.**  The growing object stays where it is, and the next one
begins behind it. -/
theorem finish_spec (h : Layout abi k outs s v) :
    ∃ s', finish abi s = .ok (s.h.objectBase, s') ∧ s'.heap = s.heap ∧
      Layout abi k outs s' ⟨⟨s.h.objectBase, v.growing⟩ :: v.objects, []⟩ := by
  obtain ⟨c, cs, hchunks, hlimit, hstack⟩ := h.current
  obtain ⟨hpos, haddr, hfirst, hword⟩ := h.chunk_bounds (c := c) (by
    rw [hchunks]
    exact List.mem_cons_self)
  have htop := hstack.top_bounds
  have hnext := h.next
  have hle := h.next_le
  have hclip := @Abi.clip_eq abi k s.h.nextFree h.alignment c.addr s.h.chunkLimit hpos (by omega) hle
    (by omega)
  rw [← h.mask] at hclip
  unfold finish
  rw [hchunks]
  dsimp only
  rw [hclip]
  refine ⟨_, rfl, rfl, h.alignment, h.mask, ?_, h.limit, rfl, ?_, ?_, h.valid, h.live, ?_, ?_, h.outs⟩
  · show Stack abi k s.h.chunks _ _
    rw [hchunks, hlimit, hnext]
    exact hstack.object (by omega)
  · exact Nat.min_le_right _ _
  · intro hmaybe c' hc' o ho hin
    obtain ⟨hfree, hbeq⟩ := Bool.or_eq_false_iff.mp hmaybe
    rcases List.mem_cons.mp ho with rfl | ho
    · intro hnil
      dsimp only at hnil
      rw [hnil, List.length_nil, Nat.add_zero] at hnext
      rw [hnext] at hbeq
      simp at hbeq
    · exact h.nonempty hfree c' hc' o ho hin
  · intro o ho
    rcases List.mem_cons.mp ho with rfl | ho
    · exact h.growing
    · exact h.objects o ho
  · rfl

/-- `obstack_alloc`. -/
theorem alloc_spec (h : Layout abi k outs s v) {n : Nat} (hn : n < 2 ^ abi.bits) :
    Yields (fun out => ∃ cells : List κ, cells.length = n ∧
        Layout abi k outs out.2 ⟨⟨out.1, v.growing ++ cells⟩ :: v.objects, []⟩)
      (alloc abi sys s n) := by
  apply (blank_spec sys h hn).bind
  rintro s₁ ⟨cells, hlen, h₁⟩
  obtain ⟨s₂, hfinish, _, h₂⟩ := finish_spec h₁
  rw [hfinish]
  exact .ok ⟨cells, hlen, h₂⟩

/-- The loop of `_obstack_free` gives back the chunks in front of the object's. -/
theorem freeLoop_spec {obj : Nat} {kept : List Chunk} (hkept : ∀ c ∈ kept.head?, ¬ NotIn c obj)
    (above : List Chunk) {heap : Heap κ} (freed : Bool) (habove : ∀ c ∈ above, NotIn c obj)
    (hvalid : heap.Valid abi.bits) (hlive : heap.live.Perm (regions (above ++ kept) outs)) :
    ∃ heap', freeLoop abi sys obj (above ++ kept) heap freed =
        .ok (kept, heap', freed || !above.isEmpty) ∧
      heap'.Valid abi.bits ∧ heap'.live.Perm (regions kept outs) ∧
      ∀ b : Block κ, (∃ q ∈ regions kept outs, b.region.Within q) → heap.Holds b →
        heap'.Holds b := by
  induction above generalizing heap freed with
  | nil =>
      refine ⟨heap, ?_, hvalid, hlive, fun _ _ hold => hold⟩
      rw [List.nil_append, List.isEmpty_nil, Bool.not_true, Bool.or_false]
      cases kept with
      | nil => rfl
      | cons c cs => exact if_neg (hkept c rfl)
  | cons lp plp ih =>
      obtain ⟨heap₁, hrel, hvalid₁, hlive₁, hkeep₁⟩ := sys.release_spec hvalid hlive
      obtain ⟨heap', hloop, hvalid', hlive', hkeep'⟩ :=
        ih true (fun c hc => habove c (List.mem_cons_of_mem _ hc)) hvalid₁ hlive₁
      refine ⟨heap', ?_, hvalid', hlive', ?_⟩
      · rw [List.cons_append, freeLoop, if_pos (habove lp List.mem_cons_self)]
        show (sys.release heap lp.region.addr >>= _) = _
        rw [hrel]
        show freeLoop abi sys obj (plp ++ kept) heap₁ true = _
        rw [hloop, List.isEmpty_cons, Bool.not_false, Bool.or_true, Bool.true_or]
      · rintro b ⟨q, hq, hb⟩ hold
        refine hkeep' b ⟨q, hq, hb⟩ (hkeep₁ b ⟨q, ?_, hb⟩ hold)
        rcases List.mem_append.mp hq with hq | hq
        · have hmap := List.mem_append_right (plp.map Chunk.region) hq
          rw [← List.map_append] at hmap
          exact List.mem_append_left _ hmap
        · exact List.mem_append_right _ hq

/-- The obstack behind the release of an object, from the chunk of the object on. -/
theorem layout_freed (h : Layout abi k outs s v) {newer older : List (Block κ)} {o : Block κ}
    (hobjects : v.objects = newer ++ o :: older) {c : Chunk} {cs : List Chunk} {heap : Heap κ}
    {maybe : Bool} (hstack : Stack abi k (c :: cs) o.addr (older.map Block.region))
    (hmaybe : maybe = false → s.h.maybeEmptyObject = false ∧ s.h.chunks = c :: cs)
    (hvalid : heap.Valid abi.bits) (hlive : heap.live.Perm (regions (c :: cs) outs))
    (hkeep : ∀ b : Block κ, (∃ q ∈ regions (c :: cs) outs, b.region.Within q) → s.heap.Holds b →
      heap.Holds b) :
    Layout abi k outs ⟨heap, { s.h with
      chunks := c :: cs, maybeEmptyObject := maybe, objectBase := o.addr, nextFree := o.addr,
      chunkLimit := c.limit }⟩ ⟨older, []⟩ := by
  have hsub : ∀ b ∈ older, b ∈ v.objects := by
    intro b hb
    rw [hobjects]
    exact List.mem_append_right _ (List.mem_cons_of_mem _ hb)
  refine ⟨h.alignment, h.mask, hstack, ?_, rfl, hstack.top_bounds.2, ?_, hvalid, hlive, ?_, rfl, ?_⟩
  · intro c' hc'
    rw [← Option.some.inj hc']
  · intro hfalse c' hc' b hb hin
    obtain ⟨hempty, hchunks⟩ := hmaybe hfalse
    exact h.nonempty hempty c' (by rw [hchunks]; exact hc') b (hsub b hb) hin
  · intro b hb
    obtain ⟨c₁, hc₁, hlo, hhi⟩ := hstack.covered (List.mem_map_of_mem hb)
    exact hkeep b ⟨_, List.mem_append_left _ (List.mem_map_of_mem hc₁), Stack.within_chunk hlo hhi⟩
      (h.objects b (hsub b hb))
  · intro b hb
    exact hkeep b ⟨_, List.mem_append_right _ (List.mem_map_of_mem hb), Region.Within.refl _⟩
      (h.outs b hb)

/-- Where an object is: the chunks in front of its own, none of which it is in. -/
theorem chunks_of_object (h : Layout abi k outs s v) {newer older : List (Block κ)} {o : Block κ}
    (hobjects : v.objects = newer ++ o :: older) :
    ∃ above c cs, s.h.chunks = above ++ c :: cs ∧
      Stack abi k (c :: cs) o.addr (older.map Block.region) ∧ ¬ NotIn c o.addr ∧
        ∀ p ∈ above, NotIn p o.addr := by
  have hstack := h.stack
  rw [hobjects, List.map_append, List.map_cons] at hstack
  obtain ⟨above, c, cs, hchunks, hcut, _⟩ := hstack.cut
  have htop := hcut.top_bounds
  have haddr := Chunk.addr_lt_first abi k c
  rw [Block.region_addr] at hcut htop
  refine ⟨above, c, cs, hchunks, hcut, ?_, ?_⟩
  · unfold NotIn
    omega
  · intro p hp
    have hbounds := h.chunk_bounds (c := p) (by
      rw [hchunks]
      exact List.mem_append_left _ hp)
    have hapart := h.chunks_apart
    rw [hchunks, List.map_append, List.pairwise_append] at hapart
    have hpc := hapart.2.2 _ (List.mem_map_of_mem hp) c.region
      (List.mem_map_of_mem List.mem_cons_self)
    unfold Region.Apart at hpc
    rw [Chunk.region_limit (by omega), Chunk.region_limit (by omega)] at hpc
    unfold NotIn
    simp only [Chunk.region] at hpc
    omega

/-- **`obstack_free` of an object** leaves the objects that are older, where they
are and as they are, and gives back the chunks that were added since. -/
theorem free_spec (h : Layout abi k outs s v) {newer older : List (Block κ)} {o : Block κ}
    (hobjects : v.objects = newer ++ o :: older) :
    ∃ s', free abi sys s o.addr = .ok s' ∧ Layout abi k outs s' ⟨older, []⟩ := by
  obtain ⟨above, c, cs, hchunks, hcut, hin, habove⟩ := chunks_of_object h hobjects
  have hlive := h.live
  have hlimit := h.limit
  rw [hchunks] at hlive hlimit
  have hkept : ∀ c' ∈ (c :: cs).head?, ¬ NotIn c' o.addr := by
    intro c' hc'
    rw [← Option.some.inj hc']
    exact hin
  obtain ⟨heap, hloop, hvalid', hlive', hkeep⟩ :=
    freeLoop_spec sys hkept above false habove h.valid hlive
  have hslow : freeChunks abi sys s o.addr = .ok ⟨heap, { s.h with
      chunks := c :: cs, maybeEmptyObject := s.h.maybeEmptyObject || !above.isEmpty
      objectBase := o.addr, nextFree := o.addr, chunkLimit := c.limit }⟩ := by
    unfold freeChunks
    rw [hchunks, hloop]
    rfl
  have hlayout := @layout_freed _ _ _ _ _ _ h newer older o hobjects c cs heap
    (s.h.maybeEmptyObject || !above.isEmpty) hcut (by
      intro hmaybe
      obtain ⟨hempty, hnone⟩ := Bool.or_eq_false_iff.mp hmaybe
      have hnil : above = [] := List.isEmpty_iff.mp (by simpa using hnone)
      refine ⟨hempty, ?_⟩
      rw [hchunks, hnil, List.nil_append]) hvalid' hlive' hkeep
  unfold free
  cases above with
  | nil =>
      rw [hchunks]
      dsimp only [List.nil_append] at hchunks hlive hlimit ⊢
      split
      · refine ⟨_, rfl, ?_⟩
        have hfast := @layout_freed _ _ _ _ _ _ h newer older o hobjects c cs s.heap
          s.h.maybeEmptyObject hcut (fun hempty => ⟨hempty, hchunks⟩) h.valid hlive
          (fun _ _ hold => hold)
        rw [← hchunks, ← hlimit c rfl] at hfast
        exact hfast
      · exact ⟨_, hslow, hlayout⟩
  | cons p rest =>
      rw [hchunks]
      have hp := habove p List.mem_cons_self
      have hplimit : s.h.chunkLimit = p.limit := hlimit p rfl
      have hnot : ¬ (p.addr < o.addr ∧ o.addr < s.h.chunkLimit) := by
        unfold NotIn at hp
        omega
      dsimp only [List.cons_append]
      rw [if_neg hnot]
      exact ⟨_, hslow, hlayout⟩

/-- **`obstack_free` of NULL** gives everything back. -/
theorem freeAll_spec (h : Layout abi k outs s v) :
    ∃ s', free abi sys s 0 = .ok s' ∧ s'.h.chunks = [] ∧ s'.heap.Valid abi.bits ∧
      s'.heap.live.Perm (outs.map Block.region) ∧ ∀ b ∈ outs, s'.heap.Holds b := by
  obtain ⟨c, cs, hchunks, _, _⟩ := h.current
  have hlive := h.live
  rw [← List.append_nil s.h.chunks] at hlive
  have hkept : ∀ c' ∈ ([] : List Chunk).head?, ¬ NotIn c' 0 := fun c' hc' => by cases hc'
  obtain ⟨heap, hloop, hvalid', hlive', hkeep⟩ := freeLoop_spec sys hkept s.h.chunks false
    (fun p _ => Or.inl (Nat.zero_le _)) h.valid hlive
  rw [List.append_nil] at hloop
  refine ⟨⟨heap, { s.h with chunks := [], maybeEmptyObject := s.h.maybeEmptyObject ||
    !s.h.chunks.isEmpty }⟩, ?_, rfl, hvalid', hlive', ?_⟩
  · have hslow : free abi sys s 0 = freeChunks abi sys s 0 := by
      unfold free
      rw [hchunks]
      exact if_neg fun hlt => Nat.not_lt_zero _ hlt.1
    rw [hslow, freeChunks, hloop]
    rfl
  · intro b hb
    exact hkeep b ⟨_, List.mem_map_of_mem hb, Region.Within.refl _⟩ (h.outs b hb)

/-- Writing into a finished object. -/
theorem storeObject_ok (h : Layout abi k outs s v) {newer older : List (Block κ)} {o : Block κ}
    (hobjects : v.objects = newer ++ o :: older) {cells : List κ}
    (hlen : cells.length = o.cells.length) :
    s.heap.store o.addr cells = .ok (s.heap.write o.addr cells) ∧
      Layout abi k outs ⟨s.heap.write o.addr cells, s.h⟩
        ⟨newer ++ ⟨o.addr, cells⟩ :: older, v.growing⟩ := by
  have ho : o ∈ v.objects := by
    rw [hobjects]
    exact List.mem_append_right _ List.mem_cons_self
  obtain ⟨c, hc, hwithin, _⟩ := h.object_within ho
  have hclive : c.region ∈ s.heap.live :=
    h.mem_live.mpr (List.mem_append_left _ (List.mem_map_of_mem hc))
  have hregion : Block.region ⟨o.addr, cells⟩ = o.region := by
    rw [Block.region, hlen]
    rfl
  have hmap : (newer ++ ⟨o.addr, cells⟩ :: older).map Block.region = v.objects.map Block.region := by
    rw [hobjects, List.map_append, List.map_append, List.map_cons, List.map_cons, hregion]
  have hapart := h.objects_apart
  rw [hobjects, List.map_append, List.map_cons, List.pairwise_append, List.pairwise_cons] at hapart
  have hkeep : ∀ b : Block κ, s.heap.Holds b → b.region.Apart o.region →
      (s.heap.write o.addr cells).Holds b := by
    intro b hold hb
    apply hold.write_of_apart
    rw [hlen]
    exact hb
  have hold : ∀ b ∈ newer ++ older, b ∈ v.objects ∧ b.region.Apart o.region := by
    intro b hb
    rw [hobjects]
    rcases List.mem_append.mp hb with hb | hb
    · exact ⟨List.mem_append_left _ hb,
        hapart.2.2 _ (List.mem_map_of_mem hb) _ List.mem_cons_self⟩
    · exact ⟨List.mem_append_right _ (List.mem_cons_of_mem _ hb),
        (hapart.2.1.1 _ (List.mem_map_of_mem hb)).symm⟩
  have hsame : ∀ b ∈ newer ++ ⟨o.addr, cells⟩ :: older,
      b = ⟨o.addr, cells⟩ ∨ b ∈ newer ++ older := by
    intro b hb
    rcases List.mem_append.mp hb with hb | hb
    · exact Or.inr (List.mem_append_left _ hb)
    · rcases List.mem_cons.mp hb with hb | hb
      · exact Or.inl hb
      · exact Or.inr (List.mem_append_right _ hb)
  have hgrowing : Region.Apart ⟨s.h.objectBase, v.growing.length⟩ o.region := by
    have hnext := h.next
    have hle := h.next_le
    exact ((h.top_apart (Nat.le_refl _) (by omega)).1 o ho).symm
  refine ⟨if_pos ⟨c.region, hclive, by rw [hlen]; exact hwithin⟩, h.alignment, h.mask, ?_, h.limit,
    h.next, h.next_le, ?_, h.valid.congr rfl, h.live, ?_, hkeep _ h.growing hgrowing, ?_⟩
  · rw [hmap]
    exact h.stack
  · intro hmaybe c' hc' b hb hin
    rcases hsame b hb with rfl | hb
    · have hne := h.nonempty hmaybe c' hc' o ho hin
      intro hnil
      rw [show cells = [] from hnil, List.length_nil] at hlen
      exact hne (List.length_eq_zero_iff.mp hlen.symm)
    · exact h.nonempty hmaybe c' hc' b (hold b hb).1 hin
  · intro b hb
    rcases hsame b hb with rfl | hb
    · exact Heap.read_write _ _ _
    · exact hkeep b (h.objects b (hold b hb).1) (hold b hb).2
  · intro b hb
    exact hkeep b (h.outs b hb)
      ((h.chunk_apart_out hc hb).symm.of_within (Region.Within.refl _) hwithin)

/-- Writing into the growing object. -/
theorem storeGrowing_ok (h : Layout abi k outs s v) {xs ys zs cells : List κ}
    (hgrowing : v.growing = xs ++ ys ++ zs) (hlen : cells.length = ys.length) :
    s.heap.store (s.h.objectBase + xs.length) cells =
        .ok (s.heap.write (s.h.objectBase + xs.length) cells) ∧
      Layout abi k outs ⟨s.heap.write (s.h.objectBase + xs.length) cells, s.h⟩
        ⟨v.objects, xs ++ cells ++ zs⟩ := by
  have hnext := h.next
  have hle := h.next_le
  have htotal : v.growing.length = xs.length + cells.length + zs.length := by
    rw [hgrowing, List.length_append, List.length_append, hlen]
  obtain ⟨hobjects, houts, hcovers⟩ := @Layout.top_apart _ _ _ _ _ _ h (s.h.objectBase + xs.length)
    cells.length (Nat.le_add_right _ _) (by omega)
  have hold := h.growing
  rw [hgrowing] at hold
  refine ⟨if_pos hcovers, h.alignment, h.mask, h.stack, h.limit, ?_, hle, h.nonempty,
    h.valid.congr rfl, h.live, ?_, hold.write_within hlen, ?_⟩
  · show s.h.nextFree = s.h.objectBase + (xs ++ cells ++ zs).length
    rw [List.length_append, List.length_append]
    omega
  · exact fun o ho => (h.objects o ho).write_of_apart (hobjects o ho)
  · exact fun b hb => (h.outs b hb).write_of_apart (houts b hb)

/-- Reading a finished object. -/
theorem loadObject_ok (h : Layout abi k outs s v) {o : Block κ} (ho : o ∈ v.objects) :
    s.heap.load o.addr o.cells.length = .ok o.cells := by
  obtain ⟨c, hc, hwithin, _⟩ := h.object_within ho
  unfold Heap.load
  rw [if_pos ⟨c.region, h.mem_live.mpr (List.mem_append_left _ (List.mem_map_of_mem hc)), hwithin⟩]
  exact congrArg Except.ok (h.objects o ho)

/-- **`_obstack_begin`**, for a chunk with room for the header. -/
theorem beginWorker_spec {heap : Heap κ} {size alignment : Nat} (hk : k ≤ abi.bits)
    (halignment : (if alignment = 0 then 2 ^ abi.alignmentLog else alignment) = 2 ^ k)
    (hsize : abi.contents + (2 ^ k - 1) ≤ (if size = 0 then defaultSize abi else size))
    (hvalid : heap.Valid abi.bits) (hlive : heap.live.Perm (outs.map Block.region))
    (houts : ∀ b ∈ outs, heap.Holds b) :
    Yields (fun s' => Layout abi k outs s' ⟨[], []⟩) (beginWorker abi sys heap size alignment) := by
  have hpos := abi.contents_pos
  unfold beginWorker
  dsimp only
  rw [halignment]
  generalize (if size = 0 then defaultSize abi else size) = size at hsize
  unfold callChunkfun
  cases hmalloc : sys.malloc heap size with
  | none => exact Yields.exhausted
  | some out =>
      have halloc := @sys.malloc_spec heap size out.1 out.2 hvalid (by omega) hmalloc
      have hword : out.1 + size < 2 ^ abi.bits := halloc.fits.limit_lt
      have hlo := le_alignUp k (out.1 + abi.contents)
      have hhi := alignUp_le k (out.1 + abi.contents)
      have hself : (⟨out.1, size⟩ : Region) ∈ out.2.live := by
        rw [halloc.live]
        exact List.mem_cons_self
      have hheader : storeHeader abi out.2 out.1 = .ok () := by
        refine if_pos ⟨⟨out.1, size⟩, hself, Nat.le_refl _, ?_⟩
        show out.1 + abi.contents ≤ out.1 + size
        omega
      have hbase : firstObject abi out.1 (2 ^ k - 1) = alignUp k (out.1 + abi.contents) := by
        rw [firstObject, Abi.ptrAlign_eq hk (by omega)]
      show Yields _ (storeHeader abi out.2 out.1 >>= _)
      rw [hheader, hbase]
      refine .ok ⟨hk, rfl, ?_, ?_, rfl, ?_, ?_, halloc.valid hvalid, ?_, ?_, rfl, ?_⟩
      · refine @Stack.bottom abi k ⟨out.1, out.1 + size⟩ ?_
        show alignUp k (out.1 + abi.contents) ≤ out.1 + size
        omega
      · intro c hc
        rw [← Option.some.inj hc]
      · show alignUp k (out.1 + abi.contents) ≤ out.1 + size
        omega
      · exact fun _ _ _ o ho => absurd ho List.not_mem_nil
      · show out.2.live.Perm (Chunk.region ⟨out.1, out.1 + size⟩ :: outs.map Block.region)
        rw [halloc.live, Chunk.region, Nat.add_sub_cancel_left]
        exact hlive.cons _
      · exact fun o ho => absurd ho List.not_mem_nil
      · intro b hb
        have hblive : b.region ∈ heap.live := hlive.mem_iff.mpr (List.mem_map_of_mem hb)
        exact halloc.holds hblive (Region.Within.refl _) (houts b hb)

/-- **`obstack_init`.** -/
theorem init_spec {heap : Heap κ} (hvalid : heap.Valid abi.bits)
    (hlive : heap.live.Perm (outs.map Block.region)) (houts : ∀ b ∈ outs, heap.Holds b) :
    Yields (fun s' => Layout abi abi.alignmentLog outs s' ⟨[], []⟩) (init abi sys heap) := by
  have hlog := abi.alignmentLog_le
  have hbits := abi.bits_ge
  have hheader := abi.contents_le
  have hpow : 2 ^ abi.alignmentLog ≤ 2 ^ 6 := Nat.pow_le_pow_right (by decide) hlog
  have hsize : abi.contents + (2 ^ abi.alignmentLog - 1) ≤ defaultSize abi := by
    have hrounding := abi.defaultRounding_le
    unfold defaultSize
    dsimp only
    have hextra := @Nat.and_le_left
      ((12 + abi.defaultRounding - 1 &&& abi.complement (abi.defaultRounding - 1)) + 4 +
        abi.defaultRounding - 1) (abi.complement (abi.defaultRounding - 1))
    have hinner := @Nat.and_le_left (12 + abi.defaultRounding - 1)
      (abi.complement (abi.defaultRounding - 1))
    omega
  exact beginWorker_spec sys (by omega) (if_pos rfl) (by rw [if_pos rfl]; exact hsize) hvalid hlive
    houts

end Operations

end ObstackC
