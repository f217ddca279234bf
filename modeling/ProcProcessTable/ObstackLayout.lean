import ProcProcessTable.Obstack

/-!
# Where an obstack keeps its objects

`Stack` relates the chain of chunks to the objects in them, newest first: in a
chunk the objects lie one behind the other, each rounded up to the next
multiple of the alignment unless the chunk ends before, and an older object is
in the same chunk or in one behind it in the chain.

The lemmas say what follows for the addresses: objects lie inside chunks
(`Stack.covered`), apart from each other (`Stack.apart`), on multiples of the
alignment unless they are empty (`Stack.aligned`), and cutting the stack at an
object leaves the chain from the object's chunk on (`Stack.cut`).
-/

namespace ObstackC

open HeapBlocks

namespace Abi

variable {abi : Abi}

theorem wrap_of_lt {n : Nat} (h : n < 2 ^ abi.bits) : abi.wrap n = n := Nat.mod_eq_of_lt h

theorem diff_of_le {p q : Nat} (hqp : q ≤ p) (hp : p < 2 ^ abi.bits) : abi.diff p q = p - q := by
  have hsum : p + 2 ^ abi.bits - q = p - q + 2 ^ abi.bits := by omega
  rw [diff, wrap, hsum, Nat.add_mod_right]
  exact Nat.mod_eq_of_lt (by omega)

/-- The difference to a higher address. -/
theorem diff_of_lt {p q : Nat} (hpq : p < q) (hq : q < 2 ^ abi.bits) :
    abi.diff p q = p + 2 ^ abi.bits - q :=
  Nat.mod_eq_of_lt (by omega)

theorem size_lt : 4096 < 2 ^ (abi.bits - 1) := by
  have hle : 2 ^ 15 ≤ 2 ^ (abi.bits - 1) :=
    Nat.pow_le_pow_right (by decide) (by have := abi.bits_ge; omega)
  omega

theorem two_pow_bits : 2 ^ abi.bits = 2 * 2 ^ (abi.bits - 1) := by
  have hbits : abi.bits = abi.bits - 1 + 1 := by
    have := abi.bits_ge
    omega
  conv_lhs => rw [hbits, Nat.pow_succ, Nat.mul_comm]

section

variable {k p : Nat} (hk : k ≤ abi.bits)

include hk

/-- `__PTR_ALIGN` rounds up. -/
theorem ptrAlign_eq (hp : p + (2 ^ k - 1) < 2 ^ abi.bits) :
    abi.ptrAlign p (2 ^ k - 1) = alignUp k p := by
  rw [ptrAlign, wrap_of_lt hp, complement, and_not_mask hk hp]
  rfl

/-- At the end of the address space it comes out as 0. -/
theorem ptrAlign_wrap (hp : p < 2 ^ abi.bits) (hover : 2 ^ abi.bits ≤ p + (2 ^ k - 1)) :
    abi.ptrAlign p (2 ^ k - 1) = 0 := by
  have hpow : 2 ^ k ≤ 2 ^ abi.bits := Nat.pow_le_pow_right (by decide) hk
  have hwrap : abi.wrap (p + (2 ^ k - 1)) = p + (2 ^ k - 1) - 2 ^ abi.bits := by
    rw [wrap, Nat.mod_eq_sub_mod hover]
    exact Nat.mod_eq_of_lt (by omega)
  rw [ptrAlign, hwrap, complement, and_not_mask hk (by omega),
    Nat.div_eq_of_lt (by omega), Nat.zero_mul]

/-- Rounded up, such an address is the end of the address space or lies behind
it. -/
theorem le_alignUp_of_over (hover : 2 ^ abi.bits ≤ p + (2 ^ k - 1)) :
    2 ^ abi.bits ≤ alignUp k p := by
  obtain ⟨q, hq⟩ := Nat.pow_dvd_pow 2 hk
  rw [alignUp, hq, Nat.mul_comm]
  apply Nat.mul_le_mul_right
  rw [Nat.le_div_iff_mul_le (Nat.two_pow_pos k), Nat.mul_comm, ← hq]
  exact hover

theorem ptrAlign_eq_of_lt (hlt : alignUp k p < 2 ^ abi.bits) :
    abi.ptrAlign p (2 ^ k - 1) = alignUp k p := by
  apply ptrAlign_eq hk
  by_contra hover
  have hend := le_alignUp_of_over hk (Nat.le_of_not_lt hover)
  omega

/-- **The clip of `obstack_finish`.**  The address is rounded up, but not beyond
the end of the chunk; where the sum wraps around, the comparison as offsets from
the chunk still finds it too far. -/
theorem clip_eq {addr limit : Nat} (haddr : 0 < addr) (hp : addr ≤ p) (hlimit : p ≤ limit)
    (hword : limit < 2 ^ abi.bits) :
    (if abi.diff limit addr < abi.diff (abi.ptrAlign p (2 ^ k - 1)) addr then limit
      else abi.ptrAlign p (2 ^ k - 1)) = min (alignUp k p) limit := by
  have hle := le_alignUp k p
  rw [diff_of_le (by omega) hword]
  by_cases hover : p + (2 ^ k - 1) < 2 ^ abi.bits
  · have hup := alignUp_le k p
    rw [ptrAlign_eq hk hover, diff_of_le (by omega) (by omega)]
    by_cases hlt : limit < alignUp k p
    · rw [if_pos (by omega), Nat.min_eq_right (Nat.le_of_lt hlt)]
    · rw [if_neg (by omega), Nat.min_eq_left (Nat.le_of_not_lt hlt)]
  · have hend := le_alignUp_of_over hk (Nat.le_of_not_lt hover)
    rw [ptrAlign_wrap hk (by omega) (Nat.le_of_not_lt hover), diff_of_lt haddr (by omega),
      if_pos (by omega), Nat.min_eq_right (by omega)]

end

end Abi

/-- The region a chunk was allocated as. -/
def Chunk.region (c : Chunk) : Region := ⟨c.addr, c.limit - c.addr⟩

/-- Where the objects of a chunk begin. -/
def Chunk.first (abi : Abi) (k : Nat) (c : Chunk) : Nat := alignUp k (c.addr + abi.contents)

theorem Chunk.addr_lt_first (abi : Abi) (k : Nat) (c : Chunk) : c.addr < c.first abi k := by
  have hle := le_alignUp k (c.addr + abi.contents)
  have hpos := abi.contents_pos
  unfold first
  omega

theorem Chunk.region_limit {c : Chunk} (h : c.addr ≤ c.limit) : c.region.limit = c.limit :=
  Nat.add_sub_cancel' h

/-- The chunks from the current one on, where the next object begins, and the
objects, newest first. -/
inductive Stack (abi : Abi) (k : Nat) : List Chunk → Nat → List Region → Prop
  | bottom {c : Chunk} : c.first abi k ≤ c.limit → Stack abi k [c] (c.first abi k) []
  | chunk {c : Chunk} {cs : List Chunk} {top : Nat} {objs : List Region} :
      Stack abi k cs top objs → c.first abi k ≤ c.limit →
        Stack abi k (c :: cs) (c.first abi k) objs
  | object {c : Chunk} {cs : List Chunk} {base size : Nat} {objs : List Region} :
      Stack abi k (c :: cs) base objs → base + size ≤ c.limit →
        Stack abi k (c :: cs) (min (alignUp k (base + size)) c.limit) (⟨base, size⟩ :: objs)

namespace Stack

variable {abi : Abi} {k : Nat} {c : Chunk} {cs : List Chunk} {top : Nat} {objs : List Region}

theorem chunks_ne_nil {chunks : List Chunk} (h : Stack abi k chunks top objs) :
    ∃ c cs, chunks = c :: cs := by
  cases h with
  | bottom _ => exact ⟨_, _, rfl⟩
  | chunk _ _ => exact ⟨_, _, rfl⟩
  | object _ _ => exact ⟨_, _, rfl⟩

/-- The next object begins in the current chunk. -/
theorem top_bounds (h : Stack abi k (c :: cs) top objs) : c.first abi k ≤ top ∧ top ≤ c.limit := by
  generalize hchunks : c :: cs = chunks at h
  induction h generalizing c cs with
  | bottom hfit =>
      obtain ⟨rfl, -⟩ := List.cons.inj hchunks
      exact ⟨Nat.le_refl _, hfit⟩
  | chunk _ hfit _ =>
      obtain ⟨rfl, -⟩ := List.cons.inj hchunks
      exact ⟨Nat.le_refl _, hfit⟩
  | @object c' cs' base size _ _ hfit ih =>
      obtain ⟨rfl, -⟩ := List.cons.inj hchunks
      have hbase := ih rfl
      have hup := le_alignUp k (base + size)
      omega

/-- It begins on a multiple of the alignment, unless the chunk is full. -/
theorem top_aligned (h : Stack abi k (c :: cs) top objs) : 2 ^ k ∣ top ∨ top = c.limit := by
  generalize hchunks : c :: cs = chunks at h
  cases h with
  | bottom _ => exact Or.inl (dvd_alignUp _ _)
  | chunk _ _ => exact Or.inl (dvd_alignUp _ _)
  | @object c' cs' base size _ _ _ =>
      obtain ⟨rfl, -⟩ := List.cons.inj hchunks
      rcases Nat.le_total (alignUp k (base + size)) c.limit with hle | hle
      · rw [Nat.min_eq_left hle]
        exact Or.inl (dvd_alignUp _ _)
      · exact Or.inr (Nat.min_eq_right hle)

/-- Every chunk has room for its header. -/
theorem first_le {chunks : List Chunk} (h : Stack abi k chunks top objs) :
    ∀ c ∈ chunks, c.first abi k ≤ c.limit := by
  induction h with
  | bottom hfit =>
      intro c hc
      rw [List.mem_singleton.mp hc]
      exact hfit
  | chunk _ hfit ih =>
      intro c hc
      rcases List.mem_cons.mp hc with rfl | hc
      · exact hfit
      · exact ih c hc
  | object _ _ ih => exact ih

/-- **Objects lie inside chunks**: in the current one below the place of the next
object, or in an older one. -/
theorem mem_bounds (h : Stack abi k (c :: cs) top objs) {o : Region} (ho : o ∈ objs) :
    (c.first abi k ≤ o.addr ∧ o.limit ≤ top) ∨
      ∃ c' ∈ cs, c'.first abi k ≤ o.addr ∧ o.limit ≤ c'.limit := by
  generalize hchunks : c :: cs = chunks at h
  induction h generalizing c cs with
  | bottom _ => cases ho
  | @chunk c₁ cs₁ top₁ objs₁ hstack _ ih =>
      obtain ⟨rfl, rfl⟩ := List.cons.inj hchunks
      obtain ⟨c₂, cs₂, rfl⟩ := hstack.chunks_ne_nil
      right
      rcases ih ho rfl with ⟨hlo, hhi⟩ | ⟨c', hc', hin⟩
      · exact ⟨c₂, List.mem_cons_self, hlo, Nat.le_trans hhi hstack.top_bounds.2⟩
      · exact ⟨c', List.mem_cons_of_mem _ hc', hin⟩
  | @object c₁ cs₁ base size objs₁ hstack hfit ih =>
      obtain ⟨rfl, rfl⟩ := List.cons.inj hchunks
      have hbase := hstack.top_bounds
      have hup := le_alignUp k (base + size)
      rcases List.mem_cons.mp ho with rfl | ho
      · left
        refine ⟨hbase.1, ?_⟩
        show base + size ≤ _
        omega
      · rcases ih ho rfl with ⟨hlo, hhi⟩ | hin
        · exact Or.inl ⟨hlo, by omega⟩
        · exact Or.inr hin

theorem covered {chunks : List Chunk} (h : Stack abi k chunks top objs) {o : Region}
    (ho : o ∈ objs) : ∃ c ∈ chunks, c.first abi k ≤ o.addr ∧ o.limit ≤ c.limit := by
  obtain ⟨c, cs, rfl⟩ := h.chunks_ne_nil
  rcases h.mem_bounds ho with ⟨hlo, hhi⟩ | ⟨c', hc', hin⟩
  · exact ⟨c, List.mem_cons_self, hlo, Nat.le_trans hhi h.top_bounds.2⟩
  · exact ⟨c', List.mem_cons_of_mem _ hc', hin⟩

/-- An object with bytes in it begins on a multiple of the alignment. -/
theorem aligned {chunks : List Chunk} (h : Stack abi k chunks top objs) :
    ∀ o ∈ objs, o.size = 0 ∨ 2 ^ k ∣ o.addr := by
  induction h with
  | bottom _ => exact fun o ho => absurd ho List.not_mem_nil
  | chunk _ _ ih => exact ih
  | @object c₁ cs₁ base size objs₁ hstack hfit ih =>
      intro o ho
      rcases List.mem_cons.mp ho with rfl | ho
      · rcases hstack.top_aligned with hdvd | hfull
        · exact Or.inr hdvd
        · left
          show size = 0
          omega
      · exact ih o ho

/-- What lies within a chunk, as regions. -/
theorem within_chunk {o : Region} (hlo : c.first abi k ≤ o.addr) (hhi : o.limit ≤ c.limit) :
    o.Within c.region := by
  have haddr := Chunk.addr_lt_first abi k c
  have hsize : o.addr ≤ o.limit := Nat.le_add_right _ _
  refine ⟨Nat.le_trans (Nat.le_of_lt haddr) hlo, ?_⟩
  rw [Chunk.region_limit (by omega)]
  exact hhi

/-- **Objects lie apart**, when the chunks do. -/
theorem apart {chunks : List Chunk} (h : Stack abi k chunks top objs)
    (hchunks : (chunks.map Chunk.region).Pairwise Region.Apart) : objs.Pairwise Region.Apart := by
  induction h with
  | bottom _ => exact List.Pairwise.nil
  | chunk _ _ ih => exact ih (List.pairwise_cons.mp hchunks).2
  | @object c₁ cs₁ base size objs₁ hstack hfit ih =>
      refine List.Pairwise.cons ?_ (ih hchunks)
      intro o ho
      rcases hstack.mem_bounds ho with ⟨_, hhi⟩ | ⟨c', hc', hlo, hhi⟩
      · exact Or.inr hhi
      · have hbase := hstack.top_bounds.1
        exact ((List.pairwise_cons.mp hchunks).1 _ (List.mem_map_of_mem hc')).of_within
          (within_chunk hbase hfit) (within_chunk hlo hhi)

/-- A chunk whose next object is its first one, and which holds no empty object,
holds no object. -/
theorem drop_chunk (h : Stack abi k (c :: cs) (c.first abi k) objs)
    (hempty : ∀ o ∈ objs, ¬ NotIn c o.addr → o.size ≠ 0) :
    (cs = [] ∧ objs = []) ∨ ∃ top, Stack abi k cs top objs := by
  generalize hchunks : c :: cs = chunks at h
  generalize htop : c.first abi k = top at h
  cases h with
  | bottom _ =>
      obtain ⟨rfl, rfl⟩ := List.cons.inj hchunks
      exact Or.inl ⟨rfl, rfl⟩
  | chunk hstack _ =>
      obtain ⟨rfl, rfl⟩ := List.cons.inj hchunks
      exact Or.inr ⟨_, hstack⟩
  | @object c₁ cs₁ base size objs₁ hstack hfit =>
      obtain ⟨rfl, rfl⟩ := List.cons.inj hchunks
      have hbase := hstack.top_bounds
      have haddr := Chunk.addr_lt_first abi k c
      have hup := le_alignUp k (base + size)
      have hin : ¬ NotIn c base := by
        unfold NotIn
        omega
      have hsize := hempty _ List.mem_cons_self hin
      dsimp only at hsize
      omega

/-- **Cutting the stack at an object** leaves the chain from its chunk on. -/
theorem cut {chunks : List Chunk} {newer older : List Region} {o : Region}
    (h : Stack abi k chunks top (newer ++ o :: older)) :
    ∃ above c cs, chunks = above ++ c :: cs ∧ Stack abi k (c :: cs) o.addr older ∧
      o.limit ≤ c.limit := by
  generalize hobjs : newer ++ o :: older = objs at h
  induction h generalizing newer with
  | bottom _ => exact absurd hobjs (List.append_ne_nil_of_right_ne_nil _ (List.cons_ne_nil _ _))
  | chunk _ _ ih =>
      obtain ⟨above, c', cs', rfl, hcut⟩ := ih hobjs
      exact ⟨_ :: above, c', cs', rfl, hcut⟩
  | @object c₁ cs₁ base size objs₁ hstack hfit ih =>
      cases newer with
      | nil =>
          obtain ⟨rfl, rfl⟩ := List.cons.inj hobjs
          exact ⟨[], c₁, cs₁, rfl, hstack, hfit⟩
      | cons o' newer => exact ih (List.cons.inj hobjs).2

end Stack

end ObstackC
