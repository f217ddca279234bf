import Mathlib.Algebra.Ring.Int.Defs
import Mathlib.Algebra.Ring.Nat
import Mathlib.Data.List.Basic
import Mathlib.Data.List.Pairwise
import Mathlib.Data.List.Perm.Basic
import Mathlib.Tactic.Common

/-!
# Memory in blocks from a general allocator

Addresses are numbers, memory is a function of them, and the heap knows which
regions an allocator has handed out.  What a single address holds is left open
(`κ`), so that a client may keep bytes there, or pieces of larger values.

An `Allocator` is `malloc` and `free` with what their documentation promises:
a new region lies apart from the live ones, and neither call touches a region
that stays live.  What happens elsewhere, the allocator's own bookkeeping among
it, is open.

A function on memory ends with a result or with an `Exit`.  `Yields P r` says
that `r` is a result for which `P` holds, unless memory was exhausted: the
function neither aborts nor does what the language leaves undefined.
-/

namespace HeapBlocks

/-- The ways out of a function other than returning. -/
inductive Exit
  | memoryExhausted | abort | undefined
  deriving DecidableEq, Repr

section Yields

variable {α β : Type}

/-- A result for which `P` holds, unless memory was exhausted. -/
inductive Yields (P : α → Prop) : Except Exit α → Prop
  | ok {a : α} (h : P a) : Yields P (.ok a)
  | exhausted : Yields P (.error .memoryExhausted)

/-- One function after the other. -/
theorem Yields.bind {P : α → Prop} {Q : β → Prop} {r : Except Exit α} {f : α → Except Exit β}
    (hr : Yields P r) (hf : ∀ a, P a → Yields Q (f a)) : Yields Q (r >>= f) := by
  cases hr with
  | ok h => exact hf _ h
  | exhausted => exact .exhausted

/-- A weaker promise. -/
theorem Yields.mono {P Q : α → Prop} {r : Except Exit α} (hr : Yields P r)
    (h : ∀ a, P a → Q a) : Yields Q r := by
  cases hr with
  | ok hP => exact .ok (h _ hP)
  | exhausted => exact .exhausted

end Yields

/-- A stretch of addresses. -/
structure Region where
  addr : Nat
  size : Nat
  deriving DecidableEq, Repr

namespace Region

/-- The first address behind it. -/
def limit (r : Region) : Nat := r.addr + r.size

/-- No address in common. -/
def Apart (r q : Region) : Prop := r.limit ≤ q.addr ∨ q.limit ≤ r.addr

theorem Apart.symm {r q : Region} (h : r.Apart q) : q.Apart r := Or.symm h

instance : Std.Symm Apart := ⟨fun _ _ h => h.symm⟩

/-- One region inside another. -/
def Within (r q : Region) : Prop := q.addr ≤ r.addr ∧ r.limit ≤ q.limit

instance (r q : Region) : Decidable (r.Within q) := inferInstanceAs (Decidable (_ ∧ _))

/-- A region that is not empty is not apart from itself. -/
theorem Apart.ne {r q : Region} (h : r.Apart q) (hpos : 0 < r.size) : r ≠ q := by
  rintro rfl
  unfold Apart limit at h
  omega

/-- What lies in regions that are apart is apart. -/
theorem Apart.of_within {r r' q q' : Region} (h : r.Apart q) (hr : r'.Within r)
    (hq : q'.Within q) : r'.Apart q' := by
  have hr2 := hr.2
  have hq2 := hq.2
  rcases h with h | h
  · exact Or.inl (Nat.le_trans hr2 (Nat.le_trans h hq.1))
  · exact Or.inr (Nat.le_trans hq2 (Nat.le_trans h hr.1))

theorem Within.refl (r : Region) : r.Within r := ⟨Nat.le_refl _, Nat.le_refl _⟩

theorem Within.trans {r q p : Region} (hrq : r.Within q) (hqp : q.Within p) : r.Within p :=
  ⟨Nat.le_trans hqp.1 hrq.1, Nat.le_trans hrq.2 hqp.2⟩

end Region

/-- A stretch of addresses with what it holds. -/
structure Block (κ : Type) where
  addr : Nat
  cells : List κ

namespace Block

variable {κ : Type}

def limit (b : Block κ) : Nat := b.addr + b.cells.length

/-- The addresses of a block. -/
def region (b : Block κ) : Region := ⟨b.addr, b.cells.length⟩

@[simp] theorem region_addr (b : Block κ) : b.region.addr = b.addr := rfl

@[simp] theorem region_limit (b : Block κ) : b.region.limit = b.limit := rfl

end Block

/-- Memory and the regions that are allocated. -/
structure Heap (κ : Type) where
  mem : Nat → κ
  live : List Region

namespace Heap

variable {κ : Type}

/-- What `n` addresses from `addr` on hold. -/
def read (heap : Heap κ) (addr n : Nat) : List κ := (List.range n).map fun i => heap.mem (addr + i)

/-- Memory with `cells` from `addr` on. -/
def write (heap : Heap κ) (addr : Nat) (cells : List κ) : Heap κ :=
  { heap with mem := fun a =>
      match cells[a - addr]? with
      | some c => if addr ≤ a then c else heap.mem a
      | none => heap.mem a }

/-- The stretch lies in an allocated region. -/
def Covers (heap : Heap κ) (addr n : Nat) : Prop := ∃ r ∈ heap.live, Region.Within ⟨addr, n⟩ r

instance (heap : Heap κ) (addr n : Nat) : Decidable (heap.Covers addr n) :=
  inferInstanceAs (Decidable (∃ _ ∈ _, _))

/-- Read allocated memory. -/
def load (heap : Heap κ) (addr n : Nat) : Except Exit (List κ) :=
  if heap.Covers addr n then .ok (heap.read addr n) else .error .undefined

/-- Write allocated memory. -/
def store (heap : Heap κ) (addr : Nat) (cells : List κ) : Except Exit (Heap κ) :=
  if heap.Covers addr cells.length then .ok (heap.write addr cells) else .error .undefined

/-- The block is in memory. -/
def Holds (heap : Heap κ) (b : Block κ) : Prop := heap.read b.addr b.cells.length = b.cells

@[simp] theorem length_read (heap : Heap κ) (addr n : Nat) : (heap.read addr n).length = n := by
  rw [read, List.length_map, List.length_range]

@[simp] theorem write_live (heap : Heap κ) (addr : Nat) (cells : List κ) :
    (heap.write addr cells).live = heap.live := rfl

/-- Reading depends on the addresses that are read. -/
theorem read_congr {heap heap' : Heap κ} {addr n : Nat}
    (h : ∀ a, addr ≤ a → a < addr + n → heap'.mem a = heap.mem a) :
    heap'.read addr n = heap.read addr n := by
  unfold read
  apply List.map_congr_left
  intro i hi
  have hlt := List.mem_range.mp hi
  exact h _ (Nat.le_add_right _ _) (Nat.add_lt_add_left hlt addr)

/-- Two stretches, one behind the other. -/
theorem read_append (heap : Heap κ) (addr m n : Nat) :
    heap.read addr (m + n) = heap.read addr m ++ heap.read (addr + m) n := by
  unfold read
  rw [List.range_add, List.map_append, List.map_map]
  congr 1
  apply List.map_congr_left
  intro i _
  rw [Function.comp_apply, Nat.add_assoc]

/-- Behind a write the cells that it does not reach are what they were. -/
theorem write_mem_of_apart (heap : Heap κ) {addr a : Nat} {cells : List κ}
    (h : a < addr ∨ addr + cells.length ≤ a) : (heap.write addr cells).mem a = heap.mem a := by
  unfold write
  dsimp only
  split
  · next c hc =>
      have hlt := (List.getElem?_eq_some_iff.mp hc).1
      rw [if_neg (by omega)]
  · rfl

/-- What was written is read back. -/
theorem read_write (heap : Heap κ) (addr : Nat) (cells : List κ) :
    (heap.write addr cells).read addr cells.length = cells := by
  apply List.ext_getElem (length_read _ _ _)
  intro i hi hi'
  simp only [read, List.getElem_map, List.getElem_range, write, Nat.add_sub_cancel_left,
    List.getElem?_eq_getElem hi', Nat.le_add_right, if_true]

/-- Writing elsewhere changes nothing. -/
theorem read_write_of_apart (heap : Heap κ) {addr n dest : Nat} {cells : List κ}
    (h : Region.Apart ⟨addr, n⟩ ⟨dest, cells.length⟩) :
    (heap.write dest cells).read addr n = heap.read addr n := by
  apply read_congr
  intro a hlo hhi
  apply write_mem_of_apart
  simp only [Region.Apart, Region.limit] at h
  omega

/-- Memory that is the same where the block lies holds the block. -/
theorem Holds.congr {heap heap' : Heap κ} {b : Block κ} (h : heap.Holds b)
    (hmem : ∀ a, b.addr ≤ a → a < b.limit → heap'.mem a = heap.mem a) : heap'.Holds b :=
  (read_congr hmem).trans h

/-- **The frame of a write**: a block apart from it holds what it held. -/
theorem Holds.write_of_apart {heap : Heap κ} {b : Block κ} (h : heap.Holds b) {dest : Nat}
    {cells : List κ} (hapart : b.region.Apart ⟨dest, cells.length⟩) :
    (heap.write dest cells).Holds b :=
  (read_write_of_apart heap hapart).trans h

/-- A block that is extended by what lies behind it. -/
theorem Holds.append {heap : Heap κ} {addr : Nat} {xs ys : List κ}
    (hxs : heap.Holds ⟨addr, xs⟩) (hys : heap.Holds ⟨addr + xs.length, ys⟩) :
    heap.Holds ⟨addr, xs ++ ys⟩ := by
  unfold Holds at hxs hys ⊢
  dsimp only at hxs hys ⊢
  rw [List.length_append, read_append, hxs, hys]

/-- The two parts of a block. -/
theorem Holds.split {heap : Heap κ} {addr : Nat} {xs ys : List κ}
    (h : heap.Holds ⟨addr, xs ++ ys⟩) :
    heap.Holds ⟨addr, xs⟩ ∧ heap.Holds ⟨addr + xs.length, ys⟩ := by
  unfold Holds at h ⊢
  dsimp only at h ⊢
  rw [List.length_append, read_append] at h
  exact List.append_inj h (length_read _ _ _)

/-- Writing into a block. -/
theorem Holds.write_within {heap : Heap κ} {addr : Nat} {xs ys zs new : List κ}
    (h : heap.Holds ⟨addr, xs ++ ys ++ zs⟩) (hlen : new.length = ys.length) :
    (heap.write (addr + xs.length) new).Holds ⟨addr, xs ++ new ++ zs⟩ := by
  obtain ⟨hxy, hz⟩ := h.split
  obtain ⟨hx, _⟩ := hxy.split
  have hx' : (heap.write (addr + xs.length) new).Holds ⟨addr, xs⟩ := by
    apply hx.write_of_apart
    left
    exact Nat.le_refl _
  have hz' : (heap.write (addr + xs.length) new).Holds ⟨addr + (xs ++ new).length, zs⟩ := by
    rw [List.length_append, hlen, ← List.length_append]
    apply hz.write_of_apart
    right
    simp only [Region.limit, Block.region, List.length_append]
    omega
  have hy' : (heap.write (addr + xs.length) new).Holds ⟨addr + xs.length, new⟩ := read_write _ _ _
  exact (hx'.append hy').append hz'

/-- Where an allocator may put a region: not at NULL, not up to the last address,
and no larger than `PTRDIFF_MAX`. -/
structure Fits (bits : Nat) (r : Region) : Prop where
  addr_pos : 0 < r.addr
  size_pos : 0 < r.size
  size_lt : r.size < 2 ^ (bits - 1)
  limit_lt : r.limit < 2 ^ bits

/-- The regions of a heap. -/
structure Valid (bits : Nat) (heap : Heap κ) : Prop where
  apart : heap.live.Pairwise Region.Apart
  fits : ∀ r ∈ heap.live, Fits bits r

/-- Two regions of a heap are apart or the same. -/
theorem Valid.apart_of_ne {bits : Nat} {heap : Heap κ} (h : heap.Valid bits) {r q : Region}
    (hr : r ∈ heap.live) (hq : q ∈ heap.live) (hne : r ≠ q) : r.Apart q :=
  h.apart.forall hr hq hne

/-- Whether memory is valid is a matter of what is allocated. -/
theorem Valid.congr {bits : Nat} {heap heap' : Heap κ} (h : heap.Valid bits)
    (hlive : heap'.live = heap.live) : heap'.Valid bits := by
  refine ⟨?_, ?_⟩
  · rw [hlive]
    exact h.apart
  · rw [hlive]
    exact h.fits

/-- `heap'` is `heap` with one more region. -/
structure Allocated (bits : Nat) (heap : Heap κ) (r : Region) (heap' : Heap κ) : Prop where
  live : heap'.live = r :: heap.live
  fits : Fits bits r
  apart : ∀ q ∈ heap.live, r.Apart q
  kept : ∀ q ∈ heap.live, ∀ a, q.addr ≤ a → a < q.limit → heap'.mem a = heap.mem a

/-- `heap'` is `heap` with one region less. -/
structure Released (heap : Heap κ) (r : Region) (heap' : Heap κ) : Prop where
  live : heap'.live = heap.live.erase r
  kept : ∀ q ∈ heap.live, q ≠ r → ∀ a, q.addr ≤ a → a < q.limit → heap'.mem a = heap.mem a

/-- An allocation leaves valid memory valid. -/
theorem Allocated.valid {bits : Nat} {heap heap' : Heap κ} {r : Region}
    (h : Allocated bits heap r heap') (hvalid : heap.Valid bits) : heap'.Valid bits := by
  refine ⟨?_, ?_⟩
  · rw [h.live]
    exact List.Pairwise.cons h.apart hvalid.apart
  · intro q hq
    rw [h.live] at hq
    rcases List.mem_cons.mp hq with rfl | hq
    · exact h.fits
    · exact hvalid.fits q hq

/-- A release too. -/
theorem Released.valid {bits : Nat} {heap heap' : Heap κ} {r : Region}
    (h : Released heap r heap') (hvalid : heap.Valid bits) : heap'.Valid bits := by
  have hsub : ∀ q ∈ heap'.live, q ∈ heap.live := by
    intro q hq
    rw [h.live] at hq
    exact List.mem_of_mem_erase hq
  refine ⟨?_, fun q hq => hvalid.fits q (hsub q hq)⟩
  rw [h.live]
  exact hvalid.apart.sublist List.erase_sublist

/-- The blocks in live regions are kept by an allocation. -/
theorem Allocated.holds {bits : Nat} {heap heap' : Heap κ} {r q : Region} {b : Block κ}
    (h : Allocated bits heap r heap') (hq : q ∈ heap.live) (hb : b.region.Within q)
    (hold : heap.Holds b) : heap'.Holds b :=
  hold.congr fun a hlo hhi => h.kept q hq a (Nat.le_trans hb.1 hlo) (Nat.lt_of_lt_of_le hhi hb.2)

/-- A release keeps the blocks in the other regions. -/
theorem Released.holds {heap heap' : Heap κ} {r q : Region} {b : Block κ}
    (h : Released heap r heap') (hq : q ∈ heap.live) (hne : q ≠ r) (hb : b.region.Within q)
    (hold : heap.Holds b) : heap'.Holds b :=
  hold.congr fun a hlo hhi =>
    h.kept q hq hne a (Nat.le_trans hb.1 hlo) (Nat.lt_of_lt_of_le hhi hb.2)

/-- The regions that are left. -/
theorem Released.perm {heap heap' : Heap κ} {r : Region} {rest : List Region}
    (h : Released heap r heap') (hlive : heap.live.Perm (r :: rest)) : heap'.live.Perm rest := by
  rw [h.live]
  have herase := hlive.erase r
  rwa [List.erase_cons_head] at herase

end Heap

/-- `malloc` and `free`.  A request of more than `PTRDIFF_MAX` bytes is refused. -/
structure Allocator (κ : Type) (bits : Nat) where
  malloc : Heap κ → Nat → Option (Nat × Heap κ)
  free : Heap κ → Nat → Heap κ
  malloc_spec : ∀ {heap : Heap κ} {size addr : Nat} {heap' : Heap κ}, heap.Valid bits → 0 < size →
    malloc heap size = some (addr, heap') → heap.Allocated bits ⟨addr, size⟩ heap'
  free_spec : ∀ {heap : Heap κ} {r : Region}, heap.Valid bits → r ∈ heap.live →
    heap.Released r (free heap r.addr)

namespace Allocator

variable {κ : Type} {bits : Nat}

/-- `free` is for regions that are allocated. -/
def release (sys : Allocator κ bits) (heap : Heap κ) (addr : Nat) : Except Exit (Heap κ) :=
  if ∃ r ∈ heap.live, r.addr = addr then .ok (sys.free heap addr) else .error .undefined

/-- What is allocated may be released. -/
theorem release_eq (sys : Allocator κ bits) {heap : Heap κ} {r : Region} (hr : r ∈ heap.live) :
    sys.release heap r.addr = .ok (sys.free heap r.addr) :=
  if_pos ⟨r, hr, rfl⟩

/-- Giving back one of the regions: the others stay, and the blocks in them. -/
theorem release_spec (sys : Allocator κ bits) {heap : Heap κ} {r : Region} {rest : List Region}
    (hvalid : heap.Valid bits) (hlive : heap.live.Perm (r :: rest)) :
    ∃ heap', sys.release heap r.addr = .ok heap' ∧ heap'.Valid bits ∧ heap'.live.Perm rest ∧
      ∀ b : Block κ, (∃ q ∈ rest, b.region.Within q) → heap.Holds b → heap'.Holds b := by
  have hr : r ∈ heap.live := hlive.mem_iff.mpr List.mem_cons_self
  have hreleased := sys.free_spec hvalid hr
  refine ⟨_, sys.release_eq hr, hreleased.valid hvalid, hreleased.perm hlive, ?_⟩
  rintro b ⟨q, hq, hb⟩ hold
  have hapart := List.pairwise_cons.mp (hlive.pairwise hvalid.apart Region.Apart.symm)
  have hne : r ≠ q := (hapart.1 q hq).ne (hvalid.fits r hr).size_pos
  exact hreleased.holds (hlive.mem_iff.mpr (List.mem_cons_of_mem r hq)) hne.symm hb hold

end Allocator

/-! ## An allocator that places one region behind the other -/

section Bump

variable {κ : Type}

/-- The end of the last region. -/
def Heap.top (heap : Heap κ) : Nat := heap.live.foldr (fun r m => max r.limit m) 1

/-- Everything lies below the top. -/
theorem Heap.limit_le_top {heap : Heap κ} {r : Region} (hr : r ∈ heap.live) :
    r.limit ≤ heap.top := by
  unfold top
  generalize heap.live = regions at hr
  induction regions with
  | nil => cases hr
  | cons q rest ih =>
      rw [List.foldr_cons]
      rcases List.mem_cons.mp hr with rfl | hr
      · exact Nat.le_max_left _ _
      · exact Nat.le_trans (ih hr) (Nat.le_max_right _ _)

/-- The top is above the address 0. -/
theorem Heap.top_pos (heap : Heap κ) : 0 < heap.top := by
  unfold top
  induction heap.live with
  | nil => exact Nat.zero_lt_one
  | cons q rest ih =>
      rw [List.foldr_cons]
      exact Nat.lt_of_lt_of_le ih (Nat.le_max_right _ _)

/-- The region at an address is the only one there. -/
theorem eraseP_addr {r : Region} (regions : List Region)
    (h : ∀ q ∈ regions, q.addr = r.addr → q = r) :
    (regions.eraseP fun q => q.addr == r.addr) = regions.erase r := by
  induction regions with
  | nil => rfl
  | cons q rest ih =>
      by_cases hq : q = r
      · subst hq
        rw [List.eraseP_cons, beq_self_eq_true, cond_true, List.erase_cons_head]
      · have haddr : (q.addr == r.addr) = false := by
          rw [beq_eq_false_iff_ne]
          exact fun heq => hq (h q List.mem_cons_self heq)
        rw [List.eraseP_cons, haddr, cond_false, List.erase_cons_tail (by simpa using hq),
          ih fun p hp => h p (List.mem_cons_of_mem q hp)]

/-- Place a region behind the last one. -/
def bump (bits : Nat) (heap : Heap κ) (size : Nat) : Option (Nat × Heap κ) :=
  if size < 2 ^ (bits - 1) ∧ heap.top + size < 2 ^ bits then
    some (heap.top, { heap with live := ⟨heap.top, size⟩ :: heap.live })
  else none

/-- Forget the region at an address. -/
def forget (heap : Heap κ) (addr : Nat) : Heap κ :=
  { heap with live := heap.live.eraseP fun q => q.addr == addr }

/-- To go up is an allocation. -/
theorem bump_spec {bits : Nat} {heap heap' : Heap κ} {size addr : Nat} (hsize : 0 < size)
    (h : bump bits heap size = some (addr, heap')) :
    heap.Allocated bits ⟨addr, size⟩ heap' := by
  unfold bump at h
  split at h
  · next hfits =>
      obtain ⟨rfl, rfl⟩ := Prod.mk.inj (Option.some.inj h)
      exact ⟨rfl, ⟨heap.top_pos, hsize, hfits.1, hfits.2⟩,
        fun q hq => Or.inr (Heap.limit_le_top hq), fun _ _ _ _ _ => rfl⟩
  · cases h

/-- To forget is a release. -/
theorem forget_spec {bits : Nat} {heap : Heap κ} {r : Region} (hvalid : heap.Valid bits)
    (hr : r ∈ heap.live) : heap.Released r (forget heap r.addr) := by
  refine ⟨eraseP_addr heap.live fun q hq haddr => ?_, fun _ _ _ _ _ _ => rfl⟩
  by_contra hne
  have hapart := hvalid.apart_of_ne hq hr hne
  have hqpos := (hvalid.fits q hq).size_pos
  have hrpos := (hvalid.fits r hr).size_pos
  unfold Region.Apart Region.limit at hapart
  omega

/-- The allocator that never uses an address twice while a higher one is taken. -/
def bumpAllocator (κ : Type) (bits : Nat) : Allocator κ bits where
  malloc := bump bits
  free := forget
  malloc_spec := fun _ hsize h => bump_spec hsize h
  free_spec := fun hvalid hr => forget_spec hvalid hr

end Bump

/-! ## Addresses that are multiples of a power of two -/

/-- `p` rounded up to a multiple of `2 ^ k`. -/
def alignUp (k p : Nat) : Nat := (p + (2 ^ k - 1)) / 2 ^ k * 2 ^ k

/-- **Rounding up**: not below the number, -/
theorem le_alignUp (k p : Nat) : p ≤ alignUp k p := by
  have hpos : 0 < 2 ^ k := Nat.two_pow_pos k
  have hdiv := Nat.div_add_mod (p + (2 ^ k - 1)) (2 ^ k)
  have hmod := Nat.mod_lt (p + (2 ^ k - 1)) hpos
  rw [Nat.mul_comm] at hdiv
  unfold alignUp
  omega

/-- less than a step above it, -/
theorem alignUp_le (k p : Nat) : alignUp k p ≤ p + (2 ^ k - 1) :=
  Nat.div_mul_le_self _ _

/-- and a multiple of the step. -/
theorem dvd_alignUp (k p : Nat) : 2 ^ k ∣ alignUp k p := Nat.dvd_mul_left _ _

/-- Clearing the low bits of a word. -/
theorem and_not_mask {bits k x : Nat} (hk : k ≤ bits) (hx : x < 2 ^ bits) :
    x &&& (2 ^ bits - 1 - (2 ^ k - 1)) = x / 2 ^ k * 2 ^ k := by
  have hpow : 2 ^ k ≤ 2 ^ bits := Nat.pow_le_pow_right (by decide) hk
  have hpos : 0 < 2 ^ k := Nat.two_pow_pos k
  have hmask : 2 ^ bits - 1 - (2 ^ k - 1) = 2 ^ bits - ((2 ^ k - 1) + 1) := by omega
  apply Nat.eq_of_testBit_eq
  intro i
  rw [Nat.testBit_and, hmask, Nat.testBit_two_pow_sub_succ (by omega), Nat.testBit_two_pow_sub_one,
    Nat.testBit_mul_two_pow, Nat.testBit_div_two_pow]
  by_cases hki : k ≤ i
  · have hadd : i - k + k = i := Nat.sub_add_cancel hki
    have hnot : ¬ i < k := Nat.not_lt.mpr hki
    by_cases hi : i < bits
    · simp [hki, hnot, hadd, hi]
    · have hzero : x.testBit i = false := by
        apply Nat.testBit_lt_two_pow
        exact Nat.lt_of_lt_of_le hx (Nat.pow_le_pow_right (by decide) (Nat.le_of_not_lt hi))
      simp [hki, hadd, hzero]
  · have hlt : i < k := Nat.lt_of_not_le hki
    simp [hki, hlt]

end HeapBlocks
