import ProcProcessTable.HeapBlocks

/-!
# os/obstack.c

The stack of objects that the Linux and Cygwin ports keep their strings in, as
the library builds it: a chain of chunks from `malloc`, the current one first,
and in the current chunk the object that is being grown.

Addresses and sizes are taken modulo `size_t` wherever the source computes in
it.  The header at the front of a chunk (`limit`, `prev`) is kept in the list
of chunks; `HeapBlocks.Heap.Covers` checks the store to it.  Every other store
goes to memory, and one outside the allocated regions is `Exit.undefined`.
-/

namespace ObstackC

open HeapBlocks

/-- What the library takes from the machine it is compiled for. -/
structure Abi where
  /-- bits of a `size_t` and of an address -/
  bits : Nat
  /-- `offsetof (struct _obstack_chunk, contents)` -/
  contents : Nat
  /-- `DEFAULT_ALIGNMENT` is this power of two -/
  alignmentLog : Nat
  /-- `DEFAULT_ROUNDING` -/
  defaultRounding : Nat
  bits_ge : 16 ≤ bits
  contents_pos : 0 < contents
  contents_le : contents ≤ 100
  alignmentLog_le : alignmentLog ≤ 6
  defaultRounding_le : defaultRounding ≤ 64

namespace Abi

variable (abi : Abi)

/-- A value as a `size_t`. -/
def wrap (n : Nat) : Nat := n % 2 ^ abi.bits

/-- The difference of two addresses as a `size_t`. -/
def diff (p q : Nat) : Nat := abi.wrap (p + 2 ^ abi.bits - q)

/-- `~n`. -/
def complement (n : Nat) : Nat := 2 ^ abi.bits - 1 - n

/-- `__PTR_ALIGN`, where addresses are aligned as integers. -/
def ptrAlign (p mask : Nat) : Nat := abi.wrap (p + mask) &&& abi.complement mask

end Abi

/-- `struct _obstack_chunk`, with the address it lies at. -/
structure Chunk where
  addr : Nat
  limit : Nat
  deriving DecidableEq, Repr

/-- `struct obstack`, for the interface without the extra argument: the chain of
chunks from `chunk` on, and the current object. -/
structure Obstack where
  chunkSize : Nat
  chunks : List Chunk
  objectBase : Nat
  nextFree : Nat
  chunkLimit : Nat
  alignmentMask : Nat
  maybeEmptyObject : Bool
  deriving DecidableEq, Repr

/-- Memory, and the obstack in it. -/
structure State (κ : Type) where
  heap : Heap κ
  h : Obstack

variable {κ : Type} (abi : Abi) (sys : Allocator κ abi.bits)

/-- `call_chunkfun`, and the handler that is called when it fails. -/
def callChunkfun (heap : Heap κ) (size : Nat) : Except Exit (Nat × Heap κ) :=
  match sys.malloc heap size with
  | none => .error .memoryExhausted
  | some out => .ok out

/-- The stores to `limit` and `prev`. -/
def storeHeader (heap : Heap κ) (chunk : Nat) : Except Exit Unit :=
  if heap.Covers chunk abi.contents then .ok () else .error .undefined

/-- Where the first object of a chunk begins. -/
def firstObject (chunk mask : Nat) : Nat := abi.ptrAlign (chunk + abi.contents) mask

/-- The chunk size for `size == 0`. -/
def defaultSize : Nat :=
  let low := abi.complement (abi.defaultRounding - 1)
  let extra := ((12 + abi.defaultRounding - 1 &&& low) + 4 + abi.defaultRounding - 1) &&& low
  4096 - extra

/-- `_obstack_begin_worker`. -/
def beginWorker (heap : Heap κ) (size alignment : Nat) : Except Exit (State κ) := do
  let alignment := if alignment = 0 then 2 ^ abi.alignmentLog else alignment
  let size := if size = 0 then defaultSize abi else size
  let (chunk, heap) ← callChunkfun abi sys heap size
  storeHeader abi heap chunk
  let base := firstObject abi chunk (alignment - 1)
  let limit := chunk + size
  .ok ⟨heap, ⟨size, [⟨chunk, limit⟩], base, base, limit, alignment - 1, false⟩⟩

/-- `obstack_init`. -/
def init (heap : Heap κ) : Except Exit (State κ) := beginWorker abi sys heap 0 0

/-- `obstack_object_size`. -/
def objectSize (h : Obstack) : Nat := abi.diff h.nextFree h.objectBase

/-- `obstack_room`. -/
def room (h : Obstack) : Nat := abi.diff h.chunkLimit h.nextFree

/-- The size `_obstack_newchunk` asks for; `none` where the sum overflows. -/
def newSize (h : Obstack) (length : Nat) : Option Nat :=
  let objSize := objectSize abi h
  let sum1 := abi.wrap (objSize + length)
  let sum2 := abi.wrap (sum1 + h.alignmentMask)
  let size := abi.wrap (sum2 + (objSize >>> 3) + 100)
  let size := if size < sum2 then sum2 else size
  let size := if size < h.chunkSize then h.chunkSize else size
  if objSize ≤ sum1 ∧ sum1 ≤ sum2 then some size else none

/-- The new current chunk, with the object moved into it. -/
def moveObject (s : State κ) (newChunk size : Nat) : Except Exit (State κ) := do
  storeHeader abi s.heap newChunk
  let objSize := objectSize abi s.h
  let objectBase := firstObject abi newChunk s.h.alignmentMask
  let object ← s.heap.load s.h.objectBase objSize
  let heap ← s.heap.store objectBase object
  .ok ⟨heap, { s.h with
    chunks := ⟨newChunk, newChunk + size⟩ :: s.h.chunks
    chunkLimit := newChunk + size
    objectBase := objectBase
    nextFree := objectBase + objSize
    maybeEmptyObject := false }⟩

/-- `_obstack_newchunk`.  The old chunk is given back when the object was all it
held. -/
def newchunk (s : State κ) (length : Nat) : Except Exit (State κ) :=
  match s.h.chunks with
  | [] => .error .undefined
  | oldChunk :: older => do
      let size ← match newSize abi s.h length with
        | some size => .ok size
        | none => .error .memoryExhausted
      let (newChunk, heap) ← callChunkfun abi sys s.heap size
      let s' ← moveObject abi ⟨heap, s.h⟩ newChunk size
      if !s.h.maybeEmptyObject &&
          s.h.objectBase == firstObject abi oldChunk.addr s.h.alignmentMask then do
        let heap ← sys.release s'.heap oldChunk.addr
        .ok ⟨heap, { s'.h with chunks := ⟨newChunk, newChunk + size⟩ :: older }⟩
      else .ok s'

/-- `obstack_make_room`, the first step of everything that grows the object. -/
def makeRoom (s : State κ) (length : Nat) : Except Exit (State κ) :=
  if room abi s.h < length then newchunk abi sys s length else .ok s

/-- `memcpy` to `next_free`, which is moved behind it. -/
def append (s : State κ) (cells : List κ) : Except Exit (State κ) := do
  let heap ← s.heap.store s.h.nextFree cells
  .ok ⟨heap, { s.h with nextFree := s.h.nextFree + cells.length }⟩

/-- `obstack_grow`. -/
def grow (s : State κ) (cells : List κ) : Except Exit (State κ) := do
  let s ← makeRoom abi sys s cells.length
  append s cells

/-- `obstack_1grow`. -/
def oneGrow (s : State κ) (datum : κ) : Except Exit (State κ) := do
  let s ← makeRoom abi sys s 1
  append s [datum]

/-- `obstack_blank`. -/
def blank (s : State κ) (length : Nat) : Except Exit (State κ) := do
  let s ← makeRoom abi sys s length
  .ok { s with h := { s.h with nextFree := s.h.nextFree + length } }

/-- `obstack_finish`: the address of the object, and the obstack behind it. -/
def finish (s : State κ) : Except Exit (Nat × State κ) :=
  match s.h.chunks with
  | [] => .error .undefined
  | chunk :: _ =>
      let value := s.h.objectBase
      let nextFree := abi.ptrAlign s.h.nextFree s.h.alignmentMask
      let nextFree :=
        if abi.diff s.h.chunkLimit chunk.addr < abi.diff nextFree chunk.addr then s.h.chunkLimit
        else nextFree
      .ok (value, { s with h := { s.h with
        maybeEmptyObject := s.h.maybeEmptyObject || s.h.nextFree == value
        nextFree := nextFree
        objectBase := nextFree } })

/-- `obstack_alloc`. -/
def alloc (s : State κ) (length : Nat) : Except Exit (Nat × State κ) := do
  let s ← blank abi sys s length
  finish abi s

/-- The condition of the loop of `_obstack_free`. -/
def NotIn (lp : Chunk) (obj : Nat) : Prop := obj ≤ lp.addr ∨ lp.limit < obj

instance (lp : Chunk) (obj : Nat) : Decidable (NotIn lp obj) :=
  inferInstanceAs (Decidable (_ ∨ _))

/-- The loop of `_obstack_free`: the chunks that are left, and whether there was
one to give back. -/
def freeLoop (obj : Nat) : List Chunk → Heap κ → Bool → Except Exit (List Chunk × Heap κ × Bool)
  | [], heap, freed => .ok ([], heap, freed)
  | lp :: plp, heap, freed =>
      if NotIn lp obj then do
        let heap ← sys.release heap lp.addr
        freeLoop obj plp heap true
      else .ok (lp :: plp, heap, freed)

/-- `_obstack_free`; the address 0 is NULL. -/
def freeChunks (s : State κ) (obj : Nat) : Except Exit (State κ) := do
  let (chunks, heap, freed) ← freeLoop abi sys obj s.h.chunks s.heap false
  let h := { s.h with chunks := chunks, maybeEmptyObject := s.h.maybeEmptyObject || freed }
  match chunks with
  | lp :: _ => .ok ⟨heap, { h with objectBase := obj, nextFree := obj, chunkLimit := lp.limit }⟩
  | [] => if obj ≠ 0 then .error .abort else .ok ⟨heap, h⟩

/-- `obstack_free`. -/
def free (s : State κ) (obj : Nat) : Except Exit (State κ) :=
  match s.h.chunks with
  | [] => .error .undefined
  | chunk :: _ =>
      if chunk.addr < obj ∧ obj < s.h.chunkLimit then
        .ok { s with h := { s.h with nextFree := obj, objectBase := obj } }
      else freeChunks abi sys s obj

end ObstackC
