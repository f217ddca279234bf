import ProcProcessTable.ObstackOperations
import ProcProcessTable.PoolProgram

/-!
# An obstack is a memory pool

`Program.exec` runs a program on an obstack: its pointers are the addresses
that `obstack_finish` returned, in the order of the objects, and it reads and
writes memory through them.  `Simulates` relates that to the stack of
`MemPool.Pool`.

The obstack makes what a legal program makes on the stack, whatever the
allocator does and whatever memory held before (`Program.exec_refines`).  What
the stack leaves open, the bytes that `obstack_blank` and `obstack_alloc` hand
out uncleared, is found in the memory.
-/

namespace ObstackC

open CText HeapBlocks MemPool

/-- How bytes and records are laid down in memory. -/
structure Codec (κ ρ : Type) where
  byte : Char → κ
  char : κ → Char
  size : Nat
  encode : ρ → List κ
  decode : List κ → ρ
  char_byte : ∀ c, char (byte c) = c
  length_encode : ∀ r, (encode r).length = size
  decode_encode : ∀ r, decode (encode r) = r

namespace Codec

variable {κ ρ : Type} (codec : Codec κ ρ)

/-- What is written as bytes is read as it was. -/
theorem chars_bytes (s : List Char) : (s.map codec.byte).map codec.char = s := by
  rw [List.map_map]
  exact (List.map_congr_left fun c _ => codec.char_byte c).trans (List.map_id s)

end Codec

variable {κ ρ : Type}

/-- The memory of a program: the obstack, and the objects it has pointers to, from
the oldest on. -/
structure Client (κ : Type) where
  state : State κ
  pointers : List Region

variable (abi : Abi) (sys : Allocator κ abi.bits) (codec : Codec κ ρ)

/-- The address kept under a height. -/
def Client.pointer (m : Client κ) (ptr : Nat) : Except Exit Region :=
  match m.pointers[ptr]? with
  | some r => .ok r
  | none => .error .undefined

/-- `obstack_finish`, with the address put behind the others. -/
def Client.finish (m : Client κ) (s : State κ) : Except Exit (Nat × Client κ) := do
  let size := objectSize abi s.h
  let (value, s) ← ObstackC.finish abi s
  .ok (m.pointers.length, ⟨s, m.pointers ++ [⟨value, size⟩]⟩)

/-- `obstack_alloc`, with the address put behind the others. -/
def Client.alloc (m : Client κ) (n : Nat) : Except Exit (Nat × Client κ) := do
  let (value, s) ← ObstackC.alloc abi sys m.state n
  .ok (m.pointers.length, ⟨s, m.pointers ++ [⟨value, n⟩]⟩)

/-- Write to an object. -/
def Client.store (m : Client κ) (r : Region) (cells : List κ) : Except Exit (Unit × Client κ) := do
  let heap ← m.state.heap.store r.addr cells
  .ok ((), ⟨⟨heap, m.state.h⟩, m.pointers⟩)

/-- A request to the obstack. -/
def Op.exec : (op : Op ρ) → Client κ → Except Exit (op.Answer × Client κ)
  | .grow s, m => do
      let s ← grow abi sys m.state (s.map codec.byte)
      .ok ((), ⟨s, m.pointers⟩)
  | .oneGrow c, m => do
      let s ← oneGrow abi sys m.state (codec.byte c)
      .ok ((), ⟨s, m.pointers⟩)
  | .blank n, m => do
      let s ← blank abi sys m.state n
      .ok ((), ⟨s, m.pointers⟩)
  | .poke off s, m => m.store ⟨m.state.h.objectBase + off, s.length⟩ (s.map codec.byte)
  | .finish, m => m.finish abi m.state
  | .alloc n, m => m.alloc abi sys n
  | .free ptr, m => do
      let r ← m.pointer ptr
      let s ← free abi sys m.state r.addr
      .ok ((), ⟨s, m.pointers.take ptr⟩)
  | .bytesAt ptr, m => do
      let r ← m.pointer ptr
      let cells ← m.state.heap.load r.addr r.size
      .ok (cells.map codec.char, m)
  | .modifyBytes ptr f, m => do
      let r ← m.pointer ptr
      let cells ← m.state.heap.load r.addr r.size
      m.store r ((f (cells.map codec.char)).map codec.byte)
  | .allocRecord, m => m.alloc abi sys codec.size
  | .recordAt ptr, m => do
      let r ← m.pointer ptr
      let cells ← m.state.heap.load r.addr r.size
      .ok (some (codec.decode cells), m)
  | .modifyRecord ptr f, m => do
      let r ← m.pointer ptr
      let cells ← m.state.heap.load r.addr r.size
      m.store r (codec.encode (f (codec.decode cells)))

/-- A program on the obstack. -/
def Program.exec {α : Type} : Program ρ α → Client κ → Except Exit (α × Client κ)
  | .done a, m => .ok (a, m)
  | .step op next, m => do
      let (answer, m) ← Op.exec abi sys codec op m
      Program.exec (next answer) m

variable {abi} {sys} {codec}

/-- What memory holds of an object. -/
def Shows (codec : Codec κ ρ) (b : HeapBlocks.Block κ) : MemPool.Block ρ → Prop
  | .bytes text => b.cells.map codec.char = text
  | .record r => b.cells.length = codec.size ∧ codec.decode b.cells = r

/-- **The obstack holds the stack**: the objects that the program has pointers to,
oldest first, and the growing object. -/
structure Simulates (abi : Abi) (codec : Codec κ ρ) (outs : List (HeapBlocks.Block κ))
    (m : Client κ) (p : Pool ρ) (blocks : List (HeapBlocks.Block κ)) (growing : List κ) :
    Prop where
  layout : Layout abi abi.alignmentLog outs m.state ⟨blocks.reverse, growing⟩
  pointers : m.pointers = blocks.map HeapBlocks.Block.region
  objects : List.Forall₂ (Shows codec) blocks p.finished
  growing : growing.map codec.char = p.growing

section Lists

variable {α β : Type} {R : α → β → Prop} {xs : List α} {ys : List β}

/-- Lists that fit, place by place. -/
theorem forall₂_getElem? (h : List.Forall₂ R xs ys) {i : Nat} {y : β} (hy : ys[i]? = some y) :
    ∃ x, xs[i]? = some x ∧ R x y := by
  induction h generalizing i with
  | nil => cases hy
  | @cons x y' xs ys hR _ ih =>
      cases i with
      | zero =>
          obtain rfl : y' = y := Option.some.inj hy
          exact ⟨x, rfl, hR⟩
      | succ i => exact ih hy

/-- One place may be replaced on both sides. -/
theorem forall₂_set (h : List.Forall₂ R xs ys) {i : Nat} {x : α} {y : β} (hR : R x y) :
    List.Forall₂ R (xs.set i x) (ys.set i y) := by
  induction h generalizing i with
  | nil => exact List.Forall₂.nil
  | cons hR' hrest ih =>
      cases i with
      | zero => exact List.Forall₂.cons hR hrest
      | succ i => exact List.Forall₂.cons hR' ih

/-- A list is what its places hold. -/
theorem range_getD {l : List α} {n : Nat} {d : α} (h : l.length = n) :
    (List.range n).map (fun i => l.getD i d) = l := by
  apply List.ext_getElem
  · rw [List.length_map, List.length_range, h]
  · intro i hi hi'
    rw [List.getElem_map, List.getElem_range, List.getD_eq_getElem?_getD,
      List.getElem?_eq_getElem hi', Option.getD_some]

/-- A list, read backwards, around one of its elements. -/
theorem reverse_split {i : Nat} {x : α} (h : xs[i]? = some x) :
    ∃ newer, xs.reverse = newer ++ x :: (xs.take i).reverse ∧
      ∀ y, (xs.set i y).reverse = newer ++ y :: (xs.take i).reverse := by
  obtain ⟨hlt, hx⟩ := List.getElem?_eq_some_iff.mp h
  refine ⟨(xs.drop (i + 1)).reverse, ?_, fun y => ?_⟩
  · conv_lhs => rw [← List.take_append_drop i xs, List.drop_eq_getElem_cons hlt, hx]
    rw [List.reverse_append, List.reverse_cons, List.append_assoc, List.singleton_append]
  · rw [List.set_eq_take_append_cons_drop, if_pos hlt, List.reverse_append, List.reverse_cons,
      List.append_assoc, List.singleton_append]

end Lists

namespace Simulates

variable {outs : List (HeapBlocks.Block κ)} {m : Client κ} {p : Pool ρ}
  {blocks : List (HeapBlocks.Block κ)} {growing : List κ}

/-- The object a legal request names. -/
theorem object (h : Simulates abi codec outs m p blocks growing) {ptr : Nat} {y : MemPool.Block ρ}
    (hy : p.finished[ptr]? = some y) :
    ∃ b, blocks[ptr]? = some b ∧ Shows codec b y ∧ m.pointer ptr = .ok b.region ∧
      m.state.heap.load b.addr b.cells.length = .ok b.cells := by
  obtain ⟨b, hb, hshows⟩ := forall₂_getElem? h.objects hy
  refine ⟨b, hb, hshows, ?_, ?_⟩
  · unfold Client.pointer
    rw [h.pointers, List.getElem?_map, hb]
    rfl
  · exact loadObject_ok h.layout (List.mem_reverse.mpr (List.mem_of_getElem? hb))

/-- A request that reads an object goes on with its cells. -/
theorem reads (h : Simulates abi codec outs m p blocks growing) {ptr : Nat} {y : MemPool.Block ρ}
    (hy : p.finished[ptr]? = some y) :
    ∃ b, blocks[ptr]? = some b ∧ Shows codec b y ∧
      ∀ {β : Type} (next : Region → List κ → Except Exit β),
        (do let r ← m.pointer ptr
            let cells ← m.state.heap.load r.addr r.size
            next r cells) = next b.region b.cells := by
  obtain ⟨b, hb, hshows, hpointer, hload⟩ := h.object hy
  refine ⟨b, hb, hshows, fun next => ?_⟩
  rw [hpointer]
  show (m.state.heap.load b.addr b.cells.length >>= next b.region) = _
  rw [hload]
  rfl

/-- Writing to an object. -/
theorem store (h : Simulates abi codec outs m p blocks growing) {ptr : Nat}
    {b : HeapBlocks.Block κ} (hb : blocks[ptr]? = some b) {cells : List κ}
    (hlen : cells.length = b.cells.length) {y : MemPool.Block ρ}
    (hshows : Shows codec ⟨b.addr, cells⟩ y) :
    ∃ m', m.store b.region cells = .ok ((), m') ∧
      Simulates abi codec outs m' { p with finished := p.finished.set ptr y }
        (blocks.set ptr ⟨b.addr, cells⟩) growing := by
  obtain ⟨newer, hrev, hset⟩ := reverse_split hb
  obtain ⟨hstore, hlayout⟩ := storeObject_ok h.layout hrev hlen
  refine ⟨⟨⟨m.state.heap.write b.addr cells, m.state.h⟩, m.pointers⟩, ?_, ?_, ?_,
    forall₂_set h.objects hshows, h.growing⟩
  · unfold Client.store
    rw [Block.region_addr, hstore]
    rfl
  · dsimp only
    rw [hset]
    exact hlayout
  · have hregion : Block.region ⟨b.addr, cells⟩ = b.region := by
      rw [Block.region, hlen]
      rfl
    have hsame : (blocks.map Block.region)[ptr]? = some b.region := by
      rw [List.getElem?_map, hb]
      rfl
    obtain ⟨hlt, hget⟩ := List.getElem?_eq_some_iff.mp hsame
    rw [List.map_set, hregion, ← hget, List.set_getElem_self]
    exact h.pointers

/-- Writing into the growing object. -/
theorem poke (h : Simulates abi codec outs m p blocks growing) {off : Nat} {s : List Char}
    (hfit : off + s.length ≤ p.growing.length) :
    ∃ m' growing', m.store ⟨m.state.h.objectBase + off, s.length⟩ (s.map codec.byte) =
        .ok ((), m') ∧ Simulates abi codec outs m' (p.poke off s) blocks growing' := by
  have hlen : growing.length = p.growing.length := by
    rw [← h.growing, List.length_map]
  have hsplit : growing = growing.take off ++ (growing.drop off).take s.length ++
      growing.drop (off + s.length) := by
    rw [List.append_assoc, ← List.drop_drop, List.take_append_drop, List.take_append_drop]
  have htake : (growing.take off).length = off := List.length_take_of_le (by omega)
  have hmid : (s.map codec.byte).length = ((growing.drop off).take s.length).length := by
    rw [List.length_map, List.length_take, List.length_drop]
    omega
  obtain ⟨hstore, hlayout⟩ := storeGrowing_ok h.layout hsplit hmid
  rw [htake] at hstore hlayout
  refine ⟨⟨⟨m.state.heap.write (m.state.h.objectBase + off) (s.map codec.byte), m.state.h⟩,
    m.pointers⟩, _, ?_, hlayout, h.pointers, h.objects, ?_⟩
  · unfold Client.store
    rw [hstore]
    rfl
  · show _ = overwrite p.growing off s
    rw [List.map_append, List.map_append, codec.chars_bytes, List.map_take, List.map_drop, h.growing]
    rfl

/-- There is an address for each object. -/
theorem length_pointers (h : Simulates abi codec outs m p blocks growing) :
    m.pointers.length = p.finished.length := by
  rw [h.pointers, List.length_map]
  exact h.objects.length_eq

/-- A new object on top of the others. -/
theorem pushed (h : Simulates abi codec outs m p blocks growing) {s : State κ} {addr : Nat}
    {cells : List κ} (hlayout : Layout abi abi.alignmentLog outs s ⟨⟨addr, cells⟩ :: blocks.reverse, []⟩)
    {y : MemPool.Block ρ} (hshows : Shows codec ⟨addr, cells⟩ y) {p' : Pool ρ}
    (hfinished : p'.finished = p.finished ++ [y]) (hgrowing : p'.growing = []) :
    Simulates abi codec outs ⟨s, m.pointers ++ [⟨addr, cells.length⟩]⟩ p' (blocks ++ [⟨addr, cells⟩])
      [] := by
  refine ⟨?_, ?_, ?_, hgrowing.symm⟩
  · rw [List.reverse_append, List.reverse_singleton, List.singleton_append]
    exact hlayout
  · rw [List.map_append, h.pointers]
    rfl
  · rw [hfinished]
    exact List.rel_append h.objects (List.Forall₂.cons hshows List.Forall₂.nil)

/-- The growing object becomes the newest one. -/
theorem finish (h : Simulates abi codec outs m p blocks growing) :
    ∃ m', m.finish abi m.state = .ok (p.finished.length, m') ∧
      ∃ blocks, Simulates abi codec outs m' p.finish.2 blocks [] := by
  obtain ⟨_, hsize, _⟩ := h.layout.growing_lt
  obtain ⟨s', hfinish, _, hlayout⟩ := finish_spec h.layout
  refine ⟨⟨s', m.pointers ++ [⟨m.state.h.objectBase, growing.length⟩]⟩, ?_, _,
    h.pushed (y := .bytes p.growing) hlayout h.growing rfl rfl⟩
  unfold Client.finish
  rw [hfinish, h.length_pointers, hsize]
  rfl

variable (sys) in
/-- A new object of so many bytes, which hold what they hold. -/
theorem alloc (h : Simulates abi codec outs m p blocks []) {n : Nat} (hn : n < 2 ^ abi.bits) :
    Yields (fun out => out.1 = p.finished.length ∧ ∃ cells : List κ, cells.length = n ∧
        ∀ (y : MemPool.Block ρ) (p' : Pool ρ), (∀ addr, Shows codec ⟨addr, cells⟩ y) →
          p'.finished = p.finished ++ [y] → p'.growing = [] →
            ∃ blocks, Simulates abi codec outs out.2 p' blocks [])
      (m.alloc abi sys n) := by
  apply (alloc_spec sys h.layout hn).bind
  rintro ⟨value, s⟩ ⟨cells, hlen, hlayout⟩
  refine .ok ⟨h.length_pointers, cells, hlen, fun y p' hshows hfinished hgrowing => ?_⟩
  have hpushed := h.pushed hlayout (hshows value) hfinished hgrowing
  rw [List.nil_append, hlen] at hpushed
  exact ⟨_, hpushed⟩

/-- Nothing grows on the obstack when nothing does on the stack. -/
theorem nothing_growing (h : Simulates abi codec outs m p blocks growing) (hrest : p.growing = []) :
    growing = [] := by
  have hgrowing := h.growing
  rw [hrest] at hgrowing
  exact List.map_eq_nil_iff.mp hgrowing

/-- More bytes for the growing object. -/
theorem grown (h : Simulates abi codec outs m p blocks growing) {s : State κ} {cells : List κ}
    (hlayout : Layout abi abi.alignmentLog outs s ⟨blocks.reverse, growing ++ cells⟩) {p' : Pool ρ}
    (hfinished : p'.finished = p.finished)
    (hgrowing : p'.growing = p.growing ++ cells.map codec.char) :
    Simulates abi codec outs ⟨s, m.pointers⟩ p' blocks (growing ++ cells) := by
  refine ⟨hlayout, h.pointers, ?_, ?_⟩
  · rw [hfinished]
    exact h.objects
  · rw [hgrowing, List.map_append, h.growing]

end Simulates

/-- What a request comes to on the obstack: for some content of the raw memory it is
what it comes to on the stack. -/
def Op.Refined (abi : Abi) (codec : Codec κ ρ) (outs : List (HeapBlocks.Block κ)) (op : Op ρ)
    (p : Pool ρ) (out : op.Answer × Client κ) : Prop :=
  ∃ (bytes : Nat → Char) (r : ρ), ∀ res : Residue ρ, res.byte p.clock = bytes →
    res.record p.clock = r → (op.run res p).1 = out.1 ∧
      ∃ blocks growing, Simulates abi codec outs out.2 (op.run res p).2 blocks growing

/-- A request that does not depend on the raw memory. -/
theorem Op.Refined.of_eq {outs : List (HeapBlocks.Block κ)} {op : Op ρ} {p : Pool ρ}
    {out : op.Answer × Client κ} (hrun : ∀ res : Residue ρ, (op.run res p).1 = out.1 ∧
      ∃ blocks growing, Simulates abi codec outs out.2 (op.run res p).2 blocks growing) :
    Op.Refined abi codec outs op p out :=
  ⟨fun _ => nul, codec.decode [], fun res _ _ => hrun res⟩

section Step

variable {outs : List (HeapBlocks.Block κ)} {m : Client κ} {p : Pool ρ}
  {blocks : List (HeapBlocks.Block κ)} {growing : List κ}

/-- **One request.** -/
theorem Op.exec_refines (hcodec : codec.size < 2 ^ abi.bits)
    (h : Simulates abi codec outs m p blocks growing) (op : Op ρ)
    (hlegal : op.Legal (2 ^ abi.bits) p) :
    Yields (Op.Refined abi codec outs op p) (Op.exec abi sys codec op m) := by
  cases op with
  | grow s =>
      have hlen : (s.map codec.byte).length < 2 ^ abi.bits := by
        rw [List.length_map]
        exact hlegal
      apply (grow_spec sys h.layout hlen).bind
      intro s' hlayout
      refine .ok (Op.Refined.of_eq fun _ => ⟨rfl, _, _, h.grown hlayout rfl ?_⟩)
      rw [codec.chars_bytes]
      rfl
  | oneGrow c =>
      apply (oneGrow_spec sys h.layout (codec.byte c)).bind
      intro s' hlayout
      refine .ok (Op.Refined.of_eq fun _ => ⟨rfl, _, _, h.grown hlayout rfl ?_⟩)
      show p.growing ++ [c] = p.growing ++ [codec.char (codec.byte c)]
      rw [codec.char_byte]
  | blank n =>
      apply (blank_spec sys h.layout hlegal).bind
      rintro s' ⟨cells, hlen, hlayout⟩
      -- the bytes that are found are those that the memory holds
      refine .ok ⟨fun i => (cells.map codec.char).getD i nul, codec.decode [], fun res hbyte _ =>
        ⟨rfl, _, _, h.grown hlayout rfl ?_⟩⟩
      show p.growing ++ (List.range n).map (res.byte p.clock) = _
      rw [hbyte, range_getD (by rw [List.length_map, hlen])]
  | poke off s =>
      obtain ⟨m', growing', hstore, hsim⟩ := h.poke hlegal
      show Yields _ (m.store ⟨m.state.h.objectBase + off, s.length⟩ (s.map codec.byte))
      rw [hstore]
      exact .ok (Op.Refined.of_eq fun _ => ⟨rfl, _, _, hsim⟩)
  | finish =>
      obtain ⟨m', hfinish, blocks', hsim⟩ := h.finish
      show Yields _ (m.finish abi m.state)
      rw [hfinish]
      exact .ok (Op.Refined.of_eq fun _ => ⟨rfl, _, _, hsim⟩)
  | alloc n =>
      obtain ⟨hn, hrest⟩ := hlegal
      obtain rfl := h.nothing_growing hrest
      refine (h.alloc sys hn).mono ?_
      rintro ⟨ptr, m'⟩ ⟨hptr, cells, hlen, hsim⟩
      obtain rfl : ptr = p.finished.length := hptr
      refine ⟨fun i => (cells.map codec.char).getD i nul, codec.decode [], fun res hbyte _ => ?_⟩
      obtain ⟨blocks', hsim⟩ := hsim (.bytes (cells.map codec.char)) (p.alloc res n).2
        (fun _ => rfl) (by
          show p.finished ++ [.bytes (p.growing ++ (List.range n).map (res.byte p.clock))] = _
          rw [hrest, hbyte, range_getD (by rw [List.length_map, hlen])]
          rfl) rfl
      exact ⟨rfl, blocks', [], hsim⟩
  | free ptr =>
      obtain ⟨b, hb, _, hpointer, _⟩ := h.object (List.getElem?_eq_getElem hlegal)
      obtain ⟨newer, hrev, _⟩ := reverse_split hb
      obtain ⟨s', hfree, hlayout⟩ := free_spec sys h.layout hrev
      show Yields _ (m.pointer ptr >>= _)
      rw [hpointer]
      show Yields _ (free abi sys m.state b.addr >>= _)
      rw [hfree]
      refine .ok (Op.Refined.of_eq fun _ => ⟨rfl, blocks.take ptr, [], hlayout, ?_, ?_, rfl⟩)
      · show m.pointers.take ptr = _
        rw [h.pointers, List.map_take]
      · exact List.forall₂_take ptr h.objects
  | bytesAt ptr =>
      obtain ⟨text, htext⟩ := hlegal
      obtain ⟨b, _, hshows, hreads⟩ := h.reads htext
      show Yields _ (do let r ← m.pointer ptr
                        let cells ← m.state.heap.load r.addr r.size
                        .ok (cells.map codec.char, m))
      rw [hreads]
      refine .ok (Op.Refined.of_eq fun _ => ⟨?_, _, _, h⟩)
      exact (Pool.bytesAt_of_getElem? htext).trans hshows.symm
  | modifyBytes ptr f =>
      obtain ⟨text, htext, hlen⟩ := hlegal
      obtain ⟨b, hb, hshows, hreads⟩ := h.reads htext
      have hcells : ((f (b.cells.map codec.char)).map codec.byte).length = b.cells.length := by
        rw [List.length_map, show b.cells.map codec.char = text from hshows, hlen, ← hshows,
          List.length_map]
      obtain ⟨m', hstore, hsim⟩ := @Simulates.store _ _ _ _ _ _ _ _ _ h ptr b hb _ hcells
        (.bytes (f text)) ((codec.chars_bytes _).trans (congrArg f hshows))
      rw [← Pool.modifyBytes_eq f htext] at hsim
      show Yields _ (do let r ← m.pointer ptr
                        let cells ← m.state.heap.load r.addr r.size
                        m.store r ((f (cells.map codec.char)).map codec.byte))
      rw [hreads, hstore]
      exact .ok (Op.Refined.of_eq fun _ => ⟨rfl, _, _, hsim⟩)
  | allocRecord =>
      obtain rfl := h.nothing_growing hlegal
      refine (h.alloc sys hcodec).mono ?_
      rintro ⟨ptr, m'⟩ ⟨hptr, cells, hlen, hsim⟩
      obtain rfl : ptr = p.finished.length := hptr
      refine ⟨fun _ => nul, codec.decode cells, fun res _ hrecord => ?_⟩
      obtain ⟨blocks', hsim⟩ := hsim (.record (codec.decode cells)) (p.allocRecord res).2
        (fun _ => ⟨hlen, rfl⟩) (by
          show p.finished ++ [.record (res.record p.clock)] = _
          rw [hrecord]) hlegal
      exact ⟨rfl, blocks', [], hsim⟩
  | recordAt ptr =>
      obtain ⟨r, hr⟩ := hlegal
      obtain ⟨b, _, hshows, hreads⟩ := h.reads hr
      show Yields _ (do let r ← m.pointer ptr
                        let cells ← m.state.heap.load r.addr r.size
                        .ok (some (codec.decode cells), m))
      rw [hreads]
      refine .ok (Op.Refined.of_eq fun _ => ⟨?_, _, _, h⟩)
      exact (Pool.recordAt?_of_getElem? hr).trans (congrArg some hshows.2.symm)
  | modifyRecord ptr f =>
      obtain ⟨r, hr⟩ := hlegal
      obtain ⟨b, hb, hshows, hreads⟩ := h.reads hr
      have hcells : (codec.encode (f (codec.decode b.cells))).length = b.cells.length :=
        (codec.length_encode _).trans hshows.1.symm
      obtain ⟨m', hstore, hsim⟩ := @Simulates.store _ _ _ _ _ _ _ _ _ h ptr b hb _ hcells
        (.record (f r)) ⟨codec.length_encode _, by rw [codec.decode_encode, hshows.2]⟩
      rw [← Pool.modifyRecord_eq f hr] at hsim
      show Yields _ (do let r ← m.pointer ptr
                        let cells ← m.state.heap.load r.addr r.size
                        m.store r (codec.encode (f (codec.decode cells))))
      rw [hreads, hstore]
      exact .ok (Op.Refined.of_eq fun _ => ⟨rfl, _, _, hsim⟩)

/-- **A program that is legal on the stack comes to the same on the obstack**, unless
memory is exhausted: some raw memory `res` that starts as `res₀` does makes the
stack answer what the obstack answers. -/
theorem Program.exec_refines {α : Type} (hcodec : codec.size < 2 ^ abi.bits) (prog : Program ρ α)
    (res₀ : Residue ρ) (h : Simulates abi codec outs m p blocks growing)
    (hlegal : ∀ res : Residue ρ, res.Agrees res₀ p.clock → prog.Legal (2 ^ abi.bits) res p) :
    Yields (fun out => ∃ res : Residue ρ, res.Agrees res₀ p.clock ∧ (prog.run res p).1 = out.1 ∧
        ∃ blocks growing, Simulates abi codec outs out.2 (prog.run res p).2 blocks growing)
      (Program.exec abi sys codec prog m) := by
  induction prog generalizing res₀ m p blocks growing with
  | done a => exact .ok ⟨res₀, fun _ _ => ⟨rfl, rfl⟩, rfl, blocks, growing, h⟩
  | step op next ih =>
      have hop : op.Legal (2 ^ abi.bits) p := (hlegal res₀ fun _ _ => ⟨rfl, rfl⟩).1
      show Yields _ (Op.exec abi sys codec op m >>= _)
      apply (Op.exec_refines hcodec h op hop).bind
      rintro ⟨answer, m'⟩ ⟨bytes, r, hrefined⟩
      have hfound := res₀.found_agrees p.clock bytes r
      obtain ⟨hanswer, blocks', growing', hsim⟩ :=
        hrefined (res₀.found p.clock bytes r) (if_pos rfl) (if_pos rfl)
      have hclock := op.clock_le (res₀.found p.clock bytes r) p
      -- what is found later does not change what was answered now
      have hsame : ∀ res : Residue ρ,
          res.Agrees (res₀.found p.clock bytes r) (op.run (res₀.found p.clock bytes r) p).2.clock →
            res.Agrees res₀ p.clock ∧ op.run res p = op.run (res₀.found p.clock bytes r) p :=
        fun res hagrees => ⟨hagrees.trans hfound hclock, op.run_congr p hagrees⟩
      obtain rfl : _ = answer := hanswer
      refine (ih _ (res₀.found p.clock bytes r) hsim ?_).mono ?_
      · intro res hagrees
        obtain ⟨hstart, hrun⟩ := hsame res hagrees
        have hnext := (hlegal res hstart).2
        rw [hrun] at hnext
        exact hnext
      · rintro out ⟨res, hagrees, hout⟩
        obtain ⟨hstart, hrun⟩ := hsame res hagrees
        refine ⟨res, hstart, ?_⟩
        show ((next (op.run res p).1).run res (op.run res p).2).1 = out.1 ∧ ∃ blocks growing,
          Simulates abi codec outs out.2 ((next (op.run res p).1).run res (op.run res p).2).2 blocks
            growing
        rw [hrun]
        exact hout

end Step

/-! ## Whole runs -/

/-- The blocks that are allocated, with what they hold. -/
def outsOf (heap : Heap κ) : List (HeapBlocks.Block κ) :=
  heap.live.map fun r => ⟨r.addr, heap.read r.addr r.size⟩

/-- Their places are the places that are allocated. -/
theorem regions_outsOf (heap : Heap κ) : (outsOf heap).map Block.region = heap.live := by
  unfold outsOf
  rw [List.map_map]
  have hregion : ∀ r ∈ heap.live, (Block.region ∘ fun r : Region =>
      (⟨r.addr, heap.read r.addr r.size⟩ : HeapBlocks.Block κ)) r = id r := by
    intro r _
    show (⟨r.addr, (heap.read r.addr r.size).length⟩ : Region) = r
    rw [Heap.length_read]
  rw [List.map_congr_left hregion, List.map_id]

/-- They hold what they hold. -/
theorem holds_outsOf (heap : Heap κ) : ∀ b ∈ outsOf heap, heap.Holds b := by
  intro b hb
  obtain ⟨r, _, rfl⟩ := List.mem_map.mp hb
  show heap.read r.addr (heap.read r.addr r.size).length = _
  rw [Heap.length_read]

/-- The regions of `heap`, and nothing else, hold what they held. -/
def Unchanged (heap heap' : Heap κ) : Prop :=
  ∀ r ∈ heap.live, heap'.read r.addr r.size = heap.read r.addr r.size

/-- Memory that still holds them is unchanged. -/
theorem unchanged_of_holds {heap heap' : Heap κ} (h : ∀ b ∈ outsOf heap, heap'.Holds b) :
    Unchanged heap heap' := by
  intro r hr
  have hread := h _ (List.mem_map_of_mem hr)
  unfold Heap.Holds at hread
  dsimp only at hread
  rwa [Heap.length_read] at hread

/-- A program on a new obstack. -/
def runProgram (abi : Abi) (sys : Allocator κ abi.bits) (codec : Codec κ ρ) {α : Type}
    (prog : Program ρ α) (heap : Heap κ) : Except Exit (α × Client κ) := do
  let s ← init abi sys heap
  Program.exec abi sys codec prog ⟨s, []⟩

/-- What is known of the memory of a program that began with `heap` and now has the
objects of `stack` on its obstack. -/
structure Sound (abi : Abi) (codec : Codec κ ρ) (heap : Heap κ) (stack : List (MemPool.Block ρ))
    (m : Client κ) : Prop where
  /-- behind its pointers are the objects -/
  shows : List.Forall₂ (fun r b => Shows codec ⟨r.addr, m.state.heap.read r.addr r.size⟩ b)
    m.pointers stack
  apart : m.pointers.Pairwise Region.Apart
  aligned : ∀ r ∈ m.pointers, r.size = 0 ∨ 2 ^ abi.alignmentLog ∣ r.addr
  inside : ∀ r ∈ m.pointers, ∃ c ∈ m.state.h.chunks, c.addr + abi.contents ≤ r.addr ∧
    r.limit ≤ c.limit
  current : m.state.h.chunks ≠ []
  live : m.state.heap.live.Perm (m.state.h.chunks.map Chunk.region ++ heap.live)
  unchanged : Unchanged heap m.state.heap

/-- **What the simulation says of memory** at the end of a program. -/
theorem Simulates.sound {heap : Heap κ} {m : Client κ} {p : Pool ρ}
    {blocks : List (HeapBlocks.Block κ)} {growing : List κ}
    (h : Simulates abi codec (outsOf heap) m p blocks growing) :
    Sound abi codec heap p.finished m := by
  have hlayout := h.layout
  have hpointers : m.pointers.reverse =
      (View.mk blocks.reverse growing).objects.map Block.region := by
    rw [h.pointers, List.map_reverse]
  refine ⟨?_, ?_, ?_, ?_, ?_, ?_, unchanged_of_holds hlayout.outs⟩
  · rw [h.pointers, List.forall₂_map_left_iff]
    have hholds : ∀ b ∈ blocks, m.state.heap.Holds b := fun b hb =>
      hlayout.objects b (List.mem_reverse.mpr hb)
    refine List.Forall₂.imp ?_ ((List.forall₂_and_left _ _).mpr ⟨hholds, h.objects⟩)
    rintro b y ⟨hhold, hshows⟩
    have hread : m.state.heap.read b.region.addr b.region.size = b.cells := hhold
    rw [hread]
    exact hshows
  · have hapart := hlayout.objects_apart
    rw [← hpointers, List.pairwise_reverse] at hapart
    exact hapart.imp Region.Apart.symm
  · intro r hr
    have hmem := List.mem_reverse.mpr hr
    rw [hpointers] at hmem
    exact hlayout.stack.aligned r hmem
  · intro r hr
    have hmem := List.mem_reverse.mpr hr
    rw [hpointers] at hmem
    obtain ⟨c, hc, hlo, hhi⟩ := hlayout.stack.covered hmem
    exact ⟨c, hc, Nat.le_trans (le_alignUp _ _) hlo, hhi⟩
  · obtain ⟨c, cs, hchunks⟩ := hlayout.stack.chunks_ne_nil
    rw [hchunks]
    exact List.cons_ne_nil _ _
  · have hlive := hlayout.live
    unfold regions at hlive
    rwa [regions_outsOf] at hlive

/-- **A program on a new obstack, for every allocator.**  A program that is legal on
the stack never aborts and never does what the language leaves undefined.  Unless
memory is exhausted it gets the answers of the stack, for some content of the raw
memory, and its pointers reach the objects of the stack: apart from each other,
aligned, inside the chunks and behind their headers, with nothing allocated but
the chunks and what was allocated before, which is as it was.  Releasing NULL then
gives back all of it. -/
theorem program_on_obstack {α : Type} {heap : Heap κ} (hvalid : heap.Valid abi.bits)
    (hcodec : codec.size < 2 ^ abi.bits) (prog : Program ρ α)
    (hlegal : ∀ res, prog.Legal (2 ^ abi.bits) res Pool.init) :
    Yields (fun out => ∃ res : Residue ρ, (prog.run res Pool.init).1 = out.1 ∧
        Sound abi codec heap (prog.run res Pool.init).2.finished out.2 ∧
        ∃ s', free abi sys out.2.state 0 = .ok s' ∧ s'.heap.live.Perm heap.live ∧
          Unchanged heap s'.heap)
      (runProgram abi sys codec prog heap) := by
  have hlive : heap.live.Perm ((outsOf heap).map Block.region) := by
    rw [regions_outsOf]
  apply (init_spec sys hvalid hlive (holds_outsOf heap)).bind
  intro s hlayout
  have hsim : Simulates abi codec (outsOf heap) ⟨s, []⟩ (Pool.init : Pool ρ) [] [] :=
    ⟨hlayout, rfl, List.Forall₂.nil, rfl⟩
  refine (Program.exec_refines hcodec prog ⟨fun _ _ => nul, fun _ => codec.decode []⟩ hsim
    fun res _ => hlegal res).mono ?_
  rintro out ⟨res, _, hout, blocks, growing, hsim'⟩
  obtain ⟨s', hfree, _, _, hlive, hholds⟩ := freeAll_spec sys hsim'.layout
  rw [regions_outsOf] at hlive
  exact ⟨res, hout, hsim'.sound, s', hfree, hlive, unchanged_of_holds hholds⟩

/-- What an address holds: a byte, or a piece of a record. -/
inductive Cell (ρ : Type)
  | byte (c : Char)
  | piece (r : ρ) (i : Nat)

/-- Records that lie in memory piece by piece; `raw` is what uncleared memory is
read as. -/
def pieces (size : Nat) (raw : ρ) : Codec (Cell ρ) ρ where
  byte := .byte
  char := fun
    | .byte c => c
    | .piece _ _ => nul
  size := size + 1
  encode := fun r => (List.range (size + 1)).map (.piece r)
  decode := fun
    | .piece r _ :: _ => r
    | _ => raw
  char_byte := fun _ => rfl
  length_encode := fun _ => (List.length_map _).trans List.length_range
  decode_encode := fun r => by
    rw [List.range_succ_eq_map]
    rfl

/-- The bounds that the fields of `lp64` carry. -/
theorem lp64_bits : 16 ≤ 64 := by decide

theorem lp64_contents_pos : 0 < 16 := by decide

theorem lp64_contents_le : 16 ≤ 100 := by decide

theorem lp64_alignmentLog : 4 ≤ 6 := by decide

theorem lp64_defaultRounding : 16 ≤ 64 := by decide

/-- Linux and Cygwin on 64 bits. -/
def lp64 : Abi where
  bits := 64
  contents := 16
  alignmentLog := 4
  defaultRounding := 16
  bits_ge := lp64_bits
  contents_pos := lp64_contents_pos
  contents_le := lp64_contents_le
  alignmentLog_le := lp64_alignmentLog
  defaultRounding_le := lp64_defaultRounding

/-- Memory in which nothing is allocated. -/
def emptyHeap : Heap (Cell ρ) := ⟨fun _ => .byte nul, []⟩

/-- Nothing can overlap in it. -/
theorem emptyHeap_valid (bits : Nat) : (emptyHeap : Heap (Cell ρ)).Valid bits :=
  ⟨List.Pairwise.nil, fun _ hr => absurd hr List.not_mem_nil⟩

/-- A record, a string above it that grows beyond the chunk, and the release of both. -/
def sampleProgram : Program Nat Mem := do
  let prs ← Program.allocRecord
  Program.modifyRecord prs fun _ => 7
  Program.blank 5000
  Program.poke 0 ['o', 'k']
  let text ← Program.finish
  let m ← Program.bytesAt text
  Program.free prs
  pure (m.take 2)

/-- Every request of the sample is legal, whatever memory holds. -/
theorem sampleProgram_legal (res : Residue Nat) :
    sampleProgram.Legal (2 ^ lp64.bits) res Pool.init := by
  unfold sampleProgram
  simp [Program.legal_bind, Pool.init, Pool.allocRecord, Pool.modifyRecord, Pool.blank, Pool.poke,
    Pool.finish, lp64]

/-- Its records have a size that the machine can count. -/
theorem pieces_fit : (pieces 100 (0 : Nat)).size < 2 ^ lp64.bits := by
  show 101 < 2 ^ 64
  omega

/-- The sample on an obstack of 64 bits over an allocator that only goes up. -/
theorem program_on_obstack_sample :
    Yields (fun out => ∃ res : Residue Nat, (sampleProgram.run res Pool.init).1 = out.1 ∧
        Sound lp64 (pieces 100 0) emptyHeap (sampleProgram.run res Pool.init).2.finished out.2 ∧
        ∃ s', free lp64 (bumpAllocator _ lp64.bits) out.2.state 0 = .ok s' ∧
          s'.heap.live.Perm (emptyHeap : Heap (Cell Nat)).live ∧ Unchanged emptyHeap s'.heap)
      (runProgram lp64 (bumpAllocator _ lp64.bits) (pieces 100 0) sampleProgram emptyHeap) :=
  @program_on_obstack (Cell Nat) Nat lp64 (bumpAllocator _ lp64.bits) (pieces 100 0) Mem emptyHeap
    (emptyHeap_valid _) pieces_fit sampleProgram sampleProgram_legal

end ObstackC
