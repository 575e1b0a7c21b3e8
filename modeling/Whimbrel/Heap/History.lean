import Mathlib.Data.List.Perm.Basic
import Whimbrel.Heap.Alloc
import Whimbrel.Heap.Insert
import Whimbrel.Lib.Transition

/-! Histories of the heap: any sequence of allocations, releases of live pointers and
writes of clients into their payloads. -/

set_option autoImplicit false

namespace Whimbrel.Heap

open Checked Blocks Linked Transition

structure Grant where
  ptr : Nat
  size : Nat
  align : Nat
  deriving DecidableEq, Repr

def blockOf (s : State) (ptr : Nat) : Block := ⟨ptr - 16 - s.word (ptr - 8), s.word (ptr - 16)⟩

structure Freed where
  ptr : Nat
  block : Block
  deriving DecidableEq, Repr

/-- `freed` lists the releases whose blocks no later allocation has touched. -/
structure World where
  heap : State
  live : List Grant
  freed : List Freed

inductive Op where
  | alloc (size align : Nat)
  | free (a : Grant)
  | write (a : Grant) (addr value : Nat)
  deriving DecidableEq, Repr

/-- Layouts have a power of two, only live pointers are released, clients write in their payloads. -/
def Op.Allowed (w : World) : Op → Prop
  | .alloc _ align => align.isPowerOfTwo
  | .free a => a ∈ w.live
  | .write a addr _ => a ∈ w.live ∧ addr % 8 = 0 ∧ a.ptr ≤ addr ∧ addr < a.ptr + a.size

def World.step (cfg : Config) (w : World) : Op → Result World
  | .alloc size align => do
    let (heap, ptr) ← tryAlloc cfg w.heap size align
    if ptr = 0 then return { w with heap }
    return ⟨heap, ⟨ptr, size, align⟩ :: w.live, w.freed.filter fun d => d.block.Apart (blockOf heap ptr)⟩
  | .free a => do
    let heap ← deallocRaw cfg w.heap a.ptr
    return ⟨heap, w.live.erase a, ⟨a.ptr, blockOf w.heap a.ptr⟩ :: w.freed⟩
  | .write _ addr value => return { w with heap := { w.heap with word := Function.update w.heap.word addr value } }

def Steps (cfg : Config) (w : World) (op : Op) (w' : World) : Prop := op.Allowed w ∧ w.step cfg op = .ok w'

/-! ## The invariant -/

structure Owned (s : State) (a : Grant) : Prop where
  word : a.ptr % 8 = 0
  aligned : a.ptr % a.align = 0
  pad : s.word (a.ptr - 8) = 0 ∨ s.word (a.ptr - 8) = 8
  above : 16 + s.word (a.ptr - 8) ≤ a.ptr
  payload : a.ptr + a.size ≤ (blockOf s a.ptr).stop
  proper : Proper (blockOf s a.ptr)

/-- What is left of the header of a released block: its pad, or the link of a free block. -/
structure Marked (s : State) (d : Freed) : Prop where
  word : d.ptr % 8 = 0
  above : 16 ≤ d.ptr
  fits : d.ptr ≤ d.block.stop
  extra : d.block.start = d.ptr - 16 ∧ (s.word (d.ptr - 8) = 0 ∨ d.ptr - 16 < s.word (d.ptr - 8)) ∨
    d.block.start + 8 = d.ptr - 16 ∧ s.word (d.ptr - 8) = 8

def Vacant (l : List Block) (b : Block) : Prop := ∀ x, b.Has x → 0 < cover x l

def World.blocks (w : World) : List Block := w.live.map fun a => blockOf w.heap a.ptr

structure Sound (lo hi : Nat) (w : World) (l : List Block) : Prop where
  low : 0 < lo
  range : lo < hi
  high : hi < 2 ^ 64
  bounds : w.heap.heapStart = lo ∧ w.heap.heapEnd = hi
  list : FreeList w.heap l
  owned : ∀ a ∈ w.live, Owned w.heap a
  tiles : Tiles lo hi (l ++ w.blocks)
  marked : ∀ d ∈ w.freed, Marked w.heap d
  vacant : ∀ d ∈ w.freed, Vacant l d.block

section
variable {cfg : Config} {lo hi : Nat} {w : World} {l : List Block}

theorem Sound.held (sound : Sound lo hi w l) : Held w.heap l where
  toFreeList := sound.list
  low := sound.bounds.1 ▸ sound.low
  high := sound.bounds.2 ▸ sound.high
  inside b mem := by
    rw [sound.bounds.1, sound.bounds.2]
    exact sound.tiles.within (List.mem_append_left _ mem) (sound.list.positive mem)

theorem cover_headers {x : Nat} (proper : ∀ b ∈ l, Proper b) (header : Headers l x) : 0 < cover x l := by
  obtain ⟨b, mem, here⟩ := header
  have large := (proper b mem).large
  refine cover_pos_iff.mpr ⟨b, mem, ?_, ?_⟩
  · omega
  · rw [Block.stop]
    omega

variable {s t : State}

theorem Owned.has {a : Grant} (owned : Owned s a) : (blockOf s a.ptr).Has (a.ptr - 16) ∧ (blockOf s a.ptr).Has (a.ptr - 8) := by
  have above := owned.above
  have payload := owned.payload
  simp only [Block.Has, Block.stop, blockOf] at *
  omega

theorem Owned.congr {a : Grant} (owned : Owned s a) (size : t.word (a.ptr - 16) = s.word (a.ptr - 16))
    (pad : t.word (a.ptr - 8) = s.word (a.ptr - 8)) : Owned t a ∧ blockOf t a.ptr = blockOf s a.ptr := by
  have same : blockOf t a.ptr = blockOf s a.ptr := by rw [blockOf, blockOf, size, pad]
  refine ⟨⟨owned.word, owned.aligned, ?_, ?_, ?_, ?_⟩, same⟩
  · rw [pad]
    exact owned.pad
  · rw [pad]
    exact owned.above
  · rw [same]
    exact owned.payload
  · rw [same]
    exact owned.proper

theorem owned_frame {region : List Block} {live : List Grant} (tiles : Tiles lo hi (region ++ live.map fun a => blockOf s a.ptr))
    (owned : ∀ a ∈ live, Owned s a) (frame : ∀ x, t.word x ≠ s.word x → 0 < cover x region) :
    (∀ a ∈ live, Owned t a) ∧ (live.map fun a => blockOf t a.ptr) = live.map fun a => blockOf s a.ptr := by
  have same (a : Grant) (mem : a ∈ live) (x : Nat) (has : (blockOf s a.ptr).Has x) : t.word x = s.word x := by
    by_contra changed
    have none := tiles.once (frame x changed)
    exact cover_eq_zero_iff.mp none _ (List.mem_map_of_mem mem) has
  have each (a : Grant) (mem : a ∈ live) := (owned a mem).congr (same a mem _ (owned a mem).has.1) (same a mem _ (owned a mem).has.2)
  exact ⟨fun a mem => (each a mem).1, List.map_congr_left fun a mem => (each a mem).2⟩

theorem Owned.marked {a : Grant} (owned : Owned s a) : Marked s ⟨a.ptr, blockOf s a.ptr⟩ := by
  have above := owned.above
  refine ⟨owned.word, Nat.le_trans (Nat.le_add_right _ _) above, Nat.le_trans (Nat.le_add_right _ _) owned.payload, ?_⟩
  rcases owned.pad with none | some
  · refine .inl ⟨?_, .inl none⟩
    change a.ptr - 16 - s.word (a.ptr - 8) = a.ptr - 16
    omega
  · refine .inr ⟨?_, some⟩
    change a.ptr - 16 - s.word (a.ptr - 8) + 8 = a.ptr - 16
    omega

theorem FreeList.next_above {b : Block} (list : FreeList s l) (mem : b ∈ l) : s.next b.start = 0 ∨ b.stop < s.next b.start := by
  obtain ⟨before, after, rfl⟩ := List.append_of_mem mem
  have chain := list.chain
  rw [starts_append, starts_cons] at chain
  have next := (Chain.cons_iff.mp chain.drop).2.2.eq_entry
  cases after with
  | nil => exact .inl next
  | cons c after =>
    rw [starts_cons, entry_cons] at next
    rw [next]
    exact .inr ((List.pairwise_cons.mp (separated_append.mp list.separated).2.1).1 c List.mem_cons_self)

/-- The remains of a header change only where a free block starts at it. -/
theorem Marked.step {d : Freed} (marked : Marked s d) (list : FreeList t l) (vacant : Vacant l d.block)
    (frame : ∀ x, d.block.Has x → t.word x ≠ s.word x → Headers l x) : Marked t d := by
  refine ⟨marked.word, marked.above, marked.fits, ?_⟩
  have above := marked.above
  have fits := marked.fits
  by_cases same : t.word (d.ptr - 8) = s.word (d.ptr - 8)
  · rw [same]
    exact marked.extra
  · have has : d.block.Has (d.ptr - 8) := by
      have extra := marked.extra
      rw [Block.Has]
      omega
    have pos : 0 < d.block.size := by
      simp only [Block.Has, Block.stop] at has
      omega
    -- one free block holds all of the old one, and a header inside can only be its own
    obtain ⟨c, mem, lower, upper⟩ := list.separated.holds_whole pos vacant
    obtain ⟨e, there, here⟩ := frame _ has same
    have large := (list.proper e there).large
    obtain rfl : c = e := by
      rcases list.separated.eq_or mem there with rfl | gap | gap
      · rfl
      · simp only [Block.Has, Block.stop] at *
        omega
      · simp only [Block.Has, Block.stop] at *
        omega
    have next := list.next_above mem
    rcases marked.extra with ⟨start, -⟩ | ⟨start, -⟩
    · have link : t.word (d.ptr - 8) = t.next c.start := by
        rw [State.next]
        congr 1
        omega
      refine .inl ⟨start, ?_⟩
      rw [link]
      rw [Block.stop] at next
      omega
    · omega

/-! ## The steps -/

theorem Sound.tiles_cons {a : Grant} (sound : Sound lo hi w l) (mem : a ∈ w.live) :
    Tiles lo hi ((blockOf w.heap a.ptr :: l) ++ (w.live.erase a).map fun c => blockOf w.heap c.ptr) := by
  refine sound.tiles.perm ((((List.perm_cons_erase mem).map _).append_left l).trans ?_)
  rw [List.map_cons]
  exact List.perm_middle

def State.written (s : State) (addr value : Nat) : State := { s with word := Function.update s.word addr value }

theorem State.written_other {addr value x : Nat} (ne : x ≠ addr) : (s.written addr value).word x = s.word x :=
  Function.update_of_ne ne ..

theorem Owned.has_payload {a : Grant} {x : Nat} (owned : Owned s a) (low : a.ptr ≤ x) (high : x < a.ptr + a.size) :
    (blockOf s a.ptr).Has x := by
  have inside := owned.has.1
  exact ⟨Nat.le_trans inside.1 (by omega), Nat.lt_of_lt_of_le high owned.payload⟩

theorem Sound.written {a c : Grant} {addr value : Nat} (sound : Sound lo hi w l) (allowed : (Op.write a addr value).Allowed w)
    (there : c ∈ w.live) :
    Owned (w.heap.written addr value) c ∧ blockOf (w.heap.written addr value) c.ptr = blockOf w.heap c.ptr := by
  obtain ⟨mem, -, low, high⟩ := allowed
  have owned := sound.owned a mem
  have above := owned.above
  obtain ⟨ownedRest, same⟩ := owned_frame (t := w.heap.written addr value) (sound.tiles_cons mem)
    (fun c there => sound.owned c (List.mem_of_mem_erase there)) fun x changed => by
      rw [show x = addr from by_contra fun ne => changed (State.written_other ne)]
      exact cover_pos_iff.mpr ⟨_, List.mem_cons_self, owned.has_payload low high⟩
  by_cases here : c = a
  · rw [here]
    exact owned.congr (State.written_other (by omega)) (State.written_other (by omega))
  · have later : c ∈ w.live.erase a := (List.mem_erase_of_ne here).mpr there
    exact ⟨ownedRest c later, List.map_inj_left.mp same c later⟩

theorem step_write {a : Grant} {addr value : Nat} (sound : Sound lo hi w l) (allowed : (Op.write a addr value).Allowed w) :
    ∃ w', w.step cfg (.write a addr value) = .ok w' ∧ Sound lo hi w' l := by
  obtain ⟨mem, -, low, high⟩ := id allowed
  refine ⟨{ w with heap := w.heap.written addr value }, rfl, ?_⟩
  have other (x : Nat) (ne : x ≠ addr) : (w.heap.written addr value).word x = w.heap.word x := State.written_other ne
  -- no free block holds an address of a payload
  have once : cover addr l = 0 := (sound.tiles.perm List.perm_append_comm).once
    (cover_pos_iff.mpr ⟨_, List.mem_map_of_mem mem, (sound.owned a mem).has_payload low high⟩)
  have clear (b : Block) (there : b ∈ l) : ¬ b.Has addr := cover_eq_zero_iff.mp once b there
  have kept : Kept w.heap (w.heap.written addr value) l := by
    intro b there
    have large := (sound.list.proper b there).large
    have apart := clear b there
    simp only [Block.Has, Block.stop] at apart
    exact ⟨other _ (by omega), other _ (by omega)⟩
  have blocks : World.blocks { w with heap := w.heap.written addr value } = w.blocks :=
    List.map_congr_left fun c there => (sound.written allowed there).2
  refine ⟨sound.low, sound.range, sound.high, sound.bounds, sound.list.frame rfl kept, fun c there => (sound.written allowed there).1,
    blocks ▸ sound.tiles, fun d there => ?_, sound.vacant⟩
  have vacant := sound.vacant d there
  refine (sound.marked d there).step (sound.list.frame rfl kept) vacant fun x inside changed => ?_
  have covered := vacant x inside
  rw [show x = addr from by_contra fun ne => changed (other x ne), once] at covered
  exact absurd covered (Nat.lt_irrefl 0)

theorem blockAt_eq {a : Grant} (owned : Owned s a) : blockAt s a.ptr = .ok ((blockOf s a.ptr).start, (blockOf s a.ptr).size) := by
  have above := owned.above
  have word := owned.word
  have extra : a.ptr - 16 + 8 = a.ptr - 8 := by omega
  rw [blockAt, header, headerAlign, if_neg (by omega), if_neg (by omega)]
  dsimp only
  rw [if_neg (by omega), extra, if_neg (by omega)]
  rfl

theorem deallocRaw_spec {a : Grant} (sound : Sound lo hi w l) (mem : a ∈ w.live) :
    ∃ t, deallocRaw cfg w.heap a.ptr = .ok t ∧ Released w.heap t l (blockOf w.heap a.ptr) := by
  have owned := sound.owned a mem
  have tiles := sound.tiles_cons mem
  have pos : 0 < (blockOf w.heap a.ptr).size := Nat.lt_of_lt_of_le (by decide) owned.proper.large
  have inside := tiles.within List.mem_cons_self pos
  have free : Free w.heap l (blockOf w.heap a.ptr) := by
    refine ⟨owned.proper, fun c there => ?_, sound.bounds.1 ▸ inside.1, sound.bounds.2 ▸ inside.2⟩
    rw [List.cons_append] at tiles
    exact (tiles.apart pos (List.mem_append_left _ there) (sound.list.positive there)).symm
  obtain ⟨t, done, released⟩ := @insertCoalesced_spec cfg w.heap l _ sound.held free
  refine ⟨t, ?_, released⟩
  rw [deallocRaw, blockAt_eq owned, bind_ok]
  exact done

theorem Released.others {a : Grant} (released : Released w.heap t l (blockOf w.heap a.ptr)) (sound : Sound lo hi w l)
    (mem : a ∈ w.live) : (∀ c ∈ w.live.erase a, Owned t c) ∧
      ((w.live.erase a).map fun c => blockOf t c.ptr) = (w.live.erase a).map fun c => blockOf w.heap c.ptr := by
  refine owned_frame (sound.tiles_cons mem) (fun c there => sound.owned c (List.mem_of_mem_erase there)) fun x changed => ?_
  rw [← cover_coalesce]
  exact cover_headers released.list.proper (released.frame x changed)

theorem step_free {a : Grant} (sound : Sound lo hi w l) (mem : a ∈ w.live) :
    ∃ w', w.step cfg (.free a) = .ok w' ∧ Sound lo hi w' (coalesce (blockOf w.heap a.ptr) l) := by
  have owned := sound.owned a mem
  obtain ⟨t, done, released⟩ := @deallocRaw_spec cfg lo hi w l a sound mem
  -- Coalescing moves boundaries but covers the same addresses.
  have covered (x : Nat) : cover x (coalesce (blockOf w.heap a.ptr) l) = cover x (blockOf w.heap a.ptr :: l) := cover_coalesce
  have vacant (d : Freed) (there : d ∈ w.freed) : Vacant (coalesce (blockOf w.heap a.ptr) l) d.block := by
    intro x has
    have before := sound.vacant d there x has
    rw [covered, cover_cons]
    omega
  obtain ⟨ownedRest, same⟩ := released.others sound mem
  refine ⟨⟨t, w.live.erase a, ⟨a.ptr, blockOf w.heap a.ptr⟩ :: w.freed⟩, ?_, ?_⟩
  · rw [World.step, done]
    rfl
  · refine ⟨sound.low, sound.range, sound.high, ?_, released.list, ownedRest, fun x => ?_, ?_, ?_⟩
    · rw [released.range.1, released.range.2]
      exact sound.bounds
    · rw [World.blocks, same, cover_append, covered, ← cover_append]
      exact sound.tiles_cons mem x
    · refine List.forall_mem_cons.mpr ⟨?_, fun d there => ?_⟩
      · refine owned.marked.step released.list (fun x has => ?_) fun x _ => released.frame x
        rw [covered, cover_cons, if_pos has]
        omega
      · exact (sound.marked d there).step released.list (vacant d there) fun x _ => released.frame x
    · refine List.forall_mem_cons.mpr ⟨fun x has => ?_, vacant⟩
      rw [covered, cover_cons, if_pos has]
      omega

theorem owned_carved {before after : List Block} {b : Block} {size align stop : Nat} (proper : Proper b)
    (power : align.isPowerOfTwo) (cut : Cut b (userAt b.start align - 16) stop) (taken' : takenAt b.start align size ≤ stop)
    (carved : Carved s t before after b (userAt b.start align - 16) stop) :
    Owned t ⟨userAt b.start align, size, align⟩ ∧
      blockOf t (userAt b.start align) = taken b (userAt b.start align - 16) stop := by
  have above := @userAt_above b.start align power
  have payload := @takenAt_above b.start align size
  have start := proper.start
  have word : userAt b.start align % 8 = 0 := roundUp_word power (by omega)
  have pad := carved.pad
  have extra : userAt b.start align - 16 + 8 = userAt b.start align - 8 := by omega
  -- The pad is zero, or one word that was too small to stay free.
  have low : (taken b (userAt b.start align - 16) stop).start ≤ userAt b.start align - 16 ∧
      (userAt b.start align - 16 - (taken b (userAt b.start align - 16) stop).start = 0 ∨
        userAt b.start align - 16 - (taken b (userAt b.start align - 16) stop).start = 8) := by
    change lowOf b _ ≤ _ ∧ (_ - lowOf b _ = 0 ∨ _ - lowOf b _ = 8)
    rcases cut.lowOf_cases with ⟨-, -, is⟩ | ⟨small, -, is⟩
    · rw [is]
      omega
    · rw [is]
      omega
  rw [extra] at pad
  have block : blockOf t (userAt b.start align) = taken b (userAt b.start align - 16) stop := by
    rw [blockOf, pad, carved.size]
    exact congrArg₂ Block.mk (Nat.sub_sub_self low.1) rfl
  have stopAt : (taken b (userAt b.start align - 16) stop).stop = stop := by
    have header := cut.header
    change lowOf b _ + (stop - lowOf b _) = stop
    have below : lowOf b (userAt b.start align - 16) ≤ userAt b.start align - 16 := low.1
    omega
  refine ⟨⟨word, roundUp_mod, pad ▸ low.2, ?_, ?_, ?_⟩, block⟩
  · dsimp only
    rw [pad]
    omega
  · rw [block, stopAt]
    exact Nat.le_trans payload taken'
  · have words := cut.words
    have header := cut.header
    rw [block]
    change Proper ⟨lowOf b _, stop - lowOf b _⟩
    rcases cut.lowOf_cases with ⟨-, -, is⟩ | ⟨small, -, is⟩
    · rw [is]
      exact ⟨by dsimp only; omega, words.1, by dsimp only; omega⟩
    · rw [is]
      have low' := cut.low
      exact ⟨by dsimp only; omega, start, by dsimp only; omega⟩

theorem Owned.has_header {a : Grant} {x : Nat} (owned : Owned s a) (here : x = a.ptr - 16 ∨ x = a.ptr - 16 + 8) :
    (blockOf s a.ptr).Has x := by
  have above := owned.above
  rcases here with rfl | rfl
  · exact owned.has.1
  · rw [show a.ptr - 16 + 8 = a.ptr - 8 by omega]
    exact owned.has.2

/-- What a successful allocation writes lies in the block that was free. -/
theorem carved_writes {before after : List Block} {b : Block} {size align stop : Nat} (proper : Proper b)
    (power : align.isPowerOfTwo) (cut : Cut b (userAt b.start align - 16) stop) (taken' : takenAt b.start align size ≤ stop)
    (carved : Carved s t before after b (userAt b.start align - 16) stop) (x : Nat) (changed : t.word x ≠ s.word x) :
    0 < cover x (before ++ b :: after) := by
  obtain ⟨owned, block⟩ := owned_carved proper power cut taken' carved
  rw [← @Cut.cover_split b _ stop before after cut x]
  rcases carved.frame x changed with free | here
  · exact Nat.add_pos_left (cover_headers carved.list.proper free) _
  · exact Nat.add_pos_right _ (cover_pos_iff.mpr ⟨_, List.mem_cons_self, block ▸ owned.has_header here⟩)

theorem step_alloc {size align : Nat} (sound : Sound lo hi w l) (power : align.isPowerOfTwo) :
    ∃ w' l', w.step cfg (.alloc size align) = .ok w' ∧ Sound lo hi w' l' := by
  rcases @tryAlloc_spec cfg w.heap l align size sound.held power with
    ⟨done, -⟩ | ⟨before, b, after, t, stop, rfl, -, -, done, cut, taken', carved⟩
  · refine ⟨w, l, ?_, sound⟩
    rw [World.step, done]
    rfl
  · have proper : Proper b := sound.list.proper b (by simp)
    have above := @userAt_above b.start align power
    obtain ⟨owned, block⟩ := owned_carved proper power cut taken' carved
    have split (x : Nat) := @Cut.cover_split b _ stop before after cut x
    have header {x : Nat} (here : x = userAt b.start align - 16 ∨ x = userAt b.start align - 16 + 8) :
        (taken b (userAt b.start align - 16) stop).Has x := block ▸ owned.has_header here
    obtain ⟨ownedRest, same⟩ := owned_frame (t := t) sound.tiles sound.owned (carved_writes proper power cut taken' carved)
    have apart (d : Freed) (there : d ∈ w.freed.filter fun d => d.block.Apart (blockOf t (userAt b.start align))) :
        d ∈ w.freed ∧ ∀ x, d.block.Has x → ¬ (taken b (userAt b.start align - 16) stop).Has x := by
      obtain ⟨mem, apart⟩ := List.mem_filter.mp there
      have apart := of_decide_eq_true apart
      rw [block] at apart
      refine ⟨mem, fun x has has' => ?_⟩
      simp only [Block.Apart, Block.Has] at *
      omega
    -- A released block that the new one does not meet is still all free.
    have vacant (d : Freed) (there : d ∈ w.freed.filter fun d => d.block.Apart (blockOf t (userAt b.start align))) :
        Vacant (before ++ (lead b (userAt b.start align - 16) ++ back b stop ++ after)) d.block := by
      intro x has
      have old := sound.vacant d (apart d there).1 x has
      have none : cover x [taken b (userAt b.start align - 16) stop] = 0 :=
        cover_eq_zero_iff.mpr fun c mem => List.mem_singleton.mp mem ▸ (apart d there).2 x has
      rw [← split x, none] at old
      exact old
    refine ⟨⟨t, ⟨userAt b.start align, size, align⟩ :: w.live,
      w.freed.filter fun d => d.block.Apart (blockOf t (userAt b.start align))⟩, _, ?_, sound.low, sound.range, sound.high, ?_, carved.list,
      List.forall_mem_cons.mpr ⟨owned, ownedRest⟩, fun x => ?_, fun d there => ?_, vacant⟩
    · rw [World.step, done, bind_ok]
      dsimp only
      rw [if_neg (by omega)]
      rfl
    · rw [carved.range.1, carved.range.2]
      exact sound.bounds
    · have whole := sound.tiles x
      rw [cover_append, ← split x] at whole
      rw [World.blocks, List.map_cons, same, block, cover_append, cover_cons, ← whole, World.blocks, cover_cons, cover_nil]
      omega
    · refine (sound.marked d (apart d there).1).step carved.list (vacant d there) fun x has changed => ?_
      rcases carved.frame x changed with free | here
      · exact free
      · exact absurd (header here) ((apart d there).2 x has)

/-- No call stops the kernel, and the invariant is kept. -/
theorem step_spec {op : Op} (sound : Sound lo hi w l) (allowed : op.Allowed w) :
    ∃ w' l', w.step cfg op = .ok w' ∧ Sound lo hi w' l' := by
  cases op with
  | alloc size align => exact step_alloc sound allowed
  | free a =>
    obtain ⟨w', done, kept⟩ := @step_free cfg lo hi w l a sound allowed
    exact ⟨w', _, done, kept⟩
  | write a addr value =>
    obtain ⟨w', done, kept⟩ := @step_write cfg lo hi w l a addr value sound allowed
    exact ⟨w', l, done, kept⟩

theorem step_sound {op : Op} {w' : World} (sound : ∃ l, Sound lo hi w l) (step : Steps cfg w op w') : ∃ l, Sound lo hi w' l := by
  obtain ⟨l, sound⟩ := sound
  obtain ⟨w'', l', done, kept⟩ := @step_spec cfg lo hi w l op sound step.1
  obtain rfl : w' = w'' := Except.ok.inj (step.2.symm.trans done)
  exact ⟨l', kept⟩

def fresh (s : State) : World := ⟨s, [], []⟩

theorem init_sound {word : Nat → Nat} (ok : init word lo hi = .ok s) (whole : hi % 8 = 0) (high : hi < 2 ^ 64) :
    Sound lo hi (fresh s) [⟨lo, hi - lo⟩] := by
  rw [init] at ok
  by_cases unusable : lo % headerAlign ≠ 0 ∨ hi ≤ lo ∨ hi - lo < minFree
  · rw [if_pos unusable] at ok
    cases ok
  · rw [if_neg unusable] at ok
    by_cases null : lo = 0
    · rw [if_pos null] at ok
      cases ok
    · rw [if_neg null] at ok
      obtain rfl := Except.ok.inj ok
      rw [headerAlign, minFree, header] at unusable
      refine ⟨Nat.pos_of_ne_zero null, by omega, high, ⟨rfl, rfl⟩, ⟨?_, ?_, ?_, ?_⟩, List.forall_mem_nil _, fun x => ?_,
        List.forall_mem_nil _, List.forall_mem_nil _⟩
      · exact Chain.cons_iff.mpr ⟨rfl, null, next_header, List.not_mem_nil⟩
      · exact List.forall_mem_cons.mpr ⟨word_header, List.forall_mem_nil _⟩
      · exact List.pairwise_singleton _ _
      · refine List.forall_mem_cons.mpr ⟨⟨?_, ?_, ?_⟩, List.forall_mem_nil _⟩
        · dsimp only
          omega
        · dsimp only
          omega
        · dsimp only
          omega
      · change cover x [⟨lo, hi - lo⟩] = _
        rw [cover_cons, cover_nil, Nat.add_zero]
        refine if_congr ?_ rfl rfl
        change (lo ≤ x ∧ x < lo + (hi - lo)) ↔ _
        omega

theorem run_sound {word : Nat → Nat} {ops : List Op} (ok : init word lo hi = .ok s) (whole : hi % 8 = 0) (high : hi < 2 ^ 64)
    (run : Run (Steps cfg) (fresh s) ops w) : ∃ l, Sound lo hi w l := by
  have start : ∃ l, Sound lo hi (fresh s) l := ⟨_, init_sound ok whole high⟩
  exact run.invariant (fun _ _ _ sound step => step_sound sound step) start

end

end Whimbrel.Heap
