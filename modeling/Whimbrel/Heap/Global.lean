import Whimbrel.Heap.Exhaust

/-! The global allocator: `GlobalAlloc for Heap`, `free_stats` and `region_size` of
`src/heap.rs`. -/

set_option autoImplicit false

namespace Whimbrel.Heap

open Checked Blocks Linked

/-- Why the allocator stops the kernel, with the layout the message prints. -/
inductive Stop where
  /-- A panic of the list operations. -/
  | raw (why : Panic)
  | beforeInit (size align : Nat)
  | reentered (size align : Nat)
  | exhausted (size align : Nat)
  | deallocReentered (size align : Nat)
  | looksCyclic
  deriving DecidableEq, Repr

structure Global where
  heap : State
  inAlloc : Bool

/-- `alloc`; `IN_ALLOC` is set around `try_alloc` only. -/
def Global.alloc (cfg : Config) (g : Global) (size align : Nat) : Except Stop (Global × Nat) := do
  if g.heap.heapStart = 0 then throw (.beforeInit size align)
  if g.inAlloc then throw (.reentered size align)
  let (heap, p) ← (tryAlloc cfg g.heap size align).mapError .raw
  if p = 0 then throw (.exhausted size align)
  return (⟨heap, false⟩, p)

def Global.dealloc (cfg : Config) (g : Global) (ptr size align : Nat) : Except Stop Global := do
  if g.inAlloc then throw (.deallocReentered size align)
  let heap ← (deallocRaw cfg g.heap ptr).mapError .raw
  return ⟨heap, false⟩

def statsFrom (cfg : Config) (s : State) (left cur n bytes : Nat) : Except Stop (Nat × Nat) :=
  if cur = 0 then .ok (n, bytes) else do
    let bytes ← (plus cfg bytes (s.word cur)).mapError .raw
    match left with
    | 0 => throw .looksCyclic
    | left + 1 => statsFrom cfg s left (s.next cur) (n + 1) bytes

def freeStats (cfg : Config) (s : State) : Except Stop (Nat × Nat) := statsFrom cfg s 1024 s.head 0 0

def regionSize (s : State) : Nat := s.heapEnd - s.heapStart

section
variable {cfg : Config} {lo hi size align : Nat} {s : State} {w : World} {l : List Block}

theorem statsFrom_chain {left cur n total : Nat} (chain : Chain s.next 0 cur (starts l)) (sized : ∀ b ∈ l, s.word b.start = b.size)
    (short : l.length ≤ left) (small : total + bytes l < 2 ^ 64) :
    statsFrom cfg s left cur n total = .ok (n + l.length, total + bytes l) := by
  induction l generalizing left cur n total with
  | nil =>
    unfold statsFrom
    rw [if_pos (chain.eq_nil_iff.mp rfl)]
    rfl
  | cons b l ih =>
    obtain ⟨rfl, some, rest⟩ := Chain.cons_iff.mp chain
    have size := sized b List.mem_cons_self
    have parts : bytes (b :: l) = b.size + bytes l := rfl
    cases left with
    | zero => cases short
    | succ left =>
      have sum : plus cfg total (s.word b.start) = .ok (total + b.size) := by
        rw [plus, size, if_pos (by omega)]
      rw [statsFrom, if_neg some, sum]
      refine (ih rest (fun c mem => sized c (List.mem_cons_of_mem b mem)) (Nat.le_of_succ_le_succ short) (by omega)).trans ?_
      rw [List.length_cons, parts]
      congr 2 <;> omega

theorem freeStats_eq (sound : Sound lo hi w l) (short : l.length ≤ 1024) : freeStats cfg w.heap = .ok (l.length, bytes l) := by
  have total := sound.total
  have high := sound.high
  rw [freeStats, statsFrom_chain sound.list.chain sound.list.sized short (by omega), Nat.zero_add, Nat.zero_add]

/-- With nothing live the free list is the region, in one block. -/
theorem freeStats_idle (sound : Sound lo hi w l) (idle : w.live = []) :
    freeStats cfg w.heap = .ok (1, regionSize w.heap) := by
  have tiles := sound.tiles
  rw [World.blocks, idle, List.map_nil, List.append_nil] at tiles
  have whole : l = [⟨lo, hi - lo⟩] :=
    sound.list.separated.eq_singleton tiles (fun b mem => sound.list.positive mem) sound.range
  subst whole
  rw [freeStats_eq sound (by simp), regionSize, sound.bounds.1, sound.bounds.2]
  rfl

theorem Global.alloc_eq {g : Global} {t : State} {p : Nat} (idle : g.inAlloc = false) (booted : 0 < g.heap.heapStart)
    (done : tryAlloc cfg g.heap size align = .ok (t, p)) (some : p ≠ 0) : g.alloc cfg size align = .ok (⟨t, false⟩, p) := by
  rw [Global.alloc, if_neg (Nat.ne_of_gt booted), idle, if_neg Bool.false_ne_true, done]
  exact if_neg some

theorem Global.dealloc_eq {g : Global} {t : State} {p : Nat} (idle : g.inAlloc = false) (done : deallocRaw cfg g.heap p = .ok t) :
    g.dealloc cfg p size align = .ok ⟨t, false⟩ := by
  rw [Global.dealloc, idle, if_neg Bool.false_ne_true, done]
  rfl

end

end Whimbrel.Heap
