import Whimbrel.Heap.History

/-! What holds of the heap in every history: safety and conservation, first fit, and that a
second release is caught. -/

set_option autoImplicit false

namespace Whimbrel.Heap

open Checked Blocks Linked Transition

section
variable {cfg : Config} {lo hi size align : Nat} {s : State} {w : World} {word : Nat → Nat} {ops : List Op}

/-- In every history no call stops the kernel, the free list is sorted, proper and coalesced, live
pointers are aligned with header and payload in their blocks, and free and live blocks
partition the heap; when nothing is live the list is the whole heap. -/
theorem heap_sound (ok : init word lo hi = .ok s) (whole : hi % 8 = 0) (high : hi < 2 ^ 64)
    (run : Run (Steps cfg) (fresh s) ops w) :
    (∀ op : Op, op.Allowed w → ∃ w', w.step cfg op = .ok w') ∧
      ∃ l, FreeList w.heap l ∧ (∀ b ∈ l, lo ≤ b.start ∧ b.stop ≤ hi) ∧
        (∀ a ∈ w.live, a.ptr % a.align = 0 ∧ (blockOf w.heap a.ptr).start + 16 ≤ a.ptr ∧
          a.ptr + a.size ≤ (blockOf w.heap a.ptr).stop) ∧
        Tiles lo hi (l ++ w.blocks) ∧ (w.live = [] → l = [⟨lo, hi - lo⟩]) := by
  obtain ⟨l, sound⟩ := run_sound ok whole high run
  refine ⟨fun op allowed => ?_, l, sound.list, ?_, fun a mem => ?_, sound.tiles, fun none => ?_⟩
  · obtain ⟨w', -, done, -⟩ := @step_spec cfg lo hi w l op sound allowed
    exact ⟨w', done⟩
  · exact fun b mem => sound.tiles.within (List.mem_append_left _ mem) (sound.list.positive mem)
  · have owned := sound.owned a mem
    have above := owned.above
    refine ⟨owned.aligned, ?_, owned.payload⟩
    change a.ptr - 16 - w.heap.word (a.ptr - 8) + 16 ≤ a.ptr
    omega
  · have tiles := sound.tiles
    rw [World.blocks, none, List.map_nil, List.append_nil] at tiles
    exact sound.list.separated.eq_singleton tiles (fun b mem => sound.list.positive mem) sound.range

end

def page : State := { ((⟨0, 4096, 8192, fun _ => 0⟩ : State).setSize 4096 4096).setNext 4096 0 with head := 4096 }

theorem init_page : init (fun _ => 0) 4096 8192 = .ok page := rfl

theorem heap_sound_page : ∃ w, Run (Steps .default) (fresh page) [.alloc 24 64] w ∧
    (∀ op : Op, op.Allowed w → ∃ w', w.step .default op = .ok w') ∧ ∃ l, Tiles 4096 8192 (l ++ w.blocks) := by
  obtain ⟨w, step⟩ := (@heap_sound .default 4096 8192 page _ _ [] init_page rfl (by decide) .nil).1 (.alloc 24 64) ⟨6, rfl⟩
  have run : Run (Steps .default) (fresh page) [.alloc 24 64] w := .single ⟨⟨6, rfl⟩, step⟩
  obtain ⟨returns, l, -, -, -, tiles, -⟩ := heap_sound init_page rfl (by decide) run
  exact ⟨w, run, returns, l, tiles⟩

section
variable {cfg : Config} {lo hi size align : Nat} {s : State} {w : World} {word : Nat → Nat} {ops : List Op}

def bytes (l : List Block) : Nat := (l.map Block.size).sum

theorem bytes_append {l m : List Block} : bytes (l ++ m) = bytes l + bytes m := by
  rw [bytes, List.map_append, List.sum_append, bytes, bytes]

theorem Cut.bytes_eq {b : Block} {hdr stop : Nat} (cut : Cut b hdr stop) :
    bytes (lead b hdr ++ back b stop) + (taken b hdr stop).size = b.size := by
  have low := cut.low
  have header := cut.header
  rw [bytes_append, taken]
  rcases cut.lowOf_cases with ⟨large, isLead, isLow⟩ | ⟨small, isLead, isLow⟩ <;>
  rcases cut.back_cases with ⟨room, isBack⟩ | ⟨whole, isBack⟩
  all_goals
    rw [isLead, isLow, isBack]
    simp only [bytes, List.map_cons, List.map_nil, List.sum_cons, List.sum_nil, Block.stop] at *
    omega

/-- An allocation fails exactly where no free block admits a pointer, and then changes nothing; otherwise
it is the least pointer of the first block that admits one, and the bytes it takes are recorded. -/
theorem tryAlloc_first_fit (ok : init word lo hi = .ok s) (whole : hi % 8 = 0) (high : hi < 2 ^ 64)
    (run : Run (Steps cfg) (fresh s) ops w) (power : align.isPowerOfTwo) :
    ∃ l t p, FreeList w.heap l ∧ tryAlloc cfg w.heap size align = .ok (t, p) ∧
      (p = 0 ↔ ¬ ∃ b ∈ l, ∃ u, Admits b align size u) ∧ (p = 0 → t = w.heap) ∧
      (p ≠ 0 → ∃ before b after l', l = before ++ b :: after ∧ (¬ ∃ c ∈ before, ∃ u, Admits c align size u) ∧
        Admits b align size p ∧ (∀ u, Admits b align size u → p ≤ u) ∧ FreeList t l' ∧ bytes l = bytes l' + t.word (p - 16)) := by
  obtain ⟨l, sound⟩ := run_sound ok whole high run
  -- Room for the least pointer is room for any: `Room` decides `Admits`.
  have none {m : List Block} (all : ∀ b ∈ m, ¬ Room align size b) : ¬ ∃ b ∈ m, ∃ u, Admits b align size u := by
    rintro ⟨b, mem, fits⟩
    exact all b mem ((admits_iff power).mp fits)
  rcases @tryAlloc_spec cfg w.heap l align size sound.held power with
    ⟨done, all⟩ | ⟨before, b, after, t, stop, rfl, all, room, done, cut, -, carved⟩
  · exact ⟨l, w.heap, 0, sound.list, done, ⟨fun _ => none all, fun _ => rfl⟩, fun _ => rfl, fun some => absurd rfl some⟩
  · have above := @userAt_above b.start align power
    have admits : Admits b align size (userAt b.start align) := ⟨roundUp_mod, above, room⟩
    refine ⟨_, t, userAt b.start align, sound.list, done, ⟨fun zero => ?_, fun some => ?_⟩, fun zero => ?_, fun _ => ?_⟩
    · omega
    · exact absurd ⟨b, by simp, _, admits⟩ some
    · omega
    · refine ⟨before, b, after, _, rfl, none all, admits, fun u fits => ?_, carved.list, ?_⟩
      · exact roundUp_le (Nat.pos_of_isPowerOfTwo power) fits.aligned fits.above
      · have pieces := cut.bytes_eq
        have split : before ++ b :: after = before ++ ([b] ++ after) := rfl
        have single : bytes [b] = b.size := Nat.add_zero b.size
        rw [carved.size, split, bytes_append, bytes_append, bytes_append, bytes_append, single]
        omega

end

theorem tryAlloc_first_fit_page : ∃ l t, FreeList page l ∧ tryAlloc .default page 24 64 = .ok (t, 4160) ∧
    ∃ b ∈ l, Admits b 64 24 4160 := by
  obtain ⟨l, t, p, list, done, -, -, taken⟩ :=
    @tryAlloc_first_fit .default 4096 8192 24 64 page _ _ [] init_page rfl (by decide) .nil ⟨6, rfl⟩
  obtain rfl : p = 4160 := by
    have value : (tryAlloc .default page 24 64).map (·.2) = .ok 4160 := by decide +kernel
    rw [show tryAlloc .default page 24 64 = .ok (t, p) from done] at value
    exact Except.ok.inj value
  obtain ⟨before, b, after, -, rfl, -, admits, -⟩ := taken (by decide)
  exact ⟨_, t, list, done, b, by simp, admits⟩

def sliver : State := { ((⟨0, 4096, 4112, fun _ => 0⟩ : State).setSize 4096 16).setNext 4096 0 with head := 4096 }

/-- An empty request gets the end of a block, which is not an address in it. -/
theorem tryAlloc_sliver : init (fun _ => 0) 4096 4112 = .ok sliver ∧ FreeList sliver [⟨4096, 16⟩] ∧
    (tryAlloc .default sliver 0 1).map (·.2) = .ok 4112 ∧
    ¬ ∃ b ∈ [(⟨4096, 16⟩ : Block)], ∃ u, b.Has u ∧ Admits b 1 0 u := by
  have start : init (fun _ => 0) 4096 4112 = .ok sliver := rfl
  refine ⟨start, (init_sound start rfl (by decide)).list, by decide +kernel, ?_⟩
  rintro ⟨b, mem, u, has, admits⟩
  obtain rfl := List.mem_singleton.mp mem
  have above : 4096 + 16 ≤ u := admits.above
  have below : u < 4096 + 16 := has.2
  omega

section
variable {cfg : Config} {lo hi size align : Nat} {s : State} {w : World} {word : Nat → Nat} {ops : List Op}

/-! ## Double free -/

/-- A block that starts inside a free one is refused before anything is written. -/
theorem checkInsert_inside {l : List Block} {c : Block} {start n : Nat} (held : Held s l) (mem : c ∈ l) (lower : c.start ≤ start)
    (upper : start < c.stop) : ∃ e, e ≠ .heapCyclic ∧ checkInsert cfg s start n = .error e := by
  have top := held.high
  have inside := held.inside c mem
  obtain ⟨before, after, rfl⟩ := List.append_of_mem mem
  have short := held.short
  rw [List.length_append] at short
  have gaps := (separated_append.mp held.separated).2.2
  have walk : findGap cfg s start walkLimit 0 s.head =
      findGap cfg s start (walkLimit - before.length) (lastOf 0 (starts before)) c.start := by
    rw [findGap_passes held.chain (fun b there => held.sized b (List.mem_append_left _ there)) ?_ (by omega) (by omega)]
    · rfl
    · intro b there
      have gap := gaps b there c List.mem_cons_self
      refine ⟨?_, by omega⟩
      rw [Block.stop] at gap
      omega
  obtain ⟨left, some⟩ : ∃ k, walkLimit - before.length = k + 1 := ⟨walkLimit - before.length - 1, by omega⟩
  rw [checkInsert, walk, some]
  by_cases range : inHeap s start n = true
  · rw [range]
    -- Inside the block the walk itself stops; at its start the check of the next block does.
    rcases Nat.lt_or_eq_of_le lower with below | rfl
    · rw [findGap_overlap (held.start_ne mem) (held.sized c mem) (by omega) below upper]
      exact ⟨_, by decide, rfl⟩
    · obtain ⟨large, -, -, small, -⟩ := inHeap_iff.mp range
      have hits : c.start + n > c.start := by omega
      rw [findGap_stops fun _ => Nat.le_refl _, Bool.not_true, if_neg Bool.false_ne_true, bind_ok]
      dsimp only
      rw [if_pos (held.start_ne mem), plus_of_lt cfg small, bind_ok, if_pos hits]
      exact ⟨_, by decide, rfl⟩
  · rw [Bool.not_eq_true] at range
    rw [range]
    exact ⟨_, by decide, rfl⟩

/-- The remains of a released header name a block inside a free one, or no block. -/
theorem blockAt_marked {d : Freed} (marked : Marked s d) :
    (∃ e, e ≠ .heapCyclic ∧ blockAt s d.ptr = .error e) ∨ ∃ n, blockAt s d.ptr = .ok (d.block.start, n) := by
  have above := marked.above
  have word := marked.word
  have extra : d.ptr - 16 + 8 = d.ptr - 8 := by omega
  rw [blockAt, header, headerAlign, if_neg (by omega), if_neg (by omega)]
  dsimp only
  rw [if_neg (by omega), extra]
  rcases marked.extra with ⟨start, none | large⟩ | ⟨start, pad⟩
  · rw [none, if_neg (by omega), start]
    exact .inr ⟨_, rfl⟩
  · rw [if_pos large]
    exact .inl ⟨_, by decide, rfl⟩
  · rw [pad, if_neg (by omega), ← start, Nat.add_sub_cancel]
    exact .inr ⟨_, rfl⟩

/-- A pointer that is released again, with its former block untouched by any allocation since,
stops the kernel before the free list is written, by one of its checks and not for the length of a walk. -/
theorem heap_doubleFree (ok : init word lo hi = .ok s) (whole : hi % 8 = 0) (high : hi < 2 ^ 64)
    (run : Run (Steps cfg) (fresh s) ops w) {d : Freed} (mem : d ∈ w.freed) :
    ∃ e, e ≠ .heapCyclic ∧
      (blockAt w.heap d.ptr >>= fun found => checkInsert cfg w.heap found.1 found.2) = .error e ∧
      deallocRaw cfg w.heap d.ptr = .error e := by
  obtain ⟨l, sound⟩ := run_sound ok whole high run
  have marked := sound.marked d mem
  rcases blockAt_marked marked with ⟨e, checked, failed⟩ | ⟨n, read⟩
  · rw [deallocRaw, failed]
    exact ⟨e, checked, rfl, rfl⟩
  · have inside : d.block.start < d.block.stop := by
      have fits := marked.fits
      have above := marked.above
      have extra := marked.extra
      omega
    have pos : 0 < d.block.size := by
      rw [Block.stop] at inside
      omega
    -- Every address of the former block is free, so one block of the list holds all of it.
    obtain ⟨c, there, lower, upper⟩ := sound.list.separated.holds_whole pos (sound.vacant d mem)
    obtain ⟨e, checked, failed⟩ := @checkInsert_inside cfg w.heap l c d.block.start n sound.held there lower
      (Nat.lt_of_lt_of_le inside upper)
    refine ⟨e, checked, ?_, ?_⟩
    · rw [read, bind_ok]
      exact failed
    · rw [deallocRaw, read, bind_ok]
      dsimp only
      rw [insertCoalesced, failed]
      rfl

end

theorem heap_doubleFree_page : ∃ ops w d e, Run (Steps .default) (fresh page) ops w ∧ d ∈ w.freed ∧
    e ≠ .heapCyclic ∧ deallocRaw .default w.heap d.ptr = .error e := by
  have evaluated : ((fresh page).step .default (.alloc 24 64) >>= fun w => (fun u => (w.live, u.freed)) <$>
      w.step .default (.free ⟨4160, 24, 64⟩)) = .ok ([⟨4160, 24, 64⟩], [⟨4160, ⟨4144, 40⟩⟩]) := by decide +kernel
  obtain ⟨w, first, evaluated⟩ := of_bind_ok evaluated
  obtain ⟨u, second, both⟩ := of_map_ok evaluated
  obtain ⟨live, freed⟩ := Prod.mk.inj both
  have held : ⟨4160, 24, 64⟩ ∈ w.live := live ▸ List.mem_cons_self
  have run : Run (Steps .default) (fresh page) [.alloc 24 64, .free ⟨4160, 24, 64⟩] u :=
    .cons ⟨⟨6, rfl⟩, first⟩ (.single ⟨held, second⟩)
  have mem : ⟨4160, ⟨4144, 40⟩⟩ ∈ u.freed := freed ▸ List.mem_cons_self
  obtain ⟨e, checked, -, stopped⟩ := heap_doubleFree init_page rfl (by decide) run mem
  exact ⟨_, u, _, e, run, mem, checked, stopped⟩

end Whimbrel.Heap
