import Whimbrel.Heap.Guarantees
import Whimbrel.Lib.Tiling

/-! When the heap is exhausted.

`alloc` of `src/heap.rs` stops the kernel when nothing fits. A block is hardly larger
than what was asked for, and the free list is hardly longer than the list of live
blocks, so a working set of bounded size cannot make an allocation fail, in whatever
order it was built. -/

set_option autoImplicit false

namespace Whimbrel.Heap

open Checked Blocks Transition

section
variable {cfg : Config} {lo hi size align : Nat} {w w' : World} {l : List Block}

/-- Every live block is at most a header and two slivers larger than the request, rounded up to words. -/
def Snug (w : World) : Prop := ∀ a ∈ w.live, (blockOf w.heap a.ptr).size < a.size + 40

theorem roundUp_lt {x : Nat} (pos : 0 < align) : roundUp x align < x + align := by
  have split := Nat.div_add_mod' (x + (align - 1)) align
  rw [roundUp]
  omega

theorem taken_size_lt {b : Block} {stop : Nat} (proper : Proper b) (power : align.isPowerOfTwo)
    (cut : Cut b (userAt b.start align - 16) stop) (snug : stop < takenAt b.start align size + 16) :
    (taken b (userAt b.start align - 16) stop).size < size + 40 := by
  have above := @userAt_above b.start align power
  have start := proper.start
  have word : userAt b.start align % 8 = 0 := roundUp_word power (by omega)
  have words := cut.words
  have end' : takenAt b.start align size < userAt b.start align + size + 8 := roundUp_lt (by decide)
  have endWord : takenAt b.start align size % 8 = 0 := roundUp_mod
  change stop - lowOf b _ < _
  rcases cut.lowOf_cases with ⟨-, -, is⟩ | ⟨small, -, is⟩
  · rw [is]
    omega
  · rw [is]
    omega

theorem room_of_large {b : Block} (power : align.isPowerOfTwo) (large : align + size + 21 < b.size) : Room align size b := by
  have user : userAt b.start align < b.start + 16 + align := roundUp_lt (Nat.pos_of_isPowerOfTwo power)
  have end' : takenAt b.start align size < userAt b.start align + size + 8 := roundUp_lt (by decide)
  rw [Room, Block.stop]
  omega

theorem alloc_snug (sound : Sound lo hi w l) (snug : Snug w) (power : align.isPowerOfTwo)
    (done : w.step cfg (.alloc size align) = .ok w') : Snug w' := by
  rw [World.step] at done
  rcases @tryAlloc_cut cfg w.heap l align size sound.held power with
    ⟨failed, -⟩ | ⟨before, b, after, t, stop, rfl, -, -, took, cut, taken', near, carved⟩
  · rw [failed, bind_ok] at done
    dsimp only at done
    rw [if_pos rfl] at done
    exact Except.ok.inj done ▸ snug
  · have proper : Proper b := sound.list.proper b (by simp)
    have above := @userAt_above b.start align power
    have block := (owned_carved proper power cut taken' carved).2
    have same := (owned_frame (t := t) sound.tiles sound.owned (carved_writes proper power cut taken' carved)).2
    rw [took, bind_ok] at done
    dsimp only at done
    rw [if_neg (by omega)] at done
    obtain rfl := Except.ok.inj done
    refine List.forall_mem_cons.mpr ⟨?_, fun a mem => ?_⟩
    · rw [block]
      exact taken_size_lt proper power cut near
    · have kept : blockOf t a.ptr = blockOf w.heap a.ptr := List.map_inj_left.mp same a mem
      rw [kept]
      exact snug a mem

theorem free_snug {a : Grant} (sound : Sound lo hi w l) (snug : Snug w) (mem : a ∈ w.live)
    (done : w.step cfg (.free a) = .ok w') : Snug w' := by
  obtain ⟨t, freed, released⟩ := @deallocRaw_spec cfg lo hi w l a sound mem
  rw [World.step, freed] at done
  obtain rfl := Except.ok.inj done
  intro c there
  have kept : blockOf t c.ptr = blockOf w.heap c.ptr := List.map_inj_left.mp (released.others sound mem).2 c there
  rw [kept]
  exact snug c (List.mem_of_mem_erase there)

theorem step_snug {op : Op} (sound : ∃ l, Sound lo hi w l) (snug : Snug w) (step : Steps cfg w op w') : Snug w' := by
  obtain ⟨l, sound⟩ := sound
  obtain ⟨allowed, done⟩ := step
  cases op with
  | alloc size align => exact alloc_snug sound snug allowed done
  | free a => exact free_snug sound snug allowed done
  | write a addr value =>
    obtain rfl := Except.ok.inj done
    intro c there
    have kept : blockOf (w.heap.written addr value) c.ptr = blockOf w.heap c.ptr := (sound.written allowed there).2
    change (blockOf (w.heap.written addr value) c.ptr).size < _
    rw [kept]
    exact snug c there

/-! ## Room -/

theorem Sound.positive (sound : Sound lo hi w l) : ∀ b ∈ l ++ w.blocks, 0 < b.size := by
  intro b mem
  rcases List.mem_append.mp mem with free | live
  · exact sound.list.positive free
  · obtain ⟨a, there, rfl⟩ := List.mem_map.mp live
    exact Nat.lt_of_lt_of_le (by decide) (sound.owned a there).proper.large

theorem Sound.total (sound : Sound lo hi w l) : bytes l + bytes w.blocks = hi - lo := by
  rw [← bytes_append]
  exact sound.tiles.sum_size sound.positive (Nat.le_of_lt sound.range)

/-- The largest free block, when few blocks are live and none is large. -/
theorem Sound.exists_free {k n q : Nat} (sound : Sound lo hi w l) (snug : Snug w) (few : w.live.length ≤ k)
    (small : ∀ a ∈ w.live, a.size ≤ n) (enough : k * (n + 39) + (k + 1) * q < hi - lo) : ∃ b ∈ l, q < b.size := by
  have count : w.blocks.length = w.live.length := List.length_map _
  have total := sound.total
  have number := sound.tiles.length_le sound.list.separated sound.positive
  have used : bytes w.blocks ≤ w.blocks.length * (n + 39) := by
    refine sum_size_le fun b mem => ?_
    obtain ⟨a, there, rfl⟩ := List.mem_map.mp mem
    have block := snug a there
    have request := small a there
    omega
  have most : w.blocks.length * (n + 39) ≤ k * (n + 39) := Nat.mul_le_mul_right _ (count ▸ few)
  have free : (k + 1) * q < bytes l := by omega
  exact exists_large (by omega) free

theorem Sound.tryAlloc_room (cfg : Config) {k n : Nat} (sound : Sound lo hi w l) (snug : Snug w) (few : w.live.length ≤ k)
    (small : ∀ a ∈ w.live, a.size ≤ n) (request : size ≤ n) (power : align.isPowerOfTwo)
    (enough : (k + 1) * (2 * n + align + 61) ≤ hi - lo) : ∃ t p, tryAlloc cfg w.heap size align = .ok (t, p) ∧ p ≠ 0 := by
  have parts : (k + 1) * (2 * n + align + 61) = (k + 1) * (n + 39) + (k + 1) * (align + n + 22) := by
    rw [← Nat.mul_add]
    congr 1
    omega
  rw [parts, Nat.succ_mul] at enough
  obtain ⟨b, mem, large⟩ := sound.exists_free snug few small (q := align + n + 22) (by omega)
  have room : Room align size b := room_of_large power (by omega)
  rcases @tryAlloc_spec cfg w.heap l align size sound.held power with
    ⟨-, none⟩ | ⟨-, c, -, t, -, -, -, -, took, -, -, -⟩
  · exact absurd room (none b mem)
  · have above := @userAt_above c.start align power
    exact ⟨t, userAt c.start align, took, by omega⟩

/-- Whatever the history, an allocation succeeds while at most `k` pointers are live and no request is above `n`
bytes, if the heap is `k + 1` times as large as twice a request with its alignment and headers. -/
theorem tryAlloc_not_exhausted {word : Nat → Nat} {s : State} {ops : List Op} {k n : Nat} (ok : init word lo hi = .ok s)
    (whole : hi % 8 = 0) (high : hi < 2 ^ 64) (run : Run (Steps cfg) (fresh s) ops w) (few : w.live.length ≤ k)
    (small : ∀ a ∈ w.live, a.size ≤ n) (request : size ≤ n) (power : align.isPowerOfTwo)
    (enough : (k + 1) * (2 * n + align + 61) ≤ hi - lo) : ∃ t p, tryAlloc cfg w.heap size align = .ok (t, p) ∧ p ≠ 0 := by
  have start : (∃ l, Sound lo hi (fresh s) l) ∧ Snug (fresh s) := ⟨⟨_, init_sound ok whole high⟩, List.forall_mem_nil _⟩
  have always : (∃ l, Sound lo hi w l) ∧ Snug w :=
    @Run.invariant _ _ (Steps cfg) (fun w => (∃ l, Sound lo hi w l) ∧ Snug w)
      (fun _ _ _ inv step => ⟨step_sound inv.1 step, step_snug inv.1 inv.2 step⟩) _ _ _ run start
  obtain ⟨⟨l, sound⟩, snug⟩ := always
  exact sound.tryAlloc_room cfg snug few small request power enough

end

/-- A page holds a second block of 24 bytes at a multiple of 64 beside a first. -/
theorem tryAlloc_not_exhausted_page : ∃ w, Run (Steps .default) (fresh page) [.alloc 24 64] w ∧ w.live.length = 1 ∧
    ∃ t p, tryAlloc .default w.heap 24 64 = .ok (t, p) ∧ p ≠ 0 := by
  obtain ⟨t, p, took, some⟩ := @tryAlloc_not_exhausted .default 4096 8192 24 64 _ _ page [] 0 24 init_page rfl (by decide) .nil
    (Nat.le_refl 0) (List.forall_mem_nil _) (Nat.le_refl 24) ⟨6, rfl⟩ (by decide)
  have step : (fresh page).step .default (.alloc 24 64) = .ok ⟨t, [⟨p, 24, 64⟩], []⟩ := by
    rw [World.step, show tryAlloc .default (fresh page).heap 24 64 = .ok (t, p) from took, bind_ok]
    exact if_neg some
  have run : Run (Steps .default) (fresh page) [.alloc 24 64] ⟨t, [⟨p, 24, 64⟩], []⟩ := .single ⟨⟨6, rfl⟩, step⟩
  refine ⟨_, run, rfl, ?_⟩
  exact @tryAlloc_not_exhausted .default 4096 8192 24 64 _ _ page _ 1 24 init_page rfl (by decide) run
    (Nat.le_refl 1) (List.forall_mem_cons.mpr ⟨Nat.le_refl 24, List.forall_mem_nil _⟩) (Nat.le_refl 24) ⟨6, rfl⟩ (by decide)

end Whimbrel.Heap
