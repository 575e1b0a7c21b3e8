import Whimbrel.Heap.Carve
import Whimbrel.Heap.Fit

/-! Allocation: `try_alloc` of `src/heap.rs` takes the first block with room. -/

set_option autoImplicit false

namespace Whimbrel.Heap

open Checked Blocks Linked

def Room (align size : Nat) (b : Block) : Prop := takenAt b.start align size ≤ b.stop

section
variable {cfg : Config} {s : State} {l : List Block} {align size : Nat} {found : Option Found}

/-- Where the loop gives up at a block, no later block has room either. -/
theorem no_room_after {b : Block} {after : List Block} (held : Held s l) (separated : Separated (b :: after))
    (sub : ∀ c ∈ after, c ∈ l) (large : 2 ^ 64 ≤ takenAt b.start align size) : ∀ c ∈ after, ¬ Room align size c := by
  intro c mem room
  have gap := (List.pairwise_cons.mp separated).1 c mem
  have later : takenAt b.start align size ≤ takenAt c.start align size :=
    takenAt_mono (Nat.le_of_lt (Nat.lt_of_le_of_lt (Nat.le_add_right _ _) gap))
  have inside := (held.inside c (sub c mem)).2
  have top := held.high
  rw [Room] at room
  omega

theorem scanned_first (held : Held s l) (power : align.isPowerOfTwo) (scanned : Scanned l align size 0 found) :
    (found = none ∧ ∀ b ∈ l, ¬ Room align size b) ∨
      ∃ before b after, l = before ++ b :: after ∧ (∀ c ∈ before, ¬ Room align size c) ∧ Room align size b ∧
        found = some ⟨lastOf 0 (starts before), b.start, b.stop, entry 0 (starts after), userAt b.start align,
          userAt b.start align - 16, takenAt b.start align size⟩ := by
  have means (b : Block) (mem : b ∈ l) : (fit b.start b.stop align size).Means b.start b.stop align size :=
    fit_means power (Nat.lt_of_le_of_lt (held.inside b mem).2 held.high)
  have skipped (b : Block) (mem : b ∈ l) (skip : fit b.start b.stop align size = .skip) : ¬ Room align size b := by
    have short := means b mem
    rw [skip] at short
    exact Nat.not_le.mpr short
  cases scanned with
  | none all => exact .inl ⟨rfl, fun b mem => skipped b mem (all b mem)⟩
  | stop before after b split all here =>
    refine .inl ⟨rfl, ?_⟩
    have mem : b ∈ l := split ▸ List.mem_append_right _ List.mem_cons_self
    -- The sum overflowed at this block, and all later ones lie above it.
    have large := means b mem
    rw [here] at large
    have separated := held.separated
    rw [split] at separated
    have later := no_room_after held (separated_append.mp separated).2.1
      (fun c there => split ▸ List.mem_append_right _ (List.mem_cons_of_mem b there)) large
    intro c there
    rw [split] at there
    rcases List.mem_append.mp there with first | rest
    · exact skipped c (split ▸ List.mem_append_left _ first) (all c first)
    · rcases List.mem_cons.mp rest with rfl | after
      · exact Nat.not_le.mpr (Nat.lt_of_lt_of_le (Nat.lt_of_le_of_lt (held.inside c mem).2 held.high) large)
      · exact later c after
  | take before after b user hdr takenEnd split all here =>
    have mem : b ∈ l := split ▸ List.mem_append_right _ List.mem_cons_self
    refine .inr ⟨before, b, after, split, fun c first => skipped c (split ▸ List.mem_append_left _ first) (all c first), ?_⟩
    have fits := means b mem
    rw [here] at fits
    obtain ⟨room, rfl, rfl, rfl⟩ := fits
    exact ⟨room, rfl⟩

theorem cut_of_room {b : Block} {f : Found} (power : align.isPowerOfTwo) (proper : Proper b) (room : Room align size b)
    (isFin : f.fin = b.stop) (isHdr : f.hdr = userAt b.start align - 16) (isEnd : f.takenEnd = takenAt b.start align size) :
    Cut b f.hdr f.stop ∧ takenAt b.start align size ≤ f.stop := by
  obtain ⟨-, start, whole⟩ := proper
  have above := @userAt_above b.start align power
  have taken := @takenAt_above b.start align size
  have userWord : userAt b.start align % 8 = 0 := roundUp_word power (by omega)
  have takenWord : takenAt b.start align size % 8 = 0 := roundUp_mod
  have stopWord : b.stop % 8 = 0 := by
    rw [Block.stop]
    omega
  rw [Room] at room
  rw [Found.stop, isFin, isEnd, isHdr, minFree, Heap.header]
  split
  · exact ⟨⟨by omega, by omega, .inl rfl, by omega, by omega⟩, by omega⟩
  · exact ⟨⟨by omega, by omega, .inr (by omega), by omega, by omega⟩, by omega⟩

theorem Found.stop_lt {f : Found} : f.stop < f.takenEnd + 16 := by
  rw [Found.stop, minFree, Heap.header]
  split <;> omega

/-- An allocation fails and changes nothing, or is cut from the first block with room, and no more of it is taken
than cannot be left free. -/
theorem tryAlloc_cut (held : Held s l) (power : align.isPowerOfTwo) :
    (tryAlloc cfg s size align = .ok (s, 0) ∧ ∀ b ∈ l, ¬ Room align size b) ∨
      ∃ before b after t stop, l = before ++ b :: after ∧ (∀ c ∈ before, ¬ Room align size c) ∧ Room align size b ∧
        tryAlloc cfg s size align = .ok (t, userAt b.start align) ∧ Cut b (userAt b.start align - 16) stop ∧
        takenAt b.start align size ≤ stop ∧ stop < takenAt b.start align size + 16 ∧
        Carved s t before after b (userAt b.start align - 16) stop := by
  obtain ⟨found, done, scanned⟩ := @scan_spec cfg s l align size walkLimit 0 s.head held.chain held.sized
    (fun b mem => Nat.lt_of_le_of_lt (held.inside b mem).2 held.high) (Nat.lt_of_succ_lt held.short)
  have good : ¬ (align = 0 ∨ ¬ align.isPowerOfTwo) :=
    not_or.mpr ⟨Nat.ne_of_gt (Nat.pos_of_isPowerOfTwo power), not_not.mpr power⟩
  rw [tryAlloc, if_neg good]
  rcases scanned_first held power scanned with ⟨rfl, none⟩ | ⟨before, b, after, rfl, none, room, rfl⟩
  · refine .inl ⟨?_, none⟩
    rw [done]
    rfl
  · obtain ⟨cut, taken⟩ := cut_of_room (f := ⟨lastOf 0 (starts before), b.start, b.stop, entry 0 (starts after),
      userAt b.start align, userAt b.start align - 16, takenAt b.start align size⟩) power
      (held.proper b (by simp)) room rfl rfl rfl
    refine .inr ⟨before, b, after, _, _, rfl, none, room, ?_, cut, taken, Found.stop_lt, carve_spec held cut rfl rfl rfl rfl⟩
    rw [done]
    rfl

theorem tryAlloc_spec (held : Held s l) (power : align.isPowerOfTwo) :
    (tryAlloc cfg s size align = .ok (s, 0) ∧ ∀ b ∈ l, ¬ Room align size b) ∨
      ∃ before b after t stop, l = before ++ b :: after ∧ (∀ c ∈ before, ¬ Room align size c) ∧ Room align size b ∧
        tryAlloc cfg s size align = .ok (t, userAt b.start align) ∧ Cut b (userAt b.start align - 16) stop ∧
        takenAt b.start align size ≤ stop ∧ Carved s t before after b (userAt b.start align - 16) stop := by
  rcases @tryAlloc_cut cfg s l align size held power with
    failed | ⟨before, b, after, t, stop, split, none, room, done, cut, taken, -, carved⟩
  · exact .inl failed
  · exact .inr ⟨before, b, after, t, stop, split, none, room, done, cut, taken, carved⟩

end

end Whimbrel.Heap
