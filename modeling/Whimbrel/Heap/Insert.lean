import Whimbrel.Heap.FreeList

/-! Release: `insert_coalesced` and `dealloc_raw` of `src/heap.rs` on the free list. -/

set_option autoImplicit false

namespace Whimbrel.Heap

open Checked Blocks Linked

section
variable {cfg : Config} {s : State} {l before after : List Block} {b : Block}

structure Free (s : State) (l : List Block) (b : Block) : Prop where
  proper : Proper b
  apart : ∀ c ∈ l, c.Apart b
  low : s.heapStart ≤ b.start
  high : b.stop ≤ s.heapEnd

theorem inHeap_iff {start size : Nat} : inHeap s start size = true ↔
    16 ≤ size ∧ s.heapStart ≤ start ∧ start % 8 = 0 ∧ start + size < 2 ^ 64 ∧ start + size ≤ s.heapEnd := by
  rw [inHeap, checkedAdd, minFree, header, headerAlign]
  by_cases small : start + size < 2 ^ 64
  · rw [if_pos small]
    simp only [Option.any_some, Bool.and_eq_true, decide_eq_true_eq, beq_iff_eq, and_assoc, small, true_and]
  · rw [if_neg small]
    simp only [Option.any_none, Bool.and_false, Bool.false_eq_true, small, false_and, and_false]

theorem inHeap_of_free (held : Held s l) (free : Free s l b) : inHeap s b.start b.size = true :=
  inHeap_iff.mpr ⟨free.proper.large, free.low, free.proper.start, Nat.lt_of_le_of_lt free.high held.high, free.high⟩

theorem checkInsert_eq (held : Held s (before ++ after)) (free : Free s (before ++ after) b)
    (below : ∀ c ∈ before, c.stop ≤ b.start) (above : ∀ c ∈ after, b.stop ≤ c.start) :
    checkInsert cfg s b.start b.size = .ok (lastOf 0 (starts before), entry 0 (starts after)) := by
  have small : b.start + b.size < 2 ^ 64 := Nat.lt_of_le_of_lt free.high held.high
  have short := held.short
  rw [List.length_append] at short
  have walk : findGap cfg s b.start walkLimit 0 s.head = .ok (lastOf 0 (starts before), entry 0 (starts after)) := by
    rw [findGap_passes held.chain (fun c mem => held.sized c (List.mem_append_left _ mem)) ?_ (by omega) (by omega)]
    · -- The blocks passed leave at least one step of the limit.
      obtain ⟨left, some⟩ : ∃ n, walkLimit - before.length = n + 1 := ⟨walkLimit - before.length - 1, by omega⟩
      rw [some]
      refine findGap_stops fun ne => ?_
      cases after with
      | nil => exact absurd rfl ne
      | cons c after =>
        have next := above c List.mem_cons_self
        rw [Block.stop] at next
        exact Nat.le_of_add_right_le next
    · intro c mem
      have size := held.positive (List.mem_append_left after mem)
      have stop := below c mem
      refine ⟨?_, stop⟩
      rw [Block.stop] at stop
      omega
  rw [checkInsert, inHeap_of_free held free, walk]
  by_cases last : entry 0 (starts after) = 0
  · rw [last]
    rfl
  · have fits : b.start + b.size ≤ entry 0 (starts after) := by
      cases after with
      | nil => exact absurd rfl last
      | cons c after => exact above c List.mem_cons_self
    rw [Bool.not_true, if_neg Bool.false_ne_true, bind_ok]
    dsimp only
    rw [if_pos last, plus_of_lt cfg small, bind_ok, if_neg (Nat.not_lt.mpr fits)]
    rfl

theorem touches_of_ne {h other : Nat} (ne : h ≠ 0) (small : b.stop < 2 ^ 64) :
    touches cfg h b.start b.size other = .ok (decide (b.stop = other)) := by
  rw [Block.stop] at small ⊢
  rw [touches, if_neg ne, plus_of_lt cfg small]
  rfl

theorem joinRight_eq (held : Held s (before ++ after)) (free : Free s (before ++ after) b)
    (above : ∀ c ∈ after, b.stop ≤ c.start) : joinRight cfg s b.start b.size (entry 0 (starts after)) =
      .ok (b.size + (absorb b.stop after).1, entry 0 (starts (absorb b.stop after).2)) := by
  have small : b.start + b.size < 2 ^ 64 := Nat.lt_of_le_of_lt free.high held.high
  cases after with
  | nil => rfl
  | cons c after =>
    have mem : c ∈ before ++ c :: after := by simp
    have inside := held.inside c mem
    have top := held.high
    have gap := above c List.mem_cons_self
    rw [starts_cons, entry_cons, joinRight, touches_of_ne (held.start_ne mem) small, absorb]
    by_cases touch : b.stop = c.start
    · rw [if_pos touch, bind_ok, if_pos (decide_eq_true touch), held.sized c mem, plus_of_lt cfg ?_]
      · have rest := held.chain
        rw [starts_append, starts_cons] at rest
        rw [bind_ok, (Chain.cons_iff.mp rest.drop).2.2.eq_entry]
        rfl
      · simp only [Block.stop] at *
        omega
    · rw [if_neg touch, bind_ok, if_neg (by simpa using touch)]
      rfl

theorem link_touch {p : Block} (held : Held s (before ++ p :: after)) (free : Free s (before ++ p :: after) b)
    (above : ∀ c ∈ after, b.stop ≤ c.start) (touch : p.stop = b.start) :
    link cfg s b.start b.size p.start (entry 0 (starts after)) =
      .ok ((s.setSize p.start (p.size + b.size + (absorb b.stop after).1)).setNext p.start
        (entry 0 (starts (absorb b.stop after).2))) := by
  have mem : p ∈ before ++ p :: after := by simp
  have small : p.stop < 2 ^ 64 := Nat.lt_of_le_of_lt (held.inside p mem).2 held.high
  have split : before ++ p :: after = before ++ [p] ++ after := by simp
  rw [link, joinRight_eq (split ▸ held) (split ▸ free) above, bind_ok]
  dsimp only
  rw [held.sized p mem, touches_of_ne (held.start_ne mem) small, bind_ok, if_pos (decide_eq_true touch), plus_of_lt cfg ?_]
  · rw [bind_ok, Nat.add_assoc]
    rfl
  · -- the joined block ends where the last of the three does
    have top := held.high
    have high := free.high
    cases after with
    | nil =>
      simp only [Block.stop, absorb] at *
      omega
    | cons c after =>
      have inside := held.inside c (by simp)
      rw [absorb]
      split
      · simp only [Block.stop] at *
        omega
      · simp only [Block.stop] at *
        omega

theorem link_gap (held : Held s (before ++ after)) (free : Free s (before ++ after) b)
    (above : ∀ c ∈ after, b.stop ≤ c.start) (gap : ∀ p ∈ before.getLast?, p.stop ≠ b.start) :
    link cfg s b.start b.size (lastOf 0 (starts before)) (entry 0 (starts after)) =
      .ok (((s.setSize b.start (b.size + (absorb b.stop after).1)).setNext b.start
        (entry 0 (starts (absorb b.stop after).2))).unlink (lastOf 0 (starts before)) b.start) := by
  rw [link, joinRight_eq held free above, bind_ok]
  dsimp only
  rcases List.eq_nil_or_concat before with rfl | ⟨front, p, rfl⟩
  · rfl
  · rw [List.concat_eq_append] at *
    have mem : p ∈ front ++ [p] ++ after := by simp
    have small : p.stop < 2 ^ 64 := Nat.lt_of_le_of_lt (held.inside p mem).2 held.high
    have apart : p.stop ≠ b.start := gap p (by simp)
    rw [starts_append, starts_cons, starts_nil, lastOf_snoc, held.sized p mem, touches_of_ne (held.start_ne mem) small, bind_ok,
      if_neg (by simpa using apart), State.unlink, if_neg (held.start_ne mem), if_neg (held.start_ne mem)]
    rfl

theorem coalesce_proper (held : Held s l) (free : Free s l b) :
    Separated (coalesce b l) ∧ ∀ c ∈ coalesce b l, Proper c := by
  have pos : 0 < b.size := Nat.lt_of_lt_of_le (by decide) free.proper.large
  refine ⟨separated_coalesce held.separated free.apart (fun c mem => held.positive mem) pos, ?_⟩
  refine forall_coalesce (fun c d first second _ => ?_) free.proper held.proper
  have large := first.large
  have size := first.size
  have size' := second.size
  exact ⟨by dsimp only; omega, first.start, by dsimp only; omega⟩

structure Released (s t : State) (l : List Block) (b : Block) : Prop where
  list : FreeList t (coalesce b l)
  range : t.heapStart = s.heapStart ∧ t.heapEnd = s.heapEnd
  frame : ∀ w, t.word w ≠ s.word w → Headers (coalesce b l) w

theorem released_touch {p : Block} (held : Held s (before ++ p :: after)) (free : Free s (before ++ p :: after) b)
    (touch : p.stop = b.start) :
    Released s ((s.setSize p.start (p.size + b.size + (absorb b.stop after).1)).setNext p.start
      (entry 0 (starts (absorb b.stop after).2))) (before ++ p :: after) b := by
  obtain ⟨front, split⟩ : (absorb b.stop after).2 <:+ after := absorb_suffix
  obtain ⟨separated, proper⟩ := coalesce_proper held free
  have gaps := (separated_append.mp held.separated).2.2
  have mem : p ∈ before ++ p :: after := by simp
  have size := held.positive mem
  have below : ∀ c ∈ before, c.stop < b.start := by
    intro c there
    have gap := gaps c there p List.mem_cons_self
    simp only [Block.stop] at *
    omega
  -- The block before grows over the released one, and over the next if that touches too.
  have same : coalesce b (before ++ p :: after) =
      before ++ ⟨p.start, p.size + b.size + (absorb b.stop after).1⟩ :: (absorb b.stop after).2 := by
    have stop : (⟨p.start, p.size + b.size⟩ : Block).stop = b.stop := by
      simp only [Block.stop] at *
      omega
    rw [coalesce_touch below (by rw [← touch, Block.stop]; omega) touch, joinNext_eq, stop]
  have clear : Clear p.start before := clear_before held.separated held.proper
  have clear' : Clear p.start (absorb b.stop after).2 :=
    fun c there => clear_after held.separated held.proper c (absorb_suffix.subset there)
  rw [same] at separated proper
  refine ⟨?_, ⟨rfl, rfl⟩, fun w changed => ?_⟩
  · rw [same]
    refine held.toFreeList.replace rfl clear.kept_header ?_ ?_ separated proper
    · have ne := held.start_ne mem
      refine Chain.cons_iff.mpr ⟨rfl, ne, ?_⟩
      have whole : before ++ p :: after = before ++ p :: front ++ (absorb b.stop after).2 := by
        rw [List.append_assoc, List.cons_append, split]
      have list := held.toFreeList
      rw [whole] at list
      rw [State.setNext, next_header]
      exact list.tail clear'.kept_header
    · refine List.forall_mem_cons.mpr ⟨word_header, ?_⟩
      exact clear'.kept_header.sized fun c there =>
        held.sized c (List.mem_append_right _ (List.mem_cons_of_mem p (absorb_suffix.subset there)))
  · rw [same]
    refine ⟨_, List.mem_append_right _ List.mem_cons_self, ?_⟩
    by_contra other
    obtain ⟨one, two⟩ := not_or.mp other
    exact changed (word_header_of_ne one two)

theorem released_gap (held : Held s (before ++ after)) (free : Free s (before ++ after) b)
    (below : ∀ c ∈ before, c.stop < b.start) (above : ∀ c ∈ after, b.stop ≤ c.start) :
    Released s (((s.setSize b.start (b.size + (absorb b.stop after).1)).setNext b.start
      (entry 0 (starts (absorb b.stop after).2))).unlink (lastOf 0 (starts before)) b.start) (before ++ after) b := by
  obtain ⟨front, split⟩ : (absorb b.stop after).2 <:+ after := absorb_suffix
  obtain ⟨separated, proper⟩ := coalesce_proper held free
  have same : coalesce b (before ++ after) =
      before ++ ⟨b.start, b.size + (absorb b.stop after).1⟩ :: (absorb b.stop after).2 := by
    rw [coalesce_gap below fun c mem => Nat.le_of_add_right_le (above c mem), joinNext_eq]
  have ne : b.start ≠ 0 := Nat.ne_of_gt (Nat.lt_of_lt_of_le held.low free.low)
  have list := held.toFreeList
  rw [← split, ← List.append_assoc] at list
  rw [same] at separated proper
  refine ⟨?_, unlink_range, fun w changed => ?_⟩
  · rw [same]
    exact @FreeList.link s before front _ ⟨b.start, b.size + (absorb b.stop after).1⟩ list ne separated proper
  · rw [same]
    by_contra other
    have apart : w ≠ b.start ∧ w ≠ b.start + 8 :=
      not_or.mp fun here => other ⟨_, List.mem_append_right _ List.mem_cons_self, here⟩
    rw [← @word_header_of_ne s _ (b.size + (absorb b.stop after).1) (entry 0 (starts (absorb b.stop after).2)) w apart.1 apart.2]
      at changed
    obtain ⟨p, last, here⟩ := headers_unlink changed
    exact other ⟨p, List.mem_append_left _ (List.mem_of_getLast? last), .inr here⟩

/-- An insertion of a block apart from the list succeeds. -/
theorem insertCoalesced_spec (held : Held s l) (free : Free s l b) :
    ∃ t, insertCoalesced cfg s b.start b.size = .ok t ∧ Released s t l b := by
  obtain ⟨before, after, rfl, below, above⟩ := held.separated.split free.apart fun c mem => held.positive mem
  rw [insertCoalesced, checkInsert_eq held free below above, bind_ok]
  dsimp only
  by_cases touch : ∃ p ∈ before.getLast?, p.stop = b.start
  · obtain ⟨p, last, touch⟩ := touch
    obtain ⟨front, rfl⟩ := List.getLast?_eq_some_iff.mp last
    rw [List.append_assoc, List.singleton_append] at *
    rw [starts_append, starts_cons, starts_nil, lastOf_snoc]
    exact ⟨_, link_touch held free above touch, released_touch held free touch⟩
  · have gap : ∀ p ∈ before.getLast?, p.stop ≠ b.start := fun p mem same => touch ⟨p, mem, same⟩
    -- Of the blocks before, only the last could touch.
    have strict : ∀ c ∈ before, c.stop < b.start := by
      intro c mem
      rcases List.eq_nil_or_concat before with rfl | ⟨front, p, rfl⟩
      · cases mem
      · rw [List.concat_eq_append] at *
        have last := gap p (by simp)
        have stop := below p (by simp)
        rcases List.mem_append.mp mem with early | here
        · have order := (separated_append.mp (separated_append.mp held.separated).1).2.2 c early p List.mem_cons_self
          rw [Block.stop] at *
          omega
        · obtain rfl := List.mem_singleton.mp here
          omega
    exact ⟨_, link_gap held free above gap, released_gap held free strict above⟩

end

end Whimbrel.Heap
