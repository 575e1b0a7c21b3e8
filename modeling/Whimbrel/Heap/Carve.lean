import Whimbrel.Heap.FreeList

/-! The writes of `try_alloc` of `src/heap.rs`: a free block is cut in up to three. -/

set_option autoImplicit false

namespace Whimbrel.Heap

open Checked Blocks Linked

/-- A header at `hdr` and an end at `stop` for an allocation in a free block. -/
structure Cut (b : Block) (hdr stop : Nat) : Prop where
  low : b.start ≤ hdr
  header : hdr + 16 ≤ stop
  tail : stop = b.stop ∨ stop + 16 ≤ b.stop
  words : hdr % 8 = 0 ∧ stop % 8 = 0

/-- The free block in front of the header. -/
def lead (b : Block) (hdr : Nat) : List Block := if 16 ≤ hdr - b.start then [⟨b.start, hdr - b.start⟩] else []

def lowOf (b : Block) (hdr : Nat) : Nat := if 16 ≤ hdr - b.start then hdr else b.start

def taken (b : Block) (hdr stop : Nat) : Block := ⟨lowOf b hdr, stop - lowOf b hdr⟩

def back (b : Block) (stop : Nat) : List Block := if 16 ≤ b.stop - stop then [⟨stop, b.stop - stop⟩] else []

section
variable {b : Block} {hdr stop x : Nat} {before after : List Block}

theorem Cut.lowOf_cases (cut : Cut b hdr stop) :
    b.start + 16 ≤ hdr ∧ lead b hdr = [⟨b.start, hdr - b.start⟩] ∧ lowOf b hdr = hdr ∨
      hdr < b.start + 16 ∧ lead b hdr = [] ∧ lowOf b hdr = b.start := by
  have low := cut.low
  by_cases large : 16 ≤ hdr - b.start
  · exact .inl ⟨by omega, if_pos large, if_pos large⟩
  · exact .inr ⟨by omega, if_neg large, if_neg large⟩

theorem Cut.back_cases (cut : Cut b hdr stop) :
    stop + 16 ≤ b.stop ∧ back b stop = [⟨stop, b.stop - stop⟩] ∨ stop = b.stop ∧ back b stop = [] := by
  rcases cut.tail with whole | large
  · exact .inr ⟨whole, if_neg (by omega)⟩
  · exact .inl ⟨large, if_pos (by omega)⟩

theorem Cut.cover_eq (cut : Cut b hdr stop) : cover x (lead b hdr ++ back b stop) + cover x [taken b hdr stop] = cover x [b] := by
  have low := cut.low
  have header := cut.header
  rw [cover_append, taken]
  rcases cut.lowOf_cases with ⟨large, isLead, isLow⟩ | ⟨small, isLead, isLow⟩ <;>
  rcases cut.back_cases with ⟨room, isBack⟩ | ⟨whole, isBack⟩
  all_goals
    rw [isLead, isLow, isBack]
    simp only [cover_cons, cover_nil, Block.Has, Block.stop] at *
    grind

theorem Cut.cover_split (cut : Cut b hdr stop) (x : Nat) :
    cover x (before ++ (lead b hdr ++ back b stop ++ after)) + cover x [taken b hdr stop] = cover x (before ++ b :: after) := by
  have pieces := @Cut.cover_eq b hdr stop x cut
  have whole : b :: after = [b] ++ after := rfl
  rw [cover_append] at pieces
  rw [whole, cover_append, cover_append, cover_append, cover_append, cover_append, ← pieces]
  omega

theorem mem_lead {c : Block} (mem : c ∈ lead b hdr) : c = ⟨b.start, hdr - b.start⟩ ∧ b.start + 16 ≤ hdr := by
  rw [lead] at mem
  split at mem
  · exact ⟨List.mem_singleton.mp mem, by omega⟩
  · cases mem

theorem mem_back {c : Block} (mem : c ∈ back b stop) : c = ⟨stop, b.stop - stop⟩ ∧ stop + 16 ≤ b.stop := by
  rw [back] at mem
  split at mem
  · exact ⟨List.mem_singleton.mp mem, by omega⟩
  · cases mem

theorem separated_pieces (cut : Cut b hdr stop) : Separated (lead b hdr ++ back b stop) := by
  refine separated_append.mpr ⟨?_, ?_, ?_⟩
  · rw [lead]
    split
    · exact List.pairwise_singleton _ _
    · exact .nil
  · rw [back]
    split
    · exact List.pairwise_singleton _ _
    · exact .nil
  · intro c first d second
    obtain ⟨rfl, large⟩ := mem_lead first
    obtain ⟨rfl, -⟩ := mem_back second
    have header := cut.header
    change b.start + (hdr - b.start) < stop
    omega

theorem Cut.piece {c : Block} (cut : Cut b hdr stop) (proper : Proper b) (mem : c ∈ lead b hdr ++ back b stop) :
    Proper c ∧ b.start ≤ c.start ∧ c.stop ≤ b.stop := by
  obtain ⟨-, start, size⟩ := proper
  obtain ⟨hdrWord, stopWord⟩ := cut.words
  have low := cut.low
  have header := cut.header
  have tail := cut.tail
  rcases List.mem_append.mp mem with first | second
  · obtain ⟨rfl, large⟩ := mem_lead first
    simp only [Block.stop] at *
    exact ⟨⟨by dsimp only; omega, start, by dsimp only; omega⟩, Nat.le_refl _, by omega⟩
  · obtain ⟨rfl, large⟩ := mem_back second
    simp only [Block.stop] at *
    exact ⟨⟨by dsimp only; omega, stopWord, by dsimp only; omega⟩, by omega, by omega⟩

theorem separated_refine {mid : List Block} (separated : Separated (before ++ b :: after)) (pieces : Separated mid)
    (within : ∀ c ∈ mid, b.start ≤ c.start ∧ c.stop ≤ b.stop) : Separated (before ++ (mid ++ after)) := by
  obtain ⟨first, rest, gaps⟩ := separated_append.mp separated
  obtain ⟨behind, last⟩ := List.pairwise_cons.mp rest
  refine separated_append.mpr ⟨first, separated_append.mpr ⟨pieces, last, fun c mem d there => ?_⟩, fun c mem d there => ?_⟩
  · exact Nat.lt_of_le_of_lt (within c mem).2 (behind d there)
  · rcases List.mem_append.mp there with inside | later
    · exact Nat.lt_of_lt_of_le (gaps c mem b List.mem_cons_self) (within d inside).1
    · exact gaps c mem d (List.mem_cons_of_mem b later)

theorem Cut.refined (cut : Cut b hdr stop) (separated : Separated (before ++ b :: after))
    (proper : ∀ c ∈ before ++ b :: after, Proper c) :
    Separated (before ++ (lead b hdr ++ back b stop ++ after)) ∧
      ∀ c ∈ before ++ (lead b hdr ++ back b stop ++ after), Proper c := by
  have whole : Proper b := proper b (by simp)
  refine ⟨separated_refine separated (separated_pieces cut) fun c mem => (cut.piece whole mem).2, fun c mem => ?_⟩
  rcases List.mem_append.mp mem with first | rest
  · exact proper c (List.mem_append_left _ first)
  · rcases List.mem_append.mp rest with inside | later
    · exact (cut.piece whole inside).1
    · exact proper c (List.mem_append_right _ (List.mem_cons_of_mem b later))

theorem kept_outside {s t : State} (separated : Separated (before ++ b :: after)) (proper : ∀ c ∈ before ++ b :: after, Proper c)
    (outside : ∀ w, w < b.start ∨ b.stop ≤ w → t.word w = s.word w) : Kept s t before ∧ Kept s t after := by
  refine ⟨fun c mem => ?_, fun c mem => ?_⟩
  · have gap := (separated_append.mp separated).2.2 c mem b List.mem_cons_self
    have large := (proper c (List.mem_append_left _ mem)).large
    rw [Block.stop] at gap
    exact ⟨outside _ (.inl (by omega)), outside _ (.inl (by omega))⟩
  · have gap := (List.pairwise_cons.mp (separated_append.mp separated).2.1).1 c mem
    exact ⟨outside _ (.inr (by omega)), outside _ (.inr (by omega))⟩

theorem Cut.inside {w : Nat} (cut : Cut b hdr stop) (here : (w = hdr ∨ w = hdr + 8) ∨ Headers (back b stop) w) :
    b.start ≤ w ∧ w < b.stop := by
  have low := cut.low
  have header := cut.header
  have tail := cut.tail
  rcases here with here | ⟨d, mem, here⟩
  · omega
  · obtain ⟨rfl, room⟩ := mem_back mem
    dsimp only at here
    omega

end

/-! ## The four cases of the writes -/

structure Carved (s t : State) (before after : List Block) (b : Block) (hdr stop : Nat) : Prop where
  list : FreeList t (before ++ (lead b hdr ++ back b stop ++ after))
  size : t.word hdr = (taken b hdr stop).size
  pad : t.word (hdr + 8) = hdr - (taken b hdr stop).start
  range : t.heapStart = s.heapStart ∧ t.heapEnd = s.heapEnd
  frame : ∀ w, t.word w ≠ s.word w → Headers (before ++ (lead b hdr ++ back b stop ++ after)) w ∨ w = hdr ∨ w = hdr + 8

section
variable {s t : State} {before after : List Block} {b : Block} {hdr stop : Nat}

theorem chain_back (held : Held s (before ++ b :: after)) (cut : Cut b hdr stop) (kept : Kept s t after)
    (behind : ∀ c ∈ back b stop, t.word c.start = c.size ∧ t.next c.start = entry 0 (starts after)) :
    Chain t.next 0 (entry 0 (starts (back b stop ++ after))) (starts (back b stop ++ after)) ∧
      ∀ c ∈ back b stop ++ after, t.word c.start = c.size := by
  have sized : ∀ c ∈ after, t.word c.start = c.size :=
    kept.sized fun c mem => held.sized c (List.mem_append_right _ (List.mem_cons_of_mem b mem))
  have list := held.toFreeList
  rw [show before ++ b :: after = before ++ [b] ++ after by simp] at list
  have tail := list.tail kept
  rcases cut.back_cases with ⟨-, isBack⟩ | ⟨-, isBack⟩
  · rw [isBack] at behind ⊢
    obtain ⟨size, next⟩ := behind _ List.mem_cons_self
    refine ⟨Chain.cons_iff.mpr ⟨rfl, ?_, ?_⟩, List.forall_mem_cons.mpr ⟨size, sized⟩⟩
    · have header := cut.header
      change stop ≠ 0
      omega
    · rw [next]
      exact tail
  · rw [isBack]
    exact ⟨tail, sized⟩

theorem carved_front (held : Held s (before ++ b :: after)) (cut : Cut b hdr stop) (front : b.start + 16 ≤ hdr)
    (same : t.head = s.head ∧ t.heapStart = s.heapStart ∧ t.heapEnd = s.heapEnd)
    (first : t.word b.start = hdr - b.start ∧ t.next b.start = entry 0 (starts (back b stop ++ after)))
    (header : t.word hdr = stop - hdr ∧ t.word (hdr + 8) = 0)
    (behind : ∀ c ∈ back b stop, t.word c.start = c.size ∧ t.next c.start = entry 0 (starts after))
    (other : ∀ w, ¬ (w = b.start ∨ w = b.start + 8) → ¬ (w = hdr ∨ w = hdr + 8) → ¬ Headers (back b stop) w →
      t.word w = s.word w) : Carved s t before after b hdr stop := by
  have mem : b ∈ before ++ b :: after := by simp
  have ne : b.start ≠ 0 := held.start_ne mem
  have large := (held.proper b mem).large
  have isLead : lead b hdr = [⟨b.start, hdr - b.start⟩] := if_pos (by omega)
  have isLow : lowOf b hdr = hdr := if_pos (by omega)
  obtain ⟨separated, proper⟩ := cut.refined held.separated held.proper
  -- All three headers are written inside the block that was free.
  obtain ⟨keptBefore, keptAfter⟩ := @kept_outside b before after s t held.separated held.proper fun w away => by
    refine other w ?_ (fun here => ?_) fun here => ?_
    · rw [Block.stop] at away
      omega
    · have within := cut.inside (.inl here)
      omega
    · have within := cut.inside (.inr here)
      omega
  obtain ⟨rest, sized⟩ := chain_back held cut keptAfter behind
  rw [isLead, List.append_assoc, List.singleton_append] at separated proper
  refine ⟨?_, ?_, ?_, same.2, fun w changed => ?_⟩
  · rw [isLead, List.append_assoc, List.singleton_append]
    refine held.toFreeList.replace same.1 keptBefore (Chain.cons_iff.mpr ⟨rfl, ne, ?_⟩)
      (List.forall_mem_cons.mpr ⟨first.1, sized⟩) separated proper
    rw [first.2]
    exact rest
  · rw [header.1, taken, isLow]
  · rw [header.2, taken, isLow, Nat.sub_self]
  · by_contra none
    obtain ⟨noHeader, noHere⟩ := not_or.mp none
    refine changed (other w (fun here => noHeader ?_) noHere fun inside => noHeader ?_)
    · exact ⟨⟨b.start, hdr - b.start⟩, by rw [isLead]; simp, here⟩
    · obtain ⟨d, there, here⟩ := inside
      exact ⟨d, by simp [there], here⟩

theorem carved_flush {v : State} (held : Held s (before ++ b :: after)) (cut : Cut b hdr stop) (flush : hdr < b.start + 16)
    (is : v = s.unlink (lastOf 0 (starts before)) (entry 0 (starts (back b stop ++ after))))
    (same : t.head = v.head ∧ t.heapStart = s.heapStart ∧ t.heapEnd = s.heapEnd)
    (header : t.word hdr = stop - b.start ∧ t.word (hdr + 8) = hdr - b.start)
    (behind : ∀ c ∈ back b stop, t.word c.start = c.size ∧ t.next c.start = entry 0 (starts after))
    (other : ∀ w, ¬ (w = hdr ∨ w = hdr + 8) → ¬ Headers (back b stop) w → t.word w = v.word w) :
    Carved s t before after b hdr stop := by
  have isLead : lead b hdr = [] := if_neg (by omega)
  have isLow : lowOf b hdr = b.start := if_neg (by omega)
  obtain ⟨separated, proper⟩ := cut.refined held.separated held.proper
  obtain ⟨keptBefore, keptAfter⟩ := @kept_outside b before after v t held.separated held.proper fun w away => by
    refine other w (fun here => ?_) fun here => ?_
    · have within := cut.inside (.inl here)
      omega
    · have within := cut.inside (.inr here)
      omega
  -- The block leaves the list: the link before it is the one word written outside.
  obtain ⟨front, last, rest⟩ := @kept_unlink s before (b :: after) (entry 0 (starts (back b stop ++ after))) held.separated held.proper
  have real : ∀ p ∈ before.getLast?, p.start ≠ 0 := fun p mem =>
    held.start_ne (List.mem_append_left _ (List.mem_of_getLast? mem))
  obtain ⟨enter, stay, linked⟩ := @unlink_links s before (entry 0 (starts (back b stop ++ after))) real
  rw [← is] at front last rest enter stay linked
  have behind' := (List.forall_mem_cons.mp rest).2
  obtain ⟨chain, sized⟩ := chain_back held cut (Kept.trans behind' keptAfter) behind
  rw [isLead, List.nil_append] at separated proper
  refine ⟨?_, ?_, ?_, same.2, fun w changed => ?_⟩
  · rw [isLead, List.nil_append]
    refine held.toFreeList.splice (fun empty => same.1.trans (enter empty)) (fun some => same.1.trans (stay some)) ?_ ?_ chain
      sized separated proper
    · exact front.trans fun c mem => keptBefore c (List.dropLast_subset _ mem)
    · intro p mem
      have kept := keptBefore p (List.mem_of_getLast? mem)
      exact ⟨kept.1.trans (last p mem), kept.2.trans (linked p mem)⟩
  · rw [header.1, taken, isLow]
  · rw [header.2, taken, isLow]
  · by_contra none
    obtain ⟨noHeader, noHere⟩ := not_or.mp none
    rw [other w noHere fun inside => noHeader ?_, is] at changed
    · obtain ⟨p, mem, here⟩ := headers_unlink changed
      exact noHeader ⟨p, List.mem_append_left _ (List.mem_of_getLast? mem), .inr here⟩
    · obtain ⟨d, there, here⟩ := inside
      exact ⟨d, by simp [there], here⟩

theorem minFree_le {n : Nat} : n ≥ minFree ↔ 16 ≤ n := by
  rw [minFree, Heap.header]

structure Headed (s u : State) (hdr n pad stop size next : Nat) : Prop where
  taken : u.word hdr = n ∧ u.word (hdr + 8) = pad
  free : u.word stop = size ∧ u.word (stop + 8) = next
  away : ∀ w, ¬ (w = hdr ∨ w = hdr + 8) → ¬ (w = stop ∨ w = stop + 8) → u.word w = s.word w

theorem headed {n pad size next : Nat} (apart : hdr + 16 ≤ stop) :
    Headed s ((((s.setSize hdr n).setExtra hdr pad).setSize stop size).setNext stop next) hdr n pad stop size next where
  taken := by
    simp (disch := omega) only [State.setNext, State.setExtra, State.setSize, Function.update_of_ne, Function.update_self,
      and_self]
  free := by
    simp (disch := omega) only [State.setNext, State.setExtra, State.setSize, Function.update_of_ne, Function.update_self,
      and_self]
  away w one two := by
    simp (disch := omega) only [State.setNext, State.setExtra, State.setSize, Function.update_of_ne]

theorem carve_front {f : Found} (held : Held s (before ++ b :: after)) (cut : Cut b f.hdr f.stop) (front : b.start + 16 ≤ f.hdr)
    (isCur : f.cur = b.start) (isFin : f.fin = b.stop) (isNxt : f.nxt = entry 0 (starts after)) :
    Carved s (carve s f) before after b f.hdr f.stop := by
  have header := cut.header
  have list := held.chain
  rw [starts_append, starts_cons] at list
  have next : s.next b.start = entry 0 (starts after) := (Chain.cons_iff.mp list.drop).2.2.eq_entry
  rw [State.next] at next
  rw [carve, isCur, isFin, isNxt]
  dsimp only
  rw [if_pos (minFree_le.mpr (by omega))]
  rcases cut.back_cases with ⟨room, isBack⟩ | ⟨whole, isBack⟩
  · rw [if_pos (minFree_le.mpr (by omega))]
    -- the link in front is written last
    obtain ⟨u, isU⟩ : ∃ u, u = ((((s.setSize b.start (f.hdr - b.start)).setSize f.hdr (f.stop - f.hdr)).setExtra f.hdr
      0).setSize f.stop (b.stop - f.stop)).setNext f.stop (entry 0 (starts after)) := ⟨_, rfl⟩
    have heads : Headed _ u _ _ _ _ _ _ := isU ▸ headed header
    have other (w : Nat) (ne : w ≠ b.start + 8) : (u.setNext b.start f.stop).word w = u.word w := word_setExtra_of_ne ne
    have same : u.head = s.head ∧ u.heapStart = s.heapStart ∧ u.heapEnd = s.heapEnd := isU ▸ ⟨rfl, rfl, rfl⟩
    rw [← isU]
    refine carved_front held cut front same ⟨?_, ?_⟩ ?_ ?_ ?_
    · rw [other _ (by omega), heads.away _ (by omega) (by omega)]
      exact Function.update_self ..
    · rw [isBack]
      exact next_setExtra
    · rw [other _ (by omega), other _ (by omega)]
      exact heads.taken
    · intro c mem
      obtain ⟨rfl, -⟩ := mem_back mem
      rw [State.next, other _ (by dsimp only; omega), other _ (by dsimp only; omega)]
      exact heads.free
    · intro w one two three
      rw [isBack] at three
      have four : ¬ (w = f.stop ∨ w = f.stop + 8) := fun here => three ⟨_, List.mem_cons_self, here⟩
      rw [other _ (by omega), heads.away w two four]
      exact Function.update_of_ne (by omega) ..
  · rw [if_neg fun large => absurd (minFree_le.mp large) (by omega)]
    refine carved_front held cut front ⟨rfl, rfl, rfl⟩ ⟨?_, ?_⟩ ⟨word_header, next_header⟩ ?_ ?_
    · simp (disch := omega) only [State.setExtra, State.setSize, Function.update_of_ne, Function.update_self]
    · rw [isBack, List.nil_append, ← next]
      simp (disch := omega) only [State.next, State.setExtra, State.setSize, Function.update_of_ne]
    · intro c mem
      rw [isBack] at mem
      cases mem
    · intro w one two _
      simp (disch := omega) only [State.setExtra, State.setSize, Function.update_of_ne]

theorem lastOf_below (separated : Separated (before ++ b :: after)) (proper : ∀ c ∈ before ++ b :: after, Proper c)
    (real : lastOf 0 (starts before) ≠ 0) : lastOf 0 (starts before) + 16 ≤ b.start := by
  rcases List.eq_nil_or_concat before with rfl | ⟨front, p, rfl⟩
  · exact absurd rfl real
  · rw [List.concat_eq_append] at *
    rw [starts_append, starts_cons, starts_nil, lastOf_snoc]
    have gap := (separated_append.mp separated).2.2 p (by simp) b List.mem_cons_self
    have large := (proper p (by simp)).large
    rw [Block.stop] at gap
    omega

/-- The link of the block before is written twice: past the old block, then to the one behind. -/
theorem carved_relinked {u : State} {prev : Nat} (held : Held s (before ++ b :: after)) (cut : Cut b hdr stop)
    (flush : hdr < b.start + 16) (room : stop + 16 ≤ b.stop) (isPrev : prev = lastOf 0 (starts before))
    (same : u.head = (s.unlink prev (entry 0 (starts after))).head ∧ u.heapStart = s.heapStart ∧ u.heapEnd = s.heapEnd)
    (heads : Headed (s.unlink prev (entry 0 (starts after))) u hdr (stop - b.start) (hdr - b.start) stop (b.stop - stop)
      (entry 0 (starts after))) : Carved s (u.unlink prev stop) before after b hdr stop := by
  have header := cut.header
  have low := cut.low
  have below := lastOf_below held.separated held.proper
  rw [← isPrev] at below
  have isBack : back b stop = [⟨stop, b.stop - stop⟩] := if_pos (by omega)
  have link : entry 0 (starts (back b stop ++ after)) = stop := by
    rw [isBack]
    rfl
  -- The second write of the link is below the block and spares the headers in it.
  have inside (w : Nat) (low : b.start ≤ w) : (u.unlink prev stop).word w = u.word w :=
    word_unlink_of_ne fun real => by
      have gap := below real
      omega
  refine carved_flush held cut flush rfl ?_ ?_ ?_ ?_
  · rw [← isPrev, link, head_unlink, head_unlink, same.1, head_unlink]
    refine ⟨?_, unlink_range.1.trans same.2.1, unlink_range.2.trans same.2.2⟩
    split
    · rfl
    · rfl
  · rw [inside _ (by omega), inside _ (by omega)]
    exact heads.taken
  · intro c mem
    obtain ⟨rfl, -⟩ := mem_back mem
    rw [State.next, inside _ (by dsimp only; omega), inside _ (by dsimp only; omega)]
    exact heads.free
  · intro w one three
    rw [isBack] at three
    have two : ¬ (w = stop ∨ w = stop + 8) := fun here => three ⟨_, List.mem_cons_self, here⟩
    rw [← isPrev, link, word_unlink, word_unlink, heads.away w one two, word_unlink]
    split
    · rfl
    · rfl

theorem carve_flush {f : Found} (held : Held s (before ++ b :: after)) (cut : Cut b f.hdr f.stop) (flush : f.hdr < b.start + 16)
    (isPrev : f.prev = lastOf 0 (starts before)) (isCur : f.cur = b.start) (isFin : f.fin = b.stop)
    (isNxt : f.nxt = entry 0 (starts after)) : Carved s (carve s f) before after b f.hdr f.stop := by
  have header := cut.header
  rw [carve, isCur, isFin, isNxt]
  dsimp only
  rw [if_neg fun large => absurd (minFree_le.mp large) (by omega)]
  rcases cut.back_cases with ⟨room, isBack⟩ | ⟨whole, isBack⟩
  · rw [if_pos (minFree_le.mpr (by omega))]
    exact carved_relinked held cut flush room isPrev ⟨rfl, unlink_range⟩ (headed header)
  · have link : entry 0 (starts (back b f.stop ++ after)) = entry 0 (starts after) := by
      rw [isBack]
      rfl
    rw [if_neg fun large => absurd (minFree_le.mp large) (by omega)]
    refine carved_flush held cut flush rfl ?_ ⟨word_header, next_header⟩ ?_ ?_
    · rw [← isPrev, link]
      exact ⟨rfl, unlink_range⟩
    · intro c mem
      rw [isBack] at mem
      cases mem
    · intro w one _
      obtain ⟨first, second⟩ := not_or.mp one
      rw [← isPrev, link]
      exact word_header_of_ne first second

/-- The writes of an allocation. -/
theorem carve_spec {f : Found} (held : Held s (before ++ b :: after)) (cut : Cut b f.hdr f.stop)
    (isPrev : f.prev = lastOf 0 (starts before)) (isCur : f.cur = b.start) (isFin : f.fin = b.stop)
    (isNxt : f.nxt = entry 0 (starts after)) : Carved s (carve s f) before after b f.hdr f.stop := by
  rcases Nat.lt_or_ge f.hdr (b.start + 16) with flush | front
  · exact carve_flush held cut flush isPrev isCur isFin isNxt
  · exact carve_front held cut front isCur isFin isNxt

end

end Whimbrel.Heap
