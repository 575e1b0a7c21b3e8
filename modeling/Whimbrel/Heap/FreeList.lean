import Whimbrel.Heap

/-! The free list of `src/heap.rs` as it lies in memory, and the two walks over it. -/

set_option autoImplicit false

namespace Whimbrel.Heap

open Checked Blocks Linked

/-- A block the heap can hold: room for a header, and on word boundaries. -/
structure Proper (b : Block) : Prop where
  large : 16 ≤ b.size
  start : b.start % 8 = 0
  size : b.size % 8 = 0

def starts (l : List Block) : List Nat := l.map Block.start

structure FreeList (s : State) (l : List Block) : Prop where
  chain : Chain s.next 0 s.head (starts l)
  sized : ∀ b ∈ l, s.word b.start = b.size
  separated : Separated l
  proper : ∀ b ∈ l, Proper b

def Kept (s t : State) (l : List Block) : Prop :=
  ∀ b ∈ l, t.word b.start = s.word b.start ∧ t.next b.start = s.next b.start

section
variable {s t : State} {l before after old mid : List Block} {b c : Block}

@[simp] theorem starts_nil : starts [] = [] := rfl
@[simp] theorem starts_cons : starts (b :: l) = b.start :: starts l := rfl
@[simp] theorem starts_append : starts (before ++ after) = starts before ++ starts after := List.map_append

theorem FreeList.positive (list : FreeList s l) (mem : b ∈ l) : 0 < b.size :=
  Nat.lt_of_lt_of_le (by decide) (list.proper b mem).large

theorem FreeList.start_ne (list : FreeList s l) (mem : b ∈ l) : b.start ≠ 0 :=
  fun zero => list.chain.2 (zero ▸ List.mem_map_of_mem mem)

theorem Kept.next_eq (kept : Kept s t l) {h : Nat} (mem : h ∈ starts l) : t.next h = s.next h := by
  obtain ⟨b, inside, rfl⟩ := List.mem_map.mp mem
  exact (kept b inside).2

theorem Kept.trans {u : State} (left : Kept s t l) (right : Kept t u l) : Kept s u l :=
  fun b mem => ⟨(right b mem).1.trans (left b mem).1, (right b mem).2.trans (left b mem).2⟩

theorem Kept.sized (kept : Kept s t l) (sized : ∀ b ∈ l, s.word b.start = b.size) : ∀ b ∈ l, t.word b.start = b.size :=
  fun b mem => (kept b mem).1.trans (sized b mem)

theorem FreeList.frame (list : FreeList s l) (head : t.head = s.head) (kept : Kept s t l) : FreeList t l where
  chain := by
    rw [head]
    exact list.chain.congr fun _ mem => kept.next_eq mem
  sized := kept.sized list.sized
  separated := list.separated
  proper := list.proper

theorem FreeList.tail (list : FreeList s (before ++ after)) (kept : Kept s t after) :
    Chain t.next 0 (entry 0 (starts after)) (starts after) := by
  have chain := list.chain
  rw [starts_append] at chain
  exact chain.drop.congr fun _ mem => kept.next_eq mem

/-- Blocks that come and go behind `before`, entered where the old ones were. -/
theorem FreeList.replace (list : FreeList s (before ++ old)) (head : t.head = s.head) (kept : Kept s t before)
    (rest : Chain t.next 0 (entry 0 (starts old)) (starts mid)) (sized : ∀ b ∈ mid, t.word b.start = b.size)
    (separated : Separated (before ++ mid)) (proper : ∀ b ∈ before ++ mid, Proper b) : FreeList t (before ++ mid) where
  chain := by
    have chain := list.chain
    rw [starts_append] at chain
    rw [head, starts_append]
    exact chain.replace (fun _ mem => kept.next_eq mem) rest
  sized := by
    intro b mem
    rcases List.mem_append.mp mem with first | second
    · exact kept.sized (fun c there => list.sized c (List.mem_append_left _ there)) b first
    · exact sized b second
  separated := separated
  proper := proper

/-- Blocks that come and go behind `before`, entered from its last block or from the head. -/
theorem FreeList.splice (list : FreeList s (before ++ old)) (enter : before = [] → t.head = entry 0 (starts mid))
    (stay : before ≠ [] → t.head = s.head) (kept : Kept s t before.dropLast)
    (last : ∀ p ∈ before.getLast?, t.word p.start = s.word p.start ∧ t.next p.start = entry 0 (starts mid))
    (rest : Chain t.next 0 (entry 0 (starts mid)) (starts mid)) (sized : ∀ b ∈ mid, t.word b.start = b.size)
    (separated : Separated (before ++ mid)) (proper : ∀ b ∈ before ++ mid, Proper b) : FreeList t (before ++ mid) := by
  rcases List.eq_nil_or_concat before with rfl | ⟨front, p, rfl⟩
  · rw [← enter rfl] at rest
    exact ⟨rest, sized, separated, proper⟩
  · rw [List.concat_eq_append] at *
    rw [List.dropLast_concat] at kept
    obtain ⟨lastSize, lastNext⟩ := last p (by simp)
    refine ⟨?_, fun b mem => ?_, separated, proper⟩
    · have chain := list.chain
      rw [starts_append, starts_append] at chain
      rw [stay (by simp), starts_append, starts_append]
      rw [← lastNext] at rest
      exact chain.splice (fun _ mem => kept.next_eq mem) rest
    · rcases List.mem_append.mp mem with first | second
      · have known := list.sized b (List.mem_append_left _ first)
        rcases List.mem_append.mp first with there | there
        · rw [(kept b there).1, known]
        · obtain rfl := List.mem_singleton.mp there
          rw [lastSize, known]
      · exact sized b second

end

/-! ## Writes of headers -/

section
variable {s : State} {h n m w : Nat}

theorem word_header : ((s.setSize h n).setExtra h m).word h = n := by
  rw [State.setExtra, State.setSize]
  dsimp only
  rw [Function.update_of_ne (by omega), Function.update_self]

theorem next_header : ((s.setSize h n).setExtra h m).next h = m := Function.update_self ..

theorem word_header_of_ne (first : w ≠ h) (second : w ≠ h + 8) : ((s.setSize h n).setExtra h m).word w = s.word w := by
  rw [State.setExtra, State.setSize]
  dsimp only
  rw [Function.update_of_ne second, Function.update_of_ne first]

theorem word_setExtra_of_ne (other : w ≠ h + 8) : (s.setExtra h n).word w = s.word w := Function.update_of_ne other ..

theorem next_setExtra : (s.setExtra h n).next h = n := Function.update_self ..

/-- Blocks whose headers do not meet the one at `h`. -/
def Clear (h : Nat) (l : List Block) : Prop := ∀ b ∈ l, b.start + 16 ≤ h ∨ h + 16 ≤ b.start

theorem Clear.kept_header {l : List Block} (clear : Clear h l) : Kept s ((s.setSize h n).setExtra h m) l := by
  intro b mem
  have apart := clear b mem
  exact ⟨word_header_of_ne (by omega) (by omega), word_header_of_ne (by omega) (by omega)⟩

theorem Clear.kept_extra {l : List Block} (clear : Clear h l) : Kept s (s.setExtra h n) l := by
  intro b mem
  have apart := clear b mem
  exact ⟨word_setExtra_of_ne (by omega), word_setExtra_of_ne (by omega)⟩

theorem clear_before {l after : List Block} {b : Block} (separated : Separated (l ++ b :: after))
    (proper : ∀ c ∈ l ++ b :: after, Proper c) : Clear b.start l := by
  intro c mem
  have gap := (separated_append.mp separated).2.2 c mem b List.mem_cons_self
  have large := (proper c (List.mem_append_left _ mem)).large
  rw [Block.stop] at gap
  omega

theorem clear_after {l before : List Block} {b : Block} (separated : Separated (before ++ b :: l))
    (proper : ∀ c ∈ before ++ b :: l, Proper c) : Clear b.start l := by
  intro c mem
  have gap := (List.pairwise_cons.mp (separated_append.mp separated).2.1).1 c mem
  have large := (proper b (List.mem_append_right _ List.mem_cons_self)).large
  rw [Block.stop] at gap
  omega

end

def Headers (l : List Block) (w : Nat) : Prop := ∃ b ∈ l, w = b.start ∨ w = b.start + 8

section
variable {s u : State} {before old rest mid : List Block} {b : Block}

theorem word_unlink {prev d w : Nat} : (u.unlink prev d).word w = if prev ≠ 0 ∧ w = prev + 8 then d else u.word w := by
  rw [State.unlink]
  by_cases none : prev = 0
  · rw [if_pos none, if_neg fun both => both.1 none]
  · rw [if_neg none]
    by_cases here : w = prev + 8
    · rw [if_pos ⟨none, here⟩, here]
      exact Function.update_self ..
    · rw [if_neg fun both => here both.2]
      exact word_setExtra_of_ne here

theorem word_unlink_of_ne {prev d w : Nat} (other : prev ≠ 0 → w ≠ prev + 8) : (u.unlink prev d).word w = u.word w := by
  rw [word_unlink, if_neg fun both => other both.1 both.2]

theorem head_unlink {prev d : Nat} : (u.unlink prev d).head = if prev = 0 then d else u.head := by
  rw [State.unlink]
  split
  · rfl
  · rfl

theorem unlink_range {prev d : Nat} : (u.unlink prev d).heapStart = u.heapStart ∧ (u.unlink prev d).heapEnd = u.heapEnd := by
  rw [State.unlink]
  split
  · exact ⟨rfl, rfl⟩
  · exact ⟨rfl, rfl⟩

theorem headers_unlink {d w : Nat} (changed : (u.unlink (lastOf 0 (starts before)) d).word w ≠ u.word w) :
    ∃ p ∈ before.getLast?, w = p.start + 8 := by
  rcases List.eq_nil_or_concat before with rfl | ⟨front, p, rfl⟩
  · exact absurd rfl changed
  · rw [List.concat_eq_append] at *
    refine ⟨p, by simp, ?_⟩
    by_contra other
    refine changed (word_unlink_of_ne fun _ => ?_)
    rw [starts_append, starts_cons, starts_nil, lastOf_snoc]
    exact other

theorem unlink_links {d : Nat} (ne : ∀ p ∈ before.getLast?, p.start ≠ 0) :
    (before = [] → (u.unlink (lastOf 0 (starts before)) d).head = d) ∧
      (before ≠ [] → (u.unlink (lastOf 0 (starts before)) d).head = u.head) ∧
      ∀ p ∈ before.getLast?, (u.unlink (lastOf 0 (starts before)) d).next p.start = d := by
  rcases List.eq_nil_or_concat before with rfl | ⟨front, p, rfl⟩
  · exact ⟨fun _ => rfl, fun some => absurd rfl some, fun _ none => nomatch none⟩
  · rw [List.concat_eq_append] at *
    have real := ne p (by simp)
    rw [starts_append, starts_cons, starts_nil, lastOf_snoc, State.unlink, if_neg real]
    refine ⟨fun empty => absurd empty (by simp), fun _ => rfl, fun q mem => ?_⟩
    obtain rfl : p = q := by simpa using mem
    exact next_setExtra

theorem kept_unlink {d : Nat} (separated : Separated (before ++ rest)) (proper : ∀ c ∈ before ++ rest, Proper c) :
    Kept u (u.unlink (lastOf 0 (starts before)) d) before.dropLast ∧
      (∀ p ∈ before.getLast?, (u.unlink (lastOf 0 (starts before)) d).word p.start = u.word p.start) ∧
      Kept u (u.unlink (lastOf 0 (starts before)) d) rest := by
  rcases List.eq_nil_or_concat before with rfl | ⟨front, p, rfl⟩
  · exact ⟨fun _ mem => (nomatch mem), fun _ none => (nomatch none), fun _ _ => ⟨rfl, rfl⟩⟩
  · rw [List.concat_eq_append] at *
    rw [List.append_assoc, List.singleton_append] at separated proper
    have behind := clear_after separated proper
    have front' := clear_before separated proper
    rw [starts_append, starts_cons, starts_nil, lastOf_snoc, State.unlink, List.dropLast_concat]
    split
    · exact ⟨fun _ _ => ⟨rfl, rfl⟩, fun _ _ => rfl, fun _ _ => ⟨rfl, rfl⟩⟩
    · refine ⟨front'.kept_extra, fun q mem => ?_, behind.kept_extra⟩
      obtain rfl : p = q := by simpa using mem
      exact word_setExtra_of_ne (by omega)

/-- A block whose header is written and then linked behind `before`. -/
theorem FreeList.link (list : FreeList s (before ++ old ++ rest)) (ne : b.start ≠ 0)
    (separated : Separated (before ++ b :: rest)) (proper : ∀ c ∈ before ++ b :: rest, Proper c) :
    FreeList (((s.setSize b.start b.size).setNext b.start (entry 0 (starts rest))).unlink (lastOf 0 (starts before)) b.start)
      (before ++ b :: rest) := by
  obtain ⟨u, is⟩ : ∃ u, u = (s.setSize b.start b.size).setNext b.start (entry 0 (starts rest)) := ⟨_, rfl⟩
  obtain ⟨t, isT⟩ : ∃ t, t = u.unlink (lastOf 0 (starts before)) b.start := ⟨_, rfl⟩
  have first : Kept s u before := is ▸ (clear_before separated proper).kept_header
  have later : Kept s u rest := is ▸ (clear_after separated proper).kept_header
  have size : u.word b.start = b.size := is ▸ word_header
  have next : u.next b.start = entry 0 (starts rest) := is ▸ next_header
  have head : u.head = s.head := is ▸ rfl
  -- First the header, which touches no other block; then the link to it.
  obtain ⟨front, last, behind⟩ := @kept_unlink u before (b :: rest) b.start separated proper
  rw [← isT] at front last behind
  obtain ⟨here, rest'⟩ := List.forall_mem_cons.mp behind
  have real : ∀ p ∈ before.getLast?, p.start ≠ 0 := fun p mem =>
    list.start_ne (List.mem_append_left _ (List.mem_append_left _ (List.mem_of_getLast? mem)))
  obtain ⟨enter, stay, linked⟩ := @unlink_links u before b.start real
  rw [← isT] at enter stay linked
  have chain := list.tail (t := t) (later.trans rest')
  rw [List.append_assoc] at list
  rw [← is, ← isT]
  refine list.splice enter (fun some => (stay some).trans head) ?_ ?_ (Chain.cons_iff.mpr ⟨rfl, ne, ?_⟩)
    (List.forall_mem_cons.mpr ⟨here.1.trans size, ?_⟩) separated proper
  · exact Kept.trans (fun c mem => first c (List.dropLast_subset _ mem)) front
  · exact fun p mem => ⟨(last p mem).trans (first p (List.mem_of_getLast? mem)).1, linked p mem⟩
  · rw [here.2, next]
    exact chain
  · exact (later.trans rest').sized fun c mem => list.sized c (List.mem_append_right _ (List.mem_append_right _ mem))

end

structure Held (s : State) (l : List Block) : Prop extends FreeList s l where
  low : 0 < s.heapStart
  high : s.heapEnd < 2 ^ 64
  inside : ∀ b ∈ l, s.heapStart ≤ b.start ∧ b.stop ≤ s.heapEnd

theorem Held.short {s : State} {l : List Block} (held : Held s l) : l.length + 1 < walkLimit := by
  have counted := held.separated.length_le (fun c mem => (held.proper c mem).large) held.inside
  have top := held.high
  rw [walkLimit]
  omega

/-! ## The walk of an insertion -/

theorem plus_of_lt (cfg : Config) {a b : Nat} (small : a + b < 2 ^ 64) : plus cfg a b = .ok (a + b) := if_pos small

section
variable {cfg : Config} {s : State} {before after : List Block} {start left prev cur : Nat}

theorem findGap_passes (chain : Chain s.next 0 cur (starts (before ++ after))) (sized : ∀ b ∈ before, s.word b.start = b.size)
    (below : ∀ b ∈ before, b.start < start ∧ b.stop ≤ start) (small : start < 2 ^ 64) (enough : before.length ≤ left) :
    findGap cfg s start left prev cur =
      findGap cfg s start (left - before.length) (lastOf prev (starts before)) (entry 0 (starts after)) := by
  induction before generalizing left prev cur with
  | nil =>
    rw [List.nil_append] at chain
    rw [chain.eq_entry]
    rfl
  | cons b before ih =>
    rw [List.cons_append, starts_cons] at chain
    obtain ⟨rfl, ne, rest⟩ := Chain.cons_iff.mp chain
    obtain ⟨⟨lower, upper⟩, laterBelow⟩ := List.forall_mem_cons.mp below
    obtain ⟨size, laterSized⟩ := List.forall_mem_cons.mp sized
    obtain ⟨left, rfl⟩ : ∃ n, left = n + 1 := ⟨left - 1, by rw [List.length_cons] at enough; omega⟩
    rw [List.length_cons, Nat.add_le_add_iff_right] at enough
    rw [Block.stop] at upper
    rw [findGap, if_pos ⟨ne, lower⟩, size, plus_of_lt cfg (by omega)]
    rw [bind_ok, if_neg (Nat.not_lt.mpr upper), List.length_cons, Nat.add_sub_add_right]
    exact ih rest laterSized laterBelow enough

theorem findGap_stops (above : cur ≠ 0 → start ≤ cur) : findGap cfg s start (left + 1) prev cur = .ok (prev, cur) :=
  if_neg fun both => Nat.not_lt.mpr (above both.1) both.2

theorem findGap_overlap {b : Block} (ne : b.start ≠ 0) (size : s.word b.start = b.size) (small : b.stop < 2 ^ 64)
    (lower : b.start < start) (upper : start < b.stop) : findGap cfg s start (left + 1) prev b.start = .error .heapOverlap := by
  rw [Block.stop] at upper small
  rw [findGap, if_pos ⟨ne, lower⟩, size, plus_of_lt cfg small]
  rw [bind_ok, if_pos upper]
  rfl

end

section
variable {cfg : Config} {s : State} {l : List Block} {align userSize left prev cur : Nat}

inductive Scanned (l : List Block) (align userSize prev : Nat) : Option Found → Prop where
  | none : (∀ b ∈ l, fit b.start b.stop align userSize = .skip) → Scanned l align userSize prev none
  | stop (before after : List Block) (b : Block) : l = before ++ b :: after →
      (∀ b ∈ before, fit b.start b.stop align userSize = .skip) → fit b.start b.stop align userSize = .stop →
      Scanned l align userSize prev none
  | take (before after : List Block) (b : Block) (user hdr takenEnd : Nat) : l = before ++ b :: after →
      (∀ b ∈ before, fit b.start b.stop align userSize = .skip) →
      fit b.start b.stop align userSize = .take user hdr takenEnd →
      Scanned l align userSize prev
        (some ⟨lastOf prev (starts before), b.start, b.stop, entry 0 (starts after), user, hdr, takenEnd⟩)

theorem Scanned.cons {b : Block} {found : Option Found} (skip : fit b.start b.stop align userSize = .skip)
    (scanned : Scanned l align userSize b.start found) : Scanned (b :: l) align userSize prev found := by
  cases scanned with
  | none all => exact .none (List.forall_mem_cons.mpr ⟨skip, all⟩)
  | stop before after c split all here =>
    exact .stop (b :: before) after c (congrArg (b :: ·) split) (List.forall_mem_cons.mpr ⟨skip, all⟩) here
  | take before after c user hdr takenEnd split all here =>
    exact .take (b :: before) after c user hdr takenEnd (congrArg (b :: ·) split) (List.forall_mem_cons.mpr ⟨skip, all⟩) here

theorem scan_spec (chain : Chain s.next 0 cur (starts l)) (sized : ∀ b ∈ l, s.word b.start = b.size)
    (small : ∀ b ∈ l, b.stop < 2 ^ 64) (enough : l.length < left) :
    ∃ found, scan cfg s align userSize left prev cur = .ok found ∧ Scanned l align userSize prev found := by
  -- One round more than there are blocks, for the null at the end.
  obtain ⟨left, rfl⟩ : ∃ n, left = n + 1 := ⟨left - 1, by omega⟩
  induction l generalizing left prev cur with
  | nil =>
    obtain rfl : cur = 0 := chain.1
    exact ⟨none, if_pos rfl, .none (List.forall_mem_nil _)⟩
  | cons b l ih =>
    rw [starts_cons] at chain
    obtain ⟨rfl, ne, rest⟩ := Chain.cons_iff.mp chain
    obtain ⟨size, laterSized⟩ := List.forall_mem_cons.mp sized
    obtain ⟨within, laterSmall⟩ := List.forall_mem_cons.mp small
    have stop : b.start + b.size = b.stop := rfl
    rw [scan, if_neg ne, size, plus_of_lt cfg within, bind_ok, stop]
    cases here : fit b.start b.stop align userSize with
    | skip =>
      rw [List.length_cons] at enough
      obtain ⟨left, rfl⟩ : ∃ n, left = n + 1 := ⟨left - 1, by omega⟩
      obtain ⟨found, done, scanned⟩ := ih rest laterSized laterSmall left (by omega)
      exact ⟨found, done, scanned.cons here⟩
    | stop => exact ⟨none, rfl, .stop [] l b rfl (List.forall_mem_nil _) here⟩
    | take user hdr takenEnd =>
      refine ⟨_, rfl, ?_⟩
      rw [rest.eq_entry]
      exact .take [] l b user hdr takenEnd rfl (List.forall_mem_nil _) here

end

end Whimbrel.Heap
