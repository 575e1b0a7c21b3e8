import Whimbrel.Lib.Ring
import Whimbrel.Net.Arp

/-! The ARP cache as a first-in first-out map: `learn` and `lookup` of `src/arp.rs`.

A learn of an address that is cached updates its entry in place. Any other learn is an
insertion: it takes the slot `NEXT`, which the oldest insertion holds once all are taken. -/

set_option autoImplicit false

namespace Whimbrel.Arp

structure Learn where
  ip : Ip
  mac : Mac
  deriving DecidableEq, Repr

def Cache.after (calls : List Learn) : Cache := calls.foldl (fun c l => learn c l.ip l.mac) .empty

/-- The insertions among the calls, newest first: a learn of one of the last four inserted
addresses is an update. -/
def insertions (calls : List Learn) : List Ip :=
  calls.foldl (fun l call => if call.ip ∈ l.take cacheN then l else call.ip :: l) []

def lastMac (calls : List Learn) (ip : Ip) : Option Mac := (calls.reverse.find? (·.ip = ip)).map Learn.mac

def Cache.ipAt (c : Cache) (i : Fin cacheN) : Option Ip := (c.entries.get i).map Ent.ip

section
variable {c : Cache} {calls : List Learn} {call : Learn} {ip : Ip} {mac : Mac} {i : Fin cacheN}

theorem insertions_snoc : insertions (calls ++ [call]) =
    if call.ip ∈ (insertions calls).take cacheN then insertions calls else call.ip :: insertions calls := by
  rw [insertions, List.foldl_append]
  rfl

theorem lastMac_snoc : lastMac (calls ++ [call]) ip = if call.ip = ip then some call.mac else lastMac calls ip := by
  rw [lastMac, List.reverse_append, List.reverse_singleton, List.singleton_append, List.find?_cons]
  split <;> simp_all [lastMac]

theorem after_snoc : Cache.after (calls ++ [call]) = learn (Cache.after calls) call.ip call.mac := by
  rw [Cache.after, List.foldl_append]
  rfl

theorem nodup_insertions : ((insertions calls).take cacheN).Nodup := by
  induction calls using List.reverseRecOn with
  | nil => simp [insertions]
  | append_singleton calls call ih =>
    rw [insertions_snoc]
    split
    · exact ih
    · rename_i fresh
      rw [List.take_succ_cons]
      refine List.nodup_cons.mpr ⟨fun again => fresh ?_, ?_⟩
      · exact List.take_subset_take_left _ (by decide) again
      · exact ih.sublist (List.take_sublist_take_left (by decide))

theorem slotOf_eq_some (found : c.slotOf ip = some i) : c.ipAt i = some ip := by
  have here := List.find?_some found
  rw [Option.any_eq_true] at here
  obtain ⟨e, there, same⟩ := here
  rw [Cache.ipAt, there, Option.map_some, of_decide_eq_true same]

theorem slotOf_eq_none_iff : c.slotOf ip = none ↔ ∀ i, c.ipAt i ≠ some ip := by
  rw [Cache.slotOf, List.find?_eq_none]
  refine ⟨fun absent i held => ?_, fun absent i _ held => ?_⟩
  · obtain ⟨e, there, same⟩ := Option.map_eq_some_iff.mp held
    exact absent i (List.mem_finRange i) (by rw [there, Option.any_some, same, decide_eq_true rfl])
  · obtain ⟨e, there, same⟩ := Option.any_eq_true _ _ |>.mp held
    exact absent i (by rw [Cache.ipAt, there, Option.map_some, of_decide_eq_true same])

theorem get_set (x : Option Ent) (j : Fin cacheN) : (c.entries.set i x i.isLt).get j = if j = i then x else c.entries.get j := by
  change (c.entries.set i x i.isLt)[j.val] = if j = i then x else c.entries[j.val]
  rw [Vector.getElem_set]
  simp only [Fin.ext_iff, eq_comm]

theorem ipAt_set (e : Ent) (next : Fin cacheN) :
    Cache.ipAt ⟨c.entries.set i (some e) i.isLt, next⟩ = Function.update c.ipAt i (some e.ip) := by
  funext j
  rw [Cache.ipAt, Function.update_apply, get_set]
  split <;> rfl

/-- The slots hold the newest insertions, each with what was last learned for it. -/
structure Cache.Shows (c : Cache) (calls : List Learn) : Prop where
  ring : Ring.Holds c.ipAt c.next (insertions calls)
  macs : ∀ {i e}, c.entries.get i = some e → lastMac calls e.ip = some e.mac

theorem Cache.Shows.slotOf_none_iff (shows : c.Shows calls) : c.slotOf ip = none ↔ ip ∉ (insertions calls).take cacheN := by
  rw [slotOf_eq_none_iff, ← shows.ring.mem_iff, not_exists]

/-- The entries after a slot was written for the learned address, if no other slot has it. -/
theorem Cache.Shows.macs_set (shows : c.Shows calls) (alone : ∀ j, c.ipAt j = some call.ip → j = i) {j : Fin cacheN} {e : Ent}
    (there : (c.entries.set i (some ⟨call.ip, call.mac⟩) i.isLt).get j = some e) :
    lastMac (calls ++ [call]) e.ip = some e.mac := by
  rw [get_set] at there
  rw [lastMac_snoc]
  split at there
  · cases there
    rw [if_pos rfl]
  · rename_i other
    have distinct : call.ip ≠ e.ip := by
      intro same
      exact other (alone j (by rw [Cache.ipAt, there, Option.map_some, same]))
    rw [if_neg distinct]
    exact shows.macs there

theorem Cache.Shows.learn (shows : c.Shows calls) : (learn c call.ip call.mac).Shows (calls ++ [call]) := by
  cases found : c.slotOf call.ip with
  | some i =>
    have held := slotOf_eq_some found
    have cached : call.ip ∈ (insertions calls).take cacheN := shows.ring.mem_iff.mp ⟨i, held⟩
    have alone (j : Fin cacheN) (also : c.ipAt j = some call.ip) : j = i :=
      shows.ring.injective nodup_insertions also held
    rw [Arp.learn, found]
    refine ⟨?_, shows.macs_set alone⟩
    rw [ipAt_set, insertions_snoc, if_pos cached, ← held, Function.update_eq_self]
    exact shows.ring
  | none =>
    have fresh := shows.slotOf_none_iff.mp found
    have alone (j : Fin cacheN) (also : c.ipAt j = some call.ip) : j = c.next :=
      absurd also (slotOf_eq_none_iff.mp found j)
    rw [Arp.learn, found]
    refine ⟨?_, shows.macs_set alone⟩
    rw [ipAt_set, insertions_snoc, if_neg fresh]
    exact shows.ring.push call.ip

theorem shows_after : (Cache.after calls).Shows calls := by
  induction calls using List.reverseRecOn with
  | nil =>
    have none (i : Fin cacheN) : Cache.empty.entries.get i = none := by
      change (Vector.replicate cacheN none)[i.val] = none
      exact Vector.getElem_replicate _
    refine ⟨fun k => ?_, fun {i e} there => ?_⟩
    · rw [Cache.ipAt, Cache.after, List.foldl_nil, none]
      rfl
    · rw [Cache.after, List.foldl_nil, none] at there
      cases there
  | append_singleton calls call ih =>
    rw [after_snoc]
    exact ih.learn

end

/-- After any calls of `learn`: no address is in two slots; `lookup` finds just the last four
inserted addresses, with what was last learned for them; `NEXT` is one of the slots, and when no
slot is empty it is the slot of the fourth insertion back. -/
theorem cache_is_fifo (calls : List Learn) :
    (∀ i j ip, (Cache.after calls).ipAt i = some ip → (Cache.after calls).ipAt j = some ip → i = j) ∧
    (∀ ip mac, lookup (Cache.after calls) ip = some mac ↔
      ip ∈ (insertions calls).take cacheN ∧ lastMac calls ip = some mac) ∧
    (Cache.after calls).next.val < 4 ∧
    ((∀ i, (Cache.after calls).ipAt i ≠ none) → (Cache.after calls).ipAt (Cache.after calls).next = (insertions calls)[3]?) := by
  have shows := @shows_after calls
  refine ⟨fun i j ip left right => shows.ring.injective nodup_insertions left right, fun ip mac => ?_, Fin.isLt _,
    fun _ => shows.ring.oldest⟩
  rw [lookup]
  cases found : (Cache.after calls).slotOf ip with
  | none =>
    have absent := shows.slotOf_none_iff.mp found
    exact ⟨fun none => (Option.some_ne_none _ none.symm).elim, fun inside => absurd inside.1 absent⟩
  | some i =>
    have held := slotOf_eq_some found
    have cached := shows.ring.mem_iff.mp ⟨i, held⟩
    obtain ⟨e, there, rfl⟩ := Option.map_eq_some_iff.mp held
    rw [Option.bind_some, there, Option.map_some, shows.macs there]
    exact ⟨fun same => ⟨cached, same⟩, fun inside => inside.2⟩

end Whimbrel.Arp
