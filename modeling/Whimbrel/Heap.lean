import Whimbrel.Base
import Whimbrel.Lib.Blocks
import Whimbrel.Lib.Linked

/-! The kernel heap: `src/heap.rs`.

Addresses are natural numbers below `2 ^ 64`; memory is kept by 64-bit words at
multiples of eight. A header is two words, the size and then `extra`: the next
free header of a free block, the pad of a used one. Null is 0. -/

set_option autoImplicit false

namespace Whimbrel.Heap

open Checked Blocks Linked

def header : Nat := 16
def headerAlign : Nat := 8
def minFree : Nat := header

structure State where
  head : Nat
  heapStart : Nat
  heapEnd : Nat
  word : Nat → Nat

def checkedAdd (a b : Nat) : Option Nat := if a + b < 2 ^ 64 then some (a + b) else none

/-- `a + b` on `usize`: the dev profile checks, the release profile wraps. -/
def plus (cfg : Config) (a b : Nat) : Result Nat :=
  if a + b < 2 ^ 64 then .ok (a + b) else if cfg.dev then .error .overflow else .ok ((a + b) % 2 ^ 64)

def alignUp (x align : Nat) : Option Nat :=
  if align = 0 ∨ ¬ align.isPowerOfTwo then none
  else
    let mask := align - 1
    -- `s & !mask`
    (checkedAdd x mask).map fun s => s - (s &&& mask)

def State.next (s : State) (h : Nat) : Nat := s.word (h + 8)

def State.setSize (s : State) (h n : Nat) : State := { s with word := Function.update s.word h n }

/-- Writing `extra`; `set_next` on a free header. -/
def State.setExtra (s : State) (h n : Nat) : State := { s with word := Function.update s.word (h + 8) n }

def State.setNext (s : State) (h n : Nat) : State := s.setExtra h n

def State.unlink (s : State) (prev nxt : Nat) : State := if prev = 0 then { s with head := nxt } else s.setNext prev nxt

def inHeap (s : State) (start size : Nat) : Bool :=
  minFree ≤ size && s.heapStart ≤ start && start % headerAlign == 0 && (checkedAdd start size).any (· ≤ s.heapEnd)

/-- The steps of a walk over aligned headers before it meets one of them again. -/
def walkLimit : Nat := 2 ^ 61

/-- The walk of `insert_coalesced`: the last header below `start`, and the next one. -/
def findGap (cfg : Config) (s : State) (start : Nat) : Nat → Nat → Nat → Result (Nat × Nat)
  | 0, _, _ => .error .heapCyclic
  | left + 1, prev, cur =>
    if cur ≠ 0 ∧ cur < start then do
      let cend ← plus cfg cur (s.word cur)
      if start < cend then throw .heapOverlap
      findGap cfg s start left cur (s.next cur)
    else .ok (prev, cur)

/-- `insert_coalesced` up to its first write. -/
def checkInsert (cfg : Config) (s : State) (start size : Nat) : Result (Nat × Nat) := do
  if !inHeap s start size then throw .heapInsertRange
  let (prev, cur) ← findGap cfg s start walkLimit 0 s.head
  if cur ≠ 0 then
    if (← plus cfg start size) > cur then throw .heapOverlap
  return (prev, cur)

def touches (cfg : Config) (h start size other : Nat) : Result Bool :=
  if h = 0 then .ok false else (fun fin => decide (fin = other)) <$> plus cfg start size

/-- The size and the successor of the inserted block, with the next block joined if it touches. -/
def joinRight (cfg : Config) (s : State) (start size cur : Nat) : Result (Nat × Nat) := do
  if ← touches cfg cur start size cur then
    return (← plus cfg size (s.word cur), s.next cur)
  return (size, cur)

def link (cfg : Config) (s : State) (start size prev cur : Nat) : Result State := do
  let (size, nxt) ← joinRight cfg s start size cur
  if ← touches cfg prev prev (s.word prev) start then
    return (s.setSize prev (← plus cfg (s.word prev) size)).setNext prev nxt
  let s := (s.setSize start size).setNext start nxt
  if prev = 0 then return { s with head := start } else return s.setNext prev start

def insertCoalesced (cfg : Config) (s : State) (start size : Nat) : Result State := do
  let (prev, cur) ← checkInsert cfg s start size
  link cfg s start size prev cur

inductive Fit where
  /-- `continue`. -/
  | skip
  /-- `return null`. -/
  | stop
  | take (user hdr takenEnd : Nat)
  deriving DecidableEq, Repr

def fit (start fin align userSize : Nat) : Fit :=
  match checkedAdd start header with
  | none => .skip
  | some userBase =>
    match alignUp userBase align with
    | none => .skip
    | some user =>
      -- `checked_sub`, and the header not below the block
      if user < header ∨ user - header < start then .skip
      else
        match checkedAdd user userSize with
        | none => .stop
        | some payloadEnd =>
          match alignUp payloadEnd headerAlign with
          | none => .stop
          | some takenEnd => if takenEnd > fin then .skip else .take user (user - header) takenEnd

/-- The block an allocation is cut from: its header `cur`, its end, its neighbours, and the cut. -/
structure Found where
  prev : Nat
  cur : Nat
  fin : Nat
  nxt : Nat
  user : Nat
  hdr : Nat
  takenEnd : Nat
  deriving DecidableEq, Repr

def scan (cfg : Config) (s : State) (align userSize : Nat) : Nat → Nat → Nat → Result (Option Found)
  | 0, _, _ => .error .heapCyclic
  | left + 1, prev, cur =>
    if cur = 0 then .ok none
    else do
      let fin ← plus cfg cur (s.word cur)
      let nxt := s.next cur
      match fit cur fin align userSize with
      | .skip => scan cfg s align userSize left cur nxt
      | .stop => return none
      | .take user hdr takenEnd => return some ⟨prev, cur, fin, nxt, user, hdr, takenEnd⟩

/-- The end of the allocated block: a tail too small for a free block is part of it. -/
def Found.stop (f : Found) : Nat := if f.fin - f.takenEnd < minFree then f.fin else f.takenEnd

def carve (s : State) (f : Found) : State :=
  let prefixBytes := f.hdr - f.cur
  let suffixBytes := f.fin - f.stop
  if prefixBytes ≥ minFree then
    let s := s.setSize f.cur prefixBytes
    let s := (s.setSize f.hdr (f.stop - f.hdr)).setExtra f.hdr 0
    if suffixBytes ≥ minFree then
      ((s.setSize f.stop suffixBytes).setNext f.stop f.nxt).setNext f.cur f.stop
    else s
  else
    -- a prefix too small for a free block is part of the allocated one
    let s := s.unlink f.prev f.nxt
    let s := (s.setSize f.hdr (f.stop - f.cur)).setExtra f.hdr prefixBytes
    if suffixBytes ≥ minFree then
      let s := (s.setSize f.stop suffixBytes).setNext f.stop f.nxt
      if f.prev = 0 then { s with head := f.stop } else s.setNext f.prev f.stop
    else s

/-- `try_alloc`; the pointer is 0 if nothing fits. -/
def tryAlloc (cfg : Config) (s : State) (userSize align : Nat) : Result (State × Nat) := do
  if align = 0 ∨ ¬ align.isPowerOfTwo then throw .heapBadAlign
  match ← scan cfg s align userSize walkLimit 0 s.head with
  | none => return (s, 0)
  | some f => return (carve s f, f.user)

/-- The start and size `dealloc_raw` reads from the header before a pointer. -/
def blockAt (s : State) (user : Nat) : Result (Nat × Nat) := do
  if user = 0 then throw .heapNull
  -- `checked_sub`
  if user < header then throw .heapUnderflow
  let hdr := user - header
  if hdr % headerAlign ≠ 0 then throw .heapUnaligned
  let pad := s.word (hdr + 8)
  if hdr < pad then throw .heapUnderflow
  return (hdr - pad, s.word hdr)

def deallocRaw (cfg : Config) (s : State) (user : Nat) : Result State := do
  let (start, size) ← blockAt s user
  insertCoalesced cfg s start size

def init (word : Nat → Nat) (start fin : Nat) : Result State := do
  if start % headerAlign ≠ 0 ∨ fin ≤ start ∨ fin - start < minFree then throw .heapSymbols
  -- page 0 is not mapped
  if start = 0 then throw .kernelFault
  let s : State := ⟨0, start, fin, word⟩
  return { (s.setSize start (fin - start)).setNext start 0 with head := start }

end Whimbrel.Heap
