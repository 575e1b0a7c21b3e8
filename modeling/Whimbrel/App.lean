import Whimbrel.Lib.Dialogue
import Whimbrel.Recv

/-! The program in U-mode: `app/src/lib.rs` over `usys/src/lib.rs`.

`app_main` never returns. Its loop is cut after a number of rounds, so that every finite
behaviour of the app is one of such a program. The app reads its buffer between two
calls only, so a reply brings the memory it then finds. -/

set_option autoImplicit false

namespace Whimbrel.App

open Dialogue

structure Build where
  app : App
  persist : Bool
  /-- `compile_error!("persist is HTTP-only")`. -/
  httpOnly : persist → app = .http

def text (s : String) : List U8 := s.toList.map fun c => BitVec.ofNat 8 c.toNat

def readyText : App → List U8
  | .http => text "HTTP READY\n"
  | .udpEcho => text "UDP ECHO READY\n"

def doneText : App → List U8
  | .http => text "HTTP DONE\n"
  | .udpEcho => text "NET UDP OK\n"

def respText : List U8 :=
  text "HTTP/1.0 200 OK\r\nContent-Type: text/plain\r\nConnection: close\r\nContent-Length: 9\r\n\r\nwhimbrel\n"

def sendFin : Usize := 1

/-- Where the linker has put the texts, and the stack the buffer. -/
structure Symbols where
  ready : Usize
  done : Usize
  resp : Usize
  buf : Usize

/-- The `while` of `request_ok` from `i` on; `n` rounds are enough. -/
def findCrlf (p : Nat → U8) (n : Nat) : Nat → Nat → Bool
  | 0, _ => false
  | fuel + 1, i =>
    if i + 1 < n then
      if p i = 0x0d ∧ p (i + 1) = 0x0a then true else findCrlf p n fuel (i + 1)
    else false

def requestOk (p : Nat → U8) (n : Nat) : Bool :=
  if n < 6 then false
  else if p 0 ≠ 0x47 ∨ p 1 ≠ 0x45 ∨ p 2 ≠ 0x54 ∨ p 3 ≠ 0x20 then false
  else findCrlf p n n 0

def IsRequest (p : List U8) : Prop := text "GET " <+: p ∧ text "\r\n" <:+: p

instance (p : List U8) : Decidable (IsRequest p) := inferInstanceAs (Decidable (_ ∧ _))

theorem findCrlf_iff {p : Nat → U8} {n fuel i : Nat} (enough : n ≤ i + fuel) :
    findCrlf p n fuel i ↔ ∃ j, i ≤ j ∧ j + 1 < n ∧ p j = 0x0d ∧ p (j + 1) = 0x0a := by
  induction fuel generalizing i with
  | zero =>
    refine iff_of_false (by simp [findCrlf]) ?_
    rintro ⟨j, from_, inside, -⟩
    omega
  | succ fuel ih =>
    unfold findCrlf
    by_cases inside : i + 1 < n
    · rw [if_pos inside]
      by_cases here : p i = 0x0d ∧ p (i + 1) = 0x0a
      · rw [if_pos here]
        exact iff_of_true rfl ⟨i, Nat.le_refl i, inside, here⟩
      · rw [if_neg here, ih (by omega)]
        constructor
        · rintro ⟨j, from_, found⟩
          exact ⟨j, by omega, found⟩
        · rintro ⟨j, from_, found⟩
          rcases Nat.lt_or_eq_of_le from_ with later | rfl
          · exact ⟨j, later, found⟩
          · exact absurd found.2 here
    · rw [if_neg inside]
      refine iff_of_false (by simp) ?_
      rintro ⟨j, from_, found, -⟩
      omega

section
variable {p : Nat → U8} {n : Nat}

theorem bytes_getElem? {i : Nat} {b : U8} : ((List.range n).map p)[i]? = some b ↔ i < n ∧ p i = b := by
  by_cases inside : i < n <;> simp [inside]

theorem crlf_iff : text "\r\n" <:+: (List.range n).map p ↔ ∃ j, j + 1 < n ∧ p j = 0x0d ∧ p (j + 1) = 0x0a := by
  rw [List.infix_iff_getElem?]
  constructor
  · rintro ⟨k, -, found⟩
    obtain ⟨-, first⟩ := bytes_getElem?.mp (found 0 (by decide))
    obtain ⟨inside, second⟩ := bytes_getElem?.mp (found 1 (by decide))
    rw [Nat.zero_add] at first
    rw [Nat.add_comm] at inside second
    exact ⟨k, inside, first, second⟩
  · rintro ⟨k, inside, first, second⟩
    refine ⟨k, ?_, fun i small => ?_⟩
    · rw [List.length_map, List.length_range]
      change 2 + k ≤ n
      omega
    · have below : i < 2 := small
      obtain rfl | rfl : i = 0 ∨ i = 1 := by omega
      · rw [Nat.zero_add]
        exact bytes_getElem?.mpr ⟨by omega, first⟩
      · rw [Nat.add_comm]
        exact bytes_getElem?.mpr ⟨inside, second⟩

theorem method_iff :
    text "GET " <+: (List.range n).map p ↔ 4 ≤ n ∧ p 0 = 0x47 ∧ p 1 = 0x45 ∧ p 2 = 0x54 ∧ p 3 = 0x20 := by
  rw [List.prefix_iff_getElem?]
  constructor
  · intro found
    obtain ⟨inside, fourth⟩ := bytes_getElem?.mp (found 3 (by decide))
    exact ⟨inside, (bytes_getElem?.mp (found 0 (by decide))).2, (bytes_getElem?.mp (found 1 (by decide))).2,
      (bytes_getElem?.mp (found 2 (by decide))).2, fourth⟩
  · rintro ⟨four, first, second, third, fourth⟩ i small
    have below : i < 4 := small
    obtain rfl | rfl | rfl | rfl : i = 0 ∨ i = 1 ∨ i = 2 ∨ i = 3 := by omega
    · exact bytes_getElem?.mpr ⟨by omega, first⟩
    · exact bytes_getElem?.mpr ⟨by omega, second⟩
    · exact bytes_getElem?.mpr ⟨by omega, third⟩
    · exact bytes_getElem?.mpr ⟨by omega, fourth⟩

/-- What `request_ok` accepts, read off the `n` bytes it is given. -/
theorem requestOk_iff : requestOk p n ↔ IsRequest ((List.range n).map p) := by
  unfold requestOk IsRequest
  rw [method_iff, crlf_iff]
  by_cases short : n < 6
  · rw [if_pos short]
    refine iff_of_false (by simp) ?_
    -- the method is no part of the line's end
    rintro ⟨⟨-, first, second, third, fourth⟩, k, inside, cr, -⟩
    obtain rfl | rfl | rfl | rfl : k = 0 ∨ k = 1 ∨ k = 2 ∨ k = 3 := by omega
    · exact absurd (first.symm.trans cr) (by decide)
    · exact absurd (second.symm.trans cr) (by decide)
    · exact absurd (third.symm.trans cr) (by decide)
    · exact absurd (fourth.symm.trans cr) (by decide)
  · rw [if_neg short]
    by_cases other : p 0 ≠ 0x47 ∨ p 1 ≠ 0x45 ∨ p 2 ≠ 0x54 ∨ p 3 ≠ 0x20
    · rw [if_pos other]
      refine iff_of_false (by simp) ?_
      rintro ⟨⟨-, first, second, third, fourth⟩, -⟩
      tauto
    · rw [if_neg other, findCrlf_iff (by omega)]
      simp only [not_or, ne_eq, not_not] at other
      constructor
      · rintro ⟨j, -, found⟩
        exact ⟨⟨by omega, other⟩, j, found⟩
      · rintro ⟨-, j, found⟩
        exact ⟨j, Nat.zero_le j, found⟩

end

inductive Call where
  | write (ptr len : Usize)
  | exit (code : Usize)
  | recv (ptr len : Usize)
  | send (ptr len flags : Usize)
  deriving DecidableEq, Repr

/-- `a7`, `a0`, `a1` and `a2` of the `ecall`. -/
def Call.regs : Call → Usize × Usize × Usize × Usize
  | .write ptr len => (Syscall.sysWrite, ptr, len, 0)
  | .exit code => (Syscall.sysExit, code, 0, 0)
  | .recv ptr len => (Syscall.sysRecv, ptr, len, 0)
  | .send ptr len flags => (Syscall.sysSend, ptr, len, flags)

structure Reply where
  err : Usize
  val : Usize
  mem : Asm.Memory

/-- The app stops with an error only at the `unimp` behind `exit`. -/
abbrev Code := Prog Call (fun _ => Reply) Unit

/-- The kernel does not resume after this call; if it did, `unimp` follows. -/
def exit (code : Usize) : Code Unit := .ask (.exit code) fun _ => .fail ()

/-! ## `app_main` -/

section
variable (b : Build) (sym : Symbols)

/-- A round of the loop under `udp-echo`, once `recv` has returned. -/
def echoOn (r : Reply) : Code Unit :=
  if r.err = Syscall.errAgain then return ()
  else if r.err ≠ Syscall.ok then exit 1
  else if r.val > addr b.app.recvBuf then exit 1
  else do
    let s ← Prog.request (.send sym.buf r.val 0)
    if s.err ≠ Syscall.ok then exit 2
    else do
      let _ ← Prog.request (.write sym.done (addr (doneText b.app).length))
      exit 0

def httpOn (r : Reply) : Code Unit :=
  if r.err = Syscall.errAgain then return ()
  else if r.err ≠ Syscall.ok then exit 1
  else if r.val = 0 then
    if b.persist then return ()
    else do
      let _ ← Prog.request (.write sym.done (addr (doneText b.app).length))
      exit 0
  else if r.val > addr b.app.recvBuf then exit 1
  else if ¬ requestOk (fun i => r.mem (sym.buf + addr i)) r.val.toNat then exit 3
  else do
    let s ← Prog.request (.send sym.resp (addr respText.length) sendFin)
    if s.err ≠ Syscall.ok then exit 2 else return ()

def round : Code Unit := do
  let r ← Prog.request (.recv sym.buf (addr b.app.recvBuf))
  match b.app with
  | .udpEcho => echoOn b sym r
  | .http => httpOn b sym r

def loop : Nat → Code Unit
  | 0 => return ()
  | n + 1 => do
    round b sym
    loop n

def appMain (rounds : Nat) : Code Unit := do
  let _ ← Prog.request (.write sym.ready (addr (readyText b.app).length))
  loop b sym rounds

variable {b}

theorem round_http (http : b.app = .http) :
    round b sym = Prog.request (.recv sym.buf (addr b.app.recvBuf)) >>= httpOn b sym := by
  obtain ⟨app, persist, httpOnly⟩ := b
  cases http
  rfl

end

end Whimbrel.App
