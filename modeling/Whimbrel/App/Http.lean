import Whimbrel.App.Serve

/-! The HTTP app: `app_main` without `udp-echo`.

Whatever the network does, the app answers requests only, with its one response, and
nothing else ever leaves the machine as application data. -/

set_option autoImplicit false

namespace Whimbrel.App

open Checked Transition Uaccess Dialogue

abbrev Log := List (Event Call fun _ => Reply)

/-- A call of the HTTP app, with what came right before it. -/
inductive HttpCall (b : Build) (sym : Symbols) (seen : List Net.Completion) : Log → Call → Prop where
  | ready : HttpCall b sym seen [] (.write sym.ready (addr (readyText b.app).length))
  | recv {es : Log} : HttpCall b sym seen es (.recv sym.buf (addr b.app.recvBuf))
  /-- The last message was a request. -/
  | respond {es : Log} {r : Reply} {g : Net.Message} (ok : r.err = Syscall.ok) (brought : Brought seen g)
      (request : IsRequest (g.data.take b.app.recvBuf)) :
      HttpCall b sym seen (es ++ [⟨.recv sym.buf (addr b.app.recvBuf), r⟩]) (.send sym.resp (addr respText.length) sendFin)
  /-- `recv` said OK and no byte. -/
  | done {es : Log} {r : Reply} (once : ¬ b.persist) (ok : r.err = Syscall.ok) (none : r.val = 0) :
      HttpCall b sym seen (es ++ [⟨.recv sym.buf (addr b.app.recvBuf), r⟩])
        (.write sym.done (addr (doneText b.app).length))
  | exitDone {es : Log} {r s : Reply} (once : ¬ b.persist) (ok : r.err = Syscall.ok) (none : r.val = 0) :
      HttpCall b sym seen (es ++ [⟨.recv sym.buf (addr b.app.recvBuf), r⟩,
        ⟨.write sym.done (addr (doneText b.app).length), s⟩]) (.exit 0)
  /-- The response was refused. -/
  | exitRefused {es : Log} {r : Reply} (refused : r.err ≠ Syscall.ok) :
      HttpCall b sym seen (es ++ [⟨.send sym.resp (addr respText.length) sendFin, r⟩]) (.exit 2)
  /-- The last message was no request. -/
  | exitOther {es : Log} {r : Reply} {g : Net.Message} (ok : r.err = Syscall.ok) (brought : Brought seen g)
      (other : ¬ IsRequest (g.data.take b.app.recvBuf)) :
      HttpCall b sym seen (es ++ [⟨.recv sym.buf (addr b.app.recvBuf), r⟩]) (.exit 3)

section
variable {cfg : Config} {lay : Layout} {platform : Platform} {b : Build} {sym : Symbols} {w : World} {es : Log}

structure Serving (lay : Layout) (w : World) : Prop extends Alive lay w where
  speaks : Net.Speaks (· = respText) w.user.kernel.net

/-- `Safe` for the HTTP app: every call is one of `HttpCall`. -/
abbrev Proper (cfg : Config) (lay : Layout) (platform : Platform) (b : Build) (sym : Symbols) (p : Code Unit)
    (w : World) (es : Log) : Prop :=
  Safe (logged (Serves cfg lay platform b sym)) (fun s call => Serving lay s.1 ∧ HttpCall b sym s.1.seen s.2 call)
    (fun _ => True) (fun s _ => Serving lay s.1) p (w, es)

theorem exit_proper {code : Usize} (serving : Serving lay w) (call : HttpCall b sym w.seen es (.exit code)) :
    Proper cfg lay platform b sym (exit code) w es :=
  ⟨⟨serving, call⟩, fun _ _ _ => trivial⟩

theorem httpOn_request {r : Reply} (ok : r.err = Syscall.ok) (some : r.val ≠ 0) (room : ¬ r.val > addr b.app.recvBuf)
    (request : requestOk (fun i => r.mem (sym.buf + addr i)) r.val.toNat) :
    httpOn b sym r = do
      let s ← Prog.request (.send sym.resp (addr respText.length) sendFin)
      if s.err ≠ Syscall.ok then exit 2 else return () := by
  rw [httpOn, if_neg (by rw [ok]; decide), if_neg (not_not.mpr ok), if_neg some, if_neg room, if_neg (not_not.mpr request)]

theorem respond_proper (answers : platform.Answers) (http : b.app = .http) (serving : Serving lay w)
    (call : HttpCall b sym w.seen es (.send sym.resp (addr respText.length) sendFin)) :
    Proper cfg lay platform b sym (do
      let s ← Prog.request (.send sym.resp (addr respText.length) sendFin)
      if s.err ≠ Syscall.ok then exit 2 else return ()) w es := by
  refine Safe.ask ⟨serving, call⟩ fun s w' answered => ?_
  obtain ⟨w', log⟩ := w'
  obtain ⟨served, rfl⟩ := answered
  obtain ⟨alive, mem, texts, -, -, ops, run, sends⟩ := Serves.send answers serving.toAlive served
  have bytes : userBytes mem sym.resp (copyLen (addr respText.length)) = respText := by
    have length : copyLen (addr respText.length) = respText.length := by decide
    rw [length]
    exact texts.resp http
  rw [bytes] at sends
  have after : Serving lay w' := ⟨alive, .run run (fun op member => (sends op member).offers (by decide) fun _ => rfl) serving.speaks⟩
  dsimp only
  split
  · rename_i refused
    exact exit_proper after (.exitRefused refused)
  · exact after

theorem done_proper (answers : platform.Answers) (serving : Serving lay w) {r : Reply} (ok : r.err = Syscall.ok)
    (none : r.val = 0) :
    Proper cfg lay platform b sym (if b.persist then return () else do
      let _ ← Prog.request (.write sym.done (addr (doneText b.app).length))
      exit 0) w (es ++ [⟨.recv sym.buf (addr b.app.recvBuf), r⟩]) := by
  by_cases persist : b.persist
  · rw [if_pos persist]
    exact serving
  · rw [if_neg persist]
    refine Safe.ask ⟨serving, .done persist ok none⟩ fun s w' answered => ?_
    obtain ⟨w', log⟩ := w'
    obtain ⟨served, rfl⟩ := answered
    obtain ⟨alive, net⟩ := Serves.write answers serving.toAlive served
    have after : Serving lay w' := ⟨alive, net ▸ serving.speaks⟩
    refine exit_proper after ?_
    dsimp only
    rw [List.append_assoc]
    exact .exitDone persist ok none

theorem round_proper (answers : platform.Answers) (http : b.app = .http) (serving : Serving lay w) :
    Proper cfg lay platform b sym (round b sym) w es := by
  rw [round_http sym http]
  refine Safe.ask ⟨serving, .recv⟩ fun r w' answered => ?_
  obtain ⟨w', log⟩ := w'
  obtain ⟨served, rfl⟩ := answered
  obtain ⟨alive, ⟨ops, run, mute⟩, hears, -⟩ := Serves.recv answers serving.toAlive served
  have after : Serving lay w' := ⟨alive, .run run (fun op member => (mute op member).offers _) serving.speaks⟩
  unfold httpOn
  cases hears with
  | again err =>
    rw [if_pos err]
    exact after
  | empty ok none =>
    rw [if_neg (by rw [ok]; decide), if_neg (not_not.mpr ok), if_pos none]
    exact done_proper answers after ok none
  | @message g ok brought count bytes =>
    rw [if_neg (by rw [ok]; decide), if_neg (not_not.mpr ok)]
    by_cases none : r.val = 0
    · rw [if_pos none]
      exact done_proper answers after ok none
    -- the kernel never says more than the buffer holds
    have room : ¬ r.val > addr b.app.recvBuf := by
      have size : (addr b.app.recvBuf).toNat = b.app.recvBuf := Kernel.toNat_addr_of_le recvBuf_le
      rw [gt_iff_lt, BitVec.lt_def, size]
      omega
    have request : requestOk (fun i => r.mem (sym.buf + addr i)) r.val.toNat ↔ IsRequest (g.data.take b.app.recvBuf) := by
      rw [requestOk_iff, ← bytes]
      rfl
    rw [if_neg none, if_neg room]
    by_cases asked : requestOk (fun i => r.mem (sym.buf + addr i)) r.val.toNat
    · rw [if_neg (not_not.mpr asked)]
      exact respond_proper answers http after (.respond ok brought (request.mp asked))
    · rw [if_pos asked]
      exact exit_proper after (.exitOther ok brought fun is => asked (request.mpr is))

theorem loop_proper (answers : platform.Answers) (http : b.app = .http) (rounds : Nat) (serving : Serving lay w) :
    Proper cfg lay platform b sym (loop b sym rounds) w es := by
  induction rounds generalizing w es with
  | zero => exact serving
  | succ n ih =>
    exact (round_proper answers http serving).seq fun s _ serving => ih serving

theorem appMain_proper (answers : platform.Answers) (http : b.app = .http) (rounds : Nat) (serving : Serving lay w) :
    Proper cfg lay platform b sym (appMain b sym rounds) w [] := by
  refine Safe.ask ⟨serving, .ready⟩ fun r w' answered => ?_
  obtain ⟨w', log⟩ := w'
  obtain ⟨alive, net⟩ := Serves.write answers serving.toAlive answered.1
  exact loop_proper answers http rounds ⟨alive, net ▸ serving.speaks⟩

theorem http_reached (answers : platform.Answers) (http : b.app = .http) {mac : Mac} {ops : List Net.Op}
    {net : Net.Statics} (stack : Run (Net.Step cfg platform) (.boot mac) ops net) (mute : ∀ op ∈ ops, op.Mute)
    {e : Entries} {ticks : Usize} {u : User} (booted : User.boot cfg lay e net ticks = .ok u) {rounds : Nat} {call : Call}
    {k : Reply → Code Unit}
    (run : Reaches (Serves cfg lay platform b sym) (appMain b sym rounds) ⟨u, ops.flatMap Net.Op.frames⟩ es (.ask call k) w) :
    Serving lay w ∧ HttpCall b sym w.seen es call := by
  obtain ⟨alive, speaks⟩ := Alive.boot answers stack mute booted (· = respText)
  exact ((appMain_proper answers http rounds ⟨alive, speaks⟩).reaches run.logged).1

end

def once : Build := ⟨.http, false, by decide⟩

def readyTrap : UserTrap := (Call.write pageSym.ready (addr (readyText .http).length)).trap (pageMem .http) [] User.ids_nil

def readied : User := resumed started readyTrap

def getFrames : List Net.Completion :=
  User.segments [Tcp.peerSeg 100 0 Tcp.Flag.syn [], Tcp.peerSeg 101 1 Tcp.Flag.ack [],
    Tcp.peerSeg 101 1 (Tcp.Flag.psh ||| Tcp.Flag.ack) (text "GET /\r\n")]

def askTrap : UserTrap :=
  (Call.recv pageSym.buf (addr App.http.recvBuf)).trap (pageMem .http) getFrames (by decide +kernel)

def asked : User := resumed readied askTrap

theorem asked_reached (rounds : Nat) :
    Reaches (Serves .default pageLayout Net.qemu once pageSym) (appMain once pageSym (rounds + 1)) ⟨started, []⟩
      [⟨.write pageSym.ready (addr (readyText .http).length), replyOf readied⟩,
        ⟨.recv pageSym.buf (addr App.http.recvBuf), replyOf asked⟩]
      (httpOn once pageSym (replyOf asked) >>= fun _ => loop once pageSym rounds) ⟨asked, getFrames⟩ := by
  have ready : Answered once started readyTrap := by decide +kernel
  have ask : Answered once readied askTrap := by decide +kernel
  have first : Reaches (Serves .default pageLayout Net.qemu once pageSym) (appMain once pageSym (rounds + 1)) ⟨started, []⟩
      [⟨.write pageSym.ready (addr (readyText .http).length), replyOf readied⟩]
      (.ask (.recv pageSym.buf (addr App.http.recvBuf)) fun r =>
        httpOn once pageSym r >>= fun _ => loop once pageSym rounds) ⟨readied, []⟩ := .answer .start ready.serves
  have second : Serves .default pageLayout Net.qemu once pageSym ⟨readied, []⟩ (.recv pageSym.buf (addr App.http.recvBuf))
      (replyOf asked) ⟨asked, getFrames⟩ :=
    @Answered.serves once readied [] (.recv pageSym.buf (addr App.http.recvBuf)) (pageMem .http) getFrames _ ask
  exact .answer first second

theorem asked_responds (rest : Code Unit) : httpOn once pageSym (replyOf asked) >>= (fun _ => rest) =
    .ask (.send pageSym.resp (addr respText.length) sendFin) fun s =>
      (if s.err ≠ Syscall.ok then exit 2 else return ()) >>= fun _ => rest := by
  have returned : (replyOf asked).err = Syscall.ok ∧ (replyOf asked).val = 7 ∧
      requestOk (fun i => (replyOf asked).mem (pageSym.buf + addr i)) 7 := by decide +kernel
  obtain ⟨ok, val, request⟩ := returned
  rw [httpOn_request ok (by rw [val]; decide) (by rw [val]; decide) (by rw [val]; exact request)]
  rfl

section
variable {cfg : Config} {lay : Layout} {platform : Platform} {b : Build} {sym : Symbols} {w : World} {es : Log}

/-- No frame the HTTP image transmits, at any time, carries application bytes other than its response. -/
theorem http_payloads (answers : platform.Answers) (http : b.app = .http) {mac : Mac} {ops : List Net.Op}
    {net : Net.Statics} (stack : Run (Net.Step cfg platform) (.boot mac) ops net) (mute : ∀ op ∈ ops, op.Mute)
    {e : Entries} {ticks : Usize} {u : User} (booted : User.boot cfg lay e net ticks = .ok u) {rounds : Nat} {call : Call}
    {k : Reply → Code Unit}
    (run : Reaches (Serves cfg lay platform b sym) (appMain b sym rounds) ⟨u, ops.flatMap Net.Op.frames⟩ es (.ask call k) w) :
    ∀ f ∈ w.user.kernel.net.wire, Net.Carries (· = respText) f :=
  (http_reached answers http stack mute booted run).1.speaks.wire

end

def respondTrap : UserTrap :=
  (Call.send pageSym.resp (addr respText.length) sendFin).trap asked.kernel.mem [] User.ids_nil

def responded : User := resumed asked respondTrap

/-- The response is on the wire when the app calls `recv` again. -/
theorem http_payloads_response : ∃ es k w,
    Reaches (Serves .default pageLayout Net.qemu once pageSym) (appMain once pageSym 2) ⟨started, []⟩ es
      (.ask (.recv pageSym.buf (addr App.http.recvBuf)) k) w ∧
    (w.user.kernel.net.wire.getLast?.bind fun f => (Ipv4.judge (f.drop Net.vnetHdr) gwIp).toOption.map Net.dataOf) =
      some respText ∧
    ∀ f ∈ w.user.kernel.net.wire, Net.Carries (· = respText) f := by
  have booted : User.boot .default pageLayout ⟨0, 0, 0, 0⟩ (.boot Net.guestMac) 0 = .ok started := rfl
  have respond : Answered once asked respondTrap := by decide +kernel
  have run := asked_reached 1
  rw [asked_responds] at run
  have sent : Serves .default pageLayout Net.qemu once pageSym ⟨asked, getFrames⟩
      (.send pageSym.resp (addr respText.length) sendFin) (replyOf responded) ⟨responded, getFrames⟩ :=
    @Answered.serves once asked getFrames (.send pageSym.resp (addr respText.length) sendFin) asked.kernel.mem [] _ respond
  have after := Reaches.answer run sent
  have response : (replyOf responded).err = Syscall.ok ∧
      (responded.kernel.net.wire.getLast?.bind fun f => (Ipv4.judge (f.drop Net.vnetHdr) gwIp).toOption.map Net.dataOf) =
        some respText := by decide +kernel
  have next : ((return () : Code Unit) >>= fun _ => loop once pageSym 1) =
      .ask (.recv pageSym.buf (addr App.http.recvBuf)) fun r => httpOn once pageSym r >>= fun _ => loop once pageSym 0 := rfl
  rw [if_neg (not_not.mpr response.1), next] at after
  refine ⟨_, _, ⟨responded, getFrames⟩, after, ?_, ?_⟩
  · dsimp only
    exact response.2
  · exact http_payloads ⟨rfl, fun _ => rfl, rfl⟩ rfl .nil (fun _ member => by cases member) booted after

end Whimbrel.App
