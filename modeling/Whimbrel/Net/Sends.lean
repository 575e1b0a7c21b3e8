import Whimbrel.Net.TxQueue

/-! The stack as a sequence of senders.

Seen from the TX queue an operation of the stack is a run of the eight senders, with
changes in between that leave the TX side alone; and what the queue does to the
statics, whatever the device does, is such a run. -/

set_option autoImplicit false

namespace Whimbrel.Net

open Checked Transition Virtqueue

/-- A sender that returned, or anything that is not a transmission. -/
inductive Sends (platform : Platform) : Statics → Option TxCall → Statics → Prop where
  | call {net u : Statics} {call : TxCall} : call.exec platform net = .ok u → Sends platform net (some call) u
  | other {net u : Statics} : SameTx net u → Sends platform net none u

def Sent (platform : Platform) (net u : Statics) : Prop := ∃ calls, Run (Sends platform) net calls u

section
variable {cfg : Config} {platform : Platform} {net u v : Statics}

theorem Sent.trans (first : Sent platform net u) (second : Sent platform u v) : Sent platform net v := by
  obtain ⟨calls, first⟩ := first
  obtain ⟨more, second⟩ := second
  exact ⟨calls ++ more, first.append second⟩

theorem Sent.call (call : TxCall) (done : call.exec platform net = .ok u) : Sent platform net u :=
  ⟨[some call], .single (.call done)⟩

theorem Sent.other (same : SameTx net u) : Sent platform net u := ⟨[none], .single (.other same)⟩

theorem Sent.tcp {tcp : Tcp.Statics} {now : Usize} {out : Tcp.Out} (done : txTcp platform now { net with tcp } out = .ok u) :
    Sent platform net u := by
  have before : Sent platform net { net with tcp } := .other ⟨rfl, rfl, rfl, rfl⟩
  refine before.trans ?_
  cases out with
  | none =>
    cases done
    exact .other ⟨rfl, rfl, rfl, rfl⟩
  | synAck dstIp dstPort seq ack => exact .call (.tcpSynack dstIp dstPort seq ack) done
  | seg dstIp dstPort seq ack flags dataLen => exact .call (.tcpSeg now dstIp dstPort seq ack flags dataLen) done

/-! ## The operations of the stack -/

theorem classifyUdp_same {d : Ipv4.Datagram} (done : classifyUdp net d = .ok u) : SameTx net u := by
  obtain ⟨⟨drops, echo⟩, -, done⟩ := bind_eq_ok done
  cases echo with
  | none =>
    cases done
    exact ⟨rfl, rfl, rfl, rfl⟩
  | some echo =>
    obtain ⟨payload, -, done⟩ := bind_eq_ok done
    dsimp only at done
    split at done
    · cases done
      exact ⟨rfl, rfl, rfl, rfl⟩
    · split at done <;> cases done <;> exact ⟨rfl, rfl, rfl, rfl⟩

theorem classifyTcp_sent {now : Usize} {d : Ipv4.Datagram} (done : classifyTcp cfg platform now net d = .ok u) :
    Sent platform net u := by
  unfold classifyTcp at done
  split at done
  · cases done
    exact .other ⟨rfl, rfl, rfl, rfl⟩
  · obtain ⟨⟨tcp, l⟩, -, done⟩ := bind_eq_ok done
    exact .tcp done

theorem classifyIcmp_sent {now : Usize} {d : Ipv4.Datagram} (done : classifyIcmp now net d = .ok u) :
    Sent platform net u := by
  obtain ⟨⟨drops, msg⟩, -, done⟩ := bind_eq_ok done
  have before : Sent platform net { net with icmp := drops } := .other ⟨rfl, rfl, rfl, rfl⟩
  refine before.trans ?_
  match msg with
  | some (.echoReq _ _ raw) => exact .call (.icmpEchoReply d.src raw) done
  | some (.echoReply id seq) =>
    dsimp only at done
    split at done <;> cases done <;> exact .other ⟨rfl, rfl, rfl, rfl⟩
  | none =>
    cases done
    exact .other ⟨rfl, rfl, rfl, rfl⟩

theorem classifyIpv4_sent {now : Usize} {frame : List U8} (done : classifyIpv4 cfg platform now net frame = .ok u) :
    Sent platform net u := by
  obtain ⟨⟨drops, d⟩, -, done⟩ := bind_eq_ok done
  have before : Sent platform net { net with ipv4 := drops } := .other ⟨rfl, rfl, rfl, rfl⟩
  refine before.trans ?_
  cases d with
  | none =>
    cases done
    exact .other ⟨rfl, rfl, rfl, rfl⟩
  | some d =>
    dsimp only at done
    split at done
    · exact .other (classifyUdp_same done)
    · split at done
      · exact classifyTcp_sent done
      · exact classifyIcmp_sent done

theorem classifyArp_sent {frame : List U8} {r : Statics × Bool} (done : classifyArp net frame = .ok r) :
    Sent platform net r.1 := by
  obtain ⟨⟨arp, event⟩, -, done⟩ := bind_eq_ok done
  have before : Sent platform net { net with arp } := .other ⟨rfl, rfl, rfl, rfl⟩
  refine before.trans ?_
  cases event with
  | none =>
    cases done
    exact .other ⟨rfl, rfl, rfl, rfl⟩
  | some event =>
    cases event with
    | reply =>
      cases done
      exact .other ⟨rfl, rfl, rfl, rfl⟩
    | request req =>
      obtain ⟨u, sent, done⟩ := bind_eq_ok done
      cases done
      exact .call (.arpReply req) sent

theorem classifyRx_sent {c : Completion} {r : Statics × Bool} (done : classifyRx cfg platform net c = .ok r) :
    Sent platform net r.1 := by
  rw [classifyRx_eq] at done
  cases has : c.frame with
  | none =>
    rw [has] at done
    cases done
    exact .other ⟨rfl, rfl, rfl, rfl⟩
  | some frame =>
    rw [has] at done
    dsimp only at done
    split at done
    · obtain ⟨u, classified, rfl⟩ := map_eq_ok done
      exact classifyIpv4_sent classified
    · split at done
      · cases done
        exact .other ⟨rfl, rfl, rfl, rfl⟩
      · exact classifyArp_sent done

theorem rxStep_sent {took : U32} {replied : Bool} {c : Completion} {r : Statics × U32 × Bool}
    (done : rxStep cfg platform net took replied c = .ok r) : Sent platform net r.1 := by
  unfold rxStep at done
  split at done
  · cases done
  obtain ⟨v, classified, done⟩ := bind_eq_ok done
  obtain ⟨took', -, done⟩ := bind_eq_ok done
  cases done
  have before : Sent platform net net.rxTaken := .other ⟨rfl, rfl, rfl, rfl⟩
  exact before.trans ((classifyRx_sent classified).trans (.other ⟨rfl, rfl, rfl, rfl⟩))

theorem rxLoop_sent {took : U32} {replied : Bool} {cs : List Completion} {r : Statics × U32 × Bool}
    (done : rxLoop cfg platform net took replied cs = .ok r) : Sent platform net r.1 := by
  induction cs generalizing net took replied with
  | nil =>
    cases done
    exact .other ⟨rfl, rfl, rfl, rfl⟩
  | cons c cs ih =>
    obtain ⟨v, first, rest⟩ := bind_eq_ok done
    exact (rxStep_sent first).trans (ih rest)

/-- Whatever arrives and whatever is called, the stack transmits through the senders only. -/
theorem Step.sent {op : Op} (step : Step cfg platform net op u) : Sent platform net u := by
  unfold Step at step
  cases op with
  | pollRx cs =>
    obtain ⟨r, polled, rfl⟩ := map_eq_ok step
    obtain ⟨v, loop, polled⟩ := bind_eq_ok polled
    dsimp only at polled
    split at polled
    · cases polled
    · cases polled
      exact rxLoop_sent loop
  | pumpTcp now =>
    obtain ⟨⟨tcp, l⟩, -, step⟩ := bind_eq_ok step
    exact .tcp step
  | tcpSend now payload flags =>
    obtain ⟨r, called, rfl⟩ := map_eq_ok step
    obtain ⟨⟨tcp, l⟩, -, called⟩ := bind_eq_ok called
    dsimp only at called
    split at called
    · cases called
      exact .other ⟨rfl, rfl, rfl, rfl⟩
    · obtain ⟨v, sent, called⟩ := bind_eq_ok called
      cases called
      exact .tcp sent
  | tcpConsume | tcpEof =>
    obtain ⟨⟨tcp, l⟩, -, step⟩ := bind_eq_ok step
    cases step
    exact .other ⟨rfl, rfl, rfl, rfl⟩
  | udpSend payload =>
    obtain ⟨r, called, rfl⟩ := map_eq_ok step
    unfold udpSend at called
    split at called
    · cases called
      exact .other ⟨rfl, rfl, rfl, rfl⟩
    · obtain ⟨v, sent, called⟩ := bind_eq_ok called
      cases called
      exact .call (.udp payload net.udpSrcIp net.udpSrcPort) sent
  | udpConsume =>
    cases step
    exact .other ⟨rfl, rfl, rfl, rfl⟩
  | arpRequest => exact .call .arpRequest step
  | gratuitousArp => exact .call .gratuitousArp step
  | ping now => exact .call (.ping now) step

end

def TxWorld.settled (w : TxWorld) : Statics :=
  match w.pc with
  | .idle => w.net
  | .sending .. => w.began

section
variable {platform : Platform} {w u : TxWorld}

theorem TxWorld.settled_idle (idle : w.pc = .idle) : w.settled = w.net := by rw [TxWorld.settled, idle]

theorem TxWorld.settled_sending {stage : TxStage} {call : TxCall} {frame : List U8}
    (reached : w.pc = .sending stage call frame) : w.settled = w.began := by rw [TxWorld.settled, reached]

theorem TxInv.returned {call : TxCall} {frame : List U8} {net : Statics} (inv : TxInv w)
    (reached : w.pc = .sending .loaded call frame) (done : call.after platform w.net.txTaken = .ok net) :
    call.exec platform w.began = .ok net := by
  have now := inv.sending _ call frame reached
  have nonempty : frame.length ≠ 0 := (now.desc nofun nofun).2
  rw [TxCall.exec_eq, now.built, bind_ok, Statics.send, Statics.posted, if_neg nonempty, bind_ok, ← (inv.taken reached).1]
  exact done

theorem TxInv.drive_settles {expired : Bool} {stage : TxStage} {call : TxCall} {frame : List U8} (inv : TxInv w)
    (reached : w.pc = .sending stage call frame) (done : w.drive platform expired call frame stage = .ok u) :
    u.settled = w.began ∨ Sends platform w.began (some call) u.settled := by
  have unmoved := TxWorld.settled_sending reached
  cases stage with
  | filling =>
    cases done
    left
    split
    · rfl
    · exact unmoved
  | filled =>
    rw [TxWorld.drive] at done
    split at done
    · cases done
    · cases done
      exact .inl rfl
  | described | written | published =>
    cases done
    exact .inl rfl
  | waiting =>
    rw [TxWorld.drive] at done
    split at done
    · split at done
      · cases done
      · cases done
        exact .inl unmoved
    · cases done
      exact .inl rfl
  | loaded =>
    -- The call takes effect here, in one step.
    obtain ⟨net, after, done⟩ := bind_eq_ok done
    cases done
    exact .inr (.call (inv.returned reached after))

theorem TxStep.settles {e : TxEvent} (inv : TxInv w) (step : TxStep platform w e u) :
    u.settled = w.settled ∨ ∃ call, Sends platform w.settled call u.settled := by
  cases step with
  | device moved =>
    cases reached : w.pc with
    | idle => exact absurd moved (inv.counted.still (inv.out_nil (by rw [reached]; rfl)))
    | sending stage call frame => exact .inl (TxWorld.settled_sending reached).symm
  | call idle => exact .inl (TxWorld.settled_idle idle).symm
  | @noarp call idle absent =>
    have after : { w with net := noteNoarp w.net }.settled = noteNoarp w.net := TxWorld.settled_idle idle
    rw [TxWorld.settled_idle idle, after]
    refine .inr ⟨some call, .call ?_⟩
    rw [TxCall.exec_eq, absent]
    rfl
  | write off bytes inside reached =>
    exact .inl ((TxWorld.settled_sending reached).trans (TxWorld.settled_sending reached).symm)
  | @other net idle same =>
    have after : { w with net }.settled = net := TxWorld.settled_idle idle
    rw [TxWorld.settled_idle idle, after]
    exact .inr ⟨none, .other same⟩
  | drive reached done =>
    rw [TxWorld.settled_sending reached]
    exact (inv.drive_settles reached done).imp_right fun sent => ⟨_, sent⟩

/-- Whatever the device does, what the queue does to the statics is a run of senders. -/
theorem txQueue_refines {mac : Mac} {ring : Fin qsize → Nat} {entries : Fin qsize → Nat × Nat} {buf : Buffer} {descLen : Nat}
    {es : List TxEvent} (run : Run (TxStep platform) (.boot mac ring entries buf descLen) es w) :
    Sent platform (.boot mac) w.settled := by
  have start : TxInv (.boot mac ring entries buf descLen) ∧
      Sent platform (.boot mac) (TxWorld.boot mac ring entries buf descLen).settled :=
    ⟨.boot mac ring entries buf descLen, [], .nil⟩
  have each (s : TxWorld) (e : TxEvent) (t : TxWorld) (before : TxInv s ∧ Sent platform (.boot mac) s.settled)
      (step : TxStep platform s e t) : TxInv t ∧ Sent platform (.boot mac) t.settled := by
    obtain ⟨inv, calls, before⟩ := before
    refine ⟨inv.step step, ?_⟩
    rcases step.settles inv with same | ⟨call, next⟩
    · exact ⟨calls, same ▸ before⟩
    · exact ⟨calls ++ [call], .snoc before next⟩
  exact (run.invariant each start).2

end

end Whimbrel.Net
