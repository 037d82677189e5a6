import SctpSandbox.Lib.Quiescence
import SctpSandbox.Udp.Effects

/-! # Several `SocketUdp`s and the datagrams between them

A network is any number of sockets and the datagrams in flight. A delivery takes one datagram out
and gives it to `handleMessage` of a socket it is addressed to; what that call sends is put in
flight. Which datagrams a socket receives and under which address it is seen is left open, as is
which of its `sendto`s succeed.

The only answer is `kack`, to `ka`. So a keep-alive message counts twice, for itself and its answer,
any other datagram once, and every delivery lowers the sum. -/

namespace SctpSandbox

/-- A datagram in flight. -/
structure Datagram where
  /-- The address under which the receiver sees the sender. -/
  source : IPSocket
  destination : IPSocket
  data : List Byte
  deriving DecidableEq

/-- `handleMessage` takes the datagram for a keep-alive message. -/
def Datagram.KeepAlive (d : Datagram) : Prop := cStr d.data = SocketUdp.keepAliveMsg

instance : DecidablePred Datagram.KeepAlive := fun d =>
  inferInstanceAs (Decidable (cStr d.data = SocketUdp.keepAliveMsg))

/-- The sockets of a network, and the surroundings that decide what becomes of their datagrams. -/
structure Routing (ι : Type) where
  /-- Socket `i` receives what is sent to the address. -/
  receives : ι → IPSocket → Prop
  /-- The source address of what socket `i` sends to the address. -/
  source : ι → IPSocket → IPSocket
  /-- The result of the `k`-th `sendto` of socket `i`. -/
  net : ι → ℕ → Bool

/-- A network of sockets and the datagrams in flight between them. -/
structure UdpNetwork (T : TaskScheduler UdpTask) (ι : Type) where
  socket : ι → SocketUdp T
  flight : Multiset Datagram

namespace SocketUdp

variable {T : TaskScheduler UdpTask} {net : ℕ → Bool} {s : SocketUdp T} {r : IPSocket}

/-- The message and the remote of a log line that a `sendto` follows. -/
def sentLine : Time × UdpAction → Option (ChatMessage × IPSocket)
  | (_, .sent msg remote) => some (msg, remote)
  | _ => none

/-- What a call that took `s` to `s'` put on the wire, the oldest first: the messages it logged and
whose `sendto` succeeded. -/
def emitted (net : ℕ → Bool) (s s' : SocketUdp T) : List (ChatMessage × IPSocket) :=
  let lines := (s'.log.take (s'.log.length - s.log.length)).reverse.filterMap sentLine
  (lines.zipIdx s.sends).filterMap fun line => if net line.2 then some line.1 else none

/-- The datagrams emitted are the lines logged whose `sendto` succeeded, in their order. -/
theorem emitted_of_log {s' : SocketUdp T} {new : List (Time × UdpAction)}
    (h : s'.log = new ++ s.log) : emitted net s s' =
      ((new.reverse.filterMap sentLine).zipIdx s.sends).filterMap fun line =>
        if net line.2 then some line.1 else none := by
  rw [emitted, h, List.length_append, Nat.add_sub_cancel, List.take_left]

/-- The end of `handleChatMessage`, which sends nothing. -/
theorem log_known_or_new (r : IPSocket) (s : SocketUdp T) :
    ∃ new, (∀ line ∈ new, sentLine line = none) ∧
      (if r ∈ s.peers then Outcome.returned (resetTasks r s)
        else .returned (handleCommUp r s)).state.log = new ++ s.log := by
  by_cases hr : r ∈ s.peers
  · rw [if_pos hr]
    exact ⟨[], by simp, log_resetTasks r s⟩
  · rw [if_neg hr]
    obtain ⟨p, q, h⟩ := handleCommUp_spec r s
    exact ⟨[(s.now, .commUp r)], by simp [sentLine], h.log⟩

/-- The only message `handleChatMessage` sends is the answer to a keep-alive message. -/
theorem log_handleChatMessage (net : ℕ → Bool) (msg : ChatMessage) (r : IPSocket)
    (s : SocketUdp T) : ∃ new, (∀ line ∈ new, sentLine line = none) ∧
      (handleChatMessage net msg r s).state.log =
        new ++
          ((if msg = keepAliveMsg then [(s.now, .sent keepAliveAckMsg r)] else []) ++ s.log) := by
  by_cases hquit : msg = quitMsg
  · have hne : ¬ quitMsg = keepAliveMsg := by decide
    subst hquit
    rw [handleChatMessage, if_pos rfl, if_neg hne]
    exact ⟨[], by simp, (remove_spec r s).log⟩
  · rw [handleChatMessage, if_neg hquit]
    by_cases hka : msg = keepAliveMsg
    · rw [if_pos hka, if_pos hka]
      have hsend : (send net keepAliveAckMsg r s).state.log =
          (s.now, .sent keepAliveAckMsg r) :: s.log := log_send keepAliveAckMsg r s
      cases h : send net keepAliveAckMsg r s with
      | returned s₁ =>
          rw [h, Outcome.state_returned] at hsend
          rw [Outcome.andThen_returned, List.singleton_append, ← hsend]
          exact log_known_or_new r s₁
      | threw s₁ =>
          -- a failed `sendto` ends the handling
          rw [h, Outcome.state_threw] at hsend
          exact ⟨[], by simp, by simpa using hsend⟩
    · rw [if_neg hka, if_neg hka, Outcome.andThen_returned, List.nil_append]
      exact log_known_or_new r s

/-- **What a call of `handleMessage` puts on the wire**: `kack` to the sender of `ka`, if `sendto`
succeeds, and nothing else. -/
theorem emitted_handleMessage (net : ℕ → Bool) (r : IPSocket) (data : List Byte)
    (s : SocketUdp T) : emitted net s (handleMessage net r (.wrote data) s).state =
      if cStr data = keepAliveMsg ∧ net s.sends = true then [(keepAliveAckMsg, r)] else [] := by
  obtain ⟨new, hnew, hlog⟩ := log_handleChatMessage net (cStr data) r
    (s.record (.received (cStr data) r))
  have hquiet : new.reverse.filterMap sentLine = [] := by
    rw [List.filterMap_eq_nil_iff]
    exact fun line hline => hnew line (List.mem_reverse.mp hline)
  by_cases hka : cStr data = keepAliveMsg
  · have hlines : (handleMessage net r (.wrote data) s).state.log = (new ++
        [(s.now, .sent keepAliveAckMsg r), (s.now, .received (cStr data) r)]) ++ s.log := by
      rw [handleMessage, hlog, if_pos hka]
      simp [record]
    rw [emitted_of_log hlines]
    cases hnet : net s.sends <;> simp [List.filterMap_cons, sentLine, hquiet, hka, hnet]
  · have hlines : (handleMessage net r (.wrote data) s).state.log =
        (new ++ [(s.now, .received (cStr data) r)]) ++ s.log := by
      rw [handleMessage, hlog, if_neg hka]
      simp [record]
    rw [emitted_of_log hlines]
    simp [List.filterMap_cons, sentLine, hquiet, hka]

end SocketUdp

namespace UdpNetwork

open SocketUdp

variable {T : TaskScheduler UdpTask} {ι : Type}

/-- What socket `i` put on the wire, as datagrams. -/
def launched (R : Routing ι) (i : ι) (sent : List (ChatMessage × IPSocket)) : Multiset Datagram :=
  ↑(sent.map fun line => (⟨R.source i line.2, line.2, line.1⟩ : Datagram))

/-- The datagram `e.2` is delivered to socket `e.1`. An exception out of `handleMessage` leaves the
socket as it was at the throw. -/
def deliver [DecidableEq ι] (R : Routing ι) (n : UdpNetwork T ι) (e : ι × Datagram) :
    Outcome (UdpNetwork T ι) :=
  let s := n.socket e.1
  let s' := (handleMessage (R.net e.1) e.2.source (.wrote e.2.data) s).state
  .returned {
    socket := Function.update n.socket e.1 s'
    flight := n.flight.erase e.2 + launched R e.1 (emitted (R.net e.1) s s') }

/-- The datagram is in flight and reaches the socket. -/
def Deliverable (R : Routing ι) (n : UdpNetwork T ι) (e : ι × Datagram) : Prop :=
  e.2 ∈ n.flight ∧ R.receives e.1 e.2.destination

/-- The answer to a datagram. -/
def ack (R : Routing ι) (i : ι) (d : Datagram) : Datagram :=
  ⟨R.source i d.source, d.source, keepAliveAckMsg⟩

/-- An answer is no keep-alive, so it is not answered. -/
theorem not_keepAlive_ack (R : Routing ι) (i : ι) (d : Datagram) : ¬ (ack R i d).KeepAlive := by
  show ¬ cStr keepAliveAckMsg = keepAliveMsg
  decide

/-- The number of keep-alive messages in flight. -/
def keepAlives (n : UdpNetwork T ι) : ℕ := (n.flight.filter Datagram.KeepAlive).card

/-- The number of other datagrams in flight. -/
def others (n : UdpNetwork T ι) : ℕ := (n.flight.filter fun d => ¬ d.KeepAlive).card

/-- A keep-alive message weighs as much as itself and its answer. -/
def weight (d : Datagram) : ℕ := if d.KeepAlive then 2 else 1

/-- The weight in flight counts a keep-alive twice, for itself and for its answer. -/
theorem totalWeight_flight (n : UdpNetwork T ι) :
    totalWeight weight n.flight = 2 * n.keepAlives + n.others :=
  totalWeight_ite Datagram.KeepAlive n.flight

section Deliveries

variable [DecidableEq ι]

/-- **What a delivery does to the datagrams in flight.** -/
theorem flight_deliver (R : Routing ι) (n : UdpNetwork T ι) (e : ι × Datagram) :
    (deliver R n e).state.flight = n.flight.erase e.2 +
      if e.2.KeepAlive ∧ R.net e.1 (n.socket e.1).sends = true then {ack R e.1 e.2} else 0 := by
  show n.flight.erase e.2 + launched R e.1 (emitted _ _ _) = _
  rw [emitted_handleMessage]
  by_cases h : cStr e.2.data = keepAliveMsg ∧ R.net e.1 (n.socket e.1).sends = true
  · rw [if_pos h, if_pos (show e.2.KeepAlive ∧ _ from h)]
    rfl
  · rw [if_neg h, if_neg (show ¬ (e.2.KeepAlive ∧ _) from h)]
    rfl

/-- Every delivery lowers the weight of what is in flight. -/
theorem totalWeight_deliver_lt (R : Routing ι) (n : UdpNetwork T ι) (e : ι × Datagram)
    (h : Deliverable R n e) : totalWeight weight (deliver R n e).state.flight <
      totalWeight weight n.flight := by
  rw [flight_deliver]
  refine totalWeight_deliver weight h.1 ?_
  -- a keep-alive is replaced by an acknowledgement of weight one
  by_cases hka : e.2.KeepAlive ∧ R.net e.1 (n.socket e.1).sends = true
  · have hack : totalWeight weight {ack R e.1 e.2} = 1 := by
      rw [totalWeight, Multiset.map_singleton, Multiset.sum_singleton, weight,
        if_neg (not_keepAlive_ack R e.1 e.2)]
    have hd : weight e.2 = 2 := if_pos hka.1
    rw [if_pos hka, hack, hd]
    exact Nat.one_lt_two
  · have hd : 0 < weight e.2 := by
      unfold weight
      split <;> omega
    rw [if_neg hka]
    exact hd

/-- **Keep-alive traffic comes to rest.** In any network, whatever its sockets have been through:
a delivery takes its datagram out and puts at most a `kack` in, for a `ka` and to its sender; there
are at most twice as many deliveries as keep-alive messages in flight, and as many again as other
datagrams; and no order of deliveries goes on forever. -/
theorem keepAlive_quiesces (R : Routing ι) (n : UdpNetwork T ι) :
    (∀ e, Deliverable R n e → (deliver R n e).state.flight = n.flight.erase e.2 ∨
      e.2.KeepAlive ∧
        (deliver R n e).state.flight = n.flight.erase e.2 + {ack R e.1 e.2}) ∧
    (∀ es n', Run (deliver R) (Deliverable R) n es n' →
      es.length ≤ 2 * n.keepAlives + n.others) ∧
    Acc (Successor (deliver R) (Deliverable R)) n := by
  have hstep := totalWeight_deliver_lt (T := T) R
  refine ⟨fun e _ => ?_, fun es n' h => ?_, ?_⟩
  · rw [flight_deliver]
    by_cases hka : e.2.KeepAlive ∧ R.net e.1 (n.socket e.1).sends = true
    · rw [if_pos hka]
      exact .inr ⟨hka.1, rfl⟩
    · rw [if_neg hka, add_zero]
      exact .inl rfl
  · have hlen := h.length_le_measure (fun n => totalWeight weight n.flight) hstep
    rwa [totalWeight_flight] at hlen
  · exact (wellFounded_successor (fun n => totalWeight weight n.flight) hstep).apply n

end Deliveries

end UdpNetwork

end SctpSandbox
