import SctpSandbox.Broadcast
import SctpSandbox.Lib.Framing
import SctpSandbox.Lib.Run
import SctpSandbox.Tcp.ReceiveErrors

/-! # Messages over a TCP connection

`SocketTcp::send` hands each message to `::send`, and `handleMessage` takes whatever one `recv`
returns for a message. Between them is a byte stream that the kernel may cut anywhere. So the
messages arrive as they were sent exactly if each `recv` happens to return the message that is
due. -/

namespace SctpSandbox

open Call

/-- One direction of a connection between two `SocketTcp`s. -/
structure TcpConnection where
  sender : SocketTcp
  /-- The fd of the connection at the sender. -/
  out : FD
  receiver : SocketTcp
  /-- The fd of the connection at the receiver. -/
  fd : FD
  /-- The messages that `::send` took for the connection, the oldest first. -/
  sent : List ChatMessage := []
  /-- The bytes that `recv` has still to return. -/
  stream : List Byte := []
  /-- The messages that `handleMessage` accepted, the oldest first. -/
  accepted : List ChatMessage := []

/-- What happens next at one of the ends. -/
inductive ConnectionEvent where
  /-- The sender sends; `none` is a `::send` that fails, else it took this many bytes. -/
  | send (answers : FD → Option ℕ) (msg : ChatMessage)
  /-- The receiver handles a message on the connection. -/
  | handleMessage (io : TcpAnswers)

namespace TcpConnection

variable {mtx : Mutex} {c c' : TcpConnection} {answers : FD → Option ℕ} {msg : ChatMessage}
  {io : TcpAnswers} {data : List Byte}

/-- A call that is left by an exception or hangs is the last one. -/
def outcome (r : EStateM.Result (Stop SocketError) (Guarded SocketTcp) Unit) (c : TcpConnection) :
    Outcome TcpConnection :=
  match r with
  | .ok _ _ => .returned c
  | .error _ _ => .threw c

/-- The messages for which `::send` was called on `fd`, the oldest first. -/
def messagesOn (fd : FD) (lines : List (FD × ChatMessage)) : List ChatMessage :=
  ((lines.filter fun line => line.1 = fd).map Prod.snd).reverse

/-- The messages that a call of `send` hands to `::send` on the connection. -/
def handed (mtx : Mutex) (c : TcpConnection) (answers : FD → Option ℕ) (msg : ChatMessage) :
    List ChatMessage :=
  let lines := (after (SocketTcp.send mtx (fun fd => (answers fd).isSome) msg
    ⟨c.sender, false⟩)).object.sent
  messagesOn c.out (lines.take (lines.length - c.sender.sent.length))

/-- The sender calls `send`. -/
def send (mtx : Mutex) (c : TcpConnection) (answers : FD → Option ℕ) (msg : ChatMessage) :
    Outcome TcpConnection :=
  let r := SocketTcp.send mtx (fun fd => (answers fd).isSome) msg ⟨c.sender, false⟩
  match answers c.out with
  | none => outcome r { c with sender := (after r).object }
  | some n =>
      let msgs := c.handed mtx answers msg
      outcome r { c with sender := (after r).object, sent := c.sent ++ msgs
                         stream := c.stream ++ (msgs.map fun m => m.take n).flatten }

/-- The message that `handleMessage` has accepted: the one in the buffer of the peer, if the call
has returned and the peer is still there. -/
def acceptedMessage (fd : FD) :
    EStateM.Result (Stop SocketError) (Guarded SocketTcp) Unit → Option ChatMessage
  | .ok _ g => (g.object.peers.lookup fd).map fun peer => g.object.messages peer.msgBuffer
  | .error _ _ => none

/-- The receiver calls `handleMessage`. -/
def handleMessage (mtx : Mutex) (c : TcpConnection) (io : TcpAnswers) : Outcome TcpConnection :=
  let r := SocketTcp.handleMessage mtx c.fd io ⟨c.receiver, false⟩
  outcome r { c with receiver := (after r).object
                     stream := c.stream.drop io.recv.callResult.result.toNat
                     accepted := c.accepted ++ (acceptedMessage c.fd r).toList }

/-- What happens on the connection. -/
def step (mtx : Mutex) (c : TcpConnection) : ConnectionEvent → Outcome TcpConnection
  | .send answers msg => c.send mtx answers msg
  | .handleMessage io => c.handleMessage mtx io

/-- `recv` returns the front of what is pending, as much as fits the buffer at most. -/
def Returns (c : TcpConnection) : RecvCall → Prop
  | .failed _ => False
  | .wrote data => data ≠ [] ∧ data <+: c.stream ∧ data.length ≤ msgBufferSize

/-- The sender sends chat messages that are not empty, have no NUL in them and are shorter than the
buffer; the connection stays. -/
def Possible (c : TcpConnection) : ConnectionEvent → Prop
  | .send answers msg => msg ≠ [] ∧ 0 ∉ msg ∧ msg.length < msgBufferSize ∧
      ∀ n ∈ answers c.out, n ≤ msg.length
  | .handleMessage io => c.Returns io.recv

/-- `::send` takes the whole message, `recv` returns as much as the message that is due has, and the
address for the log line can be queried. -/
def OneForOne (mtx : Mutex) (c : TcpConnection) : ConnectionEvent → Prop
  | .send answers msg => c.handed mtx answers msg ≠ [] → ∀ n ∈ answers c.out, n = msg.length
  | .handleMessage io =>
      io.recv.callResult.result.toNat = (Framing.next c.sent c.accepted).length ∧
        io.peername = true

/-- A connection over which nothing has been sent; both ends may have other peers. -/
structure Established (c : TcpConnection) : Prop where
  main : c.fd ≠ c.receiver.fd.fd
  peer : (c.receiver.peers.lookup c.fd).isSome
  sent : c.sent = []
  stream : c.stream = []
  accepted : c.accepted = []

/-! ## What a call does -/

/-- A call of `send` attempts some of the peers, whatever becomes of it. -/
theorem exists_attempted (mtx : Mutex) (ok : FD → Bool) (msg : ChatMessage) (s : SocketTcp) :
    ∃ fds, (after (SocketTcp.send mtx ok msg ⟨s, false⟩)).object = s.attempted msg fds := by
  have hone : ∀ fd, Keeps (fun s' => ∃ fds, s' = s.attempted msg fds)
      (SocketTcp.sendMessage ok msg fd) := by
    rintro fd g ⟨fds, hg⟩
    -- the loop's attempts grow by one
    have hnext : SocketTcp.attempted msg [fd] g.object = s.attempted msg (fds ++ [fd]) := by
      rw [hg]
      simp [SocketTcp.attempted]
    rw [SocketTcp.sendMessage_eq]
    split
    · exact ⟨fds ++ [fd], hnext⟩
    · exact ⟨fds ++ [fd], hnext⟩
  have hkeeps : Keeps (fun s' => ∃ fds, s' = s.attempted msg fds) (SocketTcp.send mtx ok msg) :=
    Keeps.withLock (keeps_this.bind fun s' => keeps_forM _ fun fd _ => hone fd)
  exact hkeeps ⟨s, false⟩ ⟨[], rfl⟩

/-- Every message handed to `::send` is the one that is sent. -/
theorem eq_of_mem_handed {m : ChatMessage} (h : m ∈ c.handed mtx answers msg) : m = msg := by
  obtain ⟨fds, hfds⟩ := exists_attempted mtx (fun fd => (answers fd).isSome) msg c.sender
  simp only [handed, messagesOn, hfds, SocketTcp.attempted, List.length_append,
    Nat.add_sub_cancel, List.take_left, List.mem_reverse, List.mem_map, List.mem_filter] at h
  obtain ⟨line, ⟨⟨fd, -, rfl⟩, -⟩, rfl⟩ := h
  rfl

/-- Reading a call's end as an outcome keeps the connection. -/
theorem state_outcome (r : EStateM.Result (Stop SocketError) (Guarded SocketTcp) Unit)
    (c : TcpConnection) : (outcome r c).state = c := by
  cases r with
  | ok a g => rfl
  | error e g => rfl

/-- A piece that `recv` returns is accepted, unless the log line throws. -/
theorem state_handleMessage (mtx : Mutex) (hmain : c.fd ≠ c.receiver.fd.fd) {peer : TcpPeer}
    (hpeer : c.receiver.peers.lookup c.fd = some peer) (hrecv : io.recv = .wrote data)
    (hdata : data ≠ []) (hnul : 0 ∉ data) :
    (c.handleMessage mtx io).state =
      { c with receiver := c.receiver.received peer.msgBuffer data
               stream := c.stream.drop data.length
               accepted := c.accepted ++ if io.peername then [data] else [] } := by
  have hcstr : cStr data = data := cStr_eq_self hnul
  have hmessage : SocketTcp.handleMessage mtx c.fd io ⟨c.receiver, false⟩ = _ :=
    SocketTcp.handleMessage_received hmain hpeer hrecv
  -- the message is not empty, so it is logged
  rw [hcstr, if_neg hdata] at hmessage
  have hlookup : (c.receiver.received peer.msgBuffer data).peers.lookup c.fd = some peer := hpeer
  have hread : (c.receiver.received peer.msgBuffer data).messages peer.msgBuffer = data :=
    (Function.update_self _ _ _).trans hcstr
  rw [handleMessage, state_outcome, hmessage, hrecv]
  -- the message counts as accepted when its line is logged
  cases hname : io.peername with
  | true =>
      rw [SocketTcp.logMessage_ok hname]
      simp [acceptedMessage, after, hlookup, hread]
  | false =>
      rw [SocketTcp.logMessage_error hname]
      simp [acceptedMessage, after]

/-! ## Invariants -/

/-- What holds in every run, whatever becomes of the messages. -/
structure Connected (c : TcpConnection) : Prop where
  main : c.fd ≠ c.receiver.fd.fd
  peer : (c.receiver.peers.lookup c.fd).isSome
  nul : 0 ∉ c.stream
  sent : [] ∉ c.sent
  accepted : [] ∉ c.accepted
  within : c.accepted.flatten.length + c.stream.length ≤ c.sent.flatten.length

/-- The accepted messages are the first ones sent, and the bytes on their way are those of the
others. -/
def Intact (c : TcpConnection) : Prop := Framing.Intact c.sent c.accepted c.stream

/-- An established connection is connected. -/
theorem Established.connected (h : Established c) : Connected c := by
  refine ⟨h.main, h.peer, ?_, ?_, ?_, ?_⟩
  · simp [h.stream]
  · simp [h.sent]
  · simp [h.accepted]
  · simp [h.accepted, h.stream]

/-- An established connection has carried nothing yet. -/
theorem Established.intact (h : Established c) : c.Intact := by
  rw [Intact, h.sent, h.accepted, h.stream]
  exact Framing.intact_nil

/-- A send that failed hands nothing to the stream. -/
theorem state_send_failed (mtx : Mutex) (msg : ChatMessage) (h : answers c.out = none) : ∃ s,
    (c.send mtx answers msg).state = { c with sender := s } := by
  rw [send, h]
  exact ⟨_, state_outcome _ _⟩

/-- A send that succeeded hands over what the kernel took. -/
theorem state_send_took {n : ℕ} (mtx : Mutex) (msg : ChatMessage) (h : answers c.out = some n) :
    ∃ s, (c.send mtx answers msg).state =
      { c with
        sender := s, sent := c.sent ++ c.handed mtx answers msg
        stream := c.stream ++ ((c.handed mtx answers msg).map fun m => m.take n).flatten } := by
  rw [send, h]
  exact ⟨_, state_outcome _ _⟩

/-- What `recv` returns. -/
theorem Returns.wrote {call : RecvCall} (h : c.Returns call) :
    ∃ data rest, call = .wrote data ∧ data ≠ [] ∧ c.stream = data ++ rest := by
  cases call with
  | failed err => exact absurd h id
  | wrote data =>
      obtain ⟨hdata, ⟨rest, hrest⟩, -⟩ := h
      exact ⟨data, rest, rfl, hdata, hrest.symm⟩

/-- A message handled on a connection that stands. -/
theorem Connected.state_handleMessage {rest : List Byte} (mtx : Mutex) (h : Connected c)
    (hrecv : io.recv = .wrote data) (hdata : data ≠ []) (hstream : c.stream = data ++ rest) :
    ∃ s : SocketTcp, s.peers = c.receiver.peers ∧ s.fd = c.receiver.fd ∧
      (c.handleMessage mtx io).state = { c with receiver := s, stream := rest
                                                accepted := c.accepted ++
                                                  if io.peername then [data] else [] } := by
  obtain ⟨peer, hpeer⟩ := Option.isSome_iff_exists.mp h.peer
  have hnul : 0 ∉ data := fun hmem => h.nul (hstream ▸ List.mem_append_left _ hmem)
  have hstate := TcpConnection.state_handleMessage mtx h.main hpeer hrecv hdata hnul
  rw [hstream, List.drop_left] at hstate
  exact ⟨c.receiver.received peer.msgBuffer data, rfl, rfl, hstate⟩

/-- **Whatever is sent and however it is cut**, the connection stands. -/
theorem connected_step {e : ConnectionEvent} (h : Connected c) (hok : c.Possible e) :
    Connected (step mtx c e).state := by
  cases e with
  | send answers msg =>
      obtain ⟨hne, hnul, -, -⟩ := hok
      have hhanded : ∀ m ∈ c.handed mtx answers msg, m = msg := fun m => eq_of_mem_handed
      cases hout : answers c.out with
      | none =>
          obtain ⟨s, hs⟩ := state_send_failed mtx msg hout
          rw [step, hs]
          exact ⟨h.main, h.peer, h.nul, h.sent, h.accepted, h.within⟩
      | some n =>
          obtain ⟨s, hs⟩ := state_send_took mtx msg hout
          rw [step, hs]
          refine ⟨h.main, h.peer, fun hmem => ?_, fun hmem => ?_, h.accepted, ?_⟩
          · rcases List.mem_append.mp hmem with hmem | hmem
            · exact h.nul hmem
            · -- what was taken is cut from a message, which has no NUL
              obtain ⟨piece, hpiece, hzero⟩ := List.mem_flatten.mp hmem
              obtain ⟨m, hm, rfl⟩ := List.mem_map.mp hpiece
              rw [hhanded m hm] at hzero
              exact hnul (List.mem_of_mem_take hzero)
          · -- nor is a message empty
            rcases List.mem_append.mp hmem with hmem | hmem
            · exact h.sent hmem
            · exact hne (hhanded [] hmem).symm
          · -- what was taken is no longer than what was handed over
            have hwithin := h.within
            have htake : ((c.handed mtx answers msg).map fun m => m.take n).flatten.length ≤
                (c.handed mtx answers msg).flatten.length := Framing.length_flatten_take_le _ n
            simp only [List.length_append, List.flatten_append]
            omega
  -- one piece is taken off the front of the stream
  | handleMessage io =>
      obtain ⟨data, rest, hrecv, hdata, hstream⟩ := Returns.wrote hok
      obtain ⟨s, hpeers, hfd, hs⟩ := h.state_handleMessage mtx hrecv hdata hstream
      rw [step, hs]
      have hwithin := h.within
      refine ⟨?_, ?_, fun hmem => h.nul (hstream ▸ List.mem_append_right _ hmem), h.sent, ?_, ?_⟩
      · rw [hfd]
        exact h.main
      · rw [hpeers]
        exact h.peer
      · intro hmem
        rcases List.mem_append.mp hmem with hmem | hmem
        · exact h.accepted hmem
        · split at hmem
          · exact hdata (List.mem_singleton.mp hmem).symm
          · exact absurd hmem List.not_mem_nil
      · -- what is accepted is no longer than what was taken off the stream
        rw [hstream, List.length_append] at hwithin
        cases io.peername with
        | true =>
            simp only [if_true, List.flatten_append, List.flatten_singleton, List.length_append]
            omega
        | false =>
            simp only [Bool.false_eq_true, if_false, List.append_nil]
            omega

/-- What is handed to `::send` and taken whole. -/
theorem map_take_handed {n : ℕ} (h : c.handed mtx answers msg ≠ [] → n = msg.length) :
    ((c.handed mtx answers msg).map fun m => m.take n) = c.handed mtx answers msg := by
  have hmap : ∀ m ∈ c.handed mtx answers msg, m.take n = m := by
    intro m hm
    rw [eq_of_mem_handed hm, h (List.ne_nil_of_mem hm), List.take_length]
  rw [List.map_congr_left hmap, List.map_id']

/-- **A step that keeps to one message at a time** keeps the messages apart. -/
theorem intact_step {e : ConnectionEvent} (h : Connected c) (hintact : c.Intact)
    (hok : c.Possible e) (hone : OneForOne mtx c e) : (step mtx c e).state.Intact := by
  cases e with
  | send answers msg =>
      cases hout : answers c.out with
      | none =>
          obtain ⟨s, hs⟩ := state_send_failed mtx msg hout
          rw [step, hs]
          exact hintact
      | some n =>
          obtain ⟨s, hs⟩ := state_send_took mtx msg hout
          rw [step, hs, map_take_handed fun hne => hone hne n hout]
          exact hintact.write _
  | handleMessage io =>
      obtain ⟨data, rest, hrecv, hdata, hstream⟩ := Returns.wrote hok
      obtain ⟨s, -, -, hs⟩ := h.state_handleMessage mtx hrecv hdata hstream
      -- the read takes exactly the message due, and the log line is written
      obtain ⟨hlength, hname⟩ := hone
      rw [hrecv, RecvCall.toNat_result_wrote] at hlength
      rw [Intact, hstream] at hintact
      rw [step, hs, hname]
      exact (hintact.read_iff hdata).mpr hlength

/-- **A step that does not** merges, splits or loses something. -/
theorem not_intact_step {e : ConnectionEvent} (h : Connected c) (hintact : c.Intact)
    (hok : c.Possible e) (hone : ¬ OneForOne mtx c e) : ¬ (step mtx c e).state.Intact := by
  intro hafter
  cases e with
  | send answers msg =>
      rw [OneForOne, Classical.not_imp] at hone
      obtain ⟨hne, hshort⟩ := hone
      obtain ⟨n, hout, hn⟩ : ∃ n, n ∈ answers c.out ∧ n ≠ msg.length := by
        by_contra hnone
        exact hshort fun n hout => by_contra fun hn => hnone ⟨n, hout, hn⟩
      obtain ⟨s, hs⟩ := state_send_took mtx msg hout
      rw [step, hs] at hafter
      have hlt : ((c.handed mtx answers msg).map fun m => m.take n).flatten.length <
          (c.handed mtx answers msg).flatten.length := by
        refine Framing.length_flatten_take_lt hne fun m hm => ?_
        rw [eq_of_mem_handed hm]
        exact lt_of_le_of_ne (hok.2.2.2 n hout) hn
      have hbefore := Framing.Intact.length_eq hintact
      have hlength := Framing.Intact.length_eq hafter
      simp only [List.flatten_append, List.length_append] at hlength
      omega
  | handleMessage io =>
      obtain ⟨data, rest, hrecv, hdata, hstream⟩ := Returns.wrote hok
      obtain ⟨s, -, -, hs⟩ := h.state_handleMessage mtx hrecv hdata hstream
      rw [Intact, hstream] at hintact
      rw [step, hs] at hafter
      cases hname : io.peername with
      | true =>
          rw [hname] at hafter
          refine hone ⟨?_, hname⟩
          rw [hrecv, RecvCall.toNat_result_wrote]
          exact (hintact.read_iff hdata).mp hafter
      | false =>
          -- the bytes are gone, and nothing is accepted for them
          rw [hname] at hafter
          have hbefore := hintact.length_eq
          have hlength := Framing.Intact.length_eq hafter
          have hpos := List.length_pos_iff.mpr hdata
          simp only [Bool.false_eq_true, if_false, List.append_nil] at hlength
          rw [List.length_append] at hbefore
          omega

/-- What has gone wrong is not made good. -/
theorem not_intact_of_step {e : ConnectionEvent} (h : Connected c) (hintact : ¬ c.Intact)
    (hok : c.Possible e) : ¬ (step mtx c e).state.Intact := by
  intro hafter
  cases e with
  | send answers msg =>
      cases hout : answers c.out with
      | none =>
          obtain ⟨s, hs⟩ := state_send_failed mtx msg hout
          rw [step, hs] at hafter
          exact hintact hafter
      | some n =>
          obtain ⟨s, hs⟩ := state_send_took mtx msg hout
          rw [step, hs] at hafter
          exact hintact (Framing.Intact.of_write hafter h.within
            (Framing.length_flatten_take_le _ n) h.accepted)
  | handleMessage io =>
      obtain ⟨data, rest, hrecv, hdata, hstream⟩ := Returns.wrote hok
      obtain ⟨s, -, -, hs⟩ := h.state_handleMessage mtx hrecv hdata hstream
      rw [step, hs] at hafter
      cases hname : io.peername with
      | true =>
          rw [hname] at hafter
          -- messages in order after a read were in order before it
          refine hintact ?_
          rw [Intact, hstream]
          exact Framing.Intact.of_read hafter
      | false =>
          rw [hname] at hafter
          have hwithin := h.within
          have hlength := Framing.Intact.length_eq hafter
          have hpos := List.length_pos_iff.mpr hdata
          simp only [Bool.false_eq_true, if_false, List.append_nil] at hlength
          rw [hstream, List.length_append] at hwithin
          omega

/-! ## Runs -/

/-- With an empty stream all that was sent was accepted exactly when the connection is intact. -/
theorem Connected.eq_iff (h : Connected c) (hstream : c.stream = []) :
    c.accepted = c.sent ↔ c.Intact := by
  rw [Intact, hstream]
  constructor
  · intro heq
    exact ⟨[], by rw [heq, List.append_nil], rfl⟩
  · intro hintact
    exact hintact.eq_of_nil h.sent

/-- **The messages arrive exactly if each `recv` returns one.** Over a connection between any two
sockets, for all messages and every way the stream is cut: the messages accepted are the first ones
sent, and the bytes on their way are the others, exactly if each `::send` took its message whole and
each `recv` returned as much as the message that was due, with the address for the log line at hand.
And so it is, once everything has been received, for the two sequences being the same. -/
theorem acceptsSent_iff {es : List ConnectionEvent} (h : Established c)
    (hrun : Run (step mtx) Possible c es c') :
    (c'.Intact ↔ Run (step mtx) (fun c e => c.Possible e ∧ OneForOne mtx c e) c es c') ∧
      (c'.stream = [] → (c'.accepted = c'.sent ↔
        Run (step mtx) (fun c e => c.Possible e ∧ OneForOne mtx c e) c es c')) := by
  have hconnected : Connected c' := hrun.invariant_state h.connected fun _ _ => connected_step
  have hintact : c'.Intact ↔
      Run (step mtx) (fun c e => c.Possible e ∧ OneForOne mtx c e) c es c' := by
    refine hrun.state_iff (I := Connected) (J := Intact) h.connected h.intact
      (fun _ _ => connected_step) (fun c e hc hintact hok => ⟨fun hafter => ?_, ?_⟩)
      fun _ _ => not_intact_of_step
    · by_contra hone
      exact not_intact_step hc hintact hok hone hafter
    · exact intact_step hc hintact hok
  exact ⟨hintact, fun hstream => (hconnected.eq_iff hstream).trans hintact⟩

/-! ## A connection on its own -/

/-- A sender with no other peer. -/
theorem step_send_single {n : ℕ} (h : c.sender.peerFds = [c.out]) (hout : answers c.out = some n) :
    step mtx c (.send answers msg) = .returned
      { c with sender := c.sender.attempted msg [c.out], sent := c.sent ++ [msg]
               stream := c.stream ++ msg.take n } := by
  have hsend : SocketTcp.send mtx (fun fd => (answers fd).isSome) msg ⟨c.sender, false⟩ =
      .ok () ⟨c.sender.attempted msg [c.out], false⟩ := by
    refine withLock_ok ⟨c.sender.attempted msg [c.out], true⟩ rfl ?_
    -- one peer, whose send the kernel takes
    rw [bind_this, h]
    refine (SocketTcp.attempts_sendMessage _ msg).forM_ok (fun fd hfd => ?_) trivial
    rw [List.mem_singleton.mp hfd, hout]
    rfl
  have hhanded : c.handed mtx answers msg = [msg] := by
    simp [handed, hsend, after, SocketTcp.attempted, messagesOn]
  rw [step, send, hout]
  simp [hsend, hhanded, outcome, after]

/-- A piece that is handled without an exception. -/
theorem step_handleMessage {rest : List Byte} {peer : TcpPeer} (hmain : c.fd ≠ c.receiver.fd.fd)
    (hpeer : c.receiver.peers.lookup c.fd = some peer) (hrecv : io.recv = .wrote data)
    (hdata : data ≠ []) (hnul : 0 ∉ data) (hstream : c.stream = data ++ rest)
    (hname : io.peername = true) : step mtx c (.handleMessage io) = .returned
      { c with receiver := c.receiver.received peer.msgBuffer data, stream := rest
               accepted := c.accepted ++ [data] } := by
  have hstate := state_handleMessage mtx hmain hpeer hrecv hdata hnul
  rw [hstream, List.drop_left, hname, if_pos rfl] at hstate
  have hmessage : SocketTcp.handleMessage mtx c.fd io ⟨c.receiver, false⟩ = _ :=
    SocketTcp.handleMessage_received hmain hpeer hrecv
  rw [cStr_eq_self hnul, if_neg hdata, SocketTcp.logMessage_ok hname] at hmessage
  rw [handleMessage, state_outcome] at hstate
  rw [step, handleMessage, hstate, hmessage]
  rfl

/-- A connection between two sockets that have only each other. -/
def sampleConnection : TcpConnection :=
  { sender := acceptedSocket, out := 4, receiver := acceptedSocket, fd := 4 }

/-- A piece that `recv` returns. -/
def piece (data : List Byte) : ConnectionEvent := .handleMessage ⟨.failed, 0, .wrote data, true⟩

/-- A message that `::send` takes. -/
def taken (msg : ChatMessage) : ConnectionEvent := .send (fun _ => some msg.length) msg

/-- The example's connection is established. -/
theorem established_sampleConnection : Established sampleConnection :=
  ⟨by decide, by decide, rfl, rfl, rfl⟩

/-- The example's sender has one peer. -/
theorem peerFds_sample : acceptedSocket.peerFds = [4] := by
  have hentries : acceptedSocket.peers.entries = [⟨4, sampleEntry⟩] := rfl
  rw [SocketTcp.peerFds, hentries, List.mergeSort_singleton]
  rfl

/-- A connection on which the sample ends stand. -/
structure Sample (c : TcpConnection) : Prop where
  peerFds : c.sender.peerFds = [c.out]
  main : c.fd ≠ c.receiver.fd.fd
  peer : c.receiver.peers.lookup c.fd = some sampleEntry

/-- The connection is as the examples need it. -/
theorem sample_sampleConnection : Sample sampleConnection :=
  ⟨peerFds_sample, by decide, lookup_acceptedSocket⟩

/-- A message is sent. -/
theorem Sample.taken (mtx : Mutex) (h : Sample c) (msg : ChatMessage) : ∃ s : SocketTcp,
    Sample { c with sender := s, sent := c.sent ++ [msg], stream := c.stream ++ msg } ∧
      step mtx c (taken msg) = .returned
        { c with sender := s, sent := c.sent ++ [msg], stream := c.stream ++ msg } := by
  refine ⟨c.sender.attempted msg [c.out], ⟨h.peerFds, h.main, h.peer⟩, ?_⟩
  have hstep : step mtx c (.send (fun _ => some msg.length) msg) = _ :=
    step_send_single h.peerFds rfl
  rwa [List.take_length] at hstep

/-- A piece is received. -/
theorem Sample.piece {rest : List Byte} (mtx : Mutex) (h : Sample c) (hdata : data ≠ [])
    (hnul : 0 ∉ data) (hstream : c.stream = data ++ rest) : ∃ s : SocketTcp,
    Sample { c with receiver := s, stream := rest, accepted := c.accepted ++ [data] } ∧
      step mtx c (piece data) = .returned
        { c with receiver := s, stream := rest, accepted := c.accepted ++ [data] } :=
  ⟨c.receiver.received sampleEntry.msgBuffer data, ⟨h.peerFds, h.main, h.peer⟩,
    step_handleMessage h.main h.peer rfl hdata hnul hstream rfl⟩

/-- A plain message may be sent and taken whole. -/
theorem possible_taken (hne : msg ≠ []) (hnul : 0 ∉ msg) (hlt : msg.length < msgBufferSize) :
    c.Possible (taken msg) := by
  refine ⟨hne, hnul, hlt, fun n hn => ?_⟩
  obtain rfl := Option.some.inj hn
  exact le_rfl

/-- Any piece in front of the stream may be received. -/
theorem possible_piece {rest : List Byte} (hdata : data ≠ []) (hstream : c.stream = data ++ rest)
    (hle : data.length ≤ msgBufferSize) : c.Possible (piece data) :=
  ⟨hdata, ⟨rest, hstream.symm⟩, hle⟩

/-- Two messages, each received by one `recv` before the next is sent. -/
theorem acceptsSent_sample : ∃ c', Run (step .plain) Possible sampleConnection
    [taken (ascii "hi"), piece (ascii "hi"), taken (ascii "yo"), piece (ascii "yo")] c' ∧
      c'.accepted = [ascii "hi", ascii "yo"] ∧ c'.accepted = c'.sent := by
  have hhi : ascii "hi" ≠ [] ∧ 0 ∉ ascii "hi" ∧ (ascii "hi").length < msgBufferSize := by decide
  have hyo : ascii "yo" ≠ [] ∧ 0 ∉ ascii "yo" ∧ (ascii "yo").length < msgBufferSize := by decide
  have hfirst : sampleConnection.stream ++ ascii "hi" = ascii "hi" ++ [] := rfl
  have hsecond : [] ++ ascii "yo" = ascii "yo" ++ [] := rfl
  obtain ⟨s₁, hs₁, hstep₁⟩ := sample_sampleConnection.taken .plain (ascii "hi")
  obtain ⟨s₂, hs₂, hstep₂⟩ := hs₁.piece .plain hhi.1 hhi.2.1 hfirst
  obtain ⟨s₃, hs₃, hstep₃⟩ := hs₂.taken .plain (ascii "yo")
  obtain ⟨s₄, -, hstep₄⟩ := hs₃.piece .plain hyo.1 hyo.2.1 hsecond
  -- each message is taken whole, and what `recv` returns is the message that is due
  have hone : ∀ (c : TcpConnection) msg, OneForOne .plain c (taken msg) := fun _ _ _ n hn =>
    (Option.some.inj hn).symm
  have hrun : Run (step .plain) (fun c e => c.Possible e ∧ OneForOne .plain c e) sampleConnection
      [taken (ascii "hi"), piece (ascii "hi"), taken (ascii "yo"), piece (ascii "yo")] _ :=
    .cons ⟨possible_taken hhi.1 hhi.2.1 hhi.2.2, hone _ _⟩ hstep₁
      (.cons ⟨possible_piece hhi.1 hfirst hhi.2.2.le, rfl, rfl⟩ hstep₂
      (.cons ⟨possible_taken hyo.1 hyo.2.1 hyo.2.2, hone _ _⟩ hstep₃
      (.cons ⟨possible_piece hyo.1 hsecond hyo.2.2.le, rfl, rfl⟩ hstep₄ (.nil _))))
  have hposs := hrun.imp fun _ _ hok => hok.1
  exact ⟨_, hposs, rfl, ((acceptsSent_iff established_sampleConnection hposs).2 rfl).mpr hrun⟩

/-- **Two messages in one `recv`** are accepted as one, though `::send` took both whole and nothing
fails. -/
theorem not_acceptsSent : ¬ ∀ (c c' : TcpConnection) (es : List ConnectionEvent), Established c →
    (∀ e ∈ es, (∃ msg, e = taken msg) ∨ ∃ data, e = piece data) →
    Run (step .plain) Possible c es c' → c'.stream = [] → c'.accepted = c'.sent := by
  intro h
  have hhi : ascii "hi" ≠ [] ∧ 0 ∉ ascii "hi" ∧ (ascii "hi").length < msgBufferSize := by decide
  have hyo : ascii "yo" ≠ [] ∧ 0 ∉ ascii "yo" ∧ (ascii "yo").length < msgBufferSize := by decide
  have hboth : ascii "hiyo" ≠ [] ∧ 0 ∉ ascii "hiyo" ∧ (ascii "hiyo").length < msgBufferSize := by
    decide
  -- both messages are in the stream before the first receive
  have hstream : sampleConnection.stream ++ ascii "hi" ++ ascii "yo" = ascii "hiyo" ++ [] := rfl
  obtain ⟨s₁, hs₁, hstep₁⟩ := sample_sampleConnection.taken .plain (ascii "hi")
  obtain ⟨s₂, hs₂, hstep₂⟩ := hs₁.taken .plain (ascii "yo")
  obtain ⟨s₃, -, hstep₃⟩ := hs₂.piece .plain hboth.1 hboth.2.1 hstream
  have heq := h sampleConnection _ [taken (ascii "hi"), taken (ascii "yo"), piece (ascii "hiyo")]
    established_sampleConnection (by simp)
    (.cons (possible_taken hhi.1 hhi.2.1 hhi.2.2) hstep₁
      (.cons (possible_taken hyo.1 hyo.2.1 hyo.2.2) hstep₂
        (.cons (possible_piece hboth.1 hstream hboth.2.2.le) hstep₃ (.nil _)))) rfl
  have hlength : [ascii "hiyo"] = [ascii "hi", ascii "yo"] := heq
  exact absurd hlength (by decide)

end TcpConnection

end SctpSandbox
