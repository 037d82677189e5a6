import SctpSandbox.Sctp.Sockaddrs
import SctpSandbox.Unix.Peers

/-! # Destructors that send

`~SocketUdp`, `~SocketUnix` and `~SocketDccp` send the quit message to every peer. A destructor is
`noexcept`: an exception that leaves it ends the program, on the way out of a task that failed as
well as at its regular end. Only `SocketDccp::send` catches what its peers throw. -/

namespace SctpSandbox

open Call

namespace IPSocket

/-- A conversion that returns has passed its check. -/
theorem isSome_of_checkInetpton {α β : Type} {a : Option α} {f : α → β} {b : β}
    (h : (checkInetpton a).map f = .ok b) : a.isSome = true := by
  cases a with
  | none => exact absurd h (by simp [checkInetpton, Except.map])
  | some a => rfl

/-- The texts that a conversion to `sockaddr_storage` does not throw for. -/
theorem toStorage_ok_iff {I : Inet} {s : IPSocket} (junk : SockaddrStorage) :
    (∃ storage, s.toStorage I junk = .ok storage) ↔ s.ValidAddress I := by
  constructor
  · rintro ⟨storage, hstorage⟩
    obtain ⟨bytes, hbytes⟩ : ∃ bytes,
        (if s.isIPv6 then s.toSockaddrIn6 I else s.toSockaddrIn I) = .ok bytes := by
      rw [toStorage] at hstorage
      cases hbytes : if s.isIPv6 then s.toSockaddrIn6 I else s.toSockaddrIn I with
      | ok bytes => exact ⟨bytes, rfl⟩
      | error e =>
          rw [hbytes] at hstorage
          exact absurd hstorage (by simp [Except.map])
    by_cases h6 : s.family = afInet6
    · rw [if_pos (show s.isIPv6 from h6), toSockaddrIn6, if_pos h6] at hbytes
      exact .inr ⟨h6, isSome_of_checkInetpton hbytes⟩
    · rw [if_neg (show ¬ s.isIPv6 from h6), toSockaddrIn] at hbytes
      have hsome := isSome_of_checkInetpton hbytes
      by_cases h4 : s.family = afInet
      · rw [if_pos h4] at hsome
        exact .inl ⟨h4, hsome⟩
      · rw [if_neg h4] at hsome
        -- any other family takes no text
        exact absurd hsome (by simp)
  · intro hvalid
    obtain ⟨bytes, -, hto, -⟩ := toStorage_readsBack hvalid fun _ => 0
    obtain ⟨storage, hstorage, -⟩ := hto junk
    exact ⟨storage, hstorage⟩

end IPSocket

namespace SocketUdp

variable {T : TaskScheduler UdpTask} (I : Inet) (net : ℕ → Bool) {s : SocketUdp T}

/-- `send(msg, remote)` with the conversion of the remote, which throws before `sendto` is called.
What it copies from behind the address does not matter. -/
def sendConverted (msg : ChatMessage) (remote : IPSocket) (s : SocketUdp T) :
    Outcome (SocketUdp T) :=
  match remote.toStorage I fun _ => 0 with
  | .ok _ => send net msg remote s
  | .error _ => .threw (s.record (.sent msg remote))

/-- `~SocketUdp()`, with the peers in the order of the map. -/
def destructor (order : List IPSocket) (s : SocketUdp T) : Outcome (SocketUdp T) :=
  Outcome.forEach (sendConverted I net quitMsg) (order.filter fun remote => remote ∈ s.peers) s

/-- The destructor returns, and has tried to tell every peer. -/
def Closes (s : SocketUdp T) : Prop :=
  ∀ order, order.Perm s.peers.keys → Isolates quitMsg (destructor I net order) s

variable {I net} {remote : IPSocket} {order : List IPSocket} {msg : ChatMessage}

/-- To a remote that converts the datagram is sent. -/
theorem sendConverted_valid (h : remote.ValidAddress I) (s : SocketUdp T) :
    sendConverted I net msg remote s = send net msg remote s := by
  obtain ⟨storage, hstorage⟩ := (IPSocket.toStorage_ok_iff fun _ => 0).mpr h
  rw [sendConverted, hstorage]

/-- To a remote that does not convert the send ends in an exception. -/
theorem sendConverted_invalid (h : ¬ remote.ValidAddress I) (s : SocketUdp T) :
    ∃ s', sendConverted I net msg remote s = .threw s' := by
  rw [sendConverted]
  cases hto : remote.toStorage I fun _ => 0 with
  | ok storage => exact absurd ((IPSocket.toStorage_ok_iff _).mp ⟨storage, hto⟩) h
  | error e => exact ⟨_, rfl⟩

/-- The destructor's order meets exactly the peers. -/
theorem mem_filter_order (horder : order.Perm s.peers.keys) :
    remote ∈ order.filter (fun remote => remote ∈ s.peers) ↔ remote ∈ s.peers := by
  rw [List.mem_filter, horder.mem_iff, decide_eq_true_iff]
  exact and_iff_right_of_imp AList.mem_keys.mp

/-- Where every remote is an address, no conversion throws. -/
theorem destructor_eq_sendAll (horder : order.Perm s.peers.keys)
    (hvalid : ∀ remote ∈ s.peers, remote.ValidAddress I) :
    destructor I net order s = sendAll net order quitMsg s := by
  apply Outcome.forEach_congr
  intro remote hremote
  exact sendConverted_valid (hvalid remote ((mem_filter_order horder).mp hremote))

/-- A remote that is no address throws, if none before it does. -/
theorem destructor_threw (horder : order.Perm s.peers.keys) (hremote : remote ∈ s.peers)
    (hinvalid : ¬ remote.ValidAddress I) : ∃ s', destructor I net order s = .threw s' := by
  apply Outcome.forEach_threw ((mem_filter_order horder).mpr hremote)
  intro t
  exact sendConverted_invalid hinvalid t

/-- **`~SocketUdp` returns exactly when every remote is an address and no `sendto` fails.** -/
theorem closes_udp_iff : Closes I net s ↔
    (∀ remote ∈ s.peers, remote.ValidAddress I) ∧
      ∀ i < s.peers.keys.length, net (s.sends + i) = true := by
  constructor
  · intro hcloses
    -- one order of the peers will do
    have hiso := hcloses _ (List.Perm.refl _)
    have hthrows : ∀ remote ∈ s.peers, ¬ remote.ValidAddress I →
        ∃ s', destructor I net s.peers.keys s = .threw s' := fun remote =>
      destructor_threw (List.Perm.refl _)
    have hvalid : ∀ remote ∈ s.peers, remote.ValidAddress I := by
      intro remote hremote
      by_contra hinvalid
      obtain ⟨s', hthrew⟩ := hthrows remote hremote hinvalid
      obtain ⟨remotes, -, hreturned⟩ := hiso
      exact absurd (hthrew.symm.trans hreturned) (by simp)
    rw [Isolates, destructor_eq_sendAll (List.Perm.refl _) hvalid] at hiso
    exact ⟨hvalid, (isolates_sendAll_iff (List.Perm.refl _)).mp hiso⟩
  · rintro ⟨hvalid, hnet⟩ order horder
    rw [Isolates, destructor_eq_sendAll horder hvalid]
    exact (isolates_sendAll_iff horder).mpr hnet

end SocketUdp

namespace SocketUnix

/-- `~SocketUnix()`. -/
def destructor (order : List Path) (ok : List Byte → Bool) : UnixCall Unit :=
  SocketUnix.send order ok quitMsg

/-- The destructor returns, and has tried to tell every peer. -/
def Closes (ok : List Byte → Bool) (s : SocketUnix) : Prop :=
  ∀ order, Traverses order s →
    Isolates (attempted quitMsg) order (destructor order ok) ⟨s, false⟩

/-- There is an order in which the set can be traversed. -/
theorem exists_traverses (s : SocketUnix) : ∃ order, Traverses order s :=
  ⟨s.peers.toList, s.peers.nodup_toList, fun _ => Finset.mem_toList⟩

/-- Closing the Unix socket is clean exactly when every peer is reached. -/
theorem closes_unix_iff {ok : List Byte → Bool} {s : SocketUnix} :
    Closes ok s ↔ ∀ path ∈ s.peers, reaches ok path = true := by
  constructor
  · intro hcloses
    obtain ⟨order, horder⟩ := exists_traverses s
    exact (isolates_send_iff horder).mp (hcloses order horder)
  · intro hreaches order horder
    exact (isolates_send_iff horder).mpr hreaches

end SocketUnix

namespace SocketDccp

/-- `~SocketDccp()`. -/
def destructor (mtx : Mutex) (ok : FD → Bool) : TcpCall Unit := SocketDccp.send mtx ok quitMsg

/-- The destructor returns, and has tried to tell every peer. -/
def Closes (mtx : Mutex) (ok : FD → Bool) (s : SocketTcp) : Prop :=
  Isolates (SocketTcp.attempted quitMsg) s.entryFds (destructor mtx ok) ⟨s, false⟩

end SocketDccp

/-- **When closing a socket does not throw**, whatever state it is in: always for a `SocketDccp`,
for a `SocketUdp` when every remote is an address and no `sendto` fails, and for a `SocketUnix` when
every path fits and no `sendto` fails. -/
theorem closes_iff {T : TaskScheduler UdpTask} (I : Inet) (net : ℕ → Bool) (udp : SocketUdp T)
    (okAddr : List Byte → Bool) (unix : SocketUnix) (mtx : Mutex) (ok : FD → Bool)
    (dccp : SocketTcp) :
    (udp.Closes I net ↔ (∀ remote ∈ udp.peers, remote.ValidAddress I) ∧
      ∀ i < udp.peers.keys.length, net (udp.sends + i) = true) ∧
    (unix.Closes okAddr ↔ ∀ path ∈ unix.peers, SocketUnix.reaches okAddr path = true) ∧
    SocketDccp.Closes mtx ok dccp :=
  ⟨SocketUdp.closes_udp_iff, SocketUnix.closes_unix_iff,
    SocketDccp.isolates_send mtx ok quitMsg dccp⟩

/-- A `send` fails because the peer cannot be reached, and on the way out the destructor fails for
the same reason. -/
theorem not_closes :
    (∃ s : SocketUdp (.table UdpTask),
      Run (SocketUdp.step fun _ => false) SocketUdp.Possible {}
        [.connect [SocketUdp.sampleRemote], .send [SocketUdp.sampleRemote] (ascii "hello")] s ∧
      ¬ s.Closes Inet.reference fun _ => false) ∧
    ∃ s : SocketUnix, Run SocketUnix.step SocketUnix.Possible {}
        [.receive (.wrote (ascii "hello")) (.abstractName (ascii "0001a") (by decide)),
          .send [ascii "0001a"] (fun _ => false) (ascii "hello")] s ∧
      ¬ s.Closes fun _ => false := by
  constructor
  · refine ⟨_, .cons trivial rfl (.threw (List.Perm.refl _) rfl), fun hcloses => ?_⟩
    have hnet := (SocketUdp.closes_udp_iff.mp hcloses).2 0 (by decide)
    exact Bool.false_ne_true hnet
  · refine ⟨_, .cons trivial rfl (.threw ⟨List.nodup_singleton _, fun path => ?_⟩ rfl),
      fun hcloses => ?_⟩
    · exact (List.mem_singleton.trans Finset.mem_singleton.symm)
    · have hreaches := SocketUnix.closes_unix_iff.mp hcloses (ascii "0001a")
        (Finset.mem_singleton_self _)
      exact absurd hreaches (by decide)

end SctpSandbox
