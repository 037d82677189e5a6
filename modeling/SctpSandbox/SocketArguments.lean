import SctpSandbox.FileDescriptor
import SctpSandbox.Udp.ReplyAddress

/-! # The arguments of `socket`

`Socket::Socket` creates its socket for the family that `chooseSocketFamily` finds in the whole list
of local endpoints, and `Socket::bind` binds it to the first of them. The two go together exactly
for the lists whose first endpoint decides (`FrontDecides`). -/

namespace SctpSandbox

/-- `AF_UNSPEC`. -/
def afUnspec : Family := 0

/-- `SOCK_STREAM`. -/
def sockStream : ℤ := 1

/-- `SOCK_DGRAM`. -/
def sockDgram : ℤ := 2

/-- `SOCK_DCCP`. -/
def sockDccp : ℤ := 6

/-- `default_protocol`. -/
def defaultProtocol : ℤ := 0

/-- The endpoints of `LocalIPSockets`, of which the constructors expect one at least. -/
abbrev LocalIPSockets := { locals : List IPSocket // locals ≠ [] }

/-- `locals.front()`. -/
def LocalIPSockets.front (locals : LocalIPSockets) : IPSocket := locals.1.head locals.2

/-- `chooseSocketFamily`. -/
def chooseSocketFamily (locals : List IPSocket) : Family :=
  if locals.any fun ip => ip.isIPv6 then afInet6 else afInet

/-- The arguments of a call of `socket`. -/
structure SocketArgs where
  family : Family
  type : ℤ
  protocol : ℤ
  deriving DecidableEq

/-- The call of `socket` in `Socket::Socket`. -/
def SocketArgs.constructed (locals : List IPSocket) (type protocol : ℤ) (fam : Family) :
    SocketArgs where
  family := if fam = afUnspec then chooseSocketFamily locals else fam
  type := type
  protocol := protocol

/-- The constructor chooses the family from the locals. -/
theorem SocketArgs.family_constructed (locals : List IPSocket) (type protocol : ℤ) :
    (constructed locals type protocol afUnspec).family = chooseSocketFamily locals := by
  show (if afUnspec = afUnspec then chooseSocketFamily locals else afUnspec) = _
  exact if_pos rfl

/-- A socket that was opened, and the endpoint that `Socket::bind` binds it to. -/
structure OpenedSocket where
  fd : FD
  args : SocketArgs
  bound : IPSocket

/-- The socket that the constructor of `SocketUdp` opens and binds. -/
def SocketUdp.mainSocket (locals : LocalIPSockets) (protocol : ℤ) (n : FD) : OpenedSocket where
  fd := n
  args := .constructed locals.1 sockDgram protocol afUnspec
  bound := locals.front

/-- The address given to `bind` is one of the family that the socket was created for. -/
def OpenedSocket.FamilyMatches (I : Inet) (o : OpenedSocket) : Prop :=
  ∀ junk, ∃ saddr, o.bound.toStorage I junk = .ok saddr ∧ saddr.family = o.args.family

/-- An IPv4 or IPv6 endpoint, of the family that its text is of. -/
def IPSocket.IsIP (I : Inet) (ip : IPSocket) : Prop :=
  ip.family = IPSocket.detectFamily I ip.addr ∧ ip.family ≠ afUnix

instance (I : Inet) : DecidablePred (IPSocket.IsIP I) :=
  fun _ => inferInstanceAs (Decidable (_ ∧ _))

/-- The first endpoint is an IPv6 one, or none is. -/
def LocalIPSockets.FrontDecides (locals : LocalIPSockets) : Prop :=
  locals.front.isIPv6 ∨ ∀ ip ∈ locals.1, ¬ ip.isIPv6

variable {I : Inet} {ip : IPSocket} {locals : LocalIPSockets} {o : OpenedSocket}

namespace IPSocket

/-- An IP address converts. -/
theorem IsIP.validAddress (h : ip.IsIP I) : ip.ValidAddress I := by
  obtain ⟨hfamily, hunix⟩ := h
  rw [detectFamily, isFamily, isFamily, if_pos rfl, if_neg EndpointSource.afInet6_ne_afInet,
    if_pos rfl] at hfamily
  -- the detected family goes with the text that parsed
  by_cases h4 : (I.pton4 (cStr ip.addr)).isSome = true
  · rw [if_pos h4] at hfamily
    exact .inl ⟨hfamily, h4⟩
  · rw [if_neg h4] at hfamily
    by_cases h6 : (I.pton6 (cStr ip.addr)).isSome = true
    · rw [if_pos h6] at hfamily
      exact .inr ⟨hfamily, h6⟩
    · rw [if_neg h6] at hfamily
      exact absurd hfamily hunix

/-- The endpoint built from the stored text is of the same family. -/
theorem IsIP.ofText (h : ip.IsIP I) (port : Port) :
    (IPSocket.ofText I ip.addr port).IsIP I ∧ (IPSocket.ofText I ip.addr port).family = ip.family :=
  ⟨⟨rfl, fun hunix => h.2 (h.1.trans hunix)⟩, h.1.symm⟩

/-- The family of an IP address is told by its form. -/
theorem IsIP.family_eq (h : ip.IsIP I) : ip.family = if ip.isIPv6 then afInet6 else afInet := by
  rcases h.validAddress with ⟨h4, -⟩ | ⟨h6, -⟩
  · rw [if_neg (not_isIPv6 h4), h4]
  · rw [if_pos (show ip.isIPv6 from h6), h6]

/-- What the conversion writes has the family of the endpoint. -/
theorem ValidAddress.toStorage_family (h : ip.ValidAddress I) (junk : SockaddrStorage) :
    ∃ saddr, ip.toStorage I junk = .ok saddr ∧ saddr.family = ip.family := by
  rcases h with ⟨h4, ha⟩ | ⟨h6, ha⟩
  · obtain ⟨a, ha⟩ := Option.isSome_iff_exists.mp ha
    exact ⟨_, toStorage_in h4 ha junk, family_withHeader ..⟩
  · obtain ⟨a, ha⟩ := Option.isSome_iff_exists.mp ha
    exact ⟨_, toStorage_in6 h6 ha junk, family_withHeader ..⟩

end IPSocket

/-- A bound socket matches when its family is that of what it is bound to. -/
theorem OpenedSocket.familyMatches_bound_iff (h : o.bound.IsIP I) :
    o.FamilyMatches I ↔ o.args.family = o.bound.family := by
  constructor
  · intro hmatches
    obtain ⟨saddr, hto, hfamily⟩ := hmatches fun _ => 0
    obtain ⟨saddr', hto', hfamily'⟩ := h.validAddress.toStorage_family fun _ => 0
    obtain rfl := Except.ok.inj (hto.symm.trans hto')
    exact hfamily.symm.trans hfamily'
  · intro hfamily junk
    obtain ⟨saddr, hto, hsame⟩ := h.validAddress.toStorage_family junk
    exact ⟨saddr, hto, hsame.trans hfamily.symm⟩

/-- **The family chosen is the first endpoint's exactly if that decides.** -/
theorem chooseSocketFamily_eq_front_iff (h : ∀ ip ∈ locals.1, ip.IsIP I) :
    chooseSocketFamily locals.1 = locals.front.family ↔ locals.FrontDecides := by
  have hfront : locals.front ∈ locals.1 := List.head_mem locals.2
  have hne : afInet6 ≠ afInet := EndpointSource.afInet6_ne_afInet
  rw [(h _ hfront).family_eq, chooseSocketFamily, LocalIPSockets.FrontDecides]
  by_cases hany : ∃ ip ∈ locals.1, ip.isIPv6
  · have hsome : (locals.1.any fun ip => ip.isIPv6) = true := by simpa using hany
    rw [if_pos hsome]
    by_cases h6 : locals.front.isIPv6
    · rw [if_pos h6]
      exact iff_of_true rfl (.inl h6)
    · obtain ⟨ip, hip, hip6⟩ := hany
      rw [if_neg h6]
      -- an IPv6 endpoint behind an IPv4 one
      refine iff_of_false hne ?_
      rintro (h6' | hnone)
      · exact h6 h6'
      · exact hnone ip hip hip6
  · have hnone : ¬ (locals.1.any fun ip => ip.isIPv6) = true := by simpa using hany
    have hnone6 : ∀ ip ∈ locals.1, ¬ ip.isIPv6 := fun ip hip h6 => hany ⟨ip, hip, h6⟩
    rw [if_neg hnone, if_neg (hnone6 _ hfront)]
    exact iff_of_true rfl (.inr hnone6)

/-- A socket created for the family chosen from the list and bound to an endpoint of the family of
the first. -/
theorem OpenedSocket.familyMatches_iff_frontDecides (h : ∀ ip ∈ locals.1, ip.IsIP I)
    (hargs : o.args.family = chooseSocketFamily locals.1) (hbound : o.bound.IsIP I)
    (hfamily : o.bound.family = locals.front.family) :
    o.FamilyMatches I ↔ locals.FrontDecides := by
  rw [o.familyMatches_bound_iff hbound, hargs, hfamily, chooseSocketFamily_eq_front_iff h]

end SctpSandbox
