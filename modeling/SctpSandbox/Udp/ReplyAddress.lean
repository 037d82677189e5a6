import SctpSandbox.Sctp.Sockaddrs

/-! # Replies to the sender of a datagram

`SocketUdp` keeps the sender of a datagram as an `IPSocket`, and converts it back to answer. The
text of an address has no room for the scope of a link-local IPv6 address, and the conversion back
writes 0 for it. -/

namespace SctpSandbox

namespace SockaddrStorage

/-- `sin6_scope_id`, byte by byte. -/
def sin6ScopeId (s : SockaddrStorage) : Fin 4 → Byte := fun i => s ⟨24 + i, by omega⟩

/-- The same family, port, address bytes and scope. -/
structure SameSender (s s' : SockaddrStorage) : Prop where
  family : s'.family = s.family
  port : s'.port = s.port
  sinAddr : s.family = afInet → s'.sinAddr = s.sinAddr
  sin6Addr : s.family = afInet6 → s'.sin6Addr = s.sin6Addr
  scopeId : s.family = afInet6 → s'.sin6ScopeId = s.sin6ScopeId

end SockaddrStorage

open SockaddrStorage

namespace IPSocket

/-- The sender of a datagram is converted to an `IPSocket` and back to itself, whatever lies behind
the structure that is copied. -/
def RepliesTo (I : Inet) (sender : SockaddrStorage) : Prop :=
  ∀ junk, ∃ t s', ofStorage I sender = some t ∧ t.toStorage I junk = .ok s' ∧ SameSender sender s'

variable {I : Inet} {s : IPSocket} {sender junk : SockaddrStorage}

/-! ## What the conversion back writes -/

/-- The header and what is behind it, as a storage. -/
def withHeader (s : IPSocket) (tail : List Byte) (junk : SockaddrStorage) : SockaddrStorage :=
  fun i => (s.headerBytes ++ tail).getD i (junk i)

/-- The family written is read back. -/
theorem family_withHeader (s : IPSocket) (tail : List Byte) (junk : SockaddrStorage) :
    (s.withHeader tail junk).family = s.family := (ofNat_bytes s.family).1

/-- The port written is read back. -/
theorem port_withHeader (s : IPSocket) (tail : List Byte) (junk : SockaddrStorage) :
    (s.withHeader tail junk).port = s.port := (ofNat_bytes s.port).2

/-- The address bytes and the scope of a `sockaddr_in6`. -/
theorem in6_withHeader (s : IPSocket) (a : Fin 16 → Byte) (junk : SockaddrStorage) :
    (s.withHeader (List.replicate 4 0 ++ (List.ofFn a ++ List.replicate 4 0)) junk).sin6Addr = a ∧
      (s.withHeader (List.replicate 4 0 ++ (List.ofFn a ++ List.replicate 4 0)) junk).sin6ScopeId =
        fun _ => 0 := by
  constructor
  · funext i
    fin_cases i <;> rfl
  · funext i
    fin_cases i <;> rfl

/-- The address bytes of a `sockaddr_in`. -/
theorem in_withHeader (s : IPSocket) (a : Fin 4 → Byte) (junk : SockaddrStorage) :
    (s.withHeader (List.ofFn a ++ List.replicate 8 0) junk).sinAddr = a := by
  funext i
  fin_cases i <;> rfl

/-- A long address is written with no flow and no scope. -/
theorem toStorage_in6 {a : Fin 16 → Byte} (h : s.family = afInet6)
    (ha : I.pton6 (cStr s.addr) = some a) (junk : SockaddrStorage) : s.toStorage I junk =
      .ok (s.withHeader (List.replicate 4 0 ++ (List.ofFn a ++ List.replicate 4 0)) junk) := by
  rw [toStorage, if_pos (show s.isIPv6 from h), toSockaddrIn6, if_pos h, ha]
  rfl

/-- A short address is written with zeros behind. -/
theorem toStorage_in {a : Fin 4 → Byte} (h : s.family = afInet)
    (ha : I.pton4 (cStr s.addr) = some a) (junk : SockaddrStorage) : s.toStorage I junk =
      .ok (s.withHeader (List.ofFn a ++ List.replicate 8 0) junk) := by
  rw [toStorage, if_neg (not_isIPv6 h), toSockaddrIn, if_pos h, ha]
  rfl

/-! ## There and back -/

/-- **Replies go back to the sender exactly when it has no scope**: always over IPv4, and over IPv6
when the scope is 0. -/
theorem repliesTo_iff (h : sender.family = afInet ∨ sender.family = afInet6) :
    RepliesTo I sender ↔ (sender.family = afInet6 → sender.sin6ScopeId = fun _ => 0) := by
  have hof : ofStorage I sender =
      some ⟨EndpointSource.paddedText I sender, sender.port, sender.family⟩ :=
    EndpointSource.ofStorage_eq h
  rcases h with h4 | h6
  · have h46 : ¬ sender.family = afInet6 := fun h6 =>
      EndpointSource.afInet6_ne_afInet (h6.symm.trans h4)
    refine iff_of_true (fun junk => ?_) fun h6 => absurd h6 h46
    have hpton : I.pton4 (cStr (EndpointSource.paddedText I sender)) = some sender.sinAddr := by
      rw [EndpointSource.paddedText, if_neg h46,
        EndpointSource.cStr_padded (I.zero_notMem_ntop4 _) (I.length_ntop4 _), I.pton4_ntop4]
    refine ⟨_, _, hof, toStorage_in h4 hpton junk, family_withHeader .., port_withHeader ..,
      fun _ => in_withHeader .., fun h6 => absurd h6 h46, fun h6 => absurd h6 h46⟩
  · have hpton : I.pton6 (cStr (EndpointSource.paddedText I sender)) = some sender.sin6Addr := by
      rw [EndpointSource.paddedText, if_pos h6,
        EndpointSource.cStr_padded (I.zero_notMem_ntop6 _) (I.length_ntop6 _), I.pton6_ntop6]
    have hto := fun junk => toStorage_in6 (I := I)
      (s := ⟨EndpointSource.paddedText I sender, sender.port, sender.family⟩) h6 hpton junk
    constructor
    · intro hreplies _
      -- the reply has scope 0
      obtain ⟨t, s', ht, hs', hsame⟩ := hreplies sender
      rw [hof] at ht
      obtain rfl := Option.some.inj ht
      rw [hto] at hs'
      obtain rfl := Except.ok.inj hs'
      rw [← hsame.scopeId h6, (in6_withHeader ..).2]
    · intro hscope junk
      refine ⟨_, _, hof, hto junk, family_withHeader .., port_withHeader .., fun h4 => ?_,
        fun _ => (in6_withHeader ..).1, fun _ => ?_⟩
      · exact absurd (h6.symm.trans h4) EndpointSource.afInet6_ne_afInet
      · rw [hscope h6, (in6_withHeader ..).2]

/-- The address `fe80::1` with port 5000, on the interface with the number `scope`. -/
def linkLocal5000 (scope : Byte) : SockaddrStorage := fun i =>
  [10, 0, 19, 136, 0, 0, 0, 0, 254, 128, 0, 0, 0, 0, 0, 0, 0, 0, 0, 0, 0, 0, 0, 1, scope].getD i 0

/-- A datagram from `127.0.0.1:5000`, and one from `fe80::1` without a scope. -/
theorem repliesTo_sample : RepliesTo Inet.reference EndpointSource.localhost5000 ∧
    RepliesTo Inet.reference (linkLocal5000 0) := by
  constructor
  · refine (repliesTo_iff (.inl (by decide))).mpr fun h6 => ?_
    exact absurd h6 (by decide)
  · exact (repliesTo_iff (.inr (by decide))).mpr fun _ => by decide

/-- The reply to `fe80::1` on the interface 2 goes out without a scope. -/
theorem not_repliesTo : ¬ RepliesTo Inet.reference (linkLocal5000 2) := by
  intro h
  have hscope := (repliesTo_iff (.inr (by decide))).mp h (by decide)
  exact absurd (congrFun hscope 0) (by decide)

end IPSocket

end SctpSandbox
