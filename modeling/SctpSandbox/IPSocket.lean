import SctpSandbox.Inet

/-! # Endpoints: `IPSocket`

An `IPSocket` is an address text, a port and a family. One constructor keeps the text it is given
and asks `inet_pton` for the family; the other decodes a `sockaddr_storage`, sizing the text to
`INET(6)_ADDRSTRLEN` before `inet_ntop` writes into it. Endpoints are compared by `tieAll`, the
texts included. `equal_iff_sameEndpoint` says for which pairs of constructions that comparison is
the comparison of family, port and address bytes. -/

namespace SctpSandbox

/-- `using Family = sa_family_t`. -/
abbrev Family := UInt16

/-- `AF_UNIX`. -/
def afUnix : Family := 1

/-- `AF_INET`. -/
def afInet : Family := 2

/-- `AF_INET6`. -/
def afInet6 : Family := 10

/-- `using Port = u16`. -/
abbrev Port := UInt16

/-- `sockaddr_storage`, byte by byte. -/
abbrev SockaddrStorage := Fin 128 → Byte

namespace SockaddrStorage

/-- `ss_family`, at offset 0 in host (little-endian) order. -/
def family (s : SockaddrStorage) : Family := UInt16.ofNat ((s 0).toNat + 256 * (s 1).toNat)

/-- `ntohs(sin_port)`, and likewise `ntohs(sin6_port)`: at offset 2, most significant byte first. -/
def port (s : SockaddrStorage) : Port := UInt16.ofNat (256 * (s 2).toNat + (s 3).toNat)

/-- `sin_addr` of a `sockaddr_in`. -/
def sinAddr (s : SockaddrStorage) : Fin 4 → Byte := fun i => s ⟨4 + i, by omega⟩

/-- `sin6_addr` of a `sockaddr_in6`, behind the flow information. -/
def sin6Addr (s : SockaddrStorage) : Fin 16 → Byte := fun i => s ⟨8 + i, by omega⟩

end SockaddrStorage

/-- `struct IPSocket`. -/
structure IPSocket where
  addr : IP
  port : Port
  family : Family
  deriving DecidableEq

namespace IPSocket

variable (I : Inet)

/-- `isFamily`: `inet_pton` for the family accepts the C string of the text. -/
def isFamily (addr : IP) (family : Family) : Bool :=
  if family = afInet then (I.pton4 (cStr addr)).isSome
  else if family = afInet6 then (I.pton6 (cStr addr)).isSome
  else false

/-- `detectFamily`. -/
def detectFamily (addr : IP) : Family :=
  if isFamily I addr afInet then afInet
  else if isFamily I addr afInet6 then afInet6
  else afUnix

/-- `IPSocket::IPSocket(IP addr, Port port)`. -/
def ofText (addr : IP) (port : Port) : IPSocket := ⟨addr, port, detectFamily I addr⟩

/-- `inet_ntop` into a buffer: the text and one NUL, the rest of the buffer as it was. It fails for
other families and when the text does not fit. -/
def inetNtop (family : Family) (s : SockaddrStorage) (buf : List Byte) : Option (List Byte) :=
  let text := if family = afInet6 then some (I.ntop6 s.sin6Addr)
    else if family = afInet then some (I.ntop4 s.sinAddr)
    else none
  text.bind fun t =>
    if t.length < buf.length then some (t ++ 0 :: buf.drop (t.length + 1)) else none

/-- `IPSocket::IPSocket(const sockaddr_storage&)`; `none` when `checkInetntop` throws. -/
def ofStorage (s : SockaddrStorage) : Option IPSocket :=
  let buf := List.replicate (if s.family = afInet6 then inet6Addrstrlen else inetAddrstrlen) 0
  (inetNtop I s.family s buf).map fun addr => ⟨addr, s.port, s.family⟩

/-- `tieAll`. -/
def tieAll (s : IPSocket) : IP × Port × Family := (s.addr, s.port, s.family)

/-- Endpoints that compare equal are equal, so a map ordered by `tieAll` finds its keys by
equality. -/
theorem tieAll_injective : Function.Injective tieAll := by
  rintro ⟨a, p, f⟩ ⟨a', p', f'⟩ h
  simpa [tieAll] using h

end IPSocket

/-! ## When two constructions compare equal -/

/-- The two ways the program builds an endpoint. -/
inductive EndpointSource where
  /-- `IPSocket(IP, Port)`, as for a configured remote. -/
  | text (addr : IP) (port : Port)
  /-- `IPSocket(sockaddr_storage)`, as for the sender of a datagram. -/
  | storage (s : SockaddrStorage)

/-- What an endpoint denotes: its family, port and address bytes. -/
structure Endpoint where
  family : Family
  port : Port
  bytes : List Byte
  deriving DecidableEq

namespace EndpointSource

variable (I : Inet)

/-- The endpoint a construction yields, if it does not throw. -/
def build : EndpointSource → Option IPSocket
  | .text addr port => some (IPSocket.ofText I addr port)
  | .storage s => IPSocket.ofStorage I s

/-- Text that `inet_pton` accepts for `AF_INET` or `AF_INET6`, or an address of these families. -/
def Valid : EndpointSource → Prop
  | .text addr _ => (I.pton4 (cStr addr)).isSome ∨ (I.pton6 (cStr addr)).isSome
  | .storage s => s.family = afInet ∨ s.family = afInet6

/-- The endpoint a construction denotes. -/
def endpoint : EndpointSource → Endpoint
  | .text addr port =>
      match I.pton4 (cStr addr), I.pton6 (cStr addr) with
      | some a, _ => ⟨afInet, port, List.ofFn a⟩
      | none, some a => ⟨afInet6, port, List.ofFn a⟩
      | none, none => ⟨afUnix, port, []⟩
  | .storage s =>
      ⟨s.family, s.port, if s.family = afInet6 then List.ofFn s.sin6Addr else List.ofFn s.sinAddr⟩

/-- The canonical text of an address, padded with NULs to the size of the decoder's buffer. -/
def paddedText (s : SockaddrStorage) : IP :=
  if s.family = afInet6 then
    I.ntop6 s.sin6Addr ++ List.replicate (inet6Addrstrlen - (I.ntop6 s.sin6Addr).length) 0
  else I.ntop4 s.sinAddr ++ List.replicate (inetAddrstrlen - (I.ntop4 s.sinAddr).length) 0

/-- Both constructions spell the address alike: two texts are the same text, and a text beside a
decoded address is its canonical text with the NUL padding. Two decoded addresses always are. -/
def SpelledAlike : EndpointSource → EndpointSource → Prop
  | .text addr _, .text addr' _ => addr = addr'
  | .text addr _, .storage s => addr = paddedText I s
  | .storage s, .text addr _ => addr = paddedText I s
  | .storage _, .storage _ => True

/-- The endpoints built compare equal. -/
def Equal (a b : EndpointSource) : Prop :=
  ∃ x y, a.build I = some x ∧ b.build I = some y ∧ x.tieAll = y.tieAll

/-- The text a construction stores. -/
def storedText : EndpointSource → IP
  | .text addr _ => addr
  | .storage s => paddedText I s

variable {I} {a b : EndpointSource}

/-- The two families have different numbers. -/
theorem afInet6_ne_afInet : afInet6 ≠ afInet := by decide

/-- Writing a C string over NULs pads it with NULs. -/
theorem inetNtop_replicate {t : List Byte} {n : ℕ} (h : t.length < n) :
    t ++ 0 :: (List.replicate n 0).drop (t.length + 1) = t ++ List.replicate (n - t.length) 0 := by
  rw [List.drop_replicate, ← List.replicate_succ]
  congr 2
  omega

/-- Decoding an address yields its padded text. -/
theorem ofStorage_eq {s : SockaddrStorage} (h : (storage s).Valid I) :
    IPSocket.ofStorage I s = some ⟨paddedText I s, s.port, s.family⟩ := by
  rw [IPSocket.ofStorage, IPSocket.inetNtop, paddedText]
  -- in both families the text fits, so `checkInetntop` does not throw
  by_cases h6 : s.family = afInet6
  · have hlen := I.length_ntop6 s.sin6Addr
    simp only [if_pos h6, Option.bind_some, List.length_replicate, if_pos hlen, Option.map_some,
      inetNtop_replicate hlen]
  · have h4 : s.family = afInet := h.resolve_right h6
    have hlen := I.length_ntop4 s.sinAddr
    simp only [if_neg h6, if_pos h4, Option.bind_some, List.length_replicate, if_pos hlen,
      Option.map_some, inetNtop_replicate hlen]

/-- The C string of a padded text is the canonical text. -/
theorem cStr_padded {t : List Byte} {n : ℕ} (h0 : 0 ∉ t) (h : t.length < n) :
    cStr (t ++ List.replicate (n - t.length) 0) = t := by
  obtain ⟨k, hk⟩ : ∃ k, n - t.length = k + 1 := ⟨n - t.length - 1, by omega⟩
  rw [hk, List.replicate_succ, cStr_append_nul, cStr_eq_self h0]

/-- A valid construction stores its text beside the port and family it denotes, and the text reads
back as the address bytes it denotes. -/
theorem build_valid (h : a.Valid I) :
    a.build I = some ⟨a.storedText I, (a.endpoint I).port, (a.endpoint I).family⟩ ∧
      (((a.endpoint I).family = afInet ∧
          (I.pton4 (cStr (a.storedText I))).map List.ofFn = some (a.endpoint I).bytes) ∨
        ((a.endpoint I).family = afInet6 ∧
          (I.pton6 (cStr (a.storedText I))).map List.ofFn = some (a.endpoint I).bytes)) := by
  cases a with
  | text addr port =>
      simp only [build, IPSocket.ofText, IPSocket.detectFamily, IPSocket.isFamily, storedText,
        endpoint]
      -- `detectFamily` tries IPv4 first
      cases h4 : I.pton4 (cStr addr) with
      | some x => simp
      | none =>
          cases h6 : I.pton6 (cStr addr) with
          | some x => simp [afInet6_ne_afInet]
          | none => simp [Valid, h4, h6] at h
  | storage s =>
      refine ⟨ofStorage_eq h, ?_⟩
      by_cases h6 : s.family = afInet6
      · refine .inr ⟨h6, ?_⟩
        simp only [storedText, paddedText, if_pos h6, endpoint,
          cStr_padded (I.zero_notMem_ntop6 _) (I.length_ntop6 _), I.pton6_ntop6, Option.map_some]
      · refine .inl ⟨h.resolve_right h6, ?_⟩
        simp only [storedText, paddedText, if_neg h6, endpoint,
          cStr_padded (I.zero_notMem_ntop4 _) (I.length_ntop4 _), I.pton4_ntop4, Option.map_some]

/-- Constructions compare equal when they agree on the stored text, the port and the family. -/
theorem equal_iff_stored (ha : a.Valid I) (hb : b.Valid I) :
    Equal I a b ↔ a.storedText I = b.storedText I ∧
      (a.endpoint I).port = (b.endpoint I).port ∧
      (a.endpoint I).family = (b.endpoint I).family := by
  rw [Equal, (build_valid ha).1, (build_valid hb).1]
  simp [IPSocket.tieAll_injective.eq_iff]

/-- Endpoints that compare equal denote the same family, port and address bytes. -/
theorem sameEndpoint_of_equal (ha : a.Valid I) (hb : b.Valid I) (h : Equal I a b) :
    a.endpoint I = b.endpoint I := by
  obtain ⟨htext, hport, hfamily⟩ := (equal_iff_stored ha hb).mp h
  have hbytes : (a.endpoint I).bytes = (b.endpoint I).bytes := by
    -- of one family, both read their bytes from the common text
    rcases (build_valid ha).2 with ⟨ha4, hap⟩ | ⟨ha6, hap⟩ <;>
      rcases (build_valid hb).2 with ⟨hb4, hbp⟩ | ⟨hb6, hbp⟩
    · rw [htext, hbp] at hap
      exact (Option.some.inj hap).symm
    · exact absurd (hb6.symm.trans (hfamily.symm.trans ha4)) afInet6_ne_afInet
    · exact absurd (ha6.symm.trans (hfamily.trans hb4)) afInet6_ne_afInet
    · rw [htext, hbp] at hap
      exact (Option.some.inj hap).symm
  cases hea : a.endpoint I
  cases heb : b.endpoint I
  simp_all

/-- Decoding the same endpoint twice stores the same text. -/
theorem paddedText_congr {s t : SockaddrStorage}
    (h : (storage s).endpoint I = (storage t).endpoint I) : paddedText I s = paddedText I t := by
  simp only [endpoint, Endpoint.mk.injEq] at h
  obtain ⟨hfamily, -, hbytes⟩ := h
  rw [paddedText, paddedText, ← hfamily]
  by_cases h6 : s.family = afInet6
  · rw [if_pos h6, if_pos (hfamily ▸ h6)] at hbytes
    rw [if_pos h6, if_pos h6, List.ofFn_injective hbytes]
  · rw [if_neg h6, if_neg (hfamily ▸ h6)] at hbytes
    rw [if_neg h6, if_neg h6, List.ofFn_injective hbytes]

/-- For one endpoint, spelling it alike is storing the same text. -/
theorem spelledAlike_iff (h : a.endpoint I = b.endpoint I) :
    SpelledAlike I a b ↔ a.storedText I = b.storedText I := by
  cases a with
  | text addr port =>
      cases b with
      | text addr' port' => exact Iff.rfl
      | storage s => exact Iff.rfl
  | storage s =>
      cases b with
      | text addr port => exact eq_comm
      | storage t => exact iff_of_true trivial (paddedText_congr h)

/-- **Endpoint identity.** Comparing two endpoints compares family, port and address bytes exactly
when constructions of one and the same endpoint spell it alike. -/
theorem equal_iff_sameEndpoint (ha : a.Valid I) (hb : b.Valid I) :
    (Equal I a b ↔ a.endpoint I = b.endpoint I) ↔
      (a.endpoint I = b.endpoint I → SpelledAlike I a b) := by
  constructor
  · intro hiff hsame
    rw [spelledAlike_iff hsame]
    exact ((equal_iff_stored ha hb).mp (hiff.mpr hsame)).1
  · intro halike
    refine ⟨sameEndpoint_of_equal ha hb, fun hsame => ?_⟩
    rw [equal_iff_stored ha hb, ← spelledAlike_iff hsame, hsame]
    exact ⟨halike hsame, rfl, rfl⟩

/-- The key inserted for a configured remote, whose text comes from the command line and holds no
NUL, is never the key looked up for a datagram: the decoded text ends in NULs. -/
theorem not_equal_text_storage {addr : IP} {port : Port} {s : SockaddrStorage} (h0 : 0 ∉ addr)
    (ha : (text addr port).Valid I) (hs : (storage s).Valid I) :
    ¬ Equal I (text addr port) (storage s) := by
  intro h
  have htext : addr = paddedText I s := ((equal_iff_stored ha hs).mp h).1
  -- the text is shorter than the buffer, so at least one NUL of padding is left
  refine h0 (htext ▸ ?_)
  rw [paddedText]
  split
  · have hlen := I.length_ntop6 s.sin6Addr
    exact List.mem_append_right _ (List.mem_replicate.mpr ⟨by omega, rfl⟩)
  · have hlen := I.length_ntop4 s.sinAddr
    exact List.mem_append_right _ (List.mem_replicate.mpr ⟨by omega, rfl⟩)

/-- The address `127.0.0.1` with port 5000, as the kernel reports it. -/
def localhost5000 : SockaddrStorage :=
  fun i => [2, 0, 19, 136, 127, 0, 0, 1].getD i 0

/-- The same address, with something else behind it. -/
def localhost5000Padded : SockaddrStorage :=
  fun i => [2, 0, 19, 136, 127, 0, 0, 1].getD i 7

/-- Two datagrams from `127.0.0.1:5000` have one sender, whatever lies behind the address; and the
remote `127.0.0.1:5001` of the command line is somebody else. -/
theorem equal_iff_sameEndpoint_localhost :
    (Equal Inet.reference (storage localhost5000) (storage localhost5000Padded) ↔
      (storage localhost5000).endpoint Inet.reference =
        (storage localhost5000Padded).endpoint Inet.reference) ∧
    (Equal Inet.reference (text (ascii "127.0.0.1") 5001) (storage localhost5000) ↔
      (text (ascii "127.0.0.1") 5001).endpoint Inet.reference =
        (storage localhost5000).endpoint Inet.reference) := by
  have htext : (text (ascii "127.0.0.1") 5001).Valid Inet.reference := .inl (by decide +kernel)
  have hstorage : (storage localhost5000).Valid Inet.reference := .inl (by decide)
  have hpadded : (storage localhost5000Padded).Valid Inet.reference := .inl (by decide)
  refine ⟨(equal_iff_sameEndpoint hstorage hpadded).mpr fun _ => trivial,
    (equal_iff_sameEndpoint htext hstorage).mpr fun hsame => absurd hsame ?_⟩
  decide +kernel

/-- **Two keys for one remote.** The remote `127.0.0.1:5000` given on the command line is not the
sender of a datagram from `127.0.0.1:5000`. -/
theorem not_equal_iff_sameEndpoint :
    ¬ ∀ (I : Inet) (a b : EndpointSource), a.Valid I → b.Valid I →
      (Equal I a b ↔ a.endpoint I = b.endpoint I) := by
  intro h
  have hv : (text (ascii "127.0.0.1") 5000).Valid Inet.reference := .inl (by decide +kernel)
  have hs : (storage localhost5000).Valid Inet.reference := .inl (by decide)
  refine not_equal_text_storage (by decide) hv hs ((h Inet.reference _ _ hv hs).mpr ?_)
  decide +kernel

end EndpointSource

end SctpSandbox
