import Mathlib.Algebra.Ring.Nat
import Mathlib.Data.Finset.Card
import Mathlib.Tactic.FinCases
import SctpSandbox.IPSocket
import SctpSandbox.Lib.Records

/-! # Packed address arrays

The SCTP calls take their addresses as an array of `sockaddr_in` and `sockaddr_in6` of different
sizes, beside their number. `toSockaddrs` writes such an array, `getAddrs` walks one. Both get at a
`sockaddr_in` through a `sockaddr_storage`, which is larger, and so look at bytes behind it; what
lies there is a parameter, `junk` for the writer and `behind` for the reader. -/

namespace SctpSandbox

/-- What goes wrong on the way to or from an address array. -/
inductive AddrError where
  /-- `checkInetpton` throws. -/
  | inetPton
  /-- `checkInetntop` throws. -/
  | inetNtop
  /-- `checkPorts` throws: "More than one port supplied for binding - all ports must be the
  same!". -/
  | morePorts
  /-- A record is read that does not lie inside the array. -/
  | outOfBounds
  deriving DecidableEq

namespace IPSocket

variable (I : Inet)

/-- `isIPv6`. -/
def isIPv6 (s : IPSocket) : Prop := s.family = afInet6

instance (s : IPSocket) : Decidable s.isIPv6 := inferInstanceAs (Decidable (s.family = afInet6))

/-- `sizeofSockaddr`, the size of a `sockaddr_in6` or of a `sockaddr_in`. -/
def sizeofSockaddr (s : IPSocket) : ℕ := if s.isIPv6 then 28 else 16

/-- `checkInetpton`. -/
def checkInetpton {α : Type} : Option α → Except AddrError α
  | some a => .ok a
  | none => .error .inetPton

/-- The family in host (little-endian) order and the port with `htons`. -/
def headerBytes (s : IPSocket) : List Byte :=
  [(s.family.toNat % 256).toUInt8, (s.family.toNat / 256).toUInt8,
    (s.port.toNat / 256).toUInt8, (s.port.toNat % 256).toUInt8]

/-- A `sockaddr_in` with address `a`. -/
def inBytes (s : IPSocket) (a : Fin 4 → Byte) : List Byte :=
  s.headerBytes ++ (List.ofFn a ++ List.replicate 8 0)

/-- A `sockaddr_in6` with address `a`, without flow information and scope. -/
def in6Bytes (s : IPSocket) (a : Fin 16 → Byte) : List Byte :=
  s.headerBytes ++ (List.replicate 4 0 ++ (List.ofFn a ++ List.replicate 4 0))

/-- `operator sockaddr_in`. `inet_pton` knows no family but `AF_INET` and `AF_INET6`. -/
def toSockaddrIn (s : IPSocket) : Except AddrError (List Byte) :=
  (checkInetpton (if s.family = afInet then I.pton4 (cStr s.addr) else none)).map s.inBytes

/-- `operator sockaddr_in6`. -/
def toSockaddrIn6 (s : IPSocket) : Except AddrError (List Byte) :=
  (checkInetpton (if s.family = afInet6 then I.pton6 (cStr s.addr) else none)).map s.in6Bytes

/-- `operator sockaddr_storage`, with `junk` behind the smaller structure. -/
def toStorage (junk : SockaddrStorage) (s : IPSocket) : Except AddrError SockaddrStorage :=
  (if s.isIPv6 then s.toSockaddrIn6 I else s.toSockaddrIn I).map
    fun bytes i => bytes.getD i (junk i)

/-- `toSockaddrs`. Element `n` of the list has `junk n` behind it. -/
def toSockaddrs : (ℕ → SockaddrStorage) → List IPSocket → Except AddrError (List Byte)
  | _, [] => .ok []
  | junk, s :: ss => do
      let storage ← s.toStorage I (junk 0)
      let rest ← toSockaddrs (fun n => junk (n + 1)) ss
      return (List.ofFn storage).take s.sizeofSockaddr ++ rest

/-- The `sockaddr_storage` at the front of `saddr`, which ends before the bytes `behind`. -/
def storageAt (behind : ℕ → Byte) (saddr : List Byte) : SockaddrStorage :=
  fun i => saddr.getD i (behind (i - saddr.length))

/-- `IPSocket::IPSocket(const sockaddr&)`, at the front of `saddr`. -/
def ofSockaddr (behind : ℕ → Byte) (saddr : List Byte) : Except AddrError IPSocket :=
  match ofStorage I (storageAt behind saddr) with
  | some s => if s.sizeofSockaddr ≤ saddr.length then .ok s else .error .outOfBounds
  | none => .error .inetNtop

/-- `getAddrs` on an array of `count` addresses: those it returns, and what lies behind the last
one. -/
def getAddrs (behind : ℕ → Byte) (count : ℕ) (saddrs : List Byte) :
    Except AddrError (List IPSocket × List Byte) :=
  Records.walk (ofSockaddr I behind) sizeofSockaddr count saddrs

/-- What `SocketSctp::bind` passes to `sctp_bindx`: the array and the number of addresses. The
conversion of `size()` to `int` keeps it, the addresses come from the command line. -/
def bindArgs (junk : ℕ → SockaddrStorage) (locals : List IPSocket) :
    Except AddrError (List Byte × ℕ) :=
  if 1 < (locals.map port).dedup.length then .error .morePorts
  else (toSockaddrs I junk locals).map fun saddrs => (saddrs, locals.length)

/-- What `SocketSctp::connectMultihomed` passes to `sctp_connectx`, if it calls it. -/
def connectMultihomedArgs (junk : ℕ → SockaddrStorage) (remotes : List IPSocket) :
    Except AddrError (Option (List Byte × ℕ)) :=
  if remotes = [] then .ok none
  else (toSockaddrs I junk remotes).map fun saddrs => some (saddrs, remotes.length)

/-- The address bytes an endpoint stands for. -/
def addressBytes (s : IPSocket) : Option (List Byte) :=
  if s.isIPv6 then (I.pton6 (cStr s.addr)).map List.ofFn
  else (I.pton4 (cStr s.addr)).map List.ofFn

/-- An IPv4 or IPv6 endpoint whose text `inet_pton` accepts. -/
def ValidAddress (s : IPSocket) : Prop :=
  s.family = afInet ∧ (I.pton4 (cStr s.addr)).isSome ∨
    s.family = afInet6 ∧ (I.pton6 (cStr s.addr)).isSome

/-- The same family, port and address bytes. -/
structure SameAddress (s t : IPSocket) : Prop where
  family : t.family = s.family
  port : t.port = s.port
  bytes : t.addressBytes I = s.addressBytes I

/-- An array and a number of addresses describe a list: a walk over that many addresses stays inside
the array, ends at its end, and yields the addresses of the list in order. -/
def Describes (behind : ℕ → Byte) (args : List Byte × ℕ) (ss : List IPSocket) : Prop :=
  ∃ ts, getAddrs I behind args.2 args.1 = .ok (ts, []) ∧ List.Forall₂ (SameAddress I) ss ts

/-! ## One address -/

variable {I : Inet} {s t : IPSocket} {junk : SockaddrStorage} {behind : ℕ → Byte}
  {tail rest : List Byte}

/-- A 16 bit number from its two bytes. -/
theorem ofNat_bytes (n : UInt16) :
    UInt16.ofNat ((n.toNat % 256).toUInt8.toNat + 256 * (n.toNat / 256).toUInt8.toNat) = n ∧
      UInt16.ofNat (256 * (n.toNat / 256).toUInt8.toNat + (n.toNat % 256).toUInt8.toNat) = n := by
  have hn : n.toNat < 65536 := n.toNat_lt
  have hlo : (n.toNat % 256).toUInt8.toNat = n.toNat % 256 := by
    simp
  have hhi : (n.toNat / 256).toUInt8.toNat = n.toNat / 256 := by
    simp only [Nat.toUInt8_eq, UInt8.toNat_ofNat']
    omega
  rw [hlo, hhi]
  refine ⟨?_, ?_⟩
  · rw [Nat.mod_add_div, UInt16.ofNat_toNat]
  · rw [Nat.div_add_mod, UInt16.ofNat_toNat]

/-- The family is read back from the header. -/
theorem family_header (s : IPSocket) (behind : ℕ → Byte) (tail : List Byte) :
    (storageAt behind (s.headerBytes ++ tail)).family = s.family := (ofNat_bytes s.family).1

/-- The port is read back from the header. -/
theorem port_header (s : IPSocket) (behind : ℕ → Byte) (tail : List Byte) :
    (storageAt behind (s.headerBytes ++ tail)).port = s.port := (ofNat_bytes s.port).2

/-- The address is read back from behind the header of the short form. -/
theorem sinAddr_inBytes (s : IPSocket) (a : Fin 4 → Byte) (behind : ℕ → Byte) (rest : List Byte) :
    (storageAt behind (s.inBytes a ++ rest)).sinAddr = a := by
  funext i
  fin_cases i <;> rfl

/-- The address is read back from behind the header of the long form. -/
theorem sin6Addr_in6Bytes (s : IPSocket) (a : Fin 16 → Byte) (behind : ℕ → Byte)
    (rest : List Byte) : (storageAt behind (s.in6Bytes a ++ rest)).sin6Addr = a := by
  funext i
  fin_cases i <;> rfl

/-- The families exclude each other. -/
theorem not_isIPv6 (h : s.family = afInet) : ¬ s.isIPv6 := fun h6 =>
  EndpointSource.afInet6_ne_afInet (h6.symm.trans h)

/-- The short form has the size of a `sockaddr_in`. -/
theorem length_inBytes (s : IPSocket) (a : Fin 4 → Byte) : (s.inBytes a).length = 16 := rfl

/-- The long form has the size of a `sockaddr_in6`. -/
theorem length_in6Bytes (s : IPSocket) (a : Fin 16 → Byte) : (s.in6Bytes a).length = 28 := rfl

/-- Reading a record that lies inside the array. -/
theorem ofSockaddr_eq {saddr : List Byte} (h : ofStorage I (storageAt behind saddr) = some t)
    (hsize : t.sizeofSockaddr ≤ saddr.length) : ofSockaddr I behind saddr = .ok t := by
  rw [ofSockaddr, h]
  exact if_pos hsize

/-- A record behind the header of `s` is read back in front of anything, if it has the width of its
family and the text of its address decodes to the bytes of `s`. -/
theorem readsBack_record {bytes : List Byte} (hfamily : s.family = afInet ∨ s.family = afInet6)
    (hheader : ∃ tail, bytes = s.headerBytes ++ tail) (hlength : bytes.length = s.sizeofSockaddr)
    (haddr : ∀ rest, (storageAt behind (bytes ++ rest)).family = s.family → ∀ port,
      (IPSocket.mk (EndpointSource.paddedText I (storageAt behind (bytes ++ rest))) port
        s.family).addressBytes I = s.addressBytes I) :
    Records.ReadsBack (SameAddress I) (ofSockaddr I behind) sizeofSockaddr bytes s := by
  intro rest
  obtain ⟨tail, htail⟩ := hheader
  -- only the header decides family, port and size
  have hbytes : bytes ++ rest = s.headerBytes ++ (tail ++ rest) := by
    rw [htail, List.append_assoc]
  have hfam : (storageAt behind (bytes ++ rest)).family = s.family := by
    rw [hbytes, family_header]
  have hport : (storageAt behind (bytes ++ rest)).port = s.port := by
    rw [hbytes, port_header]
  have hread := EndpointSource.ofStorage_eq (I := I) (s := storageAt behind (bytes ++ rest))
    (by rwa [← hfam] at hfamily)
  rw [hfam, hport] at hread
  have hsize : ∀ addr, (IPSocket.mk addr s.port s.family).sizeofSockaddr = bytes.length := fun _ =>
    hlength.symm
  refine ⟨_, ofSockaddr_eq hread ?_, hsize _, rfl, rfl, haddr rest hfam s.port⟩
  rw [hsize, List.length_append]
  exact Nat.le_add_right _ _

/-- A `sockaddr_in` is read back in front of anything. -/
theorem readsBack_inBytes {a : Fin 4 → Byte} (h : s.family = afInet)
    (ha : I.pton4 (cStr s.addr) = some a) (behind : ℕ → Byte) :
    Records.ReadsBack (SameAddress I) (ofSockaddr I behind) sizeofSockaddr (s.inBytes a) s := by
  refine readsBack_record (.inl h) ⟨_, rfl⟩ ?_ fun rest hfam port => ?_
  · rw [length_inBytes, sizeofSockaddr, if_neg (not_isIPv6 h)]
  · have hnot : (storageAt behind (s.inBytes a ++ rest)).family ≠ afInet6 := by
      rw [hfam, h]
      exact EndpointSource.afInet6_ne_afInet.symm
    have hnot' : ∀ addr, ¬ (IPSocket.mk addr port s.family).isIPv6 := fun _ => not_isIPv6 h
    rw [addressBytes, addressBytes, if_neg (not_isIPv6 h), if_neg (hnot' _), ha,
      EndpointSource.paddedText, if_neg hnot, sinAddr_inBytes,
      EndpointSource.cStr_padded (I.zero_notMem_ntop4 a) (I.length_ntop4 a), I.pton4_ntop4]

/-- A `sockaddr_in6` is read back in front of anything. -/
theorem readsBack_in6Bytes {a : Fin 16 → Byte} (h : s.family = afInet6)
    (ha : I.pton6 (cStr s.addr) = some a) (behind : ℕ → Byte) :
    Records.ReadsBack (SameAddress I) (ofSockaddr I behind) sizeofSockaddr (s.in6Bytes a) s := by
  have h6 : s.isIPv6 := h
  refine readsBack_record (.inr h) ⟨_, rfl⟩ ?_ fun rest hfam port => ?_
  · rw [length_in6Bytes, sizeofSockaddr, if_pos h6]
  · have h6' : ∀ addr, (IPSocket.mk addr port s.family).isIPv6 := fun _ => h
    rw [addressBytes, addressBytes, if_pos h6, if_pos (h6' _), ha, EndpointSource.paddedText,
      if_pos (hfam.trans h), sin6Addr_in6Bytes,
      EndpointSource.cStr_padded (I.zero_notMem_ntop6 a) (I.length_ntop6 a), I.pton6_ntop6]

/-- The bytes copied out of a storage are those of the structure it was made from. -/
theorem take_storage {bytes : List Byte} (h : bytes.length ≤ 128) (junk : SockaddrStorage) :
    (List.ofFn fun i : Fin 128 => bytes.getD i (junk i)).take bytes.length = bytes := by
  refine List.ext_getElem ?_ fun i hi hi' => ?_
  · rw [List.length_take, List.length_ofFn, Nat.min_eq_left h]
  · rw [List.getElem_take, List.getElem_ofFn, List.getD_eq_getElem?_getD,
      List.getElem?_eq_getElem hi', Option.getD_some]

/-- A socket address of either family fits a `sockaddr_storage`. -/
theorem sizeofSockaddr_le (s : IPSocket) : s.sizeofSockaddr ≤ 128 := by
  unfold sizeofSockaddr
  split <;> decide

/-- What a conversion writes into a storage is what is copied out of it. -/
theorem toStorage_take {bytes : List Byte}
    (hto : (if s.isIPv6 then s.toSockaddrIn6 I else s.toSockaddrIn I) = .ok bytes)
    (hlength : bytes.length = s.sizeofSockaddr) (junk : SockaddrStorage) :
    ∃ storage, s.toStorage I junk = .ok storage ∧
      (List.ofFn storage).take s.sizeofSockaddr = bytes := by
  refine ⟨fun i => bytes.getD i (junk i), ?_, ?_⟩
  · rw [toStorage, hto]
    rfl
  · rw [← hlength]
    exact take_storage (hlength ▸ sizeofSockaddr_le s) junk

/-- **One address**: its conversion writes `sizeofSockaddr` bytes, the same whatever lies behind the
source structure, and they are read back as the same family, port and address bytes. -/
theorem toStorage_readsBack (h : s.ValidAddress I) (behind : ℕ → Byte) :
    ∃ bytes : List Byte, bytes.length = s.sizeofSockaddr ∧
      (∀ junk, ∃ storage, s.toStorage I junk = .ok storage ∧
        (List.ofFn storage).take s.sizeofSockaddr = bytes) ∧
      Records.ReadsBack (SameAddress I) (ofSockaddr I behind) sizeofSockaddr bytes s := by
  -- the two families write different structures
  rcases h with ⟨h4, ha⟩ | ⟨h6, ha⟩
  · obtain ⟨a, ha⟩ := Option.isSome_iff_exists.mp ha
    have hlength : (s.inBytes a).length = s.sizeofSockaddr := (if_neg (not_isIPv6 h4)).symm
    have hto : (if s.isIPv6 then s.toSockaddrIn6 I else s.toSockaddrIn I) = .ok (s.inBytes a) := by
      rw [if_neg (not_isIPv6 h4), toSockaddrIn, if_pos h4, ha]
      rfl
    exact ⟨s.inBytes a, hlength, toStorage_take hto hlength, readsBack_inBytes h4 ha behind⟩
  · obtain ⟨a, ha⟩ := Option.isSome_iff_exists.mp ha
    have h6' : s.isIPv6 := h6
    have hlength : (s.in6Bytes a).length = s.sizeofSockaddr := (if_pos h6').symm
    have hto : (if s.isIPv6 then s.toSockaddrIn6 I else s.toSockaddrIn I) = .ok (s.in6Bytes a) := by
      rw [if_pos h6', toSockaddrIn6, if_pos h6, ha]
      rfl
    exact ⟨s.in6Bytes a, hlength, toStorage_take hto hlength, readsBack_in6Bytes h6 ha behind⟩

/-! ## Arrays of addresses -/

/-- The array written for a list of valid addresses is made of one record for each of them. -/
theorem toSockaddrs_records {ss : List IPSocket} (h : ∀ s ∈ ss, s.ValidAddress I)
    (behind : ℕ → Byte) : ∃ xss : List (List Byte), xss.map List.length = ss.map sizeofSockaddr ∧
      (∀ junk, toSockaddrs I junk ss = .ok xss.flatten) ∧
      List.Forall₂ (Records.ReadsBack (SameAddress I) (ofSockaddr I behind) sizeofSockaddr)
        xss ss := by
  induction ss with
  | nil => exact ⟨[], rfl, fun _ => rfl, .nil⟩
  | cons s ss ih =>
      obtain ⟨xss, hlen, hxss, hback⟩ := ih fun t ht => h t (List.mem_cons_of_mem s ht)
      obtain ⟨bytes, hsize, hbytes, hs⟩ := toStorage_readsBack (h s List.mem_cons_self) behind
      -- each record is as long as its family says
      refine ⟨bytes :: xss, ?_, fun junk => ?_, .cons hs hback⟩
      · rw [List.map_cons, List.map_cons, hsize, hlen]
      · obtain ⟨storage, hto, htake⟩ := hbytes (junk 0)
        rw [toSockaddrs, hto]
        simp only [bind, Except.bind, hxss, htake]
        rfl

/-- What is written for a list of valid addresses describes it. -/
theorem describes_of_toSockaddrs {ss : List IPSocket} (h : ∀ s ∈ ss, s.ValidAddress I)
    {junk : ℕ → SockaddrStorage} {saddrs : List Byte} (hto : toSockaddrs I junk ss = .ok saddrs)
    (behind : ℕ → Byte) : Describes I behind (saddrs, ss.length) ss := by
  obtain ⟨xss, -, hxss, hback⟩ := toSockaddrs_records h behind
  -- the walk over the records, with nothing behind them
  obtain ⟨ts, hwalk, hts⟩ := Records.walk_flatten hback []
  rw [List.append_nil, Except.ok.inj ((hxss junk).symm.trans hto)] at hwalk
  exact ⟨ts, hwalk, hts⟩

/-- What `checkPorts` looks for. -/
theorem one_lt_ports_iff (ss : List IPSocket) :
    1 < (ss.map port).dedup.length ↔ ∃ s ∈ ss, ∃ t ∈ ss, s.port ≠ t.port := by
  rw [← List.card_toFinset, Finset.one_lt_card]
  constructor
  · rintro ⟨a, ha, b, hb, hne⟩
    obtain ⟨s, hs, rfl⟩ := List.mem_map.mp (List.mem_toFinset.mp ha)
    obtain ⟨t, ht, rfl⟩ := List.mem_map.mp (List.mem_toFinset.mp hb)
    exact ⟨s, hs, t, ht, hne⟩
  · rintro ⟨s, hs, t, ht, hne⟩
    have hmem : ∀ u ∈ ss, u.port ∈ (ss.map port).toFinset := fun u hu =>
      List.mem_toFinset.mpr (List.mem_map_of_mem hu)
    exact ⟨s.port, hmem s hs, t.port, hmem t ht, hne⟩

/-- **Packed address arrays round-trip.** For valid addresses, `toSockaddrs` writes as many bytes as
the addresses take, whatever lies behind the structures it copies from; a walk over the array and
the number of addresses yields the same list; `connectMultihomed` passes on the two together unless
the list is empty, and so does `bind` unless two ports differ. They pass on nothing else. -/
theorem toSockaddrs_roundTrip (I : Inet) (ss : List IPSocket) (h : ∀ s ∈ ss, s.ValidAddress I)
    (behind : ℕ → Byte) :
    ∃ saddrs, (∀ junk, toSockaddrs I junk ss = .ok saddrs) ∧
      saddrs.length = (ss.map sizeofSockaddr).sum ∧
      Describes I behind (saddrs, ss.length) ss ∧
      (ss ≠ [] → ∀ junk, connectMultihomedArgs I junk ss = .ok (some (saddrs, ss.length))) ∧
      ((∀ s ∈ ss, ∀ t ∈ ss, s.port = t.port) →
        ∀ junk, bindArgs I junk ss = .ok (saddrs, ss.length)) ∧
      (∀ junk args, connectMultihomedArgs I junk ss = .ok (some args) →
        args = (saddrs, ss.length)) ∧
      ∀ junk args, bindArgs I junk ss = .ok args → args = (saddrs, ss.length) := by
  -- every storage is written in full, whatever it held before
  obtain ⟨xss, hlen, hto, -⟩ := toSockaddrs_records h behind
  have hdescribes : Describes I behind (xss.flatten, ss.length) ss :=
    describes_of_toSockaddrs h (hto fun _ _ => 0) behind
  refine ⟨xss.flatten, hto, ?_, hdescribes, fun hne junk => ?_, fun hports junk => ?_,
    fun junk args hargs => ?_, fun junk args hargs => ?_⟩
  · rw [List.length_flatten, hlen]
  · rw [connectMultihomedArgs, if_neg hne, hto]
    rfl
  · -- one port
    have hone : ¬ 1 < (ss.map port).dedup.length := by
      rw [one_lt_ports_iff]
      rintro ⟨s, hs, t, ht, hst⟩
      exact hst (hports s hs t ht)
    rw [bindArgs, if_neg hone, hto]
    rfl
  · rw [connectMultihomedArgs, hto] at hargs
    split at hargs
    · exact absurd (Except.ok.inj hargs).symm (Option.some_ne_none args)
    · exact (Option.some.inj (Except.ok.inj hargs)).symm
  · rw [bindArgs, hto] at hargs
    split at hargs
    · simp at hargs
    · exact (Except.ok.inj hargs).symm

/-- An IPv4 and an IPv6 endpoint on one port, one as typed and one as the decoder writes it. -/
def sampleMixed : List IPSocket :=
  [⟨ascii "127.0.0.1", 36412, afInet⟩,
    ⟨Inet.grouped (fun _ => 1) ++ List.replicate 7 0, 36412, afInet6⟩]

/-- They take 44 bytes, which `bind` and `connectMultihomed` both pass on as two addresses, and
which describe the list. -/
theorem toSockaddrs_roundTrip_mixed : ∃ saddrs : List Byte,
    toSockaddrs Inet.reference (fun _ _ => 255) sampleMixed = .ok saddrs ∧ saddrs.length = 44 ∧
      connectMultihomedArgs Inet.reference (fun _ _ => 1) sampleMixed = .ok (some (saddrs, 2)) ∧
      bindArgs Inet.reference (fun _ _ => 2) sampleMixed = .ok (saddrs, 2) ∧
      Describes Inet.reference (fun _ => 7) (saddrs, 2) sampleMixed := by
  have h : ∀ s ∈ sampleMixed, s.ValidAddress Inet.reference := by
    simp only [sampleMixed, List.mem_cons, List.not_mem_nil, or_false, forall_eq_or_imp, forall_eq]
    exact ⟨.inl ⟨rfl, by decide +kernel⟩, .inr ⟨rfl, by decide +kernel⟩⟩
  have hports : ∀ s ∈ sampleMixed, ∀ t ∈ sampleMixed, s.port = t.port := by
    simp [sampleMixed]
  obtain ⟨saddrs, hto, hlen, hdescribes, hconnect, hbind, -⟩ :=
    toSockaddrs_roundTrip Inet.reference sampleMixed h fun _ => 7
  exact ⟨saddrs, hto _, hlen, hconnect (List.cons_ne_nil _ _) _, hbind hports _, hdescribes⟩

end IPSocket

end SctpSandbox
