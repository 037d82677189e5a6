import SctpSandbox.CommandLine
import SctpSandbox.Destructors
import SctpSandbox.SocketArguments

/-! # From the command line to `sctp_bindx`

A `SocketSctp` is bound to all its local endpoints in one call. The socket has one family, and
`checkPorts` wants one port; the addresses are whatever texts the command line has. So between the
arguments and the call there are two exceptions, and behind both of them the socket can take every
address it is given (`bound_of_ofArgs`). -/

namespace SctpSandbox

/-- `SOCK_SEQPACKET`. -/
def sockSeqpacket : ℤ := 5

/-- The call of `socket` in the constructor of `SocketSctp`. -/
def SocketSctp.socketArgs (locals : List IPSocket) : SocketArgs :=
  .constructed locals sockSeqpacket defaultProtocol afUnspec

namespace IPSocket

variable {I : Inet} {s : IPSocket} {ss : List IPSocket} {junk : ℕ → SockaddrStorage} {e : AddrError}

/-! ## The conversions -/

/-- The one way to fail is the text of the address. -/
theorem toStorage_error {storage : SockaddrStorage} (h : s.toStorage I storage = .error e) :
    e = .inetPton := by
  -- the conversion of a text fails in the one way
  have hcheck : ∀ {α β : Type} (a : Option α) (f : α → β),
      (checkInetpton a).map f = .error e → e = .inetPton := by
    intro α β a f heq
    cases a with
    | some a => exact absurd heq (by simp [checkInetpton, Except.map])
    | none => exact (Except.error.inj heq).symm
  have hmap : (if s.isIPv6 then s.toSockaddrIn6 I else s.toSockaddrIn I) = .error e := by
    rw [toStorage] at h
    cases hbytes : if s.isIPv6 then s.toSockaddrIn6 I else s.toSockaddrIn I with
    | ok bytes => exact absurd (hbytes ▸ h) (by simp [Except.map])
    | error e' => exact congrArg _ (Except.error.inj (hbytes ▸ h))
  split at hmap
  · exact hcheck _ _ hmap
  · exact hcheck _ _ hmap

/-- The storages are written one behind the other. -/
theorem toSockaddrs_cons (junk : ℕ → SockaddrStorage) (s : IPSocket) (ss : List IPSocket) :
    toSockaddrs I junk (s :: ss) =
      match s.toStorage I (junk 0), toSockaddrs I (fun n => junk (n + 1)) ss with
      | .ok storage, .ok rest => .ok ((List.ofFn storage).take s.sizeofSockaddr ++ rest)
      | .ok _, .error e => .error e
      | .error e, _ => .error e := by
  rw [toSockaddrs]
  cases s.toStorage I (junk 0) with
  | error e => rfl
  | ok storage => cases toSockaddrs I (fun n => junk (n + 1)) ss <;> rfl

/-- **A list is converted exactly if all its endpoints are valid**, and `inet_pton` is what fails
otherwise. -/
theorem toSockaddrs_cases (junk : ℕ → SockaddrStorage) (ss : List IPSocket) :
    (∃ saddrs, toSockaddrs I junk ss = .ok saddrs) ∧ (∀ s ∈ ss, s.ValidAddress I) ∨
      toSockaddrs I junk ss = .error .inetPton ∧ ∃ s ∈ ss, ¬ s.ValidAddress I := by
  induction ss generalizing junk with
  | nil => exact .inl ⟨⟨[], rfl⟩, fun s hs => absurd hs List.not_mem_nil⟩
  | cons s ss ih =>
      have hvalid := toStorage_ok_iff (I := I) (s := s) (junk 0)
      rw [toSockaddrs_cons]
      cases hto : s.toStorage I (junk 0) with
      | error e =>
          rw [hto] at hvalid
          refine .inr ⟨congrArg _ (toStorage_error hto), s, List.mem_cons_self, fun h => ?_⟩
          obtain ⟨storage, hok⟩ := hvalid.mpr h
          exact absurd hok (by simp)
      -- the first socket is written, and the others decide
      | ok storage =>
          have hs : s.ValidAddress I := hvalid.mp ⟨storage, hto⟩
          rcases ih fun n => junk (n + 1) with ⟨⟨rest, hrest⟩, hall⟩ | ⟨herror, t, ht, hinvalid⟩
          · rw [hrest]
            exact .inl ⟨⟨_, rfl⟩, List.forall_mem_cons.mpr ⟨hs, hall⟩⟩
          · rw [herror]
            exact .inr ⟨rfl, t, List.mem_cons_of_mem s ht, hinvalid⟩

/-- **The ways `bind` can go** up to its call. -/
theorem bindArgs_cases (junk : ℕ → SockaddrStorage) (ss : List IPSocket) :
    bindArgs I junk ss = .error .morePorts ∧ (∃ s ∈ ss, ∃ t ∈ ss, s.port ≠ t.port) ∨
    (∀ s ∈ ss, ∀ t ∈ ss, s.port = t.port) ∧
      (bindArgs I junk ss = .error .inetPton ∧ (∃ s ∈ ss, ¬ s.ValidAddress I) ∨
        (∃ args, bindArgs I junk ss = .ok args ∧ ∀ behind, Describes I behind args ss) ∧
          ∀ s ∈ ss, s.ValidAddress I) := by
  by_cases hports : ∃ s ∈ ss, ∃ t ∈ ss, s.port ≠ t.port
  · exact .inl ⟨if_pos ((one_lt_ports_iff ss).mpr hports), hports⟩
  · refine .inr ⟨by simpa using hports, ?_⟩
    rw [bindArgs, if_neg fun hlt => hports ((one_lt_ports_iff ss).mp hlt)]
    rcases toSockaddrs_cases (I := I) junk ss with ⟨⟨saddrs, hok⟩, hvalid⟩ | ⟨herror, hinvalid⟩
    · have hdescribes := describes_of_toSockaddrs hvalid hok
      rw [hok]
      exact .inr ⟨⟨_, rfl, hdescribes⟩, hvalid⟩
    · rw [herror]
      exact .inl ⟨rfl, hinvalid⟩

/-! ## The family -/

/-- An endpoint made of a text has an address exactly if the text is one. -/
theorem validAddress_iff_ne_afUnix (h : s.family = detectFamily I s.addr) :
    s.ValidAddress I ↔ s.family ≠ afUnix := by
  refine ⟨?_, fun hne => IsIP.validAddress ⟨h, hne⟩⟩
  rintro (⟨h4, -⟩ | ⟨h6, -⟩)
  · exact h4 ▸ by decide
  · exact h6 ▸ by decide

/-- **The socket takes every address it is given**: those of its own family, and those of IPv4 if it
is one of IPv6. -/
theorem family_of_validAddress (hs : s ∈ ss) (h : s.ValidAddress I) :
    s.family = (SocketSctp.socketArgs ss).family ∨
      s.family = afInet ∧ (SocketSctp.socketArgs ss).family = afInet6 := by
  rw [SocketSctp.socketArgs, SocketArgs.family_constructed, chooseSocketFamily]
  rcases h with ⟨h4, -⟩ | ⟨h6, -⟩
  · split
    · exact .inr ⟨h4, rfl⟩
    · exact .inl h4
  · rw [if_pos (List.any_eq_true.mpr ⟨s, hs, decide_eq_true h6⟩)]
    exact .inl h6

end IPSocket

namespace NetworkConfiguration

open IPSocket

variable {I : Inet} {toLower : Arg → Arg} {program : Arg} {tokens : List Arg}
  {c : NetworkConfiguration}

/-- **What a command line gives SCTP to bind.** Of arguments that are accepted, `bind` throws for
two ports exactly if the local endpoints have two, and else for an address exactly if one of their
texts is none. Else what is passed to `sctp_bindx` describes the local endpoints in their order, and
the socket can take all of them. -/
theorem bound_of_ofArgs (hne : [] ∉ tokens) (h : ofArgs I toLower (program :: tokens) = .ok c)
    (junk : ℕ → SockaddrStorage) :
    (bindArgs I junk c.locals = .error .morePorts ↔
      ∃ s ∈ c.locals, ∃ t ∈ c.locals, s.port ≠ t.port) ∧
    (bindArgs I junk c.locals = .error .inetPton ↔
      (∀ s ∈ c.locals, ∀ t ∈ c.locals, s.port = t.port) ∧ ∃ s ∈ c.locals, s.family = afUnix) ∧
    ((∃ args, bindArgs I junk c.locals = .ok args) ↔
      (∀ s ∈ c.locals, ∀ t ∈ c.locals, s.port = t.port) ∧ ∀ s ∈ c.locals, s.family ≠ afUnix) ∧
    ∀ args, bindArgs I junk c.locals = .ok args →
      (∀ behind, Describes I behind args c.locals) ∧
      ∀ s ∈ c.locals, s.family = (SocketSctp.socketArgs c.locals).family ∨
        s.family = afInet ∧ (SocketSctp.socketArgs c.locals).family = afInet6 := by
  have hwritable : Writable I c := writable_of_ofArgs hne h
  -- text that is neither kind of IP address makes a Unix address, which does not convert
  have hvalid : ∀ s ∈ c.locals, s.ValidAddress I ↔ s.family ≠ afUnix := fun s hs =>
    validAddress_iff_ne_afUnix (hwritable.locals s hs).family
  rcases bindArgs_cases (I := I) junk c.locals with ⟨hbind, hports⟩ |
    ⟨hsame, ⟨hbind, s, hs, hinvalid⟩ | ⟨⟨args, hbind, hdescribes⟩, hall⟩⟩
  · -- two ports
    have hnot : ¬ ∀ s ∈ c.locals, ∀ t ∈ c.locals, s.port = t.port := by
      obtain ⟨s, hs, t, ht, hst⟩ := hports
      exact fun hsame => hst (hsame s hs t ht)
    rw [hbind]
    exact ⟨iff_of_true rfl hports, iff_of_false (by simp) fun h => hnot h.1,
      iff_of_false (by simp) fun h => hnot h.1, fun args hargs => absurd hargs (by simp)⟩
  · -- one port, but an address that does not convert
    have hunix : s.family = afUnix := by
      by_contra hfamily
      exact hinvalid ((hvalid s hs).mpr hfamily)
    rw [hbind]
    refine ⟨iff_of_false (by simp) ?_, iff_of_true rfl ⟨hsame, s, hs, hunix⟩,
      iff_of_false (by simp) fun h => h.2 s hs hunix, fun args hargs => absurd hargs (by simp)⟩
    rintro ⟨s, hs, t, ht, hst⟩
    exact hst (hsame s hs t ht)
  · -- one port, and all convert
    have hfamily : ∀ s ∈ c.locals, s.family ≠ afUnix := fun s hs => (hvalid s hs).mp (hall s hs)
    rw [hbind]
    refine ⟨iff_of_false (by simp) ?_, iff_of_false (by simp) ?_,
      iff_of_true ⟨args, rfl⟩ ⟨hsame, hfamily⟩, fun args' hargs => ?_⟩
    · rintro ⟨s, hs, t, ht, hst⟩
      exact hst (hsame s hs t ht)
    · rintro ⟨-, s, hs, hunix⟩
      exact hfamily s hs hunix
    · obtain rfl := Except.ok.inj hargs
      exact ⟨hdescribes, fun s hs => family_of_validAddress hs (hall s hs)⟩

/-- Two endpoints on different ports, which are accepted and not bound. -/
theorem bound_of_ofArgs_two_ports : ∃ c, ofArgs Inet.reference asciiToLower
      [ascii "sctp_sandbox", ascii "127.0.0.1", ascii "36412", ascii "127.0.0.2",
        ascii "36422"] = .ok c ∧
    bindArgs Inet.reference (fun _ _ => 0) c.locals = .error .morePorts := by
  have hargs : ofArgs Inet.reference asciiToLower [ascii "sctp_sandbox", ascii "127.0.0.1",
      ascii "36412", ascii "127.0.0.2", ascii "36422"] = .ok
        { locals := [.ofText Inet.reference (ascii "127.0.0.1") 36412,
          .ofText Inet.reference (ascii "127.0.0.2") 36422] } :=
    ofArgs_groupsOf Inet.reference asciiToLower (ascii "sctp_sandbox")
      [ascii "127.0.0.1", ascii "36412", ascii "127.0.0.2", ascii "36422"]
  refine ⟨_, hargs, (bound_of_ofArgs (by decide) hargs _).1.mpr ⟨_, List.mem_cons_self, _,
    List.mem_cons_of_mem _ List.mem_cons_self, by decide⟩⟩

end NetworkConfiguration

end SctpSandbox
