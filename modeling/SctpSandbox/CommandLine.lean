import SctpSandbox.Arguments

/-! # Writing a configuration as arguments

`render` writes a configuration as the arguments of a command line. The constructor reads it back
(`ofArgs_render`) exactly if any arguments give it at all (`writable_iff_accepted`): its addresses
do not look like options and have the family that is detected for them, and its numbers fit an
`int`. So what a command line means can always be written in this one form. -/

namespace SctpSandbox

namespace NetworkConfiguration

variable {I : Inet} {toLower : Arg → Arg} {filling : Filling} {c c' : NetworkConfiguration}
  {g : ArgGroup} {gs : List ArgGroup} {s : IPSocket} {st st' st'' : Filling × NetworkConfiguration}
  {tokens tokens' : List Arg}

/-! ## What is written -/

/-- The name of a protocol. -/
def protocolName : NetworkProtocol → Arg
  | .sctp => ascii "sctp"
  | .tcp => ascii "tcp"
  | .udp => ascii "udp"
  | .udpLite => ascii "udp_lite"
  | .dccp => ascii "dccp"
  | .unix => ascii "unix"
  | .unixForked => ascii "fork"

/-- An address and its port. -/
def renderEndpoint (s : IPSocket) : List Arg := [s.addr, (Numeral.ofInt s.port.toNat).text]

/-- The protocol, if it is set. -/
def renderProtocol : Option NetworkProtocol → List Arg
  | none => []
  | some p => [ascii "-p", protocolName p]

/-- An option with its number. -/
def renderOption (o : IntOption) (n : Int) : List Arg := [o.flag, (Numeral.ofInt n).text]

/-- A number from which the conversion to `Size` makes this one. -/
def ofSize (k : ℕ) : Int := if k < 2 ^ 63 then k else k - 2 ^ 64

/-- The arguments that stand for a configuration, behind the name of the program. -/
def render (c : NetworkConfiguration) : List Arg :=
  c.locals.flatMap renderEndpoint ++ (renderProtocol c.protocol ++ (renderOption .mtu c.pathMtu ++
    (renderOption .seg c.maxSeg ++ (renderOption .msg (ofSize c.bigMsgSize) ++
      (ascii "-r" :: c.remotes.flatMap renderEndpoint)))))

/-- The constructor could have made the endpoint of an address that does not look like an
option. -/
structure Spelled (I : Inet) (s : IPSocket) : Prop where
  nonempty : s.addr ≠ []
  dashless : s.addr.head? ≠ some 45
  family : s.family = IPSocket.detectFamily I s.addr

/-- Arguments can stand for the configuration. -/
structure Writable (I : Inet) (c : NetworkConfiguration) : Prop where
  locals : ∀ s ∈ c.locals, Spelled I s
  remotes : ∀ s ∈ c.remotes, Spelled I s
  pathMtu : InIntRange c.pathMtu
  maxSeg : InIntRange c.maxSeg
  bigMsgSize : ∃ n, InIntRange n ∧ toSize n = c.bigMsgSize

/-! ## Reading it back -/

/-- An `int` survives the way to `size_t` and back. -/
theorem toSize_ofSize {n : Int} (h : InIntRange n) :
    InIntRange (ofSize (toSize n)) ∧ toSize (ofSize (toSize n)) = toSize n := by
  have hsize : ofSize (toSize n) = n := by
    obtain ⟨hlow, hhigh⟩ := h
    rw [ofSize, toSize]
    split <;> omega
  rw [hsize]
  exact ⟨h, rfl⟩

/-- A port's number is read as this port. -/
theorem toPort_toNat (p : Port) : toPort p.toNat = p := by
  have hlt : p.toNat < 65536 := p.toNat_lt
  rw [toPort, Int.emod_eq_of_lt (Int.natCast_nonneg _) (by omega), Int.toNat_natCast]
  exact UInt16.ofNat_toNat

/-- The names are those that the constructor knows. -/
theorem getProtocol_protocolName (hlower : ∀ p, toLower (protocolName p) = protocolName p)
    (p : NetworkProtocol) : getProtocol toLower (protocolName p) = p := by
  rw [getProtocol, hlower]
  cases p <;> decide

/-- Groups with these arguments make `st'` of `st`. -/
def Renders (I : Inet) (toLower : Arg → Arg) (st : Filling × NetworkConfiguration)
    (tokens : List Arg) (st' : Filling × NetworkConfiguration) : Prop :=
  ∃ gs : List ArgGroup, gs.flatMap ArgGroup.tokens = tokens ∧ readAll I toLower gs st = .ok st'

/-- Nothing written, nothing changed. -/
theorem Renders.nil (st : Filling × NetworkConfiguration) : Renders I toLower st [] st :=
  ⟨[], rfl, rfl⟩

/-- Renderings in a row compose. -/
theorem Renders.append (h : Renders I toLower st tokens st')
    (h' : Renders I toLower st' tokens' st'') :
    Renders I toLower st (tokens ++ tokens') st'' := by
  obtain ⟨gs, rfl, hgs⟩ := h
  obtain ⟨gs', rfl, hgs'⟩ := h'
  refine ⟨gs ++ gs', List.flatMap_append, ?_⟩
  rw [readAll] at hgs hgs' ⊢
  rw [List.foldlM_append, hgs]
  exact hgs'

/-- One group. -/
theorem Renders.of_read (h : read I toLower st g = .ok st') :
    Renders I toLower st g.tokens st' := by
  refine ⟨[g], List.append_nil _, ?_⟩
  rw [readAll, List.foldlM_cons, h]
  rfl

/-- An address with its port is read into the list being filled. -/
theorem renders_endpoint (f : Filling) (c : NetworkConfiguration) (h : Spelled I s) :
    Renders I toLower (f, c) (renderEndpoint s) (f, c.pushBack f s) := by
  have hrange : InIntRange s.port.toNat := by
    have hlt : s.port.toNat < 65536 := s.port.toNat_lt
    exact ⟨by omega, by omega⟩
  have hs : IPSocket.ofText I s.addr s.port = s := by
    rw [IPSocket.ofText, ← h.family]
  refine Renders.of_read (g := .endpoint s.addr (Numeral.ofInt s.port.toNat).text h.dashless) ?_
  rw [read, Numeral.stoi_ofInt hrange]
  show Except.ok (f, c.pushBack f (.ofText I s.addr (toPort s.port.toNat))) = _
  rw [toPort_toNat, hs]

/-- The protocol is read as written. -/
theorem renders_protocol (f : Filling) (c : NetworkConfiguration) (p : Option NetworkProtocol)
    (hlower : ∀ p, toLower (protocolName p) = protocolName p) (h : c.protocol = none) :
    Renders I toLower (f, c) (renderProtocol p) (f, { c with protocol := p }) := by
  cases p with
  | none =>
      have hc : { c with protocol := none } = c := by rw [← h]
      rw [hc]
      exact .nil _
  | some p =>
      refine Renders.of_read (g := .protocol (protocolName p)) ?_
      rw [read, getProtocol_protocolName hlower]
      rfl

/-- An option is read with its number, when that is in the range of `int`. -/
theorem renders_option (f : Filling) (c : NetworkConfiguration) (o : IntOption) {n : Int}
    (h : InIntRange n) : Renders I toLower (f, c) (renderOption o n) (f, c.setOption o n) := by
  refine Renders.of_read (g := .int o (Numeral.ofInt n).text) ?_
  rw [read, Numeral.stoi_ofInt h]
  rfl

/-- The flag of the remotes switches the list being filled. -/
theorem renders_remotes (f : Filling) (c : NetworkConfiguration) :
    Renders I toLower (f, c) [ascii "-r"] (.remotes, c) :=
  Renders.of_read (g := .single (ascii "-r") (by decide)) rfl

/-- The addresses of one list, one after the other. -/
def addAll (c : NetworkConfiguration) (ss : List IPSocket) : Filling → NetworkConfiguration
  | .locals => { c with locals := c.locals ++ ss }
  | .remotes => { c with remotes := c.remotes ++ ss }

/-- A list of endpoints is read into the list being filled, in its order. -/
theorem renders_endpoints (f : Filling) (c : NetworkConfiguration) {ss : List IPSocket}
    (h : ∀ s ∈ ss, Spelled I s) :
    Renders I toLower (f, c) (ss.flatMap renderEndpoint) (f, c.addAll ss f) := by
  induction ss generalizing c with
  | nil =>
      have hc : c.addAll [] f = c := by cases f <;> simp [addAll]
      rw [hc]
      exact .nil _
  | cons s ss ih =>
      -- the first endpoint is pushed before the others
      have hc : c.addAll (s :: ss) f = (c.pushBack f s).addAll ss f := by
        cases f <;> simp [addAll, pushBack]
      rw [List.flatMap_cons, hc]
      exact (renders_endpoint f c (h s List.mem_cons_self)).append
        (ih _ fun s' hs' => h s' (List.mem_cons_of_mem s hs'))

/-- **What is written is read back.** -/
theorem ofArgs_render (hlower : ∀ p, toLower (protocolName p) = protocolName p) (program : Arg)
    (h : Writable I c) : ofArgs I toLower (program :: render c) = .ok c := by
  obtain ⟨n, hn, hsize⟩ := h.bigMsgSize
  obtain ⟨hrange, htoSize⟩ := toSize_ofSize hn
  rw [hsize] at hrange htoSize
  have hlocals : Renders I toLower (.locals, {}) (c.locals.flatMap renderEndpoint)
      (.locals, addAll {} c.locals .locals) := renders_endpoints .locals {} h.locals
  -- the tokens in the order of `render`, each read from where the last one left off
  have hrenders := hlocals.append ((renders_protocol .locals _ c.protocol hlower rfl).append
      ((renders_option .locals _ .mtu h.pathMtu).append
        ((renders_option .locals _ .seg h.maxSeg).append
          ((renders_option .locals _ .msg hrange).append
            ((renders_remotes .locals _).append (renders_endpoints .remotes _ h.remotes))))))
  obtain ⟨gs, htokens, hgs⟩ := hrenders
  have hread : ofArgs I toLower (program :: (gs.flatMap ArgGroup.tokens ++ [])) =
      (readAll I toLower gs (.locals, {})).map Prod.snd :=
    ofArgs_readAll program gs (Nat.zero_le 1)
  rw [List.append_nil, htokens, hgs] at hread
  refine hread.trans (congrArg Except.ok ?_)
  -- all fields are as they were; the size went through `int` and back
  exact NetworkConfiguration.ext rfl rfl rfl rfl rfl htoSize

/-! ## What can be written -/

/-- An endpoint the parser adds keeps the configuration writable. -/
theorem Writable.pushBack (h : Writable I c) (f : Filling) (hs : Spelled I s) :
    Writable I (c.pushBack f s) := by
  have hadded : ∀ ss : List IPSocket, (∀ s' ∈ ss, Spelled I s') →
      ∀ s' ∈ ss ++ [s], Spelled I s' := by
    intro ss hss s' hs'
    rcases List.mem_append.mp hs' with hs' | hs'
    · exact hss s' hs'
    · exact List.mem_singleton.mp hs' ▸ hs
  cases f with
  | locals => exact { h with locals := hadded _ h.locals }
  | remotes => exact { h with remotes := hadded _ h.remotes }

/-- An option in the range of `int` keeps the configuration writable. -/
theorem Writable.setOption (h : Writable I c) (o : IntOption) {n : Int} (hn : InIntRange n) :
    Writable I (c.setOption o n) := by
  cases o with
  | mtu => exact { h with pathMtu := hn }
  | seg => exact { h with maxSeg := hn }
  | msg => exact { h with bigMsgSize := ⟨n, hn, rfl⟩ }

/-- Each group keeps to what can be written. -/
theorem writable_read (h : Writable I st.2) (hread : read I toLower st g = .ok st')
    (hne : [] ∉ g.tokens) : Writable I st'.2 := by
  cases g with
  | endpoint addr port haddr =>
      rw [read] at hread
      cases hport : stoi port with
      | error e => exact absurd (hport ▸ hread) (by simp [bind, Except.bind])
      | ok n =>
          rw [hport] at hread
          obtain rfl := Except.ok.inj hread
          refine h.pushBack st.1 ⟨?_, haddr, rfl⟩
          rintro rfl
          exact hne List.mem_cons_self
  | protocol name =>
      obtain rfl := Except.ok.inj hread
      exact { h with }
  | int o value =>
      rw [read] at hread
      cases hvalue : stoi value with
      | error e => exact absurd (hvalue ▸ hread) (by simp [bind, Except.bind])
      | ok n =>
          rw [hvalue] at hread
          obtain rfl := Except.ok.inj hread
          exact h.setOption o (inIntRange_of_stoi hvalue)
  | single flag hsingle =>
      obtain rfl := Except.ok.inj hread
      exact h

/-- A whole successful reading of non-empty tokens keeps the configuration writable. -/
theorem writable_readAll (h : Writable I st.2) (hread : readAll I toLower gs st = .ok st')
    (hne : [] ∉ gs.flatMap ArgGroup.tokens) : Writable I st'.2 := by
  induction gs generalizing st with
  | nil =>
      obtain rfl := Except.ok.inj hread
      exact h
  | cons g gs ih =>
      obtain ⟨st₁, hfirst, hrest⟩ := readAll_cons_ok hread
      rw [List.flatMap_cons, List.mem_append, not_or] at hne
      exact ih (writable_read h hfirst hne.1) hrest hne.2

/-- Without any argument there is nothing that cannot be written. -/
theorem writable_default : Writable I {} :=
  ⟨by simp, by simp, by decide, by decide, 0, by decide, rfl⟩

/-- What the constructor makes of arguments can be written. -/
theorem writable_of_ofArgs {program : Arg} (hne : [] ∉ tokens)
    (h : ofArgs I toLower (program :: tokens) = .ok c) : Writable I c := by
  obtain ⟨rest, htokens, -, -⟩ := groupsOf_spec tokens
  rw [ofArgs_groupsOf] at h
  cases hread : readAll I toLower (groupsOf tokens) (.locals, {}) with
  | error e => exact absurd (hread ▸ h) (by simp [Except.map])
  | ok st =>
      rw [hread] at h
      obtain rfl := Except.ok.inj h
      refine writable_readAll writable_default hread fun hmem => hne ?_
      rw [htokens]
      exact List.mem_append_left rest hmem

/-- No token written for an endpoint is empty. -/
theorem nil_notMem_renderEndpoint (h : Spelled I s) : [] ∉ renderEndpoint s := by
  intro hmem
  rcases List.mem_cons.mp hmem with haddr | hport
  · exact h.nonempty haddr.symm
  · exact Numeral.text_ne_nil _ (List.mem_singleton.mp hport).symm

/-- No token written for an option is empty. -/
theorem nil_notMem_renderOption (o : IntOption) (n : Int) : [] ∉ renderOption o n := by
  intro hmem
  rcases List.mem_cons.mp hmem with hflag | hvalue
  · cases o <;> exact absurd hflag (by decide)
  · exact Numeral.text_ne_nil _ (List.mem_singleton.mp hvalue).symm

/-- No token written for the protocol is empty. -/
theorem nil_notMem_renderProtocol (p : Option NetworkProtocol) : [] ∉ renderProtocol p := by
  cases p with
  | none => exact List.not_mem_nil
  | some p => cases p <;> decide

/-- No argument of what is written is empty. -/
theorem nil_notMem_render (h : Writable I c) : [] ∉ render c := by
  have hendpoints : ∀ ss : List IPSocket, (∀ s ∈ ss, Spelled I s) →
      [] ∉ ss.flatMap renderEndpoint := by
    intro ss hss hmem
    obtain ⟨s, hs, hs'⟩ := List.mem_flatMap.mp hmem
    exact nil_notMem_renderEndpoint (hss s hs) hs'
  simp only [render, List.mem_append, List.mem_cons, not_or]
  exact ⟨hendpoints _ h.locals, nil_notMem_renderProtocol _, nil_notMem_renderOption _ _,
    nil_notMem_renderOption _ _, nil_notMem_renderOption _ _, by decide,
    hendpoints _ h.remotes⟩

/-- **Every command line can be written in one form.** A configuration is what some arguments stand
for exactly if it can be written, and then the arguments written for it stand for it. -/
theorem writable_iff_accepted (hlower : ∀ p, toLower (protocolName p) = protocolName p)
    (program : Arg) (c : NetworkConfiguration) :
    (Writable I c ↔ ∃ tokens, [] ∉ tokens ∧ ofArgs I toLower (program :: tokens) = .ok c) ∧
    (Writable I c → [] ∉ render c ∧ ofArgs I toLower (program :: render c) = .ok c) := by
  have hrender : Writable I c →
      [] ∉ render c ∧ ofArgs I toLower (program :: render c) = .ok c := fun h =>
    ⟨nil_notMem_render h, ofArgs_render hlower program h⟩
  exact ⟨⟨fun h => ⟨render c, hrender h⟩, fun ⟨_, hne, h⟩ => writable_of_ofArgs hne h⟩, hrender⟩

/-- An endpoint that is written and read back, with a size that does not fit an `int`: it is written
as the negative number that becomes it. -/
theorem writable_iff_accepted_sample :
    render { locals := [.ofText Inet.reference (ascii "127.0.0.1") 36412], protocol := some .tcp
             bigMsgSize := 2 ^ 64 - 1 } =
      [ascii "127.0.0.1", ascii "36412", ascii "-p", ascii "tcp", ascii "-mtu", ascii "0",
        ascii "-seg", ascii "0", ascii "-msg", ascii "-1", ascii "-r"] ∧
    ofArgs Inet.reference asciiToLower (ascii "sctp_sandbox" :: [ascii "127.0.0.1",
        ascii "36412", ascii "-p", ascii "tcp", ascii "-mtu", ascii "0", ascii "-seg", ascii "0",
        ascii "-msg", ascii "-1", ascii "-r"]) =
      .ok { locals := [.ofText Inet.reference (ascii "127.0.0.1") 36412], protocol := some .tcp
            bigMsgSize := 2 ^ 64 - 1 } := by
  -- the largest size is written as -1
  have hrender : render { locals := [.ofText Inet.reference (ascii "127.0.0.1") 36412]
                          protocol := some .tcp, bigMsgSize := 2 ^ 64 - 1 } =
      [ascii "127.0.0.1", ascii "36412", ascii "-p", ascii "tcp", ascii "-mtu", ascii "0",
        ascii "-seg", ascii "0", ascii "-msg", ascii "-1", ascii "-r"] := by decide +kernel
  refine ⟨hrender, ?_⟩
  rw [← hrender]
  refine ((writable_iff_accepted (fun p => ?_) (ascii "sctp_sandbox") _).2 ?_).2
  · cases p <;> decide
  · refine ⟨fun s hs => ?_, by simp, by decide, by decide, -1, by decide, by decide⟩
    obtain rfl := List.mem_singleton.mp hs
    exact ⟨by decide, by decide, rfl⟩

end NetworkConfiguration

end SctpSandbox
