import SctpSandbox.Arguments

/-! # Start-up: `runNetwork` and `createSocket`

The constructor of `NetworkConfiguration` builds its object in storage that holds something already.
Every member has an initialiser, except the protocol: without `-p` it keeps what is there.
`runNetwork` looks at it to choose between one network and the predefined three, and `createSocket`
to choose the socket. -/

namespace SctpSandbox

namespace NetworkProtocol

/-- The enumerators, in the order of their declaration, as the numbers that store them. -/
def toInt32 : NetworkProtocol → Int32
  | sctp => 0
  | tcp => 1
  | udp => 2
  | udpLite => 3
  | dccp => 4
  | unix => 5
  | unixForked => 6

end NetworkProtocol

/-- A `NetworkConfiguration` in its storage. The protocol is the number stored for it, which need
not be one of the enumerators. -/
structure StoredConfiguration where
  locals : List IPSocket
  remotes : List IPSocket
  protocol : Int32
  pathMtu : Int
  maxSeg : Int
  bigMsgSize : ℕ
  deriving DecidableEq

/-- `struct NetworkTaskParams`; the times are in milliseconds. -/
structure NetworkTaskParams where
  config : StoredConfiguration
  name : List Byte := ascii "network"
  delay : ℕ := 0
  lifetime : ℕ := 0
  deriving DecidableEq

/-- The socket `createSocket` makes, with the arguments of its constructor. -/
inductive CreatedSocket where
  | sctp (config : StoredConfiguration)
  | tcp (locals : List IPSocket)
  | udp (locals : List IPSocket) (protocol : ℕ)
  | dccp (locals : List IPSocket)
  | unix
  | unixForked
  deriving DecidableEq

namespace StoredConfiguration

/-- What the constructor leaves in the storage: its members, and the protocol as it was where it is
not set. -/
def write (prior : StoredConfiguration) (c : NetworkConfiguration) : StoredConfiguration where
  locals := c.locals
  remotes := c.remotes
  protocol := (c.protocol.map NetworkProtocol.toInt32).getD prior.protocol
  pathMtu := c.pathMtu
  maxSeg := c.maxSeg
  bigMsgSize := c.bigMsgSize

/-- `NetworkConfiguration::NetworkConfiguration(const Args&)`, in storage that holds `prior`. -/
def construct (I : Inet) (toLower : Arg → Arg) (args : List Arg) (prior : StoredConfiguration) :
    Except StoiError StoredConfiguration :=
  (NetworkConfiguration.ofArgs I toLower args).map prior.write

/-- `isUnix`. -/
def isUnix (protocol : Int32) : Bool :=
  protocol ∈ [NetworkProtocol.unix.toInt32, NetworkProtocol.unixForked.toInt32]

/-- `localhost`. -/
def localhost : IP := ascii "127.0.0.1"

/-- `s1_port`. -/
def s1Port : Port := 36412

/-- `x2_port`. -/
def x2Port : Port := 36422

/-- `runPredefinedConfig`: the tasks it starts. -/
def runPredefinedConfig (I : Inet) (config : StoredConfiguration) : List NetworkTaskParams :=
  let mme := { config with locals := config.locals ++ [.ofText I localhost s1Port] }
  let enb1 := { config with
    locals := config.locals ++ [.ofText I localhost x2Port]
    remotes := config.remotes ++ mme.locals.take 1 }
  let enb2 := { config with
    locals := config.locals ++ [.ofText I localhost (x2Port + 1)]
    remotes := (config.remotes ++ mme.locals.take 1 ++ enb1.locals).modifyLast fun s =>
      { s with port := s.port + 17 } }
  [{ config := mme, name := ascii "MME" },
    { config := enb1, name := ascii "eNB1", delay := 100 },
    { config := enb2, name := ascii "eNB2", delay := 200, lifetime := 13000 }]

/-- `runNetwork`: the tasks it starts. -/
def runNetwork (I : Inet) (config : StoredConfiguration) : List NetworkTaskParams :=
  if config.locals ≠ [] ∨ isUnix config.protocol then [{ config := config }]
  else runPredefinedConfig I config

/-- `IPPROTO_UDPLITE`. -/
def ipprotoUdplite : ℕ := 136

/-- `createSocket`. -/
def createSocket (config : StoredConfiguration) : CreatedSocket :=
  if config.protocol = NetworkProtocol.tcp.toInt32 then .tcp config.locals
  else if config.protocol = NetworkProtocol.udp.toInt32 then .udp config.locals 0
  else if config.protocol = NetworkProtocol.udpLite.toInt32 then .udp config.locals ipprotoUdplite
  else if config.protocol = NetworkProtocol.dccp.toInt32 then .dccp config.locals
  else if config.protocol = NetworkProtocol.unix.toInt32 then .unix
  else if config.protocol = NetworkProtocol.unixForked.toInt32 then .unixForked
  else .sctp config

/-- Storage that holds zeros. -/
def zeros : StoredConfiguration := ⟨[], [], 0, 0, 0, 0⟩

end StoredConfiguration

/-! ## Incomplete arguments -/

namespace NetworkConfiguration

open StoredConfiguration

variable {I : Inet} {toLower : Arg → Arg} {args : List Arg} {c : NetworkConfiguration}

/-- The constructor returns for complete groups only. -/
def RejectsIncomplete (I : Inet) (toLower : Arg → Arg) (args : List Arg) : Prop :=
  (∃ c, Accepts I toLower args c) → Complete args.tail

/-- **Incomplete arguments are accepted exactly when only the last one lacks its own** and all
numbers in front of it can be read: the loop ends before the last argument, whatever it is. -/
theorem rejectsIncomplete_iff (I : Inet) (toLower : Arg → Arg) (args : List Arg) :
    RejectsIncomplete I toLower args ↔ ¬ EndsShort args.tail := by
  cases args with
  | nil =>
      have hshort : ¬ EndsShort [] := by
        rintro ⟨gs, arg, -, -, h⟩
        exact absurd h.symm (List.append_ne_nil_of_right_ne_nil _ (List.cons_ne_nil arg []))
      exact ⟨fun _ => hshort, fun _ ⟨c, h⟩ => absurd rfl h.1⟩
  | cons program tokens =>
      constructor
      · rintro hreject ⟨gs, arg, hread, htakes, h⟩
        rw [List.tail_cons] at h
        subst h
        -- the loop stops in front of the last argument
        have haccept : ∃ c, Accepts I toLower _ c :=
          (accepts_iff_readable program gs (le_refl [arg].length)).mpr hread
        exact not_complete_singleton htakes ((complete_append_iff gs).mp (hreject haccept))
      · intro hshort haccept
        -- what is left over is one argument at most, and lacks its own
        obtain ⟨gs, rest, rfl, hrest, htakes⟩ := exists_groups tokens
        have hread := (accepts_iff_readable program gs hrest).mp haccept
        cases rest with
        | nil => exact ⟨gs, List.append_nil _⟩
        | cons arg rest =>
            have hnil : rest = [] := List.length_eq_zero_iff.mp (by simpa using hrest)
            subst hnil
            exact absurd ⟨gs, arg, hread, htakes arg List.mem_cons_self, rfl⟩ hshort

/-- A lone `127.0.0.1` is accepted: nothing is stored of it, and in storage that held zeros the
predefined networks are started. -/
theorem not_rejectsIncomplete :
    ¬ RejectsIncomplete Inet.reference asciiToLower [ascii "sctp_sandbox", ascii "127.0.0.1"] ∧
      construct Inet.reference asciiToLower [ascii "sctp_sandbox", ascii "127.0.0.1"] zeros =
        .ok zeros ∧
      runNetwork Inet.reference zeros = runPredefinedConfig Inet.reference zeros := by
  have hone : [ascii "127.0.0.1"].length ≤ 1 := le_rfl
  have hofArgs : ofArgs Inet.reference asciiToLower [ascii "sctp_sandbox", ascii "127.0.0.1"] =
      .ok {} := ofArgs_readAll (ascii "sctp_sandbox") [] hone
  refine ⟨?_, ?_, rfl⟩
  · intro hreject
    have htakes : TakesNext (ascii "127.0.0.1") := Or.inl (by decide)
    exact not_complete_singleton htakes (hreject ⟨{}, List.cons_ne_nil _ _, hofArgs⟩)
  · exact congrArg (Except.map zeros.write) hofArgs

/-! ## What was in the storage -/

/-- Start-up depends on the arguments alone. -/
structure StartsAlike (I : Inet) (toLower : Arg → Arg) (args : List Arg) : Prop where
  /-- Whatever the storage held, the members are the same, and so are the tasks and the socket. -/
  alike : ∀ prior prior' config config', construct I toLower args prior = .ok config →
    construct I toLower args prior' = .ok config' → config = config' ∧
      runNetwork I config = runNetwork I config' ∧ createSocket config = createSocket config'
  /-- Without `-p` the protocol is SCTP. -/
  sctp : ¬ GivesProtocol args.tail → ∀ prior config, construct I toLower args prior = .ok config →
    config.protocol = NetworkProtocol.sctp.toInt32

/-- Where the arguments are accepted, the constructor has set the protocol when they give it. -/
theorem Accepts.protocol_iff (h : Accepts I toLower args c) :
    GivesProtocol args.tail ↔ c.protocol.isSome = true := by
  obtain ⟨hne, hofArgs⟩ := h
  cases args with
  | nil => exact absurd rfl hne
  | cons program tokens =>
      -- the parser reads the groups, whatever token is left behind them
      obtain ⟨gs, rest, rfl, hrest, -⟩ := exists_groups tokens
      rw [ofArgs_readAll program gs hrest] at hofArgs
      cases hread : readAll I toLower gs (.locals, {}) with
      | error e => exact absurd (hread ▸ hofArgs) (by simp [Except.map])
      | ok st =>
          rw [hread] at hofArgs
          obtain rfl := Except.ok.inj hofArgs
          rw [List.tail_cons, givesProtocol_iff gs hrest, readAll_protocol gs hread]
          simp

/-- Accepted arguments are written over what the storage held. -/
theorem Accepts.construct (h : Accepts I toLower args c) (prior : StoredConfiguration) :
    construct I toLower args prior = .ok (prior.write c) := by
  rw [StoredConfiguration.construct, h.2]
  rfl

/-- A protocol that is set is stored, whatever the storage held; one that is not is what it held. -/
theorem write_protocol (c : NetworkConfiguration) :
    (∀ prior prior' : StoredConfiguration, prior.write c = prior'.write c) ↔
      c.protocol.isSome = true := by
  cases hc : c.protocol with
  | none =>
      refine ⟨fun h => ?_, fun h => Bool.noConfusion h⟩
      have hne := congrArg StoredConfiguration.protocol (h zeros { zeros with protocol := 1 })
      simp only [write, hc, Option.map_none, Option.getD_none] at hne
      exact absurd hne (by decide)
  | some p =>
      refine ⟨fun _ => rfl, fun _ prior prior' => ?_⟩
      simp only [write, hc, Option.map_some, Option.getD_some]

/-- **Start-up depends on the arguments alone exactly when they give the protocol**, by a `-p` in
the place of an option and a name behind it: an unknown one will do. -/
theorem startsAlike_iff (h : Accepts I toLower args c) :
    StartsAlike I toLower args ↔ GivesProtocol args.tail := by
  rw [h.protocol_iff, ← write_protocol]
  constructor
  · intro hstarts prior prior'
    exact (hstarts.alike prior prior' _ _ (h.construct prior) (h.construct prior')).1
  · intro hwrite
    -- what is written to the storage is all there is
    have halike : ∀ prior prior' config config', construct I toLower args prior = .ok config →
        construct I toLower args prior' = .ok config' → config = config' := by
      intro prior prior' config config' hconfig hconfig'
      rw [h.construct] at hconfig hconfig'
      rw [← Except.ok.inj hconfig, ← Except.ok.inj hconfig', hwrite prior prior']
    refine ⟨fun prior prior' config config' hconfig hconfig' => ?_, fun hno => ?_⟩
    · obtain rfl := halike prior prior' config config' hconfig hconfig'
      exact ⟨rfl, rfl, rfl⟩
    · exact absurd (h.protocol_iff.mpr ((write_protocol c).mp hwrite)) hno

/-- `127.0.0.1 36412 -p TCP`: TCP, from any storage. -/
theorem startsAlike_sample :
    StartsAlike Inet.reference asciiToLower
        [ascii "sctp_sandbox", ascii "127.0.0.1", ascii "36412", ascii "-p", ascii "TCP"] ∧
      ∀ prior, construct Inet.reference asciiToLower
          [ascii "sctp_sandbox", ascii "127.0.0.1", ascii "36412", ascii "-p", ascii "TCP"] prior =
        .ok { zeros with
          locals := [.ofText Inet.reference (ascii "127.0.0.1") 36412], protocol := 1 } := by
  have hofArgs : ofArgs Inet.reference asciiToLower
      [ascii "sctp_sandbox", ascii "127.0.0.1", ascii "36412", ascii "-p", ascii "TCP"] =
        .ok { locals := [.ofText Inet.reference (ascii "127.0.0.1") 36412],
              protocol := some .tcp } :=
    ofArgs_readAll (ascii "sctp_sandbox")
      [.endpoint (ascii "127.0.0.1") (ascii "36412") (by decide), .protocol (ascii "TCP")]
      (Nat.zero_le 1 : ([] : List Arg).length ≤ 1)
  have haccept : Accepts Inet.reference asciiToLower _ _ := ⟨List.cons_ne_nil _ _, hofArgs⟩
  refine ⟨(startsAlike_iff haccept).mpr ?_, fun prior => haccept.construct prior⟩
  exact ⟨[.endpoint (ascii "127.0.0.1") (ascii "36412") (by decide)], ascii "TCP", [], rfl⟩

/-- Without any argument, storage that holds the number of `Unix` makes it one Unix network, and
storage that holds zeros the predefined three, of SCTP. -/
theorem not_startsAlike :
    ¬ StartsAlike Inet.reference asciiToLower [ascii "sctp_sandbox"] ∧
      construct Inet.reference asciiToLower [ascii "sctp_sandbox"] zeros = .ok zeros ∧
      (runNetwork Inet.reference zeros).length = 3 ∧ createSocket zeros = .sctp zeros ∧
      construct Inet.reference asciiToLower [ascii "sctp_sandbox"] { zeros with protocol := 5 } =
        .ok { zeros with protocol := 5 } ∧
      (runNetwork Inet.reference { zeros with protocol := 5 }).length = 1 ∧
      createSocket { zeros with protocol := 5 } = .unix := by
  have hofArgs : ofArgs Inet.reference asciiToLower [ascii "sctp_sandbox"] = .ok {} :=
    ofArgs_readAll (ascii "sctp_sandbox") [] (Nat.zero_le 1 : ([] : List Arg).length ≤ 1)
  have haccept : Accepts Inet.reference asciiToLower [ascii "sctp_sandbox"] {} :=
    ⟨List.cons_ne_nil _ _, hofArgs⟩
  refine ⟨fun hstarts => ?_, haccept.construct zeros, rfl, rfl, haccept.construct _, rfl, rfl⟩
  have hsame := hstarts.alike zeros { zeros with protocol := 5 } _ _ (haccept.construct _)
    (haccept.construct _)
  exact absurd (congrArg StoredConfiguration.protocol hsame.1) (by decide)

end NetworkConfiguration

end SctpSandbox
