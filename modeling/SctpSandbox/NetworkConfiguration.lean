import SctpSandbox.IPSocket
import SctpSandbox.Lib.Numeral

/-! # The command line: `NetworkConfiguration`

The constructor runs over the arguments with an index that its body advances as well, by the value
of an option or the port of an address. It stops one argument before the end, and fills the local
addresses until `-r` makes it fill the remote ones. `Group` is what the arguments are made of when
every option has its value and every address its port; `ofArgs_groups` says what the
constructor makes of any sequence of groups.

`toLower` comes from a library of its own and is a parameter. -/

namespace SctpSandbox

/-- `enum class NetworkProtocol`. -/
inductive NetworkProtocol where
  | sctp
  | tcp
  | udp
  | udpLite
  | dccp
  | unix
  | unixForked
  deriving DecidableEq

/-- `using Arg = std::string`. -/
abbrev Arg := List Byte

/-- `struct NetworkConfiguration`. The protocol has no initialiser: `none` is a protocol that was
not set. -/
@[ext] structure NetworkConfiguration where
  locals : List IPSocket := []
  remotes : List IPSocket := []
  protocol : Option NetworkProtocol := none
  pathMtu : Int := 0
  maxSeg : Int := 0
  bigMsgSize : ℕ := 0

/-- What `filling` points to. -/
inductive Filling where
  | locals
  | remotes
  deriving DecidableEq

namespace NetworkConfiguration

/-- The names in `getProtocol`. -/
def protocolNames : List (Arg × NetworkProtocol) :=
  [(ascii "sctp", .sctp), (ascii "tcp", .tcp), (ascii "udp", .udp), (ascii "udp_lite", .udpLite),
    (ascii "dccp", .dccp), (ascii "unix", .unix), (ascii "fork", .unixForked)]

/-- `getProtocol`. The subscript of the map makes an unknown name the first protocol. -/
def getProtocol (toLower : Arg → Arg) (arg : Arg) : NetworkProtocol :=
  (protocolNames.lookup (toLower arg)).getD .sctp

/-- `filling->push_back(ip_socket)`. -/
def pushBack (c : NetworkConfiguration) (filling : Filling) (s : IPSocket) :
    NetworkConfiguration :=
  match filling with
  | .locals => { c with locals := c.locals ++ [s] }
  | .remotes => { c with remotes := c.remotes ++ [s] }

/-- `static_cast<Port>`. -/
def toPort (n : Int) : Port := UInt16.ofNat (n % 65536).toNat

/-- The conversion of an `int` to `Size`. -/
def toSize (n : Int) : ℕ := (n % 2 ^ 64).toNat

/-- The options with a number. -/
inductive IntOption where
  | mtu
  | seg
  | msg
  deriving DecidableEq

/-- How an option is written. -/
def IntOption.flag : IntOption → Arg
  | .mtu => ascii "-mtu"
  | .seg => ascii "-seg"
  | .msg => ascii "-msg"

/-- The assignment an option makes. -/
def setOption (c : NetworkConfiguration) : IntOption → Int → NetworkConfiguration
  | .mtu, n => { c with pathMtu := n }
  | .seg, n => { c with maxSeg := n }
  | .msg, n => { c with bigMsgSize := toSize n }

/-- The loop of the constructor, from index `i` on. The program has fewer arguments than `int` has
numbers, so the index does not wrap, and `args[++i]` is never behind the end: the loop stops at the
last argument. -/
def loop (I : Inet) (toLower : Arg → Arg) (args : List Arg) (i : ℕ) (filling : Filling)
    (c : NetworkConfiguration) : Except StoiError NetworkConfiguration :=
  if _ : i < args.length - 1 then
    let arg := args.getD i []
    let next := args.getD (i + 1) []
    if arg.head? = some 45 then
      if arg = ascii "-p" then
        loop I toLower args (i + 2) filling { c with protocol := some (getProtocol toLower next) }
      else if arg = ascii "-mtu" then do
        let n ← stoi next
        loop I toLower args (i + 2) filling (c.setOption .mtu n)
      else if arg = ascii "-seg" then do
        let n ← stoi next
        loop I toLower args (i + 2) filling (c.setOption .seg n)
      else if arg = ascii "-msg" then do
        let n ← stoi next
        loop I toLower args (i + 2) filling (c.setOption .msg n)
      else if arg = ascii "-r" then loop I toLower args (i + 1) .remotes c
      else loop I toLower args (i + 1) filling c
    else do
      let port ← stoi next
      loop I toLower args (i + 2) filling (c.pushBack filling (.ofText I arg (toPort port)))
  else .ok c
termination_by args.length - i

/-- `NetworkConfiguration::NetworkConfiguration(const Args&)`. The first argument is the name of the
program, so `args.size() - 1` does not wrap. -/
def ofArgs (I : Inet) (toLower : Arg → Arg) (args : List Arg) :
    Except StoiError NetworkConfiguration :=
  loop I toLower args 1 .locals {}

/-! ## Groups of arguments -/

/-- A complete group of arguments. -/
inductive Group where
  /-- An address that does not look like an option, and a port. -/
  | endpoint (addr : Arg) (port : Numeral) (haddr : addr ≠ [] ∧ addr.head? ≠ some 45)
    (hport : 0 ≤ port.value ∧ port.value ≤ 65535)
  /-- `-p` and a name. -/
  | protocol (name : Arg)
  /-- `-mtu`, `-seg` or `-msg`, and a number. -/
  | int (o : IntOption) (n : Numeral) (hn : InIntRange n.value) (hmsg : o = .msg → 0 ≤ n.value)
  /-- `-r`. -/
  | remotes
  /-- Any other argument that looks like an option. -/
  | flag (arg : Arg) (hdash : arg.head? = some 45)
    (hother : arg ∉ [ascii "-p", ascii "-mtu", ascii "-seg", ascii "-msg", ascii "-r"])

namespace Group

/-- The arguments of a group. -/
def tokens : Group → List Arg
  | endpoint addr port _ _ => [addr, port.text]
  | protocol name => [ascii "-p", name]
  | int o n _ _ => [o.flag, n.text]
  | remotes => [ascii "-r"]
  | flag arg _ _ => [arg]

/-- The group is `-r`. -/
def isRemotes : Group → Bool
  | remotes => true
  | _ => false

/-- The endpoint a group names. -/
def endpoint? (I : Inet) : Group → Option IPSocket
  | endpoint addr port _ _ => some (.ofText I addr (UInt16.ofNat port.value.toNat))
  | _ => none

/-- The name a group gives the protocol. -/
def protocol? : Group → Option Arg
  | protocol name => some name
  | _ => none

/-- The number a group gives an option. -/
def int? (o : IntOption) : Group → Option Int
  | int o' n _ _ => if o' = o then some n.value else none
  | _ => none

/-- The configuration groups of arguments stand for: the endpoints before the first `-r` and those
behind it, and the last value of each option. -/
def meaning (I : Inet) (toLower : Arg → Arg) (gs : List Group) : NetworkConfiguration where
  locals := (gs.takeWhile (!·.isRemotes)).filterMap (endpoint? I)
  remotes := (gs.dropWhile (!·.isRemotes)).filterMap (endpoint? I)
  protocol := (gs.filterMap protocol?).getLast?.map (getProtocol toLower)
  pathMtu := (gs.filterMap (int? .mtu)).getLast?.getD 0
  maxSeg := (gs.filterMap (int? .seg)).getLast?.getD 0
  bigMsgSize := ((gs.filterMap (int? .msg)).getLast?.getD 0).toNat

/-- What a group is about: one of the address lists, one option, or nothing. -/
inductive Kind where
  | addresses
  | protocol
  | int (o : IntOption)
  | other
  deriving DecidableEq

/-- The kind of a group. -/
def kind : Group → Kind
  | endpoint _ _ _ _ => .addresses
  | protocol _ => .protocol
  | int o _ _ _ => .int o
  | remotes => .addresses
  | flag _ _ _ => .other

/-- The groups of one kind, in order. -/
def ofKind (k : Kind) (gs : List Group) : List Group := gs.filter fun g => g.kind = k

end Group

/-! ## One group -/

variable {I : Inet} {toLower : Arg → Arg} {args rest : List Arg} {i : ℕ} {filling : Filling}
  {c : NetworkConfiguration} {g : Group} {gs : List Group}

/-- What a group changes. -/
def apply (I : Inet) (toLower : Arg → Arg) (st : Filling × NetworkConfiguration) :
    Group → Filling × NetworkConfiguration
  | .endpoint addr port _ _ => (st.1, st.2.pushBack st.1 (.ofText I addr (toPort port.value)))
  | .protocol name => (st.1, { st.2 with protocol := some (getProtocol toLower name) })
  | .int o n _ _ => (st.1, st.2.setOption o n.value)
  | .remotes => (.remotes, st.2)
  | .flag _ _ _ => st

/-- The loop stops at the last argument. -/
theorem loop_stop (h : args.length ≤ i + 1) : loop I toLower args i filling c = .ok c := by
  rw [loop, dif_neg (by omega)]

/-- The argument at the index and those behind it. -/
theorem getD_of_drop {t : Arg} (h : args.drop i = t :: rest) :
    args.getD i [] = t ∧ args.drop (i + 1) = rest ∧ args.length = i + (rest.length + 1) := by
  have hlen : i < args.length := by
    by_contra hi
    rw [List.drop_eq_nil_of_le (Nat.le_of_not_lt hi)] at h
    exact List.cons_ne_nil _ _ h.symm
  rw [List.drop_eq_getElem_cons hlen] at h
  obtain ⟨h₁, h₂⟩ := List.cons.inj h
  refine ⟨?_, h₂, ?_⟩
  · rw [List.getD_eq_getElem?_getD, List.getElem?_eq_getElem hlen, Option.getD_some, h₁]
  · rw [← h₂, List.length_drop]
    omega

/-- An argument that is not the last one, and the one behind it. -/
theorem getD_of_drop_pair {t v : Arg} (h : args.drop i = t :: v :: rest) :
    i < args.length - 1 ∧ args.getD i [] = t ∧ args.getD (i + 1) [] = v := by
  obtain ⟨harg, hdrop, hlen⟩ := getD_of_drop h
  obtain ⟨hnext, -, -⟩ := getD_of_drop hdrop
  rw [List.length_cons] at hlen
  exact ⟨by omega, harg, hnext⟩

/-- The last argument is not looked at, any other option without a value is. -/
theorem loop_single {t : Arg} (h : args.drop i = t :: rest) (hdash : t.head? = some 45)
    (hvalue : t ∉ [ascii "-p", ascii "-mtu", ascii "-seg", ascii "-msg"]) :
    loop I toLower args i filling c =
      loop I toLower args (i + 1) (if rest ≠ [] ∧ t = ascii "-r" then .remotes else filling) c := by
  simp only [List.mem_cons, List.not_mem_nil, or_false, not_or] at hvalue
  obtain ⟨hp, hmtu, hseg, hmsg⟩ := hvalue
  -- the flag is the last argument: the loop stops there, or behind it
  cases rest with
  | nil =>
      obtain ⟨-, -, hlen⟩ := getD_of_drop h
      rw [List.length_nil] at hlen
      rw [loop_stop (by omega), loop_stop (by omega)]
  | cons v rest =>
      obtain ⟨hlt, harg, -⟩ := getD_of_drop_pair h
      rw [loop, dif_pos hlt]
      -- of the flags only that of the remotes does something
      simp only [harg, if_pos hdash, if_neg hp, if_neg hmtu, if_neg hseg, if_neg hmsg]
      by_cases hr : t = ascii "-r"
      · rw [if_pos hr, if_pos ⟨List.cons_ne_nil _ _, hr⟩]
      · rw [if_neg hr, if_neg fun h => hr h.2]

/-- An option's flag begins with a hyphen. -/
theorem flag_head (o : IntOption) : o.flag.head? = some 45 := by cases o <;> rfl

/-- An option's flag is not the protocol's. -/
theorem flag_ne_p (o : IntOption) : o.flag ≠ ascii "-p" := by cases o <;> decide

/-- **The loop takes one group at a time**, and goes on behind it. Where the last group is an option
without a value, the loop has ended before it. -/
theorem loop_group (h : args.drop i = g.tokens ++ rest) :
    loop I toLower args i filling c = loop I toLower args (i + g.tokens.length)
      (if rest = [] then filling else (apply I toLower (filling, c) g).1)
      (apply I toLower (filling, c) g).2 := by
  cases g with
  | endpoint addr port haddr hport =>
      obtain ⟨hlt, harg, hnext⟩ := getD_of_drop_pair h
      -- a port fits an `int`
      have hint : InIntRange port.value := ⟨by omega, by omega⟩
      rw [loop, dif_pos hlt]
      simp only [harg, hnext, if_neg haddr.2, Numeral.stoi_text port hint, apply, ite_self]
      rfl
  | protocol name =>
      obtain ⟨hlt, harg, hnext⟩ := getD_of_drop_pair h
      rw [loop, dif_pos hlt]
      simp only [harg, hnext, apply, ite_self]
      rfl
  | int o n hn hmsg =>
      obtain ⟨hlt, harg, hnext⟩ := getD_of_drop_pair h
      rw [loop, dif_pos hlt]
      simp only [harg, hnext, if_pos (flag_head o), if_neg (flag_ne_p o), Numeral.stoi_text n hn,
        apply, ite_self]
      cases o <;> rfl
  | remotes =>
      rw [loop_single h rfl (by decide)]
      cases rest with
      | nil => rfl
      | cons t rest => rfl
  | flag arg hdash hother =>
      have hr : arg ≠ ascii "-r" := fun heq => hother (heq ▸ by simp)
      have hvalue : arg ∉ [ascii "-p", ascii "-mtu", ascii "-seg", ascii "-msg"] := fun hmem =>
        hother (List.mem_append_left [ascii "-r"] hmem)
      rw [loop_single h hdash hvalue, if_neg fun h => hr h.2]
      simp only [apply, ite_self]
      rfl

/-! ## All groups -/

/-- A group has at least its first token. -/
theorem Group.tokens_ne_nil (g : Group) : g.tokens ≠ [] := by
  cases g <;> exact List.cons_ne_nil _ _

/-- The loop makes of a sequence of groups what the groups change one after the other. -/
theorem loop_groups (gs : List Group) (h : args.drop i = gs.flatMap Group.tokens) :
    loop I toLower args i filling c = .ok (gs.foldl (apply I toLower) (filling, c)).2 := by
  induction gs generalizing i filling c with
  | nil =>
      have hlen : args.length ≤ i := List.drop_eq_nil_iff.mp h
      rw [loop_stop (Nat.le_succ_of_le hlen)]
      rfl
  | cons g gs ih =>
      rw [List.flatMap_cons] at h
      have hdrop : args.drop (i + g.tokens.length) = gs.flatMap Group.tokens := by
        rw [← List.drop_drop, h, List.drop_left]
      rw [loop_group h, ih hdrop, List.foldl_cons]
      -- behind the last group nothing is filled any more
      cases gs with
      | nil => rfl
      | cons g' gs =>
          have hne : (g' :: gs).flatMap Group.tokens ≠ [] := by
            rw [List.flatMap_cons]
            exact fun hnil => g'.tokens_ne_nil (List.append_eq_nil_iff.mp hnil).1
          rw [if_neg hne]

/-- A port in range is kept by the cast. -/
theorem toPort_eq {n : Int} (h : 0 ≤ n ∧ n ≤ 65535) : toPort n = UInt16.ofNat n.toNat := by
  rw [toPort, Int.emod_eq_of_lt h.1 (by omega)]

/-- A number that is not negative is stored as itself. -/
theorem toSize_eq {n : Int} (h₀ : 0 ≤ n) (h : InIntRange n) : toSize n = n.toNat := by
  have hlt : n < 2 ^ 64 := by
    have := h.2
    omega
  rw [toSize, Int.emod_eq_of_lt h₀ hlt]

/-- The number of an option. -/
def getOption (c : NetworkConfiguration) : IntOption → Int
  | .mtu => c.pathMtu
  | .seg => c.maxSeg
  | .msg => c.bigMsgSize

/-- An endpoint changes no option. -/
theorem getOption_pushBack (c : NetworkConfiguration) (f : Filling) (s : IPSocket)
    (o : IntOption) : (c.pushBack f s).getOption o = c.getOption o := by
  cases f <;> cases o <;> rfl

/-- An option changes no other one. -/
theorem getOption_setOption_ne (c : NetworkConfiguration) {o o' : IntOption} (n : Int)
    (h : o' ≠ o) : (c.setOption o' n).getOption o = c.getOption o := by
  cases o <;> cases o' <;> first | rfl | exact absurd rfl h

/-- An option is read back as it was set. -/
theorem getOption_setOption (c : NetworkConfiguration) {o : IntOption} {n : Int}
    (hn : InIntRange n) (hmsg : o = .msg → 0 ≤ n) : (c.setOption o n).getOption o = n := by
  cases o with
  | mtu => rfl
  | seg => rfl
  | msg =>
      rw [setOption, getOption, toSize_eq (hmsg rfl) hn]
      exact Int.toNat_of_nonneg (hmsg rfl)

/-- One group gives an option its number, or leaves it. -/
theorem getOption_apply (st : Filling × NetworkConfiguration) (g : Group) (o : IntOption) :
    (apply I toLower st g).2.getOption o = (g.int? o).getD (st.2.getOption o) := by
  cases g with
  | endpoint addr port haddr hport => exact getOption_pushBack _ _ _ o
  | protocol name => cases o <;> rfl
  | int o' n hn hmsg =>
      by_cases heq : o' = o
      · subst heq
        rw [apply, getOption_setOption _ hn hmsg, Group.int?, if_pos rfl, Option.getD_some]
      · rw [apply, getOption_setOption_ne _ _ heq, Group.int?, if_neg heq, Option.getD_none]
  | remotes => rfl
  | flag arg hdash hother => rfl

/-- A value that each element of a list sets or leaves ends as the last one set. -/
theorem foldl_last {σ α β : Type} {f : σ → α → σ} (get : σ → β) (set : α → Option β)
    (h : ∀ s a, get (f s a) = (set a).getD (get s)) (as : List α) (s : σ) :
    get (as.foldl f s) = (as.filterMap set).getLast?.getD (get s) := by
  induction as generalizing s with
  | nil => rfl
  | cons a as ih =>
      rw [List.foldl_cons, ih, h]
      cases ha : set a with
      | none => rw [List.filterMap_cons_none ha, Option.getD_none]
      | some b =>
          rw [List.filterMap_cons_some ha, List.getLast?_cons, Option.getD_some, Option.getD_some]

/-- After all groups an option has its last value, or its default. -/
theorem foldl_option (I : Inet) (toLower : Arg → Arg) (gs : List Group)
    (st : Filling × NetworkConfiguration) (o : IntOption) :
    (gs.foldl (apply I toLower) st).2.getOption o =
      (gs.filterMap (Group.int? o)).getLast?.getD (st.2.getOption o) :=
  foldl_last (fun st : Filling × NetworkConfiguration => st.2.getOption o) (Group.int? o)
    (fun st g => getOption_apply st g o) gs st

/-- One group sets the protocol, or leaves it. -/
theorem protocol_apply (st : Filling × NetworkConfiguration) (g : Group) :
    (apply I toLower st g).2.protocol =
      (g.protocol?.map fun name => some (getProtocol toLower name)).getD st.2.protocol := by
  cases g with
  | endpoint addr port haddr hport =>
      obtain ⟨f, c⟩ := st
      cases f <;> rfl
  | protocol name => rfl
  | int o n hn hmsg => cases o <;> rfl
  | remotes => rfl
  | flag arg hdash hother => rfl

/-- After all groups the protocol is the last one named. -/
theorem foldl_protocol (I : Inet) (toLower : Arg → Arg) (gs : List Group) (f : Filling) :
    (gs.foldl (apply I toLower) (f, {})).2.protocol =
      (gs.filterMap Group.protocol?).getLast?.map (getProtocol toLower) := by
  rw [foldl_last (fun st : Filling × NetworkConfiguration => st.2.protocol) _ protocol_apply,
    ← List.map_filterMap, List.getLast?_map]
  cases (gs.filterMap Group.protocol?).getLast? <;> rfl

/-- An option changes no endpoint. -/
theorem locals_setOption (c : NetworkConfiguration) (o : IntOption) (n : Int) :
    (c.setOption o n).locals = c.locals ∧ (c.setOption o n).remotes = c.remotes := by
  cases o <;> exact ⟨rfl, rfl⟩

/-- Behind the first `-r` all endpoints are remotes. -/
theorem foldl_remotes (I : Inet) (toLower : Arg → Arg) (gs : List Group)
    (c : NetworkConfiguration) :
    (gs.foldl (apply I toLower) (.remotes, c)).2.locals = c.locals ∧
      (gs.foldl (apply I toLower) (.remotes, c)).2.remotes =
        c.remotes ++ gs.filterMap (Group.endpoint? I) := by
  induction gs generalizing c with
  | nil => exact ⟨rfl, (List.append_nil _).symm⟩
  | cons g gs ih =>
      rw [List.foldl_cons]
      -- behind the flag of the remotes only an endpoint changes a list, and it goes to the remotes
      cases g with
      | endpoint addr port haddr hport =>
          obtain ⟨h₁, h₂⟩ := ih (c.pushBack .remotes (.ofText I addr (toPort port.value)))
          refine ⟨h₁, h₂.trans ?_⟩
          rw [toPort_eq hport]
          exact List.append_assoc _ _ _
      | protocol name => exact ih _
      | int o n hn hmsg =>
          obtain ⟨h₁, h₂⟩ := ih (c.setOption o n.value)
          rw [(locals_setOption c o n.value).1] at h₁
          rw [(locals_setOption c o n.value).2] at h₂
          exact ⟨h₁, h₂⟩
      | remotes => exact ih c
      | flag arg hdash hother => exact ih c

/-- Before the first `-r` they are locals. -/
theorem foldl_locals (I : Inet) (toLower : Arg → Arg) (gs : List Group)
    (c : NetworkConfiguration) :
    (gs.foldl (apply I toLower) (.locals, c)).2.locals =
        c.locals ++ (gs.takeWhile (!·.isRemotes)).filterMap (Group.endpoint? I) ∧
      (gs.foldl (apply I toLower) (.locals, c)).2.remotes =
        c.remotes ++ (gs.dropWhile (!·.isRemotes)).filterMap (Group.endpoint? I) := by
  induction gs generalizing c with
  | nil => exact ⟨(List.append_nil _).symm, (List.append_nil _).symm⟩
  | cons g gs ih =>
      rw [List.foldl_cons]
      cases g with
      | endpoint addr port haddr hport =>
          obtain ⟨h₁, h₂⟩ := ih (c.pushBack .locals (.ofText I addr (toPort port.value)))
          refine ⟨h₁.trans ?_, h₂⟩
          rw [toPort_eq hport]
          exact List.append_assoc _ _ _
      | protocol name => exact ih _
      | int o n hn hmsg =>
          obtain ⟨h₁, h₂⟩ := ih (c.setOption o n.value)
          rw [(locals_setOption c o n.value).1] at h₁
          rw [(locals_setOption c o n.value).2] at h₂
          exact ⟨h₁, h₂⟩
      | remotes =>
          -- from here on the endpoints are remotes
          obtain ⟨h₁, h₂⟩ := foldl_remotes I toLower gs c
          exact ⟨h₁.trans (List.append_nil _).symm, h₂⟩
      | flag arg hdash hother => exact ih c

/-- What the groups change one after the other is what they stand for. -/
theorem foldl_meaning (I : Inet) (toLower : Arg → Arg) (gs : List Group) :
    (gs.foldl (apply I toLower) (.locals, {})).2 = Group.meaning I toLower gs := by
  have hint := foldl_option I toLower gs (.locals, {})
  obtain ⟨hlocals, hremotes⟩ := foldl_locals I toLower gs {}
  have hprotocol := foldl_protocol I toLower gs .locals
  have hmsg := congrArg Int.toNat (hint .msg)
  exact NetworkConfiguration.ext hlocals hremotes hprotocol (hint .mtu) (hint .seg) hmsg

/-! ## Groups of different kinds -/

/-- A group of another kind has no value for the option. -/
theorem Group.int?_eq_none {o : IntOption} (h : g.kind ≠ .int o) : g.int? o = none := by
  cases g with
  | int o' n hn hmsg => exact if_neg fun heq => h (congrArg Kind.int heq)
  | endpoint addr port haddr hport => rfl
  | protocol name => rfl
  | remotes => rfl
  | flag arg hdash hother => rfl

/-- A group of another kind names no protocol. -/
theorem Group.protocol?_eq_none (h : g.kind ≠ .protocol) : g.protocol? = none := by
  cases g with
  | protocol name => exact absurd rfl h
  | endpoint addr port haddr hport => rfl
  | int o n hn hmsg => rfl
  | remotes => rfl
  | flag arg hdash hother => rfl

/-- A group of another kind gives no endpoint and switches no list. -/
theorem Group.endpoint?_eq_none (h : g.kind ≠ .addresses) :
    (!g.isRemotes) = true ∧ g.endpoint? I = none := by
  cases g with
  | endpoint addr port haddr hport => exact absurd rfl h
  | remotes => exact absurd rfl h
  | protocol name => exact ⟨rfl, rfl⟩
  | int o n hn hmsg => exact ⟨rfl, rfl⟩
  | flag arg hdash hother => exact ⟨rfl, rfl⟩

/-- Among the groups of its own kind a group is kept. -/
theorem Group.ofKind_cons_self (g : Group) (gs : List Group) :
    ofKind g.kind (g :: gs) = g :: ofKind g.kind gs := List.filter_cons_of_pos (by simp)

/-- Among the groups of another kind a group is dropped. -/
theorem Group.ofKind_cons_ne {k : Kind} (h : g.kind ≠ k) (gs : List Group) :
    ofKind k (g :: gs) = ofKind k gs := List.filter_cons_of_neg (by simpa using h)

/-- Elements that `f` leaves out may be left out before. -/
theorem filterMap_filter_kind {β : Type} {f : Group → Option β} {k : Group.Kind}
    (h : ∀ g : Group, g.kind ≠ k → f g = none) (gs : List Group) :
    (Group.ofKind k gs).filterMap f = gs.filterMap f := by
  rw [Group.ofKind, List.filterMap_filter]
  congr 1
  funext g
  by_cases hg : g.kind = k
  · rw [if_pos (decide_eq_true hg)]
  · rw [if_neg (by simpa using hg), h g hg]

/-- Elements that do not end a prefix and that `f` leaves out may be left out before. -/
theorem filterMap_span_kind {β : Type} {f : Group → Option β} {q : Group → Bool} {k : Group.Kind}
    (h : ∀ g : Group, g.kind ≠ k → q g = true ∧ f g = none) (gs : List Group) :
    ((Group.ofKind k gs).takeWhile q).filterMap f = (gs.takeWhile q).filterMap f ∧
      ((Group.ofKind k gs).dropWhile q).filterMap f = (gs.dropWhile q).filterMap f := by
  induction gs with
  | nil => exact ⟨rfl, rfl⟩
  | cons g gs ih =>
      -- an element of the kind is split off or kept on both sides alike
      by_cases hg : g.kind = k
      · subst hg
        rw [Group.ofKind_cons_self]
        cases hq : q g with
        | true =>
            rw [List.takeWhile_cons_of_pos hq, List.takeWhile_cons_of_pos hq,
              List.dropWhile_cons_of_pos hq, List.dropWhile_cons_of_pos hq]
            refine ⟨?_, ih.2⟩
            rw [List.filterMap_cons, List.filterMap_cons, ih.1]
        | false =>
            have hq' : ¬ q g = true := by simp [hq]
            rw [List.takeWhile_cons_of_neg hq', List.takeWhile_cons_of_neg hq',
              List.dropWhile_cons_of_neg hq', List.dropWhile_cons_of_neg hq']
            refine ⟨rfl, ?_⟩
            rw [List.filterMap_cons, List.filterMap_cons,
              filterMap_filter_kind fun g hg => (h g hg).2]
      · -- an element of another kind, on both sides without effect
        obtain ⟨hq, hf⟩ := h g hg
        rw [Group.ofKind_cons_ne hg, List.takeWhile_cons_of_pos hq, List.dropWhile_cons_of_pos hq,
          List.filterMap_cons_none hf]
        exact ih

/-- The meaning depends on the groups of each kind alone, so kinds may be reordered among each
other. -/
theorem Group.meaning_congr {gs' : List Group}
    (h : ∀ k, k ≠ Kind.other → ofKind k gs' = ofKind k gs) :
    Group.meaning I toLower gs' = Group.meaning I toLower gs := by
  have hint : ∀ o, gs'.filterMap (Group.int? o) = gs.filterMap (Group.int? o) := fun o => by
    rw [← filterMap_filter_kind fun g => int?_eq_none, h (.int o) Kind.noConfusion,
      filterMap_filter_kind fun g => int?_eq_none]
  have hprotocol : gs'.filterMap Group.protocol? = gs.filterMap Group.protocol? := by
    rw [← filterMap_filter_kind fun g => protocol?_eq_none, h .protocol Kind.noConfusion,
      filterMap_filter_kind fun g => protocol?_eq_none]
  obtain ⟨hl', hr'⟩ := filterMap_span_kind (fun g => endpoint?_eq_none (I := I)) gs'
  obtain ⟨hl, hr⟩ := filterMap_span_kind (fun g => endpoint?_eq_none (I := I)) gs
  rw [h .addresses Kind.noConfusion] at hl' hr'
  simp only [Group.meaning, hint, hprotocol, ← hl', ← hr', hl, hr]

/-- The constructor makes of groups what they stand for. -/
theorem ofArgs_meaning (I : Inet) (toLower : Arg → Arg) (program : Arg) (gs : List Group) :
    ofArgs I toLower (program :: gs.flatMap Group.tokens) = .ok (Group.meaning I toLower gs) := by
  rw [ofArgs, loop_groups gs rfl, foldl_meaning]

/-- Lower case, for the letters of ASCII. -/
def asciiToLower (arg : Arg) : Arg := arg.map fun c => if 65 ≤ c ∧ c ≤ 90 then c + 32 else c

end NetworkConfiguration

end SctpSandbox
