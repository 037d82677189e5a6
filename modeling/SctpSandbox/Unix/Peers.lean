import SctpSandbox.Arguments
import SctpSandbox.Broadcast
import SctpSandbox.Lib.Run

/-! # The paths that `SocketUnix` keeps

A path gets into `peers` as the text of a remote, or as what `handleMessage` reads from the address
of a sender. `send` puts a NUL in front of it and copies it into a `sockaddr_un`. That is the
address of the sender again only if it was a name in the abstract namespace without NULs
(`answersSender_iff`), and it fits only if no remote was too long (`pathsFit_iff`). -/

namespace SctpSandbox

open Call

/-- The address of a socket in the Unix domain. -/
inductive UnixAddress where
  /-- The socket has not been bound. -/
  | unnamed
  /-- A file. -/
  | pathname (path : List Byte) (hne : path ≠ []) (hnul : 0 ∉ path)
    (hlen : path.length ≤ sunPathSize)
  /-- A name in the abstract namespace, which may have any bytes. -/
  | abstractName (name : List Byte) (hlen : name.length + 1 ≤ sunPathSize)

namespace UnixAddress

/-- The bytes from `sun_path` on that the length of the address covers. The NUL behind the path of a
file counts. -/
def sunPath : UnixAddress → List Byte
  | unnamed => []
  | pathname path _ _ _ => path ++ [0]
  | abstractName name _ => 0 :: name

/-- A name in the abstract namespace without NULs. -/
def PlainName : UnixAddress → Prop
  | abstractName name _ => 0 ∉ name
  | _ => False

end UnixAddress

namespace SocketUnix

variable {s : SocketUnix} {path : Path} {addr : List Byte} {recv : RecvCall}
  {sender : UnixAddress}

/-! ## Answers to a sender -/

/-- Whatever is sent to the path, `sendto` gets these bytes for its address. -/
def PassesTo (path : Path) (addr : List Byte) : Prop :=
  ∀ ok msg g, (after (sendTo ok msg path g)).object.sent = (addr, msg) :: g.object.sent

/-- A path that a received message adds to `peers` leads back to its sender. -/
def AnswersSender (recv : RecvCall) (sender : UnixAddress) (s : SocketUnix) : Prop :=
  ∀ path, path ∉ s.peers →
    path ∈ (after (handleMessage recv sender.sunPath ⟨s, false⟩)).object.peers →
      PassesTo path sender.sunPath

/-- `sendto` gets the path with the NUL in front of it. -/
theorem passesTo_iff (hfits : path.length + 1 ≤ sunPathSize) :
    PassesTo path addr ↔ sunPath path = addr := by
  -- the path is copied and passed on whatever sendto answers
  have hsent : ∀ ok msg (g : Guarded SocketUnix),
      (after (sendTo ok msg path g)).object.sent = (sunPath path, msg) :: g.object.sent := by
    intro ok msg g
    rw [sendTo_of_fits hfits]
    split
    · rfl
    · rfl
  constructor
  · intro hpasses
    have h := hpasses (fun _ => true) [] ⟨({} : SocketUnix), false⟩
    rw [hsent] at h
    exact (Prod.mk.inj (List.cons.inj h).1).1
  · rintro rfl
    exact hsent

/-- The path is read without its first byte and its terminating zero. -/
theorem pathOf_pathname {b : Byte} {rest : List Byte} (hnul : 0 ∉ b :: rest) :
    pathOf (b :: rest ++ [0]) = rest := by
  rw [pathOf, List.cons_append, List.drop_succ_cons, List.drop_zero, cStr_append_nul]
  exact cStr_eq_self fun hmem => hnul (List.mem_cons_of_mem b hmem)

/-- What is read from the address of a sender fits into one. -/
theorem length_pathOf (sender : UnixAddress) :
    (pathOf sender.sunPath).length + 1 ≤ sunPathSize := by
  cases sender with
  | unnamed => decide
  | pathname path hne hnul hlen =>
      cases path with
      | nil => exact absurd rfl hne
      | cons b rest =>
          rw [UnixAddress.sunPath, pathOf_pathname hnul]
          exact hlen
  | abstractName name hlen =>
      have htake : (cStr name).length ≤ name.length := (List.takeWhile_sublist _).length_le
      show (cStr name).length + 1 ≤ sunPathSize
      omega

/-- The path read from an address is the whole of it exactly for a plain name. -/
theorem sunPath_pathOf_iff (sender : UnixAddress) :
    sunPath (pathOf sender.sunPath) = sender.sunPath ↔ sender.PlainName := by
  cases sender with
  | unnamed => exact iff_of_false (by decide) id
  | pathname path hne hnul hlen =>
      refine iff_of_false (fun h => ?_) id
      cases path with
      | nil => exact hne rfl
      | cons b rest => exact hnul (List.mem_cons.mpr (.inl (List.cons.inj h).1))
  | abstractName name hlen =>
      constructor
      · -- a NUL inside the name cuts what is copied back
        intro h hmem
        have hcstr : cStr name = name := (List.cons.inj h).2
        rw [cStr, List.takeWhile_eq_self_iff] at hcstr
        exact absurd (hcstr 0 hmem) (by decide)
      · intro hnul
        exact congrArg (0 :: ·) (cStr_eq_self hnul)

/-- A message adds at most the path of its sender, and does so unless it is a quit or the path is
there. -/
theorem mem_peers_handleMessage (hpath : path ∉ s.peers) :
    path ∈ (after (handleMessage recv sender.sunPath ⟨s, false⟩)).object.peers ↔
      path = pathOf sender.sunPath ∧ ∃ data, recv = .wrote data ∧ cStr data ≠ quitMsg := by
  cases recv with
  | failed err => exact iff_of_false hpath fun h => by simp at h
  | wrote data =>
      rw [handleMessage, bind_this]
      by_cases hquit : cStr data = quitMsg
      · rw [if_pos hquit]
        refine iff_of_false (fun hmem => hpath (Finset.mem_of_mem_erase hmem)) ?_
        rintro ⟨-, _, heq, hne⟩
        obtain rfl := RecvCall.wrote.inj heq
        exact hne hquit
      · rw [if_neg hquit]
        have hdata : ∃ data', RecvCall.wrote data = .wrote data' ∧ cStr data' ≠ quitMsg :=
          ⟨data, rfl, hquit⟩
        by_cases hmem : pathOf sender.sunPath ∈ s.peers
        · rw [if_pos hmem]
          refine iff_of_false hpath ?_
          rintro ⟨rfl, -⟩
          exact hpath hmem
        · rw [if_neg hmem]
          -- an unknown sender is added
          refine (Finset.mem_insert.trans (or_iff_left hpath)).trans ?_
          exact (and_iff_left hdata).symm

/-- **Answers go back to the sender exactly when it has a plain name**, or is not added to
`peers`. -/
theorem answersSender_iff (recv : RecvCall) (sender : UnixAddress) (s : SocketUnix) :
    AnswersSender recv sender s ↔
      ∀ data, recv = .wrote data → cStr data ≠ quitMsg → pathOf sender.sunPath ∉ s.peers →
        sender.PlainName := by
  have hback : PassesTo (pathOf sender.sunPath) sender.sunPath ↔ sender.PlainName :=
    (passesTo_iff (length_pathOf sender)).trans (sunPath_pathOf_iff sender)
  constructor
  · intro hanswers data hrecv hquit hnew
    refine hback.mp (hanswers _ hnew ?_)
    exact (mem_peers_handleMessage hnew).mpr ⟨rfl, data, hrecv, hquit⟩
  · intro hplain path hnew hadded
    obtain ⟨rfl, data, hrecv, hquit⟩ := (mem_peers_handleMessage hnew).mp hadded
    exact hback.mpr (hplain data hrecv hquit hnew)

/-- The file `/tmp/x`. -/
def sampleFile : UnixAddress := .pathname (ascii "/tmp/x") (by decide) (by decide) (by decide)

/-- A socket bound to a file says hello: its answers go to the abstract name `tmp/x`. The sender
that is not bound, and the one with a NUL in its name, do not get theirs either. -/
theorem not_answersSender : ¬ AnswersSender (.wrote (ascii "hello")) sampleFile {} ∧
    ¬ AnswersSender (.wrote (ascii "hello")) .unnamed {} ∧
    ¬ AnswersSender (.wrote (ascii "hello")) (.abstractName [97, 0, 98] (by decide)) {} := by
  have hfresh : ∀ sender : UnixAddress, ¬ sender.PlainName →
      ¬ AnswersSender (.wrote (ascii "hello")) sender {} := by
    intro sender hplain hanswers
    have h := (answersSender_iff _ sender {}).mp hanswers (ascii "hello") rfl (by decide)
    exact hplain (h (Finset.notMem_empty _))
  refine ⟨hfresh _ id, hfresh _ id, hfresh _ fun hnul => hnul ?_⟩
  decide

/-! ## Paths that fit into a `sockaddr_un` -/

/-- What happens to the socket. -/
inductive UnixEvent where
  /-- The user calls `connect`. -/
  | connect (remotes : List IPSocket)
  /-- `handleMessage`: `recvfrom` returns with the address of a sender. -/
  | receive (recv : RecvCall) (sender : UnixAddress)
  /-- The user calls `send`, or the destructor does with `quit_msg`, with the peers in order. -/
  | send (order : List Path) (ok : List Byte → Bool) (msg : ChatMessage)

/-- The call for an event. -/
def call : UnixEvent → UnixCall Unit
  | .connect remotes => connect remotes
  | .receive recv sender => handleMessage recv sender.sunPath
  | .send order ok msg => SocketUnix.send order ok msg

/-- A call that is left by an exception is the last one. -/
def outcome : EStateM.Result (Stop UnixError) (Guarded SocketUnix) Unit → Outcome SocketUnix
  | .ok _ g => .returned g.object
  | .error _ g => .threw g.object

/-- The answer of the socket to an event. -/
def step (s : SocketUnix) (e : UnixEvent) : Outcome SocketUnix := outcome (call e ⟨s, false⟩)

/-- `send` looks at every path once. -/
def Possible (s : SocketUnix) : UnixEvent → Prop
  | .send order _ _ => Traverses order s
  | _ => True

/-- Every path fits, and so no `send` copies one behind the end of `sun_path`. -/
structure PathsFit (s : SocketUnix) : Prop where
  fits : ∀ path ∈ s.peers, path.length + 1 ≤ sunPathSize
  inBounds : ∀ order ok msg g,
    SocketUnix.send order ok msg ⟨s, false⟩ ≠ .error (.exception .outOfBounds) g

/-- No text of a remote has more than 107 bytes. -/
def TextsFit (_ : SocketUnix) : UnixEvent → Prop
  | .connect remotes => ∀ remote ∈ remotes, remote.addr.length + 1 ≤ sunPathSize
  | _ => True

/-- Reading a call's end as an outcome keeps the socket. -/
theorem state_outcome (r : EStateM.Result (Stop UnixError) (Guarded SocketUnix) Unit) :
    (outcome r).state = (after r).object := by
  cases r with
  | ok a g => rfl
  | error e g => rfl

/-- A loop over paths that fit copies none behind the end. -/
theorem forM_sendTo_ne {ok : List Byte → Bool} {msg : ChatMessage} {paths : List Path}
    (hfits : ∀ path ∈ paths, path.length + 1 ≤ sunPathSize) (g g' : Guarded SocketUnix) :
    paths.forM (sendTo ok msg) g ≠ .error (.exception .outOfBounds) g' := by
  induction paths generalizing g with
  | nil => exact fun h => by cases h
  | cons path rest ih =>
      have hpath := sendTo_of_fits (hfits path List.mem_cons_self) ok msg g
      rw [forM_cons]
      by_cases hok : ok (sunPath path) = true
      · rw [if_pos hok] at hpath
        rw [bind_ok hpath]
        exact ih (fun p hp => hfits p (List.mem_cons_of_mem path hp)) _
      · rw [if_neg hok] at hpath
        rw [bind_error hpath]
        exact fun h => by cases h

/-- Paths that fit the address can be copied into it. -/
theorem pathsFit_of_fits (h : ∀ path ∈ s.peers, path.length + 1 ≤ sunPathSize) : PathsFit s := by
  refine ⟨h, fun order ok msg g => ?_⟩
  rw [SocketUnix.send, bind_this]
  apply forM_sendTo_ne
  intro path hpath
  exact h path (of_decide_eq_true (List.mem_filter.mp hpath).2)

/-- `connect` adds the texts of all its remotes. -/
theorem mem_peers_connect (remotes : List IPSocket) (g : Guarded SocketUnix) :
    path ∈ (after (connect remotes g)).object.peers ↔
      path ∈ g.object.peers ∨ ∃ remote ∈ remotes, remote.addr = path := by
  induction remotes generalizing g with
  | nil =>
      show path ∈ g.object.peers ↔ _
      simp
  | cons remote rest ih =>
      show path ∈ (after (connect rest
        ⟨{ g.object with peers := insert remote.addr g.object.peers }, g.held⟩)).object.peers ↔ _
      rw [ih]
      simp only [Finset.mem_insert, List.mem_cons, exists_eq_or_imp]
      rw [or_comm (a := path = remote.addr), or_assoc, eq_comm (a := path)]

/-- `send` leaves the paths as they are. -/
theorem peers_send (order : List Path) (ok : List Byte → Bool) (msg : ChatMessage)
    (s : SocketUnix) :
    (after (SocketUnix.send order ok msg ⟨s, false⟩)).object.peers = s.peers := by
  have hone : ∀ path, Keeps (fun t : SocketUnix => t.peers = s.peers) (sendTo ok msg path) := by
    intro path
    refine Keeps.ite (fun _ => ?_) fun _ => keeps_raise _
    refine Keeps.bind (keeps_modifyThis fun _ ht => ht) fun _ => ?_
    exact Keeps.ite (fun _ => keeps_pure _) fun _ => keeps_raise _
  have hkeeps : Keeps (fun t : SocketUnix => t.peers = s.peers) (SocketUnix.send order ok msg) :=
    keeps_this.bind fun t => keeps_forM _ fun path _ => hone path
  exact hkeeps ⟨s, false⟩ rfl

/-- The paths that an event adds. -/
theorem mem_peers_step (hpath : path ∉ s.peers) (e : UnixEvent)
    (h : path ∈ (step s e).state.peers) :
    (∃ remotes, e = .connect remotes ∧ ∃ remote ∈ remotes, remote.addr = path) ∨
      ∃ sender : UnixAddress, path = pathOf sender.sunPath := by
  rw [step, state_outcome] at h
  cases e with
  | connect remotes =>
      have hadded := (mem_peers_connect remotes ⟨s, false⟩).mp h
      exact .inl ⟨remotes, rfl, hadded.resolve_left hpath⟩
  | receive recv sender => exact .inr ⟨sender, ((mem_peers_handleMessage hpath).mp h).1⟩
  | send order ok msg => exact absurd (peers_send order ok msg s ▸ h) hpath

/-- **A step keeps to paths that fit exactly when its remotes do.** What `handleMessage` reads from
the address of a sender always fits. -/
theorem pathsFit_step_iff (h : PathsFit s) (e : UnixEvent) :
    PathsFit (step s e).state ↔ TextsFit s e := by
  constructor
  · intro hafter
    cases e with
    | connect remotes =>
        intro remote hremote
        apply hafter.fits
        rw [step, state_outcome]
        exact (mem_peers_connect remotes _).mpr (.inr ⟨remote, hremote, rfl⟩)
    | receive recv sender => trivial
    | send order ok msg => trivial
  · intro htexts
    -- a path of the state after was there before or was just added
    refine pathsFit_of_fits fun path hmem => ?_
    by_cases hpath : path ∈ s.peers
    · exact h.fits path hpath
    · obtain ⟨remotes, rfl, remote, hremote, rfl⟩ | ⟨sender, rfl⟩ := mem_peers_step hpath e hmem
      · exact htexts remote hremote
      · exact length_pathOf sender

/-- There is no path yet. -/
theorem pathsFit_init : PathsFit {} := pathsFit_of_fits fun _ h => absurd h (Finset.notMem_empty _)

/-- **Every path fits in every state of a run exactly when no remote is too long** for a
`sockaddr_un`. -/
theorem pathsFit_iff {es : List UnixEvent} {s' : SocketUnix} (h : Run step Possible {} es s') :
    Run.Throughout step Possible PathsFit {} es ↔
      Run step (fun s e => s.Possible e ∧ TextsFit s e) {} es s' := by
  refine Run.throughout_iff h pathsFit_init (fun _ hfit => hfit) ?_ ?_
  · intro s e hfit _ htexts
    exact (pathsFit_step_iff hfit e).mpr htexts
  · intro s e hfit _ hafter
    exact (pathsFit_step_iff hfit e).mp hafter

/-- A remote for the examples, with a text of `n` bytes. -/
def remoteOfLength (n : ℕ) : IPSocket := ⟨List.replicate n 97, 5000, afInet⟩

/-- A text of 107 bytes fits, and so does what is read from the address of a file. -/
theorem pathsFit_sample : Run.Throughout step Possible PathsFit {}
    [.connect [remoteOfLength 107], .receive (.wrote (ascii "hello")) sampleFile] := by
  have hrun : ∃ s, Run step (fun s e => s.Possible e ∧ TextsFit s e) {}
      [.connect [remoteOfLength 107], .receive (.wrote (ascii "hello")) sampleFile] s := by
    refine ⟨_, .cons ⟨trivial, fun remote hremote => ?_⟩ rfl
      (.cons ⟨trivial, trivial⟩ rfl (.nil _))⟩
    rw [List.mem_singleton.mp hremote]
    decide
  obtain ⟨s, hs⟩ := hrun
  exact (pathsFit_iff (hs.imp fun _ _ hok => hok.1)).mpr hs

/-- **A text of 108 bytes**, which the arguments of the program may name, is copied behind the end
of `sun_path`. -/
theorem not_pathsFit : ∃ c : NetworkConfiguration,
    NetworkConfiguration.ofArgs Inet.reference NetworkConfiguration.asciiToLower
      [ascii "sctp_sandbox", ascii "-p", ascii "unix", ascii "-r", List.replicate 108 97,
        ascii "5000"] = .ok c ∧ c.protocol = some .unix ∧
    ¬ ∀ es s, Run step Possible {} (.connect c.remotes :: es) s → PathsFit s := by
  let c : NetworkConfiguration :=
    { remotes := [.ofText Inet.reference (List.replicate 108 97) 5000], protocol := some .unix }
  refine ⟨c, NetworkConfiguration.ofArgs_groupsOf .., rfl, fun h => ?_⟩
  have hfit := h [] _ (.cons trivial rfl (.nil _))
  have hlong := hfit.fits (List.replicate 108 97) (Finset.mem_insert_self _ _)
  rw [List.length_replicate] at hlong
  exact absurd hlong (by decide)

end SocketUnix

end SctpSandbox
