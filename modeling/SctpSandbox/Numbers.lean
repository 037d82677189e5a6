import SctpSandbox.Arguments

/-! # Numbers as they are written

The constructor reads ports and the values of `-mtu`, `-seg` and `-msg` by `stoi`, which ignores
what is behind the digits, and then converts them: a port by `static_cast<Port>`, a message size to
the unsigned `Size`. `Stores` says what storing a group as it is written means, and
`storesAsWritten_iff` which arguments are accepted and not stored so. -/

namespace SctpSandbox

namespace NetworkConfiguration

variable {I : Inet} {toLower : Arg → Arg} {args : List Arg} {g : ArgGroup} {gs : List ArgGroup}
  {st st' : Filling × NetworkConfiguration}

/-- The number of the group is written out and fits the member. -/
def ArgGroup.Written : ArgGroup → Prop
  | endpoint _ port _ => ∃ n, Denotes port n ∧ 0 ≤ n ∧ n ≤ 65535
  | protocol _ => True
  | int o value => ∃ n, Denotes value n ∧ (o = .msg → 0 ≤ n)
  | single _ _ => True

/-- The group is stored as it is written: the port, or the member of the option, is the number that
the whole of its argument denotes. -/
def Stores (I : Inet) (toLower : Arg → Arg) (st st' : Filling × NetworkConfiguration) :
    ArgGroup → Prop
  | .endpoint addr port _ => ∃ s : IPSocket, s = .ofText I addr s.port ∧ Denotes port s.port.toNat ∧
      st' = (st.1, st.2.pushBack st.1 s)
  | .protocol name => st' = (st.1, { st.2 with protocol := some (getProtocol toLower name) })
  | .int o value => ∃ n, Denotes value n ∧ st' = (st.1, st.2.setOption o n) ∧
      st'.2.getOption o = n
  | .single flag _ => st' = (if flag = ascii "-r" then .remotes else st.1, st.2)

/-- All groups are, one after the other. -/
def StoresAll (I : Inet) (toLower : Arg → Arg) : List ArgGroup →
    Filling × NetworkConfiguration → Filling × NetworkConfiguration → Prop
  | [], st, st' => st' = st
  | g :: gs, st, st' => ∃ st₁, Stores I toLower st st₁ g ∧ StoresAll I toLower gs st₁ st'

/-- What the constructor makes of the arguments, if it accepts them, is what they are as they are
written. -/
def StoresAsWritten (I : Inet) (toLower : Arg → Arg) (args : List Arg) : Prop :=
  ∀ c, Accepts I toLower args c →
    ∃ filling, StoresAll I toLower (groupsOf args.tail) (.locals, {}) (filling, c)

/-- `stoi` reads all numbers, and one of them is not written out or does not fit its member. -/
def Miswritten (tokens : List Arg) : Prop :=
  (∀ g ∈ groupsOf tokens, g.Readable) ∧ ∃ g ∈ groupsOf tokens, ¬ g.Written

/-! ## One group -/

/-- A number that is stored as written is the whole of its argument, and fits. -/
theorem written_of_stores (h : Stores I toLower st st' g) : g.Written := by
  cases g with
  | endpoint addr port haddr =>
      obtain ⟨s, -, hdenotes, -⟩ := h
      have hlt := s.port.toNat_lt
      exact ⟨s.port.toNat, hdenotes, by omega, by omega⟩
  | protocol name => trivial
  | int o value =>
      obtain ⟨n, hdenotes, -, hstored⟩ := h
      -- a negative size would not be stored as it was written
      refine ⟨n, hdenotes, ?_⟩
      rintro rfl
      rw [← hstored]
      exact Int.natCast_nonneg _
  | single flag hsingle => trivial

/-- A number that fits is what `stoi` reads. -/
theorem stoi_of_readable {t : Arg} {n : Int} (hdenotes : Denotes t n)
    (hread : ∃ m, stoi t = .ok m) :
    stoi t = .ok n ∧ InIntRange n := by
  obtain ⟨m, hm⟩ := hread
  rw [stoi_of_denotes hdenotes] at hm ⊢
  split at hm
  · next hrange => exact ⟨if_pos hrange, hrange⟩
  · exact absurd hm (by simp)

/-- What is read of a group whose number is written out and fits is what is written. -/
theorem stores_of_written (h : read I toLower st g = .ok st') (hwritten : g.Written) :
    Stores I toLower st st' g := by
  have hreadable := (read_ok_iff st g).mp ⟨st', h⟩
  cases g with
  | endpoint addr port haddr =>
      obtain ⟨n, hdenotes, hn⟩ := hwritten
      obtain ⟨hstoi, -⟩ := stoi_of_readable hdenotes (hreadable port rfl)
      rw [read, hstoi] at h
      -- the number fits 16 bits
      have hport : ((toPort n).toNat : Int) = n := by
        rw [toPort_eq hn, UInt16.toNat_ofNat']
        omega
      refine ⟨.ofText I addr (toPort n), rfl, ?_, (Except.ok.inj h).symm⟩
      show Denotes port ((toPort n).toNat : Int)
      rwa [hport]
  | protocol name => exact (Except.ok.inj h).symm
  | int o value =>
      obtain ⟨n, hdenotes, hn⟩ := hwritten
      obtain ⟨hstoi, hrange⟩ := stoi_of_readable hdenotes (hreadable value rfl)
      rw [read, hstoi] at h
      obtain rfl : (st.1, st.2.setOption o n) = st' := Except.ok.inj h
      exact ⟨n, hdenotes, rfl, getOption_setOption st.2 hrange hn⟩
  | single flag hsingle => exact (Except.ok.inj h).symm

/-! ## All groups -/

/-- Where everything is stored as written, every group is in its range. -/
theorem written_of_storesAll (h : StoresAll I toLower gs st st') : ∀ g ∈ gs, g.Written := by
  induction gs generalizing st with
  | nil => exact fun g hg => absurd hg List.not_mem_nil
  | cons g gs ih =>
      obtain ⟨st₁, hg, hgs⟩ := h
      rw [List.forall_mem_cons]
      exact ⟨written_of_stores hg, ih hgs⟩

/-- Where every group is in its range, everything is stored as written. -/
theorem storesAll_of_written (h : readAll I toLower gs st = .ok st')
    (hwritten : ∀ g ∈ gs, g.Written) : StoresAll I toLower gs st st' := by
  induction gs generalizing st with
  | nil => exact (Except.ok.inj h).symm
  | cons g gs ih =>
      obtain ⟨hg, hgs⟩ := List.forall_mem_cons.mp hwritten
      obtain ⟨st₁, hread, hrest⟩ := readAll_cons_ok h
      exact ⟨st₁, stores_of_written hread hg, ih hrest hgs⟩

/-- **Numbers are stored as they are written exactly when no number that `stoi` reads goes on behind
its digits or is too large, or negative, for its member.** -/
theorem storesAsWritten_iff (I : Inet) (toLower : Arg → Arg) (args : List Arg) :
    StoresAsWritten I toLower args ↔ ¬ Miswritten args.tail := by
  cases args with
  | nil =>
      refine iff_of_true (fun c h => absurd rfl h.1) ?_
      rintro ⟨-, g, hg, -⟩
      exact List.not_mem_nil hg
  | cons program tokens =>
      constructor
      · rintro hstores ⟨hread, g, hg, hnot⟩
        obtain ⟨st, hst⟩ := (readAll_ok_iff I toLower _ (.locals, {})).mpr hread
        have haccepts : Accepts I toLower (program :: tokens) st.2 :=
          ⟨List.cons_ne_nil _ _,
            (ofArgs_groupsOf ..).trans (congrArg (Except.map Prod.snd) hst)⟩
        obtain ⟨filling, hall⟩ := hstores st.2 haccepts
        exact hnot (written_of_storesAll hall g hg)
      · intro hwritten c haccepts
        have hofArgs := haccepts.2
        rw [ofArgs_groupsOf] at hofArgs
        cases hst : readAll I toLower (groupsOf tokens) (.locals, {}) with
        | error e => exact absurd (hst ▸ hofArgs) (by simp [Except.map])
        | ok st =>
            rw [hst] at hofArgs
            obtain rfl : st.2 = c := Except.ok.inj hofArgs
            have hread := (readAll_ok_iff I toLower _ (.locals, {})).mp ⟨st, hst⟩
            refine ⟨st.1, storesAll_of_written hst fun g hg => ?_⟩
            -- a group that is not written so would be the one excluded
            by_contra hnot
            exact hwritten ⟨hread, g, hg, hnot⟩

/-- The port 65536 is accepted and stored as 0, the port `36412x` as 36412, and the message size -1
as 18446744073709551615. -/
theorem not_storesAsWritten :
    ¬ StoresAsWritten Inet.reference asciiToLower
        [ascii "sctp_sandbox", ascii "127.0.0.1", ascii "65536"] ∧
      ofArgs Inet.reference asciiToLower
          [ascii "sctp_sandbox", ascii "127.0.0.1", ascii "65536"] =
        .ok { locals := [.ofText Inet.reference (ascii "127.0.0.1") 0] } ∧
      ¬ StoresAsWritten Inet.reference asciiToLower
        [ascii "sctp_sandbox", ascii "127.0.0.1", ascii "36412x"] ∧
      ofArgs Inet.reference asciiToLower
          [ascii "sctp_sandbox", ascii "127.0.0.1", ascii "36412x"] =
        .ok { locals := [.ofText Inet.reference (ascii "127.0.0.1") 36412] } ∧
      ¬ StoresAsWritten Inet.reference asciiToLower
        [ascii "sctp_sandbox", ascii "-msg", ascii "-1"] ∧
      ofArgs Inet.reference asciiToLower [ascii "sctp_sandbox", ascii "-msg", ascii "-1"] =
        .ok { bigMsgSize := 18446744073709551615 } := by
  have hlarge := ofArgs_groupsOf Inet.reference asciiToLower (ascii "sctp_sandbox")
    [ascii "127.0.0.1", ascii "65536"]
  have htrailing := ofArgs_groupsOf Inet.reference asciiToLower (ascii "sctp_sandbox")
    [ascii "127.0.0.1", ascii "36412x"]
  have hnegative := ofArgs_groupsOf Inet.reference asciiToLower (ascii "sctp_sandbox")
    [ascii "-msg", ascii "-1"]
  refine ⟨fun h => ?_, hlarge, fun h => ?_, htrailing, fun h => ?_, hnegative⟩
  · obtain ⟨filling, hall⟩ := h _ ⟨List.cons_ne_nil _ _, hlarge⟩
    obtain ⟨n, hdenotes, -, hle⟩ := written_of_storesAll hall _ List.mem_cons_self
    obtain ⟨hstoi, -⟩ := stoi_of_readable hdenotes ⟨65536, rfl⟩
    obtain rfl : (65536 : Int) = n := Except.ok.inj hstoi
    exact absurd hle (by decide)
  · obtain ⟨filling, hall⟩ := h _ ⟨List.cons_ne_nil _ _, htrailing⟩
    obtain ⟨n, hdenotes, -⟩ := written_of_storesAll hall _ List.mem_cons_self
    -- the last byte is no digit
    obtain ⟨front, d, hlast⟩ := hdenotes.ends_with_digit
    have hbyte := congrArg List.getLast? hlast
    rw [List.getLast?_concat] at hbyte
    exact absurd (Option.some.inj hbyte).symm ((by decide : ∀ d, Numeral.digitText d ≠ 120) d)
  · obtain ⟨filling, hall⟩ := h _ ⟨List.cons_ne_nil _ _, hnegative⟩
    obtain ⟨n, hdenotes, hn⟩ := written_of_storesAll hall _ List.mem_cons_self
    obtain ⟨hstoi, -⟩ := stoi_of_readable hdenotes ⟨-1, rfl⟩
    obtain rfl : (-1 : Int) = n := Except.ok.inj hstoi
    exact absurd (hn rfl) (by decide)

end NetworkConfiguration

end SctpSandbox
