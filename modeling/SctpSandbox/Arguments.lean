import SctpSandbox.NetworkConfiguration

/-! # Which arguments the constructor accepts

`ArgGroup` is a complete group of arguments by its shape alone: what stands in the place of a
number need not be one. The loop takes one group at a time and throws where `stoi` does
(`loop_read`). Every list of arguments is complete groups with at most one argument behind them that
lacks the one belonging to it (`exists_groups`), and the loop ends in front of that one: it is
accepted, and left out. -/

namespace SctpSandbox

namespace NetworkConfiguration

/-- The options that the argument behind them belongs to. -/
def valueOptions : List Arg := [ascii "-p", ascii "-mtu", ascii "-seg", ascii "-msg"]

/-- The argument behind this one belongs to it: to an address, or to an option with a value. -/
def TakesNext (arg : Arg) : Prop := arg.head? ≠ some 45 ∨ arg ∈ valueOptions

instance (arg : Arg) : Decidable (TakesNext arg) := inferInstanceAs (Decidable (_ ∨ _))

/-- A complete group of arguments, whatever is in the place of its number. -/
inductive ArgGroup where
  /-- An address and its port. -/
  | endpoint (addr port : Arg) (haddr : addr.head? ≠ some 45)
  /-- `-p` and a name. -/
  | protocol (name : Arg)
  /-- `-mtu`, `-seg` or `-msg`, and its value. -/
  | int (o : IntOption) (value : Arg)
  /-- A flag of its own: `-r`, or one the constructor does not know. -/
  | single (flag : Arg) (hsingle : ¬ TakesNext flag)

namespace ArgGroup

/-- The arguments of a group. -/
def tokens : ArgGroup → List Arg
  | endpoint addr port _ => [addr, port]
  | protocol name => [ascii "-p", name]
  | int o value => [o.flag, value]
  | single flag _ => [flag]

/-- What stands in the place of a number. -/
def number? : ArgGroup → Option Arg
  | endpoint _ port _ => some port
  | protocol _ => none
  | int _ value => some value
  | single _ _ => none

/-- `stoi` reads the number of the group, if it has one. -/
def Readable (g : ArgGroup) : Prop := ∀ t ∈ g.number?, ∃ n, stoi t = .ok n

/-- The group is `-p` and a name. -/
def isProtocol : ArgGroup → Bool
  | protocol _ => true
  | _ => false

end ArgGroup

/-- The arguments are complete groups. -/
def Complete (tokens : List Arg) : Prop :=
  ∃ gs : List ArgGroup, tokens = gs.flatMap ArgGroup.tokens

/-- Behind complete groups, whose numbers `stoi` reads, the arguments end with one that lacks the
argument belonging to it. -/
def EndsShort (tokens : List Arg) : Prop :=
  ∃ (gs : List ArgGroup) (arg : Arg), (∀ g ∈ gs, g.Readable) ∧ TakesNext arg ∧
    tokens = gs.flatMap ArgGroup.tokens ++ [arg]

/-- The constructor takes the arguments and returns. Without any argument, not even the name of the
program, `args.size() - 1` would wrap and the loop would run behind the end. -/
def Accepts (I : Inet) (toLower : Arg → Arg) (args : List Arg) (c : NetworkConfiguration) : Prop :=
  args ≠ [] ∧ ofArgs I toLower args = .ok c

/-! ## One group -/

variable {I : Inet} {toLower : Arg → Arg} {args rest tokens : List Arg} {i : ℕ} {filling : Filling}
  {c : NetworkConfiguration} {g : ArgGroup} {gs : List ArgGroup} {arg : Arg}

/-- What the body of the loop makes of a group. -/
def read (I : Inet) (toLower : Arg → Arg) (st : Filling × NetworkConfiguration) :
    ArgGroup → Except StoiError (Filling × NetworkConfiguration)
  | .endpoint addr port _ => do
      let n ← stoi port
      return (st.1, st.2.pushBack st.1 (.ofText I addr (toPort n)))
  | .protocol name => return (st.1, { st.2 with protocol := some (getProtocol toLower name) })
  | .int o value => do
      let n ← stoi value
      return (st.1, st.2.setOption o n)
  | .single flag _ => return (if flag = ascii "-r" then .remotes else st.1, st.2)

/-- The flag of an option with a number takes the token behind it. -/
theorem takesNext_flag (o : IntOption) : TakesNext o.flag := by
  cases o <;> exact Or.inr (by decide)

/-- An option with a value is `-p` or one with a number. -/
theorem mem_valueOptions : arg ∈ valueOptions ↔
    arg = ascii "-p" ∨ ∃ o : IntOption, arg = o.flag := by
  simp only [valueOptions, List.mem_cons, List.not_mem_nil, or_false]
  constructor
  · rintro (h | h | h | h)
    · exact Or.inl h
    · exact Or.inr ⟨.mtu, h⟩
    · exact Or.inr ⟨.seg, h⟩
    · exact Or.inr ⟨.msg, h⟩
  · rintro (h | ⟨o, h⟩)
    · exact Or.inl h
    · cases o with
      | mtu => exact Or.inr (Or.inl h)
      | seg => exact Or.inr (Or.inr (Or.inl h))
      | msg => exact Or.inr (Or.inr (Or.inr h))

/-- **The loop takes one group at a time**: it throws where the number of the group cannot be read,
and goes on behind the group otherwise. -/
theorem loop_read (h : args.drop i = g.tokens ++ rest) :
    loop I toLower args i filling c = (read I toLower (filling, c) g).bind fun st =>
      loop I toLower args (i + g.tokens.length) st.1 st.2 := by
  cases g with
  | endpoint addr port haddr =>
      obtain ⟨hlt, harg, hnext⟩ := getD_of_drop_pair h
      rw [loop, dif_pos hlt]
      simp only [harg, hnext, if_neg haddr, read]
      cases stoi port <;> rfl
  | protocol name =>
      obtain ⟨hlt, harg, hnext⟩ := getD_of_drop_pair h
      rw [loop, dif_pos hlt]
      simp only [harg, hnext, read]
      rfl
  | int o value =>
      obtain ⟨hlt, harg, hnext⟩ := getD_of_drop_pair h
      rw [loop, dif_pos hlt]
      simp only [harg, hnext, if_pos (flag_head o), if_neg (flag_ne_p o), read]
      cases o <;> cases stoi value <;> rfl
  | single flag hsingle =>
      have hdash : flag.head? = some 45 := by
        by_contra hne
        exact hsingle (Or.inl hne)
      have hvalue : flag ∉ valueOptions := fun hmem => hsingle (Or.inr hmem)
      rw [loop_single h hdash hvalue]
      cases rest with
      | nil =>
          -- the last argument is not looked at, and nothing is filled behind it
          obtain ⟨-, -, hlen⟩ := getD_of_drop h
          have hstop : args.length ≤ (i + 1) + 1 := hlen.le.trans (Nat.le_succ _)
          exact (loop_stop hstop).trans (loop_stop hstop).symm
      | cons t rest =>
          by_cases hr : flag = ascii "-r"
          · rw [if_pos ⟨List.cons_ne_nil _ _, hr⟩, read, if_pos hr]
            rfl
          · rw [if_neg fun h => hr h.2, read, if_neg hr]
            rfl

/-- A group is read when its number is. -/
theorem read_ok_iff (st : Filling × NetworkConfiguration) (g : ArgGroup) :
    (∃ st', read I toLower st g = .ok st') ↔ g.Readable := by
  -- whatever is done with the number, only `stoi` can fail
  have hnumber : ∀ (t : Arg) (f : Int → Filling × NetworkConfiguration),
      (∃ st', (stoi t >>= fun n => pure (f n)) = (.ok st' : Except StoiError _)) ↔
        ∃ n, stoi t = .ok n := by
    intro t f
    cases stoi t with
    | error e =>
        constructor
        · rintro ⟨st', h⟩
          exact absurd h (by simp [bind, Except.bind])
        · rintro ⟨n, h⟩
          exact absurd h (by simp)
    | ok n => exact ⟨fun _ => ⟨n, rfl⟩, fun _ => ⟨f n, rfl⟩⟩
  cases g with
  | endpoint addr port haddr =>
      rw [read, hnumber, ArgGroup.Readable]
      simp [ArgGroup.number?]
  | protocol name => exact ⟨fun _ t h => absurd h (by simp [ArgGroup.number?]), fun _ => ⟨_, rfl⟩⟩
  | int o value =>
      rw [read, hnumber, ArgGroup.Readable]
      simp [ArgGroup.number?]
  | single flag hsingle =>
      exact ⟨fun _ t h => absurd h (by simp [ArgGroup.number?]), fun _ => ⟨_, rfl⟩⟩

/-! ## All groups -/

/-- The groups one after the other. -/
def readAll (I : Inet) (toLower : Arg → Arg) (gs : List ArgGroup)
    (st : Filling × NetworkConfiguration) : Except StoiError (Filling × NetworkConfiguration) :=
  gs.foldlM (read I toLower) st

/-- At most one argument behind the groups is left out. -/
theorem loop_readAll (gs : List ArgGroup) (hrest : rest.length ≤ 1)
    (h : args.drop i = gs.flatMap ArgGroup.tokens ++ rest) :
    loop I toLower args i filling c = (readAll I toLower gs (filling, c)).map Prod.snd := by
  induction gs generalizing i filling c with
  | nil =>
      -- at most one token is left, and the loop stops in front of it
      have hlen := congrArg List.length h
      rw [List.length_drop, List.flatMap_nil, List.nil_append] at hlen
      rw [loop_stop (by omega)]
      rfl
  | cons g gs ih =>
      rw [List.flatMap_cons, List.append_assoc] at h
      have hdrop : args.drop (i + g.tokens.length) = gs.flatMap ArgGroup.tokens ++ rest := by
        rw [← List.drop_drop, h, List.drop_left]
      -- the loop reads the group, or fails with it
      rw [loop_read h, readAll, List.foldlM_cons]
      cases read I toLower (filling, c) g with
      | error e => rfl
      | ok st => exact ih hdrop

/-- The reading of groups succeeds exactly when each of them is readable: what was filled before
does not matter. -/
theorem readAll_ok_iff (I : Inet) (toLower : Arg → Arg) (gs : List ArgGroup)
    (st : Filling × NetworkConfiguration) :
    (∃ st', readAll I toLower gs st = .ok st') ↔ ∀ g ∈ gs, g.Readable := by
  induction gs generalizing st with
  | nil => exact ⟨fun _ g hg => absurd hg List.not_mem_nil, fun _ => ⟨st, rfl⟩⟩
  | cons g gs ih =>
      rw [List.forall_mem_cons, ← read_ok_iff st g, readAll, List.foldlM_cons]
      cases hread : read I toLower st g with
      | error e =>
          constructor
          · rintro ⟨st', h⟩
            exact absurd h (by simp [bind, Except.bind])
          · rintro ⟨⟨st', h⟩, -⟩
            exact absurd h (by simp)
      | ok st₁ => exact ⟨fun h => ⟨⟨st₁, rfl⟩, (ih st₁).mp h⟩, fun h => (ih st₁).mpr h.2⟩

/-- The complete groups at the front of some arguments. -/
def groupsOf : List Arg → List ArgGroup
  | [] => []
  | [arg] => if h : TakesNext arg then [] else [.single arg h]
  | arg :: next :: rest =>
      if haddr : arg.head? ≠ some 45 then .endpoint arg next haddr :: groupsOf rest
      else if arg = ascii "-p" then .protocol next :: groupsOf rest
      else if arg = ascii "-mtu" then .int .mtu next :: groupsOf rest
      else if arg = ascii "-seg" then .int .seg next :: groupsOf rest
      else if arg = ascii "-msg" then .int .msg next :: groupsOf rest
      else if h : TakesNext arg then []
      else .single arg h :: groupsOf (next :: rest)

/-- Every list of arguments is complete groups, and at most one argument that lacks its own. -/
theorem groupsOf_spec (tokens : List Arg) : ∃ rest : List Arg,
    tokens = (groupsOf tokens).flatMap ArgGroup.tokens ++ rest ∧ rest.length ≤ 1 ∧
      ∀ arg ∈ rest, TakesNext arg := by
  -- each case with a rest puts a group in front of what the rest is
  have hcons : ∀ {tokens behind : List Arg} (g : ArgGroup), tokens = g.tokens ++ behind →
      (∃ rest : List Arg, behind = (groupsOf behind).flatMap ArgGroup.tokens ++ rest ∧
        rest.length ≤ 1 ∧ ∀ arg ∈ rest, TakesNext arg) →
      ∃ rest : List Arg, tokens = (g :: groupsOf behind).flatMap ArgGroup.tokens ++ rest ∧
        rest.length ≤ 1 ∧ ∀ arg ∈ rest, TakesNext arg := by
    rintro tokens behind g rfl ⟨rest, hbehind, hrest⟩
    refine ⟨rest, ?_, hrest⟩
    rw [List.flatMap_cons, List.append_assoc, ← hbehind]
  fun_induction groupsOf tokens with
  | case1 => exact ⟨[], rfl, Nat.zero_le 1, fun arg h => absurd h List.not_mem_nil⟩
  | case2 arg h => exact ⟨[arg], rfl, le_rfl, by simpa using h⟩
  | case3 arg h => exact ⟨[], rfl, Nat.zero_le 1, fun arg h => absurd h List.not_mem_nil⟩
  | case4 arg next rest haddr ih => exact hcons (.endpoint arg next haddr) rfl ih
  | case5 next rest haddr ih => exact hcons (.protocol next) rfl ih
  | case6 next rest haddr hp ih => exact hcons (.int .mtu next) rfl ih
  | case7 next rest haddr hp hmtu ih => exact hcons (.int .seg next) rfl ih
  | case8 next rest haddr hp hmtu hseg ih => exact hcons (.int .msg next) rfl ih
  | case9 arg next rest haddr hp hmtu hseg hmsg h =>
      -- every option with a value has its own case
      exact absurd (h.resolve_left haddr) (by simp [valueOptions, hp, hmtu, hseg, hmsg])
  | case10 arg next rest haddr hp hmtu hseg hmsg h ih => exact hcons (.single arg h) rfl ih

/-- Every token list falls into groups and at most one token that still waits for its value. -/
theorem exists_groups (tokens : List Arg) : ∃ (gs : List ArgGroup) (rest : List Arg),
    tokens = gs.flatMap ArgGroup.tokens ++ rest ∧ rest.length ≤ 1 ∧ ∀ arg ∈ rest, TakesNext arg :=
  ⟨groupsOf tokens, groupsOf_spec tokens⟩

/-- **What the constructor makes of any arguments**: the groups one after the other, without an
argument that is left behind them. -/
theorem ofArgs_readAll (program : Arg) (gs : List ArgGroup) (hrest : rest.length ≤ 1) :
    ofArgs I toLower (program :: (gs.flatMap ArgGroup.tokens ++ rest)) =
      (readAll I toLower gs (.locals, {})).map Prod.snd :=
  loop_readAll gs hrest rfl

/-- The parser reads the groups of what stands behind the program name. -/
theorem ofArgs_groupsOf (I : Inet) (toLower : Arg → Arg) (program : Arg) (tokens : List Arg) :
    ofArgs I toLower (program :: tokens) =
      (readAll I toLower (groupsOf tokens) (.locals, {})).map Prod.snd := by
  obtain ⟨rest, htokens, hrest, -⟩ := groupsOf_spec tokens
  rw [← ofArgs_readAll program (groupsOf tokens) hrest, ← htokens]

/-- Such arguments are accepted when every number can be read. -/
theorem accepts_iff_readable (program : Arg) (gs : List ArgGroup) (hrest : rest.length ≤ 1) :
    (∃ c, Accepts I toLower (program :: (gs.flatMap ArgGroup.tokens ++ rest)) c) ↔
      ∀ g ∈ gs, g.Readable := by
  rw [← readAll_ok_iff I toLower gs (.locals, {})]
  simp only [Accepts, ofArgs_readAll program gs hrest]
  cases readAll I toLower gs (.locals, {}) with
  | error e =>
      constructor
      · rintro ⟨c, -, h⟩
        exact absurd h (by simp [Except.map])
      · rintro ⟨st, h⟩
        exact absurd h (by simp)
  | ok st => exact ⟨fun _ => ⟨st, rfl⟩, fun _ => ⟨st.2, List.cons_ne_nil _ _, rfl⟩⟩

/-! ## Cutting the arguments into groups -/

/-- The first argument of a group says whether a second one belongs to it. -/
theorem ArgGroup.tokens_eq (g : ArgGroup) : (∃ arg next, TakesNext arg ∧ g.tokens = [arg, next]) ∨
    ∃ arg, ¬ TakesNext arg ∧ g.tokens = [arg] := by
  cases g with
  | endpoint addr port haddr => exact Or.inl ⟨addr, port, Or.inl haddr, rfl⟩
  | protocol name => exact Or.inl ⟨_, name, Or.inr (mem_valueOptions.mpr (Or.inl rfl)), rfl⟩
  | int o value => exact Or.inl ⟨o.flag, value, takesNext_flag o, rfl⟩
  | single flag hsingle => exact Or.inr ⟨flag, hsingle, rfl⟩

/-- So the arguments can be cut in one way only. -/
theorem ArgGroup.tokens_cancel {g g' : ArgGroup} {xs ys : List Arg}
    (h : g.tokens ++ xs = g'.tokens ++ ys) : g.tokens = g'.tokens ∧ xs = ys := by
  obtain ⟨arg, next, htakes, hg⟩ | ⟨arg, hsingle, hg⟩ := g.tokens_eq <;>
    obtain ⟨arg', next', htakes', hg'⟩ | ⟨arg', hsingle', hg'⟩ := g'.tokens_eq <;>
    rw [hg, hg'] at h ⊢ <;> simp only [List.cons_append, List.nil_append, List.cons.injEq] at h
  · obtain ⟨rfl, rfl, h⟩ := h
    exact ⟨rfl, h⟩
  · exact absurd (h.1 ▸ htakes) hsingle'
  · exact absurd (h.1 ▸ htakes') hsingle
  · obtain ⟨rfl, h⟩ := h
    exact ⟨rfl, h⟩

/-- A group in front does not change whether the rest is complete. -/
theorem complete_group_iff : Complete (g.tokens ++ tokens) ↔ Complete tokens := by
  constructor
  · rintro ⟨gs, h⟩
    cases gs with
    -- no groups have no tokens, but this one has
    | nil =>
        obtain ⟨arg, next, -, hg⟩ | ⟨arg, -, hg⟩ := g.tokens_eq <;>
          exact absurd h (by simp [hg])
    | cons g' gs =>
        rw [List.flatMap_cons] at h
        exact ⟨gs, (ArgGroup.tokens_cancel h).2⟩
  · rintro ⟨gs, rfl⟩
    exact ⟨g :: gs, (List.flatMap_cons ..).symm⟩

/-- Several groups in front do not change whether the rest is complete. -/
theorem complete_append_iff (gs : List ArgGroup) :
    Complete (gs.flatMap ArgGroup.tokens ++ tokens) ↔ Complete tokens := by
  induction gs with
  | nil => rfl
  | cons g gs ih => rw [List.flatMap_cons, List.append_assoc, complete_group_iff, ih]

/-- A token that takes a value is not complete alone. -/
theorem not_complete_singleton (h : TakesNext arg) : ¬ Complete [arg] := by
  rintro ⟨gs, hgs⟩
  cases gs with
  | nil => exact absurd hgs (by simp)
  | cons g gs =>
      rw [List.flatMap_cons] at hgs
      obtain ⟨arg', next, -, hg⟩ | ⟨arg', hsingle, hg⟩ := g.tokens_eq <;> rw [hg] at hgs
      · exact absurd hgs (by simp)
      · obtain ⟨rfl, -⟩ := List.cons.inj hgs
        exact hsingle h

/-! ## The protocol -/

/-- `-p` and a name stand behind complete groups. -/
def GivesProtocol (tokens : List Arg) : Prop :=
  ∃ (gs : List ArgGroup) (name : Arg) (rest : List Arg),
    tokens = gs.flatMap ArgGroup.tokens ++ ascii "-p" :: name :: rest

/-- Only `-p` sets the protocol. -/
theorem read_protocol {st st' : Filling × NetworkConfiguration}
    (h : read I toLower st g = .ok st') :
    st'.2.protocol.isSome = (g.isProtocol || st.2.protocol.isSome) := by
  cases g with
  | endpoint addr port haddr =>
      rw [read] at h
      cases hport : stoi port with
      | error e => exact absurd (hport ▸ h) (by simp [bind, Except.bind])
      | ok n =>
          rw [hport] at h
          obtain rfl := Except.ok.inj h
          obtain ⟨f, c⟩ := st
          cases f <;> rfl
  | protocol name =>
      obtain rfl := Except.ok.inj h
      rfl
  | int o value =>
      rw [read] at h
      cases hvalue : stoi value with
      | error e => exact absurd (hvalue ▸ h) (by simp [bind, Except.bind])
      | ok n =>
          rw [hvalue] at h
          obtain rfl := Except.ok.inj h
          cases o <;> rfl
  | single flag hsingle =>
      obtain rfl := Except.ok.inj h
      rfl

/-- Inversion of a successful reading: the first group was read, and then the others. -/
theorem readAll_cons_ok {st st' : Filling × NetworkConfiguration} {gs : List ArgGroup}
    (h : readAll I toLower (g :: gs) st = .ok st') :
    ∃ st₁, read I toLower st g = .ok st₁ ∧ readAll I toLower gs st₁ = .ok st' := by
  rw [readAll, List.foldlM_cons] at h
  cases hread : read I toLower st g with
  | error e => exact absurd (hread ▸ h) (by simp [bind, Except.bind])
  | ok st₁ =>
      rw [hread] at h
      exact ⟨st₁, rfl, h⟩

/-- After a successful reading the protocol is set exactly when a group set it or it was set before.
-/
theorem readAll_protocol {st st' : Filling × NetworkConfiguration} (gs : List ArgGroup)
    (h : readAll I toLower gs st = .ok st') :
    st'.2.protocol.isSome = (gs.any ArgGroup.isProtocol || st.2.protocol.isSome) := by
  induction gs generalizing st with
  | nil =>
      obtain rfl := Except.ok.inj h
      rfl
  | cons g gs ih =>
      obtain ⟨st₁, hread, hrest⟩ := readAll_cons_ok h
      rw [ih hrest, read_protocol hread, List.any_cons, ← Bool.or_assoc,
        Bool.or_comm g.isProtocol]

/-- Only the protocol group is spelled with the protocol flag. -/
theorem ArgGroup.isProtocol_of_tokens {name : Arg} (h : g.tokens = [ascii "-p", name]) :
    g.isProtocol = true := by
  cases g with
  | endpoint addr port haddr =>
      obtain ⟨rfl, -⟩ := List.cons.inj h
      exact absurd rfl haddr
  | protocol name => rfl
  | int o value => exact absurd (List.cons.inj h).1 (flag_ne_p o)
  | single flag hsingle => exact absurd (List.cons.inj h).2 (by simp)

/-- The groups the arguments are cut into have `-p` among them when the arguments give it. -/
theorem givesProtocol_iff (gs : List ArgGroup) (hrest : rest.length ≤ 1) :
    GivesProtocol (gs.flatMap ArgGroup.tokens ++ rest) ↔ gs.any ArgGroup.isProtocol = true := by
  constructor
  · rintro ⟨gs', name, behind, h⟩
    -- by induction on the groups in front of `-p`: the first groups are the same
    induction gs' generalizing gs with
    | nil =>
        cases gs with
        | nil => exact absurd (congrArg List.length h) (by simp; omega)
        | cons g gs =>
            rw [List.flatMap_cons, List.append_assoc] at h
            have hg : g.tokens = (ArgGroup.protocol name).tokens := (ArgGroup.tokens_cancel h).1
            rw [List.any_cons, ArgGroup.isProtocol_of_tokens hg, Bool.true_or]
    | cons g' gs' ih =>
        cases gs with
        | nil => exact absurd (congrArg List.length h) (by simp; omega)
        | cons g gs =>
            rw [List.flatMap_cons, List.flatMap_cons, List.append_assoc, List.append_assoc] at h
            rw [List.any_cons, ih gs (ArgGroup.tokens_cancel h).2, Bool.or_true]
  · intro h
    obtain ⟨g, hg, hprotocol⟩ := List.any_eq_true.mp h
    obtain ⟨before, behind, rfl⟩ := List.append_of_mem hg
    cases g with
    | protocol name =>
        refine ⟨before, name, behind.flatMap ArgGroup.tokens ++ rest, ?_⟩
        rw [List.flatMap_append, List.flatMap_cons, List.append_assoc, List.append_assoc]
        rfl
    | endpoint addr port haddr => exact Bool.noConfusion hprotocol
    | int o value => exact Bool.noConfusion hprotocol
    | single flag hsingle => exact Bool.noConfusion hprotocol

end NetworkConfiguration

end SctpSandbox
