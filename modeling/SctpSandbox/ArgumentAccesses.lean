import SctpSandbox.Arguments

/-! # The accesses of the constructor

Here the constructor runs with its own arithmetic: `args.size() - 1` is unsigned, the index is an
`unsigned`, and every `args[i]` and `front()` says whether there is something to read. `Path` is the
sequence of the indices from which the loop reads, by the shape of the arguments alone. Where it
stays in bounds, the constructor makes of the arguments what `ofArgs` does (`ParserSafe.run_eq`). -/

namespace SctpSandbox

namespace NetworkConfiguration

/-- Why the constructor does not return. -/
inductive ParserError where
  /-- The exception of `stoi`. -/
  | stoi (e : StoiError)
  /-- No exception: `args[i]` is read behind the end. -/
  | outOfBounds (i : ℕ)
  /-- No exception: `front()` is taken of an empty argument. -/
  | emptyFront

namespace Checked

variable (I : Inet) (toLower : Arg → Arg) (args : List Arg)

/-- `args.size() - 1`, which wraps for the empty list. -/
def sizeMinusOne : ℕ := if args.length = 0 then 18446744073709551615 else args.length - 1

/-- `args[i]`. -/
def argAt (i : UInt32) : Except ParserError Arg :=
  match args[i.toNat]? with
  | some arg => .ok arg
  | none => .error (.outOfBounds i.toNat)

/-- `arg.front()`. -/
def front (arg : Arg) : Except ParserError Byte :=
  match arg with
  | [] => .error .emptyFront
  | b :: _ => .ok b

/-- `stoi(args[++i])`, the index advanced already. -/
def stoiAt (i : UInt32) : Except ParserError Int := do
  let next ← argAt args i
  (stoi next).mapError .stoi

/-- The body of the loop, with the index it leaves. -/
def body (i : UInt32) (filling : Filling) (c : NetworkConfiguration) :
    Except ParserError (UInt32 × Filling × NetworkConfiguration) := do
  let arg ← argAt args i
  let b ← front arg
  if b = 45 then
    if arg = ascii "-p" then
      let next ← argAt args (i + 1)
      return (i + 1, filling, { c with protocol := some (getProtocol toLower next) })
    else if arg = ascii "-mtu" then
      let n ← stoiAt args (i + 1)
      return (i + 1, filling, c.setOption .mtu n)
    else if arg = ascii "-seg" then
      let n ← stoiAt args (i + 1)
      return (i + 1, filling, c.setOption .seg n)
    else if arg = ascii "-msg" then
      let n ← stoiAt args (i + 1)
      return (i + 1, filling, c.setOption .msg n)
    else if arg = ascii "-r" then return (i, .remotes, c)
    else return (i, filling, c)
  else
    let n ← stoiAt args (i + 1)
    return (i + 1, filling, c.pushBack filling (.ofText I arg (toPort n)))

/-- The loop, for at most some iterations: `none` is a loop that goes on. -/
def run : ℕ → UInt32 → Filling → NetworkConfiguration →
    Option (Except ParserError NetworkConfiguration)
  | 0, _, _, _ => none
  | n + 1, i, filling, c =>
      if i.toNat < sizeMinusOne args then
        match body I toLower args i filling c with
        | .ok (i', filling', c') => run n (i' + 1) filling' c'
        | .error e => some (.error e)
      else some (.ok c)

/-- The loop ends, by returning or by the exception of `stoi`. -/
def EndsWithin (i : UInt32) (filling : Filling) (c : NetworkConfiguration) : Prop :=
  ∃ n r, run I toLower args n i filling c = some r ∧ r ≠ .error .emptyFront ∧
    ∀ j, r ≠ .error (.outOfBounds j)

end Checked

open Checked

/-- Every access of the constructor is in bounds, no `front()` is taken of an empty argument, and
the loop terminates. -/
def ParserSafe (I : Inet) (toLower : Arg → Arg) (args : List Arg) : Prop :=
  EndsWithin I toLower args 1 .locals {}

/-! ## The path of the index -/

/-- By how much the index advances over an argument. -/
def advance (arg : Arg) : UInt32 := if TakesNext arg then 2 else 1

/-- The argument is followed by a number. -/
def TakesNumber (arg : Arg) : Prop := TakesNext arg ∧ arg ≠ ascii "-p"

instance (arg : Arg) : Decidable (TakesNumber arg) := inferInstanceAs (Decidable (_ ∧ _))

/-- `stoi` reads the number behind the argument at an index, if there has to be one. -/
def ReadableAt (args : List Arg) (i : UInt32) : Prop :=
  TakesNumber (args.getD i.toNat []) → ∃ n, stoi (args.getD (i + 1).toNat []) = .ok n

/-- The index after some iterations, while the loop goes on. -/
inductive Path (args : List Arg) : UInt32 → ℕ → UInt32 → Prop
  | zero (i : UInt32) : Path args i 0 i
  | succ {i j : UInt32} {n : ℕ} : i.toNat < sizeMinusOne args → ReadableAt args i →
      Path args (i + advance (args.getD i.toNat [])) n j → Path args i (n + 1) j

/-- The loop looks at no empty argument. -/
def NoEmptyFront (args : List Arg) (i : UInt32) : Prop :=
  ∀ n j, Path args i n j → j.toNat < sizeMinusOne args → args.getD j.toNat [] ≠ []

/-- The index comes to the end, or to a number that `stoi` does not read. -/
def PathEnds (args : List Arg) (i : UInt32) : Prop := ∃ n, ∀ j, ¬ Path args i n j

/-! ## One iteration -/

variable {I : Inet} {toLower : Arg → Arg} {args : List Arg} {i : UInt32} {filling : Filling}
  {c : NetworkConfiguration}

/-- Inside the list the checked read is the unchecked one. -/
theorem argAt_eq (h : i.toNat < args.length) : argAt args i = .ok (args.getD i.toNat []) := by
  rw [argAt, List.getElem?_eq_getElem h, List.getD_eq_getElem?_getD, List.getElem?_eq_getElem h]
  rfl

/-- Below the bound of the loop, the argument and the one behind it are there. -/
theorem lt_length (h : i.toNat < sizeMinusOne args) (hne : args ≠ []) :
    i.toNat < args.length ∧ (i + 1).toNat < args.length := by
  have hlen : args.length ≠ 0 := fun h => hne (List.length_eq_zero_iff.mp h)
  rw [sizeMinusOne, if_neg hlen] at h
  have hsucc : (i + 1).toNat ≤ i.toNat + 1 := by
    rw [UInt32.toNat_add]
    exact Nat.mod_le _ _
  omega

/-- The group an argument begins. -/
theorem exists_group (arg next : Arg) :
    ∃ g : ArgGroup, g.tokens = if TakesNext arg then [arg, next] else [arg] := by
  by_cases h : TakesNext arg
  · rw [if_pos h]
    rcases h with haddr | hoption
    · exact ⟨.endpoint arg next haddr, rfl⟩
    · obtain rfl | ⟨o, rfl⟩ := mem_valueOptions.mp hoption
      · exact ⟨.protocol next, rfl⟩
      · exact ⟨.int o next, rfl⟩
  · rw [if_neg h]
    exact ⟨.single arg h, rfl⟩

/-- An iteration reads the group at the index. -/
theorem body_eq_read {arg next : Arg} (harg : argAt args i = .ok arg)
    (hnext : argAt args (i + 1) = .ok next) (hne : arg ≠ []) {g : ArgGroup}
    (hg : g.tokens = if TakesNext arg then [arg, next] else [arg]) :
    body I toLower args i filling c =
      ((read I toLower (filling, c) g).mapError .stoi).map fun st =>
        (if TakesNext arg then i + 1 else i, st.1, st.2) := by
  have hstoi : stoiAt args (i + 1) = (stoi next).mapError .stoi := by
    rw [stoiAt, hnext]
    rfl
  have hhead : ∃ b, front arg = .ok b ∧ arg.head? = some b := by
    obtain ⟨b, bs, rfl⟩ := List.exists_cons_of_ne_nil hne
    exact ⟨b, rfl, rfl⟩
  obtain ⟨b, hfront, hb⟩ := hhead
  by_cases htakes : TakesNext arg
  · rw [if_pos htakes] at hg ⊢
    cases g with
    | endpoint addr port haddr =>
        obtain ⟨rfl, htail⟩ := List.cons.inj hg
        obtain ⟨rfl, -⟩ := List.cons.inj htail
        -- an address does not begin with a dash
        have hb45 : b ≠ 45 := fun h => haddr (h ▸ hb)
        rw [body, harg]
        simp only [bind, Except.bind, hfront, if_neg hb45, hstoi, read]
        cases stoi port <;> rfl
    | protocol name =>
        obtain ⟨rfl, htail⟩ := List.cons.inj hg
        obtain ⟨rfl, -⟩ := List.cons.inj htail
        obtain rfl : (45 : Byte) = b := Option.some.inj hb
        rw [body, harg]
        simp only [bind, Except.bind, hfront, hnext, read]
        rfl
    | int o value =>
        obtain ⟨rfl, htail⟩ := List.cons.inj hg
        obtain ⟨rfl, -⟩ := List.cons.inj htail
        obtain rfl : (45 : Byte) = b := Option.some.inj ((flag_head o).symm.trans hb)
        rw [body, harg]
        simp only [bind, Except.bind, hfront, if_neg (flag_ne_p o), hstoi, read]
        cases o <;> cases stoi value <;> rfl
    | single flag hsingle => exact absurd (List.cons.inj hg).2 (by simp)
  · rw [if_neg htakes] at hg ⊢
    cases g with
    | endpoint addr port haddr => exact absurd (List.cons.inj hg).2 (by simp)
    | protocol name => exact absurd (List.cons.inj hg).2 (by simp)
    | int o value => exact absurd (List.cons.inj hg).2 (by simp)
    | single flag hsingle =>
        obtain ⟨rfl, -⟩ := List.cons.inj hg
        have hdash : b = 45 := by
          by_contra hne
          exact htakes (Or.inl fun h => hne (Option.some.inj (hb.symm.trans h)))
        have hvalue : flag ∉ valueOptions := fun hmem => htakes (Or.inr hmem)
        simp only [valueOptions, List.mem_cons, List.not_mem_nil, or_false, not_or] at hvalue
        -- none of the branches that advance the index
        obtain ⟨hp, hmtu, hseg, hmsg⟩ := hvalue
        rw [body, harg]
        simp only [bind, Except.bind, hfront, if_pos hdash, if_neg hp, if_neg hmtu, if_neg hseg,
          if_neg hmsg, read]
        by_cases hr : flag = ascii "-r"
        · rw [if_pos hr, if_pos hr]
          rfl
        · rw [if_neg hr, if_neg hr]
          rfl

/-- A group is readable exactly when the loop reads it at the index where it stands. -/
theorem readable_iff_readableAt {g : ArgGroup}
    (hg : g.tokens = if TakesNext (args.getD i.toNat []) then
      [args.getD i.toNat [], args.getD (i + 1).toNat []] else [args.getD i.toNat []]) :
    g.Readable ↔ ReadableAt args i := by
  rw [ReadableAt, TakesNumber]
  -- the same case split on both sides: does the token take the next one?
  by_cases htakes : TakesNext (args.getD i.toNat [])
  · rw [if_pos htakes] at hg
    cases g with
    | endpoint addr port haddr =>
        obtain ⟨harg, htail⟩ := List.cons.inj hg
        obtain ⟨hnext, -⟩ := List.cons.inj htail
        have hp : addr ≠ ascii "-p" := fun h => haddr (h ▸ rfl)
        rw [← harg] at htakes ⊢
        rw [← hnext]
        simp [ArgGroup.Readable, ArgGroup.number?, htakes, hp]
    | protocol name =>
        obtain ⟨harg, -⟩ := List.cons.inj hg
        rw [← harg]
        simp [ArgGroup.Readable, ArgGroup.number?]
    | int o value =>
        obtain ⟨harg, htail⟩ := List.cons.inj hg
        obtain ⟨hnext, -⟩ := List.cons.inj htail
        rw [← harg] at htakes ⊢
        rw [← hnext]
        simp [ArgGroup.Readable, ArgGroup.number?, htakes, flag_ne_p o]
    | single flag hsingle => exact absurd (List.cons.inj hg).2 (by simp)
  · -- a token of one group alone: only `single` has this shape
    rw [if_neg htakes] at hg
    cases g with
    | endpoint addr port haddr => exact absurd (List.cons.inj hg).2 (by simp)
    | protocol name => exact absurd (List.cons.inj hg).2 (by simp)
    | int o value => exact absurd (List.cons.inj hg).2 (by simp)
    | single flag hsingle =>
        exact iff_of_true (fun t h => absurd h (by simp [ArgGroup.number?]))
          fun h => absurd h.1 htakes

/-- **What an iteration does**: it takes the front of an empty argument, or goes on behind a group
whose number can be read, or throws the exception of `stoi`. -/
theorem body_cases (I : Inet) (toLower : Arg → Arg) (hne : args ≠ [])
    (h : i.toNat < sizeMinusOne args) (filling : Filling) (c : NetworkConfiguration) :
    (args.getD i.toNat [] = [] ∧ body I toLower args i filling c = .error .emptyFront) ∨
      args.getD i.toNat [] ≠ [] ∧
        ((ReadableAt args i ∧ ∃ i' filling' c', body I toLower args i filling c =
            .ok (i', filling', c') ∧ i' + 1 = i + advance (args.getD i.toNat [])) ∨
          (¬ ReadableAt args i ∧ ∃ e, body I toLower args i filling c = .error (.stoi e))) := by
  obtain ⟨harg, hnext⟩ := lt_length h hne
  by_cases hempty : args.getD i.toNat [] = []
  · left
    refine ⟨hempty, ?_⟩
    rw [body, argAt_eq harg, hempty]
    rfl
  · right
    refine ⟨hempty, ?_⟩
    obtain ⟨g, hg⟩ := exists_group (args.getD i.toNat []) (args.getD (i + 1).toNat [])
    -- the body reads the group at `i`, so it fails with the group
    have hok : (∃ st', read I toLower (filling, c) g = .ok st') ↔ g.Readable :=
      read_ok_iff (filling, c) g
    rw [body_eq_read (argAt_eq harg) (argAt_eq hnext) hempty hg, ← readable_iff_readableAt hg,
      ← hok]
    cases hread : read I toLower (filling, c) g with
    | error e => exact Or.inr ⟨by simp, e, rfl⟩
    | ok st =>
        refine Or.inl ⟨⟨st, rfl⟩, _, st.1, st.2, rfl, ?_⟩
        -- the index moves past the tokens the group has
        rw [advance]
        split
        · rw [UInt32.add_assoc]
          rfl
        · rfl

/-! ## The loop -/

/-- **The loop ends in bounds exactly when its path does.** -/
theorem endsWithin_iff (hne : args ≠ []) :
    EndsWithin I toLower args i filling c ↔ NoEmptyFront args i ∧ PathEnds args i := by
  constructor
  · rintro ⟨n, r, hrun, hfront, hbounds⟩
    -- by induction on the iterations
    induction n generalizing i filling c with
    | zero => exact absurd hrun (by simp [run])
    | succ n ih =>
        by_cases hlt : i.toNat < sizeMinusOne args
        · rw [run, if_pos hlt] at hrun
          obtain ⟨-, hbody⟩ |
              ⟨hempty, ⟨hread, i', filling', c', hbody, hnext⟩ | ⟨hread, e, hbody⟩⟩ :=
            body_cases I toLower hne hlt filling c
          · rw [hbody] at hrun
            exact absurd (Option.some.inj hrun).symm hfront
          · rw [hbody] at hrun
            have hrest := ih hrun
            rw [hnext] at hrest
            obtain ⟨hno, m, hm⟩ := hrest
            refine ⟨fun k j hpath => ?_, m + 1, fun j hpath => ?_⟩
            · cases hpath with
              | zero => exact fun _ => hempty
              | succ _ _ hpath => exact hno _ j hpath
            · cases hpath with
              | succ _ _ hpath => exact hm j hpath
          · refine ⟨fun k j hpath => ?_, 1, fun j hpath => ?_⟩
            · cases hpath with
              | zero => exact fun _ => hempty
              | succ _ h _ => exact absurd h hread
            · cases hpath with
              | succ _ h _ => exact hread h
        · refine ⟨fun k j hpath => ?_, 1, fun j hpath => ?_⟩
          · cases hpath with
            | zero => exact fun h => absurd h hlt
            | succ h _ _ => exact absurd h hlt
          · cases hpath with
            | succ h _ _ => exact hlt h
  · rintro ⟨hno, m, hm⟩
    induction m generalizing i filling c with
    | zero => exact absurd (.zero i) (hm i)
    | succ m ih =>
        by_cases hlt : i.toNat < sizeMinusOne args
        · obtain ⟨hempty, -⟩ | ⟨-, ⟨hread, i', filling', c', hbody, hnext⟩ | ⟨-, e, hbody⟩⟩ :=
            body_cases I toLower hne hlt filling c
          · exact absurd hempty (hno 0 i (.zero i) hlt)
          · have hrest : EndsWithin I toLower args (i' + 1) filling' c' :=
              ih (fun k j hpath => hno (k + 1) j (.succ hlt hread (hnext ▸ hpath)))
                (fun j hpath => hm j (.succ hlt hread (hnext ▸ hpath)))
            obtain ⟨n, r, hrun, hr⟩ := hrest
            refine ⟨n + 1, r, ?_, hr⟩
            rw [run, if_pos hlt, hbody]
            exact hrun
          · refine ⟨1, .error (.stoi e), ?_, by simp, by simp⟩
            rw [run, if_pos hlt, hbody]
        · exact ⟨1, .ok c, by rw [run, if_neg hlt], by simp, by simp⟩

/-- With fewer arguments than `unsigned` has numbers the index does not wrap, and comes to the
end. -/
theorem pathEnds_of_length (hne : args ≠ []) (hlen : args.length < 4294967296) (i : UInt32) :
    PathEnds args i := by
  -- each turn leaves less of the list behind the index
  induction hk : args.length - i.toNat using Nat.strong_induction_on generalizing i with
  | _ k ih =>
      by_cases hlt : i.toNat < sizeMinusOne args
      · -- below 2 ^ 32 the index does not wrap, so it gets nearer to the end
        have hadvance : args.length - (i + advance (args.getD i.toNat [])).toNat < k := by
          have hpos : args.length ≠ 0 := fun h => hne (List.length_eq_zero_iff.mp h)
          rw [sizeMinusOne, if_neg hpos] at hlt
          rw [advance]
          split
          · rw [UInt32.toNat_add, Nat.mod_eq_of_lt (by simp; omega)]
            simp
            omega
          · rw [UInt32.toNat_add, Nat.mod_eq_of_lt (by simp; omega)]
            simp
            omega
        obtain ⟨m, hm⟩ := ih _ hadvance _ rfl
        refine ⟨m + 1, fun j hpath => ?_⟩
        cases hpath with
        | succ _ _ hpath => exact hm j hpath
      · refine ⟨1, fun j hpath => ?_⟩
        cases hpath with
        | succ h _ _ => exact hlt h

/-- The group is what is at the index, and behind it is the next index. -/
theorem drop_eq_tokens {g : ArgGroup} (hlen : args.length < 4294967296)
    (harg : i.toNat < args.length) (hnext : (i + 1).toNat < args.length)
    (hg : g.tokens = if TakesNext (args.getD i.toNat []) then
      [args.getD i.toNat [], args.getD (i + 1).toNat []] else [args.getD i.toNat []]) :
    ∃ rest, args.drop i.toNat = g.tokens ++ rest ∧
      ((if TakesNext (args.getD i.toNat []) then i + 1 else i) + 1).toNat =
        i.toNat + g.tokens.length := by
  -- the index does not wrap, as there is an argument at the next one
  have hsucc : (i + 1).toNat = i.toNat + 1 := by
    rw [UInt32.toNat_add, Nat.mod_eq_of_lt (by simp; omega)]
    rfl
  have hget : ∀ j, j < args.length → args.drop j = args.getD j [] :: args.drop (j + 1) := by
    intro j hj
    rw [List.drop_eq_getElem_cons hj, List.getD_eq_getElem?_getD, List.getElem?_eq_getElem hj,
      Option.getD_some]
  rw [hg]
  split
  · refine ⟨args.drop (i.toNat + 1 + 1), ?_, ?_⟩
    · rw [hget _ harg, hsucc, hget _ (hsucc ▸ hnext)]
      rfl
    · rw [UInt32.toNat_add, hsucc, Nat.mod_eq_of_lt (by simp; omega)]
      rfl
  · exact ⟨args.drop (i.toNat + 1), hget _ harg, hsucc⟩

/-- Where no access fails and the index does not wrap, the loop does what `loop` says. -/
theorem run_eq_loop (hne : args ≠ []) (hlen : args.length < 4294967296) {n : ℕ}
    {r : Except ParserError NetworkConfiguration} (hrun : run I toLower args n i filling c = some r)
    (hfront : r ≠ .error .emptyFront) :
    r = (loop I toLower args i.toNat filling c).mapError .stoi := by
  have hpos : args.length ≠ 0 := fun h => hne (List.length_eq_zero_iff.mp h)
  induction n generalizing i filling c with
  | zero => exact absurd hrun (by simp [run])
  | succ n ih =>
      by_cases hlt : i.toNat < sizeMinusOne args
      · obtain ⟨harg, hnext⟩ := lt_length hlt hne
        rw [run, if_pos hlt] at hrun
        by_cases hempty : args.getD i.toNat [] = []
        · rw [body, argAt_eq harg, hempty] at hrun
          -- the `front` of an empty argument would end the run with the exception ruled out
          exact absurd (Option.some.inj hrun).symm hfront
        · obtain ⟨g, hg⟩ := exists_group (args.getD i.toNat []) (args.getD (i + 1).toNat [])
          rw [body_eq_read (argAt_eq harg) (argAt_eq hnext) hempty hg] at hrun
          obtain ⟨rest, hdrop, hindex⟩ := drop_eq_tokens (by omega) harg hnext hg
          rw [loop_read hdrop]
          cases hread : read I toLower (filling, c) g with
          | error e =>
              rw [hread] at hrun
              exact (Option.some.inj hrun).symm
          | ok st =>
              rw [hread] at hrun
              have hrest := ih hrun
              rw [hindex] at hrest
              exact hrest
      · rw [run, if_neg hlt] at hrun
        rw [sizeMinusOne, if_neg hpos] at hlt
        rw [loop_stop (by omega)]
        exact (Option.some.inj hrun).symm

/-- The accesses are safe when the list is not empty, the path meets no empty argument, and it ends
or is too short to wrap. -/
theorem parserSafe_iff_path (I : Inet) (toLower : Arg → Arg) (args : List Arg) :
    ParserSafe I toLower args ↔
      args ≠ [] ∧ NoEmptyFront args 1 ∧ (args.length < 4294967296 ∨ PathEnds args 1) := by
  by_cases hne : args = []
  · subst hne
    refine iff_of_false ?_ fun h => h.1 rfl
    rintro ⟨n, r, hrun, -, hbounds⟩
    cases n with
    | zero => exact absurd hrun (by simp [run])
    | succ n => exact hbounds 1 (Option.some.inj hrun).symm
  · rw [ParserSafe, endsWithin_iff hne, and_iff_right hne]
    refine and_congr_right fun _ => ⟨Or.inr, ?_⟩
    rintro (hlen | hends)
    · exact pathEnds_of_length hne hlen 1
    · exact hends

/-- The loop that reads in bounds is `ofArgs`. -/
theorem ParserSafe.run_eq (h : ParserSafe I toLower args) (hlen : args.length < 4294967296) :
    ∃ n, run I toLower args n 1 .locals {} = some ((ofArgs I toLower args).mapError .stoi) := by
  have hne := ((parserSafe_iff_path I toLower args).mp h).1
  obtain ⟨n, r, hrun, hfront, -⟩ := h
  exact ⟨n, by rw [hrun, run_eq_loop hne hlen hrun hfront]; rfl⟩

/-! ## Groups -/

/-- Where the loop goes on, the group at the index is the first one, and behind it is the next
index. -/
theorem group_at {gs : List ArgGroup} (hne : args ≠ []) (hlen : args.length < 4294967296)
    (hlt : i.toNat < sizeMinusOne args) (hdrop : args.drop i.toNat = gs.flatMap ArgGroup.tokens) :
    ∃ g gs', gs = g :: gs' ∧ g.tokens.head? = some (args.getD i.toNat []) ∧
      args.drop (i + advance (args.getD i.toNat [])).toNat = gs'.flatMap ArgGroup.tokens := by
  obtain ⟨hi, hnext⟩ := lt_length hlt hne
  -- no index here reaches 2 ^ 32
  have hone : (i + 1).toNat = i.toNat + 1 := by
    rw [UInt32.toNat_add, Nat.mod_eq_of_lt (by simp; omega)]
    rfl
  cases gs with
  | nil => exact absurd (List.drop_eq_nil_iff.mp hdrop) (by omega)
  | cons g gs =>
      refine ⟨g, gs, rfl, ?_⟩
      rw [List.flatMap_cons] at hdrop
      rcases g.tokens_eq with ⟨arg, next, htakes, hg⟩ | ⟨arg, hsingle, hg⟩
      · -- the group has two tokens
        rw [hg] at hdrop ⊢
        obtain ⟨harg, hdrop₁, -⟩ := getD_of_drop hdrop
        obtain ⟨-, hdrop₂, -⟩ := getD_of_drop hdrop₁
        have htwo : (i + 2).toNat = i.toNat + 1 + 1 := by
          rw [UInt32.toNat_add, Nat.mod_eq_of_lt (by simp; omega)]
          rfl
        rw [harg, advance, if_pos htakes, htwo]
        exact ⟨rfl, hdrop₂⟩
      · -- the group has one token
        rw [hg] at hdrop ⊢
        obtain ⟨harg, hdrop₁, -⟩ := getD_of_drop hdrop
        rw [harg, advance, if_neg hsingle, hone]
        exact ⟨rfl, hdrop₁⟩

/-- The loop looks at the first argument of each group only. -/
theorem noEmptyFront_groups {gs : List ArgGroup} (hne : args ≠ []) (hlen : args.length < 4294967296)
    (hgs : ∀ g ∈ gs, g.tokens.head? ≠ some [])
    (hdrop : args.drop i.toNat = gs.flatMap ArgGroup.tokens) : NoEmptyFront args i := by
  intro n j hpath
  induction hpath generalizing gs with
  | zero i =>
      intro hlt hempty
      obtain ⟨g, gs, rfl, hhead, -⟩ := group_at hne hlen hlt hdrop
      exact hgs g List.mem_cons_self (hempty ▸ hhead)
  | succ hlt hread hpath ih =>
      obtain ⟨g, gs, rfl, -, hrest⟩ := group_at hne hlen hlt hdrop
      exact ih (fun g' hg' => hgs g' (List.mem_cons_of_mem g hg')) hrest

/-- A group of arguments is one by its shape, and does not begin with an empty argument. -/
theorem Group.exists_argGroup (g : Group) :
    ∃ g' : ArgGroup, g'.tokens = g.tokens ∧ g'.tokens.head? ≠ some [] := by
  cases g with
  | endpoint addr port haddr hport =>
      exact ⟨.endpoint addr port.text haddr.2, rfl, fun h => haddr.1 (Option.some.inj h)⟩
  | protocol name => exact ⟨.protocol name, rfl, fun h => absurd (Option.some.inj h) (by decide)⟩
  | int o n hn hmsg =>
      refine ⟨.int o n.text, rfl, fun h => ?_⟩
      have hflag : o.flag = [] := Option.some.inj h
      exact absurd (hflag ▸ flag_head o) (by simp)
  | remotes => exact ⟨.single (ascii "-r") (by decide), rfl, by decide⟩
  | flag arg hdash hother =>
      have hsingle : ¬ TakesNext arg := by
        rintro (hne | hmem)
        · exact hne hdash
        · exact hother (List.mem_append_left [ascii "-r"] hmem)
      refine ⟨.single arg hsingle, rfl, fun h => ?_⟩
      have hnil : arg = [] := Option.some.inj h
      exact absurd (hnil ▸ hdash) (by simp)

/-- Groups in the parser's sense are groups of tokens, none of which begins with an empty token. -/
theorem exists_argGroups (gs : List Group) : ∃ gs' : List ArgGroup,
    gs'.flatMap ArgGroup.tokens = gs.flatMap Group.tokens ∧
      ∀ g ∈ gs', g.tokens.head? ≠ some [] := by
  induction gs with
  | nil => exact ⟨[], rfl, fun g hg => absurd hg List.not_mem_nil⟩
  | cons g gs ih =>
      obtain ⟨gs', htokens, hheads⟩ := ih
      obtain ⟨g', hg', hhead⟩ := g.exists_argGroup
      refine ⟨g' :: gs', ?_, List.forall_mem_cons.mpr ⟨hhead, hheads⟩⟩
      rw [List.flatMap_cons, List.flatMap_cons, hg', htokens]

/-- The constructor reads groups in bounds, if they are not too many for its index. -/
theorem parserSafe_groups (I : Inet) (toLower : Arg → Arg) (program : Arg) (gs : List Group)
    (hlen : (program :: gs.flatMap Group.tokens).length < 4294967296) :
    ParserSafe I toLower (program :: gs.flatMap Group.tokens) := by
  obtain ⟨gs', htokens, hheads⟩ := exists_argGroups gs
  have hne : program :: gs.flatMap Group.tokens ≠ [] := List.cons_ne_nil _ _
  exact (parserSafe_iff_path I toLower _).mpr
    ⟨hne, noEmptyFront_groups hne hlen hheads htokens.symm, .inl hlen⟩

/-- **What the constructor makes of its arguments**: the name of the program followed by groups is
read as what the groups stand for. Groups of different kinds may be permuted: the order matters
among the addresses and `-r`, and among the groups of one option. The loop with its own unsigned
index and its own accesses reads the same, of fewer arguments than `unsigned` has numbers. -/
theorem ofArgs_groups (I : Inet) (toLower : Arg → Arg) (program : Arg) (gs : List Group) :
    ofArgs I toLower (program :: gs.flatMap Group.tokens) = .ok (Group.meaning I toLower gs) ∧
      (∀ gs' : List Group, (∀ k, k ≠ .other → Group.ofKind k gs' = Group.ofKind k gs) →
        ofArgs I toLower (program :: gs'.flatMap Group.tokens) =
          ofArgs I toLower (program :: gs.flatMap Group.tokens)) ∧
      ((program :: gs.flatMap Group.tokens).length < 4294967296 →
        ∃ n, run I toLower (program :: gs.flatMap Group.tokens) n 1 .locals {} =
          some (.ok (Group.meaning I toLower gs))) := by
  refine ⟨ofArgs_meaning I toLower program gs, fun gs' h => ?_, fun hlen => ?_⟩
  · rw [ofArgs_meaning, ofArgs_meaning, Group.meaning_congr h]
  · obtain ⟨n, hrun⟩ := (parserSafe_groups I toLower program gs hlen).run_eq hlen
    rw [ofArgs_meaning] at hrun
    exact ⟨n, hrun⟩

/-- The port 36412, with a leading zero. -/
def samplePort : Numeral := ⟨.none, [0, 3, 6, 4, 1, 2], by decide⟩

/-- The address `127.0.0.1` and that port. -/
def sampleEndpoint : Group :=
  .endpoint (ascii "127.0.0.1") samplePort ⟨by decide, by decide⟩ ⟨by decide, by decide⟩

/-- `127.0.0.1 036412 -p TCP -r 127.0.0.1 036412 -mtu -1 -debug` and the same groups with the
options in front. -/
theorem ofArgs_groups_sample : ∀ args ∈ [
    [sampleEndpoint, .protocol (ascii "TCP"), .remotes, sampleEndpoint,
      .int .mtu ⟨.minus, [1], by decide⟩ (by decide) (by decide),
      .flag (ascii "-debug") (by decide) (by decide)],
    [.int .mtu ⟨.minus, [1], by decide⟩ (by decide) (by decide), .protocol (ascii "TCP"),
      sampleEndpoint, .remotes, sampleEndpoint]],
    ofArgs Inet.reference asciiToLower (ascii "sctp_sandbox" :: args.flatMap Group.tokens) = .ok
      { locals := [.ofText Inet.reference (ascii "127.0.0.1") 36412]
        remotes := [.ofText Inet.reference (ascii "127.0.0.1") 36412]
        protocol := some .tcp, pathMtu := -1 } := by
  intro args hargs
  simp only [List.mem_cons, List.not_mem_nil, or_false] at hargs
  rcases hargs with rfl | rfl
  · exact (ofArgs_groups Inet.reference asciiToLower (ascii "sctp_sandbox") _).1
  · -- groups of different kinds may change places, so the second list means the first one's
    refine ((ofArgs_groups Inet.reference asciiToLower (ascii "sctp_sandbox")
      [sampleEndpoint, .protocol (ascii "TCP"), .remotes, sampleEndpoint,
        .int .mtu ⟨.minus, [1], by decide⟩ (by decide) (by decide)]).2.1 _ fun k _ => ?_).trans
          (ofArgs_groups Inet.reference asciiToLower (ascii "sctp_sandbox") _).1
    cases k with
    | int o => cases o <;> rfl
    | addresses => rfl
    | protocol => rfl
    | other => rfl

/-- **The accesses of the constructor are in bounds and its loop terminates exactly when** there is
an argument, the loop looks at no empty one, and there are fewer arguments than `unsigned` has
numbers, unless the index comes to the end or to a number that `stoi` does not read all the same. Of
fewer arguments the loop then makes what `ofArgs` does. -/
theorem parserSafe_iff (I : Inet) (toLower : Arg → Arg) (args : List Arg) :
    (ParserSafe I toLower args ↔
      args ≠ [] ∧ NoEmptyFront args 1 ∧ (args.length < 4294967296 ∨ PathEnds args 1)) ∧
    (ParserSafe I toLower args → args.length < 4294967296 →
      ∃ n, run I toLower args n 1 .locals {} = some ((ofArgs I toLower args).mapError .stoi)) :=
  ⟨parserSafe_iff_path I toLower args, ParserSafe.run_eq⟩

/-- `args[1]` of the empty list, and `front()` of an empty argument. -/
theorem not_parserSafe :
    ¬ ParserSafe Inet.reference asciiToLower [] ∧
      run Inet.reference asciiToLower [] 1 1 .locals {} = some (.error (.outOfBounds 1)) ∧
      ¬ ParserSafe Inet.reference asciiToLower [ascii "sctp_sandbox", [], ascii "-r"] ∧
      run Inet.reference asciiToLower [ascii "sctp_sandbox", [], ascii "-r"] 1 1 .locals {} =
        some (.error .emptyFront) := by
  refine ⟨fun h => ?_, rfl, fun h => ?_, rfl⟩
  · exact ((parserSafe_iff _ _ _).1.mp h).1 rfl
  · exact ((parserSafe_iff _ _ _).1.mp h).2.1 0 1 (.zero 1) (by decide) rfl

end NetworkConfiguration

end SctpSandbox
