import SctpSandbox.Sctp.SocketSctp
import SctpSandbox.Tcp.SocketTcp

/-! # `FDSet`

The set of fds given to `::select`, kept with one more than the highest of them, and the vector of
those found in the set afterwards. An object is used for many rounds; `history_selects` says that a
round finds what was registered in it, whatever the rounds before it have left. -/

namespace SctpSandbox

/-- `FD_SETSIZE`. -/
def fdSetSize : FD := 1024

/-- What `::select` did. -/
inductive SelectCall where
  /-- It returned -1. -/
  | failed (errno : Errno)
  /-- It found these ready, and returned how many of them are in the set. -/
  | reported (ready : FD → Bool)

namespace SelectCall

/-- The set after the call: of the fds below `nfds` those that are ready. -/
def replace (nfds : FD) (fds : Finset FD) : SelectCall → Finset FD
  | failed _ => fds
  | reported ready => fds.filter fun fd => fd < nfds ∧ ready fd = true

/-- The value returned to the program. -/
def callResult (nfds : FD) (fds : Finset FD) : SelectCall → CallResult
  | failed errno => { result := -1, errno := errno }
  | reported ready => { result := ((reported ready).replace nfds fds).card }

/-- The answer, as far as the program looks at it: a failed call makes `checkedSelect` throw. -/
def answer : SelectCall → Option (FD → Bool)
  | failed _ => none
  | reported ready => some ready

end SelectCall

/-- The class `FDSet`. -/
structure FDSet where
  fds : Finset FD := ∅
  fdMax : FD := 1
  selectedFds : List FD := []

namespace FDSet

/-- `reset`. -/
def reset (s : FDSet) : FDSet := { s with fds := ∅, fdMax := 1 }

/-- `set`. `FD_SET` writes out of bounds for an fd that is not below `FD_SETSIZE`. -/
def set (fd : FD) (s : FDSet) : Option FDSet :=
  if 0 ≤ fd ∧ fd < fdSetSize then
    some { s with fds := insert fd s.fds, fdMax := if fd ≥ s.fdMax then fd + 1 else s.fdMax }
  else none

/-- The body of the loop in `select`. -/
def pushIfSet (fds : Finset FD) (selected : List FD) (i : ℕ) : List FD :=
  if (i : FD) ∈ fds then selected ++ [(i : FD)] else selected

/-- `select`: what it returns unless `checkedSelect` throws, and the object afterwards. -/
def selectFrom (call : SelectCall) (s : FDSet) : Option (List FD) × FDSet :=
  let result := call.callResult s.fdMax s.fds
  let fds := call.replace s.fdMax s.fds
  if failedSelect result then (none, { s with fds := fds, selectedFds := [] })
  else
    let selected :=
      if result.result ≠ 0 then (List.range s.fdMax.toNat).foldl (pushIfSet fds) [] else []
    (some selected, { s with fds := fds, selectedFds := selected })

/-- The fds that are set in one round, and what `::select` does in it. -/
structure Round where
  fds : List FD
  call : SelectCall

/-- One round: `reset`, `set` for each fd and `select`. -/
def round (r : Round) (s : FDSet) : Option (Option (List FD) × FDSet) := do
  let s ← r.fds.foldlM (fun s fd => s.set fd) s.reset
  pure (s.selectFrom r.call)

/-- The rounds of a run, with what each of them returns. -/
def history : List Round → FDSet → Option (List (Option (List FD)) × FDSet)
  | [], s => some ([], s)
  | r :: rs, s => do
      let (result, s) ← s.round r
      let (results, s) ← history rs s
      pure (result :: results, s)

namespace Round

/-- All fds fit into an `fd_set`. -/
def InRange (r : Round) : Prop := ∀ fd ∈ r.fds, 0 ≤ fd ∧ fd < fdSetSize

instance : DecidablePred InRange := fun r =>
  inferInstanceAs (Decidable (∀ fd ∈ r.fds, 0 ≤ fd ∧ fd < fdSetSize))

/-- What a round is for: it returns the fds that were set in it and are ready, in ascending order
and each once, unless `::select` fails. -/
def Selects (r : Round) (result : Option (List FD)) : Prop :=
  match r.call with
  | .failed _ => result = none
  | .reported ready => ∃ fds, result = some fds ∧ fds.Pairwise (· < ·) ∧
      ∀ n, n ∈ fds ↔ n ∈ r.fds ∧ ready n = true

end Round

variable {s s' : FDSet} {fd : FD} {fds : List FD} {r : Round} {call : SelectCall}
  {ready : FD → Bool}

/-! ## What is set -/

/-- Every fd in the set is below `fd_max`. -/
def Covered (s : FDSet) : Prop := ∀ fd ∈ s.fds, 0 ≤ fd ∧ fd < s.fdMax

/-- The set after `reset` holds nothing, so it is covered. -/
theorem covered_reset (s : FDSet) : s.reset.Covered := fun _ h => absurd h (Finset.notMem_empty _)

/-- Setting a descriptor within `FD_SETSIZE` adds it and keeps the set covered. -/
theorem Covered.set (h : s.Covered) (hfd : 0 ≤ fd ∧ fd < fdSetSize) :
    ∃ s', s.set fd = some s' ∧ s'.Covered ∧ ∀ n, n ∈ s'.fds ↔ n = fd ∨ n ∈ s.fds := by
  refine ⟨_, if_pos hfd, fun n hn => ?_, fun n => Finset.mem_insert⟩
  -- the maximum never shrinks, and lies above what was set
  have hmax : s.fdMax ≤ (if fd ≥ s.fdMax then fd + 1 else s.fdMax) ∧
      fd < if fd ≥ s.fdMax then fd + 1 else s.fdMax := by
    by_cases hge : fd ≥ s.fdMax
    · rw [if_pos hge]
      exact ⟨Int.le_add_one hge, Int.lt_succ fd⟩
    · rw [if_neg hge]
      exact ⟨le_refl _, lt_of_not_ge hge⟩
  show 0 ≤ n ∧ n < if fd ≥ s.fdMax then fd + 1 else s.fdMax
  rcases Finset.mem_insert.mp hn with rfl | hn
  · exact ⟨hfd.1, hmax.2⟩
  · exact ⟨(h n hn).1, lt_of_lt_of_le (h n hn).2 hmax.1⟩

/-- The fds set one after the other are all in the set and below `fd_max`. -/
theorem Covered.setAll (h : s.Covered) (hfds : ∀ fd ∈ fds, 0 ≤ fd ∧ fd < fdSetSize) :
    ∃ s', fds.foldlM (fun s fd => s.set fd) s = some s' ∧ s'.Covered ∧
      ∀ n, n ∈ s'.fds ↔ n ∈ fds ∨ n ∈ s.fds := by
  induction fds generalizing s with
  | nil => exact ⟨s, rfl, h, fun n => by simp⟩
  | cons fd fds ih =>
      obtain ⟨s₁, hset, hcovered, hmem⟩ := h.set (hfds fd List.mem_cons_self)
      obtain ⟨s', hall, hcovered', hmem'⟩ :=
        ih hcovered fun n hn => hfds n (List.mem_cons_of_mem fd hn)
      refine ⟨s', ?_, hcovered', fun n => ?_⟩
      · rw [List.foldlM_cons, hset]
        exact hall
      · rw [hmem', hmem, List.mem_cons, or_left_comm, or_assoc]

/-! ## What is found -/

/-- The loop appends the fds in the set in ascending order. -/
theorem foldl_pushIfSet (t : Finset FD) (is : List ℕ) (selected : List FD) :
    is.foldl (pushIfSet t) selected =
      selected ++ (is.filter fun i : ℕ => (i : FD) ∈ t).map fun i : ℕ => (i : FD) := by
  induction is generalizing selected with
  | nil => exact (List.append_nil _).symm
  | cons i is ih =>
      rw [List.foldl_cons, ih, pushIfSet]
      by_cases hi : (i : FD) ∈ t
      · rw [if_pos hi, List.filter_cons_of_pos (by simpa using hi), List.map_cons,
          List.append_assoc]
        rfl
      · rw [if_neg hi, List.filter_cons_of_neg (by simpa using hi)]

/-- The fds found by a scan below `n`. -/
theorem scan_spec (t : Finset FD) (n : ℕ) :
    ((List.range n).foldl (pushIfSet t) []).Pairwise (· < ·) ∧
      ∀ fd, fd ∈ (List.range n).foldl (pushIfSet t) [] ↔ fd ∈ t ∧ 0 ≤ fd ∧ fd < n := by
  rw [foldl_pushIfSet, List.nil_append]
  constructor
  · -- the scan goes upwards
    refine List.Pairwise.map _ (fun i j hij => ?_) (List.pairwise_lt_range.filter _)
    exact Int.ofNat_lt.mpr hij
  · intro fd
    rw [List.mem_map]
    constructor
    · rintro ⟨i, hi, rfl⟩
      obtain ⟨hrange, hmem⟩ := List.mem_filter.mp hi
      have hlt := List.mem_range.mp hrange
      exact ⟨of_decide_eq_true hmem, Int.natCast_nonneg i, Int.ofNat_lt.mpr hlt⟩
    · rintro ⟨hmem, h₀, hlt⟩
      have hcast : (fd.toNat : FD) = fd := Int.toNat_of_nonneg h₀
      refine ⟨fd.toNat, List.mem_filter.mpr ⟨List.mem_range.mpr ?_, ?_⟩, hcast⟩
      · exact (Int.toNat_lt h₀).mpr hlt
      · rw [hcast]
        exact decide_eq_true hmem

/-- **One `select`** finds the fds in the set that are ready. -/
theorem Covered.selectFrom (h : s.Covered) (ready : FD → Bool) :
    ∃ fds, (s.selectFrom (.reported ready)).1 = some fds ∧ fds.Pairwise (· < ·) ∧
      ∀ n, n ∈ fds ↔ n ∈ s.fds ∧ ready n = true := by
  let t := (SelectCall.reported ready).replace s.fdMax s.fds
  have hmem : ∀ n, n ∈ t ↔ n ∈ s.fds ∧ ready n = true := by
    intro n
    refine Finset.mem_filter.trans ⟨fun hn => ⟨hn.1, hn.2.2⟩, fun hn => ?_⟩
    exact ⟨hn.1, (h n hn.1).2, hn.2⟩
  have hselect : (s.selectFrom (.reported ready)).1 =
      some (if ((t.card : ℕ) : ℤ) ≠ 0 then (List.range s.fdMax.toNat).foldl (pushIfSet t) []
        else []) := by
    have hchecked : failedSelect ((SelectCall.reported ready).callResult s.fdMax s.fds) = false :=
      decide_eq_false (Int.not_lt.mpr (Int.natCast_nonneg _))
    simp only [FDSet.selectFrom, hchecked]
    rfl
  refine ⟨_, hselect, ?_⟩
  obtain ⟨hsorted, hscan⟩ := scan_spec t s.fdMax.toNat
  by_cases hcard : ((t.card : ℕ) : ℤ) ≠ 0
  · rw [if_pos hcard]
    refine ⟨hsorted, fun n => (hscan n).trans ((and_iff_left_of_imp fun hn => ?_).trans (hmem n))⟩
    -- what is ready is in the set, hence below the end of the scan
    have hrange := h n ((hmem n).mp hn).1
    exact ⟨hrange.1, lt_of_lt_of_le hrange.2 (Int.self_le_toNat _)⟩
  · -- nothing is ready, and the set is not looked at
    have hempty : t = ∅ := Finset.card_eq_zero.mp (by simpa using hcard)
    rw [if_neg hcard]
    refine ⟨List.Pairwise.nil, fun n => ?_⟩
    rw [← hmem, hempty]
    exact iff_of_false List.not_mem_nil (Finset.notMem_empty n)

/-- A failed `select` answers nothing. -/
theorem selectFrom_failed (errno : Errno) (s : FDSet) :
    (s.selectFrom (.failed errno)).1 = none := rfl

/-! ## Rounds -/

/-- **A round returns the ready fds among those set in it**, whatever the object was used for
before. -/
theorem selects_round (hr : r.InRange) (s : FDSet) :
    ∃ result s', s.round r = some (result, s') ∧ r.Selects result := by
  obtain ⟨s₁, hset, hcovered, hmem⟩ := (covered_reset s).setAll hr
  have hround : s.round r = some (s₁.selectFrom r.call) := by
    rw [round, hset]
    rfl
  refine ⟨_, _, hround, ?_⟩
  -- the round starts from the empty set
  have hfds : ∀ n, n ∈ s₁.fds ↔ n ∈ r.fds := fun n =>
    (hmem n).trans (or_iff_left (Finset.notMem_empty n))
  cases hcall : r.call with
  | failed errno =>
      rw [Round.Selects, hcall]
      exact selectFrom_failed errno s₁
  | reported ready =>
      obtain ⟨fds, hselect, hsorted, hready⟩ := hcovered.selectFrom ready
      rw [Round.Selects, hcall]
      exact ⟨fds, hselect, hsorted, fun n => (hready n).trans (and_congr_left' (hfds n))⟩

/-- The list that a round returns is the only one of its kind. -/
theorem Round.Selects.eq {result : Option (List FD)}
    (h : Round.Selects ⟨fds, .reported ready⟩ result)
    {l : List FD} (hl : l.Pairwise (· < ·)) (hmem : ∀ n, n ∈ l ↔ n ∈ fds ∧ ready n = true) :
    result = some l := by
  obtain ⟨l', rfl, hl', hmem'⟩ := h
  refine congrArg some (hl'.eq_of_mem_iff hl fun n => ?_)
  exact (hmem' n).trans (hmem n).symm

/-! ## The sockets -/

/-- The result of a round, as a call of `selectFds` passes it on. -/
def passOn {σ : Type} (g : Guarded σ) :
    Option (List FD) → EStateM.Result (Stop SocketError) (Guarded σ) (List FD)
  | some fds => .ok fds g
  | none => .error (.exception .runtimeError) g

/-- What the sockets take for the result of `select` is the result of a round. -/
theorem Round.Selects.eq_select {result : Option (List FD)} (h : r.Selects result) :
    result = r.call.answer.map (FDSet.select r.fds) := by
  obtain ⟨fds, call⟩ := r
  cases call with
  | failed errno => exact h
  | reported ready =>
      refine h.eq ?_ fun n => FDSet.mem_select
      have hsorted : ((fds.filter ready).mergeSort (· ≤ ·)).Pairwise (· ≤ ·) :=
        List.pairwise_mergeSort' (· ≤ ·) _
      have hdedup := hsorted.sublist (List.dedup_sublist _)
      refine (hdedup.and (List.nodup_dedup _)).imp fun hlt => ?_
      exact lt_of_le_of_ne hlt.1 hlt.2

/-- **`selectFds` of `SocketTcp` and `SocketSctp`** is a round on the `FDSet` of the socket,
whatever is left in that from the rounds before. -/
theorem selectFds_eq_round (mtx : Mutex) (call : SelectCall) (x : FDSet) (tcp : SocketTcp)
    (sctp : SocketSctp) (htcp : (Round.mk tcp.fdSet call).InRange)
    (hsctp : (Round.mk sctp.fdSet call).InRange) :
    (∃ result x', x.round ⟨tcp.fdSet, call⟩ = some (result, x') ∧
      SocketTcp.selectFds mtx call.answer ⟨tcp, false⟩ = passOn ⟨tcp, false⟩ result) ∧
    ∃ result x', x.round ⟨sctp.fdSet, call⟩ = some (result, x') ∧
      SocketSctp.selectFds mtx call.answer ⟨sctp, false⟩ = passOn ⟨sctp, false⟩ result := by
  constructor
  · obtain ⟨result, x', hround, hselects⟩ := selects_round htcp x
    refine ⟨result, x', hround, ?_⟩
    -- the answer is passed on, or thrown, in either class
    rw [hselects.eq_select]
    cases call with
    | failed errno => rfl
    | reported ready => rfl
  · obtain ⟨result, x', hround, hselects⟩ := selects_round hsctp x
    refine ⟨result, x', hround, ?_⟩
    rw [hselects.eq_select]
    cases call with
    | failed errno => rfl
    | reported ready => rfl

/-- The rounds of a history, one after the other. -/
theorem selects_history (rs : List Round) (hrs : ∀ r ∈ rs, r.InRange) (s : FDSet) :
    ∃ results s', history rs s = some (results, s') ∧ List.Forall₂ Round.Selects rs results := by
  induction rs generalizing s with
  | nil => exact ⟨[], s, rfl, .nil⟩
  | cons r rs ih =>
      obtain ⟨result, s₁, hround, hselects⟩ := selects_round (hrs r List.mem_cons_self) s
      obtain ⟨results, s', hhistory, hall⟩ :=
        ih (fun r' hr' => hrs r' (List.mem_cons_of_mem r hr')) s₁
      refine ⟨result :: results, s', ?_, .cons hselects hall⟩
      rw [history, hround]
      show (history rs s₁ >>= fun p => pure (result :: p.1, p.2)) = _
      rw [hhistory]
      rfl

/-- **Every round of a history** returns exactly the ready fds of its own, in ascending order and
each once. The sockets have such rounds: a `selectFds` of `SocketTcp` or `SocketSctp` is one. -/
theorem history_selects (rs : List Round) (hrs : ∀ r ∈ rs, r.InRange) (s : FDSet) :
    (∃ results s', history rs s = some (results, s') ∧ List.Forall₂ Round.Selects rs results) ∧
    ∀ (mtx : Mutex) (call : SelectCall) (x : FDSet) (tcp : SocketTcp) (sctp : SocketSctp),
      (Round.mk tcp.fdSet call).InRange → (Round.mk sctp.fdSet call).InRange →
      (∃ result x', x.round ⟨tcp.fdSet, call⟩ = some (result, x') ∧
        SocketTcp.selectFds mtx call.answer ⟨tcp, false⟩ = passOn ⟨tcp, false⟩ result) ∧
      ∃ result x', x.round ⟨sctp.fdSet, call⟩ = some (result, x') ∧
        SocketSctp.selectFds mtx call.answer ⟨sctp, false⟩ = passOn ⟨sctp, false⟩ result :=
  ⟨selects_history rs hrs s, fun mtx call x tcp sctp htcp hsctp =>
    selectFds_eq_round mtx call x tcp sctp htcp hsctp⟩

/-- Two rounds on one object: the first is interrupted, and the second finds two of three fds. -/
theorem history_selects_sample : ∃ s', history
    [⟨[5, 3], .failed .eintr⟩, ⟨[1023, 3, 7, 3], .reported fun fd => fd ≠ 7⟩] {} =
      some ([none, some [3, 1023]], s') := by
  obtain ⟨⟨results, s', hhistory, hall⟩, -⟩ := history_selects
    [⟨[5, 3], .failed .eintr⟩, ⟨[1023, 3, 7, 3], .reported fun fd => fd ≠ 7⟩] (by decide) {}
  obtain ⟨first, rest, hfirst, hrest, rfl⟩ := List.forall₂_cons_left_iff.mp hall
  obtain ⟨second, rest, hsecond, hnil, rfl⟩ := List.forall₂_cons_left_iff.mp hrest
  obtain rfl := List.forall₂_nil_left_iff.mp hnil
  obtain rfl : first = none := hfirst
  -- the second round reports all but 7
  have hready : ∀ n : FD, n ∈ [3, 1023] ↔ n ∈ [1023, 3, 7, 3] ∧ decide (n ≠ 7) = true := by
    intro n
    simp only [List.mem_cons, List.not_mem_nil, or_false, decide_eq_true_iff]
    constructor
    · rintro (rfl | rfl)
      · decide
      · decide
    · rintro ⟨rfl | rfl | rfl | rfl, h⟩
      · decide
      · decide
      · exact absurd rfl h
      · decide
  obtain rfl : second = some [3, 1023] := hsecond.eq (by decide) hready
  exact ⟨s', hhistory⟩

end FDSet

end SctpSandbox
