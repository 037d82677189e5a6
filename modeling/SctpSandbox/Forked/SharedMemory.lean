import SctpSandbox.Forked.Effects
import SctpSandbox.Lib.Rounds

/-! # Sizes announced in shared memory

`send` stores the size of the message in a shared integer and posts its semaphore; `receive` takes a
permit, if there is one, and reads the integer. A size is read once by the other process when the
history of the integer goes in rounds: set, posted, and then acquired and got by the other process.

Nothing in the code keeps a process from taking its own permit or from storing the next size too
early. The rounds are kept in exactly the runs in which neither happens. -/

namespace SctpSandbox

/-- The integer an action is about. -/
def ForkedAction.about : ForkedAction → Option SharedInt
  | .set i _ | .posted i | .acquired i | .got i _ => some i
  | _ => none

/-- A line about no integer is not about this one. -/
theorem ForkedAction.about_ne {a : ForkedAction} {i : SharedInt} (h : a.about = none) :
    a.about ≠ some i := by
  simp [h]

/-- The integer an operation is about. -/
def ForkedOp.about : ForkedOp → Option SharedInt
  | .set i _ | .semPost i | .semTrywait i | .get i => some i
  | _ => none

/-- An operation about something else uses another channel. -/
theorem ForkedOp.channel_ne {op : ForkedOp} {i : SharedInt} (h : op.about ≠ some i) :
    op.channel ≠ .integer i := by
  cases op with
  | set j _ | semPost j | semTrywait j | get j =>
      exact fun hji => h (congrArg some (Channel.integer.inj hji))
  | _ => exact Channel.noConfusion

/-- A line of another channel is not about this integer. -/
theorem ForkedAction.about_ne_of_channel {a : ForkedAction} {ch : Channel} {i : SharedInt}
    (h : a.channel = some ch) (hch : ch ≠ .integer i) : a.about ≠ some i := by
  cases a with
  | set j _ | posted j | acquired j | got j _ =>
      exact fun hji => hch ((Option.some.inj h).symm.trans (congrArg Channel.integer
        (Option.some.inj hji)))
  | _ => exact ForkedAction.about_ne rfl

/-- The other process is a different one. -/
theorem Process.other_ne (p : Process) : p.other ≠ p := by
  cases p <;> decide

/-- The other process's other is oneself. -/
theorem Process.other_other (p : Process) : p.other.other = p := by
  cases p <;> rfl

/-- There is no third process. -/
theorem Process.eq_of_other_ne {p q : Process} (h : q.other ≠ p) : q = p := by
  cases p <;> cases q <;> first | rfl | exact absurd rfl h

namespace ForkedPair

variable {attr : MqAttr} {this : Process → SocketUnixForked} {s s' : ForkedPair}
  {p q : Process} {i j : SharedInt} {op : ForkedOp} {ops : List ForkedOp} {c : ForkedCall}
  {l : List (Process × ForkedAction)}

/-- A size that is stored has to be announced, and the other process has to read it. -/
def announcement : Process × ForkedAction → Option (List (Process × ForkedAction))
  | (p, .set i v) => some [(p, .posted i), (p.other, .acquired i), (p.other, .got i v)]
  | _ => none

/-- What was done with a shared integer, the oldest first. -/
def events (i : SharedInt) (s : ForkedPair) : List (Process × ForkedAction) :=
  (s.log.filter fun a => a.2.about = some i).reverse

/-- Each size stored is announced and read by the other process, once and before the next one is
stored, as far as the history has got. -/
def ReadOnce (i : SharedInt) (s : ForkedPair) : Prop :=
  Rounds.InRounds announcement (events i s)

/-- What the size stored last still needs, if the history has kept to the rounds. -/
def need (i : SharedInt) (s : ForkedPair) : Option (List (Process × ForkedAction)) :=
  Rounds.after announcement (some []) (events i s)

/-- The claim's property is that the automaton of the rounds has not got stuck. -/
theorem readOnce_iff_need : ReadOnce i s ↔ (need i s).isSome := Rounds.inRounds_iff

/-- A line about the integer is one step of that automaton. -/
theorem need_record (p : Process) (a : ForkedAction) (s : ForkedPair) (h : a.about = some i) :
    need i (s.record p a) = Rounds.next announcement (need i s) (p, a) := by
  rw [need, events, log_record, List.filter_cons_of_pos (by simpa using h), List.reverse_cons,
    Rounds.after_concat]
  rfl

/-- Where the automaton stands depends on the lines about the integer only. -/
theorem need_congr (h : s'.log.filter (fun a => a.2.about = some i) =
    s.log.filter fun a => a.2.about = some i) : need i s' = need i s := by
  rw [need, need, events, events, h]

/-! ## The last store and the last post -/

/-- A size is stored on `i` or read from it. -/
def accesses (i : SharedInt) : ForkedAction → Bool
  | .set j _ | .got j _ => j = i
  | _ => false

/-- The semaphore of `i` is posted. -/
def posts (i : SharedInt) : ForkedAction → Bool
  | .posted j => j = i
  | _ => false

/-- A size was stored on `i`, and nobody has read `i` since. -/
def unread (i : SharedInt) (s : ForkedPair) : Bool :=
  match s.log.find? fun a => accesses i a.2 with
  | some (_, .set _ _) => true
  | _ => false

/-- The process that posted the semaphore of `i` last. -/
def lastPoster (i : SharedInt) (s : ForkedPair) : Option Process :=
  (s.log.find? fun a => posts i a.2).map Prod.fst

/-- A store leaves the integer unread. -/
@[simp] theorem unread_set (v : ℤ) : unread i (s.record p (.set i v)) = true := by
  simp [unread, accesses]

/-- A read leaves nothing unread. -/
@[simp] theorem unread_got (v : ℤ) : unread i (s.record p (.got i v)) = false := by
  simp [unread, accesses]

/-- A post leaves it open whether the store is read. -/
@[simp] theorem unread_posted : unread i (s.record p (.posted i)) = unread i s := by
  simp [unread, accesses]

/-- An acquisition leaves it open whether the store is read. -/
@[simp] theorem unread_acquired : unread i (s.record p (.acquired i)) = unread i s := by
  simp [unread, accesses]

/-- After a post its process is the last poster. -/
@[simp] theorem lastPoster_posted : lastPoster i (s.record p (.posted i)) = some p := by
  simp [lastPoster, posts]

/-- What is looked for in the log and concerns `i` is found among the lines about `i`. -/
theorem find?_about {f : ForkedAction → Bool} (hf : ∀ a, f a = true → a.about = some i)
    (log : List (Process × ForkedAction)) : log.find? (fun a => f a.2) =
      (log.filter fun a => a.2.about = some i).find? fun a => f a.2 := by
  rw [List.find?_filter]
  congr 1
  funext a
  by_cases h : f a.2 = true
  · simp [h, hf a.2 h]
  · simp [h]

/-- The lines that store or read the integer are about it. -/
theorem about_of_accesses {a : ForkedAction} (h : accesses i a = true) : a.about = some i := by
  cases a with
  | set j v | got j v =>
      have hji : j = i := by simpa [accesses] using h
      exact congrArg some hji
  | _ => simp [accesses] at h

/-- The lines that post its semaphore are about the integer. -/
theorem about_of_posts {a : ForkedAction} (h : posts i a = true) : a.about = some i := by
  cases a with
  | posted j =>
      have hji : j = i := by simpa [posts] using h
      exact congrArg some hji
  | _ => simp [posts] at h

/-- Whether a store is unread depends on the lines about the integer only. -/
theorem unread_congr (h : s'.log.filter (fun a => a.2.about = some i) =
    s.log.filter fun a => a.2.about = some i) : unread i s' = unread i s := by
  rw [unread, unread, find?_about fun _ => about_of_accesses, h,
    ← find?_about fun _ => about_of_accesses]

/-- The last poster depends on the lines about the integer only. -/
theorem lastPoster_congr (h : s'.log.filter (fun a => a.2.about = some i) =
    s.log.filter fun a => a.2.about = some i) : lastPoster i s' = lastPoster i s := by
  rw [lastPoster, lastPoster, find?_about fun _ => about_of_posts, h,
    ← find?_about fun _ => about_of_posts]

/-! ## What does not concern an integer -/

/-- `s` becomes `s'` by something that does not concern `i`, and no process moves. -/
structure Apart (i : SharedInt) (s s' : ForkedPair) : Prop where
  control : s'.control = s.control
  semaphore : s'.semaphore i = s.semaphore i
  integer : s'.integer i = s.integer i
  log : s'.log.filter (fun a => a.2.about = some i) = s.log.filter fun a => a.2.about = some i

/-- Nothing done is apart from every integer. -/
theorem Apart.refl (i : SharedInt) (s : ForkedPair) : Apart i s s := ⟨rfl, rfl, rfl, rfl⟩

/-- A line about something else is apart from this integer. -/
theorem apart_record {a : ForkedAction} (s : ForkedPair) (p : Process) (h : a.about ≠ some i) :
    Apart i s (s.record p a) :=
  ⟨rfl, rfl, rfl, List.filter_cons_of_neg (by simpa using h)⟩

/-- What uses another channel leaves the integer alone. -/
theorem Uses.apart {ch : Channel} (h : Uses ch p s s') (hch : ch ≠ .integer i) : Apart i s s' := by
  obtain ⟨lines, hlog, hlines⟩ := h.log
  refine ⟨h.control, h.semaphore i hch, h.integer i hch, ?_⟩
  rw [hlog, List.filter_append, List.filter_eq_nil_iff.mpr, List.nil_append]
  intro a ha
  simpa using ForkedAction.about_ne_of_channel (hlines a ha).2 hch

/-- An operation about something else is apart from this integer and adds no read of it. -/
theorem apart_of_goesOn {answer : KernelAnswer} {t : SocketUnixForked} {more : List ForkedOp}
    (h : op.about ≠ some i) (heff : perform s p attr t answer op = .goesOn s' more) :
    Apart i s s' ∧ (more = [] ∨ ∃ j, j ≠ i ∧ more = [.get j]) := by
  obtain ⟨huses, hmore⟩ := uses_of_goesOn heff
  refine ⟨huses.apart (ForkedOp.channel_ne h), hmore.imp_right fun ⟨j, hop, hj⟩ => ⟨j, ?_, hj⟩⟩
  rintro rfl
  exact h (hop ▸ rfl)

/-- An operation about something else that throws is apart from this integer. -/
theorem apart_of_throws {answer : KernelAnswer} {t : SocketUnixForked}
    (h : op.about ≠ some i) (heff : perform s p attr t answer op = .throws s') :
    Apart i s s' :=
  (uses_of_throws heff).apart (ForkedOp.channel_ne h)

/-! ## Where the processes stand -/

/-- The operation stores a size on `i`. -/
def Sets (i : SharedInt) : ForkedOp → Bool
  | .set j _ => j = i
  | _ => false

/-- The posts of `i` stand right behind the stores, and no read stands alone; `b` says that a store
has just been made. -/
def Follows (i : SharedInt) : Bool → List ForkedOp → Prop
  | b, [] => b = false
  | b, op :: ops => (op = .semPost i ↔ b = true) ∧ op ≠ .get i ∧ Follows i (Sets i op) ops

/-- Operations that are not about `i` at all do not matter. -/
theorem follows_of_apart (h : op.about ≠ some i) :
    Follows i false (op :: ops) ↔ Follows i false ops := by
  -- the operation neither stores, posts nor reads this integer
  have hsets : Sets i op = false := by
    cases op with
    | set j v =>
        have hji : j ≠ i := fun hji => h (congrArg some hji)
        simpa [Sets] using hji
    | _ => rfl
  have hpost : op ≠ .semPost i := by
    rintro rfl
    exact h rfl
  have hget : op ≠ .get i := by
    rintro rfl
    exact h rfl
  rw [Follows, hsets]
  simp [hpost, hget]

/-- The sends to the queue stand between no post and its store. -/
theorem follows_mqSend (msg : ChatMessage) (prios : List ℕ) :
    Follows i false (prios.map (.mqSend msg) ++ ops) ↔ Follows i false ops := by
  induction prios with
  | nil => exact Iff.rfl
  | cons prio prios ih => exact (follows_of_apart (by simp [ForkedOp.about])).trans ih

/-- In both calls each store is followed by its post. -/
theorem follows_operations (i : SharedInt) (t : SocketUnixForked) (c : ForkedCall) :
    Follows i false (operations t c) := by
  cases c with
  | send msg prios =>
      rw [operations_send, follows_of_apart (by simp [ForkedOp.about]),
        follows_of_apart (by simp [ForkedOp.about]), follows_of_apart (by simp [ForkedOp.about]),
        follows_mqSend]
      cases i <;> simp [Follows, Sets]
  | receive =>
      rw [operations_receive]
      cases t.isChild <;> cases i <;> simp [Follows, Sets]

/-- Behind a store stands its post. -/
theorem follows_set {v : ℤ} (h : Follows i false (.set i v :: ops)) :
    ∃ ops', ops = .semPost i :: ops' ∧ Follows i false ops' := by
  have hsets : Sets i (.set i v) = true := by simp [Sets]
  have hrest := h.2.2
  rw [hsets] at hrest
  cases ops with
  | nil => exact absurd hrest (by simp [Follows])
  | cons op ops =>
      obtain rfl := hrest.1.mpr rfl
      exact ⟨ops, rfl, hrest.2.2⟩

/-- The process has nothing to do on `i` before anything else. -/
def Idle (i : SharedInt) (c : ForkedControl) : Prop :=
  ∀ call ops, c = .busy call ops → Follows i false ops

/-- The process is about to make an operation on `i`. -/
def Due (i : SharedInt) (op : ForkedOp) (c : ForkedControl) : Prop :=
  ∃ call ops, c = .busy call (op :: ops) ∧ Follows i false ops

/-- The state of an integer, by what the size stored last still needs. -/
inductive Phase (i : SharedInt) (s : ForkedPair) : List (Process × ForkedAction) → Prop
  | clear : s.semaphore i = 0 → (∀ p, Idle i (s.control p)) → Phase i s []
  | stored (p : Process) (v : ℤ) : s.semaphore i = 0 → s.integer i = v →
      Due i (.semPost i) (s.control p) → (∀ q, q ≠ p → Idle i (s.control q)) →
      Phase i s [(p, .posted i), (p.other, .acquired i), (p.other, .got i v)]
  | announced (q : Process) (v : ℤ) : s.semaphore i = 1 → s.integer i = v →
      (∀ p, Idle i (s.control p)) → Phase i s [(q, .acquired i), (q, .got i v)]
  | acquired (q : Process) (v : ℤ) : s.semaphore i = 0 → s.integer i = v →
      Due i (.get i) (s.control q) → (∀ p, p ≠ q → Idle i (s.control p)) →
      Phase i s [(q, .got i v)]

/-- A process that has to post or to read at once is not idle. -/
theorem Due.of_busy {op' : ForkedOp} (h : Due i op' (s.control p))
    (hbusy : s.control p = .busy c (op :: ops)) : op = op' ∧ Follows i false ops := by
  obtain ⟨call, ops', hbusy', hfollows⟩ := h
  obtain ⟨-, heq⟩ := ForkedControl.busy.inj (hbusy.symm.trans hbusy')
  obtain ⟨rfl, rfl⟩ := List.cons.inj heq
  exact ⟨rfl, hfollows⟩

/-- A process that owes a post or a read is not idle. -/
theorem Due.not_idle (h : Due i op (s.control p)) (hop : op = .semPost i ∨ op = .get i) :
    ¬ Idle i (s.control p) := by
  obtain ⟨call, ops, hbusy, -⟩ := h
  intro hidle
  have hfollows := hidle call _ hbusy
  rcases hop with rfl | rfl
  · exact absurd (hfollows.1.mp rfl) (by simp)
  · exact hfollows.2.1 rfl

/-- A process that is idle and stays so, while nothing happens to the integer, does not matter. -/
theorem Phase.of_idle (h : Phase i s l) (hsem : s'.semaphore i = s.semaphore i)
    (hint : s'.integer i = s.integer i) (hcontrol : ∀ q, q ≠ p → s'.control q = s.control q)
    (hold : Idle i (s.control p)) (hnew : Idle i (s'.control p)) : Phase i s' l := by
  -- the process that is due, if there is one, is another one
  have hidle : ∀ q, Idle i (s.control q) → Idle i (s'.control q) := by
    intro q hq
    by_cases hqp : q = p
    · exact hqp ▸ hnew
    · exact hcontrol q hqp ▸ hq
  have hdue : ∀ q op, op = .semPost i ∨ op = .get i → Due i op (s.control q) →
      Due i op (s'.control q) := by
    intro q op hop hq
    have hqp : q ≠ p := by
      rintro rfl
      exact hq.not_idle hop hold
    exact (hcontrol q hqp).symm ▸ hq
  cases h with
  | clear h₀ hall => exact .clear (hsem.trans h₀) fun q => hidle q (hall q)
  | stored q v h₀ hv hq hall =>
      exact .stored q v (hsem.trans h₀) (hint.trans hv) (hdue q _ (.inl rfl) hq)
        fun q' hq' => hidle q' (hall q' hq')
  | announced q v h₁ hv hall =>
      exact .announced q v (hsem.trans h₁) (hint.trans hv) fun q => hidle q (hall q)
  | acquired q v h₀ hv hq hall =>
      exact .acquired q v (hsem.trans h₀) (hint.trans hv) (hdue q _ (.inr rfl) hq)
        fun q' hq' => hidle q' (hall q' hq')

/-- A process that neither posts nor reads next is idle. -/
theorem Phase.idle_of_ne (h : Phase i s l) (hpost : ¬ Due i (.semPost i) (s.control p))
    (hget : ¬ Due i (.get i) (s.control p)) : Idle i (s.control p) := by
  -- in every phase at most one process owes something, and it is not `p`
  cases h with
  | clear _ hall => exact hall p
  | announced _ _ _ _ hall => exact hall p
  | stored q v _ _ hq hall =>
      refine hall p ?_
      rintro rfl
      exact hpost hq
  | acquired q v _ _ hq hall =>
      refine hall p ?_
      rintro rfl
      exact hget hq

/-- The operations of a process that neither posts nor reads next. -/
theorem Phase.follows (h : Phase i s l) (hbusy : s.control p = .busy c (op :: ops))
    (hpost : op ≠ .semPost i) (hget : op ≠ .get i) : Follows i false (op :: ops) := by
  have hne : ∀ op', op ≠ op' → ¬ Due i op' (s.control p) :=
    fun op' hop hdue => hop (hdue.of_busy hbusy).1
  exact h.idle_of_ne (hne _ hpost) (hne _ hget) c _ hbusy

/-- Only one process is not idle. -/
theorem eq_of_not_idle {q : Process} (hall : ∀ q', q' ≠ q → Idle i (s.control q'))
    (hno : ¬ Idle i (s.control p)) : p = q := by
  by_contra hpq
  exact hno (hall p hpq)

/-- Only the process that has stored a size posts. -/
theorem Phase.of_semPost (h : Phase i s l) (hbusy : s.control p = .busy c (.semPost i :: ops)) :
    ∃ v, l = [(p, .posted i), (p.other, .acquired i), (p.other, .got i v)] ∧
      s.semaphore i = 0 ∧ s.integer i = v ∧ Follows i false ops ∧
      ∀ q, q ≠ p → Idle i (s.control q) := by
  have hno : ¬ Idle i (s.control p) := fun hidle => absurd ((hidle c _ hbusy).1.mp rfl) (by simp)
  cases h with
  | clear _ hall => exact absurd (hall p) hno
  | announced _ _ _ _ hall => exact absurd (hall p) hno
  | stored q v h₀ hv hq hall =>
      obtain rfl := eq_of_not_idle hall hno
      exact ⟨v, rfl, h₀, hv, (hq.of_busy hbusy).2, hall⟩
  | acquired q v h₀ hv hq hall =>
      obtain rfl := eq_of_not_idle hall hno
      exact ForkedOp.noConfusion (hq.of_busy hbusy).1

/-- Only the process that has taken the permit reads. -/
theorem Phase.of_get (h : Phase i s l) (hbusy : s.control p = .busy c (.get i :: ops)) :
    ∃ v, l = [(p, .got i v)] ∧ s.semaphore i = 0 ∧ s.integer i = v ∧ Follows i false ops ∧
      ∀ q, q ≠ p → Idle i (s.control q) := by
  have hno : ¬ Idle i (s.control p) := fun hidle => (hidle c _ hbusy).2.1 rfl
  cases h with
  | clear _ hall => exact absurd (hall p) hno
  | announced _ _ _ _ hall => exact absurd (hall p) hno
  | stored q v h₀ hv hq hall =>
      obtain rfl := eq_of_not_idle hall hno
      exact ForkedOp.noConfusion (hq.of_busy hbusy).1
  | acquired q v h₀ hv hq hall =>
      obtain rfl := eq_of_not_idle hall hno
      exact ⟨v, rfl, h₀, hv, (hq.of_busy hbusy).2, hall⟩

/-- The size stored last is unread as long as it needs anything, and the permit that is there was
posted by the process that is not to take it. -/
structure Told (i : SharedInt) (s : ForkedPair) (l : List (Process × ForkedAction)) : Prop where
  unread_iff : unread i s = true ↔ l ≠ []
  poster : ∀ q rest, l = (q, .acquired i) :: rest → lastPoster i s = some q.other

/-- The books of the log depend on the lines about the integer only. -/
theorem Told.of_log (h : Told i s l) (hlog : s'.log.filter (fun a => a.2.about = some i) =
    s.log.filter fun a => a.2.about = some i) : Told i s' l where
  unread_iff := by rw [unread_congr hlog, h.unread_iff]
  poster q rest hl := (lastPoster_congr hlog).trans (h.poster q rest hl)

/-- The history has kept to the rounds, and the state and the last lines are where it says. -/
def Orderly (i : SharedInt) (s : ForkedPair) : Prop :=
  ∃ l, need i s = some l ∧ Phase i s l ∧ Told i s l

/-- The invariant gives the claim's property. -/
theorem Orderly.readOnce (h : Orderly i s) : ReadOnce i s := by
  obtain ⟨l, hl, -, -⟩ := h
  rw [readOnce_iff_need, hl]
  rfl

/-- At the start nobody has stored anything. -/
theorem Orderly.initial (i : SharedInt) : Orderly i {} :=
  ⟨[], rfl, .clear rfl fun _ _ _ h => ForkedControl.noConfusion h,
    iff_of_false Bool.false_ne_true (by simp), fun _ _ h => absurd h (by simp)⟩

/-- A process that is idle and stays so, while nothing happens to the integer, does not matter. -/
theorem Orderly.of_idle (h : Orderly i s) (ha : Apart i s s') (c' : ForkedControl)
    (hold : Idle i (s.control p)) (hnew : Idle i c') : Orderly i (s'.setControl p c') := by
  obtain ⟨l, hl, hphase, htold⟩ := h
  refine ⟨l, (need_congr ha.log).trans hl, hphase.of_idle ha.semaphore ha.integer ?_ hold ?_,
    htold.of_log ha.log⟩
  · intro q hq
    rw [control_setControl_ne _ _ _ hq, ha.control]
  · rwa [control_setControl_self]

/-! ## The condition -/

/-- No size is stored while the one before is unread, and no process tries for a permit that is
there when it was the last one to post. -/
def RespectsOp (s : ForkedPair) (p : Process) : ForkedOp → Prop
  | .set i _ => unread i s = false
  | .semTrywait i => 0 < s.semaphore i → lastPoster i s ≠ some p
  | _ => True

/-- The next operation of the process respects the sizes that are unread. -/
def Respects (s : ForkedPair) : Process × ForkedInput → Prop
  | (p, .resume _) => ∀ op ∈ (s.control p).nextOp, RespectsOp s p op
  | _ => True

instance (s : ForkedPair) (p : Process) : DecidablePred (RespectsOp s p)
  | .set i _ => inferInstanceAs (Decidable (unread i s = false))
  | .semTrywait i => inferInstanceAs (Decidable (0 < s.semaphore i → lastPoster i s ≠ some p))
  | .send _ | .writePipe _ | .writeNamedPipe _ | .mqSend _ _ | .semPost _ | .receive | .get _
  | .readPipe | .readNamedPipe | .mqReceive => isTrue trivial

instance (s : ForkedPair) : DecidablePred (Respects s)
  | (p, .resume _) => inferInstanceAs (Decidable (∀ op ∈ (s.control p).nextOp, RespectsOp s p op))
  | (_, .call _) | (_, .destroy) => isTrue trivial

/-! ## Steps -/

section Operations

variable {s₁ : ForkedPair} {more : List ForkedOp} {answer : KernelAnswer} {t : SocketUnixForked}

/-- A size is stored where none is unread. -/
theorem orderly_set {v : ℤ} (h : Orderly i s) (hread : unread i s = false)
    (hbusy : s.control p = .busy c (.set i v :: ops)) :
    Orderly i (((s.setInteger i v).record p (.set i v)).setControl p (.busy c ops)) := by
  obtain ⟨l, hl, hphase, htold⟩ := h
  -- nothing is unread, so no round is under way
  obtain rfl : l = [] := by
    by_contra hne
    exact Bool.false_ne_true (hread.symm.trans (htold.unread_iff.mpr hne))
  obtain ⟨ops', rfl, hfollows⟩ := follows_set (hphase.follows hbusy (by simp) (by simp))
  cases hphase with
  | clear h₀ hall =>
      -- the store starts a round: it is to be posted, acquired by the other process and read
      refine ⟨_, ?_, .stored p v h₀ (Function.update_self _ _ _) ?_ fun q hq => ?_, ?_⟩
      · show need i ((s.setInteger i v).record p (.set i v)) = _
        rw [need_record p _ _ rfl]
        show Rounds.next announcement (need i s) (p, .set i v) = _
        rw [hl]
        rfl
      · rw [control_setControl_self]
        exact ⟨c, ops', rfl, hfollows⟩
      · rw [control_setControl_ne _ _ _ hq]
        exact hall q
      · have hunread : unread i ((s.setInteger i v).record p (.set i v)) = true := unread_set v
        exact ⟨iff_of_true hunread (by simp), fun q rest hq => absurd hq (by simp)⟩

/-- The size just stored is announced. -/
theorem orderly_semPost (h : Orderly i s) (hbusy : s.control p = .busy c (.semPost i :: ops)) :
    s.semaphore i < semValueMax ∧ Orderly i
      (((s.setSemaphore i (s.semaphore i + 1)).record p (.posted i)).setControl p
        (.busy c ops)) := by
  obtain ⟨l, hl, hphase, htold⟩ := h
  -- a post is due only to the process that has stored, and no permit is out
  obtain ⟨v, rfl, h₀, hv, hfollows, hall⟩ := hphase.of_semPost hbusy
  refine ⟨by rw [h₀]; decide, _, ?_, .announced p.other v ?_ hv ?_, ?_⟩
  · show need i ((s.setSemaphore i (s.semaphore i + 1)).record p (.posted i)) = _
    rw [need_record p _ _ rfl]
    show Rounds.next announcement (need i s) (p, .posted i) = _
    rw [hl]
    exact Rounds.next_cons_self
  · exact (Function.update_self _ _ _).trans (by rw [h₀])
  · refine forall_control_setControl (fun call ops' hops => ?_) fun q hq => hall q hq
    obtain ⟨-, rfl⟩ := ForkedControl.busy.inj hops
    exact hfollows
  · -- the store is still unread, and its permit is meant for the other process
    have hunread : unread i ((s.setSemaphore i (s.semaphore i + 1)).record p (.posted i)) =
        unread i s := unread_posted
    refine ⟨iff_of_true (hunread.trans (htold.unread_iff.mpr (by simp))) (by simp), ?_⟩
    rintro q rest hq
    obtain rfl : p.other = q := (Prod.mk.inj (List.cons.inj hq).1).1
    rw [Process.other_other]
    exact lastPoster_posted

/-- The permit is taken by the process it is meant for. -/
theorem orderly_acquire (h : Orderly i s) (hpos : 0 < s.semaphore i)
    (hposter : lastPoster i s ≠ some p)
    (hbusy : s.control p = .busy c (.semTrywait i :: ops)) :
    Orderly i (((s.setSemaphore i (s.semaphore i - 1)).record p (.acquired i)).setControl p
      (.busy c (.get i :: ops))) := by
  obtain ⟨l, hl, hphase, htold⟩ := h
  have hfollows := hphase.follows hbusy (by simp) (by simp)
  rw [Follows] at hfollows
  cases hphase with
  | clear h₀ _ => exact absurd h₀ (Nat.ne_of_gt hpos)
  | stored _ _ h₀ _ _ _ => exact absurd h₀ (Nat.ne_of_gt hpos)
  | acquired _ _ h₀ _ _ _ => exact absurd h₀ (Nat.ne_of_gt hpos)
  | announced q v h₁ hv hall =>
      -- the other process has posted it, so that the permit is meant for `p`
      obtain rfl : q = p := by
        rw [htold.poster q _ rfl] at hposter
        exact Process.eq_of_other_ne fun h => hposter (congrArg some h)
      refine ⟨_, ?_, .acquired q v ?_ hv ?_ fun q' hq' => ?_, ?_⟩
      · show need i ((s.setSemaphore i (s.semaphore i - 1)).record q (.acquired i)) = _
        rw [need_record q _ _ rfl]
        show Rounds.next announcement (need i s) (q, .acquired i) = _
        rw [hl]
        exact Rounds.next_cons_self
      · exact (Function.update_self _ _ _).trans (by rw [h₁])
      · rw [control_setControl_self]
        exact ⟨c, ops, rfl, hfollows.2.2⟩
      · rw [control_setControl_ne _ _ _ hq']
        exact hall q'
      · have hunread : unread i ((s.setSemaphore i (s.semaphore i - 1)).record q (.acquired i)) =
            unread i s := unread_acquired
        exact ⟨iff_of_true (hunread.trans (htold.unread_iff.mpr (by simp))) (by simp),
          fun q' rest hq' => absurd hq' (by simp)⟩

/-- The size is read. -/
theorem orderly_get (h : Orderly i s) (hbusy : s.control p = .busy c (.get i :: ops)) :
    Orderly i ((s.record p (.got i (s.integer i))).setControl p (.busy c ops)) := by
  obtain ⟨l, hl, hphase, -⟩ := h
  obtain ⟨v, rfl, h₀, hv, hfollows, hall⟩ := hphase.of_get hbusy
  refine ⟨[], ?_, .clear h₀ ?_, ?_⟩
  · -- the read is the last event of its round
    show need i (s.record p (.got i (s.integer i))) = _
    rw [need_record p _ _ rfl, hl, hv]
    exact Rounds.next_cons_self
  · refine forall_control_setControl (fun call ops' hops => ?_) fun q hq => hall q hq
    obtain ⟨-, rfl⟩ := ForkedControl.busy.inj hops
    exact hfollows
  · -- nothing is unread now, so no permit is out
    have hread : unread i (s.record p (.got i (s.integer i))) = false := unread_got _
    exact ⟨iff_of_false (Bool.eq_false_iff.mp hread) (by simp),
      fun q rest hq => absurd hq (by simp)⟩

/-- Operations about something else. -/
theorem orderly_apart (h : Orderly i s) (habout : op.about ≠ some i) (ha : Apart i s s₁)
    (hmore : more = [] ∨ ∃ j, j ≠ i ∧ more = [.get j])
    (hbusy : s.control p = .busy c (op :: ops)) {c' : ForkedControl}
    (hc' : c' = .busy c (more ++ ops) ∨ c' = .threw op ∨ c' = .outOfBounds) :
    Orderly i (s₁.setControl p c') := by
  -- where the step is no post and no read of this integer, none is due behind it
  have hfollows : Follows i false (op :: ops) := by
    obtain ⟨l, -, hphase, -⟩ := h
    refine hphase.follows hbusy ?_ ?_
    · rintro rfl
      exact habout rfl
    · rintro rfl
      exact habout rfl
  refine h.of_idle ha c' (fun call ops' hops => ?_) fun call ops' hops => ?_
  · obtain ⟨-, rfl⟩ := ForkedControl.busy.inj (hbusy.symm.trans hops)
    exact hfollows
  · rw [follows_of_apart habout] at hfollows
    rcases hc' with rfl | rfl | rfl
    · obtain ⟨-, rfl⟩ := ForkedControl.busy.inj hops
      rcases hmore with rfl | ⟨j, hj, rfl⟩
      · exact hfollows
      · -- the read added is of the other integer
        have hget : (ForkedOp.get j).about ≠ some i := fun heq => hj (Option.some.inj heq)
        exact (follows_of_apart hget).mpr hfollows
    · exact ForkedControl.noConfusion hops
    · exact ForkedControl.noConfusion hops

/-- There is no permit, and so nothing to read. -/
theorem orderly_noPermit (h : Orderly i s) (hbusy : s.control p = .busy c (.semTrywait i :: ops)) :
    Orderly i (s.setControl p (.busy c ops)) := by
  have hfollows : Follows i false (.semTrywait i :: ops) := by
    obtain ⟨l, -, hphase, -⟩ := h
    exact hphase.follows hbusy (by simp) (by simp)
  refine h.of_idle (.refl i s) _ (fun call ops' hops => ?_) fun call ops' hops => ?_
  · obtain ⟨-, rfl⟩ := ForkedControl.busy.inj (hbusy.symm.trans hops)
    exact hfollows
  · obtain ⟨-, rfl⟩ := ForkedControl.busy.inj hops
    exact hfollows.2.2

/-- The operations on the integer. -/
theorem orderly_about (h : Orderly i s) (hres : RespectsOp s p op) (habout : op.about = some i)
    (hbusy : s.control p = .busy c (op :: ops))
    (heff : perform s p attr t answer op = .goesOn s₁ more) :
    Orderly i (s₁.setControl p (.busy c (more ++ ops))) := by
  cases op with
  | set j v =>
      obtain rfl := Option.some.inj habout
      obtain ⟨rfl, rfl⟩ := ForkedEffect.goesOn.inj heff
      exact orderly_set h hres hbusy
  | semPost j =>
      obtain rfl := Option.some.inj habout
      obtain ⟨hlt, hord⟩ := orderly_semPost h hbusy
      rw [perform_semPost, if_pos hlt] at heff
      obtain ⟨rfl, rfl⟩ := ForkedEffect.goesOn.inj heff
      exact hord
  | semTrywait j =>
      obtain rfl := Option.some.inj habout
      rw [perform_semTrywait] at heff
      -- the permit is taken by the process it is meant for, or there is none
      by_cases hpos : 0 < s.semaphore j
      · rw [if_pos hpos] at heff
        obtain ⟨rfl, rfl⟩ := ForkedEffect.goesOn.inj heff
        exact orderly_acquire h hpos (hres hpos) hbusy
      · rw [if_neg hpos] at heff
        obtain ⟨rfl, rfl⟩ := ForkedEffect.goesOn.inj heff
        exact orderly_noPermit h hbusy
  | get j =>
      obtain rfl := Option.some.inj habout
      obtain ⟨rfl, rfl⟩ := ForkedEffect.goesOn.inj heff
      exact orderly_get h hbusy
  | _ => exact absurd habout (by simp [ForkedOp.about])

/-- No operation on the integer fails: only a post could, and nothing else is announced then. -/
theorem goesOn_of_about (h : Orderly i s) (hbusy : s.control p = .busy c (op :: ops))
    (habout : op.about = some i) : ∃ s₁ more, perform s p attr t answer op = .goesOn s₁ more := by
  cases op with
  | set j v => exact ⟨_, _, rfl⟩
  | semPost j =>
      -- the semaphore is zero here, below the kernel's maximum
      obtain rfl := Option.some.inj habout
      rw [perform_semPost, if_pos (orderly_semPost h hbusy).1]
      exact ⟨_, _, rfl⟩
  | semTrywait j =>
      rw [perform_semTrywait]
      by_cases hpos : 0 < s.semaphore j
      · exact ⟨_, _, if_pos hpos⟩
      · exact ⟨_, _, if_neg hpos⟩
  | get j => exact ⟨_, _, rfl⟩
  | _ => exact absurd habout (by simp [ForkedOp.about])

end Operations

/-- A step that leaves every integer alone. -/
theorem orderly_still {a : ForkedAction} (h : Orderly i s) (ha : a.about = none)
    {c' : ForkedControl} (hold : Idle i (s.control p)) (hnew : Idle i c') :
    Orderly i ((s.record p a).setControl p c') :=
  h.of_idle (apart_record s p (ForkedAction.about_ne ha)) c' hold hnew

/-- Between its calls a process is idle. -/
theorem idle_of_not_busy {c' : ForkedControl} (h : ∀ call ops, c' ≠ .busy call ops) : Idle i c' :=
  fun call ops hops => absurd hops (h call ops)

/-- The destructor does not touch the integers' books. -/
theorem orderly_destroy (h : Orderly i s)
    (hcontrol : s.control p = .ready ∨ ∃ op, s.control p = .threw op) :
    Orderly i (destroy this s p) := by
  have hold : Idle i (s.control p) := by
    refine idle_of_not_busy fun call ops hops => ?_
    rcases hcontrol with hready | ⟨op, hthrew⟩
    · exact ForkedControl.noConfusion (hready.symm.trans hops)
    · exact ForkedControl.noConfusion (hthrew.symm.trans hops)
  have hnew : Idle i .destroyed := idle_of_not_busy fun _ _ => ForkedControl.noConfusion
  rw [destroy]
  split
  · exact orderly_still h rfl hold hnew
  · exact h.of_idle (.refl i s) _ hold hnew

/-- **A step that respects the integer keeps it orderly.** -/
theorem orderly_move {input : ForkedInput} (h : Orderly i s) (hmove : Move attr this s p input s')
    (hres : ∀ c op ops, s.control p = .busy c (op :: ops) → RespectsOp s p op) :
    Orderly i s' := by
  cases hmove with
  | called c hready _ =>
      refine orderly_still h rfl (idle_of_not_busy fun call ops hops => ?_) fun call ops hops => ?_
      · exact ForkedControl.noConfusion (hready.symm.trans hops)
      · obtain ⟨-, rfl⟩ := ForkedControl.busy.inj hops
        exact follows_operations i (this p) c
  | returned c answer hbusy =>
      refine orderly_still h rfl (fun call ops hops => ?_)
        (idle_of_not_busy fun _ _ => ForkedControl.noConfusion)
      obtain ⟨-, rfl⟩ := ForkedControl.busy.inj (hbusy.symm.trans hops)
      rfl
  | destroyed hcontrol => exact orderly_destroy h hcontrol
  | goesOn c op ops more answer s₁ hbusy _ heff =>
      by_cases habout : op.about = some i
      · exact orderly_about h (hres c op ops hbusy) habout hbusy heff
      · obtain ⟨ha, hmore⟩ := apart_of_goesOn habout heff
        exact orderly_apart h habout ha hmore hbusy (.inl rfl)
  | throws c op ops answer s₁ hbusy _ heff =>
      by_cases habout : op.about = some i
      · obtain ⟨s₂, more, hgoes⟩ := goesOn_of_about h hbusy habout
        -- an operation on the integer goes on
        exact ForkedEffect.noConfusion (hgoes.symm.trans heff)
      · have ha := apart_of_throws habout heff
        exact orderly_apart h habout ha (.inl rfl) hbusy (.inr (.inl rfl))
  | outOfBounds c op ops answer hbusy _ heff =>
      by_cases habout : op.about = some i
      · obtain ⟨s₂, more, hgoes⟩ := goesOn_of_about h hbusy habout
        exact ForkedEffect.noConfusion (hgoes.symm.trans heff)
      · exact orderly_apart h habout (.refl i s) (.inl rfl) hbusy (.inr (.inr rfl))

/-- A step that is possible makes the next operation only if it is one of `send` or `receive`. -/
theorem Respects.of_busy {e : Process × ForkedInput} (h : Respects s e) (hpossible : s.Possible e)
    (hbusy : s.control e.1 = .busy c (op :: ops)) : RespectsOp s e.1 op := by
  obtain ⟨p, input⟩ := e
  have hbusy' : s.control p = .busy c (op :: ops) := hbusy
  cases input with
  | resume answer => exact h op (by rw [hbusy']; rfl)
  -- a busy process is neither between its calls nor at its end
  | call call =>
      have hready : s.control p = .ready := by
        cases call with
        | send msg prios => exact hpossible.1
        | receive => exact hpossible
      exact ForkedControl.noConfusion (hready.symm.trans hbusy')
  | destroy =>
      have hends : Ends (s.control p) := hpossible
      rw [hbusy'] at hends
      exact absurd hends id

/-- **A step that breaks the condition breaks the rounds.** -/
theorem respects_of_readOnce {e : Process × ForkedInput} (h : ∀ i, Orderly i s)
    (hread : ∀ i, ReadOnce i (step attr this s e).state) : Respects s e := by
  obtain ⟨p, input⟩ := e
  cases input with
  | call call => trivial
  | destroy => trivial
  | resume answer =>
      intro op hnext
      obtain ⟨c, ops, hbusy⟩ : ∃ c ops, s.control p = .busy c (op :: ops) := nextOp_eq_some hnext
      have hstep : (step attr this s (p, .resume answer)).state =
          proceed s p c op ops (perform s p attr (this p) answer op) := by
        show resume attr this s p answer = _
        rw [resume, hbusy]
      cases op with
      | set i v =>
          -- a size that is unread does not allow another one to be stored
          obtain ⟨l, hl, hphase, htold⟩ := h i
          have hneed : need i (step attr this s (p, .resume answer)).state =
              Rounds.next announcement (need i s) (p, .set i v) := by
            rw [hstep]
            exact need_record p (.set i v) (s.setInteger i v) rfl
          have hsome := readOnce_iff_need.mp (hread i)
          rw [hneed, hl] at hsome
          cases hphase with
          | clear _ _ => exact Bool.eq_false_iff.mpr fun hunread => htold.unread_iff.mp hunread rfl
          | stored q w _ _ _ _ | announced q w _ _ _ | acquired q w _ _ _ _ =>
              rw [Rounds.next_cons_ne (by simp)] at hsome
              exact absurd hsome (by simp)
      | semTrywait i =>
          obtain ⟨l, hl, hphase, htold⟩ := h i
          intro hpos hposter
          cases hphase with
          | clear h₀ _ | stored q w h₀ _ _ _ | acquired q w h₀ _ _ _ =>
              exact absurd h₀ (Nat.ne_of_gt hpos)
          | announced q w _ _ _ =>
              -- the poster takes its own permit
              have hself : q.other = p :=
                Option.some.inj ((htold.poster q _ rfl).symm.trans hposter)
              have hneed : need i (step attr this s (p, .resume answer)).state =
                  Rounds.next announcement (need i s) (p, .acquired i) := by
                rw [hstep, perform_semTrywait, if_pos hpos]
                exact need_record p (.acquired i) (s.setSemaphore i (s.semaphore i - 1)) rfl
              have hother : (p, ForkedAction.acquired i) ≠ (q, .acquired i) := fun heq =>
                q.other_ne (hself.trans (Prod.mk.inj heq).1)
              have hsome := readOnce_iff_need.mp (hread i)
              rw [hneed, hl, Rounds.next_cons_ne hother] at hsome
              exact absurd hsome (by simp)
      | _ => trivial

/-! ## Runs -/

/-- **Sizes are read once in exactly the runs that respect them.** In every run of the two
processes, in whatever order their operations come, each size stored is announced and read once by
the other process before the next is stored, in every state the run goes through, exactly when no
step stores a size while the one before is unread and no process tries for a permit when it was the
last one to post. -/
theorem readOnce_iff_respects (attr : MqAttr) (this : Process → SocketUnixForked)
    {es : List (Process × ForkedInput)} (hrun : Run (step attr this) Talks {} es s) :
    Run.Throughout (step attr this) Talks (fun s => ∀ i, ReadOnce i s) {} es ↔
      Run (step attr this) (fun s e => s.Talks e ∧ Respects s e) {} es s := by
  refine hrun.throughout_iff (I := fun s => ∀ i, Orderly i s) .initial
    (fun s h i => (h i).readOnce) (fun s e h hok hres i => ?_) fun s e h _ hread =>
    respects_of_readOnce h hread
  exact step_keeps hok.1 fun s' hmove => orderly_move (h i) hmove fun _ _ _ hbusy =>
    Respects.of_busy hres hok.1 hbusy

/-- Two messages from the parent, each received before the next is sent. Then the parent looks for a
permit itself, when there is none left. -/
theorem readOnce_sample : Run.Throughout (step .default samplePair) Talks
    (fun s => ∀ i, ReadOnce i s) {} (sampleSend ++ sampleReceive .child 9 ++
      (sampleSend ++ sampleReceive .child 9) ++ sampleReceive .parent 5) := by
  have hrun : Run (step .default samplePair) (fun s e => s.Talks e ∧ Respects s e) {}
      (sampleSend ++ sampleReceive .child 9 ++ (sampleSend ++ sampleReceive .child 9) ++
        sampleReceive .parent 5) _ := run_of_allows (by decide +kernel)
  exact (readOnce_iff_respects .default samplePair (hrun.imp fun _ _ hok => hok.1)).mpr hrun

/-- **The poster takes its own permit**: the parent sends a message and then receives, before the
child does. -/
theorem not_readOnce : ¬ ∀ (es : List (Process × ForkedInput)) (s : ForkedPair),
    Run (step .default samplePair) Talks {} es s → ∀ i, ReadOnce i s := by
  intro h
  have hrun : Run (step .default samplePair) Talks {} (sampleSend ++ sampleReceive .parent 2) _ :=
    run_of_allows (by decide +kernel)
  have hread := readOnce_iff_need.mp (h _ _ hrun .posix)
  exact absurd hread (by decide +kernel)

end ForkedPair

end SctpSandbox
