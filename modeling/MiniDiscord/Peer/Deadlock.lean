import MiniDiscord.Peer.Waiters

/-!
# Crossed heartbeats

The read loop answers a PING itself, and waits for room in the queue that only `send_message_task`
empties. When both read loops wait so, nothing empties the two wires, and both
`send_message_task`s come to wait as well.
-/

namespace MiniDiscord.Peer

def ReadLoop.isPonging : ReadLoop → Bool
  | .ponging _ _ => true
  | _ => false

def ReadLoop.isPinged : ReadLoop → Bool
  | .dispatching (.ping _ _) => true
  | _ => false

def SendTask.isWriting : SendTask → Bool
  | .writing _ => true
  | _ => false

/-- `send_message_task` waits in `write_all`. -/
def Link.sendBlocked (capacity : ℕ) (l : Link) (s : Side) : Bool :=
  (l.side s).sendTask.isWriting && decide (capacity ≤ (l.wire s).length)

/-- The read loop waits in `sender.send(PONG)`. -/
def Link.readBlocked (l : Link) (s : Side) : Bool :=
  (l.side s).readLoop.isPonging && decide (queueCapacity ≤ (l.side s).queue.length)

def Link.Deadlocked (capacity : ℕ) (l : Link) : Prop :=
  ∀ s, l.sendBlocked capacity s = true ∧ l.readBlocked s = true

/-- The side still writes what it takes, or waits to write. -/
def Link.writes (capacity : ℕ) (l : Link) (s : Side) : Bool :=
  (l.side s).isAlive || l.sendBlocked capacity s

/-- The step makes the second of two read loops wait for room. -/
def crosses (capacity : ℕ) (l : Link) (x : Side × Event) : Bool :=
  x.2 == .dispatch && (l.side x.1).readLoop.isPinged &&
    decide (queueCapacity ≤ (l.side x.1).queue.length) &&
    (l.side x.1.other).readLoop.isPonging &&
    l.writes capacity x.1 && l.writes capacity x.1.other

def uncrossed (capacity : ℕ) (l : Link) (x : Side × Event) : Bool := !crosses capacity l x

variable {E E' : Endpoint} {e : Event} {l l' : Link} {s : Side} {capacity : ℕ}

theorem step_ponging (h : Step E e E') (ponging : E'.readLoop.isPonging = true) :
    E.readLoop.isPonging = true ∨
      e = .dispatch ∧ E.readLoop.isPinged = true ∧ queueCapacity ≤ E.queue.length := by
  cases h with
  | blocked q c loop full =>
    rw [loop]
    exact Or.inr ⟨rfl, rfl, not_lt.mp full⟩
  | received line loop | disconnected loop | responded line q c loop answer
  | ponged q c loop room | heard q leader loop | spawned q c loop | unblocked q c loop room =>
    cases ponging
  | _ => exact Or.inl ponging

/-- `send_message_task` writes nothing that it numbered after the peer was marked failed. -/
theorem step_failed_peer (h : Step E e E') (failed : E.isAlive = false) :
    E'.isAlive = false ∧
      (E'.sendTask.isWriting = true → E.sendTask.isWriting = true ∧ e.written = []) := by
  cases h with
  | checkedAlive line task alive =>
    rw [failed] at alive
    cases alive
  | failed | unreachable => exact ⟨rfl, fun hwriting => ⟨hwriting, rfl⟩⟩
  | took message queue task next | checkedFailed line task hfailed | wrote line task
  | lost line task | drained task =>
    refine ⟨failed, fun hwriting => ?_⟩
    cases hwriting
  | numbered message task =>
    refine ⟨failed, fun hwriting => ?_⟩
    cases hwriting
  | _ => exact ⟨failed, fun hwriting => ⟨hwriting, rfl⟩⟩

theorem step_writes (h : LinkStep capacity l s e l') (s' : Side)
    (hstopped : l.writes capacity s' = false) : l'.writes capacity s' = false := by
  simp only [Link.writes, Link.sendBlocked, Bool.or_eq_false_iff, Bool.and_eq_false_imp,
    decide_eq_false_iff_not, not_le] at hstopped ⊢
  obtain ⟨hfailed, hroom⟩ := hstopped
  rcases Side.eq_or_other s s' with rfl | rfl
  · obtain ⟨hfailed', hstill⟩ := step_failed_peer h.step hfailed
    refine ⟨hfailed', fun hwriting => ?_⟩
    obtain ⟨hwas, hnone⟩ := hstill hwriting
    rw [h.wrote, hnone, List.append_nil]
    exact hroom hwas
  · rw [h.other]
    refine ⟨hfailed, fun hwriting => ?_⟩
    have hlt := hroom hwriting
    rw [h.took, List.length_append] at hlt
    omega

/-- When both read loops wait for room, one side has stopped writing. -/
def Link.Uncrossed (capacity : ℕ) (l : Link) : Prop :=
  (∀ s, (l.side s).readLoop.isPonging = true) → ∃ s, l.writes capacity s = false

theorem step_uncrossed (h : LinkStep capacity l s e l')
    (allowed : uncrossed capacity l (s, e) = true) (before : l.Uncrossed capacity) :
    l'.Uncrossed capacity := by
  intro ponging
  have hother := ponging s.other
  rw [h.other] at hother
  rcases step_ponging h.step (ponging s) with hself | ⟨rfl, hpinged, hfull⟩
  · have hall : ∀ s', (l.side s').readLoop.isPonging = true := by
      intro s'
      rcases Side.eq_or_other s s' with rfl | rfl
      · exact hself
      · exact hother
    obtain ⟨s', hstopped⟩ := before hall
    exact ⟨s', step_writes h s' hstopped⟩
  · simp only [uncrossed, crosses, hpinged, hfull, hother, Bool.not_eq_true', Bool.and_eq_false_iff,
      beq_self_eq_true, decide_true, Bool.true_and, Bool.and_true] at allowed
    rcases allowed with hstopped | hstopped
    · exact ⟨s, step_writes h s hstopped⟩
    · exact ⟨s.other, step_writes h s.other hstopped⟩

/-- In a run whose read loops never cross, the two ends are in no state deadlocked. -/
theorem no_deadlock {es : List (Side × Event)}
    (run : LinkReaches capacity (uncrossed capacity) es l) : ¬ l.Deadlocked capacity := by
  have hinit : Link.init.Uncrossed capacity := by
    intro ponging
    cases ponging .left
  have hfree : l.Uncrossed capacity := run.invariant hinit
    fun _ _ _ before allowed taken => step_uncrossed (link_step_cases taken) allowed before
  intro hdead
  have hponging : ∀ s, (l.side s).readLoop.isPonging = true := by
    intro s
    have hread := (hdead s).2
    unfold Link.readBlocked at hread
    exact (Bool.and_eq_true_iff.mp hread).1
  obtain ⟨s, hstopped⟩ := hfree hponging
  unfold Link.writes at hstopped
  rw [(hdead s).1, Bool.or_true] at hstopped
  cases hstopped

/-! ## From crossed PINGs to the deadlock -/

/-- Steps of one side that leave the other, its own read loop and its view of the peer alone. -/
structure Advances (capacity : ℕ) (s : Side) (l l' : Link) : Prop where
  run : ∃ es, Run.Exec (Link.step capacity) (fun l x => anyEvent l x = true) l es l'
  readLoop : (l'.side s).readLoop = (l.side s).readLoop
  isAlive : (l'.side s).isAlive = (l.side s).isAlive
  other : l'.side s.other = l.side s.other
  otherWire : l'.wire s.other = l.wire s.other

theorem Advances.refl (l : Link) : Advances capacity s l l :=
  ⟨⟨[], .nil⟩, rfl, rfl, rfl, rfl⟩

theorem Advances.trans {l'' : Link} (h : Advances capacity s l l')
    (h' : Advances capacity s l' l'') : Advances capacity s l l'' := by
  obtain ⟨es, run⟩ := h.run
  obtain ⟨es', run'⟩ := h'.run
  exact ⟨⟨es ++ es', run.append run'⟩, h'.readLoop.trans h.readLoop, h'.isAlive.trans h.isAlive,
    h'.other.trans h.other, h'.otherWire.trans h.otherWire⟩

/-- One step of the side, and what becomes of it. -/
theorem advances_step (capacity : ℕ) (h : Step (l.side s) e E) (reads : e.read = [])
    (room : e.written ≠ [] → (l.wire s).length < capacity)
    (readLoop : E.readLoop = (l.side s).readLoop) (isAlive : E.isAlive = (l.side s).isAlive) :
    ∃ l', Advances capacity s l l' ∧ l'.side s = E ∧ l'.wire s = l.wire s ++ e.written := by
  have hne := Side.other_ne s
  refine ⟨(l.setSide s E).setWire s (l.wire s ++ e.written), ?_, ?_, ?_⟩
  · have hstep : LinkStep capacity l s e ((l.setSide s E).setWire s (l.wire s ++ e.written)) :=
      ⟨by simpa [Link.setSide, Link.setWire] using h, by simp [Link.setSide, Link.setWire, hne],
        by simp [Link.setSide, Link.setWire],
        by simp [Link.setSide, Link.setWire, hne, reads], room⟩
    refine ⟨⟨_, .snoc .nil rfl hstep.taken⟩, ?_, ?_, ?_, ?_⟩ <;>
      simp [Link.setSide, Link.setWire, hne, readLoop, isAlive]
  · simp [Link.setSide, Link.setWire]
  · simp [Link.setSide, Link.setWire]

theorem advances_full (capacity : ℕ) (l : Link) (s : Side) : ∃ l', Advances capacity s l l' ∧
    queueCapacity ≤ (l'.side s).queue.length ∧ (l'.side s).sendTask = (l.side s).sendTask ∧
    l'.wire s = l.wire s := by
  induction hmissing : queueCapacity - (l.side s).queue.length generalizing l with
  | zero => exact ⟨l, .refl l, by omega, rfl, rfl⟩
  | succ missing ih =>
    have hroom : (l.side s).queue.length < queueCapacity := by omega
    obtain ⟨l₁, hfirst, hside, hwire⟩ := advances_step capacity (.sentRequest hroom) rfl
      (fun hwrites => absurd rfl hwrites) rfl rfl
    obtain ⟨l₂, hrest, hfull, htask, hwire'⟩ := ih l₁ (by simp [hside]; omega)
    refine ⟨l₂, hfirst.trans hrest, hfull, ?_, ?_⟩
    · rw [htask, hside]
    · rw [hwire', hwire]
      exact List.append_nil _

theorem advances_registered {line : Line} (task : (l.side s).sendTask = .registered line)
    (alive : (l.side s).isAlive = true) : ∃ l', Advances capacity s l l' ∧
      (l'.side s).sendTask.isWriting = true ∧ l'.wire s = l.wire s := by
  obtain ⟨l', hstep, hside, hwire⟩ := advances_step capacity (.checkedAlive line task alive) rfl
    (fun hwrites => absurd rfl hwrites) rfl rfl
  refine ⟨l', hstep, ?_, hwire.trans (List.append_nil _)⟩
  rw [hside]
  rfl

theorem advances_taken {message : MessageToSend} (task : (l.side s).sendTask = .taken message)
    (alive : (l.side s).isAlive = true) : ∃ l', Advances capacity s l l' ∧
      (l'.side s).sendTask.isWriting = true ∧ l'.wire s = l.wire s := by
  obtain ⟨l₁, hfirst, hside, hwire⟩ := advances_step capacity (.numbered message task) rfl
    (fun hwrites => absurd rfl hwrites) rfl rfl
  obtain ⟨l₂, hrest, hwriting, hwire'⟩ := advances_registered
    (by rw [hside]; rfl) (hfirst.isAlive.trans alive)
  exact ⟨l₂, hfirst.trans hrest, hwriting, hwire'.trans (hwire.trans (List.append_nil _))⟩

theorem advances_waiting (task : (l.side s).sendTask = .waiting)
    (alive : (l.side s).isAlive = true) : ∃ l', Advances capacity s l l' ∧
      (l'.side s).sendTask.isWriting = true ∧ l'.wire s = l.wire s := by
  obtain ⟨l₁, hfirst, hfull, htask, hwire⟩ := advances_full capacity l s
  cases hqueue : (l₁.side s).queue with
  | nil =>
    rw [hqueue] at hfull
    cases hfull
  | cons message queue =>
    obtain ⟨l₂, hsecond, hside, hwire'⟩ := advances_step capacity
      (.took message queue (htask.trans task) hqueue) rfl (fun hwrites => absurd rfl hwrites)
      rfl rfl
    have hboth := hfirst.trans hsecond
    obtain ⟨l₃, hrest, hwriting, hwire''⟩ := advances_taken (by rw [hside])
      (hboth.isAlive.trans alive)
    refine ⟨l₃, hboth.trans hrest, hwriting, ?_⟩
    rw [hwire'', hwire', hwire]
    exact List.append_nil _

theorem advances_writing (capacity : ℕ) (drains : (l.side s).sendTask ≠ .draining)
    (alive : (l.side s).isAlive = true) : ∃ l', Advances capacity s l l' ∧
      (l'.side s).sendTask.isWriting = true ∧ l'.wire s = l.wire s := by
  cases htask : (l.side s).sendTask with
  | waiting => exact advances_waiting htask alive
  | taken message => exact advances_taken htask alive
  | registered line => exact advances_registered htask alive
  | writing line => exact ⟨l, .refl l, by rw [htask]; rfl, rfl⟩
  | draining => exact absurd htask drains

theorem advances_blocked (l : Link) (s : Side) (drains : (l.side s).sendTask ≠ .draining)
    (alive : (l.side s).isAlive = true) :
    ∃ l', Advances capacity s l l' ∧ l'.sendBlocked capacity s = true := by
  induction hmissing : capacity - (l.wire s).length generalizing l with
  | zero =>
    obtain ⟨l', hstep, hwriting, hwire⟩ := advances_writing capacity drains alive
    refine ⟨l', hstep, ?_⟩
    unfold Link.sendBlocked
    rw [hwriting, hwire]
    exact decide_eq_true (by omega)
  | succ missing ih =>
    obtain ⟨l₁, hfirst, hwriting, hwire⟩ := advances_writing capacity drains alive
    cases htask : (l₁.side s).sendTask with
    | writing line =>
      obtain ⟨l₂, hsecond, hside, hwire'⟩ := advances_step capacity (.wrote line htask) rfl
        (fun _ => by rw [hwire]; omega) rfl rfl
      have hboth := hfirst.trans hsecond
      have hdrains : (l₂.side s).sendTask ≠ .draining := by
        rw [hside]
        intro hnone
        cases hnone
      have hfewer : capacity - (l₂.wire s).length = missing := by
        rw [hwire', hwire, List.length_append]
        simp only [Event.written, List.length_singleton]
        omega
      obtain ⟨l₃, hrest, hblocked⟩ := ih l₂ hdrains (hboth.isAlive.trans alive) hfewer
      exact ⟨l₃, hboth.trans hrest, hblocked⟩
    | _ =>
      rw [htask] at hwriting
      cases hwriting

theorem advances_stuck (drains : (l.side s).sendTask = .draining → (l.side s).isAlive = false)
    (writes : l.writes capacity s = true) (ponging : (l.side s).readLoop.isPonging = true) :
    ∃ l', Advances capacity s l l' ∧ l'.sendBlocked capacity s = true ∧
      l'.readBlocked s = true := by
  have hblocked : ∃ l', Advances capacity s l l' ∧ l'.sendBlocked capacity s = true := by
    rcases Bool.or_eq_true_iff.mp writes with halive | hblocked
    · refine advances_blocked l s (fun htask => ?_) halive
      rw [drains htask] at halive
      cases halive
    · exact ⟨l, .refl l, hblocked⟩
  obtain ⟨l₁, hfirst, hblocked⟩ := hblocked
  obtain ⟨l₂, hrest, hfull, htask, hwire⟩ := advances_full capacity l₁ s
  have hboth := hfirst.trans hrest
  refine ⟨l₂, hboth, ?_, ?_⟩
  · unfold Link.sendBlocked
    rw [htask, hwire]
    exact hblocked
  · unfold Link.readBlocked
    rw [hboth.readLoop, ponging]
    exact decide_eq_true hfull

theorem step_pinged (h : Step E .dispatch E') (pinged : E.readLoop.isPinged = true)
    (full : queueCapacity ≤ E.queue.length) :
    E'.readLoop.isPonging = true ∧ E'.sendTask = E.sendTask ∧ E'.isAlive = E.isAlive := by
  cases h with
  | responded line q c loop answer =>
    rw [loop] at pinged
    rcases answer with rfl | rfl <;> cases pinged
  | ponged q c loop room => exact absurd room (not_lt.mpr full)
  | blocked q c loop hfull => exact ⟨rfl, rfl, rfl⟩
  | heard q leader loop | spawned q c loop =>
    rw [loop] at pinged
    cases pinged

/-- A step that crosses leaves both read loops waiting for room, and both sides writing. -/
theorem step_crosses (h : LinkStep capacity l s e l') (cross : crosses capacity l (s, e) = true)
    (t : Side) : (l'.side t).readLoop.isPonging = true ∧ l'.writes capacity t = true := by
  simp only [crosses, Bool.and_eq_true, beq_iff_eq, decide_eq_true_eq] at cross
  obtain ⟨⟨⟨⟨⟨rfl, hpinged⟩, hfull⟩, hponging⟩, hwrites⟩, hother⟩ := cross
  have hwrote := h.wrote
  have htook := h.took
  simp only [Event.written, Event.read, List.append_nil, List.nil_append] at hwrote htook
  rcases Side.eq_or_other s t with rfl | rfl
  · obtain ⟨hpongs, htask, halive⟩ := step_pinged h.step hpinged hfull
    refine ⟨hpongs, ?_⟩
    unfold Link.writes Link.sendBlocked
    rw [halive, htask, hwrote]
    exact hwrites
  · rw [h.other]
    refine ⟨hponging, ?_⟩
    unfold Link.writes Link.sendBlocked
    rw [h.other, ← htook]
    exact hother

/-- Every step that crosses can be followed by a deadlock. -/
theorem crossed_deadlocks {es : List (Side × Event)} (run : LinkReaches capacity anyEvent es l)
    (cross : crosses capacity l (s, e) = true) (taken : l.step capacity (s, e) = some l') :
    ∃ es' l'', LinkReaches capacity anyEvent (es ++ [(s, e)] ++ es') l'' ∧
      l''.Deadlocked capacity := by
  have hcrossed := step_crosses (link_step_cases taken) cross
  have hrun := run.snoc rfl taken
  have hdrains : ∀ t, (l'.side t).sendTask = .draining → (l'.side t).isAlive = false := by
    intro t htask
    obtain ⟨_, hend⟩ := link_end hrun t
    exact (reaches_accounted hend).failed (Or.inl htask)
  obtain ⟨l₁, hleft, hsends, hreads⟩ := advances_stuck (hdrains .left) (hcrossed .left).2
    (hcrossed .left).1
  have hside : l₁.side .right = l'.side .right := hleft.other
  have hwire : l₁.wire .right = l'.wire .right := hleft.otherWire
  have hwrites : l₁.writes capacity .right = true := by
    unfold Link.writes Link.sendBlocked
    rw [hside, hwire]
    exact (hcrossed .right).2
  obtain ⟨l₂, hright, hsends', hreads'⟩ := advances_stuck (hside ▸ hdrains .right) hwrites
    (hside ▸ (hcrossed .right).1)
  have hside' : l₂.side .left = l₁.side .left := hright.other
  have hwire' : l₂.wire .left = l₁.wire .left := hright.otherWire
  obtain ⟨es₁, run₁⟩ := hleft.run
  obtain ⟨es₂, run₂⟩ := hright.run
  refine ⟨es₁ ++ es₂, l₂, hrun.append (run₁.append run₂), fun t => ?_⟩
  cases t with
  | left =>
    unfold Link.sendBlocked Link.readBlocked
    rw [hside', hwire']
    exact ⟨hsends, hreads⟩
  | right => exact ⟨hsends', hreads'⟩

/-- Both sides send a PING each, a request that fills the wire, one that waits to be written and a
queue of a hundred more. -/
def crossedPings : List (Side × Event) :=
  let ping := .sendPing :: sends (.ping 1 0)
  let load := .sendRequest :: sends (.request 2 1) ++ [.sendRequest, .take, .number, .check] ++
    List.replicate queueCapacity .sendRequest
  Side.left.does ping ++ Side.right.does ping ++
    Side.left.does [.receive (.ping 1 0)] ++ Side.right.does [.receive (.ping 1 0)] ++
    Side.left.does load ++ Side.right.does load ++
    Side.left.does [.dispatch] ++ Side.right.does [.dispatch]

/-- The same load, with the second PING not dispatched yet. -/
theorem no_deadlock_loaded : ∃ l, LinkReaches 1 (uncrossed 1) crossedPings.dropLast l ∧
    (∀ s, l.sendBlocked 1 s = true) ∧ l.readBlocked .left = true ∧ ¬ l.Deadlocked 1 := by
  obtain ⟨l, run, htest⟩ := Run.exec_of_test
    (fun l : Link => l.sendBlocked 1 .left && l.sendBlocked 1 .right && l.readBlocked .left)
    (by decide +kernel : (outcome 1 (uncrossed 1) crossedPings.dropLast).any _ = true)
  simp only [Bool.and_eq_true] at htest
  obtain ⟨⟨hleft, hright⟩, hread⟩ := htest
  refine ⟨l, run, ?_, hread, no_deadlock run⟩
  intro s
  cases s with
  | left => exact hleft
  | right => exact hright

/-- Both sides wait for ever when their PINGs come while both queues are full. -/
theorem deadlock_crossed : ∃ l, LinkReaches 1 anyEvent crossedPings l ∧ l.Deadlocked 1 := by
  obtain ⟨l, run, htest⟩ := Run.exec_of_test
    (fun l : Link => l.sendBlocked 1 .left && l.readBlocked .left && (l.sendBlocked 1 .right &&
      l.readBlocked .right))
    (by decide +kernel : (outcome 1 anyEvent crossedPings).any _ = true)
  simp only [Bool.and_eq_true] at htest
  refine ⟨l, run, fun s => ?_⟩
  cases s with
  | left => exact htest.1
  | right => exact htest.2

end MiniDiscord.Peer
