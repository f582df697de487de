import MiniDiscord.Peer.Spec

/-!
# What one step can do

`Step` lists the outcomes of an event at one end, with what is known in each. `LinkStep` says what
becomes of the other end and of the lines under way.
-/

namespace MiniDiscord.Peer

variable {E E' : Endpoint} {e : Event}

inductive Step (E : Endpoint) : Event → Endpoint → Prop
  | sentRequest (room : E.queue.length < queueCapacity) :
      Step E .sendRequest
        { E with callbacks := E.callbacks + 1, queue := E.queue ++ [.request E.callbacks] }
  | sentPing (room : E.queue.length < queueCapacity) :
      Step E .sendPing
        { E with callbacks := E.callbacks + 1, queue := E.queue ++ [.ping E.callbacks] }
  | announced (leader : String) (room : E.queue.length < queueCapacity) :
      Step E (.announce leader) { E with queue := E.queue ++ [.leaderAnnouncement leader] }
  | took (message : MessageToSend) (queue : List MessageToSend) (task : E.sendTask = .waiting)
      (next : E.queue = message :: queue) :
      Step E .take { E with queue, sendTask := .taken message }
  | numbered (message : MessageToSend) (task : E.sendTask = .taken message) :
      Step E .number (E.register message)
  | checkedAlive (line : Line) (task : E.sendTask = .registered line) (alive : E.isAlive = true) :
      Step E .check { E with sendTask := .writing line }
  | checkedFailed (line : Line) (task : E.sendTask = .registered line)
      (failed : E.isAlive = false) :
      Step E .check { E with sendTask := .draining }
  | wrote (line : Line) (task : E.sendTask = .writing line) :
      Step E (.write line) { E with sendTask := .waiting, written := E.written ++ [line] }
  | lost (line : Line) (task : E.sendTask = .writing line) :
      Step E .writeError { E with sendTask := .waiting }
  | drained (task : E.sendTask = .draining) :
      Step E .drain { E.drained with sendTask := .waiting }
  | received (line : Line) (loop : E.readLoop = .reading) :
      Step E (.receive line) { E with readLoop := .dispatching line }
  | disconnected (loop : E.readLoop = .reading) :
      Step E .disconnect { E with readLoop := .ended }
  | responded (line : Line) (q c : ℕ) (loop : E.readLoop = .dispatching line)
      (answer : line = .pong q c ∨ line = .response q c) :
      Step E .dispatch (E.respond q c)
  | ponged (q c : ℕ) (loop : E.readLoop = .dispatching (.ping q c))
      (room : E.queue.length < queueCapacity) :
      Step E .dispatch { E with queue := E.queue ++ [.pong q c], readLoop := .reading }
  | blocked (q c : ℕ) (loop : E.readLoop = .dispatching (.ping q c))
      (full : ¬ E.queue.length < queueCapacity) :
      Step E .dispatch { E with readLoop := .ponging q c }
  | heard (q : ℕ) (leader : String)
      (loop : E.readLoop = .dispatching (.leaderAnnouncement q leader)) :
      Step E .dispatch { E with readLoop := .reading }
  | spawned (q c : ℕ) (loop : E.readLoop = .dispatching (.request q c)) :
      Step E .dispatch { E with readLoop := .reading, answering := E.answering ++ [(q, c)] }
  | unblocked (q c : ℕ) (loop : E.readLoop = .ponging q c)
      (room : E.queue.length < queueCapacity) :
      Step E .pong { E with readLoop := .reading, queue := E.queue ++ [.pong q c] }
  | answered (pre post : List (ℕ × ℕ)) (q c : ℕ) (tasks : E.answering = pre ++ (q, c) :: post)
      (room : E.queue.length < queueCapacity) :
      Step E (.answer pre.length)
        { E with answering := pre ++ post, queue := E.queue ++ [.response q c] }
  | failed : Step E .fail { E with isAlive := false, handlers := E.handlers ++ [.marked] }
  | notified (i : ℕ) (handler : E.handlers[i]? = some .marked) :
      Step E (.notify i) { E with handlers := E.handlers.set i .notified }
  | drainedFailed (i : ℕ) (handler : E.handlers[i]? = some .notified) :
      Step E (.drainFailed i) { E.drained with handlers := E.handlers.set i .finished }
  | unreachable : Step E .unreachable { E with isAlive := false }

theorem send_some {message : MessageToSend} (h : E.send message = some E') :
    E.queue.length < queueCapacity ∧ E' = { E with queue := E.queue ++ [message] } := by
  unfold Endpoint.send at h
  split_ifs at h with hroom
  exact ⟨hroom, (Option.some.inj h).symm⟩

theorem dispatch_cases (line : Line) (loop : E.readLoop = .dispatching line) :
    Step E .dispatch (E.dispatch line) := by
  cases line with
  | pong q c => exact .responded _ q c loop (Or.inl rfl)
  | response q c => exact .responded _ q c loop (Or.inr rfl)
  | leaderAnnouncement q leader => exact .heard q leader loop
  | request q c => exact .spawned q c loop
  | ping q c =>
    unfold Endpoint.dispatch
    split_ifs with hroom
    · exact .ponged q c loop hroom
    · exact .blocked q c loop hroom

theorem step_cases (h : E.step e = some E') : Step E e E' := by
  cases e with
  | sendRequest =>
    obtain ⟨hroom, rfl⟩ := send_some h
    exact .sentRequest hroom
  | sendPing =>
    obtain ⟨hroom, rfl⟩ := send_some h
    exact .sentPing hroom
  | announce leader =>
    obtain ⟨hroom, rfl⟩ := send_some h
    exact .announced leader hroom
  | take =>
    simp only [Endpoint.step] at h
    split at h
    · rename_i message queue htask hnext
      obtain rfl := Option.some.inj h
      exact .took message queue htask hnext
    · cases h
  | number =>
    simp only [Endpoint.step] at h
    split at h
    · rename_i message htask
      obtain rfl := Option.some.inj h
      exact .numbered message htask
    · cases h
  | check =>
    simp only [Endpoint.step] at h
    split at h
    · rename_i line htask
      obtain rfl := Option.some.inj h
      by_cases halive : E.isAlive = true
      · rw [if_pos halive]
        exact .checkedAlive line htask halive
      · rw [if_neg halive]
        exact .checkedFailed line htask (Bool.eq_false_of_not_eq_true halive)
    · cases h
  | write line =>
    simp only [Endpoint.step] at h
    split_ifs at h with htask
    obtain rfl := Option.some.inj h
    exact .wrote line htask
  | writeError =>
    simp only [Endpoint.step] at h
    split at h
    · rename_i line htask
      obtain rfl := Option.some.inj h
      exact .lost line htask
    · cases h
  | drain =>
    simp only [Endpoint.step] at h
    split_ifs at h with htask
    obtain rfl := Option.some.inj h
    exact .drained htask
  | receive line =>
    simp only [Endpoint.step] at h
    split_ifs at h with hloop
    obtain rfl := Option.some.inj h
    exact .received line hloop
  | disconnect =>
    simp only [Endpoint.step] at h
    split_ifs at h with hloop
    obtain rfl := Option.some.inj h
    exact .disconnected hloop
  | dispatch =>
    simp only [Endpoint.step] at h
    split at h
    · rename_i line hloop
      obtain rfl := Option.some.inj h
      exact dispatch_cases line hloop
    · cases h
  | pong =>
    simp only [Endpoint.step] at h
    split at h
    · rename_i q c hloop
      obtain ⟨hroom, rfl⟩ := send_some h
      exact .unblocked q c hloop hroom
    · cases h
  | answer i =>
    simp only [Endpoint.step, Option.bind_eq_bind, Option.bind_eq_some_iff, Prod.exists] at h
    obtain ⟨q, c, hi, h⟩ := h
    obtain ⟨hroom, rfl⟩ := send_some h
    obtain ⟨hlt, hget⟩ := List.getElem?_eq_some_iff.mp hi
    have htasks : E.answering = E.answering.take i ++ (q, c) :: E.answering.drop (i + 1) := by
      rw [← hget, List.cons_getElem_drop_succ, List.take_append_drop]
    have hlength : (E.answering.take i).length = i := by
      rw [List.length_take]
      omega
    have hanswered := Step.answered _ _ q c htasks hroom
    rw [hlength] at hanswered
    simpa [List.eraseIdx_eq_take_drop_succ] using hanswered
  | fail =>
    obtain rfl := Option.some.inj h
    exact .failed
  | notify i =>
    simp only [Endpoint.step] at h
    split_ifs at h with hhandler
    obtain rfl := Option.some.inj h
    exact .notified i hhandler
  | drainFailed i =>
    simp only [Endpoint.step] at h
    split_ifs at h with hhandler
    obtain rfl := Option.some.inj h
    exact .drainedFailed i hhandler
  | unreachable =>
    obtain rfl := Option.some.inj h
    exact .unreachable

theorem step_alive (h : Step E e E') :
    E'.isAlive = E.isAlive ∨ E'.isAlive = false ∧ (e = .fail ∨ e = .unreachable) := by
  cases h with
  | failed => exact Or.inr ⟨rfl, Or.inl rfl⟩
  | unreachable => exact Or.inr ⟨rfl, Or.inr rfl⟩
  | _ => exact Or.inl rfl

theorem step_marked (h : Step E e E') {k : ℕ} (hk : E.handlers[k]? = some .marked)
    (hne : e ≠ .notify k) : .marked ∈ E'.handlers := by
  cases h with
  | failed => exact List.mem_append_right _ (List.mem_singleton_self _)
  | notified i handler =>
    have hik : i ≠ k := fun heq => hne (heq ▸ rfl)
    refine List.mem_iff_getElem?.mpr ⟨k, ?_⟩
    rw [List.getElem?_set_ne hik, hk]
  | drainedFailed i handler =>
    have hik : i ≠ k := by
      rintro rfl
      rw [hk] at handler
      cases handler
    refine List.mem_iff_getElem?.mpr ⟨k, ?_⟩
    rw [List.getElem?_set_ne hik, hk]
  | _ => exact List.mem_iff_getElem?.mpr ⟨k, hk⟩

/-! ## Both ends -/

@[simp] theorem Side.other_other (s : Side) : s.other.other = s := by cases s <;> rfl

@[simp] theorem Side.other_ne (s : Side) : s.other ≠ s := by cases s <;> decide

theorem Side.eq_or_other (s s' : Side) : s' = s ∨ s' = s.other := by
  cases s <;> cases s' <;> decide

/-- The line that an event puts on the wire. -/
def Event.written : Event → List Line
  | .write line => [line]
  | _ => []

/-- The line that an event takes from the wire. -/
def Event.read : Event → List Line
  | .receive line => [line]
  | _ => []

structure LinkStep (capacity : ℕ) (l : Link) (s : Side) (e : Event) (l' : Link) : Prop where
  step : Step (l.side s) e (l'.side s)
  other : l'.side s.other = l.side s.other
  wrote : l'.wire s = l.wire s ++ e.written
  took : l.wire s.other = e.read ++ l'.wire s.other
  room : e.written ≠ [] → (l.wire s).length < capacity

variable {capacity : ℕ} {l l' : Link} {s : Side}

theorem link_step_cases (h : l.step capacity (s, e) = some l') : LinkStep capacity l s e l' := by
  simp only [Link.step, Option.bind_eq_bind, Option.bind_eq_some_iff] at h
  obtain ⟨E', hE', h⟩ := h
  have hstep := step_cases hE'
  have hne := Side.other_ne s
  cases e with
  | write line =>
    split_ifs at h with hroom
    obtain rfl := Option.some.inj h
    exact ⟨by simpa [Link.setSide, Link.setWire] using hstep,
      by simp [Link.setSide, Link.setWire, hne],
      by simp [Link.setSide, Link.setWire, Event.written],
      by simp [Link.setSide, Link.setWire, hne, Event.read], fun _ => hroom⟩
  | receive line =>
    simp only at h
    split at h
    · rename_i first rest hwire
      split_ifs at h with hfirst
      obtain rfl := Option.some.inj h
      exact ⟨by simpa [Link.setSide, Link.setWire] using hstep,
        by simp [Link.setSide, Link.setWire, hne],
        by simp [Link.setSide, Link.setWire, hne.symm, Event.written],
        by simp [Link.setSide, Link.setWire, hwire, hfirst, Event.read],
        fun hwrites => absurd rfl hwrites⟩
    · cases h
  | _ =>
    obtain rfl := Option.some.inj h
    exact ⟨by simpa [Link.setSide] using hstep, by simp [Link.setSide, hne],
      by simp [Link.setSide, Event.written], by simp [Link.setSide, Event.read],
      fun hwrites => absurd rfl hwrites⟩

theorem link_ext (s : Side) (side : l.side s = l'.side s)
    (otherSide : l.side s.other = l'.side s.other) (wire : l.wire s = l'.wire s)
    (otherWire : l.wire s.other = l'.wire s.other) : l = l' := by
  refine Link.ext (funext fun t => ?_) (funext fun t => ?_)
  · rcases Side.eq_or_other s t with rfl | rfl
    · exact side
    · exact otherSide
  · rcases Side.eq_or_other s t with rfl | rfl
    · exact wire
    · exact otherWire

/-- `Step` lists no outcome that an end does not have. -/
theorem Step.taken (h : Step E e E') : E.step e = some E' := by
  cases h with
  | responded line q c loop answer =>
    rcases answer with rfl | rfl <;> simp [Endpoint.step, Endpoint.dispatch, loop]
  | ponged q c loop room | blocked q c loop room =>
    simp [Endpoint.step, Endpoint.dispatch, loop, room]
  | heard q leader loop => simp [Endpoint.step, Endpoint.dispatch, loop]
  | spawned q c loop => simp [Endpoint.step, Endpoint.dispatch, loop]
  | sentRequest room | sentPing room | announced leader room =>
    simp [Endpoint.step, Endpoint.send, room]
  | unblocked q c loop room => simp [Endpoint.step, Endpoint.send, loop, room]
  | answered pre post q c tasks room =>
    simp [Endpoint.step, Endpoint.send, tasks, room, List.eraseIdx_append]
  | took message queue task next => simp [Endpoint.step, task, next]
  | numbered message task | wrote line task | lost line task | drained task =>
    simp [Endpoint.step, task]
  | checkedAlive line task alive => simp [Endpoint.step, task, alive]
  | checkedFailed line task failed => simp [Endpoint.step, task, failed]
  | received line loop | disconnected loop => simp [Endpoint.step, loop]
  | notified i handler | drainedFailed i handler => simp [Endpoint.step, handler]
  | failed | unreachable => rfl

theorem LinkStep.taken (h : LinkStep capacity l s e l') : l.step capacity (s, e) = some l' := by
  have hend := h.step.taken
  have hne := Side.other_ne s
  simp only [Link.step, hend, Option.bind_eq_bind, Option.bind_some]
  have hother := h.other
  have hwrote := h.wrote
  have htook := h.took
  cases e with
  | write line =>
    have hroom : (l.wire s).length < capacity := h.room (List.cons_ne_nil _ _)
    simp only [Event.written, Event.read, List.nil_append] at hwrote htook
    simp only [if_pos hroom]
    refine congrArg some (link_ext s ?_ ?_ ?_ ?_) <;>
      simp [Link.setSide, Link.setWire, hne, hother, hwrote, htook]
  | receive line =>
    simp only [Event.written, Event.read, List.append_nil, List.cons_append,
      List.nil_append] at hwrote htook
    simp only [htook, if_true]
    refine congrArg some (link_ext s ?_ ?_ ?_ ?_) <;>
      simp [Link.setSide, Link.setWire, hne, hne.symm, hother, hwrote]
  | _ =>
    simp only [Event.written, Event.read, List.append_nil, List.nil_append] at hwrote htook
    refine congrArg some (link_ext s ?_ ?_ ?_ ?_) <;>
      simp [Link.setSide, hne, hother, hwrote, htook]

theorem link_end {allowed : Link → Side × Event → Bool} {es : List (Side × Event)}
    (run : LinkReaches capacity allowed es l) (s : Side) : ∃ es', Reaches es' (l.side s) := by
  refine run.invariant (P := fun l => ∃ es', Reaches es' (l.side s)) ⟨[], .nil⟩ ?_
  rintro l ⟨s', e⟩ l' ⟨es', before⟩ - taken
  have hstep := link_step_cases taken
  rcases Side.eq_or_other s' s with rfl | rfl
  · exact ⟨_, .snoc before trivial hstep.step.taken⟩
  · exact ⟨es', hstep.other ▸ before⟩

end MiniDiscord.Peer
