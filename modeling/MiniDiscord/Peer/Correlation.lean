import Mathlib.Data.Multiset.OrderedMonoid
import Mathlib.Tactic.Abel
import MiniDiscord.Peer.Waiters

/-!
# Requests and responses belong together

A request that was numbered and whose answer was not processed yet is somewhere between the two
ends: on its way there, being answered, or on its way back. `Link.inFlight` counts it once wherever
it is, with its number and its callback, and no step makes two of one.
-/

namespace MiniDiscord.Peer

/-! ## Requests in flight -/

def Line.asks : Line → Multiset (ℕ × ℕ)
  | .request q c | .ping q c => {(q, c)}
  | _ => 0

def Line.answers : Line → Multiset (ℕ × ℕ)
  | .pong q c | .response q c => {(q, c)}
  | _ => 0

def MessageToSend.answers : MessageToSend → Multiset (ℕ × ℕ)
  | .pong q c | .response q c => {(q, c)}
  | _ => 0

def SendTask.asks : SendTask → Multiset (ℕ × ℕ)
  | .registered line | .writing line => line.asks
  | _ => 0

def SendTask.answers : SendTask → Multiset (ℕ × ℕ)
  | .taken message => message.answers
  | .registered line | .writing line => line.answers
  | _ => 0

def ReadLoop.asks : ReadLoop → Multiset (ℕ × ℕ)
  | .dispatching line => line.asks
  | .ponging q c => {(q, c)}
  | _ => 0

def ReadLoop.answers : ReadLoop → Multiset (ℕ × ℕ)
  | .dispatching line => line.answers
  | _ => 0

/-- The end's own requests, while they are at this end. -/
def Endpoint.asking (E : Endpoint) : Multiset (ℕ × ℕ) := E.sendTask.asks + E.readLoop.answers

/-- The other end's requests, while they are at this end. -/
def Endpoint.owing (E : Endpoint) : Multiset (ℕ × ℕ) :=
  E.readLoop.asks + E.answering + (E.queue.map MessageToSend.answers).sum + E.sendTask.answers

/-- The requests of side `s` whose answers it has not processed. -/
def Link.inFlight (l : Link) (s : Side) : Multiset (ℕ × ℕ) :=
  (l.side s).asking + ((l.wire s).map Line.asks).sum + (l.side s.other).owing +
    ((l.wire s.other).map Line.answers).sum

/-- The request that an event numbers. -/
def Endpoint.numbers (E : Endpoint) : Event → Multiset (ℕ × ℕ)
  | .number => match E.sendTask with
    | .taken message => message.waiting.map fun c => (E.sequenceNum + 1, c)
    | _ => 0
  | _ => 0

variable {E E' : Endpoint} {e : Event} {l l' : Link} {s : Side}
  {capacity : ℕ}

theorem register_asks (message : MessageToSend) :
    (E.register message).sendTask.asks = message.waiting.map fun c => (E.sequenceNum + 1, c) := by
  cases message <;> rfl

theorem register_answers (message : MessageToSend) :
    (E.register message).sendTask.answers = message.answers := by
  cases message <;> rfl

theorem asking_flow (h : Step E e E') :
    E'.asking + E'.processed + (e.written.map Line.asks).sum ≤
      E.asking + E.processed + (e.read.map Line.answers).sum + E.numbers e := by
  unfold Endpoint.asking
  cases h with
  | numbered message task =>
    rw [register_asks]
    simp only [Endpoint.numbers, task, SendTask.asks]
    change _ + E.readLoop.answers + E.processed + 0 ≤ 0 + _ + _ + 0 + _
    exact le_of_eq (by abel)
  | took message queue task next | checkedAlive line task alive | drained task =>
    simp [task, Event.written, Event.read, Endpoint.numbers, Endpoint.drained, SendTask.asks]
  | checkedFailed line task failed | lost line task =>
    simp [task, Event.written, Event.read, Endpoint.numbers, SendTask.asks]
  | wrote line task =>
    simp only [task, Event.written, Event.read, SendTask.asks, Endpoint.numbers, List.map_cons,
      List.map_nil, List.sum_cons, List.sum_nil]
    exact le_of_eq (by abel)
  | received line loop =>
    simp only [loop, Event.written, Event.read, ReadLoop.answers, Endpoint.numbers, List.map_cons,
      List.map_nil, List.sum_cons, List.sum_nil]
    exact le_of_eq (by abel)
  | responded line q c loop answer =>
    have hanswers : line.answers = {(q, c)} := by rcases answer with rfl | rfl <;> rfl
    simp only [loop, hanswers, Event.written, Event.read, Endpoint.respond, ReadLoop.answers,
      Endpoint.numbers, ← Multiset.singleton_add, List.map_nil, List.sum_nil]
    exact le_of_eq (by abel)
  | disconnected loop | ponged q c loop room | blocked q c loop full | heard q leader loop
  | spawned q c loop | unblocked q c loop room =>
    simp [loop, Event.written, Event.read, Endpoint.numbers, ReadLoop.answers, Line.answers]
  | drainedFailed i handler =>
    simp [Event.written, Event.read, Endpoint.numbers, Endpoint.drained]
  | _ => simp [Event.written, Event.read, Endpoint.numbers]

theorem owing_flow (h : Step E e E') :
    E'.owing + (e.written.map Line.answers).sum ≤ E.owing + (e.read.map Line.asks).sum := by
  unfold Endpoint.owing
  cases h with
  | numbered message task =>
    rw [register_answers]
    simp [task, Event.written, Event.read, Endpoint.register, SendTask.answers]
  | took message queue task next =>
    simp only [task, next, Event.written, Event.read, SendTask.answers, List.map_cons,
      List.map_nil, List.sum_cons, List.sum_nil]
    exact le_of_eq (by abel)
  | checkedAlive line task alive | wrote line task | drained task =>
    simp [task, Event.written, Event.read, Endpoint.drained, SendTask.answers]
  | checkedFailed line task failed | lost line task =>
    simp [task, Event.written, Event.read, SendTask.answers]
  | received line loop =>
    simp only [loop, Event.written, Event.read, ReadLoop.asks, List.map_cons, List.map_nil,
      List.sum_cons, List.sum_nil]
    exact le_of_eq (by abel)
  | responded line q c loop answer =>
    have hasks : line.asks = 0 := by rcases answer with rfl | rfl <;> rfl
    simp [loop, hasks, Event.written, Event.read, Endpoint.respond, ReadLoop.asks]
  | ponged q c loop room | unblocked q c loop room | spawned q c loop =>
    simp only [loop, Event.written, Event.read, ReadLoop.asks, Line.asks, List.map_append,
      List.map_cons, List.map_nil, List.sum_append, List.sum_cons, List.sum_nil,
      MessageToSend.answers, ← Multiset.coe_add, Multiset.coe_singleton]
    exact le_of_eq (by abel)
  | disconnected loop | blocked q c loop full | heard q leader loop =>
    simp [loop, Event.written, Event.read, ReadLoop.asks, Line.asks]
  | answered pre post q c tasks room =>
    simp only [tasks, Event.written, Event.read, MessageToSend.answers, List.map_append,
      List.map_cons, List.map_nil, List.sum_append, List.sum_cons, List.sum_nil,
      ← Multiset.coe_add, ← Multiset.cons_coe, ← Multiset.singleton_add]
    exact le_of_eq (by abel)
  | drainedFailed i handler => simp [Event.written, Event.read, Endpoint.drained]
  | _ => simp [Event.written, Event.read, MessageToSend.answers]

/-- No request in flight comes twice from one: they are moved, numbered, or lost. -/
theorem inFlight_flow (h : LinkStep capacity l s e l') :
    l'.inFlight s + (l'.side s).processed ≤
      l.inFlight s + (l.side s).processed + (l.side s).numbers e := by
  have hasking := asking_flow h.step
  unfold Link.inFlight
  rw [h.other, h.wrote, h.took, List.map_append, List.map_append, List.sum_append, List.sum_append]
  calc _ = (l'.side s).asking + (l'.side s).processed + (e.written.map Line.asks).sum +
        (((l.wire s).map Line.asks).sum + (l.side s.other).owing +
          ((l'.wire s.other).map Line.answers).sum) := by abel
    _ ≤ _ := add_le_add_left hasking _
    _ = _ := by abel

theorem inFlight_flow_other (h : LinkStep capacity l s e l') :
    l'.inFlight s.other ≤ l.inFlight s.other := by
  have howing := owing_flow h.step
  unfold Link.inFlight
  rw [Side.other_other, h.other, h.wrote, h.took, List.map_append, List.map_append,
    List.sum_append, List.sum_append]
  calc _ = (l'.side s).owing + (e.written.map Line.answers).sum +
        ((l.side s.other).asking + ((l'.wire s.other).map Line.asks).sum +
          ((l.wire s).map Line.answers).sum) := by abel
    _ ≤ _ := add_le_add_left howing _
    _ = _ := by abel

/-! ## What holds of an end and its requests -/

/-- What holds of an end, with the requests that are in flight. -/
structure Endpoint.Correlated (E : Endpoint) (inFlight : Multiset (ℕ × ℕ)) : Prop where
  fresh : ∀ t ∈ inFlight, t.1 ≤ E.sequenceNum
  distinct : (inFlight.map Prod.fst).Nodup
  /-- its callback waits under its number, or was drained -/
  registered : ∀ t ∈ inFlight, E.seqToCallback.lookup t.1 = some t.2 ∨
    E.seqToCallback.lookup t.1 = none ∧ E.isAlive = false ∧ (t.2, none) ∈ E.invoked
  own : ∀ c a, (c, some a) ∈ E.invoked → c = a
  live : E.isAlive = true → E.invoked = E.processed.map fun t => (t.2, some t.2)
  late : ∀ t ∈ E.processed,
    (t.2, some t.2) ∈ E.invoked ∨ E.isAlive = false ∧ (t.2, none) ∈ E.invoked

variable {T T' : Multiset (ℕ × ℕ)}

theorem Endpoint.Correlated.mono (correlated : E.Correlated T) (h : T' ≤ T) : E.Correlated T' where
  fresh := fun t ht => correlated.fresh t (Multiset.mem_of_le h ht)
  distinct := Multiset.nodup_of_le (Multiset.map_le_map h) correlated.distinct
  registered := fun t ht => correlated.registered t (Multiset.mem_of_le h ht)
  own := correlated.own
  live := correlated.live
  late := correlated.late

theorem Endpoint.Correlated.congr (correlated : E.Correlated T)
    (sequenceNum : E'.sequenceNum = E.sequenceNum)
    (seqToCallback : E'.seqToCallback = E.seqToCallback) (isAlive : E'.isAlive = E.isAlive)
    (invoked : E'.invoked = E.invoked) (processed : E'.processed = E.processed) :
    E'.Correlated T := by
  constructor
  · rw [sequenceNum]
    exact correlated.fresh
  · exact correlated.distinct
  · rw [seqToCallback, isAlive, invoked]
    exact correlated.registered
  · rw [invoked]
    exact correlated.own
  · rw [isAlive, invoked, processed]
    exact correlated.live
  · rw [isAlive, invoked, processed]
    exact correlated.late

theorem respond_correlated (q c : ℕ) (correlated : E.Correlated ((q, c) ::ₘ T)) :
    (E.respond q c).Correlated T := by
  have hdistinct := correlated.distinct
  rw [Multiset.map_cons, Multiset.nodup_cons] at hdistinct
  have hsub := correlated.mono (Multiset.le_cons_self T (q, c))
  have hkept : ∀ t ∈ T, (E.seqToCallback.erase q).lookup t.1 = E.seqToCallback.lookup t.1 := by
    intro t ht
    refine Finmap.lookup_erase_ne fun heq => hdistinct.1 ?_
    exact Multiset.mem_map.mpr ⟨t, ht, heq⟩
  have hmap : (E.respond q c).seqToCallback = E.seqToCallback.erase q := rfl
  rcases correlated.registered (q, c) (Multiset.mem_cons_self _ _) with
    hwaits | ⟨hnone, hdead, hdrained⟩
  · have hinvoked : (E.respond q c).invoked = (c, some c) ::ₘ E.invoked := by
      simp [Endpoint.respond, hwaits]
    refine ⟨hsub.fresh, hsub.distinct, ?_, ?_, ?_, ?_⟩
    · intro t ht
      rw [hinvoked, hmap, hkept t ht]
      rcases hsub.registered t ht with hlookup | ⟨hlookup, hfailed, hmem⟩
      · exact Or.inl hlookup
      · exact Or.inr ⟨hlookup, hfailed, Multiset.mem_cons_of_mem hmem⟩
    · intro c' a hmem
      rw [hinvoked] at hmem
      rcases Multiset.mem_cons.mp hmem with heq | hmem
      · cases heq
        rfl
      · exact hsub.own c' a hmem
    · intro halive
      rw [hinvoked, hsub.live halive]
      change _ = ((q, c) ::ₘ E.processed).map _
      rw [Multiset.map_cons]
    · intro t ht
      rw [hinvoked]
      rcases Multiset.mem_cons.mp ht with rfl | ht
      · exact Or.inl (Multiset.mem_cons_self _ _)
      · rcases hsub.late t ht with hmem | ⟨hfailed, hmem⟩
        · exact Or.inl (Multiset.mem_cons_of_mem hmem)
        · exact Or.inr ⟨hfailed, Multiset.mem_cons_of_mem hmem⟩
  · have hinvoked : (E.respond q c).invoked = E.invoked := by
      simp [Endpoint.respond, hnone]
    refine ⟨hsub.fresh, hsub.distinct, ?_, ?_, ?_, ?_⟩
    · intro t ht
      rw [hinvoked, hmap, hkept t ht]
      exact hsub.registered t ht
    · rw [hinvoked]
      exact hsub.own
    · intro halive
      have halive : E.isAlive = true := halive
      rw [hdead] at halive
      cases halive
    · intro t ht
      rw [hinvoked]
      rcases Multiset.mem_cons.mp ht with rfl | ht
      · exact Or.inr ⟨hdead, hdrained⟩
      · exact hsub.late t ht

/-- A request gets a number that none in flight has. -/
theorem register_correlated (message : MessageToSend) (correlated : E.Correlated T) :
    (E.register message).Correlated
      (T + message.waiting.map fun c => (E.sequenceNum + 1, c)) := by
  cases message with
  | pong q c | response q c =>
    change (E.register _).Correlated (T + 0)
    rw [add_zero]
    exact correlated.congr rfl rfl rfl rfl rfl
  | leaderAnnouncement =>
    change (E.register _).Correlated (T + 0)
    rw [add_zero]
    exact ⟨fun t ht => Nat.le_succ_of_le (correlated.fresh t ht), correlated.distinct,
      correlated.registered, correlated.own, correlated.live, correlated.late⟩
  | request c | ping c =>
    change (E.register _).Correlated (T + {(E.sequenceNum + 1, c)})
    rw [add_comm, Multiset.singleton_add]
    refine ⟨?_, ?_, ?_, correlated.own, correlated.live, correlated.late⟩
    · intro t ht
      rcases Multiset.mem_cons.mp ht with rfl | ht
      · exact le_refl _
      · exact Nat.le_succ_of_le (correlated.fresh t ht)
    · rw [Multiset.map_cons, Multiset.nodup_cons]
      refine ⟨?_, correlated.distinct⟩
      intro hmem
      obtain ⟨t, ht, heq⟩ := Multiset.mem_map.mp hmem
      have := correlated.fresh t ht
      omega
    · intro t ht
      change (E.seqToCallback.insert (E.sequenceNum + 1) c).lookup t.1 = _ ∨
        (E.seqToCallback.insert (E.sequenceNum + 1) c).lookup t.1 = _ ∧ _
      rcases Multiset.mem_cons.mp ht with rfl | ht
      · exact Or.inl (Finmap.lookup_insert _)
      · have hne : t.1 ≠ E.sequenceNum + 1 := by
          have := correlated.fresh t ht
          omega
        rw [Finmap.lookup_insert_of_ne _ hne]
        exact correlated.registered t ht

theorem drained_correlated (failed : E.isAlive = false) (correlated : E.Correlated T) :
    E.drained.Correlated T := by
  have hkept : ∀ x ∈ E.invoked, x ∈ E.drained.invoked := fun x hx =>
    Multiset.mem_add.mpr (Or.inr hx)
  refine ⟨correlated.fresh, correlated.distinct, ?_, ?_, ?_, ?_⟩
  · intro t ht
    refine Or.inr ⟨Finmap.lookup_empty _, failed, ?_⟩
    rcases correlated.registered t ht with hwaits | ⟨-, -, hdrained⟩
    · refine Multiset.mem_add.mpr (Or.inl (Multiset.mem_map_of_mem _ ?_))
      refine Multiset.mem_map.mpr ⟨⟨t.1, t.2⟩, ?_, rfl⟩
      exact Finmap.mem_lookup_iff.mp hwaits
    · exact hkept _ hdrained
  · intro c a hmem
    rcases Multiset.mem_add.mp hmem with hmem | hmem
    · obtain ⟨_, _, heq⟩ := Multiset.mem_map.mp hmem
      cases heq
    · exact correlated.own c a hmem
  · intro halive
    have halive : E.isAlive = true := halive
    rw [failed] at halive
    cases halive
  · intro t ht
    rcases correlated.late t ht with hmem | ⟨hdead, hmem⟩
    · exact Or.inl (hkept _ hmem)
    · exact Or.inr ⟨hdead, hkept _ hmem⟩

theorem Endpoint.Correlated.step (correlated : E.Correlated T) (h : Step E e E')
    (accounted : E.Accounted) (flow : T' + E'.processed ≤ T + E.processed + E.numbers e) :
    E'.Correlated T' := by
  cases h with
  | numbered message task =>
    refine (register_correlated message correlated).mono ?_
    simp only [Endpoint.numbers, task] at flow
    change T' + E.processed ≤ _ at flow
    rw [add_right_comm] at flow
    exact le_of_add_le_add_right flow
  | responded line q c loop answer =>
    refine respond_correlated q c (correlated.mono ?_)
    change T' + ((q, c) ::ₘ E.processed) ≤ T + E.processed + 0 at flow
    rw [add_zero, Multiset.add_cons, ← Multiset.cons_add] at flow
    exact le_of_add_le_add_right flow
  | drained task =>
    change T' + E.processed ≤ T + E.processed + 0 at flow
    rw [add_zero] at flow
    have hsub := correlated.mono (le_of_add_le_add_right flow)
    have hdrained := drained_correlated (accounted.failed (Or.inl task)) hsub
    exact hdrained.congr rfl rfl rfl rfl rfl
  | drainedFailed i handler =>
    change T' + E.processed ≤ T + E.processed + 0 at flow
    rw [add_zero] at flow
    have hsub := correlated.mono (le_of_add_le_add_right flow)
    have hfailed : E.isAlive = false :=
      accounted.failed (Or.inr (List.ne_nil_of_mem (List.mem_of_getElem? handler)))
    have hdrained := drained_correlated hfailed hsub
    exact hdrained.congr rfl rfl rfl rfl rfl
  | failed | unreachable =>
    have hle : T' ≤ T := by simpa [Endpoint.numbers] using flow
    have hsub := correlated.mono hle
    refine ⟨hsub.fresh, hsub.distinct, ?_, hsub.own, ?_, ?_⟩
    · intro t ht
      rcases hsub.registered t ht with hwaits | ⟨hnone, -, hmem⟩
      · exact Or.inl hwaits
      · exact Or.inr ⟨hnone, rfl, hmem⟩
    · intro halive
      cases halive
    · intro t ht
      rcases hsub.late t ht with hmem | ⟨-, hmem⟩
      · exact Or.inl hmem
      · exact Or.inr ⟨rfl, hmem⟩
  | _ =>
    have hle : T' ≤ T := by simpa [Endpoint.numbers] using flow
    exact (correlated.mono hle).congr rfl rfl rfl rfl rfl

/-! ## The numbers that were written -/

def SendTask.attached : SendTask → List ℕ
  | .registered line | .writing line => line.attached.toList
  | _ => []

/-- The numbers of the lines that were written, and of the line that is written next. -/
def Endpoint.numbered (E : Endpoint) : List ℕ :=
  E.written.filterMap Line.attached ++ E.sendTask.attached

structure Endpoint.Ordered (E : Endpoint) : Prop where
  increasing : E.numbered.Pairwise (· < ·)
  bounded : ∀ n ∈ E.numbered, n ≤ E.sequenceNum

/-- A step numbers the next request, or numbers none. -/
theorem step_numbered (h : Step E e E') :
    List.Sublist E'.numbered E.numbered ∧ E'.sequenceNum = E.sequenceNum ∨
      E'.numbered = E.numbered ++ [E.sequenceNum + 1] ∧ E'.sequenceNum = E.sequenceNum + 1 := by
  unfold Endpoint.numbered
  cases h with
  | numbered message task =>
    rw [task]
    cases message with
    | pong q c | response q c => exact Or.inl ⟨List.Sublist.refl _, rfl⟩
    | request c | ping c | leaderAnnouncement =>
      refine Or.inr ⟨?_, rfl⟩
      simp [Endpoint.register, SendTask.attached, MessageToSend.line, Line.attached,
        MessageToSend.isResponse]
  | took message queue task next | checkedAlive line task alive | drained task =>
    rw [task]
    exact Or.inl ⟨List.Sublist.refl _, rfl⟩
  | checkedFailed line task failed | lost line task =>
    rw [task]
    refine Or.inl ⟨?_, rfl⟩
    simp [SendTask.attached]
  | wrote line task =>
    rw [task]
    refine Or.inl ⟨?_, rfl⟩
    cases hattached : line.attached <;> simp [SendTask.attached, hattached]
  | _ => exact Or.inl ⟨List.Sublist.refl _, rfl⟩

theorem Endpoint.Ordered.step (ordered : E.Ordered) (h : Step E e E') : E'.Ordered := by
  rcases step_numbered h with ⟨hsub, hnum⟩ | ⟨hnext, hnum⟩
  · refine ⟨ordered.increasing.sublist hsub, ?_⟩
    intro n hn
    rw [hnum]
    exact ordered.bounded n (hsub.subset hn)
  · constructor
    · rw [hnext]
      refine List.pairwise_append.mpr ⟨ordered.increasing, List.pairwise_singleton _ _, ?_⟩
      intro n hn m hm
      have := ordered.bounded n hn
      obtain rfl := List.mem_singleton.mp hm
      omega
    · intro n hn
      rw [hnum]
      rw [hnext] at hn
      rcases List.mem_append.mp hn with hn | hn
      · have := ordered.bounded n hn
        omega
      · exact le_of_eq (List.mem_singleton.mp hn)

/-! ## Runs -/

/-- What holds of both ends in every run. -/
structure Link.Correlated (l : Link) : Prop where
  accounted : ∀ s, (l.side s).Accounted
  ordered : ∀ s, (l.side s).Ordered
  correlated : ∀ s, (l.side s).Correlated (l.inFlight s)

theorem Link.Correlated.step (correlated : l.Correlated) (h : LinkStep capacity l s e l') :
    l'.Correlated := by
  constructor
  · intro s'
    rcases Side.eq_or_other s s' with rfl | rfl
    · exact (correlated.accounted s').step h.step
    · rw [h.other]
      exact correlated.accounted _
  · intro s'
    rcases Side.eq_or_other s s' with rfl | rfl
    · exact (correlated.ordered s').step h.step
    · rw [h.other]
      exact correlated.ordered _
  · intro s'
    rcases Side.eq_or_other s s' with rfl | rfl
    · exact (correlated.correlated s').step h.step (correlated.accounted s') (inFlight_flow h)
    · rw [h.other]
      exact (correlated.correlated _).mono (inFlight_flow_other h)

theorem Link.Correlated.init : Link.init.Correlated where
  accounted := fun _ => .init
  ordered := fun _ => ⟨List.Pairwise.nil, fun _ hn => absurd hn List.not_mem_nil⟩
  correlated := by
    intro s
    have hnone : Link.init.inFlight s = 0 := rfl
    rw [hnone]
    constructor <;> simp [Link.init, Endpoint.init]

theorem link_correlated {es : List (Side × Event)}
    (run : LinkReaches capacity anyEvent es l) : l.Correlated :=
  run.invariant .init fun _ _ _ correlated _ taken => correlated.step (link_step_cases taken)

/-- On each side the written requests have increasing numbers, an answer reaches only the callback
of the request that it answers, and no callback is invoked twice. Unless the peer was marked failed,
each processed answer has invoked its callback; otherwise the callback may have been drained. -/
theorem correlation {es : List (Side × Event)}
    (run : LinkReaches capacity anyEvent es l) (s : Side) :
    ((l.side s).written.filterMap Line.attached).Pairwise (· < ·) ∧
      (∀ c a, (c, some a) ∈ (l.side s).invoked → c = a) ∧
      ((l.side s).isAlive = true →
        (l.side s).invoked = (l.side s).processed.map fun t => (t.2, some t.2)) ∧
      (∀ t ∈ (l.side s).processed, (t.2, some t.2) ∈ (l.side s).invoked ∨
        (l.side s).isAlive = false ∧ (t.2, none) ∈ (l.side s).invoked) ∧
      ((l.side s).invoked.map Prod.fst).Nodup := by
  have hlink := link_correlated run
  have hends := hlink.correlated s
  refine ⟨?_, hends.own, hends.live, hends.late, ?_⟩
  · exact (List.pairwise_append.mp (hlink.ordered s).increasing).1
  · have haccounts := (hlink.accounted s).accounts
    refine Multiset.nodup_of_le (Multiset.le_add_right _ (l.side s).uninvoked) ?_
    rw [haccounts]
    exact Multiset.nodup_range _

/-- Two requests that are answered in the other order. -/
def swapped : List (Side × Event) :=
  Side.left.does (.sendRequest :: .sendRequest :: sends (.request 1 0) ++ sends (.request 2 1)) ++
    Side.right.does ([.receive (.request 1 0), .dispatch, .receive (.request 2 1), .dispatch,
      .answer 1, .answer 0] ++ sends (.response 2 1) ++ sends (.response 1 0)) ++
    Side.left.does [.receive (.response 2 1), .dispatch, .receive (.response 1 0), .dispatch]

theorem correlation_swapped : ∃ es l, LinkReaches 2 anyEvent es l ∧
    (l.side .left).written = [.request 1 0, .request 2 1] ∧
    (l.side .left).processed = {(1, 0), (2, 1)} ∧
    (l.side .left).invoked = {(0, some 0), (1, some 1)} := by
  obtain ⟨l, run, htest⟩ := Run.exec_of_test
    (fun l : Link => (l.side .left).written = [.request 1 0, .request 2 1] ∧
      (l.side .left).processed = {(1, 0), (2, 1)} ∧ (l.side .left).isAlive = true)
    (by decide : (outcome 2 anyEvent swapped).any _ = true)
  obtain ⟨hwritten, hprocessed, halive⟩ := of_decide_eq_true htest
  obtain ⟨-, -, hlive, -, -⟩ := correlation run .left
  refine ⟨_, l, run, hwritten, hprocessed, ?_⟩
  rw [hlive halive, hprocessed]
  decide

end MiniDiscord.Peer
