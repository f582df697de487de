import Mathlib.Tactic.Abel
import MiniDiscord.Peer.Steps

/-!
# No waiter is stranded

Every callback that was handed out is in the queue, with `send_message_task`, in `seq_to_callback`,
or was invoked, and in one of these places only. A callback that is registered after the peer was
marked failed is drained by `send_message_task`, which reads `is_alive` after it registers.
-/

namespace MiniDiscord.Peer

/-! ## Maps -/

section Finmap

variable {α β : Type} [DecidableEq α] {m : Finmap fun _ : α => β} {a : α} {b : β}

theorem entries_eq_cons_erase (h : m.lookup a = some b) :
    m.entries = ⟨a, b⟩ ::ₘ (m.erase a).entries := by
  rw [← Finmap.entries_insert_of_notMem (Finmap.notMem_erase_self (s := m))]
  congr 1
  refine Finmap.ext_lookup fun x => ?_
  by_cases hx : x = a
  · rw [hx, h, Finmap.lookup_insert]
  · rw [Finmap.lookup_insert_of_ne _ hx, Finmap.lookup_erase_ne hx]

theorem erase_of_lookup_none (h : m.lookup a = none) : m.erase a = m := by
  refine Finmap.ext_lookup fun x => ?_
  by_cases hx : x = a
  · rw [hx, h, Finmap.lookup_erase]
  · rw [Finmap.lookup_erase_ne hx]

end Finmap

/-! ## Where callbacks are -/

def MessageToSend.waiting (message : MessageToSend) : Multiset ℕ :=
  match message.callback with
  | some c => {c}
  | none => 0

/-- The callback that `send_message_task` has taken and not registered yet. -/
def SendTask.unregistered : SendTask → Multiset ℕ
  | .taken message => message.waiting
  | _ => 0

namespace Endpoint

/-- The callbacks that were not invoked yet. -/
def uninvoked (E : Endpoint) : Multiset ℕ :=
  (E.queue.map MessageToSend.waiting).sum + E.sendTask.unregistered + E.waitingCallbacks

/-- What holds of every end. -/
structure Accounted (E : Endpoint) : Prop where
  failed : E.sendTask = .draining ∨ E.handlers ≠ [] → E.isAlive = false
  numbers : ∀ q ∈ E.seqToCallback, q ≤ E.sequenceNum
  accounts : E.invoked.map Prod.fst + E.uninvoked = Multiset.range E.callbacks
  /-- once a handler has finished, only `send_message_task` itself leaves callbacks behind -/
  settled : .finished ∈ E.handlers →
    E.seqToCallback = ∅ ∨ E.sendTask = .draining ∨ ∃ line, E.sendTask = .registered line

end Endpoint

variable {E E' : Endpoint} {e : Event} {message : MessageToSend} {q c : ℕ}

/-! ## What one step does to them -/

theorem register_waiting (fresh : ∀ q ∈ E.seqToCallback, q ≤ E.sequenceNum) :
    (E.register message).waitingCallbacks = message.waiting + E.waitingCallbacks := by
  have hnew : E.sequenceNum + 1 ∉ E.seqToCallback := by
    intro hmem
    have := fresh _ hmem
    omega
  unfold Endpoint.register Endpoint.waitingCallbacks MessageToSend.waiting
  cases message with
  | request c | ping c =>
    simp [MessageToSend.isResponse, MessageToSend.callback, Finmap.entries_insert_of_notMem hnew]
  | leaderAnnouncement | pong | response => simp [MessageToSend.callback]

theorem register_numbers (h : ∀ q ∈ E.seqToCallback, q ≤ E.sequenceNum) :
    ∀ q ∈ (E.register message).seqToCallback, q ≤ (E.register message).sequenceNum := by
  intro q hq
  unfold Endpoint.register at hq ⊢
  cases message with
  | request c | ping c =>
    simp only [MessageToSend.callback, MessageToSend.isResponse, Finmap.mem_insert] at hq ⊢
    rcases hq with rfl | hq
    · simp
    · have := h q hq
      simp only [Bool.false_eq_true, if_false]
      omega
  | leaderAnnouncement =>
    have := h q hq
    simp only [MessageToSend.isResponse, Bool.false_eq_true, if_false]
    omega
  | pong | response => exact h q hq

theorem respond_accounts : (E.respond q c).invoked.map Prod.fst + (E.respond q c).waitingCallbacks =
    E.invoked.map Prod.fst + E.waitingCallbacks := by
  unfold Endpoint.respond Endpoint.waitingCallbacks
  cases hlookup : E.seqToCallback.lookup q with
  | none => simp [erase_of_lookup_none hlookup]
  | some callback =>
    rw [entries_eq_cons_erase hlookup]
    simp

theorem drained_accounts :
    E.drained.invoked.map Prod.fst = E.waitingCallbacks + E.invoked.map Prod.fst := by
  simp [Endpoint.drained]

@[simp] theorem empty_waiting : (∅ : Finmap fun _ : ℕ => ℕ).entries.map Sigma.snd = 0 := rfl

theorem queue_waiting (queue : List MessageToSend) (message : MessageToSend) :
    ((queue ++ [message]).map MessageToSend.waiting).sum =
      (queue.map MessageToSend.waiting).sum + message.waiting := by simp

theorem step_accounts (h : Step E e E') (accounted : E.Accounted) :
    E'.invoked.map Prod.fst + E'.uninvoked = Multiset.range E'.callbacks := by
  have haccounts := accounted.accounts
  unfold Endpoint.uninvoked at haccounts ⊢
  cases h with
  | sentRequest room | sentPing room =>
    rw [Multiset.range_succ, ← haccounts, ← Multiset.singleton_add, queue_waiting]
    change _ + (_ + {E.callbacks} + _ + E.waitingCallbacks) = _
    abel
  | announced leader room | ponged q c loop room | unblocked q c loop room
  | answered pre post q c tasks room =>
    rw [← haccounts, queue_waiting]
    change _ + (_ + 0 + _ + E.waitingCallbacks) = _
    rw [add_zero]
  | took message queue task next =>
    rw [next, task, List.map_cons, List.sum_cons] at haccounts
    rw [← haccounts]
    change _ + (_ + message.waiting + E.waitingCallbacks) = _ + (_ + 0 + _)
    abel
  | numbered message task =>
    rw [task] at haccounts
    rw [register_waiting accounted.numbers]
    refine Eq.trans ?_ haccounts
    change E.invoked.map Prod.fst + ((E.queue.map MessageToSend.waiting).sum + 0 +
      (message.waiting + E.waitingCallbacks)) = _ + (_ + message.waiting + _)
    abel
  | checkedAlive line task alive | checkedFailed line task failed | wrote line task
  | lost line task =>
    rw [task] at haccounts
    exact haccounts
  | drained task =>
    rw [task] at haccounts
    refine Eq.trans ?_ haccounts
    change E.drained.invoked.map Prod.fst + (_ + 0 + 0) = _ + (_ + 0 + _)
    rw [drained_accounts]
    abel
  | responded line q c loop answer =>
    refine Eq.trans ?_ haccounts
    change _ + ((E.queue.map MessageToSend.waiting).sum + E.sendTask.unregistered +
      (E.respond q c).waitingCallbacks) = _
    rw [add_comm _ (E.respond q c).waitingCallbacks, ← add_assoc, respond_accounts]
    abel
  | drainedFailed i handler =>
    refine Eq.trans ?_ haccounts
    change E.drained.invoked.map Prod.fst + (_ + E.sendTask.unregistered + 0) = _
    rw [drained_accounts]
    change _ + ((E.queue.map MessageToSend.waiting).sum + _ + _) = _
    abel
  | _ => exact haccounts

/-- A drained map stays empty, until `send_message_task` registers a callback again. -/
theorem step_settled (h : Step E e E') (accounted : E.Accounted)
    (finished : .finished ∈ E'.handlers) :
    E'.seqToCallback = ∅ ∨ E'.sendTask = .draining ∨ ∃ line, E'.sendTask = .registered line := by
  have hold := accounted.settled
  cases h with
  | numbered message task => exact Or.inr (Or.inr ⟨_, rfl⟩)
  | checkedFailed line task failed => exact Or.inr (Or.inl rfl)
  | drained task => exact Or.inl rfl
  | drainedFailed i handler => exact Or.inl rfl
  | checkedAlive line task alive =>
    have hfailed := accounted.failed (Or.inr (List.ne_nil_of_mem finished))
    rw [alive] at hfailed
    cases hfailed
  | took message queue task next | wrote line task | lost line task =>
    rw [task] at hold
    left
    simpa using hold finished
  | responded line q c loop answer =>
    rcases hold finished with hempty | hstands
    · left
      change E.seqToCallback.erase q = ∅
      rw [hempty]
      rfl
    · exact Or.inr hstands
  | failed =>
    rcases List.mem_append.mp finished with hmem | hmem
    · exact hold hmem
    · simp at hmem
  | notified i handler =>
    rcases List.mem_or_eq_of_mem_set finished with hmem | heq
    · exact hold hmem
    · cases heq
  | _ => exact hold finished

theorem step_failed (h : Step E e E') (accounted : E.Accounted)
    (hfailed : E'.sendTask = .draining ∨ E'.handlers ≠ []) : E'.isAlive = false := by
  have hold := accounted.failed
  cases h with
  | failed | unreachable => rfl
  | checkedFailed line task failed => exact failed
  | drained task => exact hold (Or.inl task)
  | notified i handler | drainedFailed i handler =>
    exact hold (Or.inr (List.ne_nil_of_mem (List.mem_of_getElem? handler)))
  | took message queue task next | numbered message task | checkedAlive line task alive
  | wrote line task | lost line task =>
    rcases hfailed with htask | hhandlers
    · cases htask
    · exact hold (Or.inr hhandlers)
  | _ => exact hold hfailed

theorem step_numbers (h : Step E e E') (accounted : E.Accounted) :
    ∀ q ∈ E'.seqToCallback, q ≤ E'.sequenceNum := by
  have hold := accounted.numbers
  cases h with
  | numbered message task => exact register_numbers hold
  | drained task | drainedFailed i handler =>
    intro q hq
    exact absurd hq Finmap.notMem_empty
  | responded line q c loop answer =>
    intro k hk
    exact hold k (Finmap.mem_erase.mp hk).2
  | _ => exact hold

theorem Endpoint.Accounted.step (accounted : E.Accounted) (h : Step E e E') : E'.Accounted where
  failed := step_failed h accounted
  numbers := step_numbers h accounted
  accounts := step_accounts h accounted
  settled := step_settled h accounted

theorem Endpoint.Accounted.init : Endpoint.init.Accounted where
  failed := by
    intro h
    simp [Endpoint.init] at h
  numbers := by
    intro q hq
    exact absurd hq Finmap.notMem_empty
  accounts := rfl
  settled := fun _ => Or.inl rfl

theorem reaches_accounted {es : List Event} (run : Reaches es E) : E.Accounted :=
  run.invariant .init fun _ _ _ accounted _ taken => accounted.step (step_cases taken)

/-! ## No waiter is stranded -/

/-- Once a handler has finished and `send_message_task` has nothing left to send, no callback waits
and each callback that was handed out was invoked exactly once. -/
theorem no_waiter_stranded {es : List Event} (run : Reaches es E)
    (finished : .finished ∈ E.handlers) (empty : E.queue = []) (waits : E.sendTask = .waiting) :
    E.seqToCallback = ∅ ∧ E.invoked.map Prod.fst = Multiset.range E.callbacks := by
  have accounted := reaches_accounted run
  have hnone : E.seqToCallback = ∅ := by
    have hsettled := accounted.settled finished
    rw [waits] at hsettled
    simpa using hsettled
  refine ⟨hnone, ?_⟩
  have haccounts := accounted.accounts
  unfold Endpoint.uninvoked Endpoint.waitingCallbacks at haccounts
  rw [empty, waits, hnone] at haccounts
  simpa [SendTask.unregistered] using haccounts

/-- A request is registered after the handler has drained; `send_message_task` drains it again. -/
def lateRequest : List Event :=
  .sendRequest :: sends (.request 1 0) ++ [.sendRequest, .fail, .notify 0, .take, .drainFailed 0,
    .number, .check, .drain]

theorem no_waiter_stranded_late : ∃ es E, Reaches es E ∧ .finished ∈ E.handlers ∧ E.queue = [] ∧
    E.sendTask = .waiting ∧ E.seqToCallback = ∅ ∧
    E.invoked.map Prod.fst = Multiset.range E.callbacks ∧ E.callbacks = 2 := by
  obtain ⟨E, run, htest⟩ := Run.exec_of_test
    (fun E : Endpoint => .finished ∈ E.handlers ∧ E.queue = [] ∧ E.sendTask = .waiting ∧
      E.callbacks = 2)
    (by decide : (Endpoint.outcome lateRequest).any _ = true)
  obtain ⟨hfinished, hqueue, htask, hcallbacks⟩ := of_decide_eq_true htest
  obtain ⟨hmap, hinvoked⟩ := no_waiter_stranded run hfinished hqueue htask
  exact ⟨_, E, run, hfinished, hqueue, htask, hmap, hinvoked, hcallbacks⟩

end MiniDiscord.Peer
