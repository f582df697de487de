import Mathlib.Data.Finset.Basic
import MiniDiscord.Run

/-!
# Heartbeats

`send_pings_task` for one peer: its loop, the timer task of each ping, and the callbacks that the
PONGs invoke. They share the set of pending pings and the count of misses. Timers run out in the
order of their pings.

The pings wait in one queue, `send_message_task` writes them to one connection, and the peer's read
loop answers one before it reads the next. So PONGs come in the order of the pings, at any time
after them. A peer that has marked this server failed, or whose connection broke, answers no more:
such a run goes on without `answer`.
-/

namespace MiniDiscord.Heartbeat

inductive Loop
  /-- reads whether the peer is alive -/
  | checking
  /-- waits two seconds, and starts a timer then -/
  | sleeping
  /-- in `sender.send(PING).await` -/
  | sending (k : ℕ)
  | ended
deriving DecidableEq

structure Heartbeats where
  loop : Loop
  /-- the number of the next ping -/
  key : ℕ
  pendingHeartbeats : Finset ℕ
  missedHeartbeats : ℕ
  /-- how many timers ran out -/
  timeouts : ℕ
  /-- the timer tasks that found the peer dead and mark it failed next -/
  dying : ℕ
  /-- those that have marked it failed and drain the callbacks next -/
  draining : ℕ
  alive : Bool
  /-- the pings in the queue of `send_message_task` -/
  queue : List ℕ
  /-- the pings whose callback is in `seq_to_callback` -/
  callbacks : Finset ℕ
  /-- the pings that the peer has yet to read -/
  pings : List ℕ
  /-- the PONGs on their way back -/
  pongs : List ℕ
deriving DecidableEq

def Heartbeats.init : Heartbeats := ⟨.checking, 0, ∅, 0, 0, 0, 0, true, [], ∅, [], []⟩

inductive Event
  /-- the condition of the loop -/
  | check
  /-- the next ping becomes pending, and its timer starts -/
  | ping
  | send
  /-- `send_message_task` takes the next ping -/
  | write
  /-- the peer reads the next ping and writes its PONG -/
  | answer
  /-- the read loop reads PONG `k`, and invokes its callback -/
  | pong (k : ℕ)
  /-- the next timer runs out, and its task looks at its ping -/
  | timeout
  /-- a timer task calls `set_server_state(false)` -/
  | mark
  | drain
deriving DecidableEq

def step (s : Heartbeats) : Event → Option Heartbeats
  | .check =>
    if s.loop ≠ .checking then none
    else some { s with loop := if s.alive then .sleeping else .ended }
  | .ping =>
    if s.loop ≠ .sleeping then none
    else some { s with
      loop := .sending s.key, key := s.key + 1,
      pendingHeartbeats := insert s.key s.pendingHeartbeats }
  | .send => match s.loop with
    | .sending k => some { s with loop := .checking, queue := s.queue ++ [k] }
    | _ => none
  | .write => match s.queue with
    | [] => none
    | k :: queue =>
      if s.alive then
        some { s with queue, callbacks := insert k s.callbacks, pings := s.pings ++ [k] }
      -- nothing is written, and the callbacks get `None`
      else some { s with queue, callbacks := ∅ }
  | .answer => match s.pings with
    | [] => none
    | k :: pings => some { s with pings, pongs := s.pongs ++ [k] }
  | .pong k => match s.pongs with
    | [] => none
    | k' :: pongs =>
      if k' ≠ k then none
      else if k ∈ s.callbacks ∧ k ∈ s.pendingHeartbeats then
        some { s with
          pongs, callbacks := s.callbacks.erase k,
          pendingHeartbeats := s.pendingHeartbeats.erase k, missedHeartbeats := 0 }
      else some { s with pongs, callbacks := s.callbacks.erase k }
  | .timeout =>
    if s.key ≤ s.timeouts then none
    else if s.timeouts ∈ s.pendingHeartbeats then
      some { s with
        pendingHeartbeats := s.pendingHeartbeats.erase s.timeouts,
        missedHeartbeats := s.missedHeartbeats + 1,
        dying := if s.missedHeartbeats + 1 = 3 then s.dying + 1 else s.dying,
        timeouts := s.timeouts + 1 }
    else some { s with timeouts := s.timeouts + 1 }
  | .mark =>
    if s.dying = 0 then none
    else some { s with dying := s.dying - 1, draining := s.draining + 1, alive := false }
  | .drain =>
    if s.draining = 0 then none else some { s with draining := s.draining - 1, callbacks := ∅ }

/-- PONG `k` is among the events, before timeout `k`. -/
def InTime (es : List Event) (k : ℕ) : Prop :=
  ∃ earlier later, es = earlier ++ .pong k :: later ∧ earlier.count .timeout ≤ k

/-- Ping `k` timed out without its PONG. -/
def Missed (es : List Event) (k : ℕ) : Prop := k < es.count .timeout ∧ ¬ InTime es k

/-- Three pings in a row were missed. -/
def ThreeMissed (es : List Event) : Prop :=
  ∃ k, Missed es k ∧ Missed es (k + 1) ∧ Missed es (k + 2)

variable {s s' : Heartbeats} {e : Event} {es : List Event} {k : ℕ}
  {ok : Heartbeats → Event → Prop}

/-! ## One step -/

inductive Step (s : Heartbeats) : Event → Heartbeats → Prop
  | checked (at' : s.loop = .checking) :
      Step s .check { s with loop := if s.alive then .sleeping else .ended }
  | pinged (at' : s.loop = .sleeping) :
      Step s .ping { s with
        loop := .sending s.key, key := s.key + 1,
        pendingHeartbeats := insert s.key s.pendingHeartbeats }
  | sent (k : ℕ) (at' : s.loop = .sending k) :
      Step s .send { s with loop := .checking, queue := s.queue ++ [k] }
  | written (k : ℕ) (queue : List ℕ) (first : s.queue = k :: queue) (alive : s.alive = true) :
      Step s .write { s with
        queue, callbacks := insert k s.callbacks, pings := s.pings ++ [k] }
  | dropped (k : ℕ) (queue : List ℕ) (first : s.queue = k :: queue) (failed : s.alive = false) :
      Step s .write { s with queue, callbacks := ∅ }
  | answered (k : ℕ) (pings : List ℕ) (first : s.pings = k :: pings) :
      Step s .answer { s with pings, pongs := s.pongs ++ [k] }
  | reset (k : ℕ) (pongs : List ℕ) (first : s.pongs = k :: pongs) (called : k ∈ s.callbacks)
      (pending : k ∈ s.pendingHeartbeats) :
      Step s (.pong k) { s with
        pongs, callbacks := s.callbacks.erase k,
        pendingHeartbeats := s.pendingHeartbeats.erase k, missedHeartbeats := 0 }
  | ignored (k : ℕ) (pongs : List ℕ) (first : s.pongs = k :: pongs)
      (settled : k ∈ s.callbacks → k ∉ s.pendingHeartbeats) :
      Step s (.pong k) { s with pongs, callbacks := s.callbacks.erase k }
  | missed (started : s.timeouts < s.key) (pending : s.timeouts ∈ s.pendingHeartbeats) :
      Step s .timeout { s with
        pendingHeartbeats := s.pendingHeartbeats.erase s.timeouts,
        missedHeartbeats := s.missedHeartbeats + 1,
        dying := if s.missedHeartbeats + 1 = 3 then s.dying + 1 else s.dying,
        timeouts := s.timeouts + 1 }
  | passed (started : s.timeouts < s.key) (settled : s.timeouts ∉ s.pendingHeartbeats) :
      Step s .timeout { s with timeouts := s.timeouts + 1 }
  | marked (dying : s.dying ≠ 0) :
      Step s .mark { s with dying := s.dying - 1, draining := s.draining + 1, alive := false }
  | drained (draining : s.draining ≠ 0) :
      Step s .drain { s with draining := s.draining - 1, callbacks := ∅ }

theorem step_cases (h : step s e = some s') : Step s e s' := by
  cases e with
  | check =>
    simp only [step, Option.ite_none_left_eq_some, not_not] at h
    obtain ⟨hat, h⟩ := h
    cases h
    exact .checked hat
  | ping =>
    simp only [step, Option.ite_none_left_eq_some, not_not] at h
    obtain ⟨hat, h⟩ := h
    cases h
    exact .pinged hat
  | send =>
    simp only [step] at h
    split at h <;> cases h
    exact .sent _ ‹_›
  | write =>
    simp only [step] at h
    split at h
    · cases h
    · split at h <;> cases h
      · exact .written _ _ ‹_› ‹_›
      · exact .dropped _ _ ‹_› (Bool.eq_false_of_not_eq_true ‹_›)
  | answer =>
    simp only [step] at h
    split at h <;> cases h
    exact .answered _ _ ‹_›
  | pong k =>
    simp only [step] at h
    split at h
    · cases h
    · rename_i k' pongs hfirst
      simp only [Option.ite_none_left_eq_some, not_not] at h
      obtain ⟨rfl, h⟩ := h
      split at h <;> cases h
      · rename_i hpending
        exact .reset k' pongs hfirst hpending.1 hpending.2
      · rename_i hsettled
        exact .ignored k' pongs hfirst fun hcalled hpending => hsettled ⟨hcalled, hpending⟩
  | timeout =>
    simp only [step, Option.ite_none_left_eq_some, not_le] at h
    obtain ⟨hstarted, h⟩ := h
    split at h <;> cases h
    · exact .missed hstarted ‹_›
    · exact .passed hstarted ‹_›
  | mark =>
    simp only [step, Option.ite_none_left_eq_some] at h
    obtain ⟨hdying, h⟩ := h
    cases h
    exact .marked hdying
  | drain =>
    simp only [step, Option.ite_none_left_eq_some] at h
    obtain ⟨hdraining, h⟩ := h
    cases h
    exact .drained hdraining

/-! ## What the events say -/

theorem inTime_snoc : InTime (es ++ [e]) k ↔
    InTime es k ∨ e = .pong k ∧ es.count .timeout ≤ k := by
  constructor
  · rintro ⟨earlier, later, heq, hcount⟩
    rcases List.eq_nil_or_concat later with rfl | ⟨later, last, rfl⟩
    · obtain ⟨rfl, hlast⟩ := List.append_inj' heq rfl
      cases hlast
      exact Or.inr ⟨rfl, hcount⟩
    · rw [List.concat_eq_append, ← List.cons_append, ← List.append_assoc] at heq
      obtain ⟨rfl, -⟩ := List.append_inj' heq rfl
      exact Or.inl ⟨earlier, later, rfl, hcount⟩
  · rintro (⟨earlier, later, rfl, hcount⟩ | ⟨rfl, hcount⟩)
    · exact ⟨earlier, later ++ [e], by simp, hcount⟩
    · exact ⟨es, [], rfl, hcount⟩

/-- What was missed stays so: no PONG is in time any more. -/
theorem missed_snoc (h : Missed es k) (e : Event) : Missed (es ++ [e]) k := by
  obtain ⟨hlt, hnot⟩ := h
  refine ⟨by rw [List.count_append]; omega, ?_⟩
  rw [inTime_snoc, not_or]
  exact ⟨hnot, fun hpong => absurd hpong.2 (by omega)⟩

theorem threeMissed_snoc (h : ThreeMissed es) (e : Event) : ThreeMissed (es ++ [e]) := by
  obtain ⟨k, h₀, h₁, h₂⟩ := h
  exact ⟨k, missed_snoc h₀ e, missed_snoc h₁ e, missed_snoc h₂ e⟩

def Event.pongs (d : ℕ) : Event → ℕ
  | .pong _ => d + 1
  | _ => d

/-- How many PONGs were read. -/
def received (es : List Event) : ℕ := es.foldl Event.pongs 0

@[simp] theorem received_snoc (es : List Event) (e : Event) :
    received (es ++ [e]) = e.pongs (received es) := by
  simp [received]

/-! ## In order -/

def Loop.unsent : Loop → List ℕ
  | .sending k => [k]
  | _ => []

/-- The pings without a PONG yet, the oldest first. -/
def Heartbeats.flight (s : Heartbeats) : List ℕ :=
  s.pongs ++ s.pings ++ s.queue ++ s.loop.unsent

/-- All pings but the first `d`, in their order, are on their way. -/
structure Underway (d : ℕ) (s : Heartbeats) : Prop where
  le : d ≤ s.key
  flight : s.flight = List.range' d (s.key - d)
  callbacks : ∀ k, k ∈ s.pongs ∨ k ∈ s.pings → k ∈ s.callbacks
  alive : s.alive = true
  undrained : s.draining = 0

variable {d : ℕ}

theorem underway_init : Underway 0 .init := ⟨le_rfl, rfl, by simp [Heartbeats.init], rfl, rfl⟩

/-- The PONG that comes next is that of the oldest ping. -/
theorem underway_first {pongs : List ℕ} (h : Underway d s) (first : s.pongs = k :: pongs) :
    k = d ∧ d < s.key ∧
      pongs ++ s.pings ++ s.queue ++ s.loop.unsent = List.range' (d + 1) (s.key - (d + 1)) := by
  have hflight := h.flight
  rw [Heartbeats.flight, first] at hflight
  obtain ⟨n, hn⟩ : ∃ n, s.key - d = n + 1 := by
    refine Nat.exists_eq_succ_of_ne_zero fun hzero => ?_
    simp [hzero] at hflight
  rw [hn, List.range'_succ] at hflight
  obtain ⟨hk, hrest⟩ := List.cons.inj hflight
  refine ⟨hk, by omega, hrest.trans ?_⟩
  rw [show s.key - (d + 1) = n by omega]

/-- The others are on their way still, with their callbacks. -/
theorem underway_pong {pongs : List ℕ} (h : Underway d s) (first : s.pongs = k :: pongs)
    (pending : Finset ℕ) (missed : ℕ) :
    Underway (d + 1) { s with
      pongs, callbacks := s.callbacks.erase k, pendingHeartbeats := pending,
      missedHeartbeats := missed } := by
  obtain ⟨rfl, hlt, hrest⟩ := underway_first h first
  refine ⟨hlt, hrest, fun j hj => ?_, h.alive, h.undrained⟩
  have hother : k < j := by
    have hmem : j ∈ pongs ++ s.pings ++ s.queue ++ s.loop.unsent := by
      simp only [List.mem_append]
      exact Or.inl (Or.inl hj)
    rw [hrest, List.mem_range'_1] at hmem
    omega
  refine Finset.mem_erase.mpr ⟨by omega, h.callbacks j (hj.imp_left fun hj => ?_)⟩
  rw [first]
  exact List.mem_cons_of_mem _ hj

theorem underway_step (h : Underway d s) (undecided : s.dying = 0) (hstep : Step s e s') :
    Underway (e.pongs d) s' := by
  have hflight := h.flight
  cases hstep with
  | checked at' =>
    refine ⟨h.le, ?_, h.callbacks, h.alive, h.undrained⟩
    simpa [Heartbeats.flight, at', h.alive, Loop.unsent, Event.pongs] using hflight
  | pinged at' =>
    refine ⟨Nat.le_succ_of_le h.le, ?_, h.callbacks, h.alive, h.undrained⟩
    have hlast : List.range' d (s.key + 1 - d) = List.range' d (s.key - d) ++ [s.key] := by
      rw [Nat.succ_sub h.le, List.range'_1_concat, Nat.add_sub_cancel' h.le]
    simp only [Heartbeats.flight, at', Loop.unsent, List.append_nil] at hflight
    simp only [Heartbeats.flight, Loop.unsent, hflight, Event.pongs, hlast]
  | sent k at' =>
    refine ⟨h.le, ?_, h.callbacks, h.alive, h.undrained⟩
    simpa [Heartbeats.flight, at', Loop.unsent, Event.pongs] using hflight
  | written k queue first alive =>
    refine ⟨h.le, ?_, fun j hj => ?_, h.alive, h.undrained⟩
    · simpa [Heartbeats.flight, first, Event.pongs] using hflight
    · rw [Finset.mem_insert]
      rcases hj with hj | hj
      · exact Or.inr (h.callbacks j (Or.inl hj))
      · rcases List.mem_append.mp hj with hj | hj
        · exact Or.inr (h.callbacks j (Or.inr hj))
        · exact Or.inl (List.mem_singleton.mp hj)
  | dropped k queue first failed => cases h.alive.symm.trans failed
  | answered k pings first =>
    refine ⟨h.le, ?_, fun j hj => h.callbacks j ?_, h.alive, h.undrained⟩
    · simpa [Heartbeats.flight, first, Event.pongs] using hflight
    · simp only [List.mem_append, List.mem_singleton] at hj
      rw [first, List.mem_cons]
      tauto
  | reset k pongs first => exact underway_pong h first _ _
  | ignored k pongs first => exact underway_pong h first _ _
  | missed | passed => exact ⟨h.le, hflight, h.callbacks, h.alive, h.undrained⟩
  | marked dying => exact absurd undecided dying
  | drained draining => exact absurd h.undrained draining

/-! ## What the counter counts -/

/-- A ping is pending from its start to its PONG or its timeout, and the counter is the number of
pings missed since the last that was not. -/
structure Counted (es : List Event) (s : Heartbeats) : Prop where
  underway : Underway (received es) s
  pending : ∀ k, k ∈ s.pendingHeartbeats ↔ s.timeouts ≤ k ∧ received es ≤ k ∧ k < s.key
  timeouts : s.timeouts = es.count .timeout
  started : s.timeouts ≤ s.key
  inTime : ∀ k, InTime es k → k < received es
  misses : ∀ k, k < s.timeouts → s.timeouts ≤ k + s.missedHeartbeats → ¬ InTime es k
  bounded : s.missedHeartbeats ≤ s.timeouts
  ahead : s.missedHeartbeats ≠ 0 → received es ≤ s.timeouts
  undecided : s.dying = 0

theorem counted_init : Counted [] .init where
  underway := underway_init
  pending := by simp [Heartbeats.init]
  timeouts := rfl
  started := le_rfl
  inTime := by simp [InTime]
  misses := by simp [Heartbeats.init]
  bounded := le_rfl
  ahead := by simp [Heartbeats.init]
  undecided := rfl

/-- Nothing that counts happens. -/
theorem counted_same (h : Counted es s) (hstep : Step s e s')
    (noPong : e.pongs (received es) = received es) (noTimeout : e ≠ .timeout)
    (key : s'.key = s.key) (pending : s'.pendingHeartbeats = s.pendingHeartbeats)
    (missed : s'.missedHeartbeats = s.missedHeartbeats) (timeouts : s'.timeouts = s.timeouts)
    (dying : s'.dying = s.dying) : Counted (es ++ [e]) s' := by
  have hunderway := underway_step h.underway h.undecided hstep
  have hreceived : received (es ++ [e]) = received es := by rw [received_snoc, noPong]
  have hinTime : ∀ k, InTime (es ++ [e]) k ↔ InTime es k := fun k => by
    rw [inTime_snoc, or_iff_left]
    rintro ⟨rfl, -⟩
    exact absurd noPong (Nat.succ_ne_self _)
  rw [noPong] at hunderway
  refine ⟨hreceived ▸ hunderway, ?_, ?_, ?_, ?_, ?_, ?_, ?_, dying.trans h.undecided⟩
  · rw [pending, timeouts, hreceived, key]
    exact h.pending
  · rw [timeouts, h.timeouts, List.count_append, List.count_singleton, if_neg (by simpa),
      Nat.add_zero]
  · rw [timeouts, key]
    exact h.started
  · simpa only [hinTime, hreceived] using h.inTime
  · simpa only [hinTime, timeouts, missed] using h.misses
  · rw [missed, timeouts]
    exact h.bounded
  · rw [missed, timeouts, hreceived]
    exact h.ahead

theorem counted_ping (h : Counted es s) (at' : s.loop = .sleeping) :
    Counted (es ++ [.ping]) { s with
      loop := .sending s.key, key := s.key + 1,
      pendingHeartbeats := insert s.key s.pendingHeartbeats } := by
  have hle := h.underway.le
  have hstarted := h.started
  refine ⟨by simpa using underway_step h.underway h.undecided (.pinged at'), fun k => ?_,
    by simpa using h.timeouts, Nat.le_succ_of_le hstarted, fun k hk => ?_, fun k hlt hmissed => ?_,
    h.bounded, by simpa [Event.pongs] using h.ahead, h.undecided⟩
  · simp only [Finset.mem_insert, h.pending k, received_snoc, Event.pongs]
    omega
  · simpa [Event.pongs] using h.inTime k (by simpa [inTime_snoc] using hk)
  · simpa [inTime_snoc] using h.misses k hlt hmissed

/-- A PONG in time resets the counter, and the pings before it have got theirs. -/
theorem counted_reset {pongs : List ℕ} (h : Counted es s) (first : s.pongs = k :: pongs)
    (called : k ∈ s.callbacks) (pending : k ∈ s.pendingHeartbeats) :
    Counted (es ++ [.pong k]) { s with
      pongs, callbacks := s.callbacks.erase k,
      pendingHeartbeats := s.pendingHeartbeats.erase k, missedHeartbeats := 0 } := by
  obtain ⟨hk, hlt, -⟩ := underway_first h.underway first
  refine ⟨by simpa using underway_step h.underway h.undecided (.reset k pongs first called pending),
    fun j => ?_, by simpa using h.timeouts, h.started, fun j hj => ?_, fun j hlt hmissed => ?_,
    Nat.zero_le _, fun hzero => absurd rfl hzero, h.undecided⟩
  · simp only [Finset.mem_erase, h.pending j, received_snoc, Event.pongs]
    omega
  · simp only [received_snoc, Event.pongs]
    rcases inTime_snoc.mp hj with hj | ⟨heq, -⟩
    · exact Nat.lt_succ_of_lt (h.inTime j hj)
    · cases heq
      omega
  · dsimp only at hlt hmissed
    omega

/-- A late PONG changes nothing that counts. -/
theorem counted_ignored {pongs : List ℕ} (h : Counted es s) (first : s.pongs = k :: pongs)
    (settled : k ∈ s.callbacks → k ∉ s.pendingHeartbeats) :
    Counted (es ++ [.pong k]) { s with pongs, callbacks := s.callbacks.erase k } := by
  obtain ⟨hk, hlt, -⟩ := underway_first h.underway first
  have hcalled : k ∈ s.callbacks := h.underway.callbacks k (Or.inl (by simp [first]))
  have hlate : k < s.timeouts := by
    by_contra hin
    exact settled hcalled ((h.pending k).mpr ⟨by omega, by omega, by omega⟩)
  have hinTime : ∀ j, InTime (es ++ [.pong k]) j ↔ InTime es j := fun j => by
    rw [inTime_snoc, or_iff_left]
    rintro ⟨heq, hle⟩
    cases heq
    rw [← h.timeouts] at hle
    omega
  refine ⟨by simpa using underway_step h.underway h.undecided (.ignored k pongs first settled),
    fun j => ?_, by simpa using h.timeouts, h.started, fun j hj => ?_, ?_, h.bounded, fun _ => ?_,
    h.undecided⟩
  · simp only [h.pending j, received_snoc, Event.pongs]
    omega
  · simp only [received_snoc, Event.pongs]
    exact Nat.lt_succ_of_lt (h.inTime j ((hinTime j).mp hj))
  · simpa only [hinTime] using h.misses
  · simp only [received_snoc, Event.pongs]
    omega

theorem threeMissed_timeout (h : Counted es s) (pending : s.timeouts ∈ s.pendingHeartbeats)
    (two : s.missedHeartbeats = 2) : ThreeMissed (es ++ [.timeout]) := by
  have hbounded := h.bounded
  have hcount : (es ++ [Event.timeout]).count .timeout = s.timeouts + 1 := by simp [h.timeouts]
  have hmissed : ∀ k, k < s.timeouts → s.timeouts ≤ k + 2 → Missed (es ++ [.timeout]) k :=
    fun k hlt hle => ⟨by omega, by simpa [inTime_snoc] using h.misses k hlt (by omega)⟩
  have hlast : Missed (es ++ [.timeout]) s.timeouts := by
    refine ⟨by omega, ?_⟩
    simp only [inTime_snoc, reduceCtorEq, false_and, or_false]
    intro hin
    have hreceived := h.inTime _ hin
    have := ((h.pending _).mp pending).2.1
    omega
  obtain ⟨n, hn⟩ : ∃ n, s.timeouts = n + 2 := ⟨s.timeouts - 2, by omega⟩
  exact ⟨n, hmissed n (by omega) (by omega), hmissed (n + 1) (by omega) (by omega), hn ▸ hlast⟩

theorem counted_missed (h : Counted es s) (started : s.timeouts < s.key)
    (pending : s.timeouts ∈ s.pendingHeartbeats) :
    ThreeMissed (es ++ [.timeout]) ∨ Counted (es ++ [.timeout]) { s with
      pendingHeartbeats := s.pendingHeartbeats.erase s.timeouts,
      missedHeartbeats := s.missedHeartbeats + 1,
      dying := if s.missedHeartbeats + 1 = 3 then s.dying + 1 else s.dying,
      timeouts := s.timeouts + 1 } := by
  obtain ⟨-, hreceived, -⟩ := (h.pending _).mp pending
  by_cases hthree : s.missedHeartbeats + 1 = 3
  · exact Or.inl (threeMissed_timeout h pending (by omega))
  · refine Or.inr ⟨by simpa using underway_step h.underway h.undecided (.missed started pending),
      fun j => ?_, by simp [h.timeouts], started, fun j hj => ?_, fun j hlt hle => ?_,
      Nat.succ_le_succ h.bounded, fun _ => ?_, by simpa [hthree] using h.undecided⟩
    · simp only [Finset.mem_erase, h.pending j, received_snoc, Event.pongs]
      omega
    · simpa [Event.pongs] using h.inTime j (by simpa [inTime_snoc] using hj)
    · simp only [inTime_snoc, reduceCtorEq, false_and, or_false]
      dsimp only at hlt hle
      rcases Nat.lt_succ_iff_lt_or_eq.mp hlt with hlt | rfl
      · exact h.misses j hlt (by omega)
      · intro hin
        have := h.inTime _ hin
        omega
    · simp only [received_snoc, Event.pongs]
      omega

/-- The timer of a ping that got its PONG: those of the misses before it ran out earlier. -/
theorem counted_passed (h : Counted es s) (started : s.timeouts < s.key)
    (settled : s.timeouts ∉ s.pendingHeartbeats) :
    Counted (es ++ [.timeout]) { s with timeouts := s.timeouts + 1 } := by
  have hreceived : s.timeouts < received es := by
    by_contra hnot
    exact settled ((h.pending _).mpr ⟨le_rfl, by omega, started⟩)
  have hzero : s.missedHeartbeats = 0 := by
    by_contra hmissed
    exact absurd (h.ahead hmissed) (by omega)
  refine ⟨by simpa using underway_step h.underway h.undecided (.passed started settled),
    fun j => ?_, by simp [h.timeouts], started, fun j hj => ?_, fun j hlt hle => ?_,
    Nat.le_succ_of_le h.bounded, fun hmissed => absurd hzero hmissed, h.undecided⟩
  · simp only [h.pending j, received_snoc, Event.pongs]
    omega
  · simpa [Event.pongs] using h.inTime j (by simpa [inTime_snoc] using hj)
  · dsimp only at hlt hle
    omega

theorem counted_step (h : Counted es s) (hstep : Step s e s') :
    ThreeMissed (es ++ [e]) ∨ Counted (es ++ [e]) s' := by
  cases hstep with
  | checked at' => exact Or.inr (counted_same h (.checked at') rfl nofun rfl rfl rfl rfl rfl)
  | pinged at' => exact Or.inr (counted_ping h at')
  | sent k at' => exact Or.inr (counted_same h (.sent k at') rfl nofun rfl rfl rfl rfl rfl)
  | written k queue first alive =>
    exact Or.inr (counted_same h (.written k queue first alive) rfl nofun rfl rfl rfl rfl rfl)
  | dropped k queue first failed => cases h.underway.alive.symm.trans failed
  | answered k pings first =>
    exact Or.inr (counted_same h (.answered k pings first) rfl nofun rfl rfl rfl rfl rfl)
  | reset k pongs first called pending => exact Or.inr (counted_reset h first called pending)
  | ignored k pongs first settled => exact Or.inr (counted_ignored h first settled)
  | missed started pending => exact counted_missed h started pending
  | passed started settled => exact Or.inr (counted_passed h started settled)
  | marked dying => exact absurd h.undecided dying
  | drained draining => exact absurd h.underway.undrained draining

theorem counted (run : Run.Exec step ok .init es s) : ThreeMissed es ∨ Counted es s := by
  refine run.history (P := fun es s => ThreeMissed es ∨ Counted es s) (Or.inr counted_init) ?_
  rintro es s e s' - (h | h) - taken
  · exact Or.inl (threeMissed_snoc h e)
  · exact counted_step h (step_cases taken)

/-- **Three consecutive misses.** The peer is marked failed only after three pings in a row timed
out without their PONG, however late the PONGs are and wherever they cease. -/
theorem marked_after_three_misses (run : Run.Exec step ok .init es s) (marked : s.alive = false) :
    ∃ k, Missed es k ∧ Missed es (k + 1) ∧ Missed es (k + 2) := by
  rcases counted run with h | h
  · exact h
  · cases h.underway.alive.symm.trans marked

def onePing : List Event := [.check, .ping, .send, .write]

/-- The first PONG comes in time, the second is late and changes nothing, and there are no more. -/
def silence : List Event :=
  onePing ++ [.answer, .pong 0] ++ onePing ++ [.answer, .timeout, .timeout, .pong 1] ++ onePing ++
    onePing ++ [.timeout, .timeout, .mark]

theorem marked_after_three_misses_silence :
    ∃ s, Run.Exec step (fun _ _ => True) .init silence s ∧ s.alive = false ∧
      ∃ k, Missed silence k ∧ Missed silence (k + 1) ∧ Missed silence (k + 2) := by
  obtain ⟨s, run, hs⟩ := Run.exec_of_test (fun s : Heartbeats => s.alive = false)
    (by decide : (Run.run step (fun _ _ => True) .init silence).any _ = true)
  have hfailed := of_decide_eq_true hs
  exact ⟨s, run, hfailed, marked_after_three_misses run hfailed⟩

end MiniDiscord.Heartbeat
