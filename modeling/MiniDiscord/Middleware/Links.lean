import MiniDiscord.Middleware.Steps

/-!
# Two servers of the fleet

Whatever the rest of the fleet does, two of its servers are the ends of one connection: their
entries for each other and the lines between them make the steps of a `Link`.
-/

namespace MiniDiscord.Middleware

open Peer (Side Link LinkStep LinkReaches)

variable {config : Config} {capacity : ℕ} {n n' : Node} {e : Event} {F F' : Fleet} {i j k : String}

/-- The server at a side of the connection between `i` and `j`. -/
def sideOf (i j : String) : Side → String
  | .left => i
  | .right => j

def Fleet.link (F : Fleet) (i j : String) : Link where
  side := fun s => (F.node (sideOf i j s)).serverStates (sideOf i j s.other)
  wire := fun s => F.wire (sideOf i j s) (sideOf i j s.other)

/-- What a server's step does to the entry of one peer is a step of that end, or nothing. -/
theorem step_entry (h : NodeStep config n e n') (peer : String) :
    (n'.serverStates peer = n.serverStates peer ∧ e.written peer = [] ∧ e.read peer = []) ∨
      ∃ pe, Peer.Step (n.serverStates peer) pe (n'.serverStates peer) ∧
        pe.written = e.written peer ∧ pe.read = e.read peer := by
  cases h with
  | gaveUp target targets main healthy =>
    by_cases hpeer : peer = target
    · subst hpeer
      refine Or.inr ⟨.unreachable, ?_, rfl, rfl⟩
      simpa [Node.setServer] using Peer.Step.unreachable
    · exact Or.inl ⟨by simp [Node.setServer, hpeer], rfl, rfl⟩
  | announced i task E there stage sent =>
    by_cases hpeer : peer = task.peer
    · subst hpeer
      refine Or.inr ⟨.announce n.id, ?_, rfl, rfl⟩
      simpa [Node.setStage, Node.setServer] using sent
    · exact Or.inl ⟨by simp [Node.setStage, Node.setServer, hpeer], rfl, rfl⟩
  | peered p pe E permitted step =>
    by_cases hpeer : p = peer
    · subst hpeer
      refine Or.inr ⟨pe, ?_, (if_pos rfl).symm, (if_pos rfl).symm⟩
      simpa [Node.effect, Node.setServer] using step
    · refine Or.inl ⟨?_, if_neg hpeer, if_neg hpeer⟩
      simp [Node.effect, Node.setServer, Ne.symm hpeer]
  | _ => exact Or.inl ⟨rfl, rfl, rfl⟩

theorem sideOf_ne (hne : i ≠ j) (s : Side) : sideOf i j s.other ≠ sideOf i j s := by
  cases s with
  | left => exact hne.symm
  | right => exact hne

theorem link_of_step (hne : i ≠ j) (s : Side)
    (h : FleetStep config capacity F (sideOf i j s) e F') :
    F'.link i j = F.link i j ∨ ∃ pe, LinkStep capacity (F.link i j) s pe (F'.link i j) := by
  have hother := sideOf_ne hne s
  have hwrote := h.wrote _ hother
  have htook := h.took _ hother
  have hnode := h.others _ hother
  rcases step_entry h.step (sideOf i j s.other) with ⟨hsame, hwritten, hread⟩ |
    ⟨pe, hstep, hwritten, hread⟩
  · left
    refine Peer.link_ext s hsame ?_ ?_ ?_
    · simp [Fleet.link, hnode]
    · simpa [Fleet.link, hwritten] using hwrote
    · simpa [Fleet.link, hread] using htook.symm
  · refine Or.inr ⟨pe, hstep, ?_, ?_, ?_, ?_⟩
    · simp [Fleet.link, hnode]
    · rw [hwritten]
      exact hwrote
    · rw [hread]
      simpa [Fleet.link] using htook
    · rw [hwritten]
      exact h.room _

theorem link_of_third (hi : i ≠ k) (hj : j ≠ k) (h : FleetStep config capacity F k e F') :
    F'.link i j = F.link i j := by
  have hthird : ∀ s, sideOf i j s ≠ k := by
    intro s
    cases s with
    | left => exact hi
    | right => exact hj
  refine Link.ext (funext fun s => ?_) (funext fun s => ?_)
  · simp only [Fleet.link, h.others _ (hthird s)]
  · exact h.untouched _ _ (hthird s) (hthird s.other)

/-- What holds of two connected servers in every run holds of any two servers of a fleet. -/
theorem fleet_link {allowed : Fleet → String × Event → Bool} {es : List (String × Event)}
    (hne : i ≠ j) (run : FleetReaches config capacity allowed es F) :
    ∃ es', LinkReaches capacity Peer.anyEvent es' (F.link i j) := by
  refine run.invariant (P := fun F => ∃ es', LinkReaches capacity Peer.anyEvent es' (F.link i j))
    ⟨[], ?_⟩ ?_
  · exact .nil
  · rintro F ⟨k, e⟩ F' ⟨es', before⟩ - taken
    have hstep := fleet_step_cases taken
    have hside : ∀ s, sideOf i j s = k →
        ∃ es', LinkReaches capacity Peer.anyEvent es' (F'.link i j) := by
      rintro s rfl
      rcases link_of_step hne s hstep with hsame | ⟨pe, hlink⟩
      · exact ⟨es', hsame ▸ before⟩
      · exact ⟨_, .snoc before rfl hlink.taken⟩
    by_cases hi : i = k
    · exact hside .left hi
    · by_cases hj : j = k
      · exact hside .right hj
      · exact ⟨es', link_of_third hi hj hstep ▸ before⟩

theorem fleet_end {allowed : Fleet → String × Event → Bool} {es : List (String × Event)}
    (hne : i ≠ j) (run : FleetReaches config capacity allowed es F) :
    ∃ es', Peer.Reaches es' ((F.node i).serverStates j) := by
  obtain ⟨es', hlink⟩ := fleet_link hne run
  exact Peer.link_end hlink .left

end MiniDiscord.Middleware
