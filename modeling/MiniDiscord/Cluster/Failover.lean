import MiniDiscord.Cluster.Http
import MiniDiscord.Cluster.Quiet

/-!
# Requests across a crash

A server that crashes at rest takes nothing with it: its keys are held by their backups, and from
then on these answer. Before and after the crash, and while the others find out about it one by one,
all requests have one order.
-/

namespace MiniDiscord.Cluster

open DiscordStateops

variable {hash : String → ℕ} {w w' : World} {e : Event} {es : List Event}

theorem step_crashed (taken : w.step hash e = some w') (s : ServerId)
    (crashed : w.servers.crashed s = true) : w'.servers.crashed s = true := by
  cases step_cases taken with
  | advanced j pre post σ' stack' jobs hadvance =>
    rw [← (advance_view hadvance).2] at crashed
    exact crashed
  | crashed t live =>
    simp only [crash_crashed, Function.update_apply]
    split_ifs
    · rfl
    · exact crashed
  | _ => exact crashed

/-- As long as no server has crashed there was no failure. -/
theorem uncrashed_failureFree
    (run : Run.Exec (World.step hash) (AtRest (oneCrash.where' inOrder)) .init es w)
    (none : ∀ s, w.servers.crashed s = false) : Reaches hash (failureFree.where' inOrder) es w := by
  refine run.history (P := fun es w => (∀ s, w.servers.crashed s = false) →
    Reaches hash (failureFree.where' inOrder) es w) (fun _ => .nil) ?_ none
  intro es w e w' prefix_run ih allowed taken none
  have hnone : ∀ s, w.servers.crashed s = false := fun s => by
    by_contra hcrashed
    have hlater := step_crashed taken s (by simpa using hcrashed)
    simp [none s] at hlater
  refine (ih hnone).snoc ?_ taken
  cases e with
  | advance i => exact allowed.1
  | suspect s p => exact absurd ((hnone p).symm.trans allowed.1) nofun
  | crash s =>
    cases step_cases taken with
    | crashed _ live => exact absurd (none s) (by simp)
  | hangUp i => exact allowed.1
  | _ => rfl

theorem atRest_orderly : Orderly hash False (AtRest (oneCrash.where' inOrder)) where
  calm w e allowed := by
    refine ⟨?_, allowed.2⟩
    cases e with
    | advance i => simp [Policy.allows, oneCrash, crashStop]
    | _ => exact allowed.1
  strict w i j allowed hj := by
    refine Or.inr ?_
    simpa [Policy.allows, Policy.where', oneCrash, crashStop, hj] using allowed.1
  rest es w s st run allowed held := by
    have hcrash : (crashStop.where' inOrder).crash w.servers = true := allowed.1
    have hnone := crashStop_crash hcrash
    have hrun := uncrashed_failureFree run hnone
    rw [up_authority (failureFree_up hrun).1] at held
    have hmirrors := mirrors_of_primaries hrun (allowed.2 s rfl) held
    exact (hmirrors.crash hnone s).held

/-- **One order across a crash.** At most one server crashes, at a moment when no request is in
flight, and each other server finds out about it at some later moment; every client waits for its
answer, and no backup rejects a replicated join or leave. Then all requests but the listings of all
servers, to any servers and interleaved in any way, before and after the crash and also those that
ran into the crashed server, get the answers of one central store asked in one order, each at most
once and after it was sent. The primaries that run, and the backups of the one that crashed, hold
what this store holds. -/
theorem failover_linearizable
    (run : Run.Exec (World.step hash) (AtRest (oneCrash.where' inOrder)) .init es w) :
    OneOrder hash w.servers.authority False es w :=
  one_order atRest_orderly run

/-- `alice` has joined when `A` crashes. `C` asks it for the members, and starts over when it finds
out; by then `bob` has registered and joined at `B`. -/
def failsOver : List Event :=
  aliceJoins ++ [.crash .A] ++ asks .C (.listChannelUsers "#cs249") 2 2 ++ [.suspect .B .A] ++
    asks .B (.createUser "bob") 3 4 ++ asks .B (.joinChannel "bob" "#cs249") 4 6 ++
    [.suspect .C .A, .giveUp 2 1] ++ steps 2 8

theorem failover_linearizable_members : ∃ w,
    Run.Exec (World.step fun _ => 0) (AtRest (oneCrash.where' inOrder)) .init failsOver w ∧
    OneOrder (fun _ => 0) w.servers.authority False failsOver w ∧
    w.returned.map Reply.result =
      [.ok .unit, .ok .unit, .ok .unit, .ok .unit, .ok (.names {"bob", "alice"})] ∧
    (effects (fun _ => 0) failsOver).map Entry.call = [0, 1, 3, 4, 2] := by
  obtain ⟨w, run, hw⟩ := Run.exec_of_test
    (fun w : World => w.returned.map Reply.result =
      [.ok .unit, .ok .unit, .ok .unit, .ok .unit, .ok (.names {"bob", "alice"})])
    (by decide : (Run.run (World.step fun _ => 0) (AtRest (oneCrash.where' inOrder)) .init
      failsOver).any _ = true)
  exact ⟨w, run, failover_linearizable run, of_decide_eq_true hw, by decide⟩

/-- **HTTP across a crash.** In the same runs, with HTTP requests to any servers, the clients get
the responses of one server that handles them one after the other, before and after the crash. -/
theorem http_failover_linearizable {es : List FrontEvent} {front : Front}
    (run : Front.Reaches hash (AtRest (oneCrash.where' inOrder)) es front) :
    HttpOrder hash front.world.servers.authority False es front :=
  http_order atRest_orderly (fun _ _ _ => ⟨rfl, nofun⟩) run

/-- `alice` posts twice, and `A` crashes. A client of `C` asks for the members before `C` knows. -/
def postsAndFailsOver : List FrontEvent :=
  [.arrive .A (alicePosts ["users"] "alice"), .handle 0 .A] ++ calls 0 6 ++
    [.arrive .A (alicePosts ["channels", "#cs249", "members"] ""), .handle 1 .A] ++ calls 1 8 ++
    [.cluster (.crash .A), .arrive .C ⟨.get, ["channels", "#cs249", "users"], none, fun _ => none,
      fun _ => .error .jsonDataError⟩, .handle 2 .A] ++ calls 2 2 ++
    [.cluster (.suspect .C .A), .cluster (.suspect .B .A), .cluster (.giveUp 2 1)] ++ calls 2 8

theorem http_failover_linearizable_members : ∃ front,
    Front.Reaches (fun _ => 0) (AtRest (oneCrash.where' inOrder)) postsAndFailsOver front ∧
    HttpOrder (fun _ => 0) front.world.servers.authority False postsAndFailsOver front ∧
    front.response 2 = some (.ok (.channelUsers {"alice"} "#cs249")) ∧
    (httpEffects (fun _ => 0) postsAndFailsOver).map Entry.call = [0, 1, 2] := by
  obtain ⟨front, run, hfront⟩ := Run.exec_of_test
    (fun front : Front => front.response 2 = some (.ok (.channelUsers {"alice"} "#cs249")))
    (by decide +kernel : (Run.run (Front.step fun _ => 0)
      (Front.Allows (AtRest (oneCrash.where' inOrder))) .init postsAndFailsOver).any _ = true)
  exact ⟨front, run, http_failover_linearizable run, of_decide_eq_true hfront, by decide +kernel⟩

end MiniDiscord.Cluster
