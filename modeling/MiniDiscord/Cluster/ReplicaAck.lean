import MiniDiscord.Cluster.Acknowledged

/-!
# What the answer to a replicate request is worth

A backup answers ok to a replicated message whether or not it got it into its set, which looks at
the number of an id only. What saves the answer is that a backup numbers messages of its own only
after it marked the primary failed, and then it writes no answer to the primary.
-/

namespace MiniDiscord.Cluster

open DiscordStateops

variable {hash : String → ℕ}

/-- **A replication acknowledgement is sound.** Whatever fails or is taken for failed, a backup
whose answer ok arrives holds the message, and does so from then on. -/
theorem acknowledged_replica {es es' : List Event} {w w' : World}
    (run : Reaches hash anyFailure es w) {j : Job} (job : j ∈ w.jobs)
    {c u t id : String} {v : Value} {s p : ServerId} {rest : List Frame}
    (op : j.op = .sendMessage c u t)
    (answer : j.stack = .response (.ok v) :: .call s (.awaitReplica (.messageId id) p) :: rest)
    (later : Run.Exec (World.step hash) (fun w e => anyFailure.allows w e = true) w es' w') :
    ⟨u, t, id⟩ ∈ (w'.servers.store p).history c := by
  have hframe := (lasting_holds (fun _ => False) (fun _ _ _ _ _ _ _ _ h => h.elim) run).jobs j job
  have hknown := known es w run j job
  rw [answer, op] at hframe hknown
  obtain ⟨config, howner, rfl, rfl⟩ := hknown.2.1.routed
  have happlied := (hframe.1 rfl config howner _ rfl).1.2
  exact (grows_run later).history _ _ _ happlied

/-- The answer to `A`'s replicate request for its first message arrives. -/
def answered : List Event :=
  aliceJoins ++ asks .A (.sendMessage "#cs249" "alice" "m0") 2 7

def firstSend : Job :=
  ⟨2, .sendMessage "#cs249" "alice" "m0", .A, true,
    [.response (.ok (.messageId "#cs249-0")), .call .A (.awaitReplica (.messageId "#cs249-0") .B)]⟩

/-- `B` takes `A` for failed after it answered, and numbers a message of its own. -/
def answeredBefore : List Event :=
  [.suspect .B .A] ++ asks .B (.sendMessage "#cs249" "alice" "m1") 3 7

theorem acknowledged_replica_first :
    ∃ w w', Reaches (fun _ => 0) anyFailure answered w ∧ firstSend ∈ w.jobs ∧
      Run.Exec (World.step fun _ => 0) (fun w e => anyFailure.allows w e = true) w answeredBefore
        w' ∧
      ⟨"alice", "m0", "#cs249-0"⟩ ∈ (w'.servers.store .B).history "#cs249" := by
  obtain ⟨w, run, hw⟩ := Run.exec_of_test
    (fun w : World => firstSend ∈ w.jobs ∧
      (outcome (fun _ => 0) anyFailure w answeredBefore).isSome)
    (by decide : (outcome (fun _ => 0) anyFailure .init answered).any _ = true)
  obtain ⟨hjob, hlater⟩ := of_decide_eq_true hw
  have later := Run.exec_get hlater
  exact ⟨w, _, run, hjob, later, acknowledged_replica run hjob rfl rfl later⟩

end MiniDiscord.Cluster
