import MiniDiscord.Cluster.Acknowledged

/-!
# Users

A user that was created is found by every later `user_exists` and listed by every later
`get_users`, through any single crash.
-/

namespace MiniDiscord.Cluster

open DiscordStateops

/-! ## Sorted names -/

theorem mem_sortNames {u : String} {all : Multiset String} : u ∈ sortNames all ↔ u ∈ all := by
  induction all using Quot.inductionOn with
  | h l => exact (List.perm_insertionSort (· ≤ ·) l).mem_iff

theorem pairwise_sortNames (all : Multiset String) : (sortNames all).Pairwise (· ≤ ·) := by
  induction all using Quot.inductionOn with
  | h l => exact List.pairwise_insertionSort (· ≤ ·) l

theorem dedup_sortNames (all : Multiset String) : dedup (sortNames all) = (sortNames all).dedup :=
  (pairwise_sortNames all).destutter_eq_dedup

theorem mem_dedup_sortNames {u : String} {all : Multiset String} :
    u ∈ dedup (sortNames all) ↔ u ∈ all := by
  rw [dedup_sortNames, List.mem_dedup, mem_sortNames]

theorem strict_dedup_sortNames (all : Multiset String) :
    (dedup (sortNames all)).Pairwise (· < ·) := by
  rw [dedup_sortNames]
  have hle := (pairwise_sortNames all).sublist (List.dedup_sublist _)
  exact hle.imp₂ (fun _ _ => lt_of_le_of_ne) (List.nodup_dedup _)

/-- A poll of the servers returns nothing but a list in strict order. -/
def ordered (hash : String → ℕ) : Inv Unit where
  servers _ _ := True
  frame _ _ _ op f _ := op.owner hash = none → ∀ s r, f = .call s (.done r) →
    ∃ l, r = .ok (.sorted l) ∧ l.Pairwise (· < ·)
  reply _ _ r := r.op.owner hash = none → ∃ l, r.result = .ok (.sorted l) ∧ l.Pairwise (· < ·)

theorem ordered_preserved (hash : String → ℕ) :
    (ordered hash).Preserved hash anyFailure noTick (Known hash) where
  still _ _ _ _ _ _ := rfl
  weaken _ _ _ _ _ _ h := h
  submit _ _ _ _ _ _ _ _ _ hf := by cases hf
  reply _ _ _ _ _ _ _ _ h howner := h howner _ _ rfl
  giveUp g σ req op s pc p upper lower _ known live awaits failed h howner t r hf := by
    cases pc with
    | awaitReplica =>
      obtain ⟨config, howner', -⟩ := (frames_lower known).1.routed
      simp [howner] at howner'
    | userAwait | awaitForward | awaitPoll => cases hf
    | _ => cases awaits
  suspect _ _ _ _ _ _ _ := ⟨trivial, fun _ _ _ _ => id, fun _ => id⟩
  crash _ _ _ _ _ := ⟨trivial, fun _ _ _ _ => id, fun _ => id⟩
  advance g σ req op stack σ' stack' _ frame known _ h := by
    refine ⟨⟨trivial, fun _ _ _ _ => id, fun _ => id⟩, ?_⟩
    by_cases howner : op.owner hash = none
    · have hlocal : ∀ {config : LocationConfig}, op.owner hash ≠ some config := by simp [howner]
      cases h with
      | polled s all rest live =>
        refine ⟨fun _ t r hf => ?_, frame.2⟩
        cases hf
        exact ⟨_, rfl, strict_dedup_sortNames all⟩
      | userUnknown | refused | committed | rejected =>
        obtain ⟨config, howner', -⟩ := known.1.routed rfl
        exact absurd howner' hlocal
      | alone s v config rest live owner alone => exact absurd owner hlocal
      | sent s pc dest request wait rest live sends alive =>
        have hwait : ∀ r, wait ≠ .done r := by rintro r rfl; cases sends
        refine ⟨fun _ _ _ hf => ?_, fun _ _ r hf => ?_, frame.2⟩
        · cases hf
        · exact absurd (Frame.call.inj hf).2 (hwait r)
      | unsent s pc dest request wait rest live sends failed =>
        have hwait : ∀ r, wait ≠ .done r := by rintro r rfl; cases sends
        exact ⟨fun _ _ r hf => absurd (Frame.call.inj hf).2 (hwait r), frame.2⟩
      | authority s config rest live owner auth => exact absurd owner hlocal
      | resumed s pc p r rest live awaits =>
        cases resume_cases known.1 awaits with
        | forward | replica =>
          obtain ⟨config, howner', -⟩ := known.2.1.routed
          exact absurd howner' hlocal
        | user =>
          obtain ⟨config, howner', -⟩ := known.2.1.routed rfl
          exact absurd howner' hlocal
        | poll =>
          refine ⟨fun _ _ _ hf => ?_, frame.2.2⟩
          cases hf
      | unheard | unheardRead | unheardReplica => exact frame.2
      | _ =>
        refine ⟨fun _ _ _ hf => ?_, frame.2⟩
        cases hf
    · exact frames_of_all (fun _ _ h => absurd h howner) _

/-! ## Reading a user -/

variable {hash : String → ℕ} {u : String} {σ σ' : Servers} {op : Op}

theorem safe_user (sound : σ.Sound) (safe : σ.Safe (userOwner hash u) (.createUser u) .unit)
    {s : ServerId}
    (owner : s = (userOwner hash u).primary ∨ s = (userOwner hash u).backup)
    (live : σ.crashed s = false) : u ∈ (σ.store s).users := by
  obtain ⟨hprimary, hbackup⟩ := safe
  rcases owner with rfl | rfl
  · refine hprimary.resolve_right ?_
    rintro ⟨t, ht⟩
    simp [sound.marked t _ ht] at live
  · refine hbackup.resolve_right ?_
    rintro ⟨t, ht⟩
    simp [sound.marked t _ ht] at live

/-- Among the peers still to be asked is an owner that will not crash before. -/
def Covered (hash : String → ℕ) (u : String) (σ : Servers) (peers : List ServerId) : Prop :=
  (userOwner hash u).primary ∈ peers ∧ (userOwner hash u).backup ∈ peers ∨
    (userOwner hash u).primary ∈ peers ∧ σ.crashed (userOwner hash u).backup = true ∨
    (userOwner hash u).backup ∈ peers ∧ σ.crashed (userOwner hash u).primary = true

/-- What a frame of a read that began after the user was created shows. -/
def Finds (hash : String → ℕ) (u : String) (σ : Servers) : Op → Frame → Prop
  | .userExists _, .call _ (.done r) => r = .ok (.found true)
  | .getUsers, .call s (.pollOwn peers) =>
    (s = (userOwner hash u).primary ∨ s = (userOwner hash u).backup) ∨ Covered hash u σ peers
  | .getUsers, .call _ (.poll all peers) => u ∈ all ∨ Covered hash u σ peers
  | .getUsers, .call _ (.awaitPoll all p peers) => u ∈ all ∨ Covered hash u σ (p :: peers)
  | .getUsers, .call _ (.done r) => ∃ l, r = .ok (.sorted l) ∧ u ∈ l
  | _, _ => True

/-- What an answer tells the call that waits for it. -/
def Found (hash : String → ℕ) (u : String) (op : Op) (r : StateResult Value) : Frame → Prop
  | .call _ (.awaitForward _) => op = .userExists u → r = .ok (.found true)
  | .call _ (.awaitPoll _ p _) => op = .getUsers →
    p = (userOwner hash u).primary ∨ p = (userOwner hash u).backup →
      ∀ names, r = .ok (.names names) → u ∈ names
  | _ => True

structure Reads (hash : String → ℕ) (u : String) (σ : Servers) (op : Op) (f : Frame)
    (below : Option Frame) : Prop where
  finds : Finds hash u σ op f
  found : ∀ r g, f = .response r → below = some g → Found hash u op r g

def reading (hash : String → ℕ) (u : String) (since : ℕ) : Inv Unit where
  servers _ σ := σ.Safe (userOwner hash u) (.createUser u) .unit
  frame _ σ req op f below := since ≤ req → op = .userExists u ∨ op = .getUsers →
    Reads hash u σ op f below
  reply _ _ r := since ≤ r.req → (r.op = .userExists u → r.result = .ok (.found true)) ∧
    (r.op = .getUsers → ∃ l, r.result = .ok (.sorted l) ∧ u ∈ l)

theorem covered_grows (h : σ.Grows σ') {peers : List ServerId} (hc : Covered hash u σ peers) :
    Covered hash u σ' peers :=
  hc.imp_right (Or.imp (And.imp_right (h.crashed _)) (And.imp_right (h.crashed _)))

theorem finds_grows (h : σ.Grows σ') {f : Frame} (hf : Finds hash u σ op f) :
    Finds hash u σ' op f := by
  cases op with
  | getUsers =>
    rcases f with ⟨s, pc⟩ | _ | _
    · cases pc with
      | pollOwn | poll | awaitPoll => exact hf.imp_right (covered_grows h)
      | _ => exact hf
    · trivial
    · trivial
  | userExists =>
    rcases f with ⟨s, pc⟩ | _ | _
    · cases pc <;> exact hf
    · trivial
    · trivial
  | _ => trivial

theorem covered_skip (sound : σ.Sound) {p : ServerId} {peers : List ServerId}
    (failed : σ.crashed p = true) (h : Covered hash u σ (p :: peers)) : Covered hash u σ peers := by
  have hne := userOwner_ne hash u
  simp only [Covered, List.mem_cons] at h ⊢
  rcases h with ⟨rfl | hp, hb⟩ | ⟨rfl | hp, hcrashed⟩ | ⟨rfl | hb, hcrashed⟩
  · exact Or.inr (Or.inr ⟨hb.resolve_left hne.symm, failed⟩)
  · rcases hb with rfl | hb
    · exact Or.inr (Or.inl ⟨hp, failed⟩)
    · exact Or.inl ⟨hp, hb⟩
  · exact absurd (sound.once _ _ failed hcrashed) hne
  · exact Or.inr (Or.inl ⟨hp, hcrashed⟩)
  · exact absurd (sound.once _ _ hcrashed failed) hne
  · exact Or.inr (Or.inr ⟨hb, hcrashed⟩)

theorem covered_tail {p : ServerId} {peers : List ServerId}
    (other : ¬ (p = (userOwner hash u).primary ∨ p = (userOwner hash u).backup))
    (h : Covered hash u σ (p :: peers)) : Covered hash u σ peers := by
  simp only [not_or] at other
  simpa [Covered, List.mem_cons, Ne.symm other.1, Ne.symm other.2] using h

theorem mem_alivePeers {s p : ServerId} : p ∈ σ.alivePeers s ↔ p ≠ s ∧ σ.view s p = true := by
  cases p <;> simp [Servers.alivePeers]

theorem covered_alivePeers (sound : σ.Sound) {s : ServerId}
    (other : ¬ (s = (userOwner hash u).primary ∨ s = (userOwner hash u).backup)) :
    Covered hash u σ (σ.alivePeers s) := by
  have hne := userOwner_ne hash u
  simp only [not_or] at other
  simp only [Covered, mem_alivePeers, ne_eq, Ne.symm other.1, Ne.symm other.2, not_false_eq_true,
    true_and]
  rcases hp : σ.view s (userOwner hash u).primary with _ | _
  · rcases hb : σ.view s (userOwner hash u).backup with _ | _
    · exact absurd (sound.once _ _ (sound.marked _ _ hp) (sound.marked _ _ hb)) hne
    · exact Or.inr (Or.inr ⟨rfl, sound.marked _ _ hp⟩)
  · rcases hb : σ.view s (userOwner hash u).backup with _ | _
    · exact Or.inr (Or.inl ⟨rfl, sound.marked _ _ hb⟩)
    · exact Or.inl ⟨rfl, rfl⟩

theorem reads_call {s : ServerId} {pc : Pc} {below : Option Frame}
    (h : Finds hash u σ op (.call s pc)) : Reads hash u σ op (.call s pc) below :=
  ⟨h, fun _ _ hf _ => by cases hf⟩

theorem reads_request {p : ServerId} {request : Request} {below : Option Frame} :
    Reads hash u σ op (.request p request) below :=
  ⟨by cases op <;> trivial, fun _ _ hf _ => by cases hf⟩

theorem reads_response {r : StateResult Value} {below : Option Frame}
    (h : ∀ g, below = some g → Found hash u op r g) : Reads hash u σ op (.response r) below :=
  ⟨by cases op <;> trivial, fun r' g hr hg => by cases hr; exact h g hg⟩

theorem reads_grows (h : σ.Grows σ') {f : Frame} {below : Option Frame}
    (hf : Reads hash u σ op f below) : Reads hash u σ' op f below :=
  ⟨finds_grows h hf.finds, hf.found⟩

section Advance

variable {stack stack' : List Frame} {req : ℕ}

theorem reads_userExists (h : Advance hash σ (.userExists u) stack σ' stack')
    (known : Known hash σ req (.userExists u) stack) (sound : σ.Sound)
    (safe : σ.Safe (userOwner hash u) (.createUser u) .unit)
    (reads : Frames (Reads hash u σ (.userExists u)) stack) :
    Frames (Reads hash u σ' (.userExists u)) stack' := by
  have hrest :
      ∀ {f : Frame} {rest : List Frame}, Frames (Reads hash u σ (.userExists u)) (f :: rest) →
      Frames (Reads hash u σ' (.userExists u)) rest :=
    fun hs => frames_mono (fun _ _ => reads_grows (grows_advance h)) hs.2
  cases h with
  | authority | elsewhere | polls | polledOwn | panic | started | handlerPanic =>
    exact ⟨reads_call trivial, hrest reads⟩
  | checked | refused | userAuthority | userElsewhere | userFound | userUnknown =>
    exact absurd rfl known.1.reached
  | committed s v state rest live locked =>
    refine ⟨reads_call ?_, hrest reads⟩
    obtain ⟨config, howner, howns⟩ := known.1.routed rfl
    obtain rfl : userOwner hash u = config := Option.some.inj howner
    have hu := safe_user sound safe (howns.imp_right And.left) live
    cases locked
    simp [Op.replicated, DiscordStateops.userExists, hu, Finds]
  | rejected s e state rest live locked => cases locked
  | unheard | unheardRead | unheardReplica => exact hrest reads
  | alone | replicated =>
    have hreached := known.1.reached
    cases hreached
  | sent s pc dest request wait rest live sends alive =>
    refine ⟨reads_request, reads_call ?_, hrest reads⟩
    cases sends <;> trivial
  | unsent s pc dest request wait rest live sends failed =>
    refine ⟨reads_call ?_, hrest reads⟩
    cases sends <;> trivial
  | polled s all rest live =>
    have hrouted := known.1.routed
    cases hrouted
  | answeredUser s username rest live user =>
    refine ⟨reads_response fun g hg => ?_, hrest reads⟩
    obtain ⟨username', huser', howner⟩ := known.1.routed
    cases user
    cases huser'
    have hu := safe_user sound safe howner live
    rcases g with ⟨t, pc⟩ | _ | _
    · rcases known.1.fits _ hg with rfl | ⟨rfl, -⟩
      · trivial
      · intro _
        simp [DiscordStateops.userExists, hu]
    · trivial
    · trivial
  | answeredNames s rest live =>
    refine ⟨reads_response fun g hg => ?_, hrest reads⟩
    rcases g with ⟨t, pc⟩ | _ | _
    · obtain ⟨all, peers, rfl⟩ := known.1.fits _ hg
      intro hawait
      cases hawait
    · trivial
    · trivial
  | responded s r caller rest live =>
    refine ⟨reads_response fun g hg => ?_, hrest reads⟩
    rcases g with ⟨t, pc⟩ | _ | _
    · rcases known.1.fits _ hg with hpanicked | ⟨⟨p, rfl⟩, -⟩
      · cases hpanicked
      · exact fun _ => reads.1.finds
    · trivial
    · trivial
  | resumed s pc p r rest live awaits =>
    refine ⟨reads_call ?_, hrest reads.2⟩
    cases resume_cases known.1 awaits with
    | user => exact absurd rfl known.2.1.reached
    | replica =>
      have hreached := known.2.1.reached
      cases hreached
    | forward => exact reads.1.found _ _ rfl rfl rfl
    | poll => trivial

theorem reads_getUsers (h : Advance hash σ .getUsers stack σ' stack')
    (known : Known hash σ req .getUsers stack) (sound : σ.Sound)
    (safe : σ.Safe (userOwner hash u) (.createUser u) .unit)
    (reads : Frames (Reads hash u σ .getUsers) stack) :
    Frames (Reads hash u σ' .getUsers) stack' := by
  have hrest : ∀ {f : Frame} {rest : List Frame}, Frames (Reads hash u σ .getUsers) (f :: rest) →
      Frames (Reads hash u σ' .getUsers) rest :=
    fun hs => frames_mono (fun _ _ => reads_grows (grows_advance h)) hs.2
  have hlocal : ∀ {config : LocationConfig}, Op.owner hash .getUsers ≠ some config := nofun
  cases h with
  | authority s config rest live owner auth | elsewhere s config rest live owner auth =>
    exact absurd owner hlocal
  | checked | refused | userAuthority | userElsewhere | userFound | userUnknown =>
    exact absurd rfl known.1.reached
  | committed | rejected =>
    obtain ⟨config, howner, -⟩ := known.1.routed rfl
    exact absurd howner hlocal
  | unheard | unheardRead | unheardReplica => exact hrest reads
  | alone | replicated => exact absurd known.1.reached nofun
  | polls s rest live owner =>
    refine ⟨reads_call ?_, hrest reads⟩
    by_cases howner : s = (userOwner hash u).primary ∨ s = (userOwner hash u).backup
    · exact Or.inl howner
    · exact Or.inr (covered_alivePeers sound howner)
  | sent s pc dest request wait rest live sends alive =>
    refine ⟨reads_request, reads_call ?_, hrest reads⟩
    cases sends with
    | poll all p peers => exact reads.1.finds
    | user | replicate | forward => trivial
  | unsent s pc dest request wait rest live sends failed =>
    refine ⟨reads_call ?_, hrest reads⟩
    cases sends with
    | poll all p peers => exact reads.1.finds
    | user | replicate | forward => trivial
  | polledOwn s peers rest live =>
    refine ⟨reads_call ?_, hrest reads⟩
    rcases reads.1.finds with howner | hcovered
    · exact Or.inl (safe_user sound safe howner live)
    · exact Or.inr hcovered
  | polled s all rest live =>
    refine ⟨reads_call ⟨_, rfl, ?_⟩, hrest reads⟩
    rw [mem_dedup_sortNames]
    exact Or.resolve_right reads.1.finds (by simp [Covered])
  | panic | started | handlerPanic => exact ⟨reads_call trivial, hrest reads⟩
  | answeredUser s username rest live user => cases user
  | answeredNames s rest live =>
    refine ⟨reads_response fun g hg => ?_, hrest reads⟩
    rcases g with ⟨t, pc⟩ | _ | _
    · obtain ⟨all, peers, rfl⟩ := known.1.fits _ hg
      rintro - howner names hnames
      cases hnames
      exact safe_user sound safe howner live
    · trivial
    · trivial
  | responded s r caller rest live =>
    refine ⟨reads_response fun g hg => ?_, hrest reads⟩
    rcases g with ⟨t, pc⟩ | _ | _
    · obtain ⟨⟨p, rfl⟩, -⟩ := (known.1.fits _ hg).resolve_left nofun
      exact nofun
    · trivial
    · trivial
  | resumed s pc p r rest live awaits =>
    refine ⟨reads_call ?_, hrest reads.2⟩
    cases resume_cases known.1 awaits with
    | user => exact absurd rfl known.2.1.reached
    | replica => exact absurd known.2.1.reached nofun
    | forward =>
      obtain ⟨config, howner, -⟩ := known.2.1.routed
      exact absurd howner hlocal
    | poll all p peers names =>
      rcases reads.2.1.finds with hall | hcovered
      · exact Or.inl (Multiset.mem_add.mpr (Or.inl hall))
      · by_cases howner : p = (userOwner hash u).primary ∨ p = (userOwner hash u).backup
        · exact Or.inl (Multiset.mem_add.mpr
            (Or.inr (reads.1.found _ _ rfl rfl rfl howner names rfl)))
        · exact Or.inr (covered_tail howner hcovered)

end Advance

theorem reading_carries (h : σ.Grows σ') (since : ℕ)
    (safe : σ.Safe (userOwner hash u) (.createUser u) .unit) :
    (reading hash u since).Carries () σ () σ' :=
  ⟨safe_grows h safe, fun _ _ _ _ hf hs hop => reads_grows h (hf hs hop), fun _ => id⟩

theorem reading_preserved (since : ℕ) : (reading hash u since).Preserved hash crashStop noTick
    fun σ req op stack => Known hash σ req op stack ∧ σ.Sound where
  still _ _ _ _ _ _ := rfl
  weaken _ _ _ _ _ _ h hs hop := ⟨(h hs hop).finds, fun _ _ _ hbelow => by cases hbelow⟩
  submit _ _ _ op _ _ _ _ := reads_call (by cases op <;> trivial)
  reply g σ req op s r safe live h hs := by
    refine ⟨?_, ?_⟩
    · rintro rfl
      exact (h hs (Or.inl rfl)).finds
    · rintro rfl
      exact (h hs (Or.inr rfl)).finds
  giveUp g σ req op s pc p upper lower safe known live awaits failed h hs hop := by
    have hf := (h hs hop).finds
    refine reads_call ?_
    rcases hop with rfl | rfl
    · cases pc with
      | awaitReplica => exact absurd (frames_lower known.1).1.reached nofun
      | userAwait | awaitForward | awaitPoll => trivial
      | _ => cases awaits
    · cases pc with
      | awaitReplica => exact absurd (frames_lower known.1).1.reached nofun
      | userAwait | awaitForward => trivial
      | awaitPoll all q peers =>
        obtain rfl : q = p := Option.some.inj awaits
        exact hf.imp_right (covered_skip known.2 (known.2.marked _ _ failed))
      | _ => cases awaits
  suspect g σ s p safe _ _ := reading_carries (grows_suspect σ s p) since safe
  crash g σ s safe _ := reading_carries (grows_crash σ s) since safe
  advance g σ req op stack σ' stack' safe frame known _ h := by
    refine ⟨reading_carries (grows_advance h) since safe, ?_⟩
    by_cases hread : since ≤ req ∧ (op = .userExists u ∨ op = .getUsers)
    · have hframe := frames_mono (Ψ := Reads hash u σ op)
        (fun _ _ hf => hf hread.1 hread.2) frame
      refine frames_mono (Φ := Reads hash u σ' op) (fun _ _ hf _ _ => hf) ?_
      rcases hread.2 with rfl | rfl
      · exact reads_userExists h known.1 known.2 safe hframe
      · exact reads_getUsers h known.1 known.2 safe hframe
    · exact frames_of_all (fun _ _ hs hop => absurd ⟨hs, hop⟩ hread) _

/-- **Acknowledged users survive a crash.** Once `create_user` was answered with success, every
`user_exists` that arrives later and is answered is answered with true, and every `get_users` with
a list that has the user. Every such list is strictly sorted. -/
theorem created_user_found {es es' : List Event} {w w' : World} (run : Reaches hash crashStop es w)
    (reply : Reply) (created : reply ∈ w.returned) (op : reply.op = .createUser u) {v : Value}
    (ok : reply.result = .ok v)
    (later : Run.Exec (World.step hash) (fun w e => crashStop.allows w e = true) w es' w') :
    (∀ r ∈ w'.returned, w.nextReq ≤ r.req →
      (r.op = .userExists u → r.result = .ok (.found true)) ∧
      (r.op = .getUsers → ∃ l, r.result = .ok (.sorted l) ∧ u ∈ l)) ∧
    ∀ r ∈ w'.returned, r.op = .getUsers →
      ∃ l, r.result = .ok (.sorted l) ∧ l.Pairwise (· < ·) := by
  have hsafe : w.servers.Safe (userOwner hash u) (.createUser u) .unit := by
    have hlasting := lasting_holds (fun op => ∃ u, op = .createUser u)
      (by rintro _ _ _ _ _ _ _ - ⟨u, rfl⟩ - - - -; trivial) run
    obtain ⟨req, op', result⟩ := reply
    obtain rfl : op' = .createUser u := op
    exact hlasting.returned _ created rfl _ rfl v ok ⟨u, rfl⟩
  have hstart : (reading hash u w.nextReq).Holds () w := by
    refine ⟨hsafe, fun j hj => ?_, fun r hr hsince => ?_⟩
    · have hlt := job_req_lt run j hj
      exact frames_of_all (fun _ _ hsince _ => absurd hsince (by omega)) _
    · have hlt := returned_req_lt run r hr
      omega
  have hknown : ∀ es w, Reaches hash crashStop es w →
      ∀ j ∈ w.jobs, Known hash w.servers j.req j.op j.stack ∧ w.servers.Sound :=
    fun es w run j hj => ⟨known es w run j hj, sound run⟩
  have hend := (reading_preserved w.nextReq).holds hknown run hstart later
  refine ⟨hend.returned, fun r hr hop => ?_⟩
  have hordered := (ordered_preserved hash).holds_init (g := ()) known trivial
    (reaches_any (run.append later))
  exact hordered.returned r hr (hop ▸ rfl)

def creation : List Event := asks .A (.createUser "alice") 0 6

theorem creation_runs : (outcome (fun _ => 0) crashStop .init creation).isSome = true := by decide

/-- `alice` was created at `A`, and the client was told so. -/
def aliceCreated : World := (outcome (fun _ => 0) crashStop .init creation).get creation_runs

def readsAfterCrash : List Event :=
  [.crash .A, .suspect .B .A, .suspect .C .A] ++ asks .C (.userExists "alice") 1 5 ++
    asks .B .getUsers 2 7

/-- `A` crashes, and both others find `alice`. -/
theorem created_user_found_after_crash :
    ∃ w', Reaches (fun _ => 0) crashStop (creation ++ readsAfterCrash) w' ∧
      w'.returned.map Reply.req = [0, 1, 2] ∧ ∀ r ∈ w'.returned, 1 ≤ r.req →
        (r.op = .userExists "alice" → r.result = .ok (.found true)) ∧
        (r.op = .getUsers → ∃ l, r.result = .ok (.sorted l) ∧ "alice" ∈ l) := by
  have run : Reaches (fun _ => 0) crashStop creation aliceCreated := Run.exec_get creation_runs
  obtain ⟨w', later, hreqs⟩ := Run.exec_of_test
    (fun w' : World => w'.returned.map Reply.req = [0, 1, 2])
    (by decide : (outcome (fun _ => 0) crashStop aliceCreated readsAfterCrash).any _ = true)
  have hfound := created_user_found run ⟨0, .createUser "alice", .ok .unit⟩ (by decide) rfl rfl
    later
  have hnext : aliceCreated.nextReq = 1 := by decide
  exact ⟨w', run.append later, by simpa using hreqs,
    fun r hr hlate => hfound.1 r hr (hnext ▸ hlate)⟩

end MiniDiscord.Cluster
