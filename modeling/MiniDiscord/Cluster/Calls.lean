import Mathlib.Logic.Relation
import MiniDiscord.Cluster.Mirror
import MiniDiscord.Cluster.Users

/-!
# One request, alone, to its end

The steps of a call that no other job and no failure comes between, from the request's arrival to
its result. Rules for single steps first, then for the sections of a request, then for all of it.
-/

namespace MiniDiscord.Cluster

open DiscordStateops

/-- The steps of one stack on the servers, with no step of another between them. -/
def Leads (hash : String → ℕ) (op : Op) : Servers × List Frame → Servers × List Frame → Prop :=
  Relation.ReflTransGen fun x y => x.1.advance hash op x.2 = some y

variable {hash : String → ℕ} {σ σ' : Servers} {op : Op} {config : LocationConfig}
  {st st' : AppState} {s a dest : ServerId} {r : StateResult Value} {v : Value} {pc wait : Pc}
  {request : Request} {frames rest : List Frame} {x : Update} {u : String}

/-- What a client compares: the order of a list that comes from a hash set does not count. -/
def Value.asSet : Value → Value
  | .names all => .names all.dedup
  | .sorted all => .names (Multiset.dedup all)
  | v => v

/-- The result is that of the central store, and the servers mirror what became of it. -/
structure Served (hash : String → ℕ) (op : Op) (σ : Servers) (st : AppState) (r : StateResult Value)
    (σ' : Servers) (st' : AppState) : Prop where
  answer : ∃ r', central op st = some (r', st') ∧ r.map Value.asSet = r'.map Value.asSet
  mirrors : Mirrors hash σ' st'
  view : σ'.view = σ.view
  crashed : σ'.crashed = σ.crashed

theorem Leads.trans {x y z : Servers × List Frame} (h : Leads hash op x y)
    (h' : Leads hash op y z) :
    Leads hash op x z := Relation.ReflTransGen.trans h h'

/-! ## Single steps -/

theorem leads_call (live : σ.crashed s = false)
    (h : σ.stepCall hash op s pc = some (σ', frames)) :
    Leads hash op (σ, .call s pc :: rest) (σ', frames ++ rest) := by
  refine .single ?_
  cases pc with
  | done r => cases h
  | _ => simp [Servers.advance, live, h]

theorem leads_to {f : Frame} (live : σ.crashed s = false)
    (h : σ.stepCall hash op s pc = some (σ', [f])) :
    Leads hash op (σ, .call s pc :: rest) (σ', f :: rest) := leads_call live h

theorem leads_handled {stack : List Frame} (live : σ.crashed s = false)
    (h : σ.receive op s rest request = some (σ', stack)) :
    Leads hash op (σ, .request s request :: rest) (σ', stack) :=
  .single (by simp [Servers.advance, live, h])

theorem answer_heard (heard : σ.view s a = true) :
    σ.answer s r (.call a pc :: rest) = .response r :: .call a pc :: rest := by
  simp [Servers.answer, Servers.heard, heard]

theorem leads_respond (live : σ.crashed s = false) (heard : σ.view s a = true) :
    Leads hash op (σ, .call s (.done r) :: .call a pc :: rest)
      (σ, .response r :: .call a pc :: rest) :=
  .single (by simp [Servers.advance, live, answer_heard heard])

theorem leads_resume (live : σ.crashed s = false) (awaits : pc.awaits.isSome = true) :
    Leads hash op (σ, .response r :: .call s pc :: rest) (σ, .call s (pc.resume r) :: rest) :=
  .single (by simp [Servers.advance, live, Option.isNone_eq_false_iff.mpr awaits])

theorem lock_eq {β : Type} {f : AppState → Option (β × AppState)} {b : β}
    (unpoisoned : σ.poisoned s = false) (h : f (σ.store s) = some (b, st)) :
    σ.lock s f = (σ.setStore s st, some b) := by
  simp [Servers.lock, unpoisoned, h]

theorem lock_read_eq {β : Type} {f : AppState → β} (unpoisoned : σ.poisoned s = false) :
    (σ.lock s fun state => some (f state, state)) = (σ, some (f (σ.store s))) := by
  rw [lock_eq unpoisoned rfl, setStore_self]

theorem stepCall_check (unpoisoned : σ.poisoned s = false) :
    σ.stepCall hash op s .check = some (σ, [.call s (match op.checks (σ.store s) with
      | .ok () => .userStart
      | .error e => .done (.error e))]) := by
  simp only [Servers.stepCall]
  cases hrefusal : op.refusal .check with
  | some e => simp [checks_refusal hrefusal]
  | none =>
    simp only [lock_read_eq unpoisoned]
    cases op.checks (σ.store s) <;> rfl

theorem stepCall_commit (unpoisoned : σ.poisoned s = false)
    (h : op.locked (σ.store s) = some (r, st)) :
    σ.stepCall hash op s .commit = some (σ.setStore s st, [.call s (match r with
      | .ok v => if op.replicated then .applied v else .done (.ok v)
      | .error e => .done (.error e))]) := by
  simp only [Servers.stepCall]
  cases hrefusal : op.refusal .commit with
  | some e =>
    cases (locked_refusal hrefusal _).symm.trans h
    rw [setStore_self]
  | none =>
    simp only [lock_eq unpoisoned h]
    cases r <;> rfl

theorem receive_replicate (unpoisoned : σ.poisoned s = false)
    (h : op.replicateLocked v (σ.store s) = some (r, st)) :
    σ.receive op s rest (.replicate v) = some (σ.setStore s st, σ.answer s r rest) := by
  simp only [Servers.receive]
  cases hrefusal : op.replicaRefusal with
  | some e =>
    cases (replicateLocked_refusal hrefusal v _).symm.trans h
    rw [setStore_self]
  | none =>
    simp only [lock_eq unpoisoned h]
    rfl

/-! ## A request to a peer -/

theorem Servers.Settled.trusts (settled : σ.Settled) (live : σ.crashed s = false)
    (other : σ.crashed a = false) : σ.view s a = true := by
  rw [settled s a live, other]
  rfl

theorem leads_asked (hne : s ≠ dest) (view : σ.view s dest = true) (live : σ'.crashed s = false)
    (awaits : wait.awaits.isSome = true)
    (answers : Leads hash op (σ, .request dest request :: .call s wait :: rest)
      (σ', .response r :: .call s wait :: rest)) :
    Leads hash op (σ, σ.forwardRequestTo s dest request wait ++ rest)
      (σ', .call s (wait.resume r) :: rest) := by
  rw [Servers.forwardRequestTo, if_neg hne, if_pos view]
  exact answers.trans (leads_resume live awaits)

theorem forwardRequest_eq (settled : σ.Settled) (live : σ.crashed s = false)
    (elsewhere : s ≠ σ.authority config) {wait : ServerId → Pc} :
    σ.forwardRequest s config request wait =
      σ.forwardRequestTo s (σ.authority config) request (wait (σ.authority config)) := by
  have hview := settled s config.primary live
  unfold Servers.authority at elsewhere ⊢
  have hprimary : s ≠ config.primary := by
    rintro rfl
    simp [live] at elsewhere
  rw [Servers.forwardRequest, if_neg hprimary]
  cases hcrashed : σ.crashed config.primary <;> simp [hview, hcrashed]

/-! ## Facts about one operation -/

theorem tallied_locked (tallied : ∀ c, Tallied c st) (h : op.locked st = some (r, st')) :
    ∀ c, Tallied c st' := by
  intro c
  by_cases other : ∀ u t, op ≠ .sendMessage c u t
  · exact tallied_other (tallied c) (locked_effect h) other
  · push Not at other
    obtain ⟨u, t, rfl⟩ := other
    rcases r with e | v
    · rw [locked_send_error h]
      exact tallied c
    · exact (tallied_send (tallied c) h).2

theorem entry_username (h : op.entry ≠ .commit) :
    (op.entry = .check ∨ op.entry = .userStart ∧ ∀ st, op.checks st = .ok ()) ∧
      ∃ u, op.username? = some u := by
  cases op with
  | joinChannel u c => exact ⟨Or.inr ⟨rfl, fun _ => rfl⟩, u, rfl⟩
  | leaveChannel u c | sendMessage c u t => exact ⟨Or.inl rfl, u, rfl⟩
  | _ => exact absurd rfl h

theorem checks_commit (h : op.entry = .commit) : op.checks st = .ok () := by
  cases op with
  | joinChannel | leaveChannel | sendMessage => cases h
  | _ => rfl

theorem Served.unchanged (m : Mirrors hash σ st) (h : central op st = some (r, st)) :
    Served hash op σ st r σ st := ⟨⟨r, h, rfl⟩, m, rfl, rfl⟩

theorem mem_names : u ∈ op.names st ↔
    if op = .getChannels then ∃ ch, st.channel u = some ch else u ∈ st.users := by
  unfold Op.names
  split_ifs
  · rw [← channelExists_iff, channelExists, AppState.channel, Finmap.lookup_isSome]
    exact Finmap.mem_keys
  · exact Iff.rfl

theorem mem_sum_map {names : ServerId → Multiset String} (peers : List ServerId) :
    u ∈ (peers.map names).sum ↔ ∃ p ∈ peers, u ∈ names p := by
  induction peers with
  | nil => simp
  | cons p peers ih => simp [ih]

section Alone

variable (m : Mirrors hash σ st) (settled : σ.Settled)
include m settled

theorem authority_view (hne : config.primary ≠ config.backup) (live : σ.crashed s = false) :
    σ.view s (σ.authority config) = true :=
  settled.trusts live (authority_live m.once hne)

/-! ## The user check -/

theorem leads_userCheck (live : σ.crashed a = false) (user : op.username? = some u) :
    Leads hash op (σ, .call a .userStart :: rest)
      (σ, .call a (if u ∈ st.users then .commit else .done (.error unknownUser)) :: rest) := by
  have hauth : σ.crashed (σ.authority (userOwner hash u)) = false :=
    authority_live m.once (userOwner_ne hash u)
  have hknown := m.users u _ hauth authority_held
  by_cases hlocal : a = σ.authority (userOwner hash u)
  · have hstart :
        Leads hash op (σ, .call a .userStart :: rest) (σ, .call a .userLocal :: rest) := by
      refine leads_to live ?_
      simp [Servers.stepCall, user, (authoritative_authority settled live).mpr hlocal]
    refine hstart.trans (leads_to live ?_)
    rw [← hlocal] at hknown
    simp only [Servers.stepCall, user, Option.bind_eq_bind, Option.bind_some,
      lock_read_eq (m.unpoisoned a), DiscordStateops.userExists]
    by_cases hu : u ∈ st.users
    · simp [hu, hknown.mp hu]
    · simp [hu, mt hknown.mpr hu]
  · have hnot : σ.authoritative a (userOwner hash u) = false := by
      simpa using mt (authoritative_authority settled live).mp hlocal
    have hstart :
        Leads hash op (σ, .call a .userStart :: rest) (σ, .call a .userRoute :: rest) := by
      refine leads_to live ?_
      simp [Servers.stepCall, user, hnot]
    have hroute : Leads hash op (σ, .call a .userRoute :: rest)
        (σ, σ.forwardRequestTo a (σ.authority (userOwner hash u)) .userExists
          (.userAwait (σ.authority (userOwner hash u))) ++ rest) := by
      refine leads_call live ?_
      simp [Servers.stepCall, user, forwardRequest_eq settled live hlocal]
    have hanswers : Leads hash op
        (σ, .request (σ.authority (userOwner hash u)) .userExists ::
          .call a (.userAwait (σ.authority (userOwner hash u))) :: rest)
        (σ, .response (.ok (.found (decide (u ∈ st.users)))) ::
          .call a (.userAwait (σ.authority (userOwner hash u))) :: rest) := by
      refine leads_handled hauth ?_
      simp [Servers.receive, user, lock_read_eq (m.unpoisoned _), DiscordStateops.userExists,
        hknown, answer_heard (settled.trusts hauth live)]
    have hasked := leads_asked hlocal (authority_view m settled (userOwner_ne hash u) live) live rfl
      hanswers
    refine hstart.trans (hroute.trans ?_)
    by_cases hu : u ∈ st.users <;> simpa [hu, Pc.resume] using hasked

/-! ## The local operation and its replication -/

theorem mirrors_alone (ha : a = σ.authority config) (hne : config.primary ≠ config.backup)
    (alone : config.backup = a ∨ σ.view a config.backup = false)
    (hx : x = .keep ∨ x.owner hash = some config) (tallied : ∀ c, Tallied c (x.apply st)) :
    Mirrors hash (σ.setStore a (x.apply (σ.store a))) (x.apply st) := by
  have hlive : σ.crashed a = false := ha ▸ authority_live m.once hne
  refine m.apply hx rfl rfl (fun s => ?_) tallied
  rw [setStore_store]
  by_cases hs : s = a
  · left
    rw [hs, Function.update_self]
  · right
    refine ⟨Function.update_of_ne hs _ _, fun live => ?_⟩
    rintro (rfl | rfl)
    · exact hs (by rw [ha, Servers.authority, if_neg (by simp [live])])
    · rcases alone with heq | hfailed
      · exact hs heq
      · simp [settled _ _ hlive, live] at hfailed

omit settled in
theorem mirrors_replicated (ha : a = σ.authority config)
    (hx : x = .keep ∨ x.owner hash = some config) (tallied : ∀ c, Tallied c (x.apply st)) :
    Mirrors hash ((σ.setStore a (x.apply (σ.store a))).setStore config.backup
      (x.apply (σ.store config.backup))) (x.apply st) := by
  refine m.apply hx rfl rfl (fun s => ?_) tallied
  simp only [setStore_store]
  by_cases hbackup : s = config.backup
  · left
    rw [hbackup, Function.update_self]
  · rw [Function.update_of_ne hbackup]
    by_cases hs : s = a
    · left
      rw [hs, Function.update_self]
    · right
      refine ⟨Function.update_of_ne hs _ _, fun live held => ?_⟩
      obtain rfl := held.resolve_right hbackup
      exact hs (by rw [ha, Servers.authority, if_neg (by simp [live])])

/-- After the primary's own change a replicate request takes the same change to the backup. -/
theorem leads_replicate {σ₁ : Servers} (ha : a = σ.authority config)
    (owner : op.owner hash = some config) (hne : config.primary ≠ config.backup)
    (follows : Follows hash op st (.ok v) x) (replicated : op.replicated = true)
    (named : op.named = true) (hx : x = .keep ∨ x.owner hash = some config)
    (tallied : ∀ c, Tallied c (x.apply st)) (changed : σ₁ = σ.setStore a (x.apply (σ.store a))) :
    ∃ σ', Mirrors hash σ' (x.apply st) ∧ σ'.view = σ.view ∧ σ'.crashed = σ.crashed ∧
      ∀ rest, Leads hash op (σ₁, .call a (.applied v) :: rest)
        (σ', .call a (.done (.ok v)) :: rest) := by
  have hview₁ : σ₁.view = σ.view := by rw [changed, setStore_view]
  have hcrashed₁ : σ₁.crashed = σ.crashed := by rw [changed, setStore_crashed]
  have hlive : σ₁.crashed a = false := by
    rw [hcrashed₁, ha]
    exact authority_live m.once hne
  by_cases halone : config.backup = a ∨ σ.view a config.backup = false
  · have hmirrors := mirrors_alone m settled ha hne halone hx tallied
    rw [← changed] at hmirrors
    refine ⟨σ₁, hmirrors, hview₁, hcrashed₁, fun rest => leads_to hlive ?_⟩
    simp only [Servers.stepCall, owner, Option.bind_eq_bind, Option.bind_some, hview₁,
      if_pos halone]
  · have hsent := halone
    simp only [not_or, Bool.not_eq_false] at hsent
    obtain ⟨hother, hview⟩ := hsent
    have hbackup : σ.crashed config.backup = false := by
      rw [hcrashed₁] at hlive
      simpa [settled _ _ hlive] using hview
    have hstore : σ₁.store config.backup = σ.store config.backup := by
      rw [changed, setStore_store, Function.update_of_ne hother]
    have hreplica := follows.replica replicated named m.tallied v rfl _
      (m.agree owner hbackup (Or.inr rfl))
    rw [← hstore] at hreplica
    have hmirrors := mirrors_replicated m ha hx tallied
    rw [← changed, ← hstore] at hmirrors
    refine ⟨_, hmirrors, hview₁, hcrashed₁, fun rest => ?_⟩
    have happlied : Leads hash op (σ₁, .call a (.applied v) :: rest)
        (σ₁, σ₁.forwardRequestTo a config.backup (.replicate v) (.awaitReplica v config.backup) ++
          rest) := by
      refine leads_call hlive ?_
      simp only [Servers.stepCall, owner, Option.bind_eq_bind, Option.bind_some, hview₁,
        if_neg halone]
    have hhandled : Leads hash op
        (σ₁, .request config.backup (.replicate v) :: .call a (.awaitReplica v config.backup) ::
          rest)
        (σ₁.setStore config.backup (x.apply (σ₁.store config.backup)),
          .response (.ok v) :: .call a (.awaitReplica v config.backup) :: rest) := by
      refine leads_handled (by rwa [hcrashed₁]) ?_
      have hunpoisoned : σ₁.poisoned config.backup = false := by
        rw [changed]
        exact m.unpoisoned _
      have hheard : σ₁.view config.backup a = true := by
        rw [hview₁]
        exact settled.trusts hbackup (hcrashed₁ ▸ hlive)
      rw [receive_replicate hunpoisoned hreplica, answer_heard hheard]
    exact happlied.trans (leads_asked (Ne.symm hother) (by rwa [hview₁]) hlive rfl hhandled)

theorem leads_commit (owner : op.owner hash = some config) (hne : config.primary ≠ config.backup)
    (checks : op.checks st = .ok ()) :
    ∃ r st' σ', op.locked st = some (r, st') ∧ Mirrors hash σ' st' ∧ σ'.view = σ.view ∧
      σ'.crashed = σ.crashed ∧ ∀ rest, Leads hash op
        (σ, .call (σ.authority config) .commit :: rest)
        (σ', .call (σ.authority config) (.done r) :: rest) := by
  obtain ⟨r, st', hst'⟩ := locked_total checks m.tallied
  have howner : op.owner hash ≠ none := by
    rw [owner]
    exact Option.some_ne_none _
  obtain ⟨x, rfl, follows⟩ := locked_follows howner hst'
  have hlive : σ.crashed (σ.authority config) = false := authority_live m.once hne
  have hlock : σ.stepCall hash op (σ.authority config) .commit = _ :=
    stepCall_commit (m.unpoisoned _) (follows.local' _ (m.agree owner hlive authority_held))
  have htallied := tallied_locked m.tallied hst'
  have hx : x = .keep ∨ x.owner hash = some config := owner ▸ follows.owner.imp_right And.left
  have hkept : (op.replicated = true → ∀ v, r ≠ .ok v) → Mirrors hash
      (σ.setStore (σ.authority config) (x.apply (σ.store (σ.authority config)))) (x.apply st) := by
    intro hr
    obtain rfl : x = .keep := by
      rcases follows.owner with hkeep | ⟨-, hreplicated, v, hv⟩
      · exact hkeep
      · exact absurd hv (hr hreplicated v)
    refine m.apply hx rfl rfl (fun s => Or.inl ?_) htallied
    simp [Update.apply]
  rcases r with e | v
  · refine ⟨_, _, _, hst', hkept (fun _ v hv => by cases hv), rfl, rfl,
      fun rest => leads_to hlive hlock⟩
  · cases hreplicated : op.replicated with
    | false =>
      refine ⟨_, _, _, hst', hkept (by simp [hreplicated]), rfl, rfl,
        fun rest => leads_to hlive ?_⟩
      simpa [hreplicated] using hlock
    | true =>
      have hnamed := locked_named (checks_named checks) hreplicated hst'
      obtain ⟨σ', hmirrors, hview, hcrashed, hleads⟩ :=
        leads_replicate m settled rfl owner hne follows hreplicated hnamed hx htallied rfl
      refine ⟨_, _, σ', hst', hmirrors, hview, hcrashed, fun rest =>
        (leads_to hlive ?_).trans (hleads rest)⟩
      simpa [hreplicated] using hlock

/-! ## A request at its authority -/

omit settled in
theorem checks_agree (owner : op.owner hash = some config) (hne : config.primary ≠ config.backup) :
    op.checks (σ.store (σ.authority config)) = op.checks st := by
  have hagree := m.agree owner (authority_live m.once hne) authority_held
  cases op with
  | leaveChannel u c | sendMessage c u t =>
    have hsame : st.channel c = (σ.store (σ.authority config)).channel c := hagree
    simp [Op.checks, checkChannel, channelExists, hsame]
  | _ => rfl

theorem leads_userStart (owner : op.owner hash = some config)
    (hne : config.primary ≠ config.backup) (checks : op.checks st = .ok ())
    (hentry : op.entry ≠ .commit) :
    ∃ r σ' st', Served hash op σ st r σ' st' ∧ ∀ rest, Leads hash op
      (σ, .call (σ.authority config) .userStart :: rest)
      (σ', .call (σ.authority config) (.done r) :: rest) := by
  obtain ⟨-, u, user⟩ := entry_username hentry
  have hcheck : ∀ rest, Leads hash op (σ, .call (σ.authority config) .userStart :: rest)
      (σ, .call (σ.authority config)
        (if u ∈ st.users then .commit else .done (.error unknownUser)) :: rest) :=
    fun _ => leads_userCheck m settled (authority_live m.once hne) user
  by_cases hu : u ∈ st.users
  · have hpresent : ¬ op.Absent st := by
      rintro ⟨-, u', huser, hnot⟩
      obtain rfl := Option.some.inj (user.symm.trans huser)
      exact hnot hu
    obtain ⟨r, st', σ', hlocked, hmirrors, hview, hcrashed, hleads⟩ :=
      leads_commit m settled owner hne checks
    rw [← central_locked checks hpresent] at hlocked
    refine ⟨r, σ', st', ⟨⟨r, hlocked, rfl⟩, hmirrors, hview, hcrashed⟩, fun rest => ?_⟩
    have hfound := hcheck rest
    rw [if_pos hu] at hfound
    exact hfound.trans (hleads rest)
  · refine ⟨_, σ, st, .unchanged m (central_unknown checks ⟨hentry, u, user, hu⟩), fun rest => ?_⟩
    simpa only [if_neg hu] using hcheck rest

/-- The authority answers as the central store does. -/
theorem leads_authority (owner : op.owner hash = some config)
    (hne : config.primary ≠ config.backup) :
    ∃ r σ' st', Served hash op σ st r σ' st' ∧ ∀ rest, Leads hash op
      (σ, .call (σ.authority config) .start :: rest)
      (σ', .call (σ.authority config) (.done r) :: rest) := by
  have hlive : σ.crashed (σ.authority config) = false := authority_live m.once hne
  have hstart : ∀ rest, Leads hash op (σ, .call (σ.authority config) .start :: rest)
      (σ, .call (σ.authority config) op.entry :: rest) := fun rest => by
    refine leads_to hlive ?_
    simp [Servers.stepCall, owner, (authoritative_authority settled hlive).mpr rfl]
  by_cases hentry : op.entry = .commit
  · have hchecks : op.checks st = .ok () := checks_commit hentry
    obtain ⟨r, st', σ', hlocked, hmirrors, hview, hcrashed, hleads⟩ :=
      leads_commit m settled owner hne hchecks
    rw [← central_locked hchecks fun absent => absent.1 hentry] at hlocked
    refine ⟨r, σ', st', ⟨⟨r, hlocked, rfl⟩, hmirrors, hview, hcrashed⟩, fun rest => ?_⟩
    exact (hentry ▸ hstart rest).trans (hleads rest)
  · obtain ⟨hcheck | ⟨huser, hok⟩, -⟩ := entry_username hentry
    · rw [hcheck] at hstart
      cases hchecks : op.checks st with
      | error e =>
        refine ⟨_, σ, st, .unchanged m (central_refused hchecks), fun rest => ?_⟩
        refine (hstart rest).trans (leads_to hlive ?_)
        rw [stepCall_check (m.unpoisoned _), checks_agree m owner hne, hchecks]
      | ok _ =>
        obtain ⟨r, σ', st', hserved, hleads⟩ := leads_userStart m settled owner hne hchecks hentry
        refine ⟨r, σ', st', hserved, fun rest => ?_⟩
        have hpassed : Leads hash op (σ, .call (σ.authority config) .check :: rest)
            (σ, .call (σ.authority config) .userStart :: rest) := by
          refine leads_to hlive ?_
          rw [stepCall_check (m.unpoisoned _), checks_agree m owner hne, hchecks]
        exact (hstart rest).trans (hpassed.trans (hleads rest))
    · obtain ⟨r, σ', st', hserved, hleads⟩ :=
        leads_userStart m settled owner hne (hok st) hentry
      exact ⟨r, σ', st', hserved, fun rest => (huser ▸ hstart rest).trans (hleads rest)⟩

/-! ## A request anywhere -/

theorem leads_forwarded (live : σ.crashed s = false) (owner : op.owner hash = some config)
    (hne : config.primary ≠ config.backup) :
    ∃ r σ' st', Served hash op σ st r σ' st' ∧ ∀ rest, Leads hash op
      (σ, .request (σ.authority config) op.forwardedAs ::
        .call s (.awaitForward (σ.authority config)) :: rest)
      (σ', .response r :: .call s (.awaitForward (σ.authority config)) :: rest) := by
  have hlive : σ.crashed (σ.authority config) = false := authority_live m.once hne
  have hheard : σ.view (σ.authority config) s = true := settled.trusts hlive live
  by_cases hop : ∃ u, op = .userExists u
  · obtain ⟨u, rfl⟩ := hop
    refine ⟨_, σ, st, .unchanged m rfl, fun rest => leads_handled hlive ?_⟩
    have hagree : u ∈ st.users ↔ u ∈ (σ.store (σ.authority config)).users :=
      m.agree owner hlive authority_held
    simp [Op.forwardedAs, Op.username?, Servers.receive, lock_read_eq (m.unpoisoned _),
      DiscordStateops.userExists, hagree, answer_heard hheard]
  · have hforwarded : op.forwardedAs = .forwarded := by
      cases op with
      | userExists u => exact absurd ⟨u, rfl⟩ hop
      | _ => rfl
    obtain ⟨r, σ', st', hserved, hleads⟩ := leads_authority m settled owner hne
    refine ⟨r, σ', st', hserved, fun rest => ?_⟩
    rw [hforwarded]
    have hstarted : Leads hash op
        (σ, .request (σ.authority config) .forwarded ::
          .call s (.awaitForward (σ.authority config)) :: rest)
        (σ, .call (σ.authority config) .start ::
          .call s (.awaitForward (σ.authority config)) :: rest) := leads_handled hlive rfl
    exact hstarted.trans
      ((hleads _).trans (leads_respond (hserved.crashed ▸ hlive) (hserved.view ▸ hheard)))

theorem leads_routed (live : σ.crashed s = false) (owner : op.owner hash = some config)
    (hne : config.primary ≠ config.backup) :
    ∃ r σ' st', Served hash op σ st r σ' st' ∧ ∀ rest, Leads hash op
      (σ, .call s .start :: rest) (σ', .call s (.done r) :: rest) := by
  by_cases hlocal : s = σ.authority config
  · rw [hlocal]
    exact leads_authority m settled owner hne
  · obtain ⟨r, σ', st', hserved, hleads⟩ := leads_forwarded m settled live owner hne
    refine ⟨r, σ', st', hserved, fun rest => ?_⟩
    have hnot : σ.authoritative s config = false := by
      simpa using mt (authoritative_authority settled live).mp hlocal
    have hstart : Leads hash op (σ, .call s .start :: rest) (σ, .call s .route :: rest) := by
      refine leads_to live ?_
      simp [Servers.stepCall, owner, hnot]
    have hroute : Leads hash op (σ, .call s .route :: rest)
        (σ, σ.forwardRequestTo s (σ.authority config) op.forwardedAs
          (.awaitForward (σ.authority config)) ++ rest) := by
      refine leads_call live ?_
      simp [Servers.stepCall, owner, forwardRequest_eq settled live hlocal]
    exact hstart.trans (hroute.trans (leads_asked hlocal (authority_view m settled hne live)
      (hserved.crashed ▸ live) rfl (hleads rest)))

/-! ## A request to all servers -/

omit settled in
theorem names_known : u ∈ op.names st ↔
    ∃ p, σ.crashed p = false ∧ u ∈ op.names (σ.store p) := by
  have hne_user := userOwner_ne hash u
  have hne_channel := channelOwner_ne hash u
  simp only [mem_names]
  by_cases hop : op = .getChannels
  · simp only [if_pos hop]
    constructor
    · rintro ⟨ch, found⟩
      have hlive := authority_live m.once hne_channel
      exact ⟨_, hlive, ch, (m.channels u _ hlive authority_held).symm.trans found⟩
    · rintro ⟨p, -, ch, found⟩
      exact m.known_channels p u ch found
  · simp only [if_neg hop]
    constructor
    · intro hu
      have hlive := authority_live m.once hne_user
      exact ⟨_, hlive, (m.users u _ hlive authority_held).mp hu⟩
    · rintro ⟨p, -, hu⟩
      exact m.known_users p hu

theorem leads_poll (live : σ.crashed s = false) (peers : List ServerId)
    (hpeers : ∀ p ∈ peers, s ≠ p ∧ σ.view s p = true) (all : Multiset String) :
    Leads hash op (σ, .call s (.poll all peers) :: rest)
      (σ, .call s (.done (.ok (.sorted (dedup (sortNames
        (all + (peers.map fun p => op.names (σ.store p)).sum)))))) :: rest) := by
  induction peers generalizing all with
  | nil =>
    refine leads_to live ?_
    simp [Servers.stepCall]
  | cons p peers ih =>
    obtain ⟨hne, hview⟩ := hpeers p (List.mem_cons_self ..)
    have hp : σ.crashed p = false := by simpa [settled s p live] using hview
    have hpoll : Leads hash op (σ, .call s (.poll all (p :: peers)) :: rest)
        (σ, σ.forwardRequestTo s p .listNames (.awaitPoll all p peers) ++ rest) :=
      leads_call live rfl
    have hanswers :
        Leads hash op (σ, .request p .listNames :: .call s (.awaitPoll all p peers) :: rest)
        (σ, .response (.ok (.names (op.names (σ.store p)))) ::
          .call s (.awaitPoll all p peers) :: rest) := by
      refine leads_handled hp ?_
      simp only [Servers.receive, lock_read_eq (m.unpoisoned p),
        answer_heard (settled.trusts hp live)]
    have hrest := ih (fun q hq => hpeers q (List.mem_cons_of_mem _ hq))
      (all + op.names (σ.store p))
    rw [add_assoc, ← List.sum_cons, ← List.map_cons (f := fun p => op.names (σ.store p))] at hrest
    exact hpoll.trans ((leads_asked hne hview live rfl hanswers).trans hrest)

theorem mem_polled (live : σ.crashed s = false) :
    u ∈ op.names (σ.store s) + ((σ.alivePeers s).map fun p => op.names (σ.store p)).sum ↔
      u ∈ op.names st := by
  rw [Multiset.mem_add, mem_sum_map, names_known m]
  constructor
  · rintro (hu | ⟨p, hp, hu⟩)
    · exact ⟨s, live, hu⟩
    · have hview := (mem_alivePeers.mp hp).2
      exact ⟨p, by simpa [settled s p live] using hview, hu⟩
  · rintro ⟨p, hp, hu⟩
    by_cases hs : p = s
    · exact Or.inl (hs ▸ hu)
    · exact Or.inr ⟨p, mem_alivePeers.mpr ⟨hs, by rw [settled s p live, hp]; rfl⟩, hu⟩

theorem leads_everywhere (live : σ.crashed s = false) (owner : op.owner hash = none) :
    ∃ r σ' st', Served hash op σ st r σ' st' ∧ ∀ rest, Leads hash op
      (σ, .call s .start :: rest) (σ', .call s (.done r) :: rest) := by
  have hanswer : central op st = some (.ok (.names (op.names st)), st) := by
    cases op with
    | getUsers | getChannels => rfl
    | _ => cases owner
  refine ⟨.ok (.sorted (dedup (sortNames (op.names (σ.store s) +
    ((σ.alivePeers s).map fun p => op.names (σ.store p)).sum)))), σ, st,
    ⟨⟨_, hanswer, ?_⟩, m, rfl, rfl⟩, fun rest => ?_⟩
  · have hsame : (dedup (sortNames (op.names (σ.store s) +
        ((σ.alivePeers s).map fun p => op.names (σ.store p)).sum)) : Multiset String).dedup =
          (op.names st).dedup :=
      Multiset.dedup_ext.mpr fun u => by
        rw [Multiset.mem_coe, mem_dedup_sortNames, mem_polled m settled live]
    simp only [Except.map, Value.asSet, hsame]
  · have hstart : Leads hash op (σ, .call s .start :: rest)
        (σ, .call s (.pollOwn (σ.alivePeers s)) :: rest) := by
      refine leads_to live ?_
      simp only [Servers.stepCall, owner]
    have hown : Leads hash op (σ, .call s (.pollOwn (σ.alivePeers s)) :: rest)
        (σ, .call s (.poll (op.names (σ.store s)) (σ.alivePeers s)) :: rest) := by
      refine leads_to live ?_
      simp only [Servers.stepCall, lock_read_eq (m.unpoisoned s)]
    refine hstart.trans (hown.trans (leads_poll m settled live _ (fun p hp => ?_) _))
    obtain ⟨hne, hview⟩ := mem_alivePeers.mp hp
    exact ⟨Ne.symm hne, hview⟩

/-- **One request.** Whichever running server it is sent to, it is answered as the central store
would answer it. -/
theorem leads_done (op : Op) (live : σ.crashed s = false) :
    ∃ r σ' st', Served hash op σ st r σ' st' ∧
      Leads hash op (σ, [.call s .start]) (σ', [.call s (.done r)]) := by
  cases owner : op.owner hash with
  | none =>
    obtain ⟨r, σ', st', hserved, hleads⟩ := leads_everywhere m settled live owner
    exact ⟨r, σ', st', hserved, hleads []⟩
  | some config =>
    have hne : config.primary ≠ config.backup := owner_ne owner
    obtain ⟨r, σ', st', hserved, hleads⟩ := leads_routed m settled live owner hne
    exact ⟨r, σ', st', hserved, hleads []⟩

end Alone

end MiniDiscord.Cluster
