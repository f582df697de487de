import MiniDiscord.Middleware.Steps

/-!
# The server with the highest priority

A leader task sorts the servers that it considers alive by priority and takes the last one. As the
priorities are unique, that is the one server above all others.
-/

namespace MiniDiscord.Middleware

variable {config : Config} {id : String} {n n' : Node} {server other : String}

/-! ## The configuration -/

@[simp] theorem mem_serverIds : id ∈ serverIds config ↔ id ∈ config.map Server.id := by
  unfold serverIds
  rw [List.mem_insertionSort, List.mem_dedup]

theorem getConfigFor_some {s : Server} (h : getConfigFor config id = some s) :
    s ∈ config ∧ s.id = id := by
  unfold getConfigFor at h
  have hid := List.find?_some h
  exact ⟨List.mem_of_find?_eq_some h, by simpa using hid⟩

theorem priorityOf_entry (known : id ∈ config.map Server.id) :
    ∃ s ∈ config, s.id = id ∧ priorityOf config id = s.priority := by
  obtain ⟨entry, hentry, rfl⟩ := List.mem_map.mp known
  cases hfound : getConfigFor config entry.id with
  | none =>
    unfold getConfigFor at hfound
    have := List.find?_eq_none.mp hfound entry hentry
    simp at this
  | some s =>
    obtain ⟨hmem, hid⟩ := getConfigFor_some hfound
    exact ⟨s, hmem, hid, by simp [priorityOf, hfound]⟩

theorem priorityOf_inj (distinct : (config.map Server.priority).Nodup)
    (hserver : server ∈ config.map Server.id) (hother : other ∈ config.map Server.id)
    (same : priorityOf config server = priorityOf config other) : server = other := by
  obtain ⟨s, hs, rfl, hpriority⟩ := priorityOf_entry hserver
  obtain ⟨t, ht, rfl, hpriority'⟩ := priorityOf_entry hother
  rw [hpriority, hpriority'] at same
  rw [List.inj_on_of_nodup_map distinct hs ht same]

/-- `max_by` keeps the greater of what it has and the next entry. -/
theorem maxByPriority_append (config : Config) (s : Server) :
    maxByPriority (config ++ [s]) = match maxByPriority config with
      | some b => if b.priority ≤ s.priority then some s else some b
      | none => some s := by
  unfold maxByPriority
  rw [List.foldl_append]
  rfl

theorem maxByPriority_none (h : maxByPriority config = none) : config = [] := by
  cases config using List.reverseRecOn with
  | nil => rfl
  | append_singleton config last =>
    rw [maxByPriority_append] at h
    split at h
    · split_ifs at h
    · cases h

theorem maxByPriority_some {s : Server} (h : maxByPriority config = some s) :
    s ∈ config ∧ ∀ t ∈ config, t.priority ≤ s.priority := by
  induction config using List.reverseRecOn generalizing s with
  | nil => cases h
  | append_singleton config last ih =>
    rw [maxByPriority_append] at h
    simp only [List.mem_append, List.mem_singleton, or_imp, forall_and, forall_eq]
    cases hbest : maxByPriority config with
    | none =>
      rw [hbest] at h
      obtain rfl := Option.some.inj h
      refine ⟨Or.inr rfl, ?_, le_refl _⟩
      rw [maxByPriority_none hbest]
      exact fun t ht => absurd ht List.not_mem_nil
    | some b =>
      obtain ⟨hmem, hmax⟩ := ih hbest
      rw [hbest] at h
      simp only at h
      split_ifs at h with hle
      · obtain rfl := Option.some.inj h
        exact ⟨Or.inr rfl, fun t ht => le_trans (hmax t ht) hle, le_refl _⟩
      · obtain rfl := Option.some.inj h
        exact ⟨Or.inl hmem, hmax, le_of_lt (not_le.mp hle)⟩

/-! ## Among those alive -/

/-- The server is alive, and every other server that is alive has a lower priority. -/
structure Node.Highest (config : Config) (n : Node) (server : String) : Prop where
  known : server ∈ config.map Server.id
  alive : n.isAlive server = true
  above : ∀ other ∈ config.map Server.id, n.isAlive other = true → other ≠ server →
    priorityOf config other < priorityOf config server

theorem Node.Highest.unique (h : n.Highest config server) (h' : n.Highest config other) :
    server = other := by
  by_contra hne
  have := h.above other h'.known h'.alive (Ne.symm hne)
  have := h'.above server h.known h.alive hne
  omega

theorem best_highest (distinct : (config.map Server.priority).Nodup)
    (h : n.best config = some server) : n.Highest config server := by
  unfold Node.best at h
  obtain ⟨rest, hsorted⟩ := List.head?_eq_some_iff.mp h
  have hpairs := List.pairwise_insertionSort (fun a b => priorityOf config a ≤ priorityOf config b)
    ((serverIds config).filter n.isAlive)
  rw [← List.pairwise_reverse, hsorted, List.pairwise_cons] at hpairs
  have hmem : ∀ other, other ∈ server :: rest ↔
      other ∈ config.map Server.id ∧ n.isAlive other = true := by
    intro other
    rw [← hsorted, List.mem_reverse, List.mem_insertionSort, List.mem_filter, mem_serverIds]
  obtain ⟨hknown, halive⟩ := (hmem server).mp List.mem_cons_self
  refine ⟨hknown, halive, fun other hother hlives hne => ?_⟩
  have hrest : other ∈ rest := by
    rcases List.mem_cons.mp ((hmem other).mpr ⟨hother, hlives⟩) with heq | hrest
    · exact absurd heq hne
    · exact hrest
  refine lt_of_le_of_ne (hpairs.1 other hrest) fun same => hne ?_
  exact priorityOf_inj distinct hother hknown same

theorem best_iff (distinct : (config.map Server.priority).Nodup) :
    n.best config = some server ↔ n.Highest config server := by
  refine ⟨best_highest distinct, fun highest => ?_⟩
  cases hbest : n.best config with
  | some other => rw [(best_highest distinct hbest).unique highest]
  | none =>
    unfold Node.best at hbest
    rw [List.head?_eq_none_iff, List.reverse_eq_nil_iff] at hbest
    have hmem : server ∈ (serverIds config).filter n.isAlive :=
      List.mem_filter.mpr ⟨mem_serverIds.mpr highest.known, highest.alive⟩
    rw [← List.mem_insertionSort (fun a b => priorityOf config a ≤ priorityOf config b), hbest]
      at hmem
    cases hmem

theorem best_shrinks (distinct : (config.map Server.priority).Nodup)
    (h : n.best config = some server) (alive : n'.isAlive server = true)
    (fewer : ∀ other, n'.isAlive other = true → n.isAlive other = true) :
    n'.best config = some server := by
  have highest := best_highest distinct h
  refine (best_iff distinct).mpr ⟨highest.known, alive, fun other hother hlives hne => ?_⟩
  exact highest.above other hother (fewer other hlives) hne

theorem best_congr (same : ∀ other, n'.isAlive other = n.isAlive other) :
    n'.best config = n.best config := by
  unfold Node.best
  rw [funext same]

/-- `get_config_for` takes the first entry of an id, `SystemState::new` the highest of all entries.
An id that is listed twice can make these differ. -/
def Unambiguous (config : Config) : Prop :=
  ∀ s, maxByPriority config = some s → ∀ other ∈ config.map Server.id, other ≠ s.id →
    priorityOf config other < priorityOf config s.id

instance {config : Config} : Decidable (Unambiguous config) := by
  unfold Unambiguous
  infer_instance

theorem unambiguous_of_nodup (distinct : (config.map Server.priority).Nodup)
    (once : (config.map Server.id).Nodup) : Unambiguous config := by
  intro s hmax other hother hne
  obtain ⟨hmem, hall⟩ := maxByPriority_some hmax
  obtain ⟨first, hfirst, hid, hpriority⟩ := priorityOf_entry (List.mem_map_of_mem hmem)
  obtain ⟨t, ht, rfl, hother⟩ := priorityOf_entry hother
  rw [hother, hpriority, List.inj_on_of_nodup_map once hfirst hmem hid]
  refine lt_of_le_of_ne (hall t ht) fun same => hne ?_
  rw [List.inj_on_of_nodup_map distinct ht hmem same]

theorem init_best (distinct : (config.map Server.priority).Nodup)
    (unambiguous : Unambiguous config) (known : id ∈ config.map Server.id) :
    (Node.init config id).best config = some (Node.init config id).leader := by
  cases hmax : maxByPriority config with
  | none =>
    rw [maxByPriority_none hmax] at known
    cases known
  | some s =>
    have hleader : (Node.init config id).leader = s.id := by simp [Node.init, hmax]
    rw [hleader, best_iff distinct]
    refine ⟨List.mem_map_of_mem (maxByPriority_some hmax).1, rfl, ?_⟩
    exact fun other hother _ hne => unambiguous s hmax other hother hne

end MiniDiscord.Middleware
