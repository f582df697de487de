import MiniDiscord.Pa1.Socket
import MiniDiscord.Run

/-!
# Leaving the channels

A user who is still logged in when the connection breaks is to leave all channels. `process_socket`
calls `handle_unexpected_close` after a read of length 0 and after a read error, but not where it
panics.
-/

namespace MiniDiscord.Pa1

variable {socket socket' : Socket} {e : SocketEvent} {store : AppState} {u : String}

theorem unexpectedClose_leaves (sound : socket.store.Sound) (why : Ending) (order : HashOrder) :
    ∃ store, socket.unexpectedClose why order =
        { socket with store := store, phase := .ended why } ∧ store.Sound ∧
      ∀ u ∈ socket.user, ∀ c, u ∉ store.members c := by
  unfold Socket.unexpectedClose
  cases hu : socket.user with
  | none => exact ⟨socket.store, rfl, sound, nofun⟩
  | some u =>
    obtain ⟨store, halone, sound', href⟩ := leaveAllChannels_alone sound u order
    refine ⟨store, by simp only [halone], sound', ?_⟩
    rintro v hv c hmember
    rw [← Option.mem_some_iff.mp hv, left_members href] at hmember
    exact absurd rfl (Finset.mem_erase.mp hmember).1

theorem sound_step (sound : socket.store.Sound) (taken : socket.step e = some socket') :
    socket'.store.Sound := by
  cases socket_step_cases taken with
  | handled curLine line rest phase first =>
    cases hquit : isQuit line with
    | true =>
      rw [handleLine_quit hquit]
      exact sound
    | false =>
      cases hbare : isBare line with
      | true =>
        rw [handleLine_bare hbare]
        exact sound
      | false =>
        obtain ⟨val, user, store, sound', hsends⟩ :=
          handleLine_sends sound_commands sound hbare hquit
        rw [hsends]
        exact sound'
  | received curLine bytes =>
    unfold Socket.receive
    split <;> exact sound
  | closed curLine e why order =>
    obtain ⟨store, hclose, sound', -⟩ := unexpectedClose_leaves sound why order
    rw [hclose]
    exact sound'
  | wrote | failed => exact sound

/-- Where the step ends the connection, it cleans up, or there is nothing to clean up. -/
def tidy (socket : Socket) : SocketEvent → Prop
  | .eof _ | .readError _ => True
  | _ => ∀ u ∈ socket.user, ∀ c, u ∉ socket.store.members c

theorem sound_reached {ks : List Call} {rs : List (StateResult Value)}
    (reached : callsAlone ks .new = some (rs, store)) : store.Sound := by
  obtain ⟨store', halone, sound, -⟩ := calls_refine sound_init ks
  obtain rfl : store = store' :=
    congrArg Prod.snd (Option.some.inj (reached.symm.trans halone))
  exact sound

/-- **Cleanup.** When the connection ends other than by a `QUIT` line, the user who is logged in is
afterwards in no channel if and only if the last step is tidy. -/
theorem leaves_all_channels {ks : List Call} {rs : List (StateResult Value)}
    (reached : callsAlone ks .new = some (rs, store)) {es : List SocketEvent}
    (run : Run.Exec Socket.step (fun _ _ => True) (.start store) es socket)
    (taken : socket.step e = some socket') {why : Ending} (ended : socket'.phase = .ended why)
    (unexpected : why ≠ .quit) (user : socket'.user = some u) :
    (∀ c, u ∉ socket'.store.members c) ↔ tidy socket e := by
  have sound : socket.store.Sound := run.invariant (P := fun socket => socket.store.Sound)
    (sound_reached reached) fun _ _ _ h _ => sound_step h
  -- a panic leaves the store and the user as they are
  have hpanic : socket.panic.user = some u → ((∀ c, u ∉ socket.panic.store.members c) ↔
      ∀ u ∈ socket.user, ∀ c, u ∉ socket.store.members c) := by
    intro huser
    rw [show socket.user = some u from huser]
    simp [Socket.panic]
  cases socket_step_cases taken with
  | handled curLine line rest phase first =>
    cases hquit : isQuit line with
    | true =>
      rw [handleLine_quit hquit] at ended
      exact absurd (Phase.ended.inj ended).symm unexpected
    | false =>
      cases hbare : isBare line with
      | true =>
        rw [handleLine_bare hbare] at user ⊢
        exact hpanic user
      | false =>
        obtain ⟨val, _, store, -, hsends⟩ := handleLine_sends sound_commands sound hbare hquit
        rw [hsends] at ended
        cases ended
  | received curLine bytes =>
    cases hdecode : Utf8.decode bytes with
    | none =>
      simp only [Socket.receive, hdecode] at user ⊢
      exact hpanic user
    | some text =>
      simp only [Socket.receive, hdecode] at ended
      cases ended
  | closed curLine e why' order phase _ event =>
    obtain ⟨store, hclose, -, hleft⟩ := unexpectedClose_leaves sound why' order
    have htidy : tidy socket e := by
      rcases event with rfl | rfl <;> trivial
    rw [hclose] at user ⊢
    exact iff_of_true (hleft u user) htidy
  | wrote val rest => cases ended
  | failed val rest => exact hpanic user

/-- `bob` logs in and joins `#a`. -/
def joins : List SocketEvent :=
  [.read (Utf8.encode "REGISTER bob\nLOGIN bob\nJOIN #a\n".toList), .handle, .write true, .handle,
    .write true, .handle, .write true]

/-- The names in alphabetical order. -/
def alphabetical : HashOrder := ⟨fun names => sorted.list names.val, fun _ => sorted.perm _⟩

theorem leaves_all_channels_joins : ∃ socket socket',
    Run.Exec Socket.step (fun _ _ => True) (.start .new) joins socket ∧
      "bob" ∈ socket.store.members "#a" ∧ socket.step (.eof alphabetical) = some socket' ∧
      socket'.user = some "bob" ∧ ∀ c, "bob" ∉ socket'.store.members c := by
  obtain ⟨socket, run, h⟩ := Run.exec_of_test
    (fun socket : Socket => "bob" ∈ socket.store.members "#a" ∧
      (socket.step (.eof alphabetical)).any (fun socket' =>
        socket'.phase = .ended .eof ∧ socket'.user = some "bob") = true)
    (by decide +kernel :
      (Run.run Socket.step (fun _ _ => True) (.start .new) joins).any _ = true)
  obtain ⟨hmember, heof⟩ := of_decide_eq_true h
  obtain ⟨socket', taken, hended⟩ := (Option.any_eq_true _ _).mp heof
  obtain ⟨hphase, huser⟩ := of_decide_eq_true hended
  have hnew : callsAlone [] .new = some ([], .new) := rfl
  exact ⟨socket, socket', run, hmember, taken, huser,
    (leaves_all_channels hnew run taken hphase nofun huser).mpr trivial⟩

/-- Then he sends `SEND` without anything after it. -/
def joinsAndSends : List SocketEvent := joins ++ [.read (Utf8.encode "SEND\n".toList), .handle]

theorem stays_in_channel : ∃ socket,
    Run.Exec Socket.step (fun _ _ => True) (.start .new) joinsAndSends socket ∧
      socket.phase = .ended .panicked ∧ socket.user = some "bob" ∧
      "bob" ∈ socket.store.members "#a" := by
  obtain ⟨socket, run, h⟩ := Run.exec_of_test
    (fun socket : Socket => socket.phase = .ended .panicked ∧ socket.user = some "bob" ∧
      "bob" ∈ socket.store.members "#a")
    (by decide +kernel :
      (Run.run Socket.step (fun _ _ => True) (.start .new) joinsAndSends).any _ = true)
  exact ⟨socket, run, of_decide_eq_true h⟩

end MiniDiscord.Pa1
