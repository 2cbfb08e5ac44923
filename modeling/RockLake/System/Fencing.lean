import RockLake.System.Stores

/-! Writer fencing across any interleaving of stores. Once a later open has stored its epoch, no
commit of an earlier store goes through, and its other calls change at most the one row outside
the snapshots that they name. -/
namespace RockLake.System

variable {env : Env} {s t : System}

theorem Step.handle_epoch (opened : s.handles i = some h) (own : h.epoch = some epoch)
    (stepped : Step env s event t) :
    ∃ h', t.handles i = some h' ∧ h'.epoch = some epoch := by
  have replaced : ∀ {k : Nat} {new : Handle}, (k = i → new.epoch = some epoch) →
      ∃ h', Function.update s.handles k (some new) i = some h' ∧ h'.epoch = some epoch := by
    intro k new same
    by_cases equal : k = i
    · subst equal
      exact ⟨new, Function.update_self .., same rfl⟩
    · exact ⟨h, (Function.update_of_ne (Ne.symm equal) _ _).trans opened, own⟩
  cases stepped with
  | load unused =>
    refine replaced fun same => ?_
    rw [same, opened] at unused
    contradiction
  | acquire opening =>
    refine replaced fun same => ?_
    rw [same, opened] at opening
    cases opening
    contradiction
  | finish opening =>
    refine replaced fun same => ?_
    rw [same, opened] at opening
    cases opening
    exact own
  | commitWriter ready =>
    refine replaced fun same => ?_
    rw [same, opened] at ready
    cases ready
    exact own
  | beginWrite | call | commit | reject => exact ⟨h, opened, own⟩

/-- From one point of a run to a later one, epochs of handles stay and the stored epoch grows. -/
theorem run_epochs (registered : s.Registered) (ran : Run (Step env) s events t) :
    s.storedEpoch ≤ t.storedEpoch ∧ ∀ i h epoch, s.handles i = some h → h.epoch = some epoch →
      ∃ h', t.handles i = some h' ∧ h'.epoch = some epoch := by
  refine ran.relates Registered
    (fun s t => s.storedEpoch ≤ t.storedEpoch ∧ ∀ i h epoch, s.handles i = some h →
      h.epoch = some epoch → ∃ h', t.handles i = some h' ∧ h'.epoch = some epoch)
    ?_ ?_ (fun _ _ _ before stepped => before.step stepped) ?_ registered
  · exact fun _ => ⟨le_rfl, fun i h epoch opened own => ⟨h, opened, own⟩⟩
  · rintro _ _ _ ⟨grown, kept⟩ ⟨grown', kept'⟩
    refine ⟨grown.trans grown', fun i h epoch opened own => ?_⟩
    obtain ⟨h', opened', own'⟩ := kept i h epoch opened own
    exact kept' i h' epoch opened' own'
  · exact fun _ _ _ before stepped =>
      ⟨stepped.epoch_le before, fun i h epoch opened own => stepped.handle_epoch opened own⟩

/-- A writer whose epoch is not the stored one changes at most the target of the call. -/
theorem Step.stale (obtained : s.writers j = some w) (stale : w.writer.writerEpoch < s.storedEpoch)
    (called : event.writer = some j) (stepped : Step env s event t)
    (other : event.target env ≠ some (f, k)) : t.db.get f k = s.db.get f k := by
  cases stepped with
  | @call _ w' call obtained' =>
    exact CatalogWriter.call_get call other
  | @commit _ w' request result db obtained' created =>
    cases called
    rw [obtained] at obtained'
    cases obtained'
    obtain ⟨⟨epoch, _⟩, _⟩ := (w.writer.createSnapshot_ok s.db).mp created
    simp [storedEpoch, epoch] at stale
  | reject => rfl
  | load | acquire | finish | beginWrite | commitWriter => contradiction

/-- Writer fencing: a store is opened, later another open acquires its epoch, and after anything
that follows, a call on a writer of the first store changes at most its target. -/
theorem earlier_store_fenced {start before after : System} {opening later : List SystemEvent}
    {event : SystemEvent} {i j k epoch : Nat} {nonce : String} {h : Handle}
    {w : WriterHandle} (ran : Run (Step env) empty opening start)
    (opened : start.handles i = some h) (own : h.epoch = some epoch)
    (acquired : Step env start (.acquire k nonce) before) (ran' : Run (Step env) before later s)
    (obtained : s.writers j = some w) (owner : w.handle = i) (called : event.writer = some j)
    (stepped : Step env s event after) (f : Family) (key : Key)
    (other : event.target env ≠ some (f, key)) : after.db.get f key = s.db.get f key := by
  have registered := empty_registered.run ran
  have registered' := registered.step acquired
  obtain ⟨h₁, opened₁, own₁⟩ := acquired.handle_epoch opened own
  obtain ⟨grown, kept⟩ := run_epochs registered' ran'
  obtain ⟨h₂, opened₂, own₂⟩ := kept i h₁ epoch opened₁ own₁
  obtain ⟨store, ready, same⟩ := (registered'.run ran').owner j w obtained
  have current : w.writer.writerEpoch = epoch := by
    rw [owner, opened₂] at ready
    cases ready
    exact same.trans (Option.some.inj own₂)
  have advanced := acquired.acquire_lt
  have bound : epoch ≤ start.storedEpoch := registered.epoch i h epoch opened own
  exact stepped.stale obtained (by omega) called other

/-- Store 0 is opened and hands out writer 0, then store 1 acquires the next epoch and a commit of
writer 0 is rejected. -/
theorem earlier_store_fenced_commit : ∃ start before s after : System,
    Run (Step Env.trivial) empty [.load 0, .acquire 0 "a", .finish 0, .load 1] start ∧
    (∃ h, start.handles 0 = some h ∧ h.epoch = some 1) ∧
    Step Env.trivial start (.acquire 1 "b") before ∧
    Run (Step Env.trivial) before [.beginWrite 0 0] s ∧
    (∃ w, s.writers 0 = some w ∧ w.handle = 0) ∧
    Step Env.trivial s (.createSnapshot 0 {}) after ∧
    ∀ f key, after.db.get f key = s.db.get f key := by
  have ran : Run (Step Env.trivial) empty [.load 0, .acquire 0 "a", .finish 0, .load 1] _ :=
    .next (.load rfl rfl) (.next (.acquire rfl rfl) (.next (.finish rfl) (.next (.load rfl rfl) .done)))
  refine ⟨_, _, _, _, ran, ⟨_, rfl, rfl⟩, .acquire rfl rfl, .next (.beginWrite rfl rfl) .done,
    ⟨_, rfl, rfl⟩, .reject rfl rfl, fun f key => ?_⟩
  exact earlier_store_fenced ran rfl rfl (.acquire rfl rfl) (.next (.beginWrite rfl rfl) .done) rfl rfl rfl
    (.reject rfl rfl : Step Env.trivial _ (.createSnapshot 0 {}) _) f key (by simp [SystemEvent.target])

/-- Statistics are written without a look at the epoch. -/
theorem earlier_store_writes_stats : ∃ start before after : System,
    Run (Step Env.trivial) empty
      [.load 0, .acquire 0 "a", .finish 0, .beginWrite 0 0, .load 1] start ∧
    Step Env.trivial start (.acquire 1 "b") before ∧
    Step Env.trivial before (.call 0 (.direct (.updateTableStats 1 10 10 100))) after ∧
    before.db.get .tableStats (keyTableStats 1) = none ∧
    (after.db.get .tableStats (keyTableStats 1)).map (·.recordCount) = some 10 := by
  refine ⟨_, _, _, .next (.load rfl rfl) (.next (.acquire rfl rfl) (.next (.finish rfl)
    (.next (.beginWrite rfl rfl) (.next (.load rfl rfl) .done)))), .acquire rfl rfl, .call rfl, ?_, ?_⟩
  · decide
  · decide

end RockLake.System
