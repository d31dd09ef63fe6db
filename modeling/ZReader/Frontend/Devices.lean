import ZReader.Frontend.OfflineQueue
import ZReader.Handlers.Progress

namespace ZReader.Frontend

open Lib.Utf8 Lib.Strings Lib.Transition Storage Handlers

/-! ## Backups -/

namespace Client

/-- The snapshot of the book is in the local storage, or a run is sending it. -/
def Holds (c : Client) (id : Bytes) (x : OfflineSnapshot) : Prop :=
  c.store.snapshots id = some x ∨ ∃ run ∈ c.runs, run.id = id ∧ run.cached = x

/-- Some snapshot of the book has not been settled. -/
def unsettled (c : Client) (id : Bytes) : Bool :=
  (c.store.snapshots id).isSome || c.runs.any (·.id = id)

theorem Holds.unsettled {c : Client} {id : Bytes} {x : OfflineSnapshot} (h : c.Holds id x) :
    c.unsettled id = true := by
  rw [Client.unsettled, Bool.or_eq_true, List.any_eq_true]
  rcases h with hstored | ⟨run, hrun, hid, -⟩
  · left
    rw [hstored]
    rfl
  · right
    exact ⟨run, hrun, decide_eq_true hid⟩

/-- A run that goes on sends nothing but stored snapshots. -/
theorem holds_of_advance {c : Client} {store : LocalStorage} {account : Bytes}
    {rest nextQueue : List Bytes} {id : Bytes} {x : OfflineSnapshot}
    (h : Holds { c with
      store := (advance store account rest nextQueue).2
      runs := c.runs ++ (advance store account rest nextQueue).1.toList } id x) :
    Holds { c with store := store } id x := by
  rcases advance_cases store account rest nextQueue with ⟨run, hrun, -, hcached⟩ | ⟨queue, hend⟩
  · rw [hrun] at h
    rcases h with hstored | ⟨run', hmem, hid, hx⟩
    · exact Or.inl hstored
    · rcases List.mem_append.mp hmem with hmem | hmem
      · exact Or.inr ⟨run', hmem, hid, hx⟩
      · have hnew : run' = run := by simpa using hmem
        left
        rw [← hid, ← hx, hnew]
        exact hcached
  · rw [hend] at h
    rcases h with hstored | ⟨run', hmem, hid, hx⟩
    · exact Or.inl hstored
    · exact Or.inr ⟨run', by simpa using hmem, hid, hx⟩

theorem holds_of_removeSnapshot {c : Client} {id id' : Bytes} {x : OfflineSnapshot}
    (h : Holds { c with store := c.store.removeSnapshot id' } id x) : c.Holds id x := by
  rcases h with hstored | hrun
  · left
    by_cases hid : id = id'
    · rw [hid] at hstored
      simp [LocalStorage.removeSnapshot] at hstored
    · simpa [LocalStorage.removeSnapshot, Function.update_of_ne hid] using hstored
  · exact Or.inr hrun

theorem holds_of_backUp {c : Client} {id id' : Bytes} {x y : OfflineSnapshot}
    (h : Holds { c with store := c.store.backUp id' y } id x) :
    c.Holds id x ∨ id = id' ∧ x = y := by
  rcases h with hstored | hrun
  · by_cases hid : id = id'
    · right
      rw [hid] at hstored
      simp only [LocalStorage.backUp, Function.update_self, Option.some.injEq] at hstored
      exact ⟨hid, hstored.symm⟩
    · left
      left
      simpa [LocalStorage.backUp, Function.update_of_ne hid] using hstored
  · exact Or.inl (Or.inr hrun)

/-- A save that fails without an answer makes a new snapshot; no other step does. -/
theorem holds_of_step {c c' : Client} {a : Action} {id : Bytes} {x : OfflineSnapshot}
    (hstep : c.step a = some c') (h : c'.Holds id x) :
    c.Holds id x ∨ ∃ i call now, a = .saveAnswered i .network now ∧ c.saves[i]? = some call ∧
      call.bookID = id ∧ x.updatedAt = now ∧ x.deviceID = call.deviceID := by
  cases a with
  | signIn account =>
      cases hstep
      exact Or.inl h
  | saveProgress call =>
      cases hstep
      exact Or.inl h
  | saveAnswered i answer now =>
      rw [step, Option.map_eq_some_iff] at hstep
      obtain ⟨call, hi, rfl⟩ := hstep
      cases answer with
      | ok => exact Or.inl h
      | status code => exact Or.inl h
      | network =>
          rcases holds_of_backUp h with hold | ⟨hid, rfl⟩
          · exact Or.inl hold
          · exact Or.inr ⟨i, call, now, rfl, hi, hid.symm, rfl, rfl⟩
  | syncOfflineProgressQueue =>
      left
      rw [step, Option.some.injEq] at hstep
      rw [← hstep, startSync] at h
      split at h
      · exact h
      · exact h
      · exact holds_of_advance h
  | syncAnswered i answer =>
      left
      rw [step, Option.map_eq_some_iff] at hstep
      obtain ⟨run, hi, rfl⟩ := hstep
      have herased : Holds { c with runs := c.runs.eraseIdx i } id x := by
        cases answer with
        | ok => exact holds_of_removeSnapshot (holds_of_advance h)
        | status code => exact holds_of_removeSnapshot (holds_of_advance h)
        | network => exact h
      rcases herased with hstored | ⟨run', hmem, hrun⟩
      · exact Or.inl hstored
      · exact Or.inr ⟨run', List.mem_of_mem_eraseIdx hmem, hrun⟩

theorem mem_saves_of_step {c c' : Client} {a : Action} {call : SaveCall}
    (hstep : c.step a = some c') (h : call ∈ c'.saves) : call ∈ c.saves ∨ a = .saveProgress call := by
  cases a with
  | signIn account =>
      cases hstep
      exact Or.inl h
  | saveProgress new =>
      cases hstep
      rcases List.mem_append.mp h with h | h
      · exact Or.inl h
      · rw [List.mem_singleton.mp h]
        exact Or.inr rfl
  | saveAnswered i answer now =>
      rw [step, Option.map_eq_some_iff] at hstep
      obtain ⟨sent, hi, rfl⟩ := hstep
      left
      apply List.mem_of_mem_eraseIdx
      cases answer with
      | ok => exact h
      | status code => exact h
      | network => exact h
  | syncOfflineProgressQueue =>
      left
      rw [step, Option.some.injEq] at hstep
      rw [← hstep, startSync] at h
      split at h
      · exact h
      · exact h
      · exact h
  | syncAnswered i answer =>
      rw [step, Option.map_eq_some_iff] at hstep
      obtain ⟨run, hi, rfl⟩ := hstep
      left
      cases answer with
      | ok => exact h
      | status code => exact h
      | network => exact h

end Client

/-! ## Devices -/

/-- The devices of a user, in front of one server. All clocks agree: no reading of any
of them is before an earlier one. -/
structure Fleet (D : Type) where
  userID : Bytes
  signedIn : userID ≠ []
  deviceID : D → Bytes
  clients : D → Client
  db : Tx
  clock : Time

namespace Fleet

variable {D : Type} [DecidableEq D]

inductive Action (D : Type)
  | saveProgress (d : D) (bookID cfi : Bytes) (percentage : ℚ)
  /-- A save reaches the server, with whatever version the device knows. -/
  | saveProcessed (d : D) (i : Nat) (expectedUpdatedAt : Option Time) (now : Time)
  | saveAnswered (d : D) (i : Nat) (answer : Answer) (now : Time)
  | syncOfflineProgressQueue (d : D)
  | syncProcessed (d : D) (i : Nat) (now : Time)
  | syncAnswered (d : D) (i : Nat) (answer : Answer)

def act (s : Fleet D) (d : D) (a : Frontend.Action) : Option (Fleet D) :=
  ((s.clients d).step a).map fun c => { s with clients := Function.update s.clients d c }

/-- The handler takes its time and stores the record. -/
def commit (s : Fleet D) (id : Bytes) (req : ProgressRequest) (now : Time) : Fleet D :=
  { s with db := (Handlers.saveProgress id s.userID req now s.db).1, clock := now }

def step (s : Fleet D) : Action D → Option (Fleet D)
  | .saveProgress d bookID cfi percentage =>
      s.act d (.saveProgress ⟨bookID, cfi, percentage, s.deviceID d⟩)
  | .saveProcessed d i expected now =>
      if s.clock.nanos ≤ now.nanos then
        ((s.clients d).saves[i]?).map fun call =>
          s.commit call.bookID ⟨call.cfi, call.percentage, call.deviceID, expected⟩ now
      else none
  | .saveAnswered d i answer now =>
      if s.clock.nanos ≤ now.nanos then { s with clock := now }.act d (.saveAnswered i answer now)
      else none
  | .syncOfflineProgressQueue d => s.act d .syncOfflineProgressQueue
  | .syncProcessed d i now =>
      if s.clock.nanos ≤ now.nanos then
        ((s.clients d).runs[i]?).map fun run =>
          s.commit run.id ⟨run.cached.cfi, run.cached.percentage, run.cached.deviceID, none⟩ now
      else none
  | .syncAnswered d i answer => s.act d (.syncAnswered i answer)

def record (s : Fleet D) (id : Bytes) : Option Progress :=
  s.db.progress.get (progressKey s.userID id)

/-- A snapshot that is synchronised leaves a later record of another device alone. -/
def NewerKept (s : Fleet D) : Action D → Fleet D → Prop
  | .syncProcessed d i _, s' => ∀ run ∈ (s.clients d).runs[i]?, ∀ p ∈ s.record run.id,
      p.deviceID ≠ trimSpace run.cached.deviceID →
        run.cached.updatedAt.nanos < p.updatedAt.nanos → s'.record run.id = some p
  | _, _ => True

/-- No other device has an unsettled snapshot of the book. -/
def Alone (s : Fleet D) (d : D) (id : Bytes) : Prop :=
  ∀ d', trimSpace (s.deviceID d') ≠ trimSpace (s.deviceID d) → (s.clients d').unsettled id = false

/-- A device writes to the server only while it is alone with the book. -/
def Exclusive (s : Fleet D) : Action D → Prop
  | .saveProcessed d i _ _ => ∀ call ∈ (s.clients d).saves[i]?, s.Alone d call.bookID
  | .syncProcessed d i _ => ∀ run ∈ (s.clients d).runs[i]?, s.Alone d run.id
  | _ => True

instance [Fintype D] (s : Fleet D) (d : D) (id : Bytes) : Decidable (s.Alone d id) :=
  inferInstanceAs (Decidable (∀ d', trimSpace (s.deviceID d') ≠ trimSpace (s.deviceID d) →
    (s.clients d').unsettled id = false))

instance [Fintype D] (s : Fleet D) : (a : Action D) → Decidable (s.Exclusive a)
  | .saveProcessed d i _ _ => inferInstanceAs (Decidable
      (∀ call ∈ (s.clients d).saves[i]?, s.Alone d call.bookID))
  | .syncProcessed d i _ => inferInstanceAs (Decidable
      (∀ run ∈ (s.clients d).runs[i]?, s.Alone d run.id))
  | .saveProgress _ _ _ _ | .saveAnswered _ _ _ _ | .syncOfflineProgressQueue _
  | .syncAnswered _ _ _ => isTrue trivial

/-- Any reachable database whose records are not from the future, and devices that have
nothing to send. -/
def Started (s : Fleet D) : Prop :=
  Reached s.db ∧ (∀ k p, s.db.progress.get k = some p → p.updatedAt.nanos ≤ s.clock.nanos) ∧
    ∀ d, s.clients d = .start s.userID

/-! ## Runs -/

structure Sound (s : Fleet D) : Prop where
  reached : Reached s.db
  past : ∀ k p, s.db.progress.get k = some p → p.updatedAt.nanos ≤ s.clock.nanos
  saves : ∀ d, ∀ call ∈ (s.clients d).saves, call.deviceID = s.deviceID d
  owned : ∀ d id x, (s.clients d).Holds id x → x.deviceID = s.deviceID d
  newest : ∀ d id x, (s.clients d).Holds id x → ∀ p, s.record id = some p →
    p.deviceID ≠ trimSpace (s.deviceID d) → p.updatedAt.nanos ≤ x.updatedAt.nanos

omit [DecidableEq D] in
theorem Started.sound {s : Fleet D} (h : s.Started) : s.Sound := by
  obtain ⟨hreached, hpast, hstart⟩ := h
  have hnone : ∀ d id x, ¬ (s.clients d).Holds id x := by
    intro d id x hx
    rw [hstart d] at hx
    simp [Client.Holds, Client.start, LocalStorage.empty] at hx
  refine ⟨hreached, hpast, ?_, fun d id x hx => absurd hx (hnone d id x),
    fun d id x hx => absurd hx (hnone d id x)⟩
  intro d call hcall
  rw [hstart d] at hcall
  simp [Client.start] at hcall

omit [DecidableEq D] in
theorem Sound.tick {s : Fleet D} (h : s.Sound) {now : Time} (hnow : s.clock.nanos ≤ now.nanos) :
    Sound { s with clock := now } :=
  ⟨h.reached, fun k p hp => (h.past k p hp).trans hnow, h.saves, h.owned, h.newest⟩

/-- A step of one device. A new snapshot has the time of the clock, which no record is
later than. -/
theorem Sound.act {s s' : Fleet D} (h : s.Sound) {d : D} {a : Frontend.Action}
    (hstep : s.act d a = some s') (hnow : ∀ i now, a = .saveAnswered i .network now → now = s.clock)
    (hcall : ∀ call, a = .saveProgress call → call.deviceID = s.deviceID d) : s'.Sound := by
  rw [Fleet.act, Option.map_eq_some_iff] at hstep
  obtain ⟨c, hc, rfl⟩ := hstep
  have hholds : ∀ d' id x, (Function.update s.clients d c d').Holds id x →
      (s.clients d').Holds id x ∨ x.deviceID = s.deviceID d' ∧ x.updatedAt = s.clock := by
    intro d' id x hx
    by_cases hd : d' = d
    · subst hd
      rw [Function.update_self] at hx
      rcases Client.holds_of_step hc hx with hold | ⟨i, call, now, ha, hi, -, htime, hdevice⟩
      · exact Or.inl hold
      · right
        rw [hdevice, htime, hnow i now ha]
        exact ⟨h.saves d' call (List.mem_of_getElem? hi), rfl⟩
    · rw [Function.update_of_ne hd] at hx
      exact Or.inl hx
  refine ⟨h.reached, h.past, ?_, ?_, ?_⟩
  · intro d' call hmem
    by_cases hd : d' = d
    · subst hd
      simp only [Function.update_self] at hmem
      rcases Client.mem_saves_of_step hc hmem with hold | ha
      · exact h.saves d' call hold
      · exact hcall call ha
    · simp only [Function.update_of_ne hd] at hmem
      exact h.saves d' call hmem
  · intro d' id x hx
    rcases hholds d' id x hx with hold | hnew
    · exact h.owned d' id x hold
    · exact hnew.1
  · intro d' id x hx p hp hdevice
    rcases hholds d' id x hx with hold | hnew
    · exact h.newest d' id x hold p hp hdevice
    · rw [hnew.2]
      exact h.past _ p hp

omit [DecidableEq D] in
/-- A write of a device that is alone with the book. -/
theorem Sound.commit {s : Fleet D} (h : s.Sound) {d : D} {id : Bytes} (halone : s.Alone d id)
    {req : ProgressRequest} (hreq : req.deviceID = s.deviceID d) {now : Time}
    (hnow : s.clock.nanos ≤ now.nanos) : (s.commit id req now).Sound := by
  have hreached : Reached (Handlers.saveProgress id s.userID req now s.db).1 :=
    saveProgress_reached h.reached s.signedIn
  have hsaves : Saves id s.userID req now s.db (Handlers.saveProgress id s.userID req now s.db) :=
    saveProgress_saves h.reached s.signedIn
  rw [Fleet.commit]
  generalize Handlers.saveProgress id s.userID req now s.db = r at hreached hsaves
  cases hsaves with
  | refused hconflict => exact h.tick hnow
  | saved htime hdevice hstored =>
      refine ⟨hreached, ?_, h.saves, h.owned, ?_⟩
      · intro k p hp
        rw [hstored] at hp
        split at hp
        · cases hp
          rw [htime]
        · exact (h.past k p hp).trans hnow
      · intro d' id' x hx p hp hother
        rw [record, hstored] at hp
        split at hp
        · next hkey =>
          cases hp
          have hid : id = id' := List.append_cancel_left hkey
          subst hid
          rw [hdevice, hreq] at hother
          have hsettled := halone d' hother.symm
          rw [hx.unsettled] at hsettled
          cases hsettled
        · exact h.newest d' id' x hx p hp hother

theorem Sound.step {s s' : Fleet D} {a : Action D} (h : s.Sound)
    (hstep : Steps step Exclusive s a s') : s'.Sound := by
  obtain ⟨hok, hstep⟩ := hstep
  cases a with
  | saveProgress d bookID cfi percentage =>
      refine h.act hstep (by simp) ?_
      rintro call ⟨⟩
      rfl
  | saveProcessed d i expected now =>
      rw [Fleet.step] at hstep
      split at hstep
      · next hnow =>
        rw [Option.map_eq_some_iff] at hstep
        obtain ⟨call, hi, rfl⟩ := hstep
        exact h.commit (hok call hi) (h.saves d call (List.mem_of_getElem? hi)) hnow
      · cases hstep
  | saveAnswered d i answer now =>
      rw [Fleet.step] at hstep
      split at hstep
      · next hnow =>
        refine (h.tick hnow).act hstep ?_ (by simp)
        rintro i now ⟨⟩
        rfl
      · cases hstep
  | syncOfflineProgressQueue d => exact h.act hstep (by simp) (by simp)
  | syncProcessed d i now =>
      rw [Fleet.step] at hstep
      split at hstep
      · next hnow =>
        rw [Option.map_eq_some_iff] at hstep
        obtain ⟨run, hi, rfl⟩ := hstep
        have hheld : (s.clients d).Holds run.id run.cached :=
          Or.inr ⟨run, List.mem_of_getElem? hi, rfl, rfl⟩
        exact h.commit (hok run hi) (h.owned d _ _ hheld) hnow
      · cases hstep
  | syncAnswered d i answer => exact h.act hstep (by simp) (by simp)

/-- As long as devices write only while they are alone with the book, a synchronised
snapshot never takes the place of a later record of another device. -/
theorem exclusive_newerKept {s : Fleet D} (h : Reachable Started (Steps step Exclusive) s) :
    ∀ a s', Steps step Exclusive s a s' → NewerKept s a s' := by
  have hsound : s.Sound :=
    h.invariant Sound (fun _ hs => hs.sound) (fun _ _ _ hs hstep => hs.step hstep)
  intro a s' _
  cases a with
  | syncProcessed d i now =>
      intro run hi p hp hother hlater
      have hheld : (s.clients d).Holds run.id run.cached :=
        Or.inr ⟨run, List.mem_of_getElem? hi, rfl, rfl⟩
      rw [hsound.owned d _ _ hheld] at hother
      have hle := hsound.newest d _ _ hheld p hp hother
      omega
  | saveProgress d bookID cfi percentage => trivial
  | saveProcessed d i expected now => trivial
  | saveAnswered d i answer now => trivial
  | syncOfflineProgressQueue d => trivial
  | syncAnswered d i answer => trivial

/-- Two devices with an uploaded book that nobody has read. -/
def twoDevices : Fleet Bool where
  userID := ascii "u"
  signedIn := by decide
  deviceID := fun d => if d then ascii "phone" else ascii "tablet"
  clients := fun _ => .start (ascii "u")
  db := uploaded
  clock := ⟨10 ^ 18⟩

theorem twoDevices_started : twoDevices.Started := by
  refine ⟨uploaded_reached, ?_, fun _ => rfl⟩
  intro k p hp
  have hnone : twoDevices.db.progress.get k = none := uploaded_unread k
  rw [hnone] at hp
  cases hp

/-- The tablet saves, the phone makes a backup later and synchronises it. -/
theorem exclusive_save_sync :
    ∃ s : Fleet Bool, Reachable Started (Steps step Exclusive) s ∧
      (s.record (ascii "b")).map (·.deviceID) = some (ascii "tablet") ∧
      (s.clients true).runs.length = 1 ∧
      ∀ a s', Steps step Exclusive s a s' → NewerKept s a s' := by
  have hrun : (replay step Exclusive twoDevices
      [.saveProgress false (ascii "b") (ascii "y") 20, .saveProcessed false 0 none ⟨10 ^ 18 + 1⟩,
        .saveAnswered false 0 .ok ⟨10 ^ 18 + 2⟩, .saveProgress true (ascii "b") (ascii "x") 10,
        .saveAnswered true 0 .network ⟨10 ^ 18 + 3⟩, .syncOfflineProgressQueue true]).any
      (fun s => (s.record (ascii "b")).map (·.deviceID) = some (ascii "tablet") ∧
        (s.clients true).runs.length = 1) = true := by decide +kernel
  obtain ⟨s, hs, hsent⟩ := (Option.any_eq_true _ _).mp hrun
  rw [decide_eq_true_eq] at hsent
  have hreach := replay_reachable _ _ (.start twoDevices_started) hs
  exact ⟨s, hreach, hsent.1, hsent.2, exclusive_newerKept hreach⟩

/-- The phone makes a backup, the tablet saves after that, and the phone's run replaces
what the tablet has stored. -/
theorem sync_replaces_newer :
    ∃ (s : Fleet Bool) (a : Action Bool) (s' : Fleet Bool),
      Reachable Started (Steps step fun _ _ => True) s ∧ Steps step (fun _ _ => True) s a s' ∧
        ¬ NewerKept s a s' := by
  have hrun : (replay step (fun _ _ => True) twoDevices
      [.saveProgress true (ascii "b") (ascii "x") 10, .saveAnswered true 0 .network ⟨10 ^ 18 + 1⟩,
        .saveProgress false (ascii "b") (ascii "y") 20, .saveProcessed false 0 none ⟨10 ^ 18 + 2⟩,
        .saveAnswered false 0 .ok ⟨10 ^ 18 + 3⟩, .syncOfflineProgressQueue true]).any (fun s =>
          (s.step (.syncProcessed true 0 ⟨10 ^ 18 + 4⟩)).any (fun s' =>
            ((s.clients true).runs[0]?).any (fun run => (s.record run.id).any (fun p =>
              p.deviceID ≠ trimSpace run.cached.deviceID ∧
                run.cached.updatedAt.nanos < p.updatedAt.nanos ∧ s'.record run.id ≠ some p)))) =
      true := by decide +kernel
  obtain ⟨s, hs, hlost⟩ := (Option.any_eq_true _ _).mp hrun
  obtain ⟨s', hs', hlost⟩ := (Option.any_eq_true _ _).mp hlost
  obtain ⟨run, hi, hlost⟩ := (Option.any_eq_true _ _).mp hlost
  obtain ⟨p, hp, hlost⟩ := (Option.any_eq_true _ _).mp hlost
  rw [decide_eq_true_eq] at hlost
  refine ⟨s, _, s', replay_reachable _ _ (.start twoDevices_started) hs, ⟨trivial, hs'⟩, ?_⟩
  intro h
  exact hlost.2.2 (h run hi p hp hlost.1 hlost.2.1)

end Fleet

end ZReader.Frontend
