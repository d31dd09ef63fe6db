import ZReader.Services.Inflight

namespace ZReader.Services

open Lib.Tokens Lib.Transition

variable {K D : Type}

/-- The caller counts among the waiters of the call: it has joined it and has not given
up its place. -/
def TTSCaller.stake (c : Nat) (caller : TTSCaller K D) : ℕ :=
  match caller.phase with
  | .waiting c' | .leaving c' | .returned (some c') _ => if c' = c then 1 else 0
  | _ => 0

/-- The caller has joined the call at some time. -/
def TTSCaller.Joined (c : Nat) (caller : TTSCaller K D) : Prop :=
  match caller.phase with
  | .waiting c' | .leaving c' | .left c' | .returned (some c') _ => c' = c
  | _ => False

/-- What a call says about itself. -/
structure TTSInflightCall.Good (made : List (K × D)) (call : TTSInflightCall K D) : Prop where
  made : ∀ d, call.result = some (some d) → (call.key, d) ∈ made
  working : call.result = none → call.worker = .working
  early : call.cancelled = true → call.worker ≠ .finished → call.timedOut = true ∨ call.waiters = 0
  abandoned : call.abandoned = true → call.cancelled = true ∧ call.waiters = 0

theorem TTSInflightCall.Good.advance {made : List (K × D)} {call : TTSInflightCall K D}
    (h : call.Good made) (hworking : call.worker ≠ .working) (hfinished : call.worker ≠ .finished)
    (worker : WorkerPhase) : Good made { call with worker := worker } :=
  ⟨h.made, fun hnone => absurd (h.working hnone) hworking, fun hcancelled _ =>
    h.early hcancelled hfinished, h.abandoned⟩

namespace TTSFlights

def KeyOf (s : TTSFlights K D) (c : Nat) (k : K) : Prop :=
  ∃ call, s.calls[c]? = some call ∧ call.key = k

/-- What a caller says about the state. -/
def GoodCaller (s : TTSFlights K D) (caller : TTSCaller K D) : Prop :=
  match caller.phase with
  | .checking | .readingMemory | .readingDisk | .atMutex => True
  | .waiting c => s.KeyOf c caller.key
  | .leaving c | .left c => s.KeyOf c caller.key ∧ caller.cancelled = true
  | .returned (some c) data => s.KeyOf c caller.key ∧ ∀ d ∈ data, (caller.key, d) ∈ s.made
  | .returned none data => (data = none → caller.cancelled = true) ∧
      ∀ d ∈ data, (caller.key, d) ∈ s.made

structure Sound (s : TTSFlights K D) : Prop where
  memory : ∀ k d, s.memory k = some d → (k, d) ∈ s.made
  disk : ∀ k d, s.disk k = some d → (k, d) ∈ s.made
  good : ∀ (c : Nat) call, s.calls[c]? = some call → call.Good s.made
  waiters : ∀ (c : Nat) call, s.calls[c]? = some call →
    call.waiters = ((total (TTSCaller.stake c) s.callers : ℕ) : ℤ)
  live : ∀ (c : Nat) call, s.calls[c]? = some call → call.unfinished = true → call.cancelled = false →
    s.inflight call.key = some c
  inflight : ∀ k c, s.inflight k = some c →
    ∃ call, s.calls[c]? = some call ∧ call.key = k ∧ call.unfinished = true
  callers : ∀ caller ∈ s.callers, s.GoodCaller caller

theorem Started.sound {s : TTSFlights K D} (h : s.Started) : s.Sound := by
  obtain ⟨hmemory, hdisk, hinflight, hcalls, hcallers⟩ := h
  refine ⟨?_, hdisk, by simp [hcalls], by simp [hcalls], by simp [hcalls], ?_, by simp [hcallers]⟩
  · intro k d hd
    rw [hmemory] at hd
    cases hd
  · intro k c hc
    rw [hinflight] at hc
    cases hc

theorem GoodCaller.mono {s s' : TTSFlights K D} {caller : TTSCaller K D}
    (hkeys : ∀ c k, s.KeyOf c k → s'.KeyOf c k) (hmade : s.made ⊆ s'.made)
    (h : s.GoodCaller caller) : s'.GoodCaller caller := by
  rw [GoodCaller] at h ⊢
  split
  · trivial
  · trivial
  · trivial
  · trivial
  · next c hphase =>
    rw [hphase] at h
    exact hkeys _ _ h
  · next c hphase =>
    rw [hphase] at h
    exact ⟨hkeys _ _ h.1, h.2⟩
  · next c hphase =>
    rw [hphase] at h
    exact ⟨hkeys _ _ h.1, h.2⟩
  · next c data hphase =>
    rw [hphase] at h
    exact ⟨hkeys _ _ h.1, fun d hd => hmade (h.2 d hd)⟩
  · next data hphase =>
    rw [hphase] at h
    exact ⟨h.1, fun d hd => hmade (h.2 d hd)⟩

theorem keyOf_set {s : TTSFlights K D} {c : Nat} {call call' : TTSInflightCall K D}
    (hc : s.calls[c]? = some call) (hkey : call'.key = call.key) {c' : Nat} {k : K}
    (h : s.KeyOf c' k) : ∃ y, (s.calls.set c call')[c']? = some y ∧ y.key = k := by
  obtain ⟨y, hy, rfl⟩ := h
  by_cases he : c' = c
  · subst he
    rw [hc] at hy
    cases hy
    exact ⟨call', getElem?_set_of_some hc call', hkey⟩
  · exact ⟨y, by rw [List.getElem?_set_ne (Ne.symm he)]; exact hy, rfl⟩

/-! ## Steps that move no waiter -/

theorem Sound.setMemory {s : TTSFlights K D} (h : s.Sound) {memory : K → Option D}
    (hmade : ∀ k d, memory k = some d → (k, d) ∈ s.made) : Sound { s with memory := memory } :=
  ⟨hmade, h.disk, h.good, h.waiters, h.live, h.inflight, h.callers⟩

theorem Sound.setDisk {s : TTSFlights K D} (h : s.Sound) {disk : K → Option D}
    (hmade : ∀ k d, disk k = some d → (k, d) ∈ s.made) : Sound { s with disk := disk } :=
  ⟨h.memory, hmade, h.good, h.waiters, h.live, h.inflight, h.callers⟩

theorem Sound.make {s : TTSFlights K D} (h : s.Sound) (l : List (K × D)) :
    Sound { s with made := s.made ++ l } := by
  have hsub : s.made ⊆ s.made ++ l := List.subset_append_left _ _
  refine ⟨fun k d hd => hsub (h.memory k d hd), fun k d hd => hsub (h.disk k d hd), ?_, h.waiters,
    h.live, h.inflight, ?_⟩
  · intro c call hc
    have hgood := h.good c call hc
    exact ⟨fun d hd => hsub (hgood.made d hd), hgood.working, hgood.early, hgood.abandoned⟩
  · intro caller hcaller
    exact GoodCaller.mono (s := s) (fun _ _ hk => hk) hsub (h.callers caller hcaller)

theorem total_putCaller {s : TTSFlights K D} {i : Nat} {caller caller' : TTSCaller K D}
    (hi : s.callers[i]? = some caller) {c : Nat} (hstake : caller'.stake c = caller.stake c) :
    total (TTSCaller.stake c) (s.callers.set i caller') = total (TTSCaller.stake c) s.callers := by
  rw [total_set hi, total_of_getElem? hi, hstake]

theorem Sound.putCaller {s : TTSFlights K D} (h : s.Sound) {i : Nat} {caller caller' : TTSCaller K D}
    (hi : s.callers[i]? = some caller) (hstake : ∀ c, caller'.stake c = caller.stake c)
    (hgood : s.GoodCaller caller') : (s.putCaller i caller').Sound := by
  refine ⟨h.memory, h.disk, h.good, ?_, h.live, h.inflight, ?_⟩
  · intro c call hc
    rw [h.waiters c call hc]
    exact congrArg Nat.cast (total_putCaller hi (hstake c)).symm
  · intro x hx
    rcases List.mem_or_eq_of_mem_set hx with hx | rfl
    · exact h.callers x hx
    · exact hgood

/-- A step of a worker that leaves the map alone. -/
theorem Sound.putCall {s : TTSFlights K D} (h : s.Sound) {c : Nat} {call call' : TTSInflightCall K D}
    (hc : s.calls[c]? = some call) (hkey : call'.key = call.key)
    (hwaiters : call'.waiters = call.waiters) (hgood : call'.Good s.made)
    (hunfinished : call'.unfinished = call.unfinished)
    (hlive : call'.cancelled = false → call.cancelled = false) : (s.putCall c call').Sound := by
  refine ⟨h.memory, h.disk, ?_, ?_, ?_, ?_, ?_⟩
  · intro c' y hy
    rcases getElem?_set_cases hy with ⟨-, rfl⟩ | ⟨-, hy⟩
    · exact hgood
    · exact h.good c' y hy
  · intro c' y hy
    rcases getElem?_set_cases hy with ⟨rfl, rfl⟩ | ⟨-, hy⟩
    · rw [hwaiters]
      exact h.waiters c' call hc
    · exact h.waiters c' y hy
  · intro c' y hy hu hn
    rcases getElem?_set_cases hy with ⟨rfl, rfl⟩ | ⟨-, hy⟩
    · rw [hkey]
      exact h.live c' call hc (hunfinished ▸ hu) (hlive hn)
    · exact h.live c' y hy hu hn
  · intro k c' hk
    obtain ⟨y, hy, hyk, hu⟩ := h.inflight k c' hk
    by_cases he : c' = c
    · subst he
      rw [hc] at hy
      cases hy
      exact ⟨call', getElem?_set_of_some hc call', hkey.trans hyk, hunfinished ▸ hu⟩
    · exact ⟨y, (List.getElem?_set_ne (Ne.symm he)).trans hy, hyk, hu⟩
  · intro caller hcaller
    exact (h.callers caller hcaller).mono (fun _ _ hk => keyOf_set hc hkey hk) (List.Subset.refl _)

/-! ## Joining, leaving and the end of a call -/

theorem joinable_eq_some {s : TTSFlights K D} {k : K} {c : Nat} {call : TTSInflightCall K D}
    (h : s.joinable k = some (c, call)) :
    s.inflight k = some c ∧ s.calls[c]? = some call ∧ call.cancelled = false := by
  obtain ⟨c', hc', h⟩ := Option.bind_eq_some_iff.mp h
  obtain ⟨call', hcall', h⟩ := Option.bind_eq_some_iff.mp h
  split at h
  · cases h
  · next hlive =>
    cases h
    exact ⟨hc', hcall', by simpa using hlive⟩

/-- One caller moves its stake in one call. -/
theorem total_moved {s : TTSFlights K D} (h : s.Sound) {i c : Nat} {caller caller' : TTSCaller K D}
    {call : TTSInflightCall K D} (hi : s.callers[i]? = some caller) (hc : s.calls[c]? = some call)
    {n : ℤ} (hn : n + (caller.stake c : ℕ) = call.waiters + (caller'.stake c : ℕ)) :
    n = ((total (TTSCaller.stake c) (s.callers.set i caller') : ℕ) : ℤ) := by
  have hw := h.waiters c call hc
  rw [total_of_getElem? hi] at hw
  rw [total_set hi]
  push_cast at hw ⊢
  omega

theorem Sound.exchange {s : TTSFlights K D} (h : s.Sound) {i c : Nat}
    {caller caller' : TTSCaller K D} {call call' : TTSInflightCall K D}
    (hi : s.callers[i]? = some caller) (hc : s.calls[c]? = some call)
    (hkey : call'.key = call.key) (hgood : call'.Good s.made)
    (hunfinished : call'.unfinished = call.unfinished) (hlive : call'.cancelled = call.cancelled)
    (hmoved : call'.waiters + (caller.stake c : ℕ) = call.waiters + (caller'.stake c : ℕ))
    (hstake : ∀ c', c' ≠ c → caller'.stake c' = caller.stake c') (hcaller : s.GoodCaller caller') :
    ((s.putCall c call').putCaller i caller').Sound := by
  refine ⟨h.memory, h.disk, ?_, ?_, ?_, ?_, ?_⟩
  · intro c' y hy
    rcases getElem?_set_cases hy with ⟨-, rfl⟩ | ⟨-, hy⟩
    · exact hgood
    · exact h.good c' y hy
  · intro c' y hy
    rcases getElem?_set_cases hy with ⟨rfl, rfl⟩ | ⟨hne, hy⟩
    · exact total_moved h hi hc hmoved
    · rw [h.waiters c' y hy]
      exact congrArg Nat.cast (total_putCaller hi (hstake c' hne)).symm
  · intro c' y hy hu hn
    rcases getElem?_set_cases hy with ⟨rfl, rfl⟩ | ⟨-, hy⟩
    · rw [hkey]
      exact h.live c' call hc (hunfinished ▸ hu) (hlive ▸ hn)
    · exact h.live c' y hy hu hn
  · intro k c' hk
    obtain ⟨y, hy, hyk, hu⟩ := h.inflight k c' hk
    by_cases he : c' = c
    · subst he
      rw [hc] at hy
      cases hy
      exact ⟨call', getElem?_set_of_some hc _, hkey.trans hyk, hunfinished ▸ hu⟩
    · exact ⟨y, (List.getElem?_set_ne (Ne.symm he)).trans hy, hyk, hu⟩
  · intro x hx
    rcases List.mem_or_eq_of_mem_set hx with hx | rfl
    · exact GoodCaller.mono (s := s) (fun _ _ hk => keyOf_set hc hkey hk) (List.Subset.refl _)
        (h.callers x hx)
    · exact GoodCaller.mono (s := s) (fun _ _ hk => keyOf_set hc hkey hk) (List.Subset.refl _) hcaller

theorem keyOf_concat {s : TTSFlights K D} (call : TTSInflightCall K D) {c : Nat} {k : K}
    (h : s.KeyOf c k) : ∃ y, (s.calls ++ [call])[c]? = some y ∧ y.key = k := by
  obtain ⟨y, hy, rfl⟩ := h
  exact ⟨y, List.getElem?_append_left (List.getElem?_eq_some_iff.mp hy).1 ▸ hy, rfl⟩

/-- Nobody has a stake in a call that does not exist. -/
theorem GoodCaller.stake_eq_zero {s : TTSFlights K D} {caller : TTSCaller K D}
    (h : s.GoodCaller caller) {c : Nat} (hc : s.calls[c]? = none) : caller.stake c = 0 := by
  have hne : ∀ c' k, s.KeyOf c' k → c' ≠ c := by
    rintro c' k ⟨y, hy, -⟩ rfl
    rw [hc] at hy
    cases hy
  rw [GoodCaller] at h
  rw [TTSCaller.stake]
  split
  · next c' hphase =>
    rw [hphase] at h
    rw [if_neg (hne _ _ h)]
  · next c' hphase =>
    rw [hphase] at h
    rw [if_neg (hne _ _ h.1)]
  · next c' data hphase =>
    rw [hphase] at h
    rw [if_neg (hne _ _ h.1)]
  · rfl

variable [DecidableEq K]

theorem unmap_inflight (s : TTSFlights K D) (k : K) (c : Nat) :
    (s.unmap k c).inflight =
      if s.inflight k = some c then Function.update s.inflight k none else s.inflight := by
  rw [unmap]
  split
  · rfl
  · rfl

theorem unmap_rest (s : TTSFlights K D) (k : K) (c : Nat) :
    (s.unmap k c).memory = s.memory ∧ (s.unmap k c).disk = s.disk ∧
      (s.unmap k c).calls = s.calls ∧ (s.unmap k c).callers = s.callers ∧
      (s.unmap k c).made = s.made := by
  rw [unmap]
  split
  · exact ⟨rfl, rfl, rfl, rfl, rfl⟩
  · exact ⟨rfl, rfl, rfl, rfl, rfl⟩

theorem unmap_eq_some {s : TTSFlights K D} {k k' : K} {c c' : Nat} :
    (s.unmap k c).inflight k' = some c' ↔ s.inflight k' = some c' ∧ ¬ (k' = k ∧ c' = c) := by
  rw [unmap_inflight]
  by_cases hk : k' = k
  · subst hk
    split
    · next hc => simp [hc, eq_comm]
    · next hc =>
      simp only [true_and]
      constructor
      · intro h
        refine ⟨h, ?_⟩
        rintro rfl
        exact hc h
      · exact And.left
  · split
    · simp [hk]
    · simp [hk]

/-- The call leaves the map when its worker is through with it, or when it has been
cancelled. -/
theorem Sound.settle {s : TTSFlights K D} (h : s.Sound) {c : Nat} {call call' : TTSInflightCall K D}
    (hc : s.calls[c]? = some call) (hkey : call'.key = call.key)
    (hwaiters : call'.waiters = call.waiters) (hgood : call'.Good s.made)
    (hend : call'.unfinished = false ∨ call'.cancelled = true) :
    ((s.putCall c call').unmap call.key c).Sound := by
  obtain ⟨hmemory, hdisk, hcalls, hcallers, hmade⟩ := unmap_rest (s.putCall c call') call.key c
  refine ⟨?_, ?_, ?_, ?_, ?_, ?_, ?_⟩
  · rw [hmemory, hmade]
    exact h.memory
  · rw [hdisk, hmade]
    exact h.disk
  · intro c' y hy
    rw [hcalls] at hy
    rw [hmade]
    rcases getElem?_set_cases hy with ⟨-, rfl⟩ | ⟨-, hy⟩
    · exact hgood
    · exact h.good c' y hy
  · intro c' y hy
    rw [hcalls] at hy
    rw [hcallers]
    rcases getElem?_set_cases hy with ⟨rfl, rfl⟩ | ⟨-, hy⟩
    · rw [hwaiters]
      exact h.waiters c' call hc
    · exact h.waiters c' y hy
  · intro c' y hy hu hn
    rw [hcalls] at hy
    rw [unmap_eq_some]
    rcases getElem?_set_cases hy with ⟨-, rfl⟩ | ⟨hne, hy⟩
    · rcases hend with hf | hcancelled
      · rw [hf] at hu
        cases hu
      · rw [hcancelled] at hn
        cases hn
    · exact ⟨h.live c' y hy hu hn, fun he => hne he.2⟩
  · intro k c' hk
    obtain ⟨hk, hne⟩ := unmap_eq_some.mp hk
    obtain ⟨y, hy, hyk, hu⟩ := h.inflight k c' hk
    refine ⟨y, ?_, hyk, hu⟩
    rw [hcalls]
    by_cases he : c' = c
    · subst he
      rw [hc] at hy
      cases hy
      exact absurd ⟨hyk.symm, rfl⟩ hne
    · exact (List.getElem?_set_ne (Ne.symm he)).trans hy
  · intro caller hcaller
    rw [hcallers] at hcaller
    refine GoodCaller.mono (s := s) ?_ (by rw [hmade]; exact List.Subset.refl _)
      (h.callers caller hcaller)
    intro c' k hk
    rw [KeyOf, hcalls]
    exact keyOf_set hc hkey hk

/-- A new call takes the place of none or of a cancelled one. -/
theorem Sound.register {s : TTSFlights K D} (h : s.Sound) {i : Nat} {caller : TTSCaller K D}
    (hi : s.callers[i]? = some caller) (hphase : caller.phase = .atMutex)
    (hj : s.joinable caller.key = none) :
    Sound { s with
      calls := s.calls ++ [newCall caller.key]
      inflight := Function.update s.inflight caller.key (some s.calls.length)
      callers := s.callers.set i { caller with phase := .waiting s.calls.length } } := by
  have hstake : ∀ c : Nat, caller.stake c = 0 := by
    intro c
    simp [TTSCaller.stake, hphase]
  have hnew : s.calls[s.calls.length]? = none := List.getElem?_eq_none le_rfl
  refine ⟨h.memory, h.disk, ?_, ?_, ?_, ?_, ?_⟩
  · intro c y hy
    rcases getElem?_concat_cases hy with hy | ⟨-, rfl⟩
    · exact h.good c y hy
    · exact ⟨by simp [newCall], by simp [newCall], by simp [newCall], by simp [newCall]⟩
  · intro c y hy
    rcases getElem?_concat_cases hy with hy | ⟨rfl, rfl⟩
    · have hlt := (List.getElem?_eq_some_iff.mp hy).1
      rw [h.waiters c y hy]
      refine congrArg Nat.cast (total_putCaller hi ?_).symm
      rw [hstake]
      simp only [TTSCaller.stake]
      rw [if_neg (by omega)]
    · have hzero : total (TTSCaller.stake s.calls.length) s.callers = 0 :=
        total_eq_zero (fun x hx => (h.callers x hx).stake_eq_zero hnew)
      rw [total_of_getElem? hi, hstake, Nat.zero_add] at hzero
      have hone : TTSCaller.stake s.calls.length
          { caller with phase := .waiting s.calls.length : TTSCaller K D } = 1 := by
        simp [TTSCaller.stake]
      rw [total_set hi, hone, hzero]
      rfl
  · intro c y hy hu hn
    rcases getElem?_concat_cases hy with hy | ⟨rfl, rfl⟩
    · have hmap := h.live c y hy hu hn
      by_cases hk : y.key = caller.key
      · rw [hk] at hmap
        simp [joinable, hmap, hy, hn] at hj
      · exact (Function.update_of_ne hk _ _).trans hmap
    · exact Function.update_self _ _ _
  · intro k c hk
    change Function.update s.inflight caller.key (some s.calls.length) k = some c at hk
    by_cases he : k = caller.key
    · subst he
      rw [Function.update_self] at hk
      cases hk
      exact ⟨newCall caller.key, by simp, rfl, rfl⟩
    · rw [Function.update_of_ne he] at hk
      obtain ⟨y, hy, hyk, hu⟩ := h.inflight k c hk
      have hlt := (List.getElem?_eq_some_iff.mp hy).1
      exact ⟨y, (List.getElem?_append_left hlt).trans hy, hyk, hu⟩
  · intro x hx
    rcases List.mem_or_eq_of_mem_set hx with hx | rfl
    · exact GoodCaller.mono (s := s) (fun _ _ hk => keyOf_concat _ hk) (List.Subset.refl _)
        (h.callers x hx)
    · exact ⟨newCall caller.key, by simp, rfl⟩

/-- A caller joins the registered call of its key or registers a new one. -/
theorem Sound.joinCall {s : TTSFlights K D} (h : s.Sound) {i : Nat} {caller : TTSCaller K D}
    (hi : s.callers[i]? = some caller) (hphase : caller.phase = .atMutex) :
    (s.joinCall i caller).Sound := by
  rw [TTSFlights.joinCall]
  split
  · next c call hj =>
    obtain ⟨hmap, hc, hlive⟩ := joinable_eq_some hj
    have hgood := h.good c call hc
    obtain ⟨y, hy, hyk, -⟩ := h.inflight _ _ hmap
    refine h.exchange hi hc rfl ⟨hgood.made, hgood.working, ?_, ?_⟩ rfl rfl ?_ ?_ ⟨y, hy, hyk⟩
    · intro hcancelled
      rw [hlive] at hcancelled
      cases hcancelled
    · intro habandoned
      have hcancelled := (hgood.abandoned habandoned).1
      rw [hlive] at hcancelled
      cases hcancelled
    · simp [TTSCaller.stake, hphase]
    · intro c' hne
      simp [TTSCaller.stake, hphase, Ne.symm hne]
  · next hj => exact h.register hi hphase hj

omit [DecidableEq K] in
theorem putCall_putCall (s : TTSFlights K D) (i c : Nat) (caller : TTSCaller K D)
    (call call' : TTSInflightCall K D) :
    ((s.putCall c call).putCaller i caller).putCall c call' =
      (s.putCaller i caller).putCall c call' := by
  simp [putCall, putCaller]

theorem Sound.leaveCall {s : TTSFlights K D} (h : s.Sound) {i c : Nat} {caller : TTSCaller K D}
    {call : TTSInflightCall K D} (hi : s.callers[i]? = some caller)
    (hphase : caller.phase = .leaving c) (hc : s.calls[c]? = some call) :
    (s.leaveCall i c caller call).Sound := by
  have hgood := h.good c call hc
  have hcaller := h.callers caller (List.mem_of_getElem? hi)
  rw [GoodCaller, hphase] at hcaller
  have hstake : caller.stake c = 1 := by simp [TTSCaller.stake, hphase]
  have hwaiting : call.waiters ≠ 0 := by
    have hle : caller.stake c ≤ total (TTSCaller.stake c) s.callers := weight_le_total hi
    rw [h.waiters c call hc]
    omega
  have hexchange : ((s.putCall c { call with waiters := call.waiters - 1 }).putCaller i
      { caller with phase := .left c }).Sound := by
    refine h.exchange hi hc rfl ⟨hgood.made, hgood.working, ?_, ?_⟩ rfl rfl ?_ ?_ hcaller
    · intro hcancelled hworker
      rcases hgood.early hcancelled hworker with htime | hnone
      · exact Or.inl htime
      · exact absurd hnone hwaiting
    · intro habandoned
      exact absurd (hgood.abandoned habandoned).2 hwaiting
    · simp only [TTSCaller.stake, hphase, if_true]
      omega
    · intro c' hne
      simp [TTSCaller.stake, hphase, Ne.symm hne]
  rw [TTSFlights.leaveCall]
  split
  · next hlast =>
    have hsettled : TTSInflightCall.Good s.made { call with
        waiters := call.waiters - 1
        cancelled := true
        abandoned := call.abandoned || call.result.isNone } :=
      ⟨hgood.made, hgood.working, fun _ _ => Or.inr hlast, fun _ => ⟨rfl, hlast⟩⟩
    have hsettle := hexchange.settle (getElem?_set_of_some hc _) (by rfl) (by rfl) hsettled
      (Or.inr rfl)
    rw [putCall_putCall] at hsettle
    exact hsettle
  · exact hexchange

/-! ## Runs -/

theorem Sound.stepCaller {s s' : TTSFlights K D} (h : s.Sound) {i : Nat} {caller : TTSCaller K D}
    {a : FlightAction K D} (hi : s.callers[i]? = some caller)
    (hstep : s.stepCaller i caller a = some s') : s'.Sound := by
  have hgood := h.callers caller (List.mem_of_getElem? hi)
  cases a with
  | check j =>
      simp only [TTSFlights.stepCaller] at hstep
      split at hstep
      · next hphase =>
        cases hstep
        apply h.putCaller hi
        · intro c
          split
          · simp [TTSCaller.stake, hphase]
          · simp [TTSCaller.stake, hphase]
        · split
          · next hcancelled => exact ⟨fun _ => hcancelled, by simp⟩
          · trivial
      · cases hstep
  | readMemory j =>
      simp only [TTSFlights.stepCaller] at hstep
      split at hstep
      · next hphase =>
        cases hstep
        apply h.putCaller hi
        · intro c
          split
          · simp [TTSCaller.stake, hphase]
          · simp [TTSCaller.stake, hphase]
        · split
          · next data hdata =>
            refine ⟨by simp, ?_⟩
            rintro d ⟨⟩
            exact h.memory _ _ hdata
          · trivial
      · cases hstep
  | readDisk j =>
      simp only [TTSFlights.stepCaller] at hstep
      split at hstep
      · next hphase =>
        split at hstep
        · next data hdata =>
          cases hstep
          have hmade := h.disk _ _ hdata
          have hput : (s.putCaller i { caller with phase := .returned none (some data) }).Sound := by
            apply h.putCaller hi
            · intro c
              simp [TTSCaller.stake, hphase]
            · refine ⟨by simp, ?_⟩
              rintro d ⟨⟩
              exact hmade
          apply hput.setMemory
          intro k d hd
          by_cases hk : k = caller.key
          · subst hk
            rw [Function.update_self] at hd
            cases hd
            exact hmade
          · rw [Function.update_of_ne hk] at hd
            exact h.memory k d hd
        · cases hstep
          apply h.putCaller hi
          · intro c
            simp [TTSCaller.stake, hphase]
          · trivial
      · cases hstep
  | receiveDone j =>
      simp only [TTSFlights.stepCaller] at hstep
      split at hstep
      · next c hphase =>
        obtain ⟨call, hc, hstep⟩ := Option.bind_eq_some_iff.mp hstep
        split at hstep
        · cases hstep
          rw [GoodCaller, hphase] at hgood
          apply h.putCaller hi
          · intro c'
            simp [TTSCaller.stake, hphase]
          · refine ⟨hgood, ?_⟩
            intro d hd
            obtain ⟨y, hy, hyk⟩ := hgood
            rw [hc] at hy
            cases hy
            have hmade := (h.good c call hc).made d
            rw [hyk] at hmade
            apply hmade
            cases hresult : call.result with
            | none => simp [hresult] at hd
            | some r => simpa [hresult] using hd
        · cases hstep
      · cases hstep
  | seeCancelled j =>
      simp only [TTSFlights.stepCaller] at hstep
      split at hstep
      · next c hphase =>
        split at hstep
        · next hcancelled =>
          cases hstep
          rw [GoodCaller, hphase] at hgood
          apply h.putCaller hi
          · intro c'
            simp [TTSCaller.stake, hphase]
          · exact ⟨hgood, hcancelled⟩
        · cases hstep
      · cases hstep
  | cancel j =>
      cases hstep
      apply h.putCaller hi
      · intro c
        rfl
      · rw [GoodCaller] at hgood ⊢
        split
        all_goals next hphase =>
          simp only at hphase
          rw [hphase] at hgood
          first
            | trivial
            | exact hgood
            | exact ⟨hgood.1, rfl⟩
            | exact ⟨fun _ => rfl, hgood.2⟩
  | join j =>
      simp only [TTSFlights.stepCaller] at hstep
      split at hstep
      · next hphase =>
        cases hstep
        exact h.joinCall hi hphase
      · cases hstep
  | leave j =>
      simp only [TTSFlights.stepCaller] at hstep
      split at hstep
      · next c hphase =>
        obtain ⟨call, hc, rfl⟩ := Option.map_eq_some_iff.mp hstep
        exact h.leaveCall hi hphase hc
      · cases hstep
  | call _ | complete _ _ | cache _ | writeDisk _ _ | unregister _ | close _ | deferredCancel _
  | timeout _ | evict _ | removeFile _ => cases hstep

/-- A cache takes over the result of a call. -/
theorem made_of_update {s : TTSFlights K D} {call : TTSInflightCall K D} (hgood : call.Good s.made)
    {cache : K → Option D} (hcache : ∀ k d, cache k = some d → (k, d) ∈ s.made) {k : K} {d : D}
    (hd : Function.update cache call.key (call.result.getD none) k = some d) : (k, d) ∈ s.made := by
  by_cases hk : k = call.key
  · subst hk
    rw [Function.update_self] at hd
    apply hgood.made
    cases hresult : call.result with
    | none => simp [hresult] at hd
    | some r => simpa [hresult] using hd
  · rw [Function.update_of_ne hk] at hd
    exact hcache k d hd

theorem Sound.stepCall {s s' : TTSFlights K D} (h : s.Sound) {c : Nat} {call : TTSInflightCall K D}
    {a : FlightAction K D} (hc : s.calls[c]? = some call)
    (hstep : s.stepCall c call a = some s') : s'.Sound := by
  have hgood := h.good c call hc
  cases a with
  | complete j result =>
      simp only [TTSFlights.stepCall] at hstep
      split at hstep
      · next hworker =>
        cases hstep
        refine (h.make (result.toList.map (call.key, ·))).putCall hc rfl rfl ⟨?_, ?_, ?_, ?_⟩ ?_ id
        · intro d hd
          simp only [Option.some.injEq] at hd
          simp [hd]
        · simp
        · intro hcancelled _
          exact hgood.early hcancelled (by simp [hworker])
        · exact hgood.abandoned
        · cases result with
          | none => simp [TTSInflightCall.unfinished, hworker]
          | some d => simp [TTSInflightCall.unfinished, hworker]
      · cases hstep
  | cache j =>
      simp only [TTSFlights.stepCall] at hstep
      split at hstep
      · next hworker =>
        cases hstep
        have hput : (s.putCall c { call with worker := .writingDisk }).Sound := by
          refine h.putCall hc rfl rfl (hgood.advance (by simp [hworker]) (by simp [hworker]) _) ?_ id
          simp [TTSInflightCall.unfinished, hworker]
        exact hput.setMemory (fun k d hd => made_of_update hgood h.memory hd)
      · cases hstep
  | writeDisk j ok =>
      simp only [TTSFlights.stepCall] at hstep
      split at hstep
      · next hworker =>
        cases hstep
        have hput : (s.putCall c { call with worker := .unregistering }).Sound := by
          refine h.putCall hc rfl rfl (hgood.advance (by simp [hworker]) (by simp [hworker]) _) ?_ id
          simp [TTSInflightCall.unfinished, hworker]
        apply hput.setDisk
        intro k d hd
        cases ok with
        | false => exact h.disk k d hd
        | true => exact made_of_update hgood h.disk hd
      · cases hstep
  | unregister j =>
      simp only [TTSFlights.stepCall] at hstep
      split at hstep
      · next hworker =>
        cases hstep
        exact h.settle hc rfl rfl (hgood.advance (by simp [hworker]) (by simp [hworker]) _) (Or.inl rfl)
      · cases hstep
  | close j =>
      simp only [TTSFlights.stepCall] at hstep
      split at hstep
      · next hworker =>
        cases hstep
        refine h.putCall hc rfl rfl (hgood.advance (by simp [hworker]) (by simp [hworker]) _) ?_ id
        simp [TTSInflightCall.unfinished, hworker]
      · cases hstep
  | deferredCancel j =>
      simp only [TTSFlights.stepCall] at hstep
      split at hstep
      · next hworker =>
        cases hstep
        refine h.putCall hc rfl rfl ⟨hgood.made, ?_, ?_, ?_⟩ ?_ ?_
        · intro hnone
          have hwork := hgood.working hnone
          rw [hworker] at hwork
          cases hwork
        · intro _ hne
          exact absurd rfl hne
        · intro habandoned
          exact ⟨rfl, (hgood.abandoned habandoned).2⟩
        · simp [TTSInflightCall.unfinished, hworker]
        · rintro ⟨⟩
      · cases hstep
  | timeout j =>
      simp only [TTSFlights.stepCall] at hstep
      split at hstep
      · cases hstep
      · cases hstep
        refine h.putCall hc rfl rfl ⟨hgood.made, hgood.working, fun _ _ => Or.inl rfl, ?_⟩ rfl ?_
        · intro habandoned
          exact ⟨rfl, (hgood.abandoned habandoned).2⟩
        · rintro ⟨⟩
  | call _ | cancel _ | check _ | readMemory _ | readDisk _ | join _ | receiveDone _
  | seeCancelled _ | leave _ | evict _ | removeFile _ => cases hstep

theorem Sound.step {s s' : TTSFlights K D} (h : s.Sound) {a : FlightAction K D}
    (hstep : s.step a = some s') : s'.Sound := by
  cases a with
  | call key =>
      cases hstep
      refine ⟨h.memory, h.disk, h.good, ?_, h.live, h.inflight, ?_⟩
      · intro c y hy
        rw [total_concat, h.waiters c y hy]
        rfl
      · intro x hx
        rcases List.mem_append.mp hx with hx | hx
        · exact h.callers x hx
        · rw [List.mem_singleton.mp hx]
          trivial
  | evict key =>
      cases hstep
      apply h.setMemory
      intro k d hd
      by_cases hk : k = key
      · rw [hk, Function.update_self] at hd
        cases hd
      · rw [Function.update_of_ne hk] at hd
        exact h.memory k d hd
  | removeFile key =>
      cases hstep
      apply h.setDisk
      intro k d hd
      by_cases hk : k = key
      · rw [hk, Function.update_self] at hd
        cases hd
      · rw [Function.update_of_ne hk] at hd
        exact h.disk k d hd
  | cancel i | check i | readMemory i | readDisk i | join i | receiveDone i | seeCancelled i
  | leave i =>
      obtain ⟨caller, hi, hstep⟩ := Option.bind_eq_some_iff.mp hstep
      exact h.stepCaller hi hstep
  | complete c _ | cache c | writeDisk c _ | unregister c | close c | deferredCancel c
  | timeout c =>
      obtain ⟨call, hc, hstep⟩ := Option.bind_eq_some_iff.mp hstep
      exact h.stepCall hc hstep

/-- The runs of the service. -/
abbrev Reached (s : TTSFlights K D) : Prop :=
  Reachable Started (fun s (a : FlightAction K D) t => step s a = some t) s

theorem Reached.sound {s : TTSFlights K D} (h : s.Reached) : s.Sound :=
  h.invariant Sound (fun _ hs => hs.sound) (fun _ _ _ hs hstep => hs.step hstep)

omit [DecidableEq K] in
/-- Without waiters, everyone who has joined the call has left it. -/
theorem Sound.all_cancelled {s : TTSFlights K D} (h : s.Sound) {c : Nat} {call : TTSInflightCall K D}
    (hc : s.calls[c]? = some call) (hnone : call.waiters = 0) :
    ∀ caller ∈ s.callers, caller.Joined c → (∃ c', caller.phase = .left c') ∧
      caller.cancelled = true := by
  intro caller hcaller hjoined
  obtain ⟨i, hi⟩ := List.getElem?_of_mem hcaller
  have hle : caller.stake c ≤ total (TTSCaller.stake c) s.callers := weight_le_total hi
  have hzero : caller.stake c = 0 := by
    have hw := h.waiters c call hc
    omega
  have hgood := h.callers caller hcaller
  rw [TTSCaller.Joined] at hjoined
  split at hjoined
  · next hphase => simp [TTSCaller.stake, hphase, hjoined] at hzero
  · next hphase => simp [TTSCaller.stake, hphase, hjoined] at hzero
  · next c' hphase =>
    rw [GoodCaller, hphase] at hgood
    exact ⟨⟨c', hphase⟩, hgood.2⟩
  · next hphase => simp [TTSCaller.stake, hphase, hjoined] at hzero
  · exact hjoined.elim

/-- Whether the caller is back with an error of its own context. -/
def OwnError (caller : TTSCaller K D) : Prop :=
  (∃ c, caller.phase = .left c) ∨ caller.phase = .returned none none

omit [DecidableEq K] in
theorem Sound.ownError {s : TTSFlights K D} (h : s.Sound) {caller : TTSCaller K D}
    (hcaller : caller ∈ s.callers) (herror : OwnError caller) : caller.cancelled = true := by
  have hgood := h.callers caller hcaller
  rcases herror with ⟨c, hphase⟩ | hphase
  · rw [GoodCaller, hphase] at hgood
    exact hgood.2
  · rw [GoodCaller, hphase] at hgood
    exact hgood.1 rfl

/-- Calls are shared by key and end with their own timeout, with their result, or with
the last of their callers. -/
theorem single_flight {s : TTSFlights K D} (h : s.Reached) :
    (∀ (c c' : Nat) call call', s.calls[c]? = some call → s.calls[c']? = some call' →
      call.key = call'.key → call.unfinished = true → call'.unfinished = true →
      call.cancelled = false → call'.cancelled = false → c = c') ∧
    (∀ (c : Nat) call, s.calls[c]? = some call → call.result = none → call.cancelled = true →
      call.timedOut = true ∨ ∀ caller ∈ s.callers, caller.Joined c → caller.cancelled = true) ∧
    (∀ caller ∈ s.callers, caller.cancelled = false → ¬ OwnError caller ∧
      ∀ c data, caller.phase = .returned (some c) data →
        ∀ call, s.calls[c]? = some call → call.abandoned = false) ∧
    (∀ caller ∈ s.callers, ∀ c d, caller.phase = .returned c (some d) →
      (caller.key, d) ∈ s.made) ∧
    ∀ k c, s.inflight k = some c →
      ∃ call, s.calls[c]? = some call ∧ call.key = k ∧ call.unfinished = true := by
  have hsound := h.sound
  refine ⟨?_, ?_, ?_, ?_, hsound.inflight⟩
  · intro c c' call call' hc hc' hkey hu hu' hn hn'
    have hmap := hsound.live c call hc hu hn
    have hmap' := hsound.live c' call' hc' hu' hn'
    rw [hkey, hmap'] at hmap
    exact (Option.some.inj hmap).symm
  · intro c call hc hnone hcancelled
    have hgood := hsound.good c call hc
    rcases hgood.early hcancelled (by simp [hgood.working hnone]) with htime | hzero
    · exact Or.inl htime
    · right
      intro caller hcaller hjoined
      exact (hsound.all_cancelled hc hzero caller hcaller hjoined).2
  · intro caller hcaller hlive
    refine ⟨?_, ?_⟩
    · intro herror
      have hcancelled := hsound.ownError hcaller herror
      rw [hlive] at hcancelled
      cases hcancelled
    · intro c data hphase call hc
      rw [Bool.eq_false_iff]
      intro habandoned
      have hzero := ((hsound.good c call hc).abandoned habandoned).2
      obtain ⟨⟨c', hleft⟩, -⟩ :=
        hsound.all_cancelled hc hzero caller hcaller (by simp [TTSCaller.Joined, hphase])
      rw [hphase] at hleft
      cases hleft
  · intro caller hcaller c d hphase
    have hgood := hsound.callers caller hcaller
    rw [GoodCaller, hphase] at hgood
    cases c with
    | none => exact hgood.2 d rfl
    | some c => exact hgood.2 d rfl

/-- Nothing cached and nobody there. -/
def idle : TTSFlights ℕ ℕ := ⟨fun _ => none, fun _ => none, fun _ => none, [], [], []⟩

/-- Two callers share one call; the first one is cancelled, the second one gets the data. -/
theorem single_flight_shared : ∃ s : TTSFlights ℕ ℕ, s.Reached ∧ s.calls.length = 1 ∧
    s.callers.length = 2 ∧ (∀ k c, s.inflight k = some c →
      ∃ call, s.calls[c]? = some call ∧ call.key = k ∧ call.unfinished = true) ∧
    ∀ caller ∈ s.callers, ∀ c d, caller.phase = .returned c (some d) → (caller.key, d) ∈ s.made := by
  have hrun : (replay step (fun _ _ => True) idle
      [.call 5, .call 5, .check 0, .readMemory 0, .readDisk 0, .join 0, .check 1, .readMemory 1,
        .readDisk 1, .join 1, .cancel 0, .seeCancelled 0, .leave 0, .complete 0 (some 7), .cache 0,
        .writeDisk 0 true, .unregister 0, .close 0, .receiveDone 1, .deferredCancel 0]).any
      (fun s => s.calls.length = 1 ∧ s.callers.length = 2) = true := by decide
  obtain ⟨s, hs, hlengths⟩ := (Option.any_eq_true _ _).mp hrun
  rw [decide_eq_true_eq] at hlengths
  have hidle : idle.Started := ⟨fun _ => rfl, by simp [idle], fun _ => rfl, rfl, rfl⟩
  have hreplay : Reachable Started (Steps step fun _ _ => True) s :=
    replay_reachable _ _ (.start hidle) hs
  have hreach : s.Reached := hreplay.mono (fun _ _ _ hstep => hstep.2)
  have hflight := single_flight hreach
  exact ⟨s, hreach, hlengths.1, hlengths.2, hflight.2.2.2.2, hflight.2.2.2.1⟩

end TTSFlights

end ZReader.Services
