import ZReader.Frontend.Playback

namespace ZReader.Frontend.Playback

open Lib.Transition

/-- The call of `speak` that a step continues. -/
def Action.speech : Action → Option Nat
  | .prefetched i _ _ | .fetched i _ | .played i _ => some i
  | _ => none

/-- The calls that ask for playback. -/
def Action.restarts : Action → Bool
  | .speak _ _ _ | .resume => true
  | _ => false

namespace BackendTTS

variable {p p' t : BackendTTS} {a : Action} {i : Nat} {speech : Speech}

/-- The source of the element. -/
def source (p : BackendTTS) : Option Nat := p.audio.bind (·.src)

/-! ## What a step can do -/

/-- What comes of a call of `speak` when what it waits for has settled. -/
inductive Continues (p : BackendTTS) (i : Nat) (speech : Speech) : BackendTTS → Prop
  | failed (controller : Option Nat) :
      Continues p i speech ({ p with abortController := controller }.fail i speech)
  | fetching (h : speech.requestId = p.playbackRequestId) :
      Continues p i speech (p.fetchAudioBlob i speech)
  | installed (h : speech.requestId = p.playbackRequestId) (controller : Option Nat) :
      Continues p i speech ({ p with abortController := controller }.playAudio i speech)
  | resolved (h : speech.requestId = p.playbackRequestId) (hphase : speech.phase = .starting) :
      Continues p i speech { p with
        replacingSource := false
        state := .playing
        speeches := p.speeches.set i { speech with phase := .resolved } }

theorem step_speech (h : p.step a = some p') (ha : a.speech = some i) :
    ∃ speech, p.speeches[i]? = some speech ∧ speech.phase ≠ .resolved ∧ Continues p i speech p' := by
  cases a with
  | prefetched i ok ready =>
      cases ha
      obtain ⟨speech, hs, h⟩ := Option.bind_eq_some_iff.mp h
      refine ⟨speech, hs, ?_⟩
      unfold prefetched at h
      split at h
      · cases h
      · next hphase =>
        refine ⟨by rw [not_or, not_not] at hphase; simp [hphase.1], ?_⟩
        split at h
        · cases h
          exact .failed p.abortController
        · next hcurrent =>
          have hreq : speech.requestId = p.playbackRequestId := by
            rw [not_or, not_not] at hcurrent
            exact hcurrent.2
          split at h
          · cases h
            exact .installed hreq p.abortController
          · cases h
            exact .fetching hreq
  | fetched i ok =>
      cases ha
      obtain ⟨speech, hs, h⟩ := Option.bind_eq_some_iff.mp h
      refine ⟨speech, hs, ?_⟩
      unfold fetched at h
      split at h
      · cases h
      · next hphase =>
        refine ⟨by rw [not_not] at hphase; simp [hphase], ?_⟩
        dsimp only at h
        split at h
        · cases h
          exact .failed _
        · next hcurrent =>
          rw [not_or, not_not] at hcurrent
          cases h
          exact .installed hcurrent.2 _
  | played i ok =>
      cases ha
      obtain ⟨speech, hs, h⟩ := Option.bind_eq_some_iff.mp h
      refine ⟨speech, hs, ?_⟩
      unfold played at h
      split at h
      · cases h
      · next hphase =>
        rw [not_not] at hphase
        refine ⟨by simp [hphase], ?_⟩
        split at h
        · cases h
          exact .failed p.abortController
        · next hcurrent =>
          rw [not_or, not_not] at hcurrent
          cases h
          exact .resolved hcurrent.2 hphase
  | _ => cases ha

/-- A superseded call only takes note of its failure. -/
theorem Continues.of_superseded (h : Continues p i speech p')
    (hne : speech.requestId ≠ p.playbackRequestId) :
    ∃ controller, p' = { p with
      abortController := controller
      speeches := p.speeches.set i { speech with phase := .rejected } } := by
  cases h with
  | failed controller =>
      refine ⟨controller, ?_⟩
      rw [fail, if_neg hne]
      rfl
  | fetching h => exact absurd h hne
  | installed h => exact absurd h hne
  | resolved h => exact absurd h hne

theorem Continues.speeches (h : Continues p i speech p') :
    ∃ phase, p'.speeches = p.speeches.set i { speech with phase := phase } ∧
      (speech.requestId ≠ p.playbackRequestId → phase = .rejected) := by
  cases h with
  | failed controller =>
      refine ⟨.rejected, ?_, fun _ => rfl⟩
      rw [fail]
      split <;> rfl
  | fetching h => exact ⟨.fetching, rfl, fun hne => absurd h hne⟩
  | installed h => exact ⟨.starting, rfl, fun hne => absurd h hne⟩
  | resolved h => exact ⟨.resolved, rfl, fun hne => absurd h hne⟩

theorem Continues.requests (h : Continues p i speech p') :
    p'.playbackRequestId = p.playbackRequestId ∧ p'.resumptions = p.resumptions ∧
      p'.speechId = p.speechId ∧ p'.wantsPlayback = p.wantsPlayback := by
  cases h with
  | failed controller =>
      rw [fail]
      split <;> exact ⟨rfl, rfl, rfl, rfl⟩
  | fetching h => exact ⟨rfl, rfl, rfl, rfl⟩
  | installed h => exact ⟨rfl, rfl, rfl, rfl⟩
  | resolved h => exact ⟨rfl, rfl, rfl, rfl⟩

/-- An event changes the element and the state that is shown, and of the marks of the
player only that it is replacing its source. -/
structure Shows (p p' : BackendTTS) : Prop where
  playbackRequestId : p'.playbackRequestId = p.playbackRequestId
  speeches : p'.speeches = p.speeches
  resumptions : p'.resumptions = p.resumptions
  speechId : p'.speechId = p.speechId
  audioSpeechId : p'.audioSpeechId = p.audioSpeechId
  wantsPlayback : p'.wantsPlayback = p.wantsPlayback
  created : p'.created = p.created
  marks : p'.marks = p.marks
  source : p'.source = p.source

/-- The delivery of a `play` event that starts to show the state `playing`. -/
def Reports (p : BackendTTS) (a : Action) : Prop :=
  ∃ k audio url, a = .deliver k ∧ p.audio = some audio ∧ audio.queue[k]? = some .play ∧
    audio.handlers = some url ∧ p.audioUrl = some url ∧ p.wantsPlayback = true

theorem handle_shows {audio : AudioElement} (haudio : p.audio = some audio) (url : Nat)
    (e : MediaEvent) : Shows p (p.handle audio url e) ∧
      ((p.handle audio url e).state = .playing → p.state = .playing ∨
        e = .play ∧ p.audioUrl = some url ∧ p.wantsPlayback = true) := by
  have hsame : Shows p p := ⟨rfl, rfl, rfl, rfl, rfl, rfl, rfl, rfl, rfl⟩
  cases e with
  | play =>
      rw [handle]
      split
      · exact ⟨hsame, Or.inl⟩
      · next hcurrent =>
        rw [not_not] at hcurrent
        split
        · refine ⟨⟨rfl, rfl, rfl, rfl, rfl, rfl, rfl, rfl, ?_⟩, Or.inl⟩
          rw [source, source, haudio]
          exact AudioElement.pause_src _
        · next hwants =>
          rw [Bool.not_eq_false] at hwants
          exact ⟨⟨rfl, rfl, rfl, rfl, rfl, rfl, rfl, rfl, rfl⟩,
            fun _ => Or.inr ⟨rfl, hcurrent, hwants⟩⟩
  | pause =>
      rw [handle]
      split
      · exact ⟨hsame, Or.inl⟩
      · split
        · exact ⟨⟨rfl, rfl, rfl, rfl, rfl, rfl, rfl, rfl, rfl⟩, nofun⟩
        · exact ⟨hsame, Or.inl⟩
  | error =>
      rw [handle]
      split
      · exact ⟨hsame, Or.inl⟩
      · exact ⟨⟨rfl, rfl, rfl, rfl, rfl, rfl, rfl, rfl, rfl⟩, nofun⟩
  | ended => exact ⟨hsame, Or.inl⟩
  | timeupdate => exact ⟨hsame, Or.inl⟩

theorem Shows.trans {q : BackendTTS} (h : Shows p p') (h' : Shows p' q) : Shows p q where
  playbackRequestId := h'.playbackRequestId.trans h.playbackRequestId
  speeches := h'.speeches.trans h.speeches
  resumptions := h'.resumptions.trans h.resumptions
  speechId := h'.speechId.trans h.speechId
  audioSpeechId := h'.audioSpeechId.trans h.audioSpeechId
  wantsPlayback := h'.wantsPlayback.trans h.wantsPlayback
  created := h'.created.trans h.created
  marks := h'.marks.trans h.marks
  source := h'.source.trans h.source

theorem step_deliver {k : Nat} (h : p.step (.deliver k) = some p') :
    Shows p p' ∧ (p'.state = .playing → p.state = .playing ∨ p.Reports (.deliver k)) := by
  obtain ⟨audio, haudio, h⟩ := Option.bind_eq_some_iff.mp h
  obtain ⟨e, he, hp'⟩ := Option.map_eq_some_iff.mp h
  have htaken : Shows p { p with audio := some { audio with queue := audio.queue.eraseIdx k } } :=
    ⟨rfl, rfl, rfl, rfl, rfl, rfl, rfl, rfl, by rw [source, source, haudio]; rfl⟩
  dsimp only at hp'
  split at hp'
  · next url hurl =>
    obtain ⟨hshows, hplays⟩ := @handle_shows { p with
      audio := some { audio with queue := audio.queue.eraseIdx k } } _ rfl url e
    rw [← hp']
    refine ⟨htaken.trans hshows, fun hplaying => ?_⟩
    rcases hplays hplaying with hbefore | ⟨rfl, hcurrent, hwants⟩
    · exact Or.inl hbefore
    · exact Or.inr ⟨k, audio, url, rfl, haudio, he, hurl, hcurrent, hwants⟩
  · rw [← hp']
    exact ⟨htaken, Or.inl⟩

theorem step_browser {e : MediaEvent} (h : p.step (.browser e) = some p') :
    Shows p p' ∧ p'.state = p.state := by
  obtain ⟨audio, haudio, rfl⟩ := Option.map_eq_some_iff.mp h
  refine ⟨⟨rfl, rfl, rfl, rfl, rfl, rfl, rfl, rfl, ?_⟩, rfl⟩
  rw [source, source, haudio]
  exact AudioElement.browser_src audio e

theorem abortBoth_speeches (p : BackendTTS) (i : Nat) :
    p.abortBoth.speeches[i]? = (p.speeches[i]?).map fun speech => { speech with
      waitAborted := speech.waitAborted || p.playbackWaitController = some i
      fetchAborted := speech.fetchAborted || p.abortController = some i } := by
  rw [abortBoth]
  exact List.getElem?_mapIdx

/-! ## The calls that are under way -/

/-- What a step leaves of a call. Only a step of the call itself, under the current request,
takes it further. -/
def Later (p : BackendTTS) (a : Action) (i : Nat) (speech speech' : Speech) : Prop :=
  speech'.requestId = speech.requestId ∧
    (a.speech ≠ some i ∨ speech.requestId ≠ p.playbackRequestId →
      speech'.phase = speech.phase ∨ speech'.phase = .rejected)

@[simp] theorem abortBoth_length (p : BackendTTS) :
    p.abortBoth.speeches.length = p.speeches.length := by
  rw [abortBoth, List.length_mapIdx]

/-- What is left of the calls by a `speak` that does not refuse its text. -/
structure Speaks (p p' : BackendTTS) : Prop where
  playbackRequestId : p'.playbackRequestId = p.playbackRequestId + 1
  speechId : p'.speechId = p.speechId + 1
  resumptions : p'.resumptions = p.resumptions
  state : p'.state = p.state
  speeches : ∃ speech : Speech, p'.speeches = p.abortBoth.speeches ++ [speech] ∧
    speech.requestId = p.playbackRequestId + 1 ∧
    (speech.phase = .starting → p'.audioSpeechId = p'.speechId)

theorem supersede_set (p : BackendTTS) (ssml : String) (marks : List TTSMark) (speech : Speech) :
    (p.supersede ssml marks).speeches.set p.speeches.length speech =
      p.abortBoth.speeches ++ [speech] := by
  rw [supersede, List.set_append_right _ _ (by simp)]
  simp

theorem speak_speaks (p : BackendTTS) {ssml : String} (hsize : isSSMLTooLarge ssml = false)
    (marks : List TTSMark) (supply : Supply) : Speaks p (p.speak ssml marks supply) := by
  have hset := p.supersede_set ssml marks
  unfold speak
  rw [if_neg (by simp [hsize])]
  cases supply with
  | ready => exact ⟨rfl, rfl, rfl, rfl, _, hset _, rfl, fun _ => rfl⟩
  | prefetching => exact ⟨rfl, rfl, rfl, rfl, _, rfl, rfl, nofun⟩
  | missing => exact ⟨rfl, rfl, rfl, rfl, _, hset _, rfl, nofun⟩

theorem speak_of_large {ssml : String} (hsize : isSSMLTooLarge ssml = true)
    (marks : List TTSMark) (supply : Supply) : p.speak ssml marks supply = p := by
  unfold speak
  rw [if_pos hsize]

/-- What is left of the calls by a `resume` that does not throw at once. -/
structure Resumes (p p' : BackendTTS) : Prop where
  current : p.audioSpeechId = p.speechId
  playbackRequestId : p'.playbackRequestId = p.playbackRequestId + 1
  speechId : p'.speechId = p.speechId
  audioSpeechId : p'.audioSpeechId = p.audioSpeechId
  speeches : p'.speeches = p.speeches
  resumptions : ∃ phase, p'.resumptions = p.resumptions ++ [⟨p.playbackRequestId + 1, phase⟩]

theorem resume_resumes (h : p.hasCurrentAudio = true) : Resumes p p.resume := by
  have hcurrent : p.audioSpeechId = p.speechId := by
    simp only [hasCurrentAudio, Bool.and_eq_true, decide_eq_true_eq] at h
    exact h.1.1.2
  rw [resume, if_pos h]
  dsimp only
  split
  · exact ⟨hcurrent, rfl, rfl, rfl, rfl, _, rfl⟩
  · exact ⟨hcurrent, rfl, rfl, rfl, rfl, _, rfl⟩

theorem resume_of_stale (h : p.hasCurrentAudio = false) : p.resume = p := by
  rw [resume, if_neg (by simp [h])]

/-- What comes of a call of `resume` when the promise of `play()` has settled. -/
theorem step_resumed {j : Nat} {ok : Bool} (h : p.step (.resumed j ok) = some p') :
    ∃ resumption, p.resumptions[j]? = some resumption ∧ resumption.phase = .starting ∧
      ((p' = { p with resumptions := p.resumptions.set j { resumption with phase := .rejected } }) ∨
        resumption.requestId = p.playbackRequestId ∧
        p' = { p with
          state := .playing
          resumptions := p.resumptions.set j { resumption with phase := .resolved } }) := by
  obtain ⟨resumption, hr, h⟩ := Option.bind_eq_some_iff.mp h
  unfold resumed at h
  split at h
  · cases h
  · next hphase =>
    rw [not_not] at hphase
    refine ⟨resumption, hr, hphase, ?_⟩
    split at h
    · cases h
      exact Or.inl rfl
    · next hcurrent =>
      rw [not_or, not_or, not_not] at hcurrent
      cases h
      exact Or.inr ⟨hcurrent.2.1, rfl⟩

theorem abortBoth_later (hi : p.speeches[i]? = some speech) :
    ∃ speech', p.abortBoth.speeches[i]? = some speech' ∧ Later p a i speech speech' := by
  rw [abortBoth_speeches, hi]
  exact ⟨_, rfl, rfl, fun _ => Or.inl rfl⟩

theorem speeches_step (h : p.step a = some p') (hi : p.speeches[i]? = some speech) :
    ∃ speech', p'.speeches[i]? = some speech' ∧ Later p a i speech speech' := by
  have hsame : Later p a i speech speech := ⟨rfl, fun _ => Or.inl rfl⟩
  cases hj : a.speech with
  | some j =>
      obtain ⟨running, hs, -, hcont⟩ := step_speech h hj
      obtain ⟨phase, hset, hphase⟩ := hcont.speeches
      rw [hset]
      by_cases hij : j = i
      · subst hij
        rw [hs] at hi
        cases hi
        rw [List.getElem?_set_self (List.getElem?_eq_some_iff.mp hs).1]
        refine ⟨_, rfl, rfl, fun hne => Or.inr (hphase ?_)⟩
        exact hne.resolve_left (not_not_intro hj)
      · rw [List.getElem?_set_ne hij]
        exact ⟨speech, hi, hsame⟩
  | none =>
      cases a with
      | speak ssml marks supply =>
          cases h
          cases hsize : isSSMLTooLarge ssml with
          | true =>
            rw [speak_of_large hsize]
            exact ⟨speech, hi, hsame⟩
          | false =>
            obtain ⟨new, hnew, -⟩ := (p.speak_speaks hsize marks supply).speeches
            obtain ⟨speech', hi', hlater⟩ := abortBoth_later (a := .speak ssml marks supply) hi
            rw [hnew, List.getElem?_append_left (List.getElem?_eq_some_iff.mp hi').1]
            exact ⟨speech', hi', hlater⟩
      | pause =>
          cases h
          exact abortBoth_later hi
      | stop =>
          cases h
          exact abortBoth_later hi
      | resume =>
          cases h
          refine ⟨speech, ?_, hsame⟩
          cases hcurrent : p.hasCurrentAudio with
          | true => rw [(resume_resumes hcurrent).speeches, hi]
          | false => rw [resume_of_stale hcurrent, hi]
      | resumed j ok =>
          obtain ⟨resumption, -, -, rfl | ⟨-, rfl⟩⟩ := step_resumed h
          · exact ⟨speech, hi, hsame⟩
          · exact ⟨speech, hi, hsame⟩
      | deliver k =>
          rw [(step_deliver h).1.speeches]
          exact ⟨speech, hi, hsame⟩
      | browser e =>
          rw [(step_browser h).1.speeches]
          exact ⟨speech, hi, hsame⟩
      | prefetched i ok ready => cases hj
      | fetched i ok => cases hj
      | played i ok => cases hj

theorem requests_step (h : p.step a = some p') : p.playbackRequestId ≤ p'.playbackRequestId := by
  cases hj : a.speech with
  | some j =>
      obtain ⟨running, -, -, hcont⟩ := step_speech h hj
      exact hcont.requests.1.ge
  | none =>
      cases a with
      | speak ssml marks supply =>
          cases h
          cases hsize : isSSMLTooLarge ssml with
          | true => rw [speak_of_large hsize]
          | false =>
              rw [(p.speak_speaks hsize marks supply).playbackRequestId]
              exact Nat.le_succ _
      | pause =>
          cases h
          exact Nat.le_succ _
      | stop =>
          cases h
          exact Nat.le_succ _
      | resume =>
          cases h
          cases hcurrent : p.hasCurrentAudio with
          | true =>
              rw [(resume_resumes hcurrent).playbackRequestId]
              exact Nat.le_succ _
          | false => rw [resume_of_stale hcurrent]
      | resumed j ok =>
          obtain ⟨resumption, -, -, rfl | ⟨-, rfl⟩⟩ := step_resumed h
          · exact le_rfl
          · exact le_rfl
      | deliver k => exact (step_deliver h).1.playbackRequestId.ge
      | browser e => exact (step_browser h).1.playbackRequestId.ge
      | prefetched i ok ready => cases hj
      | fetched i ok => cases hj
      | played i ok => cases hj

/-! ## Requests and the current speech -/

/-- A call that waits for `play()` under the current request has current audio. -/
structure Prepared (p : BackendTTS) : Prop where
  speeches : ∀ (i : Nat) (speech : Speech), p.speeches[i]? = some speech →
    speech.requestId ≤ p.playbackRequestId
  resumptions : ∀ r ∈ p.resumptions, r.requestId ≤ p.playbackRequestId
  starting : ∀ (i : Nat) (speech : Speech), p.speeches[i]? = some speech → speech.phase = .starting →
    speech.requestId = p.playbackRequestId → p.audioSpeechId = p.speechId
  resuming : ∀ r ∈ p.resumptions, r.phase = .starting → r.requestId = p.playbackRequestId →
    p.audioSpeechId = p.speechId

theorem prepared_new : Prepared new := ⟨by simp [new], by simp [new], by simp [new], by simp [new]⟩

/-- A step that supersedes all requests. -/
theorem Prepared.superseded (h : Prepared p)
    (hid : p'.playbackRequestId = p.playbackRequestId + 1)
    (hs : ∀ (i : Nat) (speech : Speech), p'.speeches[i]? = some speech →
      (∃ old, p.speeches[i]? = some old ∧ speech.requestId = old.requestId) ∨
        speech.requestId = p.playbackRequestId + 1 ∧
          (speech.phase = .starting → p'.audioSpeechId = p'.speechId))
    (hr : ∀ r ∈ p'.resumptions, r ∈ p.resumptions ∨
      r.requestId = p.playbackRequestId + 1 ∧ p'.audioSpeechId = p'.speechId) : Prepared p' := by
  refine ⟨?_, ?_, ?_, ?_⟩
  · intro i speech hi
    rcases hs i speech hi with ⟨old, hold, heq⟩ | ⟨heq, -⟩
    · have := h.speeches i old hold
      omega
    · omega
  · intro r hmem
    rcases hr r hmem with hold | ⟨heq, -⟩
    · have := h.resumptions r hold
      omega
    · omega
  · intro i speech hi hphase hcurrent
    rcases hs i speech hi with ⟨old, hold, heq⟩ | ⟨-, hstart⟩
    · have := h.speeches i old hold
      omega
    · exact hstart hphase
  · intro r hmem _ hcurrent
    rcases hr r hmem with hold | ⟨-, heq⟩
    · have := h.resumptions r hold
      omega
    · exact heq

/-- A step under the current request. -/
theorem Prepared.kept (h : Prepared p) (hid : p'.playbackRequestId = p.playbackRequestId)
    (hspeech : p'.speechId = p.speechId)
    (haudio : p'.audioSpeechId = p.audioSpeechId ∨ p'.audioSpeechId = p'.speechId)
    (hs : ∀ (i : Nat) (speech : Speech), p'.speeches[i]? = some speech → ∃ old, p.speeches[i]? = some old ∧
      speech.requestId = old.requestId ∧
      (speech.phase = .starting → old.phase = .starting ∨ p'.audioSpeechId = p'.speechId))
    (hr : ∀ r ∈ p'.resumptions, ∃ old ∈ p.resumptions, r.requestId = old.requestId ∧
      (r.phase = .starting → old.phase = .starting)) : Prepared p' := by
  have hcurrent : p.audioSpeechId = p.speechId → p'.audioSpeechId = p'.speechId := by
    intro heq
    rcases haudio with ha | ha
    · rw [ha, heq, hspeech]
    · exact ha
  refine ⟨?_, ?_, ?_, ?_⟩
  · intro i speech hi
    obtain ⟨old, hold, heq, -⟩ := hs i speech hi
    rw [heq, hid]
    exact h.speeches i old hold
  · intro r hmem
    obtain ⟨old, hold, heq, -⟩ := hr r hmem
    rw [heq, hid]
    exact h.resumptions old hold
  · intro i speech hi hphase hreq
    obtain ⟨old, hold, heq, hstart⟩ := hs i speech hi
    rcases hstart hphase with hstart | hstart
    · exact hcurrent (h.starting i old hold hstart (by rw [← heq, hreq, hid]))
    · exact hstart
  · intro r hmem hphase hreq
    obtain ⟨old, hold, heq, hstart⟩ := hr r hmem
    exact hcurrent (h.resuming old hold (hstart hphase) (by rw [← heq, hreq, hid]))

theorem getElem?_set_some {l : List Speech} {i j : Nat} {new : Speech}
    (h : (l.set j new)[i]? = some speech) :
    (i = j ∧ speech = new ∧ ∃ old, l[j]? = some old) ∨ (i ≠ j ∧ l[i]? = some speech) := by
  by_cases hij : j = i
  · subst hij
    rw [List.getElem?_set_self'] at h
    obtain ⟨old, hold, rfl⟩ := Option.map_eq_some_iff.mp h
    exact Or.inl ⟨rfl, rfl, old, hold⟩
  · rw [List.getElem?_set_ne hij] at h
    exact Or.inr ⟨Ne.symm hij, h⟩

theorem Prepared.continue (h : Prepared p) (hs : p.speeches[i]? = some speech)
    (hcont : Continues p i speech p') : Prepared p' := by
  obtain ⟨hid, hresumptions, hspeech, -⟩ := hcont.requests
  have hr : ∀ r ∈ p'.resumptions, ∃ old ∈ p.resumptions, r.requestId = old.requestId ∧
      (r.phase = .starting → old.phase = .starting) := by
    rw [hresumptions]
    exact fun r hmem => ⟨r, hmem, rfl, id⟩
  have hset : ∀ phase, (phase = .starting → p'.audioSpeechId = p'.speechId) →
      p'.speeches = p.speeches.set i { speech with phase := phase } →
      ∀ (j : Nat) (new : Speech), p'.speeches[j]? = some new → ∃ old, p.speeches[j]? = some old ∧
        new.requestId = old.requestId ∧
        (new.phase = .starting → old.phase = .starting ∨ p'.audioSpeechId = p'.speechId) := by
    intro phase hphase heq j new hj
    rw [heq] at hj
    rcases getElem?_set_some hj with ⟨rfl, rfl, -⟩ | ⟨-, hj⟩
    · exact ⟨speech, hs, rfl, fun hstart => Or.inr (hphase hstart)⟩
    · exact ⟨new, hj, rfl, Or.inl⟩
  cases hcont with
  | failed controller =>
      refine h.kept hid hspeech (Or.inl ?_) (hset .rejected nofun ?_) hr
      · rw [fail]
        split <;> rfl
      · rw [fail]
        split <;> rfl
  | fetching hreq => exact h.kept hid hspeech (Or.inl rfl) (hset .fetching nofun rfl) hr
  | installed hreq controller =>
      exact h.kept hid hspeech (Or.inr rfl) (hset .starting (fun _ => rfl) rfl) hr
  | resolved hreq hphase => exact h.kept hid hspeech (Or.inl rfl) (hset .resolved nofun rfl) hr

theorem Prepared.shows (h : Prepared p) (hshows : Shows p p') : Prepared p' := by
  refine h.kept hshows.playbackRequestId hshows.speechId (Or.inl hshows.audioSpeechId) ?_ ?_
  · intro i speech hi
    rw [hshows.speeches] at hi
    exact ⟨speech, hi, rfl, Or.inl⟩
  · intro r hr
    rw [hshows.resumptions] at hr
    exact ⟨r, hr, rfl, id⟩

theorem Prepared.halt (h : Prepared p) (hid : p'.playbackRequestId = p.playbackRequestId + 1)
    (hs : p'.speeches = p.abortBoth.speeches) (hr : p'.resumptions = p.resumptions) :
    Prepared p' := by
  apply h.superseded hid
  · intro i speech hi
    rw [hs, abortBoth_speeches] at hi
    obtain ⟨old, hold, rfl⟩ := Option.map_eq_some_iff.mp hi
    exact Or.inl ⟨old, hold, rfl⟩
  · intro r hmem
    rw [hr] at hmem
    exact Or.inl hmem

theorem Prepared.step (h : Prepared p) (hstep : p.step a = some p') : Prepared p' := by
  cases hj : a.speech with
  | some j =>
      obtain ⟨running, hs, -, hcont⟩ := step_speech hstep hj
      exact h.continue hs hcont
  | none =>
      cases a with
      | speak ssml marks supply =>
          cases hstep
          cases hsize : isSSMLTooLarge ssml with
          | true =>
              rw [speak_of_large hsize]
              exact h
          | false =>
              have hspeaks := p.speak_speaks hsize marks supply
              obtain ⟨new, hnew, hid, hstart⟩ := hspeaks.speeches
              apply h.superseded hspeaks.playbackRequestId
              · intro i speech hi
                rw [hnew, List.getElem?_append] at hi
                split at hi
                · rw [abortBoth_speeches] at hi
                  obtain ⟨old, hold, rfl⟩ := Option.map_eq_some_iff.mp hi
                  exact Or.inl ⟨old, hold, rfl⟩
                · rw [List.mem_singleton.mp (List.mem_of_getElem? hi)]
                  exact Or.inr ⟨hid, hstart⟩
              · intro r hmem
                rw [hspeaks.resumptions] at hmem
                exact Or.inl hmem
      | pause =>
          cases hstep
          exact h.halt rfl rfl rfl
      | stop =>
          cases hstep
          exact h.halt rfl rfl rfl
      | resume =>
          cases hstep
          cases hcurrent : p.hasCurrentAudio with
          | true =>
              have hresumes := resume_resumes hcurrent
              obtain ⟨phase, hr⟩ := hresumes.resumptions
              have haudio : p.resume.audioSpeechId = p.resume.speechId := by
                rw [hresumes.audioSpeechId, hresumes.speechId, hresumes.current]
              apply h.superseded hresumes.playbackRequestId
              · intro i speech hi
                rw [hresumes.speeches] at hi
                exact Or.inl ⟨speech, hi, rfl⟩
              · intro r hmem
                rw [hr, List.mem_append, List.mem_singleton] at hmem
                rcases hmem with hmem | rfl
                · exact Or.inl hmem
                · exact Or.inr ⟨rfl, haudio⟩
          | false =>
              rw [resume_of_stale hcurrent]
              exact h
      | resumed j ok =>
          obtain ⟨resumption, hr, hphase, hp'⟩ := step_resumed hstep
          have hold := List.mem_of_getElem? hr
          rcases hp' with rfl | ⟨-, rfl⟩
          · refine h.kept rfl rfl (Or.inl rfl) (fun i speech hi => ⟨speech, hi, rfl, Or.inl⟩) ?_
            intro r hmem
            rcases List.mem_or_eq_of_mem_set hmem with hmem | rfl
            · exact ⟨r, hmem, rfl, id⟩
            · exact ⟨resumption, hold, rfl, nofun⟩
          · refine h.kept rfl rfl (Or.inl rfl) (fun i speech hi => ⟨speech, hi, rfl, Or.inl⟩) ?_
            intro r hmem
            rcases List.mem_or_eq_of_mem_set hmem with hmem | rfl
            · exact ⟨r, hmem, rfl, id⟩
            · exact ⟨resumption, hold, rfl, nofun⟩
      | deliver k => exact h.shows (step_deliver hstep).1
      | browser e => exact h.shows (step_browser hstep).1
      | prefetched i ok ready => cases hj
      | fetched i ok => cases hj
      | played i ok => cases hj

/-- The runs of the player from a state on. -/
abbrev Run (p t : BackendTTS) : Prop := Reachable (· = p) (Steps step fun _ _ => True) t

/-- The runs in which the page does not ask for playback. -/
abbrev QuietRun (p t : BackendTTS) : Prop :=
  Reachable (· = p) (Steps step fun _ a => a.restarts = false) t

theorem Prepared.of_run (h : Run new p) : Prepared p := by
  apply h.invariant Prepared
  · rintro _ rfl
    exact prepared_new
  · exact fun _ _ _ h hstep => h.step hstep.2

/-! ## Pause and stop -/

/-- The calls that take a new request number. -/
def supersedes (p : BackendTTS) : Action → Bool
  | .speak ssml _ _ => !isSSMLTooLarge ssml
  | .resume => p.hasCurrentAudio
  | .pause | .stop => true
  | _ => false

/-- Nothing that is under way can start playback. -/
structure Silent (p : BackendTTS) : Prop where
  wantsPlayback : p.wantsPlayback = false
  state : p.state ≠ .playing
  speeches : ∀ (i : Nat) (speech : Speech), p.speeches[i]? = some speech →
    speech.requestId < p.playbackRequestId
  resumptions : ∀ r ∈ p.resumptions, r.requestId < p.playbackRequestId

theorem Prepared.silent (h : Prepared p) (hp' : p' = p.pause ∨ p' = p.stop) : Silent p' := by
  have hs : ∀ (i : Nat) (speech : Speech), p.abortBoth.speeches[i]? = some speech →
      speech.requestId < p.playbackRequestId + 1 := by
    intro i speech hi
    rw [abortBoth_speeches] at hi
    obtain ⟨old, hold, rfl⟩ := Option.map_eq_some_iff.mp hi
    exact Nat.lt_succ_of_le (h.speeches i old hold)
  have hr : ∀ r ∈ p.resumptions, r.requestId < p.playbackRequestId + 1 :=
    fun r hmem => Nat.lt_succ_of_le (h.resumptions r hmem)
  rcases hp' with rfl | rfl
  · exact ⟨rfl, nofun, hs, hr⟩
  · exact ⟨rfl, nofun, hs, hr⟩

/-- What a step that does not ask for playback keeps of a silent player. -/
theorem Silent.step (h : Silent p) (ha : a.restarts = false) (hstep : p.step a = some p') :
    Silent p' ∧ p'.created = p.created ∧ (p'.source = p.source ∨ p'.source = none) := by
  cases hj : a.speech with
  | some j =>
      obtain ⟨running, hs, -, hcont⟩ := step_speech hstep hj
      obtain ⟨controller, rfl⟩ := hcont.of_superseded (h.speeches j running hs).ne
      refine ⟨⟨h.wantsPlayback, h.state, ?_, h.resumptions⟩, rfl, Or.inl rfl⟩
      intro i speech hi
      rcases getElem?_set_some hi with ⟨rfl, rfl, -⟩ | ⟨-, hi⟩
      · exact h.speeches i running hs
      · exact h.speeches i speech hi
  | none =>
      have hlater : ∀ (i : Nat) (speech : Speech), p.abortBoth.speeches[i]? = some speech →
          speech.requestId < p.playbackRequestId + 1 := by
        intro i speech hi
        rw [abortBoth_speeches] at hi
        obtain ⟨old, hold, rfl⟩ := Option.map_eq_some_iff.mp hi
        exact Nat.lt_succ_of_lt (h.speeches i old hold)
      cases a with
      | speak ssml marks supply => cases ha
      | resume => cases ha
      | pause =>
          cases hstep
          refine ⟨⟨rfl, nofun, hlater, fun r hr => Nat.lt_succ_of_lt (h.resumptions r hr)⟩, rfl,
            Or.inl ?_⟩
          rw [source, source, pause, Option.bind_map]
          exact Option.bind_congr fun audio _ => AudioElement.pause_src audio
      | stop =>
          cases hstep
          refine ⟨⟨rfl, nofun, hlater, fun r hr => Nat.lt_succ_of_lt (h.resumptions r hr)⟩, rfl,
            Or.inr ?_⟩
          rw [source, stop, Option.bind_map]
          exact Option.bind_eq_none_iff.mpr fun _ _ => rfl
      | resumed j ok =>
          obtain ⟨resumption, hr, -, hp'⟩ := step_resumed hstep
          have hlt := h.resumptions resumption (List.mem_of_getElem? hr)
          rcases hp' with rfl | ⟨hcurrent, -⟩
          · refine ⟨⟨h.wantsPlayback, h.state, h.speeches, ?_⟩, rfl, Or.inl rfl⟩
            intro r hmem
            rcases List.mem_or_eq_of_mem_set hmem with hmem | rfl
            · exact h.resumptions r hmem
            · exact hlt
          · exact absurd hcurrent hlt.ne
      | deliver k =>
          obtain ⟨hshows, hplays⟩ := step_deliver hstep
          refine ⟨⟨hshows.wantsPlayback.trans h.wantsPlayback, ?_, ?_, ?_⟩, hshows.created,
            Or.inl hshows.source⟩
          · intro hplaying
            rcases hplays hplaying with hbefore | ⟨_, _, _, -, -, -, -, -, hwants⟩
            · exact h.state hbefore
            · rw [h.wantsPlayback] at hwants
              cases hwants
          · rw [hshows.speeches, hshows.playbackRequestId]
            exact h.speeches
          · rw [hshows.resumptions, hshows.playbackRequestId]
            exact h.resumptions
      | browser e =>
          obtain ⟨hshows, hstate⟩ := step_browser hstep
          refine ⟨⟨hshows.wantsPlayback.trans h.wantsPlayback, ?_, ?_, ?_⟩, hshows.created,
            Or.inl hshows.source⟩
          · rw [hstate]
            exact h.state
          · rw [hshows.speeches, hshows.playbackRequestId]
            exact h.speeches
          · rw [hshows.resumptions, hshows.playbackRequestId]
            exact h.resumptions
      | prefetched i ok ready => cases hj
      | fetched i ok => cases hj
      | played i ok => cases hj

theorem Silent.run (h : Silent p) (hrun : QuietRun p t) :
    Silent t ∧ t.created = p.created ∧ (t.source = p.source ∨ t.source = none) := by
  apply hrun.invariant fun t =>
    Silent t ∧ t.created = p.created ∧ (t.source = p.source ∨ t.source = none)
  · rintro _ rfl
    exact ⟨h, rfl, Or.inl rfl⟩
  · rintro q a q' ⟨hq, hcreated, hsource⟩ ⟨ha, hstep⟩
    obtain ⟨hq', hcreated', hsource'⟩ := hq.step ha hstep
    refine ⟨hq', hcreated'.trans hcreated, ?_⟩
    rcases hsource' with heq | hnone
    · rw [heq]
      exact hsource
    · exact Or.inr hnone

theorem speech_of_supersedes (ha : p.supersedes a = true) : a.speech ≠ some i := by
  cases a with
  | prefetched i ok ready => cases ha
  | fetched i ok => cases ha
  | played i ok => cases ha
  | _ => nofun

theorem superseded_step (hstep : p.step a = some p') (ha : p.supersedes a = true) :
    p.playbackRequestId < p'.playbackRequestId := by
  cases a with
  | speak ssml marks supply =>
      cases hstep
      have hsize : isSSMLTooLarge ssml = false := by simpa [supersedes] using ha
      rw [(p.speak_speaks hsize marks supply).playbackRequestId]
      exact Nat.lt_succ_self _
  | resume =>
      cases hstep
      rw [(resume_resumes ha).playbackRequestId]
      exact Nat.lt_succ_self _
  | pause =>
      cases hstep
      exact Nat.lt_succ_self _
  | stop =>
      cases hstep
      exact Nat.lt_succ_self _
  | _ => cases ha

/-- A call that has been superseded stays so, and does not resolve any more. -/
theorem superseded_run (hi : p.speeches[i]? = some speech)
    (hlt : speech.requestId < p.playbackRequestId) (hphase : speech.phase ≠ .resolved)
    (hrun : Run p t) : ∃ speech', t.speeches[i]? = some speech' ∧
      speech'.requestId < t.playbackRequestId ∧ speech'.phase ≠ .resolved := by
  apply hrun.invariant fun t => ∃ speech', t.speeches[i]? = some speech' ∧
    speech'.requestId < t.playbackRequestId ∧ speech'.phase ≠ .resolved
  · rintro _ rfl
    exact ⟨speech, hi, hlt, hphase⟩
  · rintro q a q' ⟨old, hold, hless, hopen⟩ ⟨-, hstep⟩
    obtain ⟨new, hnew, hid, hlater⟩ := speeches_step hstep hold
    have hle := requests_step hstep
    refine ⟨new, hnew, by omega, ?_⟩
    rcases hlater (Or.inr hless.ne) with heq | heq
    · rw [heq]
      exact hopen
    · rw [heq]
      nofun

/-- After `pause` and `stop`, until the page asks for playback again, the player does not
play and no source is installed. A call of `speak` that another call has superseded does
not touch source, marks and state any more, and its promise does not resolve. -/
theorem pause_and_stop_are_final (h : Run new p) :
    (∀ a p' t, a = .pause ∨ a = .stop → p.step a = some p' → QuietRun p' t →
      t.state ≠ .playing ∧ t.created = p'.created ∧ (t.source = p'.source ∨ t.source = none)) ∧
    (∀ a p' t (i : Nat) (speech : Speech), p.supersedes a = true → p.step a = some p' →
      p.speeches[i]? = some speech → speech.phase ≠ .resolved → Run p' t →
      (∃ speech', t.speeches[i]? = some speech' ∧ speech'.phase ≠ .resolved) ∧
      ∀ b t', b.speech = some i → t.step b = some t' →
        t'.source = t.source ∧ t'.created = t.created ∧ t'.marks = t.marks ∧ t'.state = t.state) := by
  have hprepared := Prepared.of_run h
  constructor
  · intro a p' t ha hstep hrun
    have hsilent : Silent p' := by
      apply hprepared.silent
      rcases ha with rfl | rfl
      · exact Or.inl (Option.some.inj hstep).symm
      · exact Or.inr (Option.some.inj hstep).symm
    obtain ⟨ht, hcreated, hsource⟩ := hsilent.run hrun
    exact ⟨ht.state, hcreated, hsource⟩
  · intro a p' t i speech ha hstep hi hphase hrun
    obtain ⟨speech', hi', hid, hlater⟩ := speeches_step hstep hi
    have hle := hprepared.speeches i speech hi
    have hlt := superseded_step hstep ha
    have hphase' : speech'.phase ≠ .resolved := by
      rcases hlater (Or.inl (speech_of_supersedes ha)) with heq | heq
      · rw [heq]
        exact hphase
      · rw [heq]
        nofun
    obtain ⟨final, hfinal, hless, hopen⟩ := superseded_run hi' (by omega) hphase' hrun
    refine ⟨⟨final, hfinal, hopen⟩, ?_⟩
    intro b t' hb hstep'
    obtain ⟨running, hs, -, hcont⟩ := step_speech hstep' hb
    rw [hfinal] at hs
    cases hs
    obtain ⟨controller, rfl⟩ := hcont.of_superseded hless.ne
    exact ⟨rfl, rfl, rfl, rfl⟩

def speakOne : Action := .speak "one" [⟨"0", "one", none⟩] .missing

def speakTwo : Action := .speak "two" [⟨"0", "two", none⟩] .missing

/-- A text whose audio arrives and plays: neither `pause` nor `stop` lets it play again. The call
for it is overtaken while it waits for the audio: whatever follows, it changes nothing. -/
theorem spokenOnce_final :
    (∃ p, Run new p ∧ p.state = .playing ∧ ∀ a p' t, a = .pause ∨ a = .stop → p.step a = some p' →
      QuietRun p' t → t.state ≠ .playing ∧ (t.source = p'.source ∨ t.source = none)) ∧
    ∃ p p' speech, Run new p ∧ p.step speakTwo = some p' ∧ p.speeches[0]? = some speech ∧
      speech.phase = .fetching ∧ ∀ t, Run p' t →
        (∃ speech', t.speeches[0]? = some speech' ∧ speech'.phase ≠ .resolved) ∧
        ∀ b t', b.speech = some 0 → t.step b = some t' → t'.source = t.source ∧ t'.state = t.state := by
  constructor
  · have hrun : (replay step (fun _ _ => True) new [speakOne, .fetched 0 true, .played 0 true]).any
        (·.state = .playing) = true := by decide +kernel
    obtain ⟨p, hp, hplaying⟩ := (Option.any_eq_true _ _).mp hrun
    rw [decide_eq_true_eq] at hplaying
    have hreach : Run new p := replay_reachable _ _ (.start rfl) hp
    refine ⟨p, hreach, hplaying, fun a p' t ha hstep ht => ?_⟩
    obtain ⟨hstate, -, hsource⟩ := (pause_and_stop_are_final hreach).1 a p' t ha hstep ht
    exact ⟨hstate, hsource⟩
  · have hrun : (replay step (fun _ _ => True) new [speakOne]).any (fun p =>
        (p.step speakTwo).isSome ∧ (p.speeches[0]?).any (·.phase = .fetching)) = true := by
      decide +kernel
    obtain ⟨p, hp, hsteps⟩ := (Option.any_eq_true _ _).mp hrun
    rw [decide_eq_true_eq] at hsteps
    obtain ⟨p', hstep⟩ := Option.isSome_iff_exists.mp hsteps.1
    obtain ⟨speech, hspeech, hphase⟩ := (Option.any_eq_true _ _).mp hsteps.2
    rw [decide_eq_true_eq] at hphase
    have hreach : Run new p := replay_reachable _ _ (.start rfl) hp
    refine ⟨p, p', speech, hreach, hstep, hspeech, hphase, fun t ht => ?_⟩
    have hovertakes : p.supersedes speakTwo = true :=
      (by decide +kernel : (!isSSMLTooLarge "two") = true)
    obtain ⟨hopen, hidle⟩ := (pause_and_stop_are_final hreach).2 speakTwo p' t 0 speech
      hovertakes hstep hspeech (by rw [hphase]; nofun) ht
    refine ⟨hopen, fun b t' hb hnext => ?_⟩
    obtain ⟨hsource, -, -, hstate⟩ := hidle b t' hb hnext
    exact ⟨hsource, hstate⟩

/-! ## Current audio -/

/-- The state becomes `playing` for audio of the current speech. -/
def BecomesCurrent (p : BackendTTS) (_ : Action) (p' : BackendTTS) : Prop :=
  p.state ≠ .playing → p'.state = .playing → p'.audioSpeechId = p'.speechId

/-- A `play` event of the source that is installed is delivered while another speech is
being prepared. -/
def Stale (p : BackendTTS) (a : Action) : Prop :=
  p.Reports a ∧ p.audioSpeechId ≠ p.speechId ∧ p.state ≠ .playing

theorem Reports.playing (h : p.Reports a) (hstep : p.step a = some p') : p'.state = .playing := by
  obtain ⟨k, audio, url, rfl, haudio, he, hurl, hcurrent, hwants⟩ := h
  rw [BackendTTS.step, haudio, Option.bind_some, deliver, he, Option.map_some] at hstep
  simp only [hurl, handle, hcurrent, hwants, ne_eq, not_true_eq_false, if_false,
    Bool.true_eq_false] at hstep
  cases hstep
  rfl

theorem Continues.state (h : Continues p i speech p') (hplaying : p'.state = .playing) :
    p.state = .playing ∨ speech.phase = .starting ∧ speech.requestId = p.playbackRequestId ∧
      p'.audioSpeechId = p.audioSpeechId := by
  cases h with
  | failed controller =>
      rw [fail] at hplaying
      split at hplaying
      · cases hplaying
      · exact Or.inl hplaying
  | fetching h => exact Or.inl hplaying
  | installed h => exact Or.inl hplaying
  | resolved h hphase => exact Or.inr ⟨hphase, h, rfl⟩

theorem Prepared.becomesCurrent (h : Prepared p) (hstep : p.step a = some p')
    (hstale : ¬ p.Stale a) : BecomesCurrent p a p' := by
  intro hbefore hplaying
  cases hj : a.speech with
  | some j =>
      obtain ⟨running, hs, -, hcont⟩ := step_speech hstep hj
      rcases hcont.state hplaying with hstate | ⟨hphase, hreq, haudio⟩
      · exact absurd hstate hbefore
      · rw [haudio, hcont.requests.2.2.1]
        exact h.starting j running hs hphase hreq
  | none =>
      cases a with
      | speak ssml marks supply =>
          cases hstep
          cases hsize : isSSMLTooLarge ssml with
          | true =>
              rw [speak_of_large hsize] at hplaying
              exact absurd hplaying hbefore
          | false =>
              rw [(p.speak_speaks hsize marks supply).state] at hplaying
              exact absurd hplaying hbefore
      | pause =>
          cases hstep
          cases hplaying
      | stop =>
          cases hstep
          cases hplaying
      | resume =>
          cases hstep
          cases hcurrent : p.hasCurrentAudio with
          | true =>
              have hresumes := resume_resumes hcurrent
              rw [hresumes.audioSpeechId, hresumes.speechId, hresumes.current]
          | false =>
              rw [resume_of_stale hcurrent] at hplaying
              exact absurd hplaying hbefore
      | resumed j ok =>
          obtain ⟨resumption, hr, hphase, rfl | ⟨hreq, rfl⟩⟩ := step_resumed hstep
          · exact absurd hplaying hbefore
          · exact h.resuming resumption (List.mem_of_getElem? hr) hphase hreq
      | deliver k =>
          obtain ⟨hshows, hplays⟩ := step_deliver hstep
          rcases hplays hplaying with hstate | hreports
          · exact absurd hstate hbefore
          · rw [hshows.audioSpeechId, hshows.speechId]
            by_contra hne
            exact hstale ⟨hreports, hne, hbefore⟩
      | browser e =>
          rw [(step_browser hstep).2] at hplaying
          exact absurd hplaying hbefore
      | prefetched i ok ready => cases hj
      | fetched i ok => cases hj
      | played i ok => cases hj

/-- In a run, the state becomes `playing` for audio of the current speech only, exactly when
no `play` event of an earlier source comes while a speech is being prepared. -/
theorem playing_is_current (l : List Action) :
    Along step BecomesCurrent new l ↔ Along step (fun p a _ => ¬ p.Stale a) new l := by
  refine along_congr (fun p a p' (hreach : Run new p) hstep => ?_) (.start rfl) l
  have hprepared := Prepared.of_run hreach
  refine ⟨?_, hprepared.becomesCurrent hstep⟩
  rintro hcurrent ⟨hreports, hne, hbefore⟩
  have hplaying := hreports.playing hstep
  obtain ⟨k, -, -, rfl, -⟩ := hreports
  have hshows := (step_deliver hstep).1
  have heq := hcurrent hbefore hplaying
  rw [hshows.audioSpeechId, hshows.speechId] at heq
  exact hne heq

instance : ∀ p a p', Decidable (BecomesCurrent p a p') :=
  fun p _ p' => inferInstanceAs (Decidable (p.state ≠ .playing → p'.state = .playing →
    p'.audioSpeechId = p'.speechId))

/-- The first audio has started when the second text is spoken, and its `play` event comes
before the second audio. -/
theorem stale_play_event : ¬ ∀ l, Along step BecomesCurrent new l := by
  intro h
  have hl := h [speakOne, .fetched 0 true, speakTwo, .deliver 0]
  revert hl
  decide +kernel

end BackendTTS

end ZReader.Frontend.Playback
