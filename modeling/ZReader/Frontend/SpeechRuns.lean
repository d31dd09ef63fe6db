import ZReader.Frontend.SpeechChunks

namespace ZReader.Frontend.SpeechBuffer

open SpeechTree Lib.Transition

namespace TTSSpeechBuffer

variable {Seconds Rate : Type} {platform : Platform Seconds Rate} {all : List TTSSentence}
  {b next : TTSSpeechBuffer Seconds}

/-! ## The nodes of the slices -/

/-- The index of a pending sentence is that of its document, and where documents have the text of
their sentences, slices have the nodes of their texts. -/
structure Spoken [Arithmetic Seconds] (platform : Platform Seconds Rate) (all : List TTSSentence)
    (b : TTSSpeechBuffer Seconds) : Prop where
  tree : ∀ pending ∈ b.pending,
    pending.tree = indexSSML platform.toEstimator (speechRoot platform pending.sentence)
  nodes : (∀ sentence ∈ all, Written platform sentence) → ∀ entry ∈ b.issued, Speaks platform entry

theorem new_spoken [Arithmetic Seconds] (source : List Item) :
    (new source : TTSSpeechBuffer Seconds).Spoken platform all :=
  ⟨by simp [new], by simp [new]⟩

theorem Spoken.push [Arithmetic Seconds] (h : b.Spoken platform all) {entry : BufferedSentence Seconds}
    {result : TTSSpeechBuffer Seconds} (hissued : result.issued = b.issued ++ [entry])
    (htree : ∀ pending ∈ result.pending,
      pending.tree = indexSSML platform.toEstimator (speechRoot platform pending.sentence))
    (hspeaks : (∀ sentence ∈ all, Written platform sentence) → Speaks platform entry) :
    result.Spoken platform all := by
  refine ⟨htree, fun hwritten other hother => ?_⟩
  rw [hissued] at hother
  rcases List.mem_append.mp hother with hother | hother
  · exact h.nodes hwritten other hother
  · rw [List.mem_singleton.mp hother]
    exact hspeaks hwritten

theorem Pulls.spoken [Arithmetic Seconds] (hsound : b.Sound platform all) (h : b.Spoken platform all)
    (hpulls : Pulls platform b next) : next.Spoken platform all := by
  cases hpulls with
  | @slice pending entry best hpending hcuts hsource hsentence hspeaks =>
      have htree := h.tree pending hpending
      refine h.push rfl (fun later hlater => ?_) fun hwritten => hspeaks htree ?_
      · dsimp only at hlater
        split at hlater
        · cases hlater
        · cases hlater
          exact htree
      · exact hwritten _ (List.mem_of_getElem? (hsound.pending pending hpending).2.2)
  | @whole sentence source entry hpending hsource hskip htext hstart hindex hsentence hspeaks =>
      refine h.push rfl h.tree fun hwritten => hspeaks ?_
      exact hwritten _ (List.mem_of_getElem? (hsound.next_sentence hsource hskip).1)
  | @begin sentence source pending hpending hsource hskip hsentence hoffsets hposition hindex htree =>
      refine ⟨fun later hlater => ?_, h.nodes⟩
      cases hlater
      rw [hsentence]
      exact htree
  | skip hpending | finish hpending => exact ⟨h.tree, h.nodes⟩

/-! ## Nothing is left out -/

/-- The slices so far make up the sentences before the place of the next slice, and the part of its
sentence before it. -/
structure Gapless (all : List TTSSentence) (b : TTSSpeechBuffer Seconds) : Prop where
  text : b.issued.flatMap BufferedSentence.text = (all.take b.upcoming.1).flatMap TTSSentence.text ++
    ((all[b.upcoming.1]?).elim [] TTSSentence.text).take b.upcoming.2
  own : ∀ i sentence, all[i]? = some sentence →
    (b.issued.filter (·.sourceIndex = i)).flatMap BufferedSentence.text =
      if i < b.upcoming.1 then sentence.text
      else if i = b.upcoming.1 then sentence.text.take b.upcoming.2 else []

theorem take_append_slice (text : Text) {start stop : Nat} (h : start ≤ stop) :
    text.take start ++ slice text start stop = text.take stop := by
  have hsplit := List.take_append_drop start (text.take stop)
  rwa [List.take_take, min_eq_left h] at hsplit

theorem Gapless.push (h : b.Gapless all) {entry : BufferedSentence Seconds}
    {result : TTSSpeechBuffer Seconds}
    {sentence : TTSSentence} (hissued : result.issued = b.issued ++ [entry])
    (hplace : entry.place = b.upcoming)
    (hall : all[entry.sourceIndex]? = some sentence)
    (htext : entry.text = slice sentence.text entry.start (entry.start + entry.text.length))
    (hupcoming : result.upcoming = (entry.sourceIndex, entry.start + entry.text.length) ∨
      result.upcoming = (entry.sourceIndex + 1, 0) ∧
        entry.start + entry.text.length = sentence.text.length) :
    result.Gapless all := by
  have hindex : entry.sourceIndex = b.upcoming.1 := congrArg Prod.fst hplace
  have hstart : entry.start = b.upcoming.2 := congrArg Prod.snd hplace
  have hjoin := take_append_slice sentence.text (Nat.le_add_right entry.start entry.text.length)
  rw [← htext] at hjoin
  constructor
  · have hsofar := h.text
    rw [← hindex, ← hstart, hall, Option.elim_some] at hsofar
    rw [hissued, List.flatMap_append, List.flatMap_singleton, hsofar, List.append_assoc, hjoin]
    rcases hupcoming with hupcoming | ⟨hupcoming, hend⟩
    · rw [hupcoming, hall, Option.elim_some]
    · rw [hupcoming, hend, List.take_length, List.take_zero, List.append_nil, List.take_add_one,
        hall, List.flatMap_append]
      simp
  · intro i other hother
    have hown := h.own i other hother
    rw [← hindex, ← hstart] at hown
    rw [hissued, List.filter_append, List.flatMap_append, hown]
    by_cases hi : entry.sourceIndex = i
    · subst hi
      cases hall.symm.trans hother
      rw [if_neg (lt_irrefl _), if_pos rfl]
      rcases hupcoming with hupcoming | ⟨hupcoming, hend⟩
      · rw [hupcoming]
        simp [hjoin]
      · rw [hupcoming]
        simp [hjoin, hend]
    · have hnone : [entry].filter (fun entry => entry.sourceIndex = i) = [] := by simp [hi]
      rw [hnone, List.flatMap_nil, List.append_nil]
      rcases hupcoming with hupcoming | ⟨hupcoming, -⟩
      · rw [hupcoming]
        simp only [Ne.symm hi, if_false]
      · rw [hupcoming]
        grind

theorem Gapless.of_upcoming (h : b.Gapless all) (hissued : next.issued = b.issued)
    (hupcoming : next.upcoming = b.upcoming) :
    next.Gapless all := by
  constructor
  · rw [hissued, hupcoming]
    exact h.text
  · rw [hissued, hupcoming]
    exact h.own

theorem Pulls.gapless [Arithmetic Seconds] (hsound : b.Sound platform all) (h : b.Gapless all)
    (hpulls : Pulls platform b next) :
    next.Gapless all := by
  cases hpulls with
  | @slice pending entry best hpending hcuts hsource hsentence hspeaks =>
      obtain ⟨hgood, hindex, hall⟩ := hsound.pending pending hpending
      have hbest := hcuts.le
      rw [hsentence] at hbest
      refine h.push rfl ?_ (hsource ▸ hall) ?_ ?_
      · rw [BufferedSentence.place, upcoming_of_some hpending, hsource, hcuts.start, hsentence,
          hgood.offset hgood.position.le]
      · rw [hcuts.stop, hcuts.start, ← hsentence]
        exact hcuts.text
      · split
        · next hlast =>
          right
          rw [hcuts.stop, hlast, hgood.length, hsentence, boundary_last, hsource, hindex]
          exact ⟨upcoming_of_none rfl, rfl⟩
        · left
          rw [upcoming_of_some rfl, hcuts.stop, hsource, hsentence, ← hgood.offset hbest]
          rfl
  | @whole sentence source entry hpending hsource hskip htext hstart hindex hsentence hspeaks =>
      obtain ⟨hall, -⟩ := hsound.next_sentence hsource hskip
      refine h.push rfl ?_ (hindex ▸ hall) ?_ (.inr ⟨?_, ?_⟩)
      · rw [BufferedSentence.place, upcoming_of_none hpending, hindex, hstart]
      · rw [hstart, Nat.zero_add, htext, SpeechTree.slice, List.take_length, List.drop_zero]
      · rw [hindex]
        exact upcoming_of_none hpending
      · rw [hstart, htext, Nat.zero_add]
  | @begin sentence source pending hpending hsource hskip hsentence hoffsets hposition hindex htree =>
      refine h.of_upcoming rfl ?_
      have hzero : pending.offset 0 = 0 := by
        rw [PendingSentence.offset, hoffsets, offsets_getD _ (Nat.zero_le _), boundary_zero]
      rw [upcoming_of_some rfl, upcoming_of_none hpending, hindex, hposition, hzero]
  | skip hpending | finish hpending => exact h.of_upcoming rfl rfl

theorem new_gapless (source : List Item) : (new source : TTSSpeechBuffer Seconds).Gapless all := by
  constructor
  · simp [new, upcoming]
  · intro i sentence _
    have hnothing : ([] : Text) =
        if i < 0 then sentence.text else if i = 0 then sentence.text.take 0 else [] := by
      rw [if_neg (Nat.not_lt_zero i), List.take_zero, ite_self]
    exact hnothing

/-- What a buffer that is read keeps. -/
structure Read [Arithmetic Seconds] (platform : Platform Seconds Rate) (all : List TTSSentence)
    (b : TTSSpeechBuffer Seconds) : Prop where
  sound : b.Sound platform all
  gapless : b.Gapless all
  spoken : b.Spoken platform all

theorem Moves.read [Arithmetic Seconds] (h : b.Read platform all) (hmoves : Moves platform b next) :
    next.Read platform all := by
  cases hmoves with
  | pull hpulls =>
      exact ⟨hpulls.sound h.sound, hpulls.gapless h.sound h.gapless, hpulls.spoken h.sound h.spoken⟩
  | evict hstop =>
      exact ⟨h.sound.evict hstop, h.gapless.of_upcoming rfl rfl, ⟨h.spoken.tree, h.spoken.nodes⟩⟩

theorem Gapless.so_far (h : b.Gapless all) :
    b.issued.flatMap BufferedSentence.text <+: all.flatMap TTSSentence.text := by
  have hall := congrArg (List.flatMap TTSSentence.text) (List.take_append_drop b.upcoming.1 all)
  rw [h.text, ← hall, List.flatMap_append]
  refine (List.prefix_append_right_inj _).mpr ?_
  cases hsentence : all[b.upcoming.1]? with
  | none => simp
  | some sentence =>
      rw [← List.head?_drop] at hsentence
      obtain ⟨rest, hrest⟩ := List.head?_eq_some_iff.mp hsentence
      rw [hrest, Option.elim_some, List.flatMap_cons]
      exact (List.take_prefix _ _).trans (List.prefix_append _ _)

theorem Gapless.complete (h : b.Gapless all) (hupcoming : b.upcoming = (all.length, 0)) :
    b.issued.flatMap BufferedSentence.text = all.flatMap TTSSentence.text := by
  rw [h.text, hupcoming]
  simp

theorem moved_read [Arithmetic Seconds] (h : b.Read platform all)
    (hmoved : Relation.ReflTransGen (Moves platform) b next) : next.Read platform all := by
  induction hmoved with
  | refl => exact h
  | tail _ hmoves ih => exact hmoves.read ih

end TTSSpeechBuffer

/-! ## Reading from the start to the end -/

/-- A buffer that is read one chunk after the other. -/
structure Reading (Seconds : Type) where
  buffer : TTSSpeechBuffer Seconds
  next : Nat
  chunks : List (TTSSpeechBuffer.TTSAudioChunk Seconds)
  /-- A call has returned nothing. -/
  finished : Bool

namespace Reading

open TTSSpeechBuffer

variable {Seconds Rate : Type} {platform : Platform Seconds Rate} {all : List TTSSentence}
  {r r' : Reading Seconds}

def new (source : List Item) : Reading Seconds := ⟨.new source, 0, [], false⟩

/-- The slices of a chunk. -/
def slices (r : Reading Seconds) (chunk : TTSAudioChunk Seconds) : List (BufferedSentence Seconds) :=
  (r.buffer.issued.drop chunk.startIndex).take (chunk.endIndex + 1 - chunk.startIndex)

structure Sound [Arithmetic Seconds] (platform : Platform Seconds Rate) (all : List TTSSentence)
    (r : Reading Seconds) : Prop where
  buffer : r.buffer.Read platform all
  base : r.buffer.baseIndex ≤ r.next
  next : r.next ≤ r.buffer.issued.length
  chunks : r.chunks.flatMap r.slices = r.buffer.issued.take r.next
  within : ∀ chunk ∈ r.chunks, chunk.endIndex < r.next
  contents : ∀ chunk ∈ r.chunks, chunk.nodes = nodesAfter platform none (r.slices chunk) ∧
    ∃ settings, chunk.ssml = platform.buildAzureSSML chunk.nodes settings
  finished : r.finished = true → r.buffer.done = true ∧ r.buffer.stop ≤ r.next

theorem new_sound [Arithmetic Seconds] (source : List Item) :
    (new source : Reading Seconds).Sound platform (speakable platform source) where
  buffer := ⟨TTSSpeechBuffer.new_sound source, new_gapless source, new_spoken source⟩
  base := le_rfl
  next := le_rfl
  chunks := rfl
  within := by simp [new]
  contents := by simp [new]
  finished := by simp [new]

theorem drop_take_eq {α : Type} {l l' : List α} (h : l <+: l') (start : Nat) {stop : Nat}
    (hstop : stop ≤ l.length) :
    (l'.drop start).take (stop - start) = (l.drop start).take (stop - start) := by
  obtain ⟨back, rfl⟩ := h
  by_cases hstart : start ≤ l.length
  · rw [List.drop_append_of_le_length hstart,
      List.take_append_of_le_length (by rw [List.length_drop]; omega)]
  · have hzero : stop - start = 0 := by omega
    rw [hzero, List.take_zero, List.take_zero]

variable [Arithmetic Seconds] {call : Seconds × TTSSettings Rate}

/-- The slices of earlier chunks stay. -/
theorem Sound.slices_kept (h : r.Sound platform all) {buffer : TTSSpeechBuffer Seconds}
    (hissued : r.buffer.issued <+: buffer.issued) (next : Nat) (chunks : List (TTSAudioChunk Seconds))
    (finished : Bool) {chunk : TTSAudioChunk Seconds} (hchunk : chunk ∈ r.chunks) :
    (⟨buffer, next, chunks, finished⟩ : Reading Seconds).slices chunk = r.slices chunk :=
  drop_take_eq hissued _ (Nat.succ_le_of_lt ((h.within chunk hchunk).trans_le h.next))

/-- They are what has been read. -/
theorem Sound.extend (h : r.Sound platform all) {buffer : TTSSpeechBuffer Seconds}
    (hissued : r.buffer.issued <+: buffer.issued) (finished : Bool) :
    r.chunks.flatMap ({ r with buffer, finished } : Reading Seconds).slices =
      buffer.issued.take r.next := by
  rw [List.flatMap_congr fun chunk hchunk => h.slices_kept hissued r.next r.chunks finished hchunk,
    h.chunks]
  exact (drop_take_eq hissued 0 h.next).symm

theorem Sound.contents_kept (h : r.Sound platform all) {buffer : TTSSpeechBuffer Seconds}
    (hissued : r.buffer.issued <+: buffer.issued) (next : Nat) (chunks : List (TTSAudioChunk Seconds))
    (finished : Bool) : ∀ chunk ∈ r.chunks,
    chunk.nodes = nodesAfter platform none
        ((⟨buffer, next, chunks, finished⟩ : Reading Seconds).slices chunk) ∧
      ∃ settings, chunk.ssml = platform.buildAzureSSML chunk.nodes settings := by
  intro chunk hchunk
  rw [h.slices_kept hissued next chunks finished hchunk]
  exact h.contents chunk hchunk

/-- A call of `chunk` with a finite positive target. After a call that throws, its start is
repeated. -/
def step (platform : Platform Seconds Rate) (r : Reading Seconds) (call : Seconds × TTSSettings Rate) :
    Option (Reading Seconds) :=
  if platform.isFinite call.1 = true ∧ ¬ call.1 ≤ 0 then
    let result := r.buffer.readChunk platform r.next call.1 call.2
    match result.2 with
    | .ok (some chunk) => some ⟨result.1, chunk.endIndex + 1, r.chunks ++ [chunk], r.finished⟩
    | .ok none => some { r with buffer := result.1, finished := true }
    | .error _ => some { r with buffer := result.1 }
  else none

def Reached (platform : Platform Seconds Rate) (source : List Item) (r : Reading Seconds) : Prop :=
  Reachable (· = new source) (Steps (step platform) fun _ _ => True) r

/-- After the end there is nothing to read. -/
theorem readChunk_of_done {b : TTSSpeechBuffer Seconds} (hdone : b.done = true) {startIndex : Nat}
    (hstop : b.stop ≤ startIndex) {targetSeconds : Seconds} {settings : TTSSettings Rate} :
    b.readChunk platform startIndex targetSeconds settings = (b, .ok none) := by
  rw [readChunk]
  split
  · rfl
  · have hfound : decide (startIndex < b.stop) = false := decide_eq_false (not_lt.mpr hstop)
    rw [ensure_of_exit (.inl hdone), hfound, Bool.and_false]

theorem step_sound (h : r.Sound platform all) (hstep : r.step platform call = some r') :
    r'.Sound platform all := by
  rw [step] at hstep
  split at hstep
  · next htarget =>
    have hreads := readChunk_spec h.buffer.sound r.next call.1 call.2
    have hfinished : r.finished = true →
        r.buffer.readChunk platform r.next call.1 call.2 = (r.buffer, .ok none) :=
      fun hfinished => readChunk_of_done (h.finished hfinished).1 (h.finished hfinished).2
    generalize r.buffer.readChunk platform r.next call.1 call.2 = result at hreads hfinished hstep
    obtain ⟨buffer, outcome⟩ := result
    obtain ⟨hsound, hmoved, hissued, hbase, hchunk, hended⟩ := hreads
    have hread := moved_read h.buffer hmoved
    have hnext := h.next.trans hissued.length_le
    have hkept : r.finished = true → buffer.done = true ∧ buffer.stop ≤ r.next := by
      intro hdone
      cases hfinished hdone
      exact h.finished hdone
    cases outcome with
    | error failure =>
        cases hstep
        exact ⟨hread, hbase.2 h.base, hnext, h.extend hissued _, h.within,
          h.contents_kept hissued _ _ _, hkept⟩
    | ok chunk =>
        cases chunk with
        | none =>
            cases hstep
            exact ⟨hread, hbase.2 h.base, hnext, h.extend hissued _, h.within,
              h.contents_kept hissued _ _ _, fun _ => hended rfl htarget.1 htarget.2 h.base⟩
        | some chunk =>
            cases hstep
            obtain ⟨hstart, hle, hlt, hnodes, hssml⟩ := hchunk chunk rfl
            have hnew : slices
                (⟨buffer, chunk.endIndex + 1, r.chunks ++ [chunk], r.finished⟩ : Reading Seconds) chunk =
                (buffer.issued.drop r.next).take (chunk.endIndex + 1 - r.next) := by
              rw [slices, hstart]
            refine ⟨hread, (hbase.2 h.base).trans (hle.trans (Nat.le_succ _)), hlt, ?_, ?_, ?_, ?_⟩
            · have hold := h.extend hissued r.finished
              rw [List.flatMap_append, List.flatMap_singleton, hnew]
              refine (congrArg (· ++ _) hold).trans ?_
              rw [← List.take_add, Nat.add_sub_cancel' (hle.trans (Nat.le_succ _))]
            · intro earlier hearlier
              rcases List.mem_append.mp hearlier with hearlier | hearlier
              · exact (h.within earlier hearlier).trans_le (hle.trans (Nat.le_succ _))
              · rw [List.mem_singleton.mp hearlier]
                exact Nat.lt_succ_self _
            · intro earlier hearlier
              rcases List.mem_append.mp hearlier with hearlier | hearlier
              · exact h.contents_kept hissued _ _ _ earlier hearlier
              · rw [List.mem_singleton.mp hearlier, hnew]
                exact ⟨hnodes, call.2, hssml⟩
            · intro hdone
              cases hfinished hdone
  · cases hstep

theorem Reached.sound {source : List Item} (h : Reached platform source r) :
    r.Sound platform (speakable platform source) := by
  refine Reachable.invariant (Sound platform (speakable platform source)) ?_ ?_ h
  · rintro _ rfl
    exact new_sound source
  · rintro r call r' hsound ⟨-, hstep⟩
    exact step_sound hsound hstep

theorem step_issued (h : r.Sound platform all) (hstep : r.step platform call = some r') :
    r.buffer.issued <+: r'.buffer.issued := by
  rw [step] at hstep
  split at hstep
  · have hissued := (readChunk_spec h.buffer.sound r.next call.1 call.2).issued
    generalize r.buffer.readChunk platform r.next call.1 call.2 = result at hissued hstep
    obtain ⟨buffer, outcome⟩ := result
    cases outcome with
    | error failure =>
        cases hstep
        exact hissued
    | ok chunk => cases chunk <;> (cases hstep; exact hissued)
  · cases hstep

/-- The slices that are issued later come after the earlier ones. -/
theorem replay_issued (h : r.Sound platform all) {calls : List (Seconds × TTSSettings Rate)}
    (hcalls : replay (step platform) (fun _ _ => True) r calls = some r') :
    r.buffer.issued <+: r'.buffer.issued ∧ r'.Sound platform all := by
  induction calls generalizing r with
  | nil =>
      cases hcalls
      exact ⟨List.prefix_refl _, h⟩
  | cons call calls ih =>
      rw [replay, if_pos trivial] at hcalls
      obtain ⟨later, hstep, hcalls⟩ := Option.bind_eq_some_iff.mp hcalls
      obtain ⟨hissued, hsound⟩ := ih (step_sound h hstep) hcalls
      exact ⟨(step_issued h hstep).trans hissued, hsound⟩

/-- What has been issued are consecutive parts of the sentences, from one code point to another. -/
structure Slices (all : List TTSSentence) (issued : List (BufferedSentence Seconds)) : Prop where
  consecutive : issued.IsChain fun entry later =>
    later.place = (entry.sourceIndex, entry.start + entry.text.length) ∨
      later.place = (entry.sourceIndex + 1, 0)
  cut : ∀ entry ∈ issued, entry.text ≠ [] ∧ ∃ first last, entry.Cuts first last
  sentence : ∀ entry ∈ issued, (all[entry.sourceIndex]?).map TTSSentence.text = some entry.sentenceText

/-- The slices of a sentence so far. -/
def ownText (r : Reading Seconds) (i : Nat) : Text :=
  (r.buffer.issued.filter (·.sourceIndex = i)).flatMap BufferedSentence.text

theorem Sound.spoken (h : r.Sound platform all) (hwritten : ∀ sentence ∈ all, Written platform sentence) :
    r.chunks.flatMap (fun chunk => textContents chunk.nodes) =
      (r.chunks.flatMap r.slices).flatMap BufferedSentence.text := by
  rw [List.flatMap_assoc]
  refine List.flatMap_congr fun chunk hchunk => ?_
  rw [(h.contents chunk hchunk).1]
  refine text_nodesAfter none fun entry hentry => h.buffer.spoken.nodes hwritten entry ?_
  exact List.mem_of_mem_drop (List.mem_of_mem_take hentry)

theorem Sound.kept (h : r.Sound platform all) {calls : List (Seconds × TTSSettings Rate)}
    (hcalls : replay (step platform) (fun _ _ => True) r calls = some r') {i : Nat}
    {entry : BufferedSentence Seconds} (hentry : r.buffer.entry i = some entry) :
    r'.buffer.issued[i]? = some entry ∧
      (r'.buffer.baseIndex ≤ i → r'.buffer.entry i = some entry) := by
  obtain ⟨hissued, hlater⟩ := replay_issued h hcalls
  have hbase : r.buffer.baseIndex ≤ i := by
    rw [TTSSpeechBuffer.entry] at hentry
    split at hentry
    · assumption
    · cases hentry
  rw [h.buffer.sound.entry hbase] at hentry
  have hkept : r'.buffer.issued[i]? = some entry := by
    obtain ⟨back, hback⟩ := hissued
    rw [← hback, List.getElem?_append_left (List.getElem?_eq_some_iff.mp hentry).1, hentry]
  exact ⟨hkept, fun hle => (hlater.buffer.sound.entry hle).trans hkept⟩

theorem Sound.parts (h : r.Sound platform all) : Slices all r.buffer.issued where
  consecutive := h.buffer.sound.chain
  cut := by
    intro entry hentry
    obtain ⟨⟨first, last, hcuts⟩, -⟩ := h.buffer.sound.entries entry hentry
    exact ⟨List.length_pos_iff.mp hcuts.text_pos, first, last, hcuts⟩
  sentence := fun entry hentry => (h.buffer.sound.entries entry hentry).2

theorem Sound.own (h : r.Sound platform all) {i : Nat} {sentence : TTSSentence}
    (hi : all[i]? = some sentence) :
    r.ownText i <+: sentence.text ∧
      ((∃ entry ∈ r.buffer.issued, i < entry.sourceIndex) ∨ r.finished = true →
        r.ownText i = sentence.text) := by
  have hown := h.buffer.gapless.own i sentence hi
  constructor
  · rw [ownText, hown]
    split
    · exact List.prefix_refl _
    · split
      · exact List.take_prefix _ _
      · exact List.nil_prefix
  · intro hread
    rw [ownText, hown, if_pos]
    rcases hread with ⟨entry, hentry, hlt⟩ | hfinished
    · exact hlt.trans_le (h.buffer.sound.source_le hentry)
    · rw [h.buffer.sound.upcoming_of_done (h.finished hfinished).1]
      exact (List.getElem?_eq_some_iff.mp hi).1

/-- A call that throws leaves the place of the next chunk. -/
theorem step_throws {call : Seconds × TTSSettings Rate} {failure : Failure}
    (herror : (r.buffer.readChunk platform r.next call.1 call.2).2 = .error failure)
    (hstep : r.step platform call = some r') : r'.next = r.next ∧ r'.chunks = r.chunks := by
  rw [step] at hstep
  split at hstep
  · simp only [herror] at hstep
    cases hstep
    exact ⟨rfl, rfl⟩
  · cases hstep

theorem Sound.whole (h : r.Sound platform all) (hfinished : r.finished = true) :
    (r.chunks.flatMap r.slices).flatMap BufferedSentence.text = all.flatMap TTSSentence.text := by
  obtain ⟨hdone, hstop⟩ := h.finished hfinished
  rw [h.buffer.sound.stop] at hstop
  rw [h.chunks, List.take_of_length_le hstop]
  exact h.buffer.gapless.complete (h.buffer.sound.upcoming_of_done hdone)

/-- However it is read, a buffer issues the slices of its sentences in order and for good, without
a gap; a chunk is built of the nodes of its slices, and the chunks until the end hold all slices.
Where documents have the text of their sentences, the chunks have the text of all sentences. -/
theorem reads_everything_once (platform : Platform Seconds Rate) (source : List Item) (r : Reading Seconds)
    (h : Reached platform source r) :
    (∀ calls r', replay (step platform) (fun _ _ => True) r calls = some r' →
      ∀ i entry, r.buffer.entry i = some entry → r'.buffer.issued[i]? = some entry ∧
        (r'.buffer.baseIndex ≤ i → r'.buffer.entry i = some entry)) ∧
    Slices (speakable platform source) r.buffer.issued ∧
    (∀ i sentence, (speakable platform source)[i]? = some sentence → r.ownText i <+: sentence.text ∧
      ((∃ entry ∈ r.buffer.issued, i < entry.sourceIndex) ∨ r.finished = true →
        r.ownText i = sentence.text)) ∧
    (∀ call failure r', (r.buffer.readChunk platform r.next call.1 call.2).2 = .error failure →
      r.step platform call = some r' → r'.next = r.next ∧ r'.chunks = r.chunks ∧
        r'.buffer.issued.flatMap BufferedSentence.text <+:
          (speakable platform source).flatMap TTSSentence.text) ∧
    (∀ chunk ∈ r.chunks, chunk.nodes = nodesAfter platform none (r.slices chunk) ∧
      ∃ settings, chunk.ssml = platform.buildAzureSSML chunk.nodes settings) ∧
    (r.finished = true →
      (r.chunks.flatMap r.slices).flatMap BufferedSentence.text =
        (speakable platform source).flatMap TTSSentence.text ∧
      ((∀ sentence ∈ speakable platform source, Written platform sentence) →
        r.chunks.flatMap (fun chunk => textContents chunk.nodes) =
          (speakable platform source).flatMap TTSSentence.text)) := by
  have hsound := h.sound
  refine ⟨fun _ _ hcalls _ _ hentry => hsound.kept hcalls hentry, hsound.parts,
    fun _ _ hi => hsound.own hi, fun call failure r' herror hstep => ?_, hsound.contents,
    fun hfinished => ⟨hsound.whole hfinished, fun hwritten => ?_⟩⟩
  · obtain ⟨hnext, hchunks⟩ := step_throws herror hstep
    exact ⟨hnext, hchunks, (step_sound hsound hstep).buffer.gapless.so_far⟩
  · exact (hsound.spoken hwritten).trans (hsound.whole hfinished)

/-- A sentence of three slices, a blank one and one of a single slice. -/
def blankBetween : List Item := [sampleSentence "abcde", sampleSentence " ", sampleSentence "fg"]

theorem reads_everything_once_twoSentences : ∃ r : Reading Nat,
    Reached samplePlatform blankBetween r ∧ r.chunks.length = 2 ∧
      r.chunks.flatMap (fun chunk => textContents chunk.nodes) = ascii "abcdefg" := by
  have hrun : ((replay (step samplePlatform) (fun _ _ => True) (new blankBetween)
      [(4, sampleSettings), (4, sampleSettings), (1, sampleSettings)]).map
        fun r => (r.chunks.length, r.finished)) = some (2, true) := by decide +kernel
  obtain ⟨r, hr, hresult⟩ := Option.map_eq_some_iff.mp hrun
  have hreached : Reached samplePlatform blankBetween r := replay_reachable _ _ (.start rfl) hr
  have hread := (reads_everything_once samplePlatform _ r hreached).2.2.2.2.2 (congrArg Prod.snd hresult)
  have hwritten : ∀ sentence ∈ speakable samplePlatform blankBetween,
      Written samplePlatform sentence := by
    intro sentence hsentence
    have hsame : (speakable samplePlatform blankBetween).all
        (fun sentence => sentence.ssml = sentence.text) = true := by decide +kernel
    have hssml := of_decide_eq_true (List.all_eq_true.mp hsame sentence hsentence)
    exact (List.append_nil _).trans hssml
  exact ⟨r, hreached, congrArg Prod.fst hresult, (hread.2 hwritten).trans (by decide +kernel)⟩

end Reading

end ZReader.Frontend.SpeechBuffer
