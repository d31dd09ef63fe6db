import ZReader.Frontend.SpeechBuffer

namespace ZReader.Frontend.SpeechBuffer

open Lib.Bisection SpeechTree

/-! ## Code points -/

theorem characters_flatten (text : Text) : (characters text).flatten = text := by
  fun_induction characters text with
  | case1 => rfl
  | case2 c => rfl
  | case3 c d text hpair ih =>
      rw [List.flatten_cons, ih, List.cons_append, List.cons_append, List.nil_append]
  | case4 c d text hpair ih => rw [List.flatten_cons, ih, List.cons_append, List.nil_append]

theorem ne_nil_of_mem_characters {text c : Text} (hc : c ∈ characters text) : c ≠ [] := by
  fun_induction characters text with
  | case1 => cases hc
  | case2 c => simp_all
  | case3 c d text hpair ih =>
      rcases List.mem_cons.mp hc with rfl | hc
      · exact List.cons_ne_nil _ _
      · exact ih hc
  | case4 c d text hpair ih =>
      rcases List.mem_cons.mp hc with rfl | hc
      · exact List.cons_ne_nil _ _
      · exact ih hc

theorem length_characters_le (text : Text) : (characters text).length ≤ text.length := by
  fun_induction characters text with
  | case1 => exact le_rfl
  | case2 c => exact le_rfl
  | case3 c d text hpair ih =>
      rw [List.length_cons, List.length_cons, List.length_cons]
      omega
  | case4 c d text hpair ih =>
      rw [List.length_cons, List.length_cons]
      omega

/-- The length of the first code points of a text. -/
def boundary (text : Text) (i : Nat) : Nat := ((characters text).take i).flatten.length

theorem getD_scanl (l : List Text) (offset : Nat) {i : Nat} (hi : i ≤ l.length) :
    (l.scanl (fun offset c => offset + c.length) offset).getD i 0 = offset + (l.take i).flatten.length := by
  induction l generalizing offset i with
  | nil =>
      rw [List.length_nil, Nat.le_zero] at hi
      simp [hi]
  | cons c l ih =>
      cases i with
      | zero => simp
      | succ i =>
          rw [List.scanl_cons, List.getD_cons_succ, ih _ (by simpa using hi), List.take_succ_cons,
            List.flatten_cons, List.length_append, Nat.add_assoc]

theorem offsets_getD (text : Text) {i : Nat} (hi : i ≤ (characters text).length) :
    (offsets text).getD i 0 = boundary text i := by
  rw [offsets, getD_scanl _ _ hi, Nat.zero_add, boundary]

theorem offsets_length (text : Text) : (offsets text).length = (characters text).length + 1 := by
  rw [offsets, List.length_scanl]

theorem boundary_zero (text : Text) : boundary text 0 = 0 := rfl

theorem boundary_last (text : Text) : boundary text (characters text).length = text.length := by
  rw [boundary, List.take_length, characters_flatten]

theorem boundary_lt {text : Text} {i j : Nat} (hij : i < j) (hj : j ≤ (characters text).length) :
    boundary text i < boundary text j := by
  have hsplit : (characters text).take j = (characters text).take i ++
      ((characters text).drop i).take (j - i) := by
    rw [← List.take_add, Nat.add_sub_cancel' hij.le]
  obtain ⟨c, hc⟩ : ∃ c, c ∈ ((characters text).drop i).take (j - i) := by
    refine List.exists_mem_of_length_pos ?_
    rw [List.length_take, List.length_drop]
    omega
  have hpos := List.length_pos_iff.mpr
    (ne_nil_of_mem_characters (List.mem_of_mem_drop (List.mem_of_mem_take hc)))
  have hle := (List.sublist_flatten_of_mem hc).length_le
  rw [boundary, boundary, hsplit, List.flatten_append, List.length_append]
  omega

/-! ## The end of a slice -/

namespace PendingSentence

variable {Seconds Rate : Type} [Arithmetic Seconds] (platform : Platform Seconds Rate)
  (pending : PendingSentence Seconds) (rate : Rate) (budget : Seconds)

theorem widen_bounds (n : Nat) {high : Nat} (hlow : pending.position < high)
    (hhigh : high ≤ pending.length) :
    pending.position < pending.widen platform rate budget n high ∧
      pending.widen platform rate budget n high ≤ pending.length := by
  induction n generalizing high with
  | zero => exact ⟨hlow, hhigh⟩
  | succ n ih =>
      rw [widen]
      split
      · exact ih (by omega) (min_le_left _ _)
      · exact ⟨hlow, hhigh⟩

theorem beforePronunciation_bounds {best : Nat} (hlow : pending.position < best) :
    pending.position < pending.beforePronunciation platform rate budget best ∧
      pending.beforePronunciation platform rate budget best ≤ best := by
  rw [beforePronunciation]
  split
  · exact first_bounds _ hlow
  · exact ⟨hlow, le_rfl⟩

theorem candidate_bounds (h : pending.position < pending.length) :
    pending.position < pending.candidate platform rate budget ∧
      pending.candidate platform rate budget ≤ pending.length := by
  rw [candidate]
  have hhigh : pending.position < min pending.length (pending.position + 64) := by omega
  obtain ⟨-, hwiden⟩ := pending.widen_bounds platform rate budget pending.length hhigh (min_le_left _ _)
  generalize pending.widen platform rate budget pending.length _ = high at hwiden ⊢
  have hlast : ∀ best,
      best = last (fun middle => decide (pending.duration platform rate budget middle ≤ budget))
        (pending.position + 1) high pending.position →
      best = pending.position ∨ pending.position + 1 ≤ best ∧ best ≤ high := by
    rintro _ rfl
    exact last_bounds _ (Nat.succ_pos _)
  generalize last _ _ high _ = best at hlast ⊢
  replace hlast := hlast best rfl
  have hbest : pending.position < (if best = pending.position then pending.position + 1 else best) ∧
      (if best = pending.position then pending.position + 1 else best) ≤ pending.length := by
    split <;> omega
  have hbefore := pending.beforePronunciation_bounds platform rate budget hbest.1
  exact ⟨hbefore.1, hbefore.2.trans hbest.2⟩

theorem shorten_bounds (n : Nat) {best : Nat} (hlow : pending.position < best) :
    pending.position < pending.shorten platform rate budget n best ∧
      pending.shorten platform rate budget n best ≤ best := by
  induction n generalizing best with
  | zero => exact ⟨hlow, le_rfl⟩
  | succ n ih =>
      rw [shorten]
      split
      · next hlong =>
        have hgap : pending.position + 1 < best := by
          simp only [Bool.and_eq_true, decide_eq_true_eq] at hlong
          exact hlong.2
        have hhalf : pending.position < pending.position + max 1 ((best - pending.position) / 2) := by omega
        obtain ⟨hlow', hhigh⟩ := ih hhalf
        exact ⟨hlow', hhigh.trans (by omega)⟩
      · exact ⟨hlow, le_rfl⟩

/-- A slice holds its part of the sentence. -/
theorem slice_eq_some {best : Nat} {entry : BufferedSentence Seconds}
    (h : pending.slice platform rate budget best = some entry) :
    entry.text =
        SpeechTree.slice pending.sentence.text (pending.offset pending.position) (pending.offset best) ∧
      entry.start = pending.offset pending.position ∧ entry.sourceIndex = pending.sourceIndex ∧
      entry.sentenceText = pending.sentence.text ∧ ∃ rawRoot, entry.rawRoot = some rawRoot ∧
        isElement rawRoot = true ∧
        sliceSSML platform.toEstimator pending.tree (pending.offset pending.position)
          (pending.offset best) rate
          budget = some rawRoot := by
  obtain ⟨rawRoot, hroot, rfl⟩ := Option.map_eq_some_iff.mp h
  obtain ⟨hslice, helement⟩ := Option.filter_eq_some_iff.mp hroot
  refine ⟨?_, rfl, rfl, rfl, rawRoot, rfl, helement, hslice⟩
  dsimp only
  split
  · next hwhole => rw [hwhole.1, hwhole.2.1, SpeechTree.slice, List.take_length, List.drop_zero]
  · rfl

end PendingSentence

/-! ## One round of reading -/

/-- What is still to be read of a pending sentence is its text from its position on. -/
structure PendingSentence.Good {Seconds : Type} (pending : PendingSentence Seconds) : Prop where
  offsets : pending.offsets = SpeechBuffer.offsets pending.sentence.text
  position : pending.position < (characters pending.sentence.text).length

theorem PendingSentence.Good.length {Seconds : Type} {pending : PendingSentence Seconds}
    (h : pending.Good) :
    pending.length = (characters pending.sentence.text).length := by
  rw [PendingSentence.length, h.offsets, offsets_length, Nat.add_sub_cancel]

theorem PendingSentence.Good.offset {Seconds : Type} {pending : PendingSentence Seconds}
    (h : pending.Good) {i : Nat}
    (hi : i ≤ (characters pending.sentence.text).length) :
    pending.offset i = boundary pending.sentence.text i := by
  rw [PendingSentence.offset, h.offsets, offsets_getD _ hi]

/-- An entry holds some code points of its sentence, from one to another. -/
structure BufferedSentence.Cuts {Seconds : Type} (entry : BufferedSentence Seconds)
    (first last : Nat) : Prop where
  lt : first < last
  le : last ≤ (characters entry.sentenceText).length
  start : entry.start = boundary entry.sentenceText first
  text : entry.text = slice entry.sentenceText (boundary entry.sentenceText first)
    (boundary entry.sentenceText last)

/-- The speakable sentences that a source is still to yield. -/
def speakable {Seconds Rate : Type} (platform : Platform Seconds Rate) (source : List Item) :
    List TTSSentence :=
  source.filterMap fun
    | .sentence sentence => if isSkippableTTSText platform sentence.text then none else some sentence
    | .failure => none

namespace TTSSpeechBuffer

section Speaks

variable {Seconds Rate : Type} (platform : Platform Seconds Rate)

/-- The document of a sentence has its text. -/
def Written (sentence : TTSSentence) : Prop :=
  textContent (speechRoot platform sentence) = sentence.text

/-- The nodes that an entry adds to a chunk have its text. -/
def Speaks (entry : BufferedSentence Seconds) : Prop :=
  textContents (childNodes (getRawRoot platform entry)) = entry.text

/-- A sentence that is kept whole is parsed later, or read as its text. -/
theorem speaks_whole {platform : Platform Seconds Rate} {sentence : TTSSentence}
    (h : Written platform sentence) (sourceIndex : Nat)
    (durationAtBaseRate : Seconds) :
    Speaks platform ⟨sentence.text, sentence.ssml, sourceIndex, sentence.text, none, none,
      durationAtBaseRate, 0⟩ := by
  rw [Written, speechRoot] at h
  rw [Speaks, getRawRoot]
  dsimp only
  cases herror : (platform.parseFromString sentence.ssml).hasParserError with
  | true =>
      rw [if_pos rfl]
      exact List.append_nil _
  | false =>
      rw [herror] at h
      rw [if_neg Bool.false_ne_true]
      exact h

end Speaks

variable {Seconds Rate : Type} [Arithmetic Seconds] {platform : Platform Seconds Rate}
  {b : TTSSpeechBuffer Seconds}
  {targetSeconds : Seconds} {settings : TTSSettings Rate}

theorem textContents_childNodes {node : Node} (h : isElement node = true) :
    textContents (childNodes node) = textContent node := by
  cases node with
  | text data => cases h
  | element element children => rfl

/-- A slice has its part of the tree. -/
theorem speaks_slice {pending : PendingSentence Seconds} {entry : BufferedSentence Seconds} {rate : Rate}
    {budget : Seconds} {best : Nat} (hslice : pending.slice platform rate budget best = some entry)
    (htree : pending.tree = indexSSML platform.toEstimator (speechRoot platform pending.sentence))
    (h : Written platform pending.sentence) : Speaks platform entry := by
  obtain ⟨htext, -, -, -, rawRoot, hraw, helement, hroot⟩ := pending.slice_eq_some platform _ _ hslice
  have hcontent := text_sliceSSML platform.toEstimator (speechRoot platform pending.sentence)
    (pending.offset pending.position) (pending.offset best) rate budget
  rw [htree] at hroot
  rw [hroot, h] at hcontent
  rw [Speaks, getRawRoot, hraw, htext, ← hcontent]
  exact (textContents_childNodes helement).trans (List.append_nil _).symm

/-- A slice that is appended goes from the position to a later one. -/
theorem appendNext_eq_ok {pending : PendingSentence Seconds} {next : TTSSpeechBuffer Seconds}
    (hgood : pending.Good)
    (h : b.appendNext platform pending targetSeconds settings = .ok next) :
    ∃ entry best, entry.Cuts pending.position best ∧ entry.sourceIndex = pending.sourceIndex ∧
      entry.sentenceText = pending.sentence.text ∧
      (pending.tree = indexSSML platform.toEstimator (speechRoot platform pending.sentence) →
        Written platform pending.sentence → Speaks platform entry) ∧
      next = { b.push entry with
        pending := if best = pending.length then none else some { pending with position := best } } := by
  rw [appendNext] at h
  have hposition : pending.position < pending.length := hgood.length ▸ hgood.position
  have hcandidate := pending.candidate_bounds platform settings.rate
    (min platform.maxSliceSeconds targetSeconds) hposition
  have hshorten := pending.shorten_bounds platform settings.rate
    (min platform.maxSliceSeconds targetSeconds)
    (pending.candidate platform settings.rate (min platform.maxSliceSeconds targetSeconds)) hcandidate.1
  generalize
    pending.shorten platform settings.rate (min platform.maxSliceSeconds targetSeconds) _ _ = best
    at h hshorten
  have hbest := hshorten.2.trans hcandidate.2
  cases hslice : pending.slice platform settings.rate (min platform.maxSliceSeconds targetSeconds) best with
  | none => simp [hslice] at h
  | some entry =>
      obtain ⟨htext, hstart, hsource, hsentence, -⟩ := pending.slice_eq_some platform _ _ hslice
      simp only [hslice] at h
      split at h
      · cases h
      · cases h
        rw [hgood.length] at hbest
        refine ⟨entry, best, ⟨hshorten.1, ?_, ?_, ?_⟩, hsource, hsentence, speaks_slice hslice, rfl⟩
        · rwa [hsentence]
        · rw [hstart, hsentence, hgood.offset hgood.position.le]
        · rw [htext, hsentence, hgood.offset hgood.position.le, hgood.offset hbest]

/-- What a round of the loop of `ensure` does. -/
inductive Pulls (platform : Platform Seconds Rate) (b : TTSSpeechBuffer Seconds) :
    TTSSpeechBuffer Seconds → Prop
  | slice {pending : PendingSentence Seconds} {entry : BufferedSentence Seconds} {best : Nat} :
      b.pending = some pending → entry.Cuts pending.position best →
      entry.sourceIndex = pending.sourceIndex → entry.sentenceText = pending.sentence.text →
      (pending.tree = indexSSML platform.toEstimator (speechRoot platform pending.sentence) →
        Written platform pending.sentence → Speaks platform entry) →
      Pulls platform b { b.push entry with
        pending := if best = pending.length then none else some { pending with position := best } }
  | whole {sentence : TTSSentence} {source : List Item} {entry : BufferedSentence Seconds} :
      b.pending = none → b.source = .sentence sentence :: source →
        isSkippableTTSText platform sentence.text = false →
      entry.text = sentence.text → entry.start = 0 → entry.sourceIndex = b.sourceIndex →
      entry.sentenceText = sentence.text → (Written platform sentence → Speaks platform entry) →
      Pulls platform b ({ b with source := source, sourceIndex := b.sourceIndex + 1 }.push entry)
  | begin {sentence : TTSSentence} {source : List Item} {pending : PendingSentence Seconds} :
      b.pending = none → b.source = .sentence sentence :: source →
        isSkippableTTSText platform sentence.text = false →
      pending.sentence = sentence → pending.offsets = offsets sentence.text → pending.position = 0 →
      pending.sourceIndex = b.sourceIndex →
      pending.tree = indexSSML platform.toEstimator (speechRoot platform sentence) →
      Pulls platform b
        { b with source := source, sourceIndex := b.sourceIndex + 1, pending := some pending }
  | skip {item : Item} {source : List Item} :
      b.pending = none → b.source = item :: source → speakable platform [item] = [] →
      Pulls platform b { b with source := source }
  | finish : b.pending = none → b.source = [] → Pulls platform b { b with done := true }

theorem pull_spec (hgood : ∀ pending ∈ b.pending, pending.Good) {next : TTSSpeechBuffer Seconds}
    {failure : Option Failure}
    (h : b.pull platform targetSeconds settings = (next, failure)) :
    Pulls platform b next ∨ next = b ∧ failure ≠ none := by
  rw [pull] at h
  split at h
  · next pending hpending =>
    cases happend : b.appendNext platform pending targetSeconds settings with
    | ok result =>
        obtain ⟨entry, best, hcuts, hsource, hsentence, hspeaks, rfl⟩ :=
          appendNext_eq_ok (hgood pending hpending) happend
        rw [happend] at h
        cases h
        exact .inl (.slice hpending hcuts hsource hsentence hspeaks)
    | error e =>
        rw [happend] at h
        cases h
        exact .inr ⟨rfl, by simp⟩
  · next hpending =>
    split at h
    · next hsource =>
      cases h
      exact .inl (.finish hpending hsource)
    · next source hsource =>
      cases h
      exact .inl (.skip hpending hsource rfl)
    · next sentence source hsource =>
      split at h
      · next hskip =>
        cases h
        exact .inl (.skip hpending hsource (by simp [speakable, hskip]))
      · next hskip =>
        rw [Bool.not_eq_true] at hskip
        cases h
        rw [beginSentence]
        split
        · exact .inl (.whole hpending hsource hskip rfl rfl rfl rfl
            fun hwritten => speaks_whole hwritten _ _)
        · exact .inl (.begin hpending hsource hskip rfl rfl rfl rfl rfl)

end TTSSpeechBuffer

end ZReader.Frontend.SpeechBuffer
