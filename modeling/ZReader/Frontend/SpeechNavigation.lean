import ZReader.Frontend.SpeechChunks

namespace ZReader.Frontend.SpeechBuffer

open SpeechTree Lib.Transition

namespace TTSSpeechBuffer

variable {Seconds Rate : Type} {platform : Platform Seconds Rate} {all : List TTSSentence}
  {b next : TTSSpeechBuffer Seconds}

/-- The first slice of a sentence is at an index. -/
def Starts (all : List TTSSentence) (b : TTSSpeechBuffer Seconds) (index sourceIndex : Nat) : Prop :=
  ∃ entry, b.entry index = some entry ∧ entry.place = (sourceIndex, 0) ∧
    (all[sourceIndex]?).map TTSSentence.text = some entry.sentenceText

/-! ## Jumps -/

/-- Where slices of the pending sentence have been issued, the latest slice is one of them. -/
theorem Sound.latest_of_pending (h : b.Sound platform all) {entry latest : BufferedSentence Seconds}
    (hentry : entry ∈ b.issued) (hlatest : b.issued.getLast? = some latest)
    {pending : PendingSentence Seconds}
    (hpending : b.pending = some pending) (hsource : pending.sourceIndex = entry.sourceIndex) :
    latest.sourceIndex = entry.sourceIndex := by
  have hfollows := h.upcoming
  have hle := h.latest_ge hlatest hentry
  rw [hlatest, upcoming_of_some hpending] at hfollows
  rcases hfollows with hplace | hplace
  · exact (congrArg Prod.fst hplace).symm.trans hsource
  · have hlater : pending.sourceIndex = latest.sourceIndex + 1 := congrArg Prod.fst hplace
    omega

theorem Sound.abandon (h : b.Sound platform all) {entry : BufferedSentence Seconds}
    (hentry : entry ∈ b.issued)
    {pending : PendingSentence Seconds} (hpending : b.pending = some pending)
    (hsource : pending.sourceIndex = entry.sourceIndex) : b.abandon.Sound platform all where
  window := by
    rw [TTSSpeechBuffer.abandon, h.stop]
    exact List.drop_length.symm
  base := h.stop.le
  begins := h.begins
  chain := h.chain
  upcoming := by
    obtain ⟨latest, hlatest⟩ := exists_latest hentry
    have hindex := (h.pending pending hpending).2.1
    have hsame := h.latest_of_pending hentry hlatest hpending hsource
    refine (congrArg (fun latest => Follows latest b.abandon.upcoming) hlatest).mpr (.inr ?_)
    rw [upcoming_of_none rfl, hsame, ← hsource, hindex]
    rfl
  entries := h.entries
  pending := by simp [TTSSpeechBuffer.abandon]
  remaining := h.remaining
  within := h.within
  done := fun hdone => ⟨(h.done hdone).1, rfl⟩

/-! ## Forward -/

section Forward

variable [Arithmetic Seconds] {settings : TTSSettings Rate}

/-- What a search forward from behind a slice of a sentence finds. -/
structure Forwards (platform : Platform Seconds Rate) (all : List TTSSentence) (b : TTSSpeechBuffer Seconds)
    (sourceIndex : Nat) (result : TTSSpeechBuffer Seconds × Except Failure (Option Nat)) : Prop where
  sound : result.1.Sound platform all
  found : ∀ index, result.2 = .ok (some index) → result.1.Starts all index (sourceIndex + 1)
  ended : result.2 = .ok none → sourceIndex + 1 = all.length

theorem forward_spec (settings : TTSSettings Rate) (n : Nat) (h : b.Sound platform all)
    {cursor : Nat} (hbase : b.baseIndex ≤ cursor + 1)
    {entry : BufferedSentence Seconds} (hentry : b.issued[cursor]? = some entry)
    (hn : b.stop + b.rounds ≤ cursor + 1 + n) :
    Forwards platform all b entry.sourceIndex
      (b.forward platform entry.sourceIndex settings n (cursor + 1)) := by
  induction n generalizing b cursor entry with
  | zero =>
      have hlt := (List.getElem?_eq_some_iff.mp hentry).1
      rw [h.stop, rounds] at hn
      omega
  | succ n ih =>
      have hensure := ensure_spec h (cursor + 1) platform.maxSliceSeconds settings
      rw [forward]
      generalize b.ensure platform (cursor + 1) platform.maxSliceSeconds settings = ensured at hensure ⊢
      obtain ⟨next, outcome⟩ := ensured
      obtain ⟨hsound, hextended, -, hfound, hended⟩ := hensure
      have hkept : next.issued[cursor]? = some entry := by
        obtain ⟨back, hback⟩ := hextended.issued
        rw [← hback, List.getElem?_append_left (List.getElem?_eq_some_iff.mp hentry).1, hentry]
      cases outcome with
      | error failure => exact ⟨hsound, by simp, by simp⟩
      | ok found =>
          cases found with
          | false =>
              refine ⟨hsound, by simp, fun _ => ?_⟩
              obtain ⟨hdone, hstop⟩ := hended rfl hbase
              exact hsound.last_of_done hdone hstop hkept
          | true =>
              dsimp only
              obtain ⟨-, hstop⟩ := hfound rfl
              have hbase' : next.baseIndex ≤ cursor + 1 := hextended.baseIndex.trans_le hbase
              rw [hsound.stop] at hstop
              have hlater : next.entry (cursor + 1) = some next.issued[cursor + 1] := by
                rw [hsound.entry hbase', List.getElem?_eq_getElem hstop]
              have hplace := hsound.follows hkept (List.getElem?_eq_getElem hstop)
              rw [hlater, Option.all_some]
              split
              · next hother =>
                have hother : next.issued[cursor + 1].sourceIndex ≠ entry.sourceIndex :=
                  of_decide_eq_true hother
                refine ⟨hsound, fun index hindex => ?_, by simp⟩
                cases hindex
                have hstarts := hplace.resolve_left fun hsame => hother (congrArg Prod.fst hsame)
                refine ⟨_, hlater, hstarts, ?_⟩
                have hsentence := (hsound.entries _ (List.getElem_mem hstop)).2
                rwa [show next.issued[cursor + 1].sourceIndex = entry.sourceIndex + 1
                  from congrArg Prod.fst hstarts]
                  at hsentence
              · next hsame =>
                have hsame : next.issued[cursor + 1].sourceIndex = entry.sourceIndex := by simpa using hsame
                have hrounds : next.stop + next.rounds ≤ b.stop + b.rounds := hextended.rounds
                have hrest := ih (b := next) hsound (hbase'.trans (Nat.le_succ _))
                  (List.getElem?_eq_getElem hstop) (by omega)
                rw [hsame] at hrest
                exact ⟨hrest.sound, hrest.found, hrest.ended⟩

end Forward

/-! ## Backward -/

/-- The walk ends above the first entry of another sentence. -/
theorem backward_spec (sourceIndex index : Nat) :
    b.backward sourceIndex index ≤ index ∧
      (∀ i, b.backward sourceIndex index ≤ i → i < index →
        ∃ entry, b.entry i = some entry ∧ entry.sourceIndex = sourceIndex) ∧
      ∀ i entry, i + 1 = b.backward sourceIndex index → b.entry i = some entry →
        entry.sourceIndex ≠ sourceIndex := by
  induction index with
  | zero => exact ⟨le_rfl, fun i _ hi => absurd hi (Nat.not_lt_zero i), fun i entry hi => by cases hi⟩
  | succ index ih =>
      rw [backward]
      split
      · next hsame =>
        obtain ⟨entry, hentry, hsource⟩ := (Option.any_eq_true _ _).mp hsame
        obtain ⟨hle, hwalked, hstopped⟩ := ih
        refine ⟨hle.trans (Nat.le_succ _), fun i hi hlt => ?_, hstopped⟩
        rcases Nat.lt_succ_iff_lt_or_eq.mp hlt with hlt | rfl
        · exact hwalked i hi hlt
        · exact ⟨entry, hentry, of_decide_eq_true hsource⟩
      · next hother =>
        refine ⟨le_rfl, fun i hi hlt => by omega, fun i entry hi hentry hsource => ?_⟩
        cases hi
        rw [hentry, Option.any_some] at hother
        exact hother (decide_eq_true hsource)

theorem entry_eq_some (h : b.Sound platform all) {index : Nat} {entry : BufferedSentence Seconds} :
    b.entry index = some entry ↔ b.baseIndex ≤ index ∧ b.issued[index]? = some entry := by
  constructor
  · intro hentry
    have hbase : b.baseIndex ≤ index := by
      rw [TTSSpeechBuffer.entry] at hentry
      split at hentry
      · assumption
      · cases hentry
    exact ⟨hbase, h.entry hbase ▸ hentry⟩
  · rintro ⟨hbase, hentry⟩
    exact (h.entry hbase).trans hentry

/-- The next slice of another sentence belongs to the next sentence. -/
theorem before_of_follows {entry later : BufferedSentence Seconds} (h : Follows (some entry) later.place)
    (hne : entry.sourceIndex ≠ later.sourceIndex) : entry.sourceIndex + 1 = later.sourceIndex := by
  rcases h with hplace | hplace
  · exact absurd (congrArg Prod.fst hplace).symm hne
  · exact (congrArg Prod.fst hplace).symm

/-- The oldest slice is not the first one of the sentence before. -/
def CutBefore (b : TTSSpeechBuffer Seconds) (entry : BufferedSentence Seconds) : Prop :=
  ∃ oldest, b.entry b.baseIndex = some oldest ∧ oldest.start ≠ 0 ∧
    oldest.sourceIndex + 1 = entry.sourceIndex

section Navigation

variable [Arithmetic Seconds] {settings : TTSSettings Rate}

/-- Forward from an entry, with or without a jump. -/
theorem forward_from (h : b.Sound platform all) {index : Nat} {entry : BufferedSentence Seconds}
    (hentry : b.entry index = some entry) :
    Forwards platform all b entry.sourceIndex
      (if b.pending.any fun pending => pending.sourceIndex = entry.sourceIndex then
        b.abandon.forward platform entry.sourceIndex settings (b.abandon.rounds + 1) b.abandon.baseIndex
      else b.forward platform entry.sourceIndex settings (b.stop + b.rounds - index) (index + 1)) := by
  obtain ⟨hbase, hissued⟩ := (entry_eq_some h).mp hentry
  have hlt := (List.getElem?_eq_some_iff.mp hissued).1
  rw [← h.stop] at hlt
  split
  · next hsame =>
    obtain ⟨pending, hpending, hsource⟩ := (Option.any_eq_true _ _).mp hsame
    have hmem := List.mem_of_getElem? hissued
    obtain ⟨latest, hlatest⟩ := exists_latest hmem
    have hjumped := h.abandon hmem hpending (of_decide_eq_true hsource)
    have hstop : b.abandon.baseIndex = b.issued.length - 1 + 1 := by
      rw [abandon]
      dsimp only
      rw [h.stop] at hlt ⊢
      omega
    have hend : b.abandon.stop = b.abandon.baseIndex := Nat.add_zero _
    have hlast : b.abandon.issued[b.issued.length - 1]? = some latest := by
      rw [List.getLast?_eq_getElem?] at hlatest
      exact hlatest
    have hrest := forward_spec settings (b.abandon.rounds + 1) hjumped hstop.le hlast (by omega)
    rw [h.latest_of_pending hmem hlatest hpending (of_decide_eq_true hsource), ← hstop] at hrest
    exact ⟨hrest.sound, hrest.found, hrest.ended⟩
  · exact forward_spec settings (b.stop + b.rounds - index) h (hbase.trans (Nat.le_succ _)) hissued
      (by omega)

theorem adjacent_forward (h : b.Sound platform all) {index : Nat} {entry : BufferedSentence Seconds}
    (hentry : b.entry index = some entry) :
    Forwards platform all b entry.sourceIndex (b.adjacentSentenceIndex platform index true settings) := by
  obtain ⟨hbase, hissued⟩ := (entry_eq_some h).mp hentry
  have hlt := (List.getElem?_eq_some_iff.mp hissued).1
  rw [← h.stop] at hlt
  rw [adjacentSentenceIndex, ensure_of_exit (.inr hlt)]
  simp only [hbase, hlt, decide_true, Bool.and_self, hentry, if_true]
  exact forward_from h hentry

/-- Going back from an entry leads to the start of the sentence before, unless the oldest slice is
in the middle of it. -/
theorem adjacent_backward (h : b.Sound platform all) {index : Nat} {entry : BufferedSentence Seconds}
    (hentry : b.entry index = some entry) :
    (∀ target, (b.adjacentSentenceIndex platform index false settings).2 = .ok (some target) →
      ∃ previous, previous + 1 = entry.sourceIndex ∧ b.Starts all target previous) ↔
        ¬ b.CutBefore entry := by
  obtain ⟨hbase, hissued⟩ := (entry_eq_some h).mp hentry
  have hlt := (List.getElem?_eq_some_iff.mp hissued).1
  rw [← h.stop] at hlt
  rw [adjacentSentenceIndex, ensure_of_exit (.inr hlt)]
  simp only [hbase, hlt, decide_true, Bool.and_self, hentry, Bool.false_eq_true, if_false]
  obtain ⟨habove, hwalked, hstopped⟩ := b.backward_spec entry.sourceIndex index
  generalize b.backward entry.sourceIndex index = above at habove hwalked hstopped ⊢
  by_cases hnone : above ≤ b.baseIndex
  · rw [if_pos hnone]
    refine iff_of_true (by simp) ?_
    rintro ⟨oldest, holdest, -, hbefore⟩
    have hsame : oldest.sourceIndex = entry.sourceIndex := by
      rcases hbase.lt_or_eq with hlt | heq
      · obtain ⟨other, hother, hsource⟩ := hwalked b.baseIndex hnone hlt
        rw [holdest] at hother
        cases hother
        exact hsource
      · rw [heq, hentry] at holdest
        cases holdest
        rfl
    omega
  · rw [if_neg hnone]
    -- The entry above is of the sentence itself, and the one before it of another sentence.
    have hlater : ∃ later, b.entry (above - 1 + 1) = some later ∧
        later.sourceIndex = entry.sourceIndex := by
      rw [Nat.sub_add_cancel (by omega)]
      rcases habove.lt_or_eq with hlt | rfl
      · exact hwalked above le_rfl hlt
      · exact ⟨entry, hentry, rfl⟩
    obtain ⟨later, hlater, hsource⟩ := hlater
    have hlater := ((entry_eq_some h).mp hlater).2
    have hlength := (List.getElem?_eq_some_iff.mp hlater).1
    have hprevious : b.entry (above - 1) = some b.issued[above - 1] :=
      (entry_eq_some h).mpr ⟨by omega, List.getElem?_eq_getElem (by omega)⟩
    have hother := hstopped (above - 1) _ (by omega) hprevious
    have hbefore := before_of_follows (h.follows ((entry_eq_some h).mp hprevious).2 hlater)
      (hsource ▸ hother)
    rw [hsource] at hbefore
    rw [hprevious]
    generalize b.issued[above - 1] = previous at hprevious hother hbefore ⊢
    dsimp only
    obtain ⟨hle, hrewalked, hrestopped⟩ := b.backward_spec previous.sourceIndex (above - 1)
    generalize b.backward previous.sourceIndex (above - 1) = target at hle hrewalked hrestopped ⊢
    have htarget : ∃ first, b.entry target = some first ∧ first.sourceIndex = previous.sourceIndex := by
      rcases hle.lt_or_eq with hlt | rfl
      · exact hrewalked target le_rfl hlt
      · exact ⟨previous, hprevious, rfl⟩
    obtain ⟨first, hfirst, hfirstSource⟩ := htarget
    obtain ⟨hbound, hissuedFirst⟩ := (entry_eq_some h).mp hfirst
    have hlands : (∀ index,
        Except.ok (some target) = (Except.ok (some index) : Except Failure (Option Nat)) →
        ∃ previous, previous + 1 = entry.sourceIndex ∧ b.Starts all index previous) ↔ first.start = 0 := by
      constructor
      · intro hstarts
        obtain ⟨before, hindex, found, hfound, hplace, -⟩ := hstarts target rfl
        rw [hfirst] at hfound
        cases hfound
        exact congrArg Prod.snd hplace
      · rintro hzero index hindex
        cases hindex
        refine ⟨first.sourceIndex, by omega, first, hfirst, ?_,
          (h.entries first (List.mem_of_getElem? hissuedFirst)).2⟩
        rw [BufferedSentence.place, hzero]
    rw [hlands]
    rcases hbound.lt_or_eq with hlt | heq
    · -- The entry before the target is of another sentence, so the target begins one.
      have hearlier : b.entry (target - 1) = some b.issued[target - 1] :=
        (entry_eq_some h).mpr ⟨by omega, List.getElem?_eq_getElem (by omega)⟩
      have hdiffers := hrestopped (target - 1) _ (by omega) hearlier
      have hfollows := h.follows ((entry_eq_some h).mp hearlier).2
        (show b.issued[target - 1 + 1]? = some first by rwa [Nat.sub_add_cancel (by omega)])
      rw [← hfirstSource] at hdiffers
      refine iff_of_true ?_ ?_
      · exact congrArg Prod.snd (hfollows.resolve_left fun hsame => hdiffers (congrArg Prod.fst hsame).symm)
      · rintro ⟨oldest, holdest, -, holdestSource⟩
        have hsorted := h.sorted_get ((entry_eq_some h).mp holdest).2
          ((entry_eq_some h).mp hearlier).2 (by omega)
        have hnext := before_of_follows hfollows hdiffers
        omega
    · constructor
      · rintro hzero ⟨oldest, holdest, hstart, -⟩
        rw [heq, hfirst] at holdest
        cases holdest
        exact hstart hzero
      · intro huncut
        by_contra hstart
        exact huncut ⟨first, heq ▸ hfirst, hstart, by omega⟩

theorem adjacent_sound (h : b.Sound platform all) (index : Nat) (isForward : Bool) :
    (b.adjacentSentenceIndex platform index isForward settings).1.Sound platform all := by
  have hensure := ensure_spec h index platform.maxSliceSeconds settings
  rw [adjacentSentenceIndex]
  generalize b.ensure platform index platform.maxSliceSeconds settings = ensured at hensure ⊢
  obtain ⟨next, outcome⟩ := ensured
  cases outcome with
  | error failure => exact hensure.sound
  | ok found =>
      cases found with
      | false => exact hensure.sound
      | true =>
          dsimp only
          cases hentry : next.entry index with
          | none => exact hensure.sound
          | some entry =>
              cases isForward with
              | true => exact (forward_from hensure.sound hentry).sound
              | false =>
                  dsimp only
                  rw [if_neg Bool.false_ne_true]
                  split
                  · exact hensure.sound
                  · split <;> exact hensure.sound

end Navigation

/-! ## Histories -/

inductive Call (Seconds Rate : Type)
  | chunk (startIndex : Nat) (targetSeconds : Seconds) (settings : TTSSettings Rate)
  | adjacent (index : Nat) (isForward : Bool) (settings : TTSSettings Rate)

section Histories

variable [Arithmetic Seconds] {settings : TTSSettings Rate}

def call (platform : Platform Seconds Rate) (b : TTSSpeechBuffer Seconds) :
    Call Seconds Rate → TTSSpeechBuffer Seconds
  | .chunk startIndex targetSeconds settings => (b.readChunk platform startIndex targetSeconds settings).1
  | .adjacent index isForward settings => (b.adjacentSentenceIndex platform index isForward settings).1

def Reached (platform : Platform Seconds Rate) (source : List Item) (b : TTSSpeechBuffer Seconds) : Prop :=
  Reachable (· = new source) (fun b c next => next = b.call platform c) b

theorem Reached.sound {source : List Item} (h : Reached platform source b) :
    b.Sound platform (speakable platform source) := by
  refine Reachable.invariant (Sound platform (speakable platform source)) ?_ ?_ h
  · rintro _ rfl
    exact new_sound source
  · rintro b c _ hsound rfl
    cases c with
    | chunk startIndex targetSeconds settings =>
        exact (readChunk_spec hsound startIndex targetSeconds settings).sound
    | adjacent index isForward settings => exact adjacent_sound hsound index isForward

/-- After any history of calls: forward from a slice leads to the first slice of the next sentence,
or to nothing after the last one. Backward leads to the first slice of the sentence before, unless
the oldest slice that is left is in the middle of it. -/
theorem navigation_lands_on_starts (platform : Platform Seconds Rate) (source : List Item)
    (b : TTSSpeechBuffer Seconds) (h : Reached platform source b) (index : Nat)
    (entry : BufferedSentence Seconds)
    (hentry : b.entry index = some entry)
    (settings : TTSSettings Rate) :
    Forwards platform (speakable platform source) b entry.sourceIndex
      (b.adjacentSentenceIndex platform index true settings) ∧
    ((∀ target, (b.adjacentSentenceIndex platform index false settings).2 = .ok (some target) →
      ∃ previous, previous + 1 = entry.sourceIndex ∧ b.Starts (speakable platform source) target previous) ↔
        ¬ b.CutBefore entry) :=
  ⟨adjacent_forward h.sound hentry, adjacent_backward h.sound hentry⟩

end Histories

def twoSentences : List Item := [sampleSentence "abcde", sampleSentence "fg"]

/-- The buffer after a chunk with the three slices of the first sentence. -/
def firstRead : TTSSpeechBuffer Nat :=
  (new twoSentences).call samplePlatform (.chunk 0 9 sampleSettings)

theorem firstRead_reached : Reached samplePlatform twoSentences firstRead := .next (.start rfl) rfl

/-- From the first of three slices of a sentence to the next sentence, and back. -/
theorem navigation_lands_on_starts_twoSentences :
    let next := (firstRead.adjacentSentenceIndex samplePlatform 0 true sampleSettings).1
    let all := [⟨ascii "abcde", ascii "abcde"⟩, ⟨ascii "fg", ascii "fg"⟩]
    (firstRead.adjacentSentenceIndex samplePlatform 0 true sampleSettings).2 = .ok (some 3) ∧
      next.Starts all 3 1 ∧
      (next.adjacentSentenceIndex samplePlatform 3 false sampleSettings).2 = .ok (some 0) ∧
      next.Starts all 0 0 := by
  intro next all
  have hnext : Reached samplePlatform twoSentences next :=
    firstRead_reached.next (a := .adjacent 0 true sampleSettings) rfl
  have hentry : (firstRead.entry 0).map BufferedSentence.sourceIndex = some 0 := by decide +kernel
  obtain ⟨entry, hentry, hsource⟩ := Option.map_eq_some_iff.mp hentry
  have hforward : (firstRead.adjacentSentenceIndex samplePlatform 0 true sampleSettings).2 =
      .ok (some 3) := by decide +kernel
  have hlands := (navigation_lands_on_starts samplePlatform _ _ firstRead_reached 0 entry hentry
    sampleSettings).1.found 3 hforward
  rw [hsource] at hlands
  have hthird : (next.entry 3).map BufferedSentence.sourceIndex = some 1 := by decide +kernel
  obtain ⟨third, hthird, hsource'⟩ := Option.map_eq_some_iff.mp hthird
  have hback : (next.adjacentSentenceIndex samplePlatform 3 false sampleSettings).2 =
      .ok (some 0) := by decide +kernel
  have hwhole : ¬ next.CutBefore third := by
    rintro ⟨oldest, holdest, hstart, -⟩
    have hzero : (next.entry next.baseIndex).map BufferedSentence.start = some 0 := by decide +kernel
    rw [holdest, Option.map_some, Option.some.injEq] at hzero
    exact hstart hzero
  obtain ⟨previous, hprevious, hstarts⟩ := (navigation_lands_on_starts samplePlatform _ _ hnext 3 third
    hthird sampleSettings).2.mpr hwhole 0 hback
  have hfirst : previous = 0 := by omega
  rw [hfirst] at hstarts
  exact ⟨hforward, hlands, hback, hstarts⟩

/-- The history before a far chunk is lost up to the middle of a sentence, which a step back then
leads to. -/
theorem previous_sentence_cut : ∃ b : TTSSpeechBuffer Nat,
    Reached samplePlatform (sampleSentence "abc" :: List.replicate 256 (sampleSentence "x")) b ∧
      (b.adjacentSentenceIndex samplePlatform 2 false sampleSettings).2 = .ok (some 1) ∧
      (b.entry 1).map BufferedSentence.place = some (0, 2) :=
  ⟨(new (sampleSentence "abc" :: List.replicate 256 (sampleSentence "x"))).call samplePlatform
    (.chunk 257 2 sampleSettings), .next (.start rfl) rfl, by decide +kernel, by decide +kernel⟩

end TTSSpeechBuffer

end ZReader.Frontend.SpeechBuffer
