import ZReader.Frontend.SpeechCuts

namespace ZReader.Frontend.SpeechBuffer

open SpeechTree

/-! ## Places -/

section Places

variable {Seconds : Type}

/-- The sentence, and the offset in it, that may come after the latest slice. -/
def Follows : Option (BufferedSentence Seconds) → Nat × Nat → Prop
  | none, place => place = (0, 0)
  | some entry, place =>
      place = (entry.sourceIndex, entry.start + entry.text.length) ∨ place = (entry.sourceIndex + 1, 0)

def BufferedSentence.place (entry : BufferedSentence Seconds) : Nat × Nat :=
  (entry.sourceIndex, entry.start)

theorem length_slice {text : Text} {start stop : Nat} (hstop : stop ≤ text.length) :
    (slice text start stop).length = stop - start := by
  rw [slice, List.length_drop, List.length_take, min_eq_left hstop]

namespace BufferedSentence.Cuts

variable {entry : BufferedSentence Seconds} {first last : Nat}

theorem boundary_le (h : entry.Cuts first last) :
    boundary entry.sentenceText last ≤ entry.sentenceText.length := by
  rw [← boundary_last]
  rcases h.le.lt_or_eq with hlt | heq
  · exact (boundary_lt hlt le_rfl).le
  · rw [heq]

/-- The slice ends at its last code point. -/
theorem stop (h : entry.Cuts first last) :
    entry.start + entry.text.length = boundary entry.sentenceText last := by
  have hlt := boundary_lt h.lt h.le
  rw [h.start, h.text, length_slice h.boundary_le]
  omega

theorem text_pos (h : entry.Cuts first last) : 0 < entry.text.length := by
  have hlt := boundary_lt h.lt h.le
  rw [h.text, length_slice h.boundary_le]
  omega

end BufferedSentence.Cuts

end Places

/-! ## What a buffer keeps -/

namespace TTSSpeechBuffer

variable {Seconds Rate : Type} {platform : Platform Seconds Rate} {all : List TTSSentence}
  {b next : TTSSpeechBuffer Seconds}

/-- Where the next slice begins. -/
def upcoming (b : TTSSpeechBuffer Seconds) : Nat × Nat :=
  b.pending.elim (b.sourceIndex, 0) fun pending => (pending.sourceIndex, pending.offset pending.position)

theorem upcoming_of_some {pending : PendingSentence Seconds} (h : b.pending = some pending) :
    b.upcoming = (pending.sourceIndex, pending.offset pending.position) := by
  rw [upcoming, h, Option.elim_some]

theorem upcoming_of_none (h : b.pending = none) : b.upcoming = (b.sourceIndex, 0) := by
  rw [upcoming, h, Option.elim_none]

/-- The buffer has read its sentences in order, from a source that yields the given ones in all. -/
structure Sound (platform : Platform Seconds Rate) (all : List TTSSentence)
    (b : TTSSpeechBuffer Seconds) : Prop where
  window : b.sentences = b.issued.drop b.baseIndex
  base : b.baseIndex ≤ b.issued.length
  begins : ∀ entry ∈ b.issued.head?, entry.place = (0, 0)
  chain : b.issued.IsChain fun entry later => Follows (some entry) later.place
  upcoming : Follows b.issued.getLast? b.upcoming
  entries : ∀ entry ∈ b.issued, (∃ first last, entry.Cuts first last) ∧
    (all[entry.sourceIndex]?).map TTSSentence.text = some entry.sentenceText
  pending : ∀ pending ∈ b.pending, pending.Good ∧ pending.sourceIndex + 1 = b.sourceIndex ∧
    all[pending.sourceIndex]? = some pending.sentence
  remaining : all.drop b.sourceIndex = speakable platform b.source
  within : b.sourceIndex ≤ all.length
  done : b.done = true → b.source = [] ∧ b.pending = none

theorem new_sound (source : List Item) : (new source).Sound platform (speakable platform source) where
  window := rfl
  base := le_rfl
  begins := by simp [new]
  chain := .nil
  upcoming := rfl
  entries := by simp [new]
  pending := by simp [new]
  remaining := rfl
  within := Nat.zero_le _
  done := by simp [new]

/-- A slice is added where the next one begins. -/
theorem Sound.push (h : b.Sound platform all) {entry : BufferedSentence Seconds}
    (pending : Option (PendingSentence Seconds)) (source : List Item) (sourceIndex : Nat)
    (hplace : entry.place = b.upcoming)
    (hcuts : ∃ first last, entry.Cuts first last)
    (hsentence : (all[entry.sourceIndex]?).map TTSSentence.text = some entry.sentenceText)
    (hpending : ∀ p ∈ pending, p.Good ∧ p.sourceIndex + 1 = sourceIndex ∧
      all[p.sourceIndex]? = some p.sentence)
    (hupcoming : Follows (some entry)
      ({ b with pending, source, sourceIndex } : TTSSpeechBuffer Seconds).upcoming)
    (hremaining : all.drop sourceIndex = speakable platform source) (hwithin : sourceIndex ≤ all.length)
    (hdone : b.done = true → source = [] ∧ pending = none) :
    ({ b.push entry with pending, source, sourceIndex } : TTSSpeechBuffer Seconds).Sound platform all where
  window := by
    rw [TTSSpeechBuffer.push, h.window, List.drop_append_of_le_length h.base]
  base := by
    rw [TTSSpeechBuffer.push, List.length_append]
    exact h.base.trans (Nat.le_add_right _ _)
  begins := by
    have hbegins := h.begins
    have hfollows := h.upcoming
    rw [← hplace] at hfollows
    intro first hfirst
    cases hissued : b.issued with
    | nil =>
        rw [hissued] at hfollows
        rw [TTSSpeechBuffer.push, hissued] at hfirst
        cases hfirst
        exact hfollows
    | cons latest issued =>
        rw [TTSSpeechBuffer.push, hissued] at hfirst
        rw [hissued] at hbegins
        exact hbegins first hfirst
  chain := by
    refine List.isChain_append.mpr ⟨h.chain, .singleton _, fun latest hlatest later hlater => ?_⟩
    cases hlater
    have hfollows := h.upcoming
    rw [hlatest, ← hplace] at hfollows
    exact hfollows
  upcoming := by
    rw [TTSSpeechBuffer.push, List.getLast?_concat]
    exact hupcoming
  entries := by
    intro e he
    rcases List.mem_append.mp he with he | he
    · exact h.entries e he
    · rw [List.mem_singleton.mp he]
      exact ⟨hcuts, hsentence⟩
  pending := hpending
  remaining := hremaining
  within := hwithin
  done := hdone

/-- The sentence that comes next is the first one that the source is still to yield. -/
theorem Sound.next_sentence (h : b.Sound platform all) {sentence : TTSSentence} {source : List Item}
    (hsource : b.source = .sentence sentence :: source)
    (hskip : isSkippableTTSText platform sentence.text = false) :
    all[b.sourceIndex]? = some sentence ∧ all.drop (b.sourceIndex + 1) = speakable platform source := by
  have hremaining : all.drop b.sourceIndex = sentence :: speakable platform source := by
    rw [h.remaining, hsource, speakable, List.filterMap_cons]
    simp [hskip, speakable]
  constructor
  · rw [← List.head?_drop, hremaining, List.head?_cons]
  · rw [← List.tail_drop, hremaining, List.tail_cons]

theorem ne_nil_of_speakable {text : Text} (h : isSkippableTTSText platform text = false) : text ≠ [] := by
  rintro rfl
  cases h

theorem characters_pos {text : Text} (h : text ≠ []) : 0 < (characters text).length := by
  refine List.length_pos_iff.mpr fun hnil => h ?_
  rw [← characters_flatten text, hnil, List.flatten_nil]

theorem Pulls.sound [Arithmetic Seconds] (h : b.Sound platform all) (hpulls : Pulls platform b next) :
    next.Sound platform all := by
  cases hpulls with
  | @slice pending entry best hpending hcuts hsource hsentence hspeaks =>
      obtain ⟨hgood, hindex, hall⟩ := h.pending pending hpending
      have hlength := hgood.length
      have hbest := hcuts.le
      rw [hsentence] at hbest
      refine h.push _ b.source b.sourceIndex ?_ ⟨_, _, hcuts⟩ ?_ ?_ ?_ h.remaining h.within ?_
      · rw [BufferedSentence.place, upcoming_of_some hpending, hsource, hcuts.start, hsentence,
          hgood.offset hgood.position.le]
      · rw [hsource, hall, hsentence]
        rfl
      · intro p hp
        split at hp
        · cases hp
        · next hlast =>
          cases hp
          exact ⟨⟨hgood.offsets, by dsimp only; omega⟩, hindex, hall⟩
      · split
        · right
          rw [upcoming_of_none rfl, hsource, hindex]
        · left
          rw [upcoming_of_some rfl, hcuts.stop, hsource, hsentence, ← hgood.offset hbest]
          rfl
      · intro hdone
        have hnone := (h.done hdone).2
        rw [hpending] at hnone
        cases hnone
  | @whole sentence source entry hpending hsource hskip htext hstart hindex hsentence hspeaks =>
      obtain ⟨hall, hremaining⟩ := h.next_sentence hsource hskip
      have hlt := (List.getElem?_eq_some_iff.mp hall).1
      have hcuts : entry.Cuts 0 (characters entry.sentenceText).length := by
        refine ⟨characters_pos ?_, le_rfl, hstart, ?_⟩
        · rw [hsentence]
          exact ne_nil_of_speakable hskip
        · rw [boundary_zero, boundary_last, SpeechTree.slice, List.take_length, List.drop_zero,
            htext, hsentence]
      refine h.push b.pending _ _ ?_ ⟨_, _, hcuts⟩ ?_ ?_ ?_ hremaining hlt ?_
      · rw [BufferedSentence.place, upcoming_of_none hpending, hindex, hstart]
      · rw [hindex, hall, hsentence]
        rfl
      · rw [hpending]
        simp
      · right
        rw [hindex]
        exact upcoming_of_none hpending
      · intro hdone
        have hnil := (h.done hdone).1
        rw [hsource] at hnil
        cases hnil
  | @begin sentence source pending hpending hsource hskip hsentence hoffsets hposition hindex htree =>
      obtain ⟨hall, hremaining⟩ := h.next_sentence hsource hskip
      have hlt := (List.getElem?_eq_some_iff.mp hall).1
      have hgood : pending.Good := by
        refine ⟨by rw [hoffsets, hsentence], ?_⟩
        rw [hposition, hsentence]
        exact characters_pos (ne_nil_of_speakable hskip)
      refine { h with upcoming := ?_, pending := ?_, remaining := hremaining, within := hlt, done := ?_ }
      · have hfollows := h.upcoming
        rw [upcoming_of_none hpending] at hfollows
        rw [upcoming_of_some rfl, hindex, hgood.offset hgood.position.le, hposition, boundary_zero]
        exact hfollows
      · intro p hp
        cases hp
        exact ⟨hgood, congrArg (· + 1) hindex, by rw [hindex, hall, hsentence]⟩
      · intro hdone
        have hnil := (h.done hdone).1
        rw [hsource] at hnil
        cases hnil
  | @skip item source hpending hsource hskip =>
      have hremaining : speakable platform b.source = speakable platform source := by
        rw [hsource, ← List.singleton_append, speakable, List.filterMap_append]
        rw [speakable] at hskip
        rw [hskip, List.nil_append, speakable]
      refine { h with remaining := h.remaining.trans hremaining, done := fun hdone => ?_ }
      have hnil := (h.done hdone).1
      rw [hsource] at hnil
      cases hnil
  | finish hpending hsource => exact { h with done := fun _ => ⟨hsource, hpending⟩ }

/-! ### How far a buffer gets -/

/-- The slices are in the order of their sentences. -/
theorem Sound.sorted (h : b.Sound platform all) :
    b.issued.Pairwise fun entry later => entry.sourceIndex ≤ later.sourceIndex := by
  have hle : (b.issued.map BufferedSentence.sourceIndex).IsChain (· ≤ ·) := by
    refine (List.isChain_map _).mpr (h.chain.imp fun entry later hfollows => ?_)
    rcases hfollows with hplace | hplace
    · exact (congrArg Prod.fst hplace).ge
    · exact (Nat.le_succ _).trans (congrArg Prod.fst hplace).ge
  exact List.pairwise_map.mp (List.isChain_iff_pairwise.mp hle)

theorem Sound.sorted_get (h : b.Sound platform all) {i j : Nat} {entry later : BufferedSentence Seconds}
    (hentry : b.issued[i]? = some entry) (hlater : b.issued[j]? = some later) (hij : i ≤ j) :
    entry.sourceIndex ≤ later.sourceIndex := by
  obtain ⟨hi, rfl⟩ := List.getElem?_eq_some_iff.mp hentry
  obtain ⟨hj, rfl⟩ := List.getElem?_eq_some_iff.mp hlater
  rcases hij.lt_or_eq with hlt | rfl
  · exact List.pairwise_iff_getElem.mp h.sorted i j hi hj hlt
  · exact le_rfl

/-- No slice belongs to a later sentence than the latest one. -/
theorem Sound.latest_ge (h : b.Sound platform all) {entry latest : BufferedSentence Seconds}
    (hlatest : b.issued.getLast? = some latest) (hentry : entry ∈ b.issued) :
    entry.sourceIndex ≤ latest.sourceIndex := by
  have hsorted := h.sorted
  obtain ⟨front, hissued⟩ := List.getLast?_eq_some_iff.mp hlatest
  rw [hissued] at hentry hsorted
  rcases List.mem_append.mp hentry with hentry | hentry
  · exact (List.pairwise_append.mp hsorted).2.2 entry hentry latest List.mem_cons_self
  · rw [List.mem_singleton.mp hentry]

theorem exists_latest {entry : BufferedSentence Seconds} (h : entry ∈ b.issued) :
    ∃ latest, b.issued.getLast? = some latest :=
  Option.ne_none_iff_exists'.mp fun hnone => List.ne_nil_of_mem h (List.getLast?_eq_none_iff.mp hnone)

theorem Sound.source_le (h : b.Sound platform all) {entry : BufferedSentence Seconds}
    (hentry : entry ∈ b.issued) :
    entry.sourceIndex ≤ b.upcoming.1 := by
  obtain ⟨latest, hlatest⟩ := exists_latest hentry
  have hfollows := h.upcoming
  have hle := h.latest_ge hlatest hentry
  rw [hlatest] at hfollows
  rcases hfollows with hplace | hplace
  · exact hle.trans (congrArg Prod.fst hplace).ge
  · exact hle.trans ((Nat.le_succ _).trans (congrArg Prod.fst hplace).ge)

theorem Sound.follows (h : b.Sound platform all) {index : Nat} {entry later : BufferedSentence Seconds}
    (hentry : b.issued[index]? = some entry) (hlater : b.issued[index + 1]? = some later) :
    Follows (some entry) later.place := by
  obtain ⟨hlt, rfl⟩ := List.getElem?_eq_some_iff.mp hlater
  obtain ⟨-, rfl⟩ := List.getElem?_eq_some_iff.mp hentry
  exact List.isChain_iff_getElem.mp h.chain index hlt

/-- After the end the next place is behind the last sentence. -/
theorem Sound.upcoming_of_done (h : b.Sound platform all) (hdone : b.done = true) :
    b.upcoming = (all.length, 0) := by
  obtain ⟨hsource, hpending⟩ := h.done hdone
  have hremaining := h.remaining
  rw [hsource] at hremaining
  have hlength := List.drop_eq_nil_iff.mp hremaining
  rw [upcoming_of_none hpending, h.within.antisymm hlength]

theorem Sound.stop (h : b.Sound platform all) : b.stop = b.issued.length := by
  have hbase := h.base
  rw [TTSSpeechBuffer.stop, h.window, List.length_drop]
  omega

/-- The latest slice after the end belongs to the last sentence. -/
theorem Sound.last_of_done (h : b.Sound platform all) (hdone : b.done = true) {index : Nat}
    (hstop : b.stop ≤ index + 1)
    {entry : BufferedSentence Seconds} (hentry : b.issued[index]? = some entry) :
    entry.sourceIndex + 1 = all.length := by
  have hlt := (List.getElem?_eq_some_iff.mp hentry).1
  have hfollows := h.upcoming
  have hlast : b.issued.length - 1 = index := by
    rw [h.stop] at hstop
    omega
  rw [h.upcoming_of_done hdone, List.getLast?_eq_getElem?, hlast, hentry] at hfollows
  rcases hfollows with hplace | hplace
  · obtain ⟨⟨first, last, hcuts⟩, -⟩ := h.entries entry (List.mem_of_getElem? hentry)
    have hpos := hcuts.text_pos
    have hzero : 0 = entry.start + entry.text.length := congrArg Prod.snd hplace
    omega
  · exact (congrArg Prod.fst hplace).symm

theorem Sound.entry (h : b.Sound platform all) {index : Nat} (hindex : b.baseIndex ≤ index) :
    b.entry index = b.issued[index]? := by
  rw [TTSSpeechBuffer.entry, if_pos hindex, h.window, List.getElem?_drop]
  congr 1
  omega

/-- What has been issued stays where it is, and whatever more is read has been counted. -/
structure Extends (b next : TTSSpeechBuffer Seconds) : Prop where
  issued : b.issued <+: next.issued
  baseIndex : next.baseIndex = b.baseIndex
  rounds : next.stop + next.rounds ≤ b.stop + b.rounds

theorem Extends.refl (b : TTSSpeechBuffer Seconds) : b.Extends b := ⟨List.prefix_refl _, rfl, le_rfl⟩

theorem Extends.trans {last : TTSSpeechBuffer Seconds} (h : b.Extends next)
    (h' : next.Extends last) : b.Extends last :=
  ⟨h.issued.trans h'.issued, h'.baseIndex.trans h.baseIndex, h'.rounds.trans h.rounds⟩

theorem push_stop (entry : BufferedSentence Seconds) : (b.push entry).stop = b.stop + 1 := by
  rw [TTSSpeechBuffer.stop, TTSSpeechBuffer.stop, push, List.length_append, List.length_singleton,
    Nat.add_assoc]

theorem Pulls.rounds [Arithmetic Seconds] (h : b.Sound platform all) (hpulls : Pulls platform b next) :
    next.stop + next.rounds ≤ b.stop + b.rounds ∧ (next.done = true ∨ next.rounds < b.rounds) := by
  cases hpulls with
  | @slice pending entry best hpending hcuts hsource hsentence hspeaks =>
      obtain ⟨hgood, -, -⟩ := h.pending pending hpending
      have hlength := hgood.length
      have hbest := hcuts.le
      have hlt := hcuts.lt
      rw [hsentence] at hbest
      have hstop : ∀ p, ({ b.push entry with pending := p } : TTSSpeechBuffer Seconds).stop = b.stop + 1 :=
        fun _ => push_stop (b := b) entry
      rw [hstop]
      simp only [TTSSpeechBuffer.rounds, hpending, Option.elim_some, push]
      have hleft : ((if best = pending.length then none else some { pending with position := best }).elim 0
          fun p : PendingSentence Seconds => p.length - p.position) = pending.length - best := by
        split
        · next hlast => rw [hlast, Nat.sub_self, Option.elim_none]
        · rfl
      rw [hleft]
      omega
  | @whole sentence source entry hpending hsource hskip htext hstart hindex hsentence hspeaks =>
      rw [push_stop]
      simp only [TTSSpeechBuffer.rounds, hpending, hsource, push, List.map_cons, List.sum_cons,
        TTSSpeechBuffer.stop]
      omega
  | @begin sentence source pending hpending hsource hskip hsentence hoffsets hposition hindex htree =>
      have hle := length_characters_le sentence.text
      have hlength : pending.length - pending.position ≤ sentence.text.length := by
        rw [PendingSentence.length, hoffsets, offsets_length]
        omega
      simp only [TTSSpeechBuffer.rounds, hpending, hsource, List.map_cons, List.sum_cons,
        TTSSpeechBuffer.stop, Option.elim_some, Option.elim_none]
      omega
  | @skip item source hpending hsource hskip =>
      cases item <;> simp only [TTSSpeechBuffer.rounds, hpending, hsource, List.map_cons, List.sum_cons,
        TTSSpeechBuffer.stop] <;> omega
  | finish hpending hsource => exact ⟨le_rfl, .inl rfl⟩

theorem Pulls.extended [Arithmetic Seconds] (h : b.Sound platform all) (hpulls : Pulls platform b next) :
    b.Extends next := by
  refine ⟨?_, ?_, (hpulls.rounds h).1⟩
  · cases hpulls with
    | slice | whole => exact List.prefix_append _ _
    | begin | skip | finish => exact List.prefix_refl _
  · cases hpulls <;> rfl

theorem Sound.evict (h : b.Sound platform all) {startIndex : Nat} (hstop : startIndex ≤ b.stop) :
    (b.evict startIndex).Sound platform all := by
  refine { h with window := ?_, base := ?_ }
  · have hdrop : b.baseIndex + (max b.baseIndex (startIndex - 256) - b.baseIndex) =
        max b.baseIndex (startIndex - 256) := by omega
    rw [TTSSpeechBuffer.evict, h.window, List.drop_drop, hdrop]
  · have hbase := h.base
    rw [h.stop] at hstop
    rw [TTSSpeechBuffer.evict]
    dsimp only
    omega

variable [Arithmetic Seconds]

/-- A round of reading, or the loss of old history. -/
inductive Moves (platform : Platform Seconds Rate) (b : TTSSpeechBuffer Seconds) :
    TTSSpeechBuffer Seconds → Prop
  | pull {next : TTSSpeechBuffer Seconds} : Pulls platform b next → Moves platform b next
  | evict {startIndex : Nat} : startIndex ≤ b.stop → Moves platform b (b.evict startIndex)

theorem moved_of_pulled (h : Relation.ReflTransGen (Pulls platform) b next) :
    Relation.ReflTransGen (Moves platform) b next :=
  h.lift id fun _ _ hpulls => .pull hpulls

/-- What `ensure` leaves behind: the index is there, or the source has ended before it, or the
index is gone. -/
structure Ensures (platform : Platform Seconds Rate) (all : List TTSSentence)
    (b : TTSSpeechBuffer Seconds) (index : Nat)
    (result : TTSSpeechBuffer Seconds × Except Failure Bool) : Prop where
  sound : result.1.Sound platform all
  extended : b.Extends result.1
  pulled : Relation.ReflTransGen (Pulls platform) b result.1
  found : result.2 = .ok true → b.baseIndex ≤ index ∧ index < result.1.stop
  ended : result.2 = .ok false → b.baseIndex ≤ index → result.1.done = true ∧ result.1.stop ≤ index

theorem ensures_of_exit (h : b.Sound platform all) {index : Nat} (hexit : b.done = true ∨ index < b.stop) :
    Ensures platform all b index (b, .ok (b.baseIndex ≤ index && index < b.stop)) where
  sound := h
  extended := .refl b
  pulled := .refl
  found := by
    intro hfound
    simpa using Except.ok.inj hfound
  ended := by
    intro hended hbase
    have hstop : b.stop ≤ index := by simpa [hbase] using Except.ok.inj hended
    exact ⟨hexit.resolve_right (not_lt.mpr hstop), hstop⟩

variable {targetSeconds : Seconds} {settings : TTSSettings Rate}

theorem ensureWithin_spec {index n : Nat} (h : b.Sound platform all) (hn : b.done = true ∨ b.rounds ≤ n) :
    Ensures platform all b index (b.ensureWithin platform index targetSeconds settings n) := by
  induction n generalizing b with
  | zero =>
      refine ensures_of_exit h (.inl (hn.resolve_right ?_))
      rw [TTSSpeechBuffer.rounds]
      omega
  | succ n ih =>
      rw [ensureWithin]
      split
      · next hloop =>
        have hgood : ∀ pending ∈ b.pending, pending.Good := fun pending hp => (h.pending pending hp).1
        obtain ⟨hdone, hstop⟩ : b.done = false ∧ b.stop ≤ index := by simpa using hloop
        rcases hpull : b.pull platform targetSeconds settings with ⟨next, failure⟩
        cases failure with
        | none =>
            have hpulls := (pull_spec hgood hpull).resolve_right (by simp)
            have hsound := hpulls.sound h
            have hrounds := (hpulls.rounds h).2
            have hrest := ih hsound (hrounds.imp_right fun hlt => by simp [hdone] at hn; omega)
            have hbase := (hpulls.extended h).baseIndex
            exact ⟨hrest.sound, (hpulls.extended h).trans hrest.extended, hrest.pulled.head hpulls,
              fun hfound => hbase ▸ hrest.found hfound,
              fun hended hle => hrest.ended hended (hbase.trans_le hle)⟩
        | some failure =>
            rcases pull_spec hgood hpull with hpulls | ⟨rfl, -⟩
            · exact ⟨hpulls.sound h, hpulls.extended h, .single hpulls, by simp, by simp⟩
            · exact ⟨h, .refl _, .refl, by simp, by simp⟩
      · next hexit =>
        refine ensures_of_exit h ?_
        by_cases hdone : b.done = true
        · exact .inl hdone
        · exact .inr (by simpa [hdone] using hexit)

theorem ensure_spec (h : b.Sound platform all) (index : Nat) (targetSeconds : Seconds)
    (settings : TTSSettings Rate) :
    Ensures platform all b index (b.ensure platform index targetSeconds settings) :=
  ensureWithin_spec h (.inr (Nat.le_succ _))

end TTSSpeechBuffer

end ZReader.Frontend.SpeechBuffer
