import ZReader.Lib.Transition
import ZReader.Frontend.SpeechReading

namespace ZReader.Frontend.SpeechBuffer

open SpeechTree Lib.Transition

namespace TTSSpeechBuffer

/-! ## The nodes of a chunk -/

section Nodes

variable {Seconds Rate : Type} {platform : Platform Seconds Rate}

/-- The nodes of consecutive slices, with a pause between those of different sentences. -/
def nodesAfter (platform : Platform Seconds Rate) (latest : Option (BufferedSentence Seconds)) :
    List (BufferedSentence Seconds) → List Node
  | [] => []
  | entry :: entries =>
      (bif latest.any fun latest => latest.sourceIndex ≠ entry.sourceIndex then [pauseElement] else []) ++
        childNodes (getRawRoot platform entry) ++ nodesAfter platform (some entry) entries

theorem nodesAfter_concat (latest : Option (BufferedSentence Seconds))
    (entries : List (BufferedSentence Seconds))
    (entry : BufferedSentence Seconds) :
    nodesAfter platform latest (entries ++ [entry]) = nodesAfter platform latest entries ++
      (bif (entries.getLast?.or latest).any fun latest => latest.sourceIndex ≠ entry.sourceIndex then
        [pauseElement] else []) ++ childNodes (getRawRoot platform entry) := by
  induction entries generalizing latest with
  | nil => simp [nodesAfter]
  | cons first entries ih =>
      have hlast : ((first :: entries).getLast?.or latest) = entries.getLast?.or (some first) := by
        rw [List.getLast?_cons]
        cases entries.getLast? <;> rfl
      rw [List.cons_append, nodesAfter, nodesAfter, ih, hlast]
      simp only [List.append_assoc]

/-- Pauses are silent. -/
theorem text_nodesAfter (latest : Option (BufferedSentence Seconds))
    {entries : List (BufferedSentence Seconds)}
    (h : ∀ entry ∈ entries, Speaks platform entry) :
    textContents (nodesAfter platform latest entries) = entries.flatMap BufferedSentence.text := by
  induction entries generalizing latest with
  | nil => rfl
  | cons entry entries ih =>
      have hentry : textContents (childNodes (getRawRoot platform entry)) = entry.text := h entry (by simp)
      have hpause : textContents (bif latest.any fun latest => latest.sourceIndex ≠ entry.sourceIndex then
          [pauseElement] else []) = [] := by
        cases latest.any fun latest => latest.sourceIndex ≠ entry.sourceIndex <;> rfl
      rw [nodesAfter, textContents_append, textContents_append, hpause, hentry,
        ih (some entry) fun later hlater => h later (List.mem_cons_of_mem entry hlater)]
      rfl

/-- The batch holds the nodes of its slices. -/
def Batch.Filled (platform : Platform Seconds Rate) (batch : Batch Seconds) : Prop :=
  batch.nodes = nodesAfter platform none batch.entries

end Nodes

variable {Seconds Rate : Type} [Arithmetic Seconds] {platform : Platform Seconds Rate}
  {all : List TTSSentence}
  {b next : TTSSpeechBuffer Seconds} {targetSeconds : Seconds} {settings : TTSSettings Rate}

/-! ## Chunks -/

/-- A round takes the entry in, or ends with the batch as it was. -/
theorem take_spec {batch result : Batch Seconds} {entry : BufferedSentence Seconds} {more : Bool}
    (h : take platform batch entry targetSeconds settings = .ok (result, more)) :
    result = batch ∧ batch.entries ≠ [] ∧ more = false ∨
      result.entries = batch.entries ++ [entry] ∧ (batch.Filled platform → result.Filled platform) := by
  rw [take] at h
  dsimp only at h
  split at h
  · next hlate =>
    cases h
    refine .inl ⟨rfl, ?_, rfl⟩
    rintro hnil
    simp [hnil] at hlate
  · split at h
    · split at h
      · cases h
      · next hsome =>
        cases h
        exact .inl ⟨rfl, by simpa using hsome, rfl⟩
    · cases h
      refine .inr ⟨rfl, fun hfilled => ?_⟩
      rw [Batch.Filled, nodesAfter_concat, Option.or_none, ← hfilled]

/-- The batch holds what has been issued from an index on. -/
structure Collects (platform : Platform Seconds Rate) (all : List TTSSentence) (b : TTSSpeechBuffer Seconds)
    (startIndex : Nat) (batch : Batch Seconds)
    (result : TTSSpeechBuffer Seconds × Except Failure (Batch Seconds)) :
    Prop where
  sound : result.1.Sound platform all
  extended : b.Extends result.1
  pulled : Relation.ReflTransGen (Pulls platform) b result.1
  entries : ∀ last, result.2 = .ok last →
    batch.entries <+: last.entries ∧ last.entries <+: result.1.issued.drop startIndex ∧
      (batch.Filled platform → last.Filled platform)

theorem prefix_concat {α : Type} {front l : List α} {a : α} (h : front <+: l)
    (ha : l[front.length]? = some a) :
    front ++ [a] <+: l := by
  obtain ⟨back, rfl⟩ := h
  rw [List.getElem?_append_right le_rfl, Nat.sub_self] at ha
  cases back with
  | nil => cases ha
  | cons first back =>
      cases ha
      exact ⟨back, by rw [List.append_assoc, List.singleton_append]⟩

theorem collect_spec (targetSeconds : Seconds) (settings : TTSSettings Rate) (h : b.Sound platform all)
    {startIndex : Nat} (hstart : b.baseIndex ≤ startIndex) (n : Nat) {batch : Batch Seconds}
    (hbatch : batch.entries <+: b.issued.drop startIndex) :
    Collects platform all b startIndex batch
      (b.collect platform targetSeconds settings n (startIndex + batch.entries.length) batch) := by
  induction n generalizing b batch with
  | zero =>
      refine ⟨h, .refl b, .refl, fun result hresult => ?_⟩
      cases hresult
      exact ⟨List.prefix_refl _, hbatch, id⟩
  | succ n ih =>
      have hensure := ensure_spec h (startIndex + batch.entries.length) targetSeconds settings
      rw [collect]
      generalize
        b.ensure platform (startIndex + batch.entries.length) targetSeconds settings = ensured
        at hensure ⊢
      obtain ⟨next, outcome⟩ := ensured
      obtain ⟨hsound, hextended, hpulled, -, -⟩ := hensure
      have hkept : batch.entries <+: next.issued.drop startIndex :=
        hbatch.trans (hextended.issued.drop startIndex)
      have hdone : Collects platform all b startIndex batch (next, .ok batch) := by
        refine ⟨hsound, hextended, hpulled, fun result hresult => ?_⟩
        cases hresult
        exact ⟨List.prefix_refl _, hkept, id⟩
      cases outcome with
      | error failure => exact ⟨hsound, hextended, hpulled, by simp⟩
      | ok found =>
          cases found with
          | false => exact hdone
          | true =>
              dsimp only
              have hbase : next.baseIndex ≤ startIndex := hextended.baseIndex.trans_le hstart
              cases hentry : next.entry (startIndex + batch.entries.length) with
              | none => exact hdone
              | some entry =>
                  dsimp only
                  rw [hsound.entry (hbase.trans (Nat.le_add_right _ _))] at hentry
                  cases htake : take platform batch entry targetSeconds settings with
                  | error failure => exact ⟨hsound, hextended, hpulled, by simp⟩
                  | ok result =>
                      obtain ⟨result, more⟩ := result
                      rcases take_spec htake with ⟨rfl, -, rfl⟩ | ⟨hentries, hfilled⟩
                      · exact hdone
                      · have hgrows : batch.entries <+: result.entries := hentries ▸ List.prefix_append _ _
                        have hprefix : result.entries <+: next.issued.drop startIndex := by
                          rw [hentries]
                          exact prefix_concat hkept (by rw [List.getElem?_drop, hentry])
                        cases more with
                        | false =>
                            refine ⟨hsound, hextended, hpulled, fun last hlast => ?_⟩
                            cases hlast
                            exact ⟨hgrows, hprefix, hfilled⟩
                        | true =>
                            have hrest := ih hsound hbase hprefix
                            rw [hentries, List.length_append, List.length_singleton,
                              ← Nat.add_assoc] at hrest
                            refine ⟨hrest.sound, hextended.trans hrest.extended, hpulled.trans hrest.pulled,
                              fun last hlast => ?_⟩
                            obtain ⟨hlonger, hwithin, hkeeps⟩ := hrest.entries last hlast
                            exact ⟨hgrows.trans hlonger, hwithin, hkeeps ∘ hfilled⟩

theorem ensure_of_exit {index : Nat} (hexit : b.done = true ∨ index < b.stop) :
    b.ensure platform index targetSeconds settings = (b, .ok (b.baseIndex ≤ index && index < b.stop)) := by
  rw [ensure, ensureWithin, if_neg]
  rintro hloop
  simp only [Bool.and_eq_true, Bool.not_eq_true', decide_eq_true_eq] at hloop
  rcases hexit with hdone | hlt
  · rw [hdone] at hloop
    cases hloop.1
  · omega

/-- A batch that can begin does not stay empty. -/
theorem collect_ne_nil (targetSeconds : Seconds) (settings : TTSSettings Rate) (h : b.Sound platform all)
    {startIndex : Nat} (hstart : b.baseIndex ≤ startIndex) (hstop : startIndex < b.stop) (n : Nat)
    (batch last : Batch Seconds) (hbatch : batch.entries = [])
    (hlast : (b.collect platform targetSeconds settings (n + 1) startIndex batch).2 = .ok last) :
    last.entries ≠ [] := by
  rw [collect, ensure_of_exit (.inr hstop)] at hlast
  simp only [hstart, hstop, decide_true, Bool.and_self, h.entry hstart] at hlast
  rw [h.stop] at hstop
  simp only [List.getElem?_eq_getElem hstop] at hlast
  cases htake : take platform batch b.issued[startIndex] targetSeconds settings with
  | error failure => simp [htake] at hlast
  | ok result =>
      obtain ⟨result, more⟩ := result
      simp only [htake] at hlast
      have hentries := ((take_spec htake).resolve_left fun hkept => hkept.2.1 hbatch).1
      rw [hbatch, List.nil_append] at hentries
      cases more with
      | false =>
          cases hlast
          rw [hentries]
          exact List.cons_ne_nil _ _
      | true =>
          have hprefix : result.entries <+: b.issued.drop startIndex := by
            rw [hentries]
            exact prefix_concat List.nil_prefix (by simp [List.getElem?_eq_getElem hstop])
          have hrest := collect_spec targetSeconds settings h hstart n hprefix
          rw [hentries, List.length_singleton] at hrest
          have hgrows := (hrest.entries last hlast).1
          rintro hnil
          rw [hnil, hentries] at hgrows
          cases List.prefix_nil.mp hgrows

/-- What a call of `readChunk` does. Where it returns nothing, everything has been read. -/
structure Reads (platform : Platform Seconds Rate) (all : List TTSSentence) (b : TTSSpeechBuffer Seconds)
    (startIndex : Nat) (targetSeconds : Seconds) (settings : TTSSettings Rate)
    (result : TTSSpeechBuffer Seconds × Except Failure (Option (TTSAudioChunk Seconds))) : Prop where
  sound : result.1.Sound platform all
  moved : Relation.ReflTransGen (Moves platform) b result.1
  issued : b.issued <+: result.1.issued
  base : b.baseIndex ≤ result.1.baseIndex ∧ (b.baseIndex ≤ startIndex → result.1.baseIndex ≤ startIndex)
  chunk : ∀ chunk, result.2 = .ok (some chunk) →
    chunk.startIndex = startIndex ∧ startIndex ≤ chunk.endIndex ∧ chunk.endIndex < result.1.issued.length ∧
      chunk.nodes = nodesAfter platform none
        ((result.1.issued.drop startIndex).take (chunk.endIndex + 1 - startIndex)) ∧
      chunk.ssml = platform.buildAzureSSML chunk.nodes settings
  ended : result.2 = .ok none → platform.isFinite targetSeconds = true → ¬ targetSeconds ≤ 0 →
    b.baseIndex ≤ startIndex → result.1.done = true ∧ result.1.stop ≤ startIndex

theorem readChunk_spec (h : b.Sound platform all) (startIndex : Nat) (targetSeconds : Seconds)
    (settings : TTSSettings Rate) :
    Reads platform all b startIndex targetSeconds settings
      (b.readChunk platform startIndex targetSeconds settings) := by
  rw [readChunk]
  split
  · next htarget =>
    exact ⟨h, .refl, List.prefix_refl _, ⟨le_rfl, id⟩, by simp, fun _ hfinite hpos => by simp_all⟩
  · have hensure := ensure_spec h startIndex targetSeconds settings
    generalize b.ensure platform startIndex targetSeconds settings = ensured at hensure ⊢
    obtain ⟨next, outcome⟩ := ensured
    obtain ⟨hsound, hextended, hpulled, hfound, hended⟩ := hensure
    have hmoved := moved_of_pulled hpulled
    have hbase : b.baseIndex ≤ next.baseIndex ∧ (b.baseIndex ≤ startIndex → next.baseIndex ≤ startIndex) :=
      ⟨hextended.baseIndex.ge, hextended.baseIndex.trans_le⟩
    cases outcome with
    | error failure => exact ⟨hsound, hmoved, hextended.issued, hbase, by simp, by simp⟩
    | ok found =>
        cases found with
        | false => exact ⟨hsound, hmoved, hextended.issued, hbase, by simp, fun _ _ _ => hended rfl⟩
        | true =>
            obtain ⟨hstart, hstop⟩ := hfound rfl
            have hkeep : (next.evict startIndex).baseIndex ≤ startIndex := by
              have := hbase.2 hstart
              rw [evict]
              dsimp only
              omega
            have hkept : (next.evict startIndex).Sound platform all := hsound.evict hstop.le
            have hempty : (firstBatch settings : Batch Seconds).entries <+:
                (next.evict startIndex).issued.drop startIndex := List.nil_prefix
            have hcollect := collect_spec targetSeconds settings hkept hkeep
              ((next.evict startIndex).stop + (next.evict startIndex).rounds - startIndex + 1) hempty
            have hzero :
                startIndex + (firstBatch settings : Batch Seconds).entries.length = startIndex := rfl
            rw [hzero] at hcollect
            have hnonempty := fun last hlast => collect_ne_nil targetSeconds settings hkept hkeep
              (by rw [hkept.stop]; exact hsound.stop ▸ hstop)
              ((next.evict startIndex).stop + (next.evict startIndex).rounds - startIndex)
              (firstBatch settings) last rfl hlast
            dsimp only
            generalize
              (next.evict startIndex).collect platform targetSeconds settings _ startIndex _ = collected
              at hcollect hnonempty ⊢
            obtain ⟨last, outcome⟩ := collected
            obtain ⟨hlast, hextended', hpulled', hentries⟩ := hcollect
            have hmoved' : Relation.ReflTransGen (Moves platform) b last :=
              (hmoved.tail (.evict hstop.le)).trans (moved_of_pulled hpulled')
            have hissued := hextended.issued.trans hextended'.issued
            have hbase' : b.baseIndex ≤ last.baseIndex ∧
                (b.baseIndex ≤ startIndex → last.baseIndex ≤ startIndex) := by
              rw [hextended'.baseIndex]
              exact ⟨hbase.1.trans (le_max_left _ _), fun _ => hkeep⟩
            cases outcome with
            | error failure => exact ⟨hlast, hmoved', hissued, hbase', by simp, by simp⟩
            | ok batch =>
                dsimp only
                have hne := hnonempty batch rfl
                split
                · next hnil => exact absurd (List.isEmpty_iff.mp hnil) hne
                · split
                  · exact ⟨hlast, hmoved', hissued, hbase', by simp, by simp⟩
                  · refine ⟨hlast, hmoved', hissued, hbase', fun chunk hchunk => ?_, by simp⟩
                    cases hchunk
                    have hpos : 0 < batch.entries.length := List.length_pos_iff.mpr hne
                    obtain ⟨-, hprefix, hfilled⟩ := hentries batch rfl
                    have hle : batch.entries.length ≤ last.issued.length - startIndex := by
                      simpa using hprefix.length_le
                    have hcount : startIndex + batch.entries.length - 1 + 1 - startIndex =
                        batch.entries.length := by
                      omega
                    refine ⟨rfl, by dsimp only; omega, by dsimp only; omega, ?_, rfl⟩
                    dsimp only
                    rw [hcount, ← List.prefix_iff_eq_take.mp hprefix]
                    exact hfilled rfl

end TTSSpeechBuffer

end ZReader.Frontend.SpeechBuffer
