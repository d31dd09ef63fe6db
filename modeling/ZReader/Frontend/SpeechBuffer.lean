import ZReader.Frontend.SpeechContent

namespace ZReader.Frontend.SpeechBuffer

open Lib.Bisection SpeechTree

/-! ## Texts -/

def isHighSurrogate (c : UInt16) : Bool := 0xD800 ≤ c && c ≤ 0xDBFF

def isLowSurrogate (c : UInt16) : Bool := 0xDC00 ≤ c && c ≤ 0xDFFF

/-- The iteration over a string: its code points, as texts. -/
def characters : Text → List Text
  | [] => []
  | [c] => [[c]]
  | c :: d :: text =>
      if isHighSurrogate c && isLowSurrogate d then [c, d] :: characters text
      else [c] :: characters (d :: text)

/-- The offsets between the code points, with both ends. -/
def offsets (text : Text) : List Nat := (characters text).scanl (fun offset c => offset + c.length) 0

/-- The length of `encoder.encode(text)`. -/
def encodedLength (text : Text) : Nat :=
  ((characters text).map fun
    | [c] => if c < 0x80 then 1 else if c < 0x800 then 2 else 3
    | _ => 4).sum

def isWhiteSpace (c : UInt16) : Bool :=
  c.toNat ∈ [9, 10, 11, 12, 13, 32, 160, 5760, 8232, 8233, 8239, 8287, 12288, 65279] ||
    (8192 ≤ c.toNat && c.toNat ≤ 8202)

def ascii (s : String) : Text := s.toList.map fun c => c.toNat.toUInt16

def toLower (c : UInt16) : UInt16 := if 65 ≤ c && c ≤ 90 then c + 32 else c

/-- `[\w.-]` -/
def isNameUnit (c : UInt16) : Bool :=
  (65 ≤ c && c ≤ 90) || (97 ≤ c && c ≤ 122) || (48 ≤ c && c ≤ 57) || c ∈ ascii "_.-"

/-- `(?:phoneme|sub|say-as)(?:\s|>)` at the start of a text, in any case. -/
def namesPronunciation (text : Text) : Bool :=
  [ascii "phoneme", ascii "sub", ascii "say-as"].any fun name =>
    (text.take name.length).map toLower == name &&
      (text[name.length]?).any fun c => isWhiteSpace c || c == 62

/-- `/<(?:[\w.-]+:)?(?:phoneme|sub|say-as)(?:\s|>)/i` -/
def mentionsPronunciation : Text → Bool
  | [] => false
  | c :: text =>
      (c == 60 && (namesPronunciation text ||
        (let named := text.takeWhile isNameUnit
         !named.isEmpty && text[named.length]? == some 58 &&
          namesPronunciation (text.drop (named.length + 1))))) ||
        mentionsPronunciation text

/-! ## Sentences -/

structure TTSSentence where
  text : Text
  ssml : Text
  deriving DecidableEq

structure TTSSettings (Rate : Type) where
  voiceName : Text
  style : Text
  rate : Rate

/-- The arithmetic of the numbers of a script, of which nothing is assumed. -/
class Arithmetic (α : Type) extends Zero α, Add α, Sub α, Mul α, Div α, Min α, LT α, LE α where
  [decidableLT : DecidableLT α]
  [decidableLE : DecidableLE α]

attribute [reducible, instance] Arithmetic.decidableLT Arithmetic.decidableLE

/-- A document of `DOMParser`. -/
structure XMLDocument where
  element : Element
  children : List Node
  hasParserError : Bool

/-- What the buffer is built on: the parser and the serializer of the browser, the timing, the
finished SSML, and the look of text that is not worth reading aloud. -/
structure Platform (Seconds Rate : Type) extends Estimator Seconds Rate where
  parseFromString : Text → XMLDocument
  serializeToString : Node → Text
  /-- `buildAzureSSML`, for the children of the document element. -/
  buildAzureSSML : List Node → TTSSettings Rate → Text
  isFinite : Seconds → Bool
  maxSliceSeconds : Seconds
  sentencePauseSeconds : Seconds
  /-- The patterns of `isSkippableTTSText`, and its rules for tables and code. -/
  looksUnspeakable : Text → Bool

def MAX_CHUNK_BYTES : Nat := 30 * 1024

def ENVELOPE_BYTES : Nat := 1024

/-- `text.replace(/\s+/g, ' ')` -/
def collapse : Text → Text
  | [] => []
  | c :: text =>
      if isWhiteSpace c then
        if text.head?.any isWhiteSpace then collapse text else 32 :: collapse text
      else c :: collapse text

/-- `text.replace(/[\u00a0\u200b-\u200d\ufeff]/g, '')` -/
def dropInvisible (text : Text) : Text :=
  text.filter fun c => c ≠ 0xA0 && !(0x200B ≤ c && c ≤ 0x200D) && c ≠ 0xFEFF

def trim (text : Text) : Text := (text.dropWhile isWhiteSpace).rdropWhile isWhiteSpace

def isPunctuation (c : UInt16) : Bool :=
  c ∈ [0xFF0C, 44, 0x3001, 0xFF1B, 59, 0xFF1A, 58, 0x3002, 46, 33, 0xFF01, 0xFF1F, 63, 0x2026, 10]

def isElement : Node → Bool
  | .text _ => false
  | .element _ _ => true

mutual

/-- The number of elements of a name at and below a node. -/
def countNamed (localName : String) : Node → Nat
  | .text _ => 0
  | .element element children =>
      (if element.localName = localName then 1 else 0) + countNamedAll localName children

def countNamedAll (localName : String) : List Node → Nat
  | [] => 0
  | node :: nodes => countNamed localName node + countNamedAll localName nodes

end

def childNodes : Node → List Node
  | .text _ => []
  | .element _ children => children

section Slices

variable {Seconds Rate : Type} (platform : Platform Seconds Rate)

def isSkippableTTSText (text : Text) : Bool :=
  (trim (dropInvisible (collapse text))).isEmpty || platform.looksUnspeakable text

def conservativeBytes (root : Node) (text : Text) : Nat :=
  encodedLength (platform.serializeToString root) + (text.filter isPunctuation).length * 64 +
    ((childNodes root).filter isElement).length * 80 + countNamedAll "mark" (childNodes root) * 40

end Slices

/-! ## The buffer -/

/-- A slice of a sentence, or a whole one. -/
structure BufferedSentence (Seconds : Type) where
  text : Text
  ssml : Text
  sourceIndex : Nat
  sentenceText : Text
  rawRoot : Option Node
  rawBytes : Option Nat
  durationAtBaseRate : Seconds
  /-- Where the slice begins in its sentence, which the code does not keep. -/
  start : Nat

structure PendingSentence (Seconds : Type) where
  sentence : TTSSentence
  tree : SpeechTree Seconds
  offsets : List Nat
  position : Nat
  sourceIndex : Nat

/-- What the source of a buffer yields when it is asked for its next sentence. -/
inductive Item
  | sentence (sentence : TTSSentence)
  | failure
  deriving DecidableEq

inductive Failure
  | source
  /-- The slice has no element for its root. -/
  | typeError
  /-- `朗读片段超出语音服务限制` -/
  | size
  deriving DecidableEq

structure TTSSpeechBuffer (Seconds : Type) where
  /-- What the iterator is still to yield. -/
  source : List Item
  sentences : List (BufferedSentence Seconds)
  baseIndex : Nat
  sourceIndex : Nat
  pending : Option (PendingSentence Seconds)
  done : Bool
  /-- Every slice so far at its absolute index, which the code does not keep. -/
  issued : List (BufferedSentence Seconds)

namespace TTSSpeechBuffer

variable {Seconds Rate : Type}

def new (source : List Item) : TTSSpeechBuffer Seconds := ⟨source, [], 0, 0, none, false, []⟩

/-- The absolute index after the last one. -/
def stop (b : TTSSpeechBuffer Seconds) : Nat := b.baseIndex + b.sentences.length

def push (b : TTSSpeechBuffer Seconds) (entry : BufferedSentence Seconds) : TTSSpeechBuffer Seconds :=
  { b with sentences := b.sentences ++ [entry], issued := b.issued ++ [entry] }

variable [Arithmetic Seconds] (platform : Platform Seconds Rate)

/-- A small intact sentence needs no XML work. -/
def isSmall (sentence : TTSSentence) (targetSeconds : Seconds) (settings : TTSSettings Rate) : Bool :=
  platform.estimateTTSDuration sentence.text / platform.speechSpeed settings.rate ≤
      min platform.maxSliceSeconds targetSeconds &&
    encodedLength sentence.ssml ≤ 512 && !mentionsPronunciation sentence.ssml

/-- A document that cannot be parsed is read as its text. -/
def speechRoot (sentence : TTSSentence) : Node :=
  let parsed := platform.parseFromString sentence.ssml
  .element parsed.element (if parsed.hasParserError then [.text sentence.text] else parsed.children)

def beginSentence (b : TTSSpeechBuffer Seconds) (sentence : TTSSentence) (targetSeconds : Seconds)
    (settings : TTSSettings Rate) : TTSSpeechBuffer Seconds :=
  if isSmall platform sentence targetSeconds settings then
    { b with sourceIndex := b.sourceIndex + 1 }.push
      ⟨sentence.text, sentence.ssml, b.sourceIndex, sentence.text, none, none,
        platform.estimateTTSDuration sentence.text, 0⟩
  else
    { b with
      sourceIndex := b.sourceIndex + 1
      pending := some ⟨sentence, indexSSML platform.toEstimator (speechRoot platform sentence),
        offsets sentence.text, 0, b.sourceIndex⟩ }

end TTSSpeechBuffer

namespace PendingSentence

variable {Seconds Rate : Type} [Arithmetic Seconds] (platform : Platform Seconds Rate)

/-- `offsets[i]` -/
def offset (pending : PendingSentence Seconds) (i : Nat) : Nat := pending.offsets.getD i 0

def length (pending : PendingSentence Seconds) : Nat := pending.offsets.length - 1

def duration (pending : PendingSentence Seconds) (rate : Rate) (budget : Seconds) (stop : Nat) : Seconds :=
  slicedDuration platform.toEstimator pending.tree (pending.offset pending.position)
    (pending.offset stop) rate budget

/-- Doubles the length of the slice to try, for at most the given number of rounds. -/
def widen (pending : PendingSentence Seconds) (rate : Rate) (budget : Seconds) : Nat → Nat → Nat
  | 0, high => high
  | n + 1, high =>
      if high < pending.length && pending.duration platform rate budget high ≤ budget then
        pending.widen rate budget n (min pending.length (pending.position + (high - pending.position) * 2))
      else high

/-- The slice ends before a pronunciation that would be cut. -/
def beforePronunciation (pending : PendingSentence Seconds) (rate : Rate) (budget : Seconds)
    (best : Nat) : Nat :=
  let later := pending.tree.atomics.drop
    (firstEndingAfter SpeechNode.stop pending.tree.atomics (pending.offset pending.position) false)
  match (later.takeWhile fun atomic => atomic.start < pending.offset best).find? fun atomic =>
      atomic.start > pending.offset pending.position && atomic.stop > pending.offset best &&
        atomic.pronunciationSeconds / platform.speechSpeed rate ≤ budget with
  | some atomic => first (fun middle => pending.offset middle ≥ atomic.start) (pending.position + 1) best
  | none => best

/-- The end of the next slice by its duration. -/
def candidate (pending : PendingSentence Seconds) (rate : Rate) (budget : Seconds) : Nat :=
  let high := pending.widen platform rate budget pending.length (min pending.length (pending.position + 64))
  let best := last (fun middle => pending.duration platform rate budget middle ≤ budget)
    (pending.position + 1) high pending.position
  pending.beforePronunciation platform rate budget
    (if best = pending.position then pending.position + 1 else best)

/-- The slice up to an end, where it has an element for its root. -/
def slice (pending : PendingSentence Seconds) (rate : Rate) (budget : Seconds) (best : Nat) :
    Option (BufferedSentence Seconds) :=
  let start := pending.offset pending.position
  let stop := pending.offset best
  ((sliceSSML platform.toEstimator pending.tree start stop rate budget).filter isElement).map fun rawRoot =>
    let whole := start = 0 ∧ stop = pending.sentence.text.length ∧ pending.tree.atomics.isEmpty
    let text := if whole then pending.sentence.text else SpeechTree.slice pending.sentence.text start stop
    ⟨text, if whole then pending.sentence.ssml else platform.serializeToString rawRoot, pending.sourceIndex,
      pending.sentence.text, some rawRoot, some (conservativeBytes platform rawRoot text),
      pending.duration platform rate budget best * platform.speechSpeed rate, start⟩

def exceedsLimit (entry : BufferedSentence Seconds) : Bool :=
  entry.rawBytes.any (· > MAX_CHUNK_BYTES - ENVELOPE_BYTES)

/-- Halves the slice until it fits, for at most the given number of rounds. -/
def shorten (pending : PendingSentence Seconds) (rate : Rate) (budget : Seconds) : Nat → Nat → Nat
  | 0, best => best
  | n + 1, best =>
      if (pending.slice platform rate budget best).any exceedsLimit && best > pending.position + 1 then
        pending.shorten rate budget n (pending.position + max 1 ((best - pending.position) / 2))
      else best

end PendingSentence

namespace TTSSpeechBuffer

variable {Seconds Rate : Type} [Arithmetic Seconds] (platform : Platform Seconds Rate)

def appendNext (b : TTSSpeechBuffer Seconds) (pending : PendingSentence Seconds) (targetSeconds : Seconds)
    (settings : TTSSettings Rate) : Except Failure (TTSSpeechBuffer Seconds) :=
  let budget := min platform.maxSliceSeconds targetSeconds
  let candidate := pending.candidate platform settings.rate budget
  let best := pending.shorten platform settings.rate budget candidate candidate
  match pending.slice platform settings.rate budget best with
  | none => .error .typeError
  | some entry =>
      if PendingSentence.exceedsLimit entry then .error .size
      else
        .ok { b.push entry with
          pending := if best = pending.length then none else some { pending with position := best } }

/-- The body of the loop of `ensure`. -/
def pull (b : TTSSpeechBuffer Seconds) (targetSeconds : Seconds) (settings : TTSSettings Rate) :
    TTSSpeechBuffer Seconds × Option Failure :=
  match b.pending with
  | some pending =>
      match b.appendNext platform pending targetSeconds settings with
      | .ok next => (next, none)
      | .error failure => (b, some failure)
  | none =>
      match b.source with
      | [] => ({ b with done := true }, none)
      | .failure :: source => ({ b with source := source }, some .source)
      | .sentence sentence :: source =>
          if isSkippableTTSText platform sentence.text then ({ b with source := source }, none)
          else ({ b with source := source }.beginSentence platform sentence targetSeconds settings, none)

/-- More rounds than the loop of `ensure` can take. -/
def rounds (b : TTSSpeechBuffer Seconds) : Nat :=
  (b.pending.elim 0 fun pending => pending.length - pending.position) +
    (b.source.map fun
      | .sentence sentence => sentence.text.length + 1
      | .failure => 1).sum + 1

def ensureWithin (index : Nat) (targetSeconds : Seconds) (settings : TTSSettings Rate) :
    Nat → TTSSpeechBuffer Seconds → TTSSpeechBuffer Seconds × Except Failure Bool
  | 0, b => (b, .ok (b.baseIndex ≤ index && index < b.stop))
  | n + 1, b =>
      if !b.done && b.stop ≤ index then
        match b.pull platform targetSeconds settings with
        | (next, none) => ensureWithin index targetSeconds settings n next
        | (next, some failure) => (next, .error failure)
      else (b, .ok (b.baseIndex ≤ index && index < b.stop))

def ensure (b : TTSSpeechBuffer Seconds) (index : Nat) (targetSeconds : Seconds)
    (settings : TTSSettings Rate) :
    TTSSpeechBuffer Seconds × Except Failure Bool :=
  ensureWithin platform index targetSeconds settings (b.rounds + 1) b

/-! ### Navigation -/

/-- The entry at an absolute index. -/
def entry (b : TTSSpeechBuffer Seconds) (index : Nat) : Option (BufferedSentence Seconds) :=
  if b.baseIndex ≤ index then b.sentences[index - b.baseIndex]? else none

/-- Looks forward for another sentence, for at most the given number of rounds. -/
def forward (sourceIndex : Nat) (settings : TTSSettings Rate) :
    Nat → TTSSpeechBuffer Seconds → Nat → TTSSpeechBuffer Seconds × Except Failure (Option Nat)
  | 0, b, _ => (b, .ok none)
  | n + 1, b, cursor =>
      match b.ensure platform cursor platform.maxSliceSeconds settings with
      | (next, .error failure) => (next, .error failure)
      | (next, .ok false) => (next, .ok none)
      | (next, .ok true) =>
          if (next.entry cursor).all fun entry => entry.sourceIndex ≠ sourceIndex then
            (next, .ok (some cursor))
          else forward sourceIndex settings n next (cursor + 1)

/-- `while (cursor >= this.baseIndex && …) cursor -= 1;` from the cursor above. -/
def backward (b : TTSSpeechBuffer Seconds) (sourceIndex : Nat) : Nat → Nat
  | 0 => 0
  | cursor + 1 =>
      if (b.entry cursor).any fun entry => entry.sourceIndex = sourceIndex then
        b.backward sourceIndex cursor
      else cursor + 1

/-- A jump leaves the rest of its sentence behind. -/
def abandon (b : TTSSpeechBuffer Seconds) : TTSSpeechBuffer Seconds :=
  { b with baseIndex := b.stop, sentences := [], pending := none }

def adjacentSentenceIndex (b : TTSSpeechBuffer Seconds) (index : Nat) (isForward : Bool)
    (settings : TTSSettings Rate) : TTSSpeechBuffer Seconds × Except Failure (Option Nat) :=
  match b.ensure platform index platform.maxSliceSeconds settings with
  | (next, .error failure) => (next, .error failure)
  | (next, .ok false) => (next, .ok none)
  | (next, .ok true) =>
      match next.entry index with
      | none => (next, .ok none)
      | some entry =>
          if isForward then
            if next.pending.any fun pending => pending.sourceIndex = entry.sourceIndex then
              let jumped := next.abandon
              jumped.forward platform entry.sourceIndex settings (jumped.rounds + 1) jumped.baseIndex
            else
              next.forward platform entry.sourceIndex settings (next.stop + next.rounds - index)
                (index + 1)
          else
            -- One more than the cursor of the code.
            let above := next.backward entry.sourceIndex index
            if above ≤ next.baseIndex then (next, .ok none)
            else
              match next.entry (above - 1) with
              | none => (next, .ok none)
              | some previous => (next, .ok (some (next.backward previous.sourceIndex (above - 1))))

/-! ### Chunks -/

/-- What a chunk has taken in so far. -/
structure Batch (Seconds : Type) where
  entries : List (BufferedSentence Seconds)
  nodes : List Node
  estimatedSeconds : Seconds
  bytes : Nat

structure TTSAudioChunk (Seconds : Type) where
  /-- The children of the document that `buildAzureSSML` finishes. -/
  nodes : List Node
  ssml : Text
  startIndex : Nat
  endIndex : Nat
  estimatedSeconds : Seconds

def getRawRoot (entry : BufferedSentence Seconds) : Node :=
  match entry.rawRoot with
  | some rawRoot => rawRoot
  | none =>
      let parsed := platform.parseFromString entry.ssml
      if parsed.hasParserError then .element ⟨"speak", []⟩ [.text entry.text]
      else .element parsed.element parsed.children

def getRawBytes (entry : BufferedSentence Seconds) : Nat :=
  entry.rawBytes.getD (conservativeBytes platform (getRawRoot platform entry) entry.text)

def pauseElement : Node := .element ⟨"break", [("time", ascii "240ms")]⟩ []

/-- One round of the loop of `readChunk`: the batch that the loop ends with, or the one that it
goes on with. -/
def take (batch : Batch Seconds) (entry : BufferedSentence Seconds) (targetSeconds : Seconds)
    (settings : TTSSettings Rate) : Except Failure (Batch Seconds × Bool) :=
  let addPause := batch.entries.getLast?.any fun latest => latest.sourceIndex ≠ entry.sourceIndex
  let seconds := entry.durationAtBaseRate / platform.speechSpeed settings.rate +
    (bif addPause then platform.sentencePauseSeconds else 0)
  if !batch.entries.isEmpty && batch.estimatedSeconds + seconds > targetSeconds then .ok (batch, false)
  else
    let addedBytes := getRawBytes platform entry + (bif addPause then 21 else 0)
    if batch.bytes + addedBytes > MAX_CHUNK_BYTES then
      if batch.entries.isEmpty then .error .size else .ok (batch, false)
    else
      let next : Batch Seconds := ⟨batch.entries ++ [entry],
        batch.nodes ++ (bif addPause then [pauseElement] else []) ++ childNodes (getRawRoot platform entry),
        batch.estimatedSeconds + seconds, batch.bytes + addedBytes⟩
      .ok (next, !(next.estimatedSeconds ≥ targetSeconds))

/-- A batch holds room for the voice and its style. -/
def firstBatch (settings : TTSSettings Rate) : Batch Seconds :=
  ⟨[], [], 0, ENVELOPE_BYTES + encodedLength (settings.voiceName ++ settings.style) * 6⟩

def collect (targetSeconds : Seconds) (settings : TTSSettings Rate) :
    Nat → TTSSpeechBuffer Seconds → Nat → Batch Seconds →
      TTSSpeechBuffer Seconds × Except Failure (Batch Seconds)
  | 0, b, _, batch => (b, .ok batch)
  | n + 1, b, index, batch =>
      match b.ensure platform index targetSeconds settings with
      | (next, .error failure) => (next, .error failure)
      | (next, .ok false) => (next, .ok batch)
      | (next, .ok true) =>
          match next.entry index with
          | none => (next, .ok batch)
          | some entry =>
              match take platform batch entry targetSeconds settings with
              | .error failure => (next, .error failure)
              | .ok (batch, true) => collect targetSeconds settings n next (index + 1) batch
              | .ok (batch, false) => (next, .ok batch)

/-- History is bounded. -/
def evict (b : TTSSpeechBuffer Seconds) (startIndex : Nat) : TTSSpeechBuffer Seconds :=
  let keepFrom := max b.baseIndex (startIndex - 256)
  { b with baseIndex := keepFrom, sentences := b.sentences.drop (keepFrom - b.baseIndex) }

def readChunk (b : TTSSpeechBuffer Seconds) (startIndex : Nat) (targetSeconds : Seconds)
    (settings : TTSSettings Rate) :
    TTSSpeechBuffer Seconds × Except Failure (Option (TTSAudioChunk Seconds)) :=
  if !platform.isFinite targetSeconds || targetSeconds ≤ 0 then (b, .ok none)
  else
    match b.ensure platform startIndex targetSeconds settings with
    | (next, .error failure) => (next, .error failure)
    | (next, .ok false) => (next, .ok none)
    | (next, .ok true) =>
        let kept := next.evict startIndex
        match kept.collect platform targetSeconds settings
          (kept.stop + kept.rounds - startIndex + 1) startIndex
          (firstBatch settings) with
        | (last, .error failure) => (last, .error failure)
        | (last, .ok batch) =>
            if batch.entries.isEmpty then (last, .ok none)
            else
              let ssml := platform.buildAzureSSML batch.nodes settings
              if encodedLength ssml > MAX_CHUNK_BYTES then (last, .error .size)
              else
                (last, .ok (some ⟨batch.nodes, ssml, startIndex, startIndex + batch.entries.length - 1,
                  batch.estimatedSeconds⟩))

end TTSSpeechBuffer

/-! ## A platform -/

scoped instance : Arithmetic Nat where

/-- Each unit takes a second, and slices may take two. A document is its text. -/
def samplePlatform : Platform Nat Nat where
  estimateTTSDuration := List.length
  pronunciationSeconds _ text := text.length
  speechSpeed _ := 1
  parseFromString ssml := ⟨⟨"speak", []⟩, [.text ssml], false⟩
  serializeToString := textContent
  buildAzureSSML nodes _ := textContents nodes
  isFinite _ := true
  maxSliceSeconds := 2
  sentencePauseSeconds := 0
  looksUnspeakable _ := false

def sampleSettings : TTSSettings Nat := ⟨[], [], 0⟩

def sampleSentence (text : String) : Item := .sentence ⟨ascii text, ascii text⟩

end ZReader.Frontend.SpeechBuffer
