import ZReader.Lib.Transition

namespace ZReader.Frontend.Playback

/-! ## Speech markup -/

def afterTag : List Char → Option (List Char)
  | [] => none
  | c :: cs => if c = '>' then some cs else afterTag cs

/-- What follows a match of `<\/?name[^>]*>` at the start of a text. -/
def namedTag (name : List Char) : List Char → Option (List Char)
  | '<' :: cs =>
      let cs := if cs.head? = some '/' then cs.tail else cs
      if (cs.take name.length).map Char.toLower = name then afterTag (cs.drop name.length) else none
  | _ => none

/-- What follows a match of `<[^>]+>`. -/
def anyTag : List Char → Option (List Char)
  | '<' :: c :: cs => if c = '>' then none else afterTag cs
  | _ => none

def replaceTags (tag : List Char → Option (List Char)) (replacement : List Char) :
    Nat → List Char → List Char
  | 0, cs => cs
  | _ + 1, [] => []
  | n + 1, c :: cs =>
      match tag (c :: cs) with
      | some rest => replacement ++ replaceTags tag replacement n rest
      | none => c :: replaceTags tag replacement n cs

/-- The white space and the line terminators that `trim` takes off. -/
def isTrimmed (c : Char) : Bool :=
  c.toNat ∈ [0x9, 0xA, 0xB, 0xC, 0xD, 0x20, 0xA0, 0x1680, 0x2028, 0x2029, 0x202F, 0x205F, 0x3000, 0xFEFF] ||
    (0x2000 ≤ c.toNat && c.toNat ≤ 0x200A)

def trim (cs : List Char) : List Char :=
  ((cs.dropWhile isTrimmed).reverse.dropWhile isTrimmed).reverse

def stripSSML (ssml : String) : String :=
  let replace (cs : List Char) (p : String × String) :=
    replaceTags (namedTag p.1.toList) p.2.toList cs.length cs
  let named := [("speak", ""), ("mark", ""), ("emphasis", ""), ("break", " "), ("phoneme", ""),
    ("lang", ""), ("voice", ""), ("prosody", ""), ("mstts:", ""), ("bookmark", "")]
  let cs := named.foldl replace ssml.toList
  .ofList (trim (replaceTags anyTag [] cs.length cs))

def maxBackendSSMLBytes : Nat := 32 * 1024

def isSSMLTooLarge (ssml : String) : Bool := ssml.utf8ByteSize > maxBackendSSMLBytes

structure TTSMark where
  name : String
  text : String
  cfi : Option String
  deriving DecidableEq

/-! ## The media element -/

/-- The events that the player listens to. -/
inductive MediaEvent
  | play
  | pause
  | ended
  | error
  | timeupdate
  deriving DecidableEq

/-- An audio element with the events it has queued. Object URLs are numbered in the order
of their creation. -/
structure AudioElement where
  src : Option Nat
  paused : Bool
  ended : Bool
  error : Bool
  /-- The URL that the handlers of `playAudio` close over. -/
  handlers : Option Nat
  queue : List MediaEvent
  deriving DecidableEq

namespace AudioElement

def new : AudioElement := ⟨none, true, false, false, none, []⟩

def play (audio : AudioElement) : AudioElement :=
  { audio with paused := false, queue := audio.queue ++ [.play] }

def pause (audio : AudioElement) : AudioElement :=
  if audio.paused then audio else { audio with paused := true, queue := audio.queue ++ [.pause] }

/-- The load algorithm, which leaves alone what has been queued. -/
def load (audio : AudioElement) (src : Option Nat) : AudioElement :=
  { audio with src := src, paused := true, ended := false, error := false }

/-- What the browser does to the element by itself. -/
def browser (audio : AudioElement) : MediaEvent → AudioElement
  | .play => audio.play
  | .pause => audio.pause
  | .ended => { audio.pause with ended := true, queue := audio.pause.queue ++ [.ended] }
  | .error => { audio with error := true, queue := audio.queue ++ [.error] }
  | .timeupdate => { audio with queue := audio.queue ++ [.timeupdate] }

@[simp] theorem play_src (audio : AudioElement) : audio.play.src = audio.src := rfl

@[simp] theorem play_handlers (audio : AudioElement) : audio.play.handlers = audio.handlers := rfl

@[simp] theorem pause_src (audio : AudioElement) : audio.pause.src = audio.src := by
  rw [pause]
  split <;> rfl

@[simp] theorem pause_handlers (audio : AudioElement) : audio.pause.handlers = audio.handlers := by
  rw [pause]
  split <;> rfl

@[simp] theorem browser_src (audio : AudioElement) (e : MediaEvent) :
    (audio.browser e).src = audio.src := by
  cases e <;> simp [browser]

@[simp] theorem browser_handlers (audio : AudioElement) (e : MediaEvent) :
    (audio.browser e).handlers = audio.handlers := by
  cases e <;> simp [browser]

end AudioElement

/-! ## The player -/

inductive TTSState
  | stopped
  | playing
  | paused
  deriving DecidableEq

/-- Where a call of `speak` waits: for a prefetch of its text, for its own request, for the
promise of `play()`. The last two are the outcome of its own promise. -/
inductive SpeechPhase
  | prefetching
  | fetching
  | starting
  | resolved
  | rejected
  deriving DecidableEq

structure Speech where
  requestId : Nat
  ssml : String
  marks : List TTSMark
  /-- `waitController.signal.aborted` -/
  waitAborted : Bool
  /-- The signal of its request. -/
  fetchAborted : Bool
  phase : SpeechPhase
  deriving DecidableEq

/-- A call of `resume`, which waits for the promise of `play()` at most. -/
structure Resumption where
  requestId : Nat
  phase : SpeechPhase
  deriving DecidableEq

/-- What `speak` finds for its text: audio in the cache or among the preloaded, a prefetch
on its way, or nothing. -/
inductive Supply
  | ready
  | prefetching
  | missing
  deriving DecidableEq

structure BackendTTS where
  audio : Option AudioElement
  audioUrl : Option Nat
  /-- How many object URLs have been created. -/
  created : Nat
  state : TTSState
  marks : List TTSMark
  currentSSML : String
  audioSSML : String
  speechId : Int
  audioSpeechId : Int
  playbackRequestId : Nat
  replacingSource : Bool
  wantsPlayback : Bool
  /-- The calls of `speak` that own the two controllers. -/
  playbackWaitController : Option Nat
  abortController : Option Nat
  speeches : List Speech
  resumptions : List Resumption
  deriving DecidableEq

inductive Action
  | speak (ssml : String) (marks : List TTSMark) (supply : Supply)
  /-- The promise of the awaited prefetch, with what is then among the preloaded. -/
  | prefetched (i : Nat) (ok : Bool) (ready : Bool)
  /-- The outcome of the request, which an abort need not have reached in time. -/
  | fetched (i : Nat) (ok : Bool)
  | played (i : Nat) (ok : Bool)
  | pause
  | stop
  | resume
  | resumed (j : Nat) (ok : Bool)
  /-- The queued event number `k` is delivered. They come in order where `k` is 0. -/
  | deliver (k : Nat)
  | browser (e : MediaEvent)
  deriving DecidableEq

namespace BackendTTS

def new : BackendTTS where
  audio := none
  audioUrl := none
  created := 0
  state := .stopped
  marks := []
  currentSSML := ""
  audioSSML := ""
  speechId := 0
  audioSpeechId := -1
  playbackRequestId := 0
  replacingSource := false
  wantsPlayback := false
  playbackWaitController := none
  abortController := none
  speeches := []
  resumptions := []

def putSpeech (p : BackendTTS) (i : Nat) (speech : Speech) : BackendTTS :=
  { p with speeches := p.speeches.set i speech }

/-- `playbackWaitController?.abort()` and `abortController?.abort()` -/
def abortBoth (p : BackendTTS) : BackendTTS :=
  { p with speeches := p.speeches.mapIdx fun i speech => { speech with
      waitAborted := speech.waitAborted || p.playbackWaitController = some i
      fetchAborted := speech.fetchAborted || p.abortController = some i } }

/-- The way of an exception through `speak`. -/
def fail (p : BackendTTS) (i : Nat) (speech : Speech) : BackendTTS :=
  let p := if speech.requestId = p.playbackRequestId then
    { p with replacingSource := false, state := .paused } else p
  p.putSpeech i { speech with phase := .rejected }

/-- The end of `speak` and `playAudio` up to the promise of `play()`. -/
def playAudio (p : BackendTTS) (i : Nat) (speech : Speech) : BackendTTS :=
  let audio := p.audio.getD .new
  { p with
    marks := speech.marks
    audio := some (({ audio with handlers := some p.created }.load (some p.created)).play)
    audioUrl := some p.created
    created := p.created + 1
    audioSSML := p.currentSSML
    audioSpeechId := p.speechId
    speeches := p.speeches.set i { speech with phase := .starting } }

def fetchAudioBlob (p : BackendTTS) (i : Nat) (speech : Speech) : BackendTTS :=
  { p with
    abortController := some i
    speeches := p.speeches.set i { speech with phase := .fetching } }

def newSpeech (p : BackendTTS) (ssml : String) (marks : List TTSMark) : Speech where
  requestId := p.playbackRequestId + 1
  ssml := ssml
  marks := if marks = [] then [⟨"0", stripSSML ssml, none⟩] else marks
  waitAborted := false
  fetchAborted := false
  phase := .prefetching

/-- What `speak` does before it waits for anything. -/
def supersede (p : BackendTTS) (ssml : String) (marks : List TTSMark) : BackendTTS :=
  { p.abortBoth with
    playbackRequestId := p.playbackRequestId + 1
    playbackWaitController := some p.speeches.length
    speechId := p.speechId + 1
    wantsPlayback := true
    currentSSML := ssml
    replacingSource := true
    audio := p.audio.map .pause
    speeches := p.abortBoth.speeches ++ [p.newSpeech ssml marks] }

def speak (p : BackendTTS) (ssml : String) (marks : List TTSMark) (supply : Supply) : BackendTTS :=
  if isSSMLTooLarge ssml then p
  else
    match supply with
    | .ready => (p.supersede ssml marks).playAudio p.speeches.length (p.newSpeech ssml marks)
    | .prefetching => p.supersede ssml marks
    | .missing => (p.supersede ssml marks).fetchAudioBlob p.speeches.length (p.newSpeech ssml marks)

def prefetched (p : BackendTTS) (i : Nat) (speech : Speech) (ok ready : Bool) : Option BackendTTS :=
  if speech.phase ≠ .prefetching ∨ (speech.waitAborted = true ∧ ok = true) then none
  else if ok = false ∨ speech.requestId ≠ p.playbackRequestId then some (p.fail i speech)
  else if ready then some (p.playAudio i speech)
  else some (p.fetchAudioBlob i speech)

def fetched (p : BackendTTS) (i : Nat) (speech : Speech) (ok : Bool) : Option BackendTTS :=
  if speech.phase ≠ .fetching then none
  else
    let p := { p with abortController := if p.abortController = some i then none else p.abortController }
    if ok = false ∨ speech.requestId ≠ p.playbackRequestId then some (p.fail i speech)
    else some (p.playAudio i speech)

def played (p : BackendTTS) (i : Nat) (speech : Speech) (ok : Bool) : Option BackendTTS :=
  if speech.phase ≠ .starting then none
  else if ok = false ∨ speech.requestId ≠ p.playbackRequestId then some (p.fail i speech)
  else some { p with
    replacingSource := false
    state := .playing
    speeches := p.speeches.set i { speech with phase := .resolved } }

def hasCurrentAudio (p : BackendTTS) : Bool :=
  p.audioUrl.isSome && p.audioSpeechId = p.speechId && p.audioSSML = p.currentSSML &&
    p.audio.any fun audio => audio.src.isSome && !audio.ended && !audio.error

def pause (p : BackendTTS) : BackendTTS :=
  { p.abortBoth with
    wantsPlayback := false
    playbackRequestId := p.playbackRequestId + 1
    abortController := none
    replacingSource := false
    state := .paused
    audio := p.audio.map .pause }

def resume (p : BackendTTS) : BackendTTS :=
  if p.hasCurrentAudio then
    let requestId := p.playbackRequestId + 1
    let p := { p with wantsPlayback := true, playbackRequestId := requestId }
    if p.audio.any (·.paused) then
      { p with
        audio := p.audio.map .play
        resumptions := p.resumptions ++ [⟨requestId, .starting⟩] }
    else
      { p with
        state := .playing
        resumptions := p.resumptions ++ [⟨requestId, .resolved⟩] }
  else p

def resumed (p : BackendTTS) (j : Nat) (resumption : Resumption) (ok : Bool) : Option BackendTTS :=
  if resumption.phase ≠ .starting then none
  else if ok = false ∨ resumption.requestId ≠ p.playbackRequestId ∨ p.wantsPlayback = false then
    some { p with resumptions := p.resumptions.set j { resumption with phase := .rejected } }
  else some { p with
    state := .playing
    resumptions := p.resumptions.set j { resumption with phase := .resolved } }

def stop (p : BackendTTS) : BackendTTS :=
  { p.abortBoth with
    wantsPlayback := false
    playbackWaitController := none
    playbackRequestId := p.playbackRequestId + 1
    abortController := none
    replacingSource := false
    state := .stopped
    audio := p.audio.map fun audio => ({ audio with handlers := none }.pause).load none
    audioUrl := none
    marks := []
    currentSSML := ""
    audioSSML := ""
    audioSpeechId := -1 }

/-- The handlers that `playAudio` installs with the URL `url`. -/
def handle (p : BackendTTS) (audio : AudioElement) (url : Nat) : MediaEvent → BackendTTS
  | .play =>
      if p.audioUrl ≠ some url then p
      else if p.wantsPlayback = false then { p with audio := some audio.pause }
      else { p with replacingSource := false, state := .playing }
  | .pause =>
      if p.audioUrl ≠ some url ∨ p.replacingSource = true ∨ audio.paused = false ∨
        audio.ended = true then p
      else if p.state = .playing then { p with state := .paused } else p
  | .error =>
      if p.audioUrl ≠ some url then p else { p with replacingSource := false, state := .paused }
  -- these two call back and leave the fields of the player alone
  | .ended | .timeupdate => p

def deliver (p : BackendTTS) (audio : AudioElement) (k : Nat) : Option BackendTTS :=
  (audio.queue[k]?).map fun e =>
    let audio := { audio with queue := audio.queue.eraseIdx k }
    let p := { p with audio := some audio }
    match audio.handlers with
    | some url => p.handle audio url e
    | none => p

def step (p : BackendTTS) : Action → Option BackendTTS
  | .speak ssml marks supply => some (p.speak ssml marks supply)
  | .prefetched i ok ready => (p.speeches[i]?).bind (p.prefetched i · ok ready)
  | .fetched i ok => (p.speeches[i]?).bind (p.fetched i · ok)
  | .played i ok => (p.speeches[i]?).bind (p.played i · ok)
  | .pause => some p.pause
  | .stop => some p.stop
  | .resume => some p.resume
  | .resumed j ok => (p.resumptions[j]?).bind (p.resumed j · ok)
  | .deliver k => p.audio.bind (p.deliver · k)
  | .browser e => p.audio.map fun audio => { p with audio := some (audio.browser e) }

end BackendTTS

end ZReader.Frontend.Playback
