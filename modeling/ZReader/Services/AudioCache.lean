import ZReader.Lib.Utf8

namespace ZReader.Services.AudioCache

open Std Lib.Utf8

/-! ## The cache in memory -/

/-- The fields of `ttsCacheConfig` that the audio caches read. Durations and times are
nanoseconds. -/
structure CacheConfig where
  MaxBytes : Int
  MaxItems : Int
  TTL : Int
  Dir : Bytes

def defaultTTSAudioCacheMaxBytes : Int := 64 * 1024 * 1024
def defaultTTSAudioCacheMaxItems : Int := 128
def defaultTTSAudioCacheTTL : Int := 24 * 3600 * 10 ^ 9

structure TTSCacheEntry where
  key : Bytes
  data : Bytes
  size : Int
  expiresAt : Int
  deriving DecidableEq

/-- An element of the recency list, told from others by its address. -/
structure Element where
  address : Nat
  Value : TTSCacheEntry
  deriving DecidableEq

structure TTSAudioCache where
  items : ExtTreeMap Bytes Element
  order : List Element
  config : CacheConfig
  bytes : Int
  /-- The address of the next element. -/
  next : Nat

def newTTSAudioCache (config : CacheConfig) : TTSAudioCache where
  items := ∅
  order := []
  config :=
    { MaxBytes := if config.MaxBytes ≤ 0 then defaultTTSAudioCacheMaxBytes else config.MaxBytes
      MaxItems := if config.MaxItems ≤ 0 then defaultTTSAudioCacheMaxItems else config.MaxItems
      TTL := if config.TTL ≤ 0 then defaultTTSAudioCacheTTL else config.TTL
      Dir := config.Dir }
  bytes := 0
  next := 0

namespace TTSAudioCache

def removeElement (c : TTSAudioCache) (el : Element) : TTSAudioCache :=
  { c with
    items := c.items.erase el.Value.key
    bytes := c.bytes - el.Value.size
    order := c.order.filter fun e => e.address ≠ el.address }

def moveToFront (c : TTSAudioCache) (el : Element) : TTSAudioCache :=
  { c with order := el :: c.order.filter fun e => e.address ≠ el.address }

def get (c : TTSAudioCache) (key : Bytes) (now : Int) : Option Bytes × TTSAudioCache :=
  match c.items[key]? with
  | none => (none, c)
  | some el =>
      if now > el.Value.expiresAt then (none, c.removeElement el)
      else (some el.Value.data, c.moveToFront el)

def removeKey (c : TTSAudioCache) (key : Bytes) : TTSAudioCache :=
  match c.items[key]? with
  | some el => c.removeElement el
  | none => c

/-- The new entry, in place of an older one of its key, before anything is evicted. -/
def push (c : TTSAudioCache) (key data : Bytes) (now : Int) : TTSAudioCache :=
  let c := c.removeKey key
  let el : Element := ⟨c.next, ⟨key, data, data.length, now + c.config.TTL⟩⟩
  { c with
    order := el :: c.order
    items := c.items.insert key el
    bytes := c.bytes + el.Value.size
    next := c.next + 1 }

/-- The loop of `set`, which drops the back of the list while a bound is exceeded. Each turn
shortens the list, so its length is enough turns. -/
def evict : Nat → TTSAudioCache → TTSAudioCache
  | 0, c => c
  | turns + 1, c =>
      if c.bytes > c.config.MaxBytes ∨ (c.items.size : Int) > c.config.MaxItems then
        match c.order.getLast? with
        | none => c
        | some oldest => evict turns (c.removeElement oldest)
      else c

/-- `set` keeps the data. -/
def Accepts (c : TTSAudioCache) (data : Bytes) : Prop :=
  ¬ ((data.length : Int) = 0 ∨ (data.length : Int) > c.config.MaxBytes)

instance (c : TTSAudioCache) (data : Bytes) : Decidable (c.Accepts data) :=
  inferInstanceAs (Decidable (¬ _))

def set (c : TTSAudioCache) (key data : Bytes) (now : Int) : TTSAudioCache :=
  if c.Accepts data then
    let pushed := c.push key data now
    evict pushed.order.length pushed
  else c

/-! ## Both structures hold the same entries -/

/-- The sizes of the listed entries. -/
def total (l : List Element) : Int := (l.map fun e => e.Value.size).sum

@[simp] theorem total_nil : total [] = 0 := rfl

@[simp] theorem total_cons (e : Element) (l : List Element) :
    total (e :: l) = e.Value.size + total l := by
  simp [total]

@[simp] theorem total_append (l m : List Element) : total (l ++ m) = total l + total m := by
  simp [total]

/-- The map and the recency list hold the same entries, each once, and `bytes` is the sum of
their sizes. -/
structure Synced (c : TTSAudioCache) : Prop where
  addresses : (c.order.map fun e => e.address).Nodup
  keys : (c.order.map fun e => e.Value.key).Nodup
  items : ∀ key el, c.items[key]? = some el ↔ el ∈ c.order ∧ el.Value.key = key
  size : c.items.size = c.order.length
  bytes : c.bytes = total c.order
  fresh : ∀ el ∈ c.order, el.address < c.next
  sizes : ∀ el ∈ c.order, el.Value.size = el.Value.data.length ∧ 0 < el.Value.size

theorem filter_address {l : List Element} (hl : (l.map fun e => e.address).Nodup) {el : Element}
    (hel : el ∈ l) : l.filter (fun e => e.address ≠ el.address) = l.erase el := by
  rw [(hl.of_map).erase_eq_filter]
  apply List.filter_congr
  intro e he
  have hinj := List.inj_on_of_nodup_map hl he hel
  by_cases h : e = el
  · simp [h]
  · have hne : e.address ≠ el.address := fun ha => h (hinj ha)
    simp [h, hne]

theorem total_erase {l : List Element} {el : Element} (h : el ∈ l) :
    total l = el.Value.size + total (l.erase el) := by
  have hperm := (List.perm_cons_erase h).map fun e => e.Value.size
  rw [total, hperm.sum_eq, List.map_cons, List.sum_cons, total]

variable {c : TTSAudioCache}

theorem Synced.removeElement (h : c.Synced) {el : Element} (hel : el ∈ c.order) :
    (c.removeElement el).Synced := by
  have horder : (c.removeElement el).order = c.order.erase el := filter_address h.addresses hel
  have hsub : (c.order.erase el).Sublist c.order := List.erase_sublist
  have hnodup := h.addresses.of_map
  have hitem := (h.items el.Value.key el).mpr ⟨hel, rfl⟩
  refine ⟨?_, ?_, ?_, ?_, ?_, ?_, ?_⟩
  · rw [horder]
    exact h.addresses.sublist (hsub.map _)
  · rw [horder]
    exact h.keys.sublist (hsub.map _)
  · intro key e
    rw [horder, hnodup.mem_erase_iff]
    show (c.items.erase el.Value.key)[key]? = some e ↔ _
    simp only [ExtTreeMap.getElem?_erase, LawfulEqOrd.compare_eq_iff_eq]
    by_cases hkey : el.Value.key = key
    · rw [if_pos hkey]
      simp only [reduceCtorEq, false_iff, not_and]
      intro ⟨hne, he⟩ hk
      exact hne (List.inj_on_of_nodup_map h.keys he hel (hk.trans hkey.symm))
    · rw [if_neg hkey, h.items]
      constructor
      · rintro ⟨he, rfl⟩
        exact ⟨⟨fun h => hkey (by rw [h]), he⟩, rfl⟩
      · rintro ⟨⟨-, he⟩, rfl⟩
        exact ⟨he, rfl⟩
  · rw [horder, List.length_erase_of_mem hel]
    show (c.items.erase el.Value.key).size = _
    rw [ExtTreeMap.size_erase, ← ExtTreeMap.isSome_getElem?_eq_contains, hitem, h.size]
    rfl
  · rw [horder]
    show c.bytes - el.Value.size = _
    rw [h.bytes, total_erase hel]
    omega
  · intro e he
    rw [horder] at he
    exact h.fresh e (hsub.subset he)
  · intro e he
    rw [horder] at he
    exact h.sizes e (hsub.subset he)

theorem Synced.moveToFront (h : c.Synced) {el : Element} (hel : el ∈ c.order) :
    (c.moveToFront el).Synced := by
  have horder : (c.moveToFront el).order = el :: c.order.erase el := by
    rw [TTSAudioCache.moveToFront, filter_address h.addresses hel]
  have hperm : (c.moveToFront el).order.Perm c.order := by
    rw [horder]
    exact (List.perm_cons_erase hel).symm
  refine ⟨?_, ?_, ?_, ?_, ?_, ?_, ?_⟩
  · exact (hperm.map _).nodup_iff.mpr h.addresses
  · exact (hperm.map _).nodup_iff.mpr h.keys
  · intro key e
    rw [hperm.mem_iff]
    exact h.items key e
  · rw [hperm.length_eq]
    exact h.size
  · rw [horder, total_cons, ← total_erase hel]
    exact h.bytes
  · exact fun e he => h.fresh e (hperm.mem_iff.mp he)
  · exact fun e he => h.sizes e (hperm.mem_iff.mp he)

theorem Synced.get (h : c.Synced) (key : Bytes) (now : Int) : (c.get key now).2.Synced := by
  rw [TTSAudioCache.get]
  cases hitem : c.items[key]? with
  | none => exact h
  | some el =>
      have hel := ((h.items key el).mp hitem).1
      show (if now > el.Value.expiresAt then (none, c.removeElement el)
        else (some el.Value.data, c.moveToFront el)).2.Synced
      split
      · exact h.removeElement hel
      · exact h.moveToFront hel

theorem Synced.removeKey (h : c.Synced) (key : Bytes) :
    (c.removeKey key).Synced ∧ (∀ e ∈ (c.removeKey key).order, e.Value.key ≠ key) ∧
      (c.removeKey key).config = c.config ∧ (c.removeKey key).next = c.next ∧
      (c.removeKey key).order = c.order.filter fun e => e.Value.key ≠ key := by
  rw [TTSAudioCache.removeKey]
  cases hitem : c.items[key]? with
  | none =>
      have hkey : ∀ e ∈ c.order, e.Value.key ≠ key := by
        intro e he hk
        have hfound := (h.items key e).mpr ⟨he, hk⟩
        rw [hitem] at hfound
        cases hfound
      refine ⟨h, hkey, rfl, rfl, (List.filter_eq_self.mpr ?_).symm⟩
      intro e he
      simpa using hkey e he
  | some el =>
      obtain ⟨hel, rfl⟩ := (h.items key el).mp hitem
      have horder : (c.removeElement el).order = c.order.filter fun e => e.Value.key ≠ el.Value.key := by
        apply List.filter_congr
        intro e he
        by_cases heq : e = el
        · simp [heq]
        · have ha : e.address ≠ el.address :=
            fun ha => heq (List.inj_on_of_nodup_map h.addresses he hel ha)
          have hk : e.Value.key ≠ el.Value.key :=
            fun hk => heq (List.inj_on_of_nodup_map h.keys he hel hk)
          simp [ha, hk]
      refine ⟨h.removeElement hel, ?_, rfl, rfl, horder⟩
      intro e he
      have he : e ∈ c.order.filter fun e => e.Value.key ≠ el.Value.key := horder ▸ he
      simpa using (List.mem_filter.mp he).2

theorem Synced.push (h : c.Synced) (key : Bytes) {data : Bytes} (hdata : data ≠ []) (now : Int) :
    (c.push key data now).Synced := by
  obtain ⟨h, hkey, -, -, -⟩ := h.removeKey key
  have hpos := List.length_pos_iff.mpr hdata
  refine ⟨?_, ?_, ?_, ?_, ?_, ?_, ?_⟩
  · refine List.nodup_cons.mpr ⟨?_, h.addresses⟩
    intro hmem
    obtain ⟨e, he, ha⟩ := List.mem_map.mp hmem
    exact absurd ha (h.fresh e he).ne
  · refine List.nodup_cons.mpr ⟨?_, h.keys⟩
    intro hmem
    obtain ⟨e, he, hk⟩ := List.mem_map.mp hmem
    exact hkey e he hk
  · intro k e
    simp only [TTSAudioCache.push, ExtTreeMap.getElem?_insert, LawfulEqOrd.compare_eq_iff_eq,
      List.mem_cons]
    by_cases hk : key = k
    · rw [if_pos hk]
      subst hk
      constructor
      · intro he
        cases he
        exact ⟨.inl rfl, rfl⟩
      · rintro ⟨rfl | he, hk⟩
        · rfl
        · exact absurd hk (hkey e he)
    · rw [if_neg hk, h.items]
      constructor
      · exact fun ⟨he, hek⟩ => ⟨.inr he, hek⟩
      · rintro ⟨rfl | he, hek⟩
        · exact absurd hek hk
        · exact ⟨he, hek⟩
  · have hnone : (c.removeKey key).items[key]? = none := by
      rw [Option.eq_none_iff_forall_ne_some]
      intro e he
      obtain ⟨he, hk⟩ := (h.items key e).mp he
      exact hkey e he hk
    show ((c.removeKey key).items.insert key _).size = (c.removeKey key).order.length + 1
    rw [ExtTreeMap.size_insert, ← ExtTreeMap.isSome_getElem?_eq_contains, hnone, h.size]
    rfl
  · show (c.removeKey key).bytes + (data.length : Int) = total (_ :: (c.removeKey key).order)
    rw [h.bytes, total_cons, add_comm]
  · intro e he
    obtain rfl | he := List.mem_cons.mp he
    · exact Nat.lt_succ_self _
    · exact (h.fresh e he).trans (Nat.lt_succ_self _)
  · intro e he
    obtain rfl | he := List.mem_cons.mp he
    · exact ⟨rfl, Int.natCast_pos.mpr hpos⟩
    · exact h.sizes e he

/-! ## Evictions -/

/-- The listed entries respect both bounds. -/
def Fits (config : CacheConfig) (l : List Element) : Prop :=
  total l ≤ config.MaxBytes ∧ (l.length : Int) ≤ config.MaxItems

/-- The loop keeps the longest front of the list that respects both bounds. -/
theorem evict_spec {turns : Nat} (h : c.Synced) (hturns : c.order.length ≤ turns)
    (hempty : Fits c.config []) :
    (evict turns c).Synced ∧ (evict turns c).config = c.config ∧
      ∃ n ≤ c.order.length, (evict turns c).order = c.order.take n ∧
        Fits c.config (c.order.take n) ∧
        ∀ m, n < m → m ≤ c.order.length → ¬ Fits c.config (c.order.take m) := by
  induction turns generalizing c with
  | zero =>
      have hnil := List.length_eq_zero_iff.mp (Nat.le_zero.mp hturns)
      refine ⟨h, rfl, 0, Nat.zero_le _, ?_, hempty, ?_⟩
      · rw [hnil, List.take_nil]
        exact hnil
      · intro m hm hle
        rw [hnil] at hle
        exact absurd (hm.trans_le hle) (lt_irrefl 0)
  | succ turns ih =>
      rw [evict]
      by_cases hover : c.bytes > c.config.MaxBytes ∨ (c.items.size : Int) > c.config.MaxItems
      · rw [if_pos hover]
        have hfull : ¬ Fits c.config c.order := by
          rw [h.bytes, h.size] at hover
          rintro ⟨hbytes, hitems⟩
          omega
        cases hlast : c.order.getLast? with
        | none =>
            rw [List.getLast?_eq_none_iff.mp hlast] at hfull
            exact absurd hempty hfull
        | some oldest =>
            obtain ⟨front, hfront⟩ := List.getLast?_eq_some_iff.mp hlast
            have hmem : oldest ∈ c.order := hfront ▸ List.mem_append_right front (by simp)
            have hnodup := h.addresses.of_map
            have horder : (c.removeElement oldest).order = front := by
              show c.order.filter _ = front
              rw [filter_address h.addresses hmem, hfront, List.erase_append_right, List.erase_cons_head,
                List.append_nil]
              rw [hfront] at hnodup
              exact fun hin => (List.nodup_append'.mp hnodup).2.2 hin (by simp)
            have hlength : c.order.length = front.length + 1 := by
              rw [hfront, List.length_append, List.length_singleton]
            obtain ⟨hs, hconfig, n, hn, htake, hfits, hmax⟩ :=
              ih (h.removeElement hmem) (by rw [horder]; omega) hempty
            rw [horder] at hn htake hfits hmax
            have hsame : ∀ m, m ≤ front.length → c.order.take m = front.take m := by
              intro m hm
              rw [hfront, List.take_append_of_le_length hm]
            refine ⟨hs, hconfig, n, by omega, ?_, ?_, ?_⟩
            · rw [hsame n hn]
              exact htake
            · rw [hsame n hn]
              exact hfits
            · intro m hm hle
              obtain hle | rfl : m ≤ front.length ∨ m = c.order.length := by omega
              · rw [hsame m hle]
                exact hmax m hm hle
              · rw [List.take_length]
                exact hfull
      · rw [if_neg hover]
        rw [h.bytes, h.size] at hover
        refine ⟨h, rfl, c.order.length, le_rfl, List.take_length.symm, ?_, ?_⟩
        · rw [List.take_length]
          exact ⟨by omega, by omega⟩
        · exact fun m hm hle => absurd hle (by omega)

/-- What `set` does with data that it accepts. -/
theorem set_spec (h : c.Synced) (hempty : Fits c.config []) (key : Bytes) {data : Bytes}
    (hdata : c.Accepts data) (now : Int) :
    (c.set key data now).Synced ∧ (c.set key data now).config = c.config ∧
      ∃ n ≤ (c.push key data now).order.length,
        (c.set key data now).order = (c.push key data now).order.take n ∧
          Fits c.config ((c.push key data now).order.take n) ∧
          ∀ m, n < m → m ≤ (c.push key data now).order.length →
            ¬ Fits c.config ((c.push key data now).order.take m) := by
  have hne : data ≠ [] := by
    rintro rfl
    exact hdata (.inl rfl)
  have hconfig : (c.push key data now).config = c.config := (h.removeKey key).2.2.1
  rw [TTSAudioCache.set, if_pos hdata]
  have hspec := evict_spec (h.push key hne now) le_rfl (by rw [hconfig]; exact hempty)
  rw [hconfig] at hspec
  exact hspec

/-- The element that `set` puts at the front. -/
def fresh (c : TTSAudioCache) (key data : Bytes) (now : Int) : Element :=
  ⟨c.next, ⟨key, data, data.length, now + c.config.TTL⟩⟩

theorem push_order (h : c.Synced) (key data : Bytes) (now : Int) :
    (c.push key data now).order =
      c.fresh key data now :: c.order.filter fun e => e.Value.key ≠ key := by
  obtain ⟨-, -, hconfig, hnext, horder⟩ := h.removeKey key
  simp only [push, fresh, horder, hnext, hconfig]

/-- Accepted data is in the cache after `set`: its entry alone respects the bounds. -/
theorem set_holds (h : c.Synced) (hempty : Fits c.config []) (hitems : 0 < c.config.MaxItems)
    (key : Bytes) {data : Bytes} (hdata : c.Accepts data) (now : Int) :
    (c.set key data now).items[key]? = some (c.fresh key data now) := by
  obtain ⟨hs, -, n, -, horder, -, hmax⟩ := set_spec h hempty key hdata now
  rw [push_order h] at horder hmax
  rw [hs.items, horder]
  refine ⟨?_, rfl⟩
  cases n with
  | succ n => simp
  | zero =>
      refine absurd ?_ (hmax 1 Nat.one_pos (by simp))
      obtain ⟨-, hlarge⟩ := not_or.mp hdata
      simp only [List.take_succ_cons, List.take_zero, Fits, total_cons, total_nil, fresh,
        List.length_singleton]
      exact ⟨by omega, by omega⟩

/-! ## Sequences of calls -/

inductive Call
  | get (key : Bytes)
  | set (key data : Bytes)

/-- A call and the time that the clock shows in it. -/
structure Timed where
  call : Call
  now : Int

def step (c : TTSAudioCache) (t : Timed) : TTSAudioCache :=
  match t.call with
  | .get key => (c.get key t.now).2
  | .set key data => c.set key data t.now

def run (c : TTSAudioCache) (calls : List Timed) : TTSAudioCache := calls.foldl step c

def Timed.Sets (t : Timed) (key : Bytes) : Prop :=
  match t.call with
  | .get _ => False
  | .set k _ => k = key

/-- The loop of `set` removes the entry of a key. -/
def Evicts (c : TTSAudioCache) (t : Timed) (key : Bytes) : Prop :=
  match t.call with
  | .get _ => False
  | .set k data =>
      c.Accepts data ∧ (c.push k data t.now).items[key]? ≠ none ∧
        (c.set k data t.now).items[key]? = none

def EvictedIn (key : Bytes) : TTSAudioCache → List Timed → Prop
  | _, [] => False
  | c, t :: calls => c.Evicts t key ∨ EvictedIn key (c.step t) calls

/-- A call that finds or stores the entry of a key. -/
def Uses (c : TTSAudioCache) (t : Timed) (key : Bytes) : Prop :=
  match t.call with
  | .get k => k = key ∧ (c.get k t.now).1 ≠ none
  | .set k data => k = key ∧ c.Accepts data

instance (c : TTSAudioCache) (t : Timed) (key : Bytes) : Decidable (c.Uses t key) :=
  match t with
  | ⟨.get k, now⟩ => inferInstanceAs (Decidable (k = key ∧ (c.get k now).1 ≠ none))
  | ⟨.set k data, _⟩ => inferInstanceAs (Decidable (k = key ∧ c.Accepts data))

/-- The number of the last call that used a key, from call `i` on. -/
def lastUse (key : Bytes) (c : TTSAudioCache) (i last : Nat) : List Timed → Nat
  | [] => last
  | t :: calls => lastUse key (c.step t) (i + 1) (if c.Uses t key then i + 1 else last) calls

/-- A cache whose structures agree and respect the bounds. -/
structure Sound (c : TTSAudioCache) : Prop where
  synced : c.Synced
  fits : Fits c.config c.order
  room : Fits c.config []
  items : 0 < c.config.MaxItems

theorem get_config (key : Bytes) (now : Int) : (c.get key now).2.config = c.config := by
  rw [get]
  split
  · rfl
  · split <;> rfl

theorem total_erase_le (h : c.Synced) {el : Element} (hel : el ∈ c.order) :
    total (c.order.erase el) ≤ total c.order := by
  have := total_erase hel
  have := (h.sizes el hel).2
  omega

theorem Sound.get (h : c.Sound) (key : Bytes) (now : Int) : (c.get key now).2.Sound := by
  have hconfig := c.get_config key now
  refine ⟨h.synced.get key now, ?_, by rw [hconfig]; exact h.room, by rw [hconfig]; exact h.items⟩
  rw [hconfig, TTSAudioCache.get]
  obtain ⟨hbytes, hlength⟩ := h.fits
  cases hitem : c.items[key]? with
  | none => exact h.fits
  | some el =>
      have hel := ((h.synced.items key el).mp hitem).1
      have herase := filter_address h.synced.addresses hel
      have htotal := total_erase hel
      have hle := total_erase_le h.synced hel
      have hcount := List.length_erase_of_mem hel
      have hpos := List.length_pos_of_mem hel
      by_cases hexpired : now > el.Value.expiresAt
      · simp only [if_pos hexpired, removeElement, herase]
        exact ⟨by omega, by omega⟩
      · simp only [if_neg hexpired, moveToFront, herase]
        refine ⟨by rw [total_cons]; omega, ?_⟩
        rw [List.length_cons]
        omega

theorem Sound.set (h : c.Sound) (key data : Bytes) (now : Int) : (c.set key data now).Sound := by
  by_cases hdata : c.Accepts data
  · obtain ⟨hs, hconfig, n, -, horder, hfits, -⟩ := set_spec h.synced h.room key hdata now
    rw [← horder] at hfits
    refine ⟨hs, ?_, ?_, ?_⟩ <;> rw [hconfig]
    · exact hfits
    · exact h.room
    · exact h.items
  · rw [TTSAudioCache.set, if_neg hdata]
    exact h

theorem Sound.step (h : c.Sound) (t : Timed) : (c.step t).Sound := by
  rw [TTSAudioCache.step]
  split
  · exact h.get _ _
  · exact h.set _ _ _

theorem step_config (h : c.Sound) (t : Timed) : (c.step t).config = c.config := by
  rw [step]
  split
  · exact c.get_config _ _
  · next key data _ =>
    by_cases hdata : c.Accepts data
    · exact (set_spec h.synced h.room key hdata t.now).2.1
    · rw [set, if_neg hdata]

theorem Sound.run (h : c.Sound) (calls : List Timed) :
    (c.run calls).Sound ∧ (c.run calls).config = c.config := by
  induction calls generalizing c with
  | nil => exact ⟨h, rfl⟩
  | cons t calls ih =>
      obtain ⟨hs, hconfig⟩ := ih (h.step t)
      exact ⟨hs, hconfig.trans (step_config h t)⟩

/-! ## What becomes of one entry -/

theorem get_found {key : Bytes} {el : Element} (hel : c.items[key]? = some el) {now : Int}
    (hnow : now ≤ el.Value.expiresAt) : (c.get key now).1 = some el.Value.data := by
  simp only [get, hel, if_neg hnow.not_gt]

/-- The cache holds nothing that it would not accept. -/
theorem Sound.accepts (h : c.Sound) {el : Element} (hel : el ∈ c.order) : c.Accepts el.Value.data := by
  obtain ⟨hsize, hpos⟩ := h.synced.sizes el hel
  have htotal := total_erase hel
  have hrest : 0 ≤ total (c.order.erase el) := by
    refine List.sum_nonneg ?_
    intro x hx
    obtain ⟨e, he, rfl⟩ := List.mem_map.mp hx
    exact (h.synced.sizes e (List.mem_of_mem_erase he)).2.le
  have hfits := h.fits.1
  rintro (hzero | hlarge)
  · omega
  · omega

theorem get_items (h : c.Synced) (k key : Bytes) (now : Int) :
    (c.get k now).2.items[key]? =
      if k = key ∧ ∃ el, c.items[key]? = some el ∧ now > el.Value.expiresAt then none
      else c.items[key]? := by
  rw [get]
  cases hitem : c.items[k]? with
  | none =>
      rw [if_neg]
      rintro ⟨rfl, el, hel, -⟩
      rw [hitem] at hel
      cases hel
  | some el =>
      obtain ⟨hel, rfl⟩ := (h.items k el).mp hitem
      by_cases hexpired : now > el.Value.expiresAt
      · simp only [if_pos hexpired, removeElement, ExtTreeMap.getElem?_erase,
          LawfulEqOrd.compare_eq_iff_eq]
        by_cases hk : el.Value.key = key
        · subst hk
          rw [if_pos rfl, if_pos ⟨rfl, el, hitem, hexpired⟩]
        · rw [if_neg hk, if_neg (fun h => hk h.1)]
      · simp only [if_neg hexpired, moveToFront]
        rw [if_neg]
        rintro ⟨hk, e, he, hover⟩
        rw [← hk, hitem] at he
        cases he
        exact hexpired hover

theorem push_items (h : c.Synced) {k key : Bytes} (hk : k ≠ key) (data : Bytes) (now : Int) :
    (c.push k data now).items[key]? = c.items[key]? := by
  simp only [push, ExtTreeMap.getElem?_insert, LawfulEqOrd.compare_eq_iff_eq, if_neg hk]
  rw [TTSAudioCache.removeKey]
  cases hitem : c.items[k]? with
  | none => rfl
  | some el =>
      obtain ⟨-, rfl⟩ := (h.items k el).mp hitem
      simp only [removeElement, ExtTreeMap.getElem?_erase, LawfulEqOrd.compare_eq_iff_eq, if_neg hk]

/-- A `set` of another key that does not evict an entry keeps it. -/
theorem set_other (h : c.Sound) {k key : Bytes} (hk : k ≠ key) (data : Bytes) (now : Int)
    (hev : ¬ c.Evicts ⟨.set k data, now⟩ key) : (c.set k data now).items[key]? = c.items[key]? := by
  by_cases hdata : c.Accepts data
  · have hpush := push_items h.synced hk data now
    obtain ⟨hs, -, n, -, horder, -⟩ := set_spec h.synced h.room k hdata now
    have hne : data ≠ [] := by
      rintro rfl
      exact hdata (.inl rfl)
    rw [← hpush]
    cases hset : (c.set k data now).items[key]? with
    | none =>
        by_contra hsome
        exact hev ⟨hdata, fun hnone => hsome hnone.symm, hset⟩
    | some e =>
        obtain ⟨he, hkey⟩ := (hs.items key e).mp hset
        rw [horder] at he
        exact (((h.synced.push k hne now).items key e).mpr ⟨List.mem_of_mem_take he, hkey⟩).symm
  · rw [TTSAudioCache.set, if_neg hdata]

/-- Without a `set` of its key, an entry stays until it is evicted or found expired. -/
theorem get_run (h : c.Sound) {key : Bytes} {calls : List Timed}
    (hsets : ∀ t ∈ calls, ¬ t.Sets key) {now : Int} (hnow : ∀ t ∈ calls, t.now ≤ now) (data : Bytes) :
    ((c.run calls).get key now).1 = some data ↔
      (∃ el, c.items[key]? = some el ∧ el.Value.data = data ∧ now ≤ el.Value.expiresAt) ∧
        ¬ EvictedIn key c calls := by
  induction calls generalizing c with
  | nil =>
      simp only [run, List.foldl_nil, EvictedIn, not_false_eq_true, and_true]
      rw [get]
      cases c.items[key]? with
      | none => simp
      | some el =>
          by_cases hexpired : now > el.Value.expiresAt
          · simp [hexpired]
          · simp [hexpired, Int.not_lt.mp hexpired]
  | cons t calls ih =>
      have hrest := ih (h.step t) (fun u hu => hsets u (List.mem_cons_of_mem t hu))
        (fun u hu => hnow u (List.mem_cons_of_mem t hu))
      have ht := hnow t (by simp)
      have hset := hsets t (by simp)
      rw [run, List.foldl_cons, ← run, hrest, EvictedIn, not_or, ← and_assoc]
      refine and_congr_left fun _ => ?_
      obtain ⟨call, time⟩ := t
      cases call with
      | get k =>
          simp only [step, get_items h.synced, Evicts, not_false_eq_true, and_true]
          by_cases hgone : k = key ∧ ∃ el, c.items[key]? = some el ∧ time > el.Value.expiresAt
          · obtain ⟨hk, el, hel, hover⟩ := hgone
            rw [if_pos ⟨hk, el, hel, hover⟩, hel]
            simp only [reduceCtorEq, false_and, exists_false, Option.some.injEq, false_iff]
            rintro ⟨e, rfl, -, hfresh⟩
            exact absurd (ht.trans hfresh) hover.not_ge
          · rw [if_neg hgone]
      | set k new =>
          have hk : k ≠ key := hset
          by_cases hev : c.Evicts ⟨.set k new, time⟩ key
          · have hgone : (c.set k new time).items[key]? = none := hev.2.2
            simp only [step, hgone, hev, reduceCtorEq, false_and, exists_false, not_true_eq_false,
              and_false]
          · simp only [step, set_other h hk new time hev, hev, not_false_eq_true, and_true]

/-! ## The list is in order of the last use -/

/-- The most recently used key stands first, and no use is later than call `i`. -/
def Recent (last : Bytes → Nat) (i : Nat) (l : List Element) : Prop :=
  (l.Pairwise fun d e => last e.Value.key < last d.Value.key) ∧ ∀ e ∈ l, last e.Value.key ≤ i

theorem Recent.sublist {last : Bytes → Nat} {i : Nat} {l m : List Element} (h : Recent last i l)
    (hm : m.Sublist l) : Recent last i m :=
  ⟨h.1.sublist hm, fun e he => h.2 e (hm.subset he)⟩

theorem Recent.later {last last' : Bytes → Nat} {i : Nat} {l : List Element} (h : Recent last i l)
    (hl : ∀ e ∈ l, last' e.Value.key = last e.Value.key) : Recent last' (i + 1) l := by
  refine ⟨?_, fun e he => by rw [hl e he]; exact (h.2 e he).trans (Nat.le_succ i)⟩
  refine h.1.imp_of_mem ?_
  intro d e hd he hlt
  rw [hl d hd, hl e he]
  exact hlt

theorem Recent.cons {last last' : Bytes → Nat} {i : Nat} {l : List Element} (h : Recent last i l)
    {el : Element} (hel : last' el.Value.key = i + 1)
    (hl : ∀ e ∈ l, last' e.Value.key = last e.Value.key) : Recent last' (i + 1) (el :: l) := by
  obtain ⟨hsorted, hle⟩ := h.later hl
  refine ⟨List.pairwise_cons.mpr ⟨?_, hsorted⟩, ?_⟩
  · intro e he
    have := h.2 e he
    rw [hel, hl e he]
    omega
  · intro e he
    obtain rfl | he := List.mem_cons.mp he
    · exact hel.le
    · exact hle e he

theorem Recent.step {last : Bytes → Nat} {i : Nat} (hr : Recent last i c.order) (h : c.Sound)
    (t : Timed) :
    Recent (fun key => if c.Uses t key then i + 1 else last key) (i + 1) (c.step t).order := by
  obtain ⟨call, now⟩ := t
  cases call with
  | get k =>
      cases hitem : c.items[k]? with
      | none =>
          have hget : c.get k now = (none, c) := by simp only [TTSAudioCache.get, hitem]
          have horder : (c.step ⟨.get k, now⟩).order = c.order := congrArg (fun r => r.2.order) hget
          rw [horder]
          exact hr.later fun e _ => if_neg fun hu => hu.2 (congrArg Prod.fst hget)
      | some el =>
          obtain ⟨hel, rfl⟩ := (h.synced.items k el).mp hitem
          have herase := filter_address h.synced.addresses hel
          have hnodup := h.synced.addresses.of_map
          by_cases hexpired : now > el.Value.expiresAt
          · have hget : c.get el.Value.key now = (none, c.removeElement el) := by
              simp only [TTSAudioCache.get, hitem, if_pos hexpired]
            have horder : (c.step ⟨.get el.Value.key, now⟩).order = c.order.erase el :=
              (congrArg (fun r => r.2.order) hget).trans herase
            rw [horder]
            exact (hr.sublist List.erase_sublist).later
              fun e _ => if_neg fun hu => hu.2 (congrArg Prod.fst hget)
          · have hget : c.get el.Value.key now = (some el.Value.data, c.moveToFront el) := by
              simp only [TTSAudioCache.get, hitem, if_neg hexpired]
            have horder : (c.step ⟨.get el.Value.key, now⟩).order = el :: c.order.erase el :=
              (congrArg (fun r => r.2.order) hget).trans (congrArg (List.cons el) herase)
            rw [horder]
            refine (hr.sublist List.erase_sublist).cons (if_pos ⟨rfl, by rw [hget]; simp⟩) ?_
            intro e he
            obtain ⟨hne, he⟩ := hnodup.mem_erase_iff.mp he
            have hk : el.Value.key ≠ e.Value.key :=
              fun hk => hne (List.inj_on_of_nodup_map h.synced.keys he hel hk.symm)
            exact if_neg fun hu => hk hu.1
  | set k data =>
      simp only [TTSAudioCache.step, Uses]
      by_cases hdata : c.Accepts data
      · obtain ⟨-, -, n, -, horder, -⟩ := set_spec h.synced h.room k hdata now
        rw [horder, push_order h.synced]
        refine Recent.sublist ?_ (List.take_sublist _ _)
        refine (hr.sublist List.filter_sublist).cons (if_pos ⟨rfl, hdata⟩) ?_
        intro e he
        have hk : e.Value.key ≠ k := by simpa using (List.mem_filter.mp he).2
        exact if_neg fun hu => hk hu.1.symm
      · rw [set, if_neg hdata]
        exact hr.later fun e _ => if_neg fun hu => hdata hu.2

theorem Recent.run {last : Bytes → Nat} {i : Nat} (hr : Recent last i c.order) (h : c.Sound)
    (calls : List Timed) :
    (c.run calls).order.Pairwise fun d e =>
      lastUse e.Value.key c i (last e.Value.key) calls <
        lastUse d.Value.key c i (last d.Value.key) calls := by
  induction calls generalizing c i last with
  | nil => exact hr.1
  | cons t calls ih => exact ih (hr.step h t) (h.step t)

/-! ## The cache is a bounded LRU -/

theorem new_sound {config : CacheConfig} (hbytes : 0 < config.MaxBytes)
    (hitems : 0 < config.MaxItems) (hTTL : 0 < config.TTL) :
    (newTTSAudioCache config).Sound ∧ (newTTSAudioCache config).config = config := by
  have hconfig : (newTTSAudioCache config).config = config := by
    simp only [newTTSAudioCache, if_neg hbytes.not_ge, if_neg hitems.not_ge, if_neg hTTL.not_ge]
  have hroom : Fits config [] := ⟨hbytes.le, hitems.le⟩
  refine ⟨⟨⟨by simp [newTTSAudioCache], by simp [newTTSAudioCache], by simp [newTTSAudioCache],
    by simp [newTTSAudioCache], rfl, by simp [newTTSAudioCache], by simp [newTTSAudioCache]⟩,
    ?_, ?_, ?_⟩, hconfig⟩ <;> rw [hconfig]
  · exact hroom
  · exact hroom
  · exact hitems

/-- After any calls both structures hold the same entries within the bounds, the most recently
used first. Accepted data can be read until it expires, and `set` evicts the shortest end of
the list that restores the bounds. What `get` reads is the latest data of its key, where that
was accepted, has not expired and has not been evicted. -/
theorem bounded_lru {config : CacheConfig} (hbytes : 0 < config.MaxBytes)
    (hitems : 0 < config.MaxItems) (hTTL : 0 < config.TTL) (calls : List Timed) :
    let start := newTTSAudioCache config
    let c := start.run calls
    c.Synced ∧ c.bytes ≤ config.MaxBytes ∧ (c.items.size : Int) ≤ config.MaxItems ∧
      (c.order.Pairwise fun d e =>
        lastUse e.Value.key start 0 0 calls < lastUse d.Value.key start 0 0 calls) ∧
      (∀ key data now, data ≠ [] → (data.length : Int) ≤ config.MaxBytes →
        (∀ later, later ≤ now + config.TTL → ((c.set key data now).get key later).1 = some data) ∧
          ∃ n ≤ (c.push key data now).order.length,
            (c.set key data now).order = (c.push key data now).order.take n ∧
              Fits config ((c.push key data now).order.take n) ∧
              ∀ m, n < m → m ≤ (c.push key data now).order.length →
                ¬ Fits config ((c.push key data now).order.take m)) ∧
      ∀ before key data time after, calls = before ++ ⟨.set key data, time⟩ :: after →
        (∀ t ∈ after, ¬ t.Sets key) → ∀ now, (∀ t ∈ calls, t.now ≤ now) →
          ((c.get key now).1 = some data ↔
            (data ≠ [] ∧ (data.length : Int) ≤ config.MaxBytes) ∧ now ≤ time + config.TTL ∧
              ¬ EvictedIn key (start.run (before ++ [⟨.set key data, time⟩])) after) := by
  intro start c
  obtain ⟨hstart, hconfig⟩ := new_sound hbytes hitems hTTL
  obtain ⟨hsound, hrun⟩ := hstart.run calls
  have haccepts : ∀ {c : TTSAudioCache} {data : Bytes}, c.config = config →
      (c.Accepts data ↔ data ≠ [] ∧ (data.length : Int) ≤ config.MaxBytes) := by
    intro c data hc
    rw [Accepts, hc, not_or, Int.natCast_eq_zero, List.length_eq_zero_iff, Int.not_lt]
  have hcconfig : c.config = config := hrun.trans hconfig
  have hfits : Fits config c.order := hcconfig ▸ hsound.fits
  refine ⟨hsound.synced, ?_, ?_, ?_, ?_, ?_⟩
  · rw [hsound.synced.bytes]
    exact hfits.1
  · rw [hsound.synced.size]
    exact hfits.2
  · have hrecent : Recent (fun _ => 0) 0 start.order :=
      ⟨List.Pairwise.nil, by simp [start, newTTSAudioCache]⟩
    exact hrecent.run hstart calls
  · intro key data now hne hle
    have hdata := (haccepts hcconfig).mpr ⟨hne, hle⟩
    refine ⟨?_, ?_⟩
    · intro later hlater
      have hholds := set_holds hsound.synced hsound.room hsound.items key hdata now
      exact get_found hholds (by rw [fresh, hcconfig]; exact hlater)
    · have hspec := (set_spec hsound.synced hsound.room key hdata now).2.2
      rw [hcconfig] at hspec
      exact hspec
  · intro before key data time after hcalls hsets now hnow
    have hbefore : (start.run before).Sound := (hstart.run before).1
    have hbconfig : (start.run before).config = config := (hstart.run before).2.trans hconfig
    have hc : c = ((start.run before).step ⟨.set key data, time⟩).run after := by
      simp only [c, hcalls, run, List.foldl_append, List.foldl_cons]
    have hb : start.run (before ++ [⟨.set key data, time⟩]) =
        (start.run before).step ⟨.set key data, time⟩ := by
      simp only [run, List.foldl_append, List.foldl_cons, List.foldl_nil]
    have hafter : ∀ t ∈ after, t.now ≤ now := by
      intro t ht
      apply hnow
      rw [hcalls]
      exact List.mem_append_right before (List.mem_cons_of_mem _ ht)
    rw [hc, hb, get_run (hbefore.step _) hsets hafter, ← and_assoc, ← haccepts hbconfig]
    refine and_congr_left fun _ => ?_
    by_cases hdata : (start.run before).Accepts data
    · have hholds := set_holds hbefore.synced hbefore.room hbefore.items key hdata time
      simp only [step, hholds, Option.some.injEq, hdata, true_and, fresh, hbconfig,
        exists_eq_left']
    · have hstep : (start.run before).step ⟨.set key data, time⟩ = start.run before := if_neg hdata
      simp only [hstep, hdata, false_and, iff_false]
      rintro ⟨el, hel, rfl, -⟩
      exact hdata (hbefore.accepts ((hbefore.synced.items key el).mp hel).1)

def small : CacheConfig := ⟨3, 2, 10, []⟩

def reading : List Timed :=
  [⟨.set [97] [1], 0⟩, ⟨.set [98] [2], 1⟩, ⟨.get [97], 2⟩]

/-- The third entry evicts the second one, which was not read since. -/
theorem bounded_lru_small :
    let c := (newTTSAudioCache small).run reading
    c.bytes ≤ 3 ∧ ((c.set [99] [3, 3] 3).get [99] 13).1 = some [3, 3] :=
  have h := bounded_lru (by decide) (by decide) (by decide) reading
  ⟨h.2.1, (h.2.2.2.2.1 [99] [3, 3] 3 (by decide) (by decide)).1 13 (by decide)⟩

end TTSAudioCache

end ZReader.Services.AudioCache
