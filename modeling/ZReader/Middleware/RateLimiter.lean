import ZReader.Lib.Utf8
import ZReader.Lib.Windows

namespace ZReader.Middleware

open Std Lib.Utf8 Lib.Windows

/-! ## The limiter

Times are nanoseconds after the zero value of a time, durations are nanoseconds. -/

def defaultMaxVisitors : Nat := 10000

structure Visitor where
  count : Nat
  windowStart : Int
  deriving DecidableEq

/-- Described as a sliding window limiter; a visitor holds one counter and its start. -/
structure RateLimiter where
  visitors : ExtTreeMap Bytes Visitor
  maxReqs : Nat
  window : Int
  cleanupInterval : Int
  lastCleanup : Int
  maxVisitors : Nat

def NewRateLimiter (maxReqs : Nat) (window : Int) : RateLimiter where
  visitors := ∅
  maxReqs := maxReqs
  window := window
  cleanupInterval := 60 * 10 ^ 9
  lastCleanup := 0
  maxVisitors := defaultMaxVisitors

namespace RateLimiter

def cleanupExpired (rl : RateLimiter) (now : Int) : RateLimiter :=
  if rl.lastCleanup = 0 then { rl with lastCleanup := now }
  else if now - rl.lastCleanup < rl.cleanupInterval then rl
  else { rl with
    visitors := rl.visitors.filter fun _ v => ¬ (now - v.windowStart > rl.window)
    lastCleanup := now }

def setVisitor (rl : RateLimiter) (ip : Bytes) (v : Visitor) : RateLimiter :=
  { rl with visitors := rl.visitors.insert ip v }

/-- A new visitor finds the map full. -/
def Full (rl : RateLimiter) : Prop := rl.maxVisitors > 0 ∧ rl.visitors.size ≥ rl.maxVisitors

instance (rl : RateLimiter) : Decidable rl.Full := inferInstanceAs (Decidable (_ ∧ _))

def Allow (rl : RateLimiter) (ip : Bytes) (now : Int) : Bool × RateLimiter :=
  let rl := rl.cleanupExpired now
  match rl.visitors[ip]? with
  | none =>
      if rl.Full then (false, rl)
      else (true, rl.setVisitor ip ⟨1, now⟩)
  | some v =>
      if now - v.windowStart > rl.window then (true, rl.setVisitor ip ⟨1, now⟩)
      else
        let v := { v with count := v.count + 1 }
        (decide (¬ v.count > rl.maxReqs), rl.setVisitor ip v)

/-! ## Sequences of calls -/

structure Call where
  ip : Bytes
  now : Int

/-- The times of the allowed calls of one key. -/
def allowed (key : Bytes) : RateLimiter → List Call → List Int
  | _, [] => []
  | rl, c :: cs =>
      let r := rl.Allow c.ip c.now
      if c.ip = key ∧ r.1 then c.now :: allowed key r.2 cs else allowed key r.2 cs

/-- The calls of one key that find a counter of the key, or room for one. -/
def counted (key : Bytes) : RateLimiter → List Call → List Int
  | _, [] => []
  | rl, c :: cs =>
      let clean := rl.cleanupExpired c.now
      if c.ip = key ∧ (clean.visitors[key]? ≠ none ∨ ¬ clean.Full) then
        c.now :: counted key (rl.Allow c.ip c.now).2 cs
      else counted key (rl.Allow c.ip c.now).2 cs

theorem mem_of_mem_counted {key : Bytes} {rl : RateLimiter} {cs : List Call} {t : Int}
    (h : t ∈ counted key rl cs) : ∃ c ∈ cs, c.now = t := by
  induction cs generalizing rl with
  | nil => simp [counted] at h
  | cons c cs ih =>
      rw [counted] at h
      split at h
      · obtain rfl | h := List.mem_cons.mp h
        · exact ⟨c, by simp, rfl⟩
        · obtain ⟨d, hd, hdt⟩ := ih h
          exact ⟨d, List.mem_cons_of_mem c hd, hdt⟩
      · obtain ⟨d, hd, hdt⟩ := ih h
        exact ⟨d, List.mem_cons_of_mem c hd, hdt⟩

theorem counted_sorted {key : Bytes} {rl : RateLimiter} {cs : List Call}
    (h : cs.Pairwise fun c d => c.now ≤ d.now) : (counted key rl cs).Pairwise (· ≤ ·) := by
  induction cs generalizing rl with
  | nil => exact List.Pairwise.nil
  | cons c cs ih =>
      obtain ⟨hc, h⟩ := List.pairwise_cons.mp h
      rw [counted]
      split
      · refine List.pairwise_cons.mpr ⟨?_, ih h⟩
        intro t ht
        obtain ⟨d, hd, rfl⟩ := mem_of_mem_counted ht
        exact hc d hd
      · exact ih h

/-! ## One key sees a counter in fixed windows -/

/-- The counter of a key: where its window started and what it counted. -/
def counter (rl : RateLimiter) (key : Bytes) : Option (Int × Nat) :=
  rl.visitors[key]?.map fun v => (v.windowStart, v.count)

@[simp] theorem cleanupExpired_window (rl : RateLimiter) (now : Int) :
    (rl.cleanupExpired now).window = rl.window := by
  rw [cleanupExpired]
  split_ifs <;> rfl

@[simp] theorem cleanupExpired_maxReqs (rl : RateLimiter) (now : Int) :
    (rl.cleanupExpired now).maxReqs = rl.maxReqs := by
  rw [cleanupExpired]
  split_ifs <;> rfl

/-- Clean-up drops only counters whose window is over. -/
theorem cleanupExpired_counter (rl : RateLimiter) (now : Int) (key : Bytes) :
    (rl.cleanupExpired now).counter key = rl.counter key ∨
      (rl.cleanupExpired now).counter key = none ∧
        ∃ s c, rl.counter key = some (s, c) ∧ now - s > rl.window := by
  rw [cleanupExpired]
  split_ifs with hzero hearly
  · exact .inl rfl
  · exact .inl rfl
  · simp only [counter, ExtTreeMap.getElem?_filter']
    cases rl.visitors[key]? with
    | none => exact .inl rfl
    | some v =>
        by_cases hover : now - v.windowStart > rl.window
        · refine .inr ⟨?_, v.windowStart, v.count, rfl, hover⟩
          simp only [Option.filter, hover, not_true_eq_false, decide_false, Bool.false_eq_true,
            if_false, Option.map_none]
        · refine .inl ?_
          simp only [Option.filter, hover, not_false_eq_true, decide_true, if_true]

theorem setVisitor_counter (rl : RateLimiter) (ip key : Bytes) (v : Visitor) :
    (rl.setVisitor ip v).counter key =
      if ip = key then some (v.windowStart, v.count) else rl.counter key := by
  simp only [counter, setVisitor, ExtTreeMap.getElem?_insert, LawfulEqOrd.compare_eq_iff_eq]
  split <;> rfl

/-- The two results of a call, by what clean-up leaves of the counter. -/
theorem Allow_cases (rl : RateLimiter) (ip : Bytes) (now : Int) :
    rl.Allow ip now =
      match (rl.cleanupExpired now).counter ip with
      | none =>
          if (rl.cleanupExpired now).Full then (false, rl.cleanupExpired now)
          else (true, (rl.cleanupExpired now).setVisitor ip ⟨1, now⟩)
      | some (s, c) =>
          if now - s > rl.window then (true, (rl.cleanupExpired now).setVisitor ip ⟨1, now⟩)
          else (decide (¬ c + 1 > rl.maxReqs), (rl.cleanupExpired now).setVisitor ip ⟨c + 1, s⟩) := by
  rw [Allow, counter]
  cases (rl.cleanupExpired now).visitors[ip]? with
  | none => rfl
  | some v => simp only [Option.map_some, cleanupExpired_window, cleanupExpired_maxReqs]

theorem Allow_config (rl : RateLimiter) (ip : Bytes) (now : Int) :
    (rl.Allow ip now).2.maxReqs = rl.maxReqs ∧ (rl.Allow ip now).2.window = rl.window := by
  rw [Allow_cases]
  split <;> split_ifs <;> simp [setVisitor]

theorem Allow_other (rl : RateLimiter) {ip key : Bytes} (h : ip ≠ key) (now : Int) :
    (rl.Allow ip now).2.counter key = (rl.cleanupExpired now).counter key := by
  rw [Allow_cases]
  split <;> split_ifs <;> simp [setVisitor_counter, h]

/-- What a key is allowed is what a counter in fixed windows lets pass of its calls. -/
theorem allowed_eq (key : Bytes) (rl : RateLimiter) {cs : List Call}
    (h : cs.Pairwise fun c d => c.now ≤ d.now) :
    allowed key rl cs = passed rl.maxReqs rl.window (rl.counter key) (counted key rl cs) := by
  induction cs generalizing rl with
  | nil => simp [allowed, counted, passed]
  | cons c cs ih =>
      obtain ⟨hc, htail⟩ := List.pairwise_cons.mp h
      have ih := ih (rl.Allow c.ip c.now).2 htail
      obtain ⟨hmax, hwindow⟩ := rl.Allow_config c.ip c.now
      rw [hmax, hwindow] at ih
      -- A counter that clean-up drops would start anew at every later call.
      have hclean : passed rl.maxReqs rl.window (rl.counter key) (counted key rl (c :: cs)) =
          passed rl.maxReqs rl.window ((rl.cleanupExpired c.now).counter key)
            (counted key rl (c :: cs)) := by
        obtain hsame | ⟨hnone, s, n, hold, hover⟩ := rl.cleanupExpired_counter c.now key
        · rw [hsame]
        · rw [hnone, hold]
          apply passed_expired
          intro t ht
          obtain ⟨d, hd, rfl⟩ := mem_of_mem_counted ht
          obtain rfl | hd := List.mem_cons.mp hd
          · exact hover
          · have := hc d hd
            omega
      rw [hclean, allowed, counted]
      by_cases hkey : c.ip = key
      · subst hkey
        have hstep := rl.Allow_cases c.ip c.now
        have hentry : (rl.cleanupExpired c.now).visitors[c.ip]? = none ↔
            (rl.cleanupExpired c.now).counter c.ip = none := by
          simp [counter]
        simp only [ne_eq, hentry, true_and]
        cases hcounter : (rl.cleanupExpired c.now).counter c.ip with
        | none =>
            rw [hcounter] at hstep
            by_cases hfull : (rl.cleanupExpired c.now).Full
            · simp only [hstep, if_pos hfull] at ih ⊢
              simp [ih, hcounter, hfull]
            · simp only [hstep, if_neg hfull, setVisitor_counter, if_true] at ih ⊢
              simp [ih, hfull, passed]
        | some v =>
            obtain ⟨s, n⟩ := v
            rw [hcounter] at hstep
            by_cases hover : c.now - s > rl.window
            · simp only [hstep, if_pos hover, setVisitor_counter, if_true] at ih ⊢
              simp only [ih, passed, if_pos hover, reduceCtorEq, not_false_eq_true, true_or, if_true]
            · simp only [hstep, if_neg hover, setVisitor_counter, if_true] at ih ⊢
              by_cases hmore : n + 1 > rl.maxReqs
              · simp [ih, passed, hover, hmore]
              · simp [ih, passed, hover, hmore]
      · rw [if_neg (fun h => hkey h.1), if_neg (fun h => hkey h.1), ih, rl.Allow_other hkey]

/-- No interval as long as the window holds more than `maxReqs` allowed requests of a key
exactly when the bursts at the end of one counting window and at the start of the next fit
together. -/
theorem bounded_allowed {maxReqs : Nat} {window : Int} (hmax : 1 ≤ maxReqs) (hwindow : 0 < window)
    (key : Bytes) {cs : List Call} (h : cs.Pairwise fun c d => c.now ≤ d.now) :
    Bounded maxReqs window (allowed key (NewRateLimiter maxReqs window) cs) ↔
      Steady maxReqs window (windows window (counted key (NewRateLimiter maxReqs window) cs)) := by
  have hfresh : (NewRateLimiter maxReqs window).counter key = none := by
    simp [counter, NewRateLimiter]
  rw [allowed_eq key _ h, hfresh]
  exact bounded_passed hmax hwindow.le (counted_sorted h)

def seconds (n : Int) : Int := n * 10 ^ 9

/-- Two requests a minute of one key, at the start and at the end of a window. -/
def spread : List Call := [⟨[97], seconds 1⟩, ⟨[98], seconds 2⟩, ⟨[97], seconds 30⟩, ⟨[97], seconds 91⟩]

theorem bounded_allowed_spread :
    Bounded 2 (seconds 60) (allowed [97] (NewRateLimiter 2 (seconds 60)) spread) :=
  (bounded_allowed (by decide) (by decide) [97] (by decide)).mpr (by decide +kernel)

/-- A burst at the end of a minute and one at the start of the next. -/
def burst : List Call := [⟨[97], seconds 1⟩, ⟨[97], seconds 60⟩, ⟨[97], seconds 62⟩, ⟨[97], seconds 63⟩]

theorem burst_unbounded :
    burst.Pairwise (fun c d => c.now ≤ d.now) ∧
      ¬ Bounded 2 (seconds 60) (allowed [97] (NewRateLimiter 2 (seconds 60)) burst) := by
  refine ⟨by decide, ?_⟩
  intro h
  have hcount := h (seconds 60)
  revert hcount
  decide +kernel

end RateLimiter

end ZReader.Middleware
