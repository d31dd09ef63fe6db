import ZReader.Middleware.RateLimiter

namespace ZReader.Middleware

open Std Lib.Utf8

namespace RateLimiter

/-- A limiter without visitors, with any of its settings. -/
def fresh (maxReqs : Nat) (window cleanupInterval : Int) (maxVisitors : Nat) : RateLimiter :=
  { NewRateLimiter maxReqs window with cleanupInterval := cleanupInterval, maxVisitors := maxVisitors }

def after (rl : RateLimiter) (cs : List Call) : RateLimiter :=
  cs.foldl (fun rl c => (rl.Allow c.ip c.now).2) rl

/-- What the calls of one key are told. -/
def decisions (key : Bytes) : RateLimiter → List Call → List Bool
  | _, [] => []
  | rl, c :: cs =>
      let r := rl.Allow c.ip c.now
      if c.ip = key then r.1 :: decisions key r.2 cs else decisions key r.2 cs

theorem after_cons (rl : RateLimiter) (c : Call) (cs : List Call) :
    rl.after (c :: cs) = (rl.Allow c.ip c.now).2.after cs := rfl

theorem after_concat (rl : RateLimiter) (cs : List Call) (c : Call) :
    rl.after (cs ++ [c]) = ((rl.after cs).Allow c.ip c.now).2 := by
  rw [after, List.foldl_append]
  rfl

/-! ## The live counter of a key -/

/-- A counter whose window is not over. A key with a counter that is not live is treated like one
without a counter. -/
def live (window now : Int) (counter : Option (Int × Nat)) : Option (Int × Nat) :=
  counter.filter fun v => ¬ (now - v.1 > window)

theorem live_none (window now : Int) : live window now none = none := rfl

theorem live_some (window now s : Int) (n : Nat) :
    live window now (some (s, n)) = if now - s > window then none else some (s, n) := by
  simp only [live, Option.filter]
  by_cases hover : now - s > window <;> simp [hover]

/-- Live counters that agree still agree later. -/
theorem live_mono {window now later : Int} (hle : now ≤ later) {a b : Option (Int × Nat)}
    (h : live window now a = live window now b) : live window later a = live window later b := by
  have hcollapse : ∀ c, live window later (live window now c) = live window later c := by
    intro c
    cases c with
    | none => rfl
    | some v =>
        obtain ⟨s, n⟩ := v
        rw [live_some]
        by_cases hover : now - s > window
        · rw [if_pos hover, live_none, live_some, if_pos (by omega)]
        · rw [if_neg hover]
  rw [← hcollapse a, h, hcollapse b]

theorem live_cleanupExpired (rl : RateLimiter) (now : Int) (key : Bytes) :
    live rl.window now ((rl.cleanupExpired now).counter key) =
      live rl.window now (rl.counter key) := by
  obtain hsame | ⟨hnone, s, n, hold, hover⟩ := rl.cleanupExpired_counter now key
  · rw [hsame]
  · rw [hnone, hold, live_some, if_pos hover, live_none]

/-- What a limiter with room decides for a key, and the counter it leaves. -/
def tick (maxReqs : Nat) (now : Int) : Option (Int × Nat) → Bool × (Int × Nat)
  | none => (true, (now, 1))
  | some (s, n) => (decide (¬ n + 1 > maxReqs), (s, n + 1))

theorem Allow_tick (rl : RateLimiter) (ip : Bytes) (now : Int)
    (hroom : (rl.cleanupExpired now).counter ip = none → ¬ (rl.cleanupExpired now).Full) :
    (rl.Allow ip now).1 = (tick rl.maxReqs now (live rl.window now (rl.counter ip))).1 ∧
      (rl.Allow ip now).2.counter ip =
        some (tick rl.maxReqs now (live rl.window now (rl.counter ip))).2 := by
  rw [← live_cleanupExpired, Allow_cases]
  cases hcounter : (rl.cleanupExpired now).counter ip with
  | none => simp [live_none, tick, hroom hcounter, setVisitor_counter]
  | some v =>
      obtain ⟨s, n⟩ := v
      rw [live_some]
      by_cases hover : now - s > rl.window
      · simp [tick, hover, setVisitor_counter]
      · simp [tick, hover, setVisitor_counter]

/-! ## The visitors -/

theorem cleanupExpired_size (rl : RateLimiter) (now : Int) :
    (rl.cleanupExpired now).visitors.size ≤ rl.visitors.size := by
  rw [cleanupExpired]
  split_ifs
  · exact Nat.le_refl _
  · exact Nat.le_refl _
  · exact ExtTreeMap.size_filter_le_size

@[simp] theorem cleanupExpired_maxVisitors (rl : RateLimiter) (now : Int) :
    (rl.cleanupExpired now).maxVisitors = rl.maxVisitors := by
  rw [cleanupExpired]
  split_ifs <;> rfl

theorem Allow_maxVisitors (rl : RateLimiter) (ip : Bytes) (now : Int) :
    (rl.Allow ip now).2.maxVisitors = rl.maxVisitors := by
  rw [Allow_cases]
  split <;> split_ifs <;> simp [setVisitor]

theorem contains_eq (rl : RateLimiter) (ip : Bytes) :
    rl.visitors.contains ip = (rl.counter ip).isSome := by
  rw [counter, Option.isSome_map, ExtTreeMap.contains_eq_isSome_getElem?]

/-- A call adds at most its own visitor, and that only where there is room. -/
theorem Allow_size (rl : RateLimiter) (ip : Bytes) (now : Int) (hpos : 0 < rl.maxVisitors)
    (h : rl.visitors.size ≤ rl.maxVisitors) : (rl.Allow ip now).2.visitors.size ≤ rl.maxVisitors := by
  have hclean := rl.cleanupExpired_size now
  have hinsert : ∀ v, ((rl.cleanupExpired now).setVisitor ip v).visitors.size =
      if ((rl.cleanupExpired now).counter ip).isSome then (rl.cleanupExpired now).visitors.size
      else (rl.cleanupExpired now).visitors.size + 1 := by
    intro v
    rw [setVisitor, ExtTreeMap.size_insert, ← contains_eq]
  rw [Allow_cases]
  cases hcounter : (rl.cleanupExpired now).counter ip with
  | none =>
      by_cases hfull : (rl.cleanupExpired now).Full
      · simp only [if_pos hfull]
        omega
      · simp only [if_neg hfull, hinsert, hcounter, Option.isSome_none, Bool.false_eq_true, if_false]
        simp only [Full, cleanupExpired_maxVisitors, not_and] at hfull
        have := hfull hpos
        omega
  | some v =>
      have hsize : ∀ w, ((rl.cleanupExpired now).setVisitor ip w).visitors.size ≤ rl.maxVisitors := by
        intro w
        rw [hinsert, hcounter, Option.isSome_some, if_pos rfl]
        omega
      simp only
      split_ifs
      · exact hsize _
      · exact hsize _

theorem after_size (rl : RateLimiter) (cs : List Call) (hpos : 0 < rl.maxVisitors)
    (h : rl.visitors.size ≤ rl.maxVisitors) : (rl.after cs).visitors.size ≤ rl.maxVisitors := by
  induction cs generalizing rl with
  | nil => exact h
  | cons c cs ih =>
      have hmax := rl.Allow_maxVisitors c.ip c.now
      have hsize := rl.Allow_size c.ip c.now hpos h
      rw [after_cons, ← hmax]
      exact ih _ (by rw [hmax]; exact hpos) (by rw [hmax]; exact hsize)

theorem after_window (rl : RateLimiter) (cs : List Call) : (rl.after cs).window = rl.window := by
  induction cs generalizing rl with
  | nil => rfl
  | cons c cs ih => rw [after_cons, ih, (rl.Allow_config c.ip c.now).2]

/-- A visitor whose window is not over stays, with the start of its window. -/
theorem Allow_keeps (rl : RateLimiter) (c : Call) {key : Bytes} {s : Int} {n : Nat}
    (h : rl.counter key = some (s, n)) (hin : ¬ (c.now - s > rl.window)) :
    ∃ m, (rl.Allow c.ip c.now).2.counter key = some (s, m) := by
  have hclean : (rl.cleanupExpired c.now).counter key = some (s, n) := by
    obtain hsame | ⟨_, s', n', hold, hover⟩ := rl.cleanupExpired_counter c.now key
    · rw [hsame, h]
    · rw [h] at hold
      cases hold
      exact absurd hover hin
  by_cases hkey : c.ip = key
  · subst hkey
    rw [Allow_cases, hclean]
    simp [hin, setVisitor_counter]
  · exact ⟨n, by rw [rl.Allow_other hkey, hclean]⟩

/-! ## The other keys -/

/-- Nothing is counted but the key. -/
def Only (key : Bytes) (rl : RateLimiter) : Prop := ∀ ip, ip ≠ key → rl.counter ip = none

theorem Only.cleanupExpired {key : Bytes} {rl : RateLimiter} (h : Only key rl) (now : Int) :
    Only key (rl.cleanupExpired now) := by
  intro ip hip
  obtain hsame | ⟨hnone, _⟩ := rl.cleanupExpired_counter now ip
  · rw [hsame, h ip hip]
  · exact hnone

theorem Only.Allow {key : Bytes} {rl : RateLimiter} (h : Only key rl) (now : Int) :
    Only key (rl.Allow key now).2 := by
  intro ip hip
  rw [rl.Allow_other (Ne.symm hip), h.cleanupExpired now ip hip]

/-- Alone, a key that is not counted finds room. -/
theorem Only.room {key : Bytes} {rl : RateLimiter} (h : Only key rl)
    (hnone : rl.counter key = none) : ¬ rl.Full := by
  have hempty : rl.visitors = ∅ := by
    rw [ExtTreeMap.eq_empty_iff_forall_contains]
    intro ip
    rw [contains_eq]
    by_cases hip : ip = key
    · rw [hip, hnone, Option.isSome_none]
    · rw [h ip hip, Option.isSome_none]
  simp only [Full, hempty, ExtTreeMap.size_empty]
  omega

/-- Two limiters that treat a key alike decide its calls alike, if the one with the other keys'
calls always has room. -/
theorem decisions_eq {key : Bytes} {cs : List Call} {now : Int} {rl solo : RateLimiter}
    (hsorted : cs.Pairwise fun c d => c.now ≤ d.now) (hnow : ∀ c ∈ cs, now ≤ c.now)
    (hmax : solo.maxReqs = rl.maxReqs) (hwindow : solo.window = rl.window)
    (hlive : live rl.window now (rl.counter key) = live rl.window now (solo.counter key))
    (honly : Only key solo)
    (hroom : ∀ n ≤ cs.length, (rl.after (cs.take n)).visitors.size < rl.maxVisitors) :
    decisions key rl cs = decisions key solo (cs.filter fun c => c.ip = key) := by
  induction cs generalizing now rl solo with
  | nil => rfl
  | cons c cs ih =>
      obtain ⟨hc, hsorted⟩ := List.pairwise_cons.mp hsorted
      have hlive := live_mono (hnow c (by simp)) hlive
      obtain ⟨hmax', hwindow'⟩ := rl.Allow_config c.ip c.now
      have hroom' : ∀ n ≤ cs.length, ((rl.Allow c.ip c.now).2.after (cs.take n)).visitors.size <
          (rl.Allow c.ip c.now).2.maxVisitors := by
        intro n hn
        rw [rl.Allow_maxVisitors]
        exact hroom (n + 1) (by rw [List.length_cons]; omega)
      by_cases hkey : c.ip = key
      · subst hkey
        have hfree : (rl.cleanupExpired c.now).counter c.ip = none → ¬ (rl.cleanupExpired c.now).Full := by
          intro _ hfull
          have hsize := rl.cleanupExpired_size c.now
          have hzero := hroom 0 (Nat.zero_le _)
          have hle := hfull.2
          rw [cleanupExpired_maxVisitors] at hle
          simp only [List.take_zero, after, List.foldl_nil] at hzero
          omega
        obtain ⟨hdecision, hcounter⟩ := rl.Allow_tick c.ip c.now hfree
        obtain ⟨hdecision', hcounter'⟩ := solo.Allow_tick c.ip c.now
          fun hnone => (honly.cleanupExpired c.now).room hnone
        obtain ⟨hmaxs, hwindows⟩ := solo.Allow_config c.ip c.now
        rw [hmax, hwindow, ← hlive] at hdecision' hcounter'
        rw [List.filter_cons_of_pos (by simp), decisions, decisions, if_pos rfl, if_pos rfl,
          hdecision, hdecision']
        congr 1
        apply ih hsorted hc
        · rw [hmaxs, hmax', hmax]
        · rw [hwindows, hwindow', hwindow]
        · rw [hcounter, hcounter']
        · exact honly.Allow c.now
        · exact hroom'
      · rw [List.filter_cons_of_neg (by simpa using hkey), decisions, if_neg hkey]
        apply ih hsorted hc
        · rw [hmax', hmax]
        · rw [hwindow', hwindow]
        · rw [hwindow', rl.Allow_other hkey, live_cleanupExpired, hlive]
        · exact honly
        · exact hroom'

/-- While the map has room a key is told what a limiter of its own would tell it; the map never
holds more visitors than it may, and a visitor within its window is not evicted. -/
theorem independent_clients (maxReqs : Nat) (window cleanupInterval : Int) {maxVisitors : Nat}
    (hpos : 0 < maxVisitors) (cs : List Call) (hsorted : cs.Pairwise fun c d => c.now ≤ d.now) :
    ((∀ n ≤ cs.length,
        ((fresh maxReqs window cleanupInterval maxVisitors).after (cs.take n)).visitors.size <
          maxVisitors) →
      ∀ key, decisions key (fresh maxReqs window cleanupInterval maxVisitors) cs =
        decisions key (fresh maxReqs window cleanupInterval maxVisitors) (cs.filter fun c => c.ip = key)) ∧
    ((fresh maxReqs window cleanupInterval maxVisitors).after cs).visitors.size ≤ maxVisitors ∧
    ∀ (c : Call) (key : Bytes) (v : Visitor),
      ((fresh maxReqs window cleanupInterval maxVisitors).after cs).visitors[key]? = some v →
      c.now - v.windowStart ≤ window →
      ∃ w, ((fresh maxReqs window cleanupInterval maxVisitors).after (cs ++ [c])).visitors[key]? = some w ∧
        w.windowStart = v.windowStart := by
  have hempty : ∀ key, (fresh maxReqs window cleanupInterval maxVisitors).counter key = none := by
    intro key
    simp [counter, fresh, NewRateLimiter]
  refine ⟨fun hroom key => ?_, after_size _ cs hpos (Nat.zero_le _), fun c key v hget hin => ?_⟩
  · cases cs with
    | nil => rfl
    | cons c cs =>
        have hfirst : ∀ d ∈ c :: cs, c.now ≤ d.now := by
          intro d hd
          rcases List.mem_cons.mp hd with rfl | hd
          · exact Int.le_refl _
          · exact (List.pairwise_cons.mp hsorted).1 d hd
        exact decisions_eq hsorted hfirst rfl rfl rfl (fun ip _ => hempty ip) hroom
  · have hwindow : ((fresh maxReqs window cleanupInterval maxVisitors).after cs).window = window :=
      after_window _ cs
    have hcounter : ((fresh maxReqs window cleanupInterval maxVisitors).after cs).counter key =
        some (v.windowStart, v.count) := by
      rw [counter, hget]
      rfl
    obtain ⟨m, hm⟩ := Allow_keeps _ c hcounter (by rw [hwindow]; omega)
    rw [counter, Option.map_eq_some_iff] at hm
    obtain ⟨w, hw, hwm⟩ := hm
    exact ⟨w, by rw [after_concat]; exact hw, congrArg Prod.fst hwm⟩

theorem independent_clients_spread :
    decisions [97] (fresh 2 (seconds 60) (seconds 60) 3) spread =
      decisions [97] (fresh 2 (seconds 60) (seconds 60) 3) (spread.filter fun c => c.ip = [97]) :=
  (independent_clients 2 (seconds 60) (seconds 60) (by decide) spread (by decide)).1
    (by decide +kernel) [97]

end RateLimiter

end ZReader.Middleware
