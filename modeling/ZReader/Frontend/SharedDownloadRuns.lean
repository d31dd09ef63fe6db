import ZReader.Frontend.SharedDownload

namespace ZReader.Frontend

open Lib.Tokens Lib.Transition

namespace Downloads

variable {K O P : Type}

/-- What a caller says about the state. -/
def GoodCaller (s : Downloads K O P) (x : DownloadSubscriber K O) : Prop :=
  match x.state with
  | .waiting t => x.aborted = false ∧ ∃ e, s.entries[t]? = some e ∧ e.key = x.key ∧ e.aborted = true
  | .subscribed t => x.aborted = false ∧ ∃ e, s.entries[t]? = some e ∧ e.key = x.key
  | .rejected none => x.aborted = true
  | .rejected (some t) => x.aborted = true ∧ ∃ e, s.entries[t]? = some e ∧ e.key = x.key
  | .received t o => ∃ e, s.entries[t]? = some e ∧ e.key = x.key ∧ e.phase = .settled o

structure Sound (s : Downloads K O P) : Prop where
  mapped : ∀ (k : K) (t : Nat), s.downloads k = some t →
    ∃ e, s.entries[t]? = some e ∧ e.key = k ∧ e.isSettled = false
  live : ∀ (t : Nat) e, s.entries[t]? = some e → e.isSettled = false → s.downloads e.key = some t
  listed : ∀ (t : Nat) e, s.entries[t]? = some e →
    ∀ i, i ∈ e.subscribers ↔ ∃ x, s.callers[i]? = some x ∧ x.state = .subscribed t
  aborted : ∀ (t : Nat) e, s.entries[t]? = some e → e.aborted = true → e.subscribers = []
  callers : ∀ (i : Nat) x, s.callers[i]? = some x → s.GoodCaller x

theorem sound_empty : (empty : Downloads K O P).Sound :=
  ⟨by simp [empty], by simp [empty], by simp [empty], by simp [empty], by simp [empty]⟩

/-- Entries keep their keys, their aborts and their outcomes. -/
def Keeps (l l' : List (SharedDownload K O P)) : Prop :=
  ∀ (t : Nat) e, l[t]? = some e → ∃ e', l'[t]? = some e' ∧ e'.key = e.key ∧
    (e.aborted = true → e'.aborted = true) ∧ ∀ o, e.phase = .settled o → e'.phase = .settled o

theorem keeps_set {l : List (SharedDownload K O P)} {t : Nat} {e e' : SharedDownload K O P}
    (ht : l[t]? = some e) (hkey : e'.key = e.key) (habort : e.aborted = true → e'.aborted = true)
    (hphase : ∀ o, e.phase = .settled o → e'.phase = .settled o) : Keeps l (l.set t e') := by
  intro t' d hd
  by_cases he : t' = t
  · subst he
    rw [ht] at hd
    cases hd
    exact ⟨e', getElem?_set_of_some ht e', hkey, habort, hphase⟩
  · exact ⟨d, (List.getElem?_set_ne (Ne.symm he)).trans hd, rfl, id, fun _ => id⟩

theorem keeps_concat (l : List (SharedDownload K O P)) (e : SharedDownload K O P) :
    Keeps l (l ++ [e]) := by
  intro t d hd
  have hlt := (List.getElem?_eq_some_iff.mp hd).1
  exact ⟨d, (List.getElem?_append_left hlt).trans hd, rfl, id, fun _ => id⟩

theorem GoodCaller.mono {s s' : Downloads K O P} {x : DownloadSubscriber K O}
    (hkeeps : Keeps s.entries s'.entries) (h : s.GoodCaller x) : s'.GoodCaller x := by
  rw [GoodCaller] at h ⊢
  split
  · next t hstate =>
    rw [hstate] at h
    obtain ⟨hlive, e, he, hkey, habort⟩ := h
    obtain ⟨e', he', hkey', habort', -⟩ := hkeeps t e he
    exact ⟨hlive, e', he', hkey'.trans hkey, habort' habort⟩
  · next t hstate =>
    rw [hstate] at h
    obtain ⟨hlive, e, he, hkey⟩ := h
    obtain ⟨e', he', hkey', -⟩ := hkeeps t e he
    exact ⟨hlive, e', he', hkey'.trans hkey⟩
  · next hstate =>
    rw [hstate] at h
    exact h
  · next t hstate =>
    rw [hstate] at h
    obtain ⟨haborted, e, he, hkey⟩ := h
    obtain ⟨e', he', hkey', -⟩ := hkeeps t e he
    exact ⟨haborted, e', he', hkey'.trans hkey⟩
  · next t o hstate =>
    rw [hstate] at h
    obtain ⟨e, he, hkey, hphase⟩ := h
    obtain ⟨e', he', hkey', -, hphase'⟩ := hkeeps t e he
    exact ⟨e', he', hkey'.trans hkey, hphase' o hphase⟩

/-! ## Steps of a transfer -/

theorem Sound.log {s : Downloads K O P} (h : s.Sound) (delivered : List (Nat × P)) :
    Sound { s with delivered := delivered } :=
  ⟨h.mapped, h.live, h.listed, h.aborted, h.callers⟩

theorem Sound.putEntry {s : Downloads K O P} (h : s.Sound) {t : Nat} {e e' : SharedDownload K O P}
    (ht : s.entries[t]? = some e) (hkey : e'.key = e.key) (hsubs : e'.subscribers = e.subscribers)
    (habort : e'.aborted = e.aborted) (hsettled : e'.isSettled = e.isSettled)
    (hphase : ∀ o, e.phase = .settled o → e'.phase = .settled o) : (s.putEntry t e').Sound := by
  refine ⟨?_, ?_, ?_, ?_, ?_⟩
  · intro k t' hk
    obtain ⟨d, hd, hdk, hdo⟩ := h.mapped k t' hk
    by_cases he : t' = t
    · subst he
      rw [ht] at hd
      cases hd
      exact ⟨e', getElem?_set_of_some ht e', hkey.trans hdk, hsettled.trans hdo⟩
    · exact ⟨d, (List.getElem?_set_ne (Ne.symm he)).trans hd, hdk, hdo⟩
  · intro t' d hd hdo
    rcases getElem?_set_cases hd with ⟨rfl, rfl⟩ | ⟨-, hd⟩
    · rw [hkey]
      exact h.live t' e ht (hsettled.symm.trans hdo)
    · exact h.live t' d hd hdo
  · intro t' d hd
    rcases getElem?_set_cases hd with ⟨rfl, rfl⟩ | ⟨-, hd⟩
    · rw [hsubs]
      exact h.listed t' e ht
    · exact h.listed t' d hd
  · intro t' d hd hda
    rcases getElem?_set_cases hd with ⟨rfl, rfl⟩ | ⟨-, hd⟩
    · rw [hsubs]
      exact h.aborted t' e ht (habort ▸ hda)
    · exact h.aborted t' d hd hda
  · intro i x hx
    exact (h.callers i x hx).mono (keeps_set ht hkey (by rw [habort]; exact id) hphase)

variable [DecidableEq K]

theorem Sound.cleanUp {s : Downloads K O P} (h : s.Sound) {t : Nat} {e : SharedDownload K O P}
    (ht : s.entries[t]? = some e) {o : O} (hphase : e.phase = .finishing o) :
    (s.cleanUp t e o).Sound := by
  have hopen : e.isSettled = false := by simp [SharedDownload.isSettled, hphase]
  have hmap : s.downloads e.key = some t := h.live t e ht hopen
  have hkeeps : Keeps s.entries (s.entries.set t { e with phase := .settled o }) :=
    keeps_set ht rfl id (by simp [hphase])
  have hclean : s.cleanUp t e o = { s.putEntry t { e with phase := .settled o } with
      downloads := Function.update s.downloads e.key none } := if_pos hmap
  rw [hclean]
  refine ⟨?_, ?_, ?_, ?_, ?_⟩
  · intro k t' hk
    change Function.update s.downloads e.key none k = some t' at hk
    by_cases he : k = e.key
    · rw [he, Function.update_self] at hk
      cases hk
    · rw [Function.update_of_ne he] at hk
      obtain ⟨d, hd, hdk, hdo⟩ := h.mapped k t' hk
      refine ⟨d, ?_, hdk, hdo⟩
      by_cases htt : t' = t
      · subst htt
        rw [ht] at hd
        cases hd
        exact absurd hdk.symm he
      · exact (List.getElem?_set_ne (Ne.symm htt)).trans hd
  · intro t' d hd hdo
    rcases getElem?_set_cases hd with ⟨rfl, rfl⟩ | ⟨hne, hd⟩
    · cases hdo
    · have hmap' := h.live t' d hd hdo
      have hk : d.key ≠ e.key := by
        intro hk
        rw [hk, hmap] at hmap'
        exact hne (Option.some.inj hmap').symm
      exact (Function.update_of_ne hk _ _).trans hmap'
  · intro t' d hd
    rcases getElem?_set_cases hd with ⟨rfl, rfl⟩ | ⟨-, hd⟩
    · exact h.listed t' e ht
    · exact h.listed t' d hd
  · intro t' d hd hda
    rcases getElem?_set_cases hd with ⟨rfl, rfl⟩ | ⟨-, hd⟩
    · exact h.aborted t' e ht hda
    · exact h.aborted t' d hd hda
  · intro i x hx
    exact (h.callers i x hx).mono hkeeps

/-! ## Steps of a caller -/

omit [DecidableEq K] in
/-- A subscriber leaves its transfer. -/
theorem Sound.detach {s : Downloads K O P} (h : s.Sound) {i t : Nat}
    {x x' : DownloadSubscriber K O} {e e' : SharedDownload K O P} (hi : s.callers[i]? = some x)
    (hstate : x.state = .subscribed t) (ht : s.entries[t]? = some e) (hkey : e'.key = e.key)
    (hphase : e'.phase = e.phase) (hsubs : e'.subscribers = e.subscribers.filter (· ≠ i))
    (habort : e.aborted = true → e'.aborted = true)
    (habort' : e'.aborted = true → e'.subscribers = []) (hleft : ∀ t, x'.state ≠ .subscribed t)
    (hgood : s.GoodCaller x') : ((s.putEntry t e').putCaller i x').Sound := by
  have hkeeps : Keeps s.entries (s.entries.set t e') :=
    keeps_set ht hkey habort (fun o ho => hphase.trans ho)
  have hsettled : e'.isSettled = e.isSettled := by rw [SharedDownload.isSettled, hphase]; rfl
  refine ⟨?_, ?_, ?_, ?_, ?_⟩
  · intro k t' hk
    obtain ⟨d, hd, hdk, hdo⟩ := h.mapped k t' hk
    by_cases he : t' = t
    · subst he
      rw [ht] at hd
      cases hd
      exact ⟨e', getElem?_set_of_some ht e', hkey.trans hdk, hsettled.trans hdo⟩
    · exact ⟨d, (List.getElem?_set_ne (Ne.symm he)).trans hd, hdk, hdo⟩
  · intro t' d hd hdo
    rcases getElem?_set_cases hd with ⟨rfl, rfl⟩ | ⟨-, hd⟩
    · rw [hkey]
      exact h.live t' e ht (hsettled ▸ hdo)
    · exact h.live t' d hd hdo
  · intro t' d hd j
    have hcallers : ∀ y, (s.callers.set i x')[j]? = some y ∧ y.state = .subscribed t' ↔
        j ≠ i ∧ s.callers[j]? = some y ∧ y.state = .subscribed t' := by
      intro y
      constructor
      · rintro ⟨hy, hys⟩
        rcases getElem?_set_cases hy with ⟨-, rfl⟩ | ⟨hne, hy⟩
        · exact absurd hys (hleft t')
        · exact ⟨hne, hy, hys⟩
      · rintro ⟨hne, hy, hys⟩
        exact ⟨(List.getElem?_set_ne (Ne.symm hne)).trans hy, hys⟩
    change j ∈ d.subscribers ↔ ∃ y, (s.callers.set i x')[j]? = some y ∧ y.state = .subscribed t'
    simp only [hcallers, exists_and_left]
    rcases getElem?_set_cases hd with ⟨rfl, rfl⟩ | ⟨hne, hd⟩
    · rw [hsubs, List.mem_filter, h.listed t' e ht j, and_comm, decide_eq_true_eq]
    · rw [h.listed t' d hd j]
      constructor
      · rintro ⟨y, hy, hys⟩
        refine ⟨?_, y, hy, hys⟩
        rintro rfl
        rw [hi] at hy
        cases hy
        rw [hstate] at hys
        cases hys
        exact hne rfl
      · exact And.right
  · intro t' d hd hda
    rcases getElem?_set_cases hd with ⟨rfl, rfl⟩ | ⟨-, hd⟩
    · exact habort' hda
    · exact h.aborted t' d hd hda
  · intro j y hy
    rcases getElem?_set_cases hy with ⟨-, rfl⟩ | ⟨-, hy⟩
    · exact hgood.mono hkeeps
    · exact (h.callers j y hy).mono hkeeps

omit [DecidableEq K] in
/-- A caller that is no subscriber stays none. -/
theorem Sound.putCaller {s : Downloads K O P} (h : s.Sound) {i : Nat}
    {x x' : DownloadSubscriber K O} (hi : s.callers[i]? = some x)
    (hnot : ∀ t, x.state ≠ .subscribed t) (hnot' : ∀ t, x'.state ≠ .subscribed t)
    (hgood : s.GoodCaller x') : (s.putCaller i x').Sound := by
  refine ⟨h.mapped, h.live, ?_, h.aborted, ?_⟩
  · intro t e ht j
    rw [h.listed t e ht j]
    constructor
    · rintro ⟨y, hy, hys⟩
      refine ⟨y, ?_, hys⟩
      rw [Downloads.putCaller, List.getElem?_set_ne]
      · exact hy
      · rintro rfl
        rw [hi] at hy
        cases hy
        exact hnot t hys
    · rintro ⟨y, hy, hys⟩
      rcases getElem?_set_cases hy with ⟨-, rfl⟩ | ⟨-, hy⟩
      · exact absurd hys (hnot' t)
      · exact ⟨y, hy, hys⟩
  · intro j y hy
    rcases getElem?_set_cases hy with ⟨-, rfl⟩ | ⟨-, hy⟩
    · exact hgood
    · exact h.callers j y hy

omit [DecidableEq K] in
theorem Sound.abort {s s' : Downloads K O P} (h : s.Sound) {i : Nat} {x : DownloadSubscriber K O}
    (hi : s.callers[i]? = some x) (hstep : s.abort i x = some s') : s'.Sound := by
  have hgood := h.callers i x hi
  rw [Downloads.abort] at hstep
  split at hstep
  · next t hstate =>
    cases hstep
    exact h.putCaller hi (by simp [hstate]) (by simp) rfl
  · next t hstate =>
    obtain ⟨e, ht, rfl⟩ := Option.map_eq_some_iff.mp hstep
    rw [GoodCaller, hstate] at hgood
    refine h.detach hi hstate ht rfl rfl rfl ?_ ?_ (by simp) ⟨rfl, hgood.2⟩
    · intro hab
      simp [hab]
    · intro hab
      simp only [Bool.or_eq_true, decide_eq_true_eq] at hab
      rcases hab with hab | hnone
      · simp [h.aborted t e ht hab]
      · exact hnone
  · next t hstate =>
    cases hstep
    refine h.putCaller hi (by simp [hstate]) (by simp [hstate]) ?_
    rw [GoodCaller] at hgood ⊢
    cases t with
    | none => simp [hstate]
    | some t =>
        rw [hstate] at hgood
        simp only [hstate]
        exact ⟨trivial, hgood.2⟩
  · next t o hstate =>
    cases hstep
    refine h.putCaller hi (by simp [hstate]) (by simp [hstate]) ?_
    rw [GoodCaller, hstate] at hgood
    rw [GoodCaller]
    simp only [hstate]
    exact hgood

/-- The three branches of a call whose signal has not been aborted. -/
theorem attach_cases {s : Downloads K O P} (h : s.Sound) (i : Nat) (key : K) :
    (∃ t e, s.entries[t]? = some e ∧ e.key = key ∧ e.aborted = true ∧
      s.attach i key = (s, .waiting t)) ∨
    (∃ t e, s.entries[t]? = some e ∧ e.key = key ∧ e.aborted = false ∧ e.isSettled = false ∧
      s.attach i key =
        ({ s.putEntry t { e with subscribers := e.subscribers ++ [i] } with
            delivered := s.delivered ++ e.latestProgress.toList.map (i, ·) }, .subscribed t)) ∨
    s.downloads key = none ∧ s.attach i key =
      ({ s with
          downloads := Function.update s.downloads key (some s.entries.length)
          entries := s.entries ++ [⟨key, false, [i], none, .scheduled⟩] },
        .subscribed s.entries.length) := by
  rw [attach]
  cases hmap : s.downloads key with
  | none => exact Or.inr (Or.inr ⟨rfl, rfl⟩)
  | some t =>
      obtain ⟨e, he, hkey, hopen⟩ := h.mapped key t hmap
      simp only [Option.bind_some, he, Option.map_some]
      by_cases habort : e.aborted = true
      · exact Or.inl ⟨t, e, he, hkey, habort, if_pos habort⟩
      · exact Or.inr (Or.inl ⟨t, e, he, hkey, by simpa using habort, hopen, if_neg habort⟩)

theorem attach_callers {s : Downloads K O P} (h : s.Sound) (i : Nat) (key : K) :
    (s.attach i key).1.callers = s.callers := by
  rcases attach_cases h i key with ⟨t, e, -, -, -, ha⟩ | ⟨t, e, -, -, -, -, ha⟩ | ⟨-, ha⟩
  · rw [ha]
  · rw [ha]
    rfl
  · rw [ha]

/-- A caller that is no subscriber yet waits, joins or opens a transfer. -/
theorem Sound.attach {s : Downloads K O P} (h : s.Sound) {i : Nat} {x' : DownloadSubscriber K O}
    {callers' : List (DownloadSubscriber K O)}
    (hnot : ∀ x t, s.callers[i]? = some x → x.state ≠ .subscribed t)
    (hcallers : ∀ j : Nat, callers'[j]? = if j = i then some x' else s.callers[j]?)
    (hlive : x'.aborted = false) (hstate : x'.state = (s.attach i x'.key).2) :
    Sound { (s.attach i x'.key).1 with callers := callers' } := by
  have hself : callers'[i]? = some x' := by rw [hcallers, if_pos rfl]
  have hother : ∀ j : Nat, j ≠ i → callers'[j]? = s.callers[j]? := by
    intro j hj
    rw [hcallers, if_neg hj]
  -- who is subscribed to what, with the newcomer set apart
  have hsubscribed : ∀ (j t : Nat), (∃ y, callers'[j]? = some y ∧ y.state = .subscribed t) ↔
      (j = i ∧ x'.state = .subscribed t) ∨ ∃ y, s.callers[j]? = some y ∧ y.state = .subscribed t := by
    intro j t
    by_cases hj : j = i
    · subst hj
      simp only [hself, Option.some.injEq, exists_eq_left', true_and]
      constructor
      · exact Or.inl
      · rintro (hx | ⟨y, hy, hys⟩)
        · exact hx
        · exact absurd hys (hnot y t hy)
    · simp [hother j hj, hj]
  have hgood : ∀ s' : Downloads K O P, Keeps s.entries s'.entries → s'.callers = callers' →
      s'.GoodCaller x' → ∀ (j : Nat) y, s'.callers[j]? = some y → s'.GoodCaller y := by
    intro s' hkeeps hs' hx' j y hy
    rw [hs'] at hy
    by_cases hj : j = i
    · subst hj
      rw [hself] at hy
      cases hy
      exact hx'
    · rw [hother j hj] at hy
      exact (h.callers j y hy).mono hkeeps
  rcases attach_cases h i x'.key with ⟨t, e, he, hkey, habort, hattach⟩ |
    ⟨t, e, he, hkey, habort, hopen, hattach⟩ | ⟨hnone, hattach⟩
  · rw [hattach] at hstate ⊢
    refine ⟨h.mapped, h.live, ?_, h.aborted, ?_⟩
    · intro t' d hd j
      rw [hsubscribed, h.listed t' d hd j, hstate]
      simp
    · refine hgood _ (fun t d hd => ⟨d, hd, rfl, id, fun _ => id⟩) rfl ?_
      rw [GoodCaller, hstate]
      exact ⟨hlive, e, he, hkey, habort⟩
  · rw [hattach] at hstate ⊢
    have hkeeps : Keeps s.entries (s.entries.set t { e with subscribers := e.subscribers ++ [i] }) :=
      keeps_set he rfl id (fun _ => id)
    refine ⟨?_, ?_, ?_, ?_, ?_⟩
    · intro k t' hk
      obtain ⟨d, hd, hdk, hdo⟩ := h.mapped k t' hk
      by_cases htt : t' = t
      · subst htt
        rw [he] at hd
        cases hd
        exact ⟨_, getElem?_set_of_some he _, hdk, hdo⟩
      · exact ⟨d, (List.getElem?_set_ne (Ne.symm htt)).trans hd, hdk, hdo⟩
    · intro t' d hd hdo
      rcases getElem?_set_cases hd with ⟨rfl, rfl⟩ | ⟨-, hd⟩
      · exact h.live t' e he hopen
      · exact h.live t' d hd hdo
    · intro t' d hd j
      rw [hsubscribed, hstate]
      rcases getElem?_set_cases hd with ⟨rfl, rfl⟩ | ⟨hne, hd⟩
      · rw [List.mem_append, h.listed t' e he j, List.mem_singleton]
        simp [or_comm]
      · rw [h.listed t' d hd j]
        simp [Ne.symm hne]
    · intro t' d hd hda
      rcases getElem?_set_cases hd with ⟨-, rfl⟩ | ⟨-, hd⟩
      · rw [habort] at hda
        cases hda
      · exact h.aborted t' d hd hda
    · refine hgood _ hkeeps rfl ?_
      rw [GoodCaller, hstate]
      exact ⟨hlive, _, getElem?_set_of_some he _, hkey⟩
  · rw [hattach] at hstate ⊢
    have hfresh : ∀ d : SharedDownload K O P, s.entries[s.entries.length]? ≠ some d := by simp
    refine ⟨?_, ?_, ?_, ?_, ?_⟩
    · intro k t' hk
      change Function.update s.downloads x'.key (some s.entries.length) k = some t' at hk
      by_cases hkx : k = x'.key
      · rw [hkx, Function.update_self] at hk
        cases hk
        exact ⟨_, List.getElem?_concat_length, hkx.symm, rfl⟩
      · rw [Function.update_of_ne hkx] at hk
        obtain ⟨d, hd, hdk, hdo⟩ := h.mapped k t' hk
        have hlt := (List.getElem?_eq_some_iff.mp hd).1
        exact ⟨d, (List.getElem?_append_left hlt).trans hd, hdk, hdo⟩
    · intro t' d hd hdo
      rcases getElem?_concat_cases hd with hd | ⟨rfl, rfl⟩
      · have hmap := h.live t' d hd hdo
        have hk : d.key ≠ x'.key := by
          intro hk
          rw [hk, hnone] at hmap
          cases hmap
        exact (Function.update_of_ne hk _ _).trans hmap
      · exact Function.update_self _ _ _
    · intro t' d hd j
      rw [hsubscribed, hstate]
      rcases getElem?_concat_cases hd with hd | ⟨rfl, rfl⟩
      · have hlt := (List.getElem?_eq_some_iff.mp hd).1
        rw [h.listed t' d hd j]
        simp [hlt.ne']
      · rw [List.mem_singleton]
        constructor
        · intro hj
          exact Or.inl ⟨hj, rfl⟩
        · rintro (⟨hj, -⟩ | ⟨y, hy, hys⟩)
          · exact hj
          · have hy := h.callers j y hy
            rw [GoodCaller, hys] at hy
            obtain ⟨-, d, hd, -⟩ := hy
            exact absurd hd (hfresh d)
    · intro t' d hd hda
      rcases getElem?_concat_cases hd with hd | ⟨-, rfl⟩
      · exact h.aborted t' d hd hda
      · cases hda
    · refine hgood _ (keeps_concat _ _) rfl ?_
      rw [GoodCaller, hstate]
      exact ⟨hlive, _, List.getElem?_concat_length, rfl⟩

theorem Sound.share {s : Downloads K O P} (h : s.Sound) (key : K) (aborted : Bool) :
    (s.share key aborted).Sound := by
  have hfresh : ∀ (x : DownloadSubscriber K O) (t : Nat),
      s.callers[s.callers.length]? = some x → x.state ≠ .subscribed t := by simp
  have hcallers : ∀ (x : DownloadSubscriber K O) (j : Nat),
      (s.callers ++ [x])[j]? = if j = s.callers.length then some x else s.callers[j]? := by
    intro x j
    split
    · next hj =>
      rw [hj]
      exact List.getElem?_concat_length
    · next hj =>
      rw [List.getElem?_append]
      split
      · rfl
      · rw [List.getElem?_eq_none (by simp; omega), List.getElem?_eq_none (by omega)]
  cases aborted with
  | false => exact @Sound.attach _ _ _ _ _ h _ ⟨key, false, _⟩ _ hfresh (hcallers _) rfl rfl
  | true =>
      refine ⟨h.mapped, h.live, ?_, h.aborted, ?_⟩
      · intro t e ht j
        rw [h.listed t e ht j]
        constructor
        · rintro ⟨y, hy, hys⟩
          have hlt := (List.getElem?_eq_some_iff.mp hy).1
          exact ⟨y, (List.getElem?_append_left hlt).trans hy, hys⟩
        · rintro ⟨y, hy, hys⟩
          rcases getElem?_concat_cases hy with hy | ⟨-, rfl⟩
          · exact ⟨y, hy, hys⟩
          · cases hys
      · intro j y hy
        rcases getElem?_concat_cases hy with hy | ⟨-, rfl⟩
        · exact h.callers j y hy
        · rfl

theorem Sound.react {s s' : Downloads K O P} (h : s.Sound) {i : Nat} {x : DownloadSubscriber K O}
    (hi : s.callers[i]? = some x) (hstep : s.react i x = some s') : s'.Sound := by
  have hgood := h.callers i x hi
  rw [Downloads.react] at hstep
  split at hstep
  · next t hstate =>
    obtain ⟨e, ht, hstep⟩ := Option.bind_eq_some_iff.mp hstep
    split at hstep
    · have hs' : (s.attach i x.key).1.putCaller i { x with state := (s.attach i x.key).2 } = s' :=
        Option.some.inj hstep
      rw [GoodCaller, hstate] at hgood
      rw [← hs', Downloads.putCaller, attach_callers h]
      refine @Sound.attach _ _ _ _ _ h _ { x with state := (s.attach i x.key).2 } _ ?_ ?_ hgood.1 rfl
      · intro y t' hy
        rw [hi] at hy
        cases hy
        simp [hstate]
      · intro j
        split
        · next hj =>
          rw [hj]
          exact getElem?_set_of_some hi _
        · next hj => exact List.getElem?_set_ne (Ne.symm hj)
    · cases hstep
  · next t hstate =>
    obtain ⟨e, ht, hstep⟩ := Option.bind_eq_some_iff.mp hstep
    split at hstep
    · next o hphase =>
      cases hstep
      rw [GoodCaller, hstate] at hgood
      obtain ⟨-, e', he', hkey⟩ := hgood
      rw [ht] at he'
      cases he'
      refine h.detach hi hstate ht rfl rfl rfl id ?_ (by simp) ⟨e, ht, hkey, hphase⟩
      intro hab
      simp [h.aborted t e ht hab]
    · cases hstep
  · cases hstep
  · cases hstep

/-! ## Runs -/

theorem Sound.stepEntry {s s' : Downloads K O P} (h : s.Sound) {t : Nat} {e : SharedDownload K O P}
    {a : DownloadAction K O P} (ht : s.entries[t]? = some e)
    (hstep : s.stepEntry t e a = some s') : s'.Sound := by
  cases a with
  | start u =>
      simp only [Downloads.stepEntry] at hstep
      split at hstep
      · next hphase =>
        cases hstep
        exact h.putEntry ht rfl rfl rfl (by simp [SharedDownload.isSettled, hphase]) (by simp [hphase])
      · cases hstep
  | progress u p =>
      simp only [Downloads.stepEntry] at hstep
      split at hstep
      · cases hstep
      · cases hstep
        have hput := @Sound.putEntry _ _ _ _ h _ _ { e with latestProgress := some p } ht rfl rfl rfl
          rfl fun _ => id
        exact hput.log _
  | finish u o =>
      simp only [Downloads.stepEntry] at hstep
      split at hstep
      · next hphase =>
        cases hstep
        exact h.putEntry ht rfl rfl rfl (by simp [SharedDownload.isSettled, hphase]) (by simp [hphase])
      · cases hstep
  | cleanUp u =>
      simp only [Downloads.stepEntry] at hstep
      split at hstep
      · next o hphase =>
        cases hstep
        exact h.cleanUp ht hphase
      · cases hstep
  | share _ _ | abort _ | react _ => cases hstep

theorem Sound.step {s s' : Downloads K O P} {a : DownloadAction K O P} (h : s.Sound)
    (hstep : s.step a = some s') : s'.Sound := by
  cases a with
  | share key aborted =>
      cases hstep
      exact h.share key aborted
  | abort i =>
      obtain ⟨x, hi, hstep⟩ := Option.bind_eq_some_iff.mp hstep
      split at hstep
      · cases hstep
      · exact h.abort hi hstep
  | react i =>
      obtain ⟨x, hi, hstep⟩ := Option.bind_eq_some_iff.mp hstep
      exact h.react hi hstep
  | start t | progress t _ | finish t _ | cleanUp t =>
      obtain ⟨e, ht, hstep⟩ := Option.bind_eq_some_iff.mp hstep
      exact h.stepEntry ht hstep

abbrev Reached (s : Downloads K O P) : Prop :=
  Reachable (· = empty) (fun s (a : DownloadAction K O P) t => step s a = some t) s

theorem Reached.sound {s : Downloads K O P} (h : s.Reached) : s.Sound := by
  refine h.invariant Sound ?_ (fun _ _ _ hs hstep => hs.step hstep)
  rintro _ rfl
  exact sound_empty

/-! ## Who aborts a transfer -/

omit [DecidableEq K] in
theorem aborted_set {l : List (SharedDownload K O P)} {t t' : Nat} {e e' d : SharedDownload K O P}
    (ht : l[t]? = some e) (hd : (l.set t e')[t']? = some d) (hsame : e'.aborted = e.aborted)
    (habort : d.aborted = true) : ∃ c, l[t']? = some c ∧ c.aborted = true := by
  rcases getElem?_set_cases hd with ⟨rfl, rfl⟩ | ⟨-, hd⟩
  · exact ⟨e, ht, hsame.symm.trans habort⟩
  · exact ⟨d, hd, habort⟩

/-- Attaching a caller aborts nothing. -/
theorem aborted_attach {s : Downloads K O P} (h : s.Sound) {i t : Nat} {key : K}
    {d : SharedDownload K O P} (hd : (s.attach i key).1.entries[t]? = some d)
    (habort : d.aborted = true) : ∃ e, s.entries[t]? = some e ∧ e.aborted = true := by
  rcases attach_cases h i key with ⟨t', e, he, -, -, ha⟩ | ⟨t', e, he, -, -, -, ha⟩ | ⟨-, ha⟩
  · rw [ha] at hd
    exact ⟨d, hd, habort⟩
  · rw [ha] at hd
    exact aborted_set he hd rfl habort
  · rw [ha] at hd
    rcases getElem?_concat_cases hd with hd | ⟨-, rfl⟩
    · exact ⟨d, hd, habort⟩
    · cases habort

theorem stepEntry_entries {s s' : Downloads K O P} {t : Nat} {e : SharedDownload K O P}
    {a : DownloadAction K O P} (hstep : s.stepEntry t e a = some s') :
    ∃ phase latest, s'.entries = s.entries.set t { e with phase := phase, latestProgress := latest } := by
  cases a with
  | start u | finish u o =>
      simp only [Downloads.stepEntry] at hstep
      split at hstep
      · cases hstep
        exact ⟨_, _, rfl⟩
      · cases hstep
  | progress u p =>
      simp only [Downloads.stepEntry] at hstep
      split at hstep
      · cases hstep
      · cases hstep
        exact ⟨_, _, rfl⟩
  | cleanUp u =>
      simp only [Downloads.stepEntry] at hstep
      split at hstep
      · next o hphase =>
        cases hstep
        refine ⟨.settled o, e.latestProgress, ?_⟩
        rw [Downloads.cleanUp]
        split <;> rfl
      · cases hstep
  | share _ _ | abort _ | react _ => cases hstep

/-- The step is the abort of the last subscriber of the transfer. -/
def LastAborts (s : Downloads K O P) (a : DownloadAction K O P) (t : Nat) : Prop :=
  ∃ i x, a = .abort i ∧ s.callers[i]? = some x ∧ x.state = .subscribed t ∧
    ∀ (j : Nat) y, j ≠ i → s.callers[j]? = some y → y.state ≠ .subscribed t

theorem newly_aborted {s s' : Downloads K O P} {a : DownloadAction K O P} (h : s.Sound)
    (hstep : s.step a = some s') {t : Nat} {d : SharedDownload K O P}
    (hd : s'.entries[t]? = some d) (habort : d.aborted = true) :
    (∃ e, s.entries[t]? = some e ∧ e.aborted = true) ∨ s.LastAborts a t := by
  cases a with
  | share key aborted =>
      cases hstep
      left
      cases aborted with
      | true => exact ⟨d, hd, habort⟩
      | false => exact aborted_attach (i := s.callers.length) h hd habort
  | react i =>
      left
      obtain ⟨x, hi, hstep⟩ := Option.bind_eq_some_iff.mp hstep
      rw [Downloads.react] at hstep
      split at hstep
      · obtain ⟨e, -, hstep⟩ := Option.bind_eq_some_iff.mp hstep
        split at hstep
        · have hs' : (s.attach i x.key).1.putCaller i { x with state := (s.attach i x.key).2 } = s' :=
            Option.some.inj hstep
          rw [← hs'] at hd
          exact aborted_attach h hd habort
        · cases hstep
      · obtain ⟨e, ht, hstep⟩ := Option.bind_eq_some_iff.mp hstep
        split at hstep
        · cases hstep
          exact aborted_set ht hd rfl habort
        · cases hstep
      · cases hstep
      · cases hstep
  | abort i =>
      obtain ⟨x, hi, hstep⟩ := Option.bind_eq_some_iff.mp hstep
      split at hstep
      · cases hstep
      · rw [Downloads.abort] at hstep
        split at hstep
        · cases hstep
          exact Or.inl ⟨d, hd, habort⟩
        · next t' hstate =>
          obtain ⟨e, ht, rfl⟩ := Option.map_eq_some_iff.mp hstep
          rcases getElem?_set_cases hd with ⟨rfl, rfl⟩ | ⟨-, hd⟩
          · simp only [Bool.or_eq_true, decide_eq_true_eq] at habort
            rcases habort with habort | hnone
            · exact Or.inl ⟨e, ht, habort⟩
            · refine Or.inr ⟨i, x, rfl, hi, hstate, ?_⟩
              intro j y hj hy hys
              have hmem : j ∈ e.subscribers.filter (· ≠ i) :=
                List.mem_filter.mpr ⟨(h.listed t e ht j).mpr ⟨y, hy, hys⟩, by simpa using hj⟩
              rw [hnone] at hmem
              cases hmem
          · exact Or.inl ⟨d, hd, habort⟩
        · cases hstep
          exact Or.inl ⟨d, hd, habort⟩
        · cases hstep
          exact Or.inl ⟨d, hd, habort⟩
  | start t' | progress t' p | finish t' o | cleanUp t' =>
      left
      obtain ⟨e, ht, hstep⟩ := Option.bind_eq_some_iff.mp hstep
      obtain ⟨phase, latest, hentries⟩ := stepEntry_entries hstep
      rw [hentries] at hd
      exact aborted_set ht hd rfl habort

/-- The abort of a caller rejects its own promise if that is pending, and no other. -/
theorem abort_rejects {s s' : Downloads K O P} {i : Nat} (hstep : s.step (.abort i) = some s') :
    (∀ j : Nat, j ≠ i → s'.callers[j]? = s.callers[j]?) ∧
    ∃ x x', s.callers[i]? = some x ∧ s'.callers[i]? = some x' ∧ x'.aborted = true ∧
      match x.state with
      | .waiting _ => x'.state = .rejected none
      | .subscribed t => x'.state = .rejected (some t)
      | .rejected _ | .received _ _ => x'.state = x.state := by
  obtain ⟨x, hi, hstep⟩ := Option.bind_eq_some_iff.mp hstep
  have hother : ∀ (x' : DownloadSubscriber K O) (j : Nat), j ≠ i →
      (s.callers.set i x')[j]? = s.callers[j]? :=
    fun x' j hj => List.getElem?_set_ne (Ne.symm hj)
  split at hstep
  · cases hstep
  · rw [Downloads.abort] at hstep
    split at hstep
    · next t hstate =>
      cases hstep
      exact ⟨hother _, x, _, hi, getElem?_set_of_some hi _, rfl, by rw [hstate]⟩
    · next t hstate =>
      obtain ⟨e, -, rfl⟩ := Option.map_eq_some_iff.mp hstep
      exact ⟨hother _, x, _, hi, getElem?_set_of_some hi _, rfl, by rw [hstate]⟩
    · next t hstate =>
      cases hstep
      exact ⟨hother _, x, _, hi, getElem?_set_of_some hi _, rfl, by rw [hstate]⟩
    · next t o hstate =>
      cases hstep
      exact ⟨hother _, x, _, hi, getElem?_set_of_some hi _, rfl, by rw [hstate]⟩

/-- Whether the call has been a subscriber of the transfer. -/
def Joined (x : DownloadSubscriber K O) (t : Nat) : Prop :=
  x.state = .subscribed t ∨ x.state = .rejected (some t) ∨ ∃ o, x.state = .received t o

/-- No transfer is under way and no call has anything to react to. -/
def Quiescent (s : Downloads K O P) : Prop :=
  (∀ (t : Nat) e, s.entries[t]? = some e → e.isSettled = true) ∧
    ∀ i, s.step (.react i) = none

omit [DecidableEq K] in
theorem Sound.joined_aborted {s : Downloads K O P} (h : s.Sound) {t : Nat}
    {e : SharedDownload K O P} (ht : s.entries[t]? = some e) (hopen : e.isSettled = false)
    (habort : e.aborted = true) {i : Nat} {x : DownloadSubscriber K O}
    (hi : s.callers[i]? = some x) (hjoined : Joined x t) : x.aborted = true := by
  have hgood := h.callers i x hi
  rcases hjoined with hstate | hstate | ⟨o, hstate⟩
  · have hmem := (h.listed t e ht i).mpr ⟨x, hi, hstate⟩
    rw [h.aborted t e ht habort] at hmem
    cases hmem
  · rw [GoodCaller, hstate] at hgood
    exact hgood.1
  · rw [GoodCaller, hstate] at hgood
    obtain ⟨e', he', -, hphase⟩ := hgood
    rw [ht] at he'
    cases he'
    simp [SharedDownload.isSettled, hphase] at hopen

omit [DecidableEq K] in
/-- What a call still has to do with a transfer that has not been aborted by it. -/
theorem Sound.subscribed_live {s : Downloads K O P} (h : s.Sound) {i t : Nat}
    {x : DownloadSubscriber K O} (hi : s.callers[i]? = some x) (hstate : x.state = .subscribed t) :
    ∃ e, s.entries[t]? = some e ∧ e.key = x.key ∧ e.aborted = false := by
  have hgood := h.callers i x hi
  rw [GoodCaller, hstate] at hgood
  obtain ⟨-, e, he, hkey⟩ := hgood
  refine ⟨e, he, hkey, ?_⟩
  rw [Bool.eq_false_iff]
  intro habort
  have hmem := (h.listed t e he i).mpr ⟨x, hi, hstate⟩
  rw [h.aborted t e he habort] at hmem
  cases hmem

/-- A call receives the outcome of the transfer it is subscribed to. -/
theorem receives {s s' : Downloads K O P} (h : s.Sound) {i t : Nat} {o : O}
    {x' : DownloadSubscriber K O} (hstep : s.step (.react i) = some s')
    (hi' : s'.callers[i]? = some x') (hstate' : x'.state = .received t o) :
    ∃ x e, s.callers[i]? = some x ∧ x.state = .subscribed t ∧ s.entries[t]? = some e ∧
      e.key = x.key ∧ e.aborted = false ∧ e.phase = .settled o := by
  obtain ⟨x, hi, hstep⟩ := Option.bind_eq_some_iff.mp hstep
  rw [Downloads.react] at hstep
  split at hstep
  · obtain ⟨e, -, hstep⟩ := Option.bind_eq_some_iff.mp hstep
    split at hstep
    · have hs' : (s.attach i x.key).1.putCaller i { x with state := (s.attach i x.key).2 } = s' :=
        Option.some.inj hstep
      rw [← hs', Downloads.putCaller, attach_callers h, getElem?_set_of_some hi] at hi'
      cases hi'
      rcases attach_cases h i x.key with ⟨u, d, -, -, -, ha⟩ | ⟨u, d, -, -, -, -, ha⟩ | ⟨-, ha⟩
      all_goals
        rw [ha] at hstate'
        cases hstate'
    · cases hstep
  · next u hstate =>
    obtain ⟨e, ht, hstep⟩ := Option.bind_eq_some_iff.mp hstep
    split at hstep
    · next o' hphase =>
      cases hstep
      rw [Downloads.putCaller, Downloads.putEntry, getElem?_set_of_some hi] at hi'
      cases hi'
      cases hstate'
      obtain ⟨e', he', hkey, hlive⟩ := h.subscribed_live hi hstate
      rw [ht] at he'
      cases he'
      exact ⟨x, e, hi, hstate, ht, hkey, hlive, hphase⟩
    · cases hstep
  · cases hstep
  · cases hstep

omit [DecidableEq K] in
theorem Sound.not_rejected {s : Downloads K O P} (h : s.Sound) {i : Nat}
    {x : DownloadSubscriber K O} (hi : s.callers[i]? = some x) (hlive : x.aborted = false)
    (t : Option Nat) : x.state ≠ .rejected t := by
  intro hstate
  have hgood := h.callers i x hi
  rw [GoodCaller, hstate] at hgood
  cases t with
  | none =>
      rw [hlive] at hgood
      cases hgood
  | some t =>
      have haborted := hgood.1
      rw [hlive] at haborted
      cases haborted

/-- A call that is never aborted ends with a result. -/
theorem Sound.answered {s : Downloads K O P} (h : s.Sound) (hquiet : s.Quiescent) {i : Nat}
    {x : DownloadSubscriber K O} (hi : s.callers[i]? = some x) (hlive : x.aborted = false) :
    ∃ t o, x.state = .received t o := by
  have hgood := h.callers i x hi
  have hstuck : s.react i x = none := by
    have hnone := hquiet.2 i
    rwa [Downloads.step, hi] at hnone
  cases hstate : x.state with
  | waiting t =>
      rw [GoodCaller, hstate] at hgood
      obtain ⟨-, e, he, -⟩ := hgood
      simp [Downloads.react, hstate, he, hquiet.1 t e he] at hstuck
  | subscribed t =>
      obtain ⟨e, he, -⟩ := h.subscribed_live hi hstate
      have hsettled := hquiet.1 t e he
      rw [SharedDownload.isSettled] at hsettled
      split at hsettled
      · next o hphase => simp [Downloads.react, hstate, he, hphase] at hstuck
      · cases hsettled
  | rejected t => exact absurd hstate (h.not_rejected hi hlive t)
  | received t o => exact ⟨t, o, rfl⟩

/-- Transfers are shared by key; each ends by itself or with the last of its subscribers,
and whoever stays gets a result. -/
theorem shared_download {s : Downloads K O P} (hreach : s.Reached) :
    (∀ (t t' : Nat) e e', s.entries[t]? = some e → s.entries[t']? = some e' → e.key = e'.key →
      e.isSettled = false → e'.isSettled = false → t = t') ∧
    (∀ (t : Nat) e, s.entries[t]? = some e → e.isSettled = false → e.aborted = true →
      ∀ (i : Nat) x, s.callers[i]? = some x → Joined x t → x.aborted = true) ∧
    (∀ a s', s.step a = some s' → ∀ (t : Nat) e', s'.entries[t]? = some e' → e'.aborted = true →
      (∃ e, s.entries[t]? = some e ∧ e.aborted = true) ∨ s.LastAborts a t) ∧
    (∀ (i : Nat) s', s.step (.abort i) = some s' →
      (∀ j : Nat, j ≠ i → s'.callers[j]? = s.callers[j]?) ∧
      ∃ x x', s.callers[i]? = some x ∧ s'.callers[i]? = some x' ∧ x'.aborted = true ∧
        match x.state with
        | .waiting _ => x'.state = .rejected none
        | .subscribed t => x'.state = .rejected (some t)
        | .rejected _ | .received _ _ => x'.state = x.state) ∧
    (∀ (i : Nat) x, s.callers[i]? = some x → x.aborted = false →
      (∀ t, x.state ≠ .rejected t) ∧
      (∀ t, x.state = .subscribed t →
        ∃ e, s.entries[t]? = some e ∧ e.key = x.key ∧ e.aborted = false) ∧
      (s.Quiescent → ∃ t o, x.state = .received t o)) ∧
    (∀ (i t : Nat) o s' x', s.step (.react i) = some s' → s'.callers[i]? = some x' →
      x'.state = .received t o →
        ∃ x e, s.callers[i]? = some x ∧ x.state = .subscribed t ∧ s.entries[t]? = some e ∧
          e.key = x.key ∧ e.aborted = false ∧ e.phase = .settled o) ∧
    ∀ k t, s.downloads k = some t →
      ∃ e, s.entries[t]? = some e ∧ e.key = k ∧ e.isSettled = false := by
  have h := hreach.sound
  refine ⟨?_, ?_, ?_, ?_, ?_, ?_, h.mapped⟩
  · intro t t' e e' ht ht' hkey hopen hopen'
    have hmap := h.live t e ht hopen
    rw [hkey, h.live t' e' ht' hopen'] at hmap
    exact (Option.some.inj hmap).symm
  · intro t e ht hopen habort i x hi hjoined
    exact h.joined_aborted ht hopen habort hi hjoined
  · intro a s' hstep t e' ht' habort
    exact newly_aborted h hstep ht' habort
  · intro i s' hstep
    exact abort_rejects hstep
  · intro i x hi hlive
    exact ⟨h.not_rejected hi hlive, fun t hstate => h.subscribed_live hi hstate,
      fun hquiet => h.answered hquiet hi hlive⟩
  · intro i t o s' x' hstep hi' hstate'
    exact receives h hstep hi' hstate'

/-- The first of two subscribers aborts, the second one gets the bytes; a third call is the
last one of its transfer and aborts it. -/
theorem shared_download_restarted : ∃ s : Downloads ℕ ℕ ℕ, s.Reached ∧ s.callers.length = 4 ∧
    s.entries.length = 3 ∧
    (∀ (t : Nat) e, s.entries[t]? = some e → e.isSettled = false → e.aborted = true →
      ∀ (i : Nat) x, s.callers[i]? = some x → Joined x t → x.aborted = true) ∧
    ∀ k t, s.downloads k = some t →
      ∃ e, s.entries[t]? = some e ∧ e.key = k ∧ e.isSettled = false := by
  have hrun : (replay step (fun _ _ => True) (empty : Downloads ℕ ℕ ℕ)
      [.share 5 false, .share 5 false, .start 0, .progress 0 1, .abort 0, .finish 0 7, .cleanUp 0,
        .react 1, .share 5 false, .start 1, .abort 2, .share 5 false, .finish 1 8, .cleanUp 1,
        .react 3, .start 2]).any
      (fun s => s.callers.length = 4 ∧ s.entries.length = 3) = true := by decide
  obtain ⟨s, hs, hlengths⟩ := (Option.any_eq_true _ _).mp hrun
  rw [decide_eq_true_eq] at hlengths
  have hreplay : Reachable (· = empty) (Steps step fun _ _ => True) s :=
    replay_reachable _ _ (.start rfl) hs
  have hreach : s.Reached := hreplay.mono (fun _ _ _ hstep => hstep.2)
  have hshared := shared_download hreach
  exact ⟨s, hreach, hlengths.1, hlengths.2, hshared.2.1, hshared.2.2.2.2.2.2⟩

end Downloads

end ZReader.Frontend
