import ZReader.Lib.Strings

namespace Lib.Strings

open Utf8 Unicode

/-! ## Simple case folding -/

/-- The lower-case forms that stand for the letters with several lower-case forms. -/
def foldExceptions : List (Nat × Nat) :=
  [(181, 956), (383, 115), (837, 953), (962, 963), (976, 946), (977, 952), (981, 966), (982, 960),
   (1008, 954), (1009, 961), (1013, 949), (7296, 1074), (7297, 1076), (7298, 1086), (7299, 1089),
   (7300, 1090), (7301, 1090), (7302, 1098), (7303, 1123), (7304, 42571), (7835, 7777), (8126, 953)]

/-- The letter that stands for the runes which `unicode.SimpleFold` runs through from the given
one. The capital I with a dot has a lower-case form, but folds to nothing else. -/
def foldRune (c : Char) : Char :=
  if c = 'İ' then c
  else
    match foldExceptions.lookup c.toNat with
    | some n => Char.ofNat n
    | none => toLowerRune c

/-- `strings.EqualFold`. -/
def equalFold (s t : Bytes) : Bool := (runes s).map foldRune = (runes t).map foldRune

/-! ## A separator in a byte string -/

section Separator

variable {sep : Char} {b : UInt8}

theorem isUTF8FirstByte_of_encode (hb : String.utf8EncodeChar sep = [b]) : b.IsUTF8FirstByte := by
  obtain ⟨x, t, he, hx⟩ := encode_head sep []
  rw [encode_cons, hb] at he
  cases he
  exact hx

/-- A rune of one byte is read as itself wherever it stands. -/
theorem segments_append_sep (hb : String.utf8EncodeChar sep = [b]) (a rest : Bytes) :
    segments (a ++ b :: rest) = segments a ++ (sep, [b]) :: segments rest := by
  generalize hl : segments a = l
  induction l generalizing a with
  | nil =>
      have ha : a = [] := by
        rw [← raw_segments a, hl]
        rfl
      have hsep := segments_append sep rest
      rw [hb] at hsep
      simpa [ha] using hsep
  | cons x l ih =>
      obtain ⟨t, hat, ht, hx⟩ := segments_eq_cons hl
      rcases hx with hx | ⟨hnone, y, rfl⟩
      · obtain ⟨c, e⟩ := x
        simp only at hx hat
        subst hx
        rw [hat, List.append_assoc, segments_append, ih t ht, List.cons_append]
      · -- the separator completes no encoding that has begun before it
        have hnone' : decodeRune? (a ++ b :: rest) = none := by
          cases hc : decodeRune? (a ++ b :: rest) with
          | none => rfl
          | some c =>
              obtain ⟨u, hu⟩ := exists_of_decodeRune?_some hc
              have hstart (v : Bytes) (hv : a = String.utf8EncodeChar c ++ v) : False := by
                rw [hv, decodeRune?_append] at hnone
                cases hnone
              rcases List.append_eq_append_iff.mp hu with ⟨v, hv, hrest⟩ | ⟨v, hv, -⟩
              · cases v with
                | nil => exact (hstart [] (by simpa using hv.symm)).elim
                | cons z v =>
                    obtain ⟨rfl, -⟩ := List.cons.inj hrest
                    have hempty := utf8EncodeChar_interior hv (isUTF8FirstByte_of_encode hb)
                    simp [hat] at hempty
              · exact (hstart v hv).elim
        have hcons : a ++ b :: rest = y :: (t ++ b :: rest) := by rw [hat]; rfl
        rw [hcons] at hnone' ⊢
        rw [segments_of_decodeRune?_none hnone', ih t ht, List.cons_append]

theorem runes_append_sep (hb : String.utf8EncodeChar sep = [b]) (a rest : Bytes) :
    runes (a ++ b :: rest) = runes a ++ sep :: runes rest := by
  simp [runes, segments_append_sep hb]

theorem mem_segments {s : Bytes} {x : Char × Bytes} (h : x ∈ segments s) :
    x.2 = String.utf8EncodeChar x.1 ∨ x.1 = '\uFFFD' := by
  generalize hl : segments s = l at h
  induction l generalizing s with
  | nil => cases h
  | cons y l ih =>
      obtain ⟨t, -, ht, hy⟩ := segments_eq_cons hl
      rcases List.mem_cons.mp h with rfl | h
      · rcases hy with hy | ⟨-, z, rfl⟩
        · exact .inl hy
        · exact .inr rfl
      · exact ih ht h

theorem mem_runes_sep (hb : String.utf8EncodeChar sep = [b]) (hsep : sep ≠ '\uFFFD') {s : Bytes} :
    sep ∈ runes s ↔ b ∈ s := by
  constructor
  · intro h
    obtain ⟨x, hx, rfl⟩ := List.mem_map.mp h
    have henc := (mem_segments hx).resolve_right hsep
    rw [← raw_segments s, raw, List.mem_flatMap]
    exact ⟨x, hx, by rw [henc, hb]; simp⟩
  · intro h
    obtain ⟨a, rest, rfl⟩ := List.append_of_mem h
    rw [runes_append_sep hb]
    simp

end Separator

/-! ## Slashes and case -/

def slash : UInt8 := 47

theorem encode_slash : String.utf8EncodeChar '/' = [slash] := rfl

theorem mem_runes_slash {s : Bytes} : '/' ∈ runes s ↔ slash ∈ s :=
  mem_runes_sep encode_slash (by decide)

theorem lowerRanges_above_slash : (lowerRanges.all fun r => Nat.blt 65 (r.target + 1)) = true := by
  decide +kernel

/-- No other rune has the slash as its lower-case form. -/
theorem toLowerRune_eq_slash {c : Char} : toLowerRune c = '/' ↔ c = '/' := by
  constructor
  · intro h
    have hcode : lowerCode c.toNat = 47 := by
      have hn := congrArg Char.toNat h
      rw [toLowerRune, Char.toNat_ofNat, if_pos (lowerCode_valid c)] at hn
      exact hn
    rw [lowerCode] at hcode
    split at hcode
    · next r hr =>
      have hall := List.all_eq_true.mp lowerRanges_above_slash r (List.mem_of_find?_eq_some hr)
      rw [Nat.blt_eq] at hall
      omega
    · exact Char.toNat_inj.mp hcode
  · rintro rfl
    rfl

theorem foldExceptions_no_slash :
    (foldExceptions.all fun p => decide (Char.ofNat p.2 ≠ '/')) = true := rfl

theorem foldRune_eq_slash {c : Char} : foldRune c = '/' ↔ c = '/' := by
  constructor
  · intro h
    rw [foldRune] at h
    split at h
    · exact h
    · split at h
      · next n hn =>
        obtain ⟨before, after, hl, -⟩ := List.lookup_eq_some_iff.mp hn
        have hmem : (c.toNat, n) ∈ foldExceptions := by
          rw [hl]
          exact List.mem_append_right before (List.mem_cons_self)
        have hall := List.all_eq_true.mp foldExceptions_no_slash _ hmem
        exact absurd h (of_decide_eq_true hall)
      · exact toLowerRune_eq_slash.mp h
  · rintro rfl
    rfl

theorem runes_toLower (s : Bytes) : runes (toLower s) = (runes s).map toLowerRune := by
  rw [toLower, runes_encode]

theorem slash_mem_toLower {s : Bytes} : slash ∈ toLower s ↔ slash ∈ s := by
  rw [← mem_runes_slash, ← mem_runes_slash, runes_toLower, List.mem_map]
  constructor
  · rintro ⟨c, hc, he⟩
    rwa [toLowerRune_eq_slash.mp he] at hc
  · intro h
    exact ⟨'/', h, toLowerRune_eq_slash.mpr rfl⟩

theorem toLower_append_slash (a rest : Bytes) :
    toLower (a ++ slash :: rest) = toLower a ++ slash :: toLower rest := by
  rw [toLower, runes_append_sep encode_slash, List.map_append, List.map_cons,
    toLowerRune_eq_slash.mpr rfl, encode_append, encode_cons, encode_slash]
  rfl

theorem equalFold_iff {s t : Bytes} :
    equalFold s t = true ↔ (runes s).map foldRune = (runes t).map foldRune := by
  simp [equalFold]

theorem equalFold_append_slash {s t : Bytes} (h : equalFold s t = true) :
    equalFold (s ++ [slash]) (t ++ [slash]) = true := by
  rw [equalFold_iff] at h ⊢
  rw [runes_append_sep encode_slash, runes_append_sep encode_slash, List.map_append,
    List.map_append, h]

/-- What equals a path component and its slash is such a component and a slash. -/
theorem equalFold_slash_eq {s t : Bytes} (ht : slash ∉ t)
    (h : equalFold s (t ++ [slash]) = true) :
    ∃ u, s = u ++ [slash] ∧ slash ∉ u ∧ equalFold u t = true := by
  rw [equalFold_iff, runes_append_sep encode_slash, List.map_append, runes, List.map_map] at h
  obtain ⟨front, last, hseg, hfront, hlast⟩ := List.map_eq_append_iff.mp h
  have hslash : foldRune '/' = '/' := foldRune_eq_slash.mpr rfl
  obtain ⟨x, rest, rfl, hx, hrest⟩ := List.map_eq_cons_iff.mp hlast
  have hnil : rest = [] := by simpa [runes, segments, segmentsFrom] using hrest
  subst hnil
  simp only [Function.comp_apply, hslash] at hx
  have hx1 : x.1 = '/' := foldRune_eq_slash.mp hx
  have hx2 : x.2 = [slash] := by
    have hmem : x ∈ segments s := by rw [hseg]; simp
    have hne : x.1 ≠ '\uFFFD' := by rw [hx1]; decide
    rw [(mem_segments hmem).resolve_right hne, hx1, encode_slash]
  have hfold : (runes (raw front)).map foldRune = (runes t).map foldRune := by
    rw [runes, segments_raw_of_front hseg, List.map_map]
    exact hfront
  refine ⟨raw front, ?_, ?_, equalFold_iff.mpr hfold⟩
  · rw [← raw_segments s, hseg]
    simp [raw, hx2]
  · intro hmem
    have himage : '/' ∈ (runes t).map foldRune := by
      rw [← hfold, List.mem_map]
      exact ⟨'/', mem_runes_slash.mpr hmem, hslash⟩
    obtain ⟨c, hc, he⟩ := List.mem_map.mp himage
    rw [foldRune_eq_slash.mp he] at hc
    exact ht (mem_runes_slash.mp hc)

end Lib.Strings
