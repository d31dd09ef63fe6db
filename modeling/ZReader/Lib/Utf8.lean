import Mathlib

namespace Lib.Utf8

abbrev Bytes := List UInt8

instance : LawfulBEq Bytes := inferInstance

def encode (cs : List Char) : Bytes := cs.flatMap String.utf8EncodeChar

def decodeRune? (b : Bytes) : Option Char := b.toByteArray.utf8DecodeChar? 0

/-- The rune sequence of a byte string, each rune with the bytes it was read
from. A byte that starts no valid encoding is read alone as U+FFFD; the counter
skips the continuation bytes of the rune just read. -/
def segmentsFrom : Nat → Bytes → List (Char × Bytes)
  | _, [] => []
  | 0, b :: bs => match decodeRune? (b :: bs) with
    | some c => (c, (b :: bs).take c.utf8Size) :: segmentsFrom (c.utf8Size - 1) bs
    | none => ('\uFFFD', [b]) :: segmentsFrom 0 bs
  | k + 1, _ :: bs => segmentsFrom k bs

def segments (b : Bytes) : List (Char × Bytes) := segmentsFrom 0 b

def runes (b : Bytes) : List Char := (segments b).map Prod.fst

def raw (l : List (Char × Bytes)) : Bytes := l.flatMap Prod.snd

@[simp] theorem encode_nil : encode [] = [] := rfl

@[simp] theorem encode_cons (c : Char) (cs : List Char) :
    encode (c :: cs) = String.utf8EncodeChar c ++ encode cs := rfl

@[simp] theorem encode_append (as bs : List Char) : encode (as ++ bs) = encode as ++ encode bs := by
  simp [encode]

theorem decodeRune?_append (c : Char) (b : Bytes) :
    decodeRune? (String.utf8EncodeChar c ++ b) = some c := by
  rw [decodeRune?, List.toByteArray_append]
  exact ByteArray.utf8DecodeChar?_utf8EncodeChar_append

theorem segmentsFrom_length (a b : Bytes) : segmentsFrom a.length (a ++ b) = segmentsFrom 0 b := by
  induction a with
  | nil => rfl
  | cons x a ih => simpa [segmentsFrom] using ih

theorem segments_append (c : Char) (b : Bytes) :
    segments (String.utf8EncodeChar c ++ b) = (c, String.utf8EncodeChar c) :: segments b := by
  have hlen := String.length_utf8EncodeChar c
  have hdec := decodeRune?_append c b
  cases he : String.utf8EncodeChar c with
  | nil =>
      rw [he] at hlen
      exact absurd hlen.symm (Nat.pos_iff_ne_zero.mp c.utf8Size_pos)
  | cons x xs =>
      rw [he] at hlen hdec
      have htake : (x :: (xs ++ b)).take c.utf8Size = x :: xs := by
        rw [← hlen, ← List.cons_append, List.take_left]
      have hskip : c.utf8Size - 1 = xs.length := by simp [← hlen]
      simp only [List.cons_append] at hdec ⊢
      rw [segments, segmentsFrom, hdec]
      simp only [htake, hskip, segmentsFrom_length, segments]

theorem segments_of_decodeRune?_none {b : UInt8} {bs : Bytes} (h : decodeRune? (b :: bs) = none) :
    segments (b :: bs) = ('\uFFFD', [b]) :: segments bs := by
  rw [segments, segmentsFrom, h]
  rfl

theorem exists_of_decodeRune?_some {b : Bytes} {c : Char} (h : decodeRune? b = some c) :
    ∃ t, b = String.utf8EncodeChar c ++ t := by
  obtain ⟨l, hl⟩ := ByteArray.exists_of_utf8DecodeChar?_eq_some h
  refine ⟨l.data.toList, ?_⟩
  have hdata := congrArg (fun a : ByteArray => a.data.toList) hl
  simpa using hdata

/-- The first segment of a byte string, and what follows it. -/
theorem segments_eq_cons {s : Bytes} {x : Char × Bytes} {l : List (Char × Bytes)}
    (h : segments s = x :: l) :
    ∃ t, s = x.2 ++ t ∧ segments t = l ∧
      (x.2 = String.utf8EncodeChar x.1 ∨ decodeRune? s = none ∧ ∃ b, x = ('\uFFFD', [b])) := by
  cases s with
  | nil => simp [segments, segmentsFrom] at h
  | cons b bs =>
      cases hd : decodeRune? (b :: bs) with
      | none =>
          rw [segments_of_decodeRune?_none hd, List.cons.injEq] at h
          obtain ⟨rfl, rfl⟩ := h
          exact ⟨bs, rfl, rfl, Or.inr ⟨rfl, b, rfl⟩⟩
      | some c =>
          obtain ⟨t, ht⟩ := exists_of_decodeRune?_some hd
          rw [ht, segments_append, List.cons.injEq] at h
          obtain ⟨rfl, rfl⟩ := h
          exact ⟨t, ht, rfl, Or.inl rfl⟩

theorem raw_segments (s : Bytes) : raw (segments s) = s := by
  generalize hl : segments s = l
  induction l generalizing s with
  | nil =>
      cases s with
      | nil => rfl
      | cons b bs =>
          rw [segments, segmentsFrom] at hl
          split at hl <;> cases hl
  | cons x l ih =>
      obtain ⟨t, rfl, ht, -⟩ := segments_eq_cons hl
      simpa [raw] using ih t ht

theorem segments_raw_of_suffix {s : Bytes} {pre suf : List (Char × Bytes)}
    (h : segments s = pre ++ suf) : segments (raw suf) = suf := by
  induction pre generalizing s with
  | nil => rw [← List.nil_append suf, ← h, raw_segments]
  | cons x pre ih =>
      obtain ⟨t, -, ht, -⟩ := segments_eq_cons h
      exact ih ht

/-- Cutting a byte string off after a segment does not change the segments before. -/
theorem segments_raw_of_front {s : Bytes} {front suf : List (Char × Bytes)}
    (h : segments s = front ++ suf) : segments (raw front) = front := by
  induction front generalizing s with
  | nil => rfl
  | cons x front ih =>
      obtain ⟨t, hs, ht, hx⟩ := segments_eq_cons h
      have hraw : raw (x :: front) = x.2 ++ raw front := rfl
      rcases hx with hx | ⟨hd, b, rfl⟩
      · obtain ⟨c, e⟩ := x
        simp only at hx hraw
        subst hx
        rw [hraw, segments_append, ih ht]
      · have hnone : decodeRune? (b :: raw front) = none := by
          cases hc : decodeRune? (b :: raw front) with
          | none => rfl
          | some c =>
              obtain ⟨u, hu⟩ := exists_of_decodeRune?_some hc
              have hsplit : s = String.utf8EncodeChar c ++ (u ++ raw suf) := by
                have htail : t = raw front ++ raw suf := by
                  rw [← raw_segments t, ht]
                  simp [raw]
                rw [hs, htail, ← List.append_assoc (String.utf8EncodeChar c), ← hu]
                rfl
              rw [hsplit, decodeRune?_append] at hd
              simp at hd
        rw [hraw, List.singleton_append, segments_of_decodeRune?_none hnone, ih ht]

theorem segments_encode (cs : List Char) :
    segments (encode cs) = cs.map (fun c => (c, String.utf8EncodeChar c)) := by
  induction cs with
  | nil => rfl
  | cons c cs ih => rw [encode_cons, segments_append, ih, List.map_cons]

theorem runes_encode (cs : List Char) : runes (encode cs) = cs := by
  simp [runes, segments_encode, Function.comp_def]

theorem raw_map_encode (cs : List Char) :
    raw (cs.map (fun c => (c, String.utf8EncodeChar c))) = encode cs := by
  simp [raw, encode, List.flatMap_map]

theorem encode_injective : Function.Injective encode :=
  Function.LeftInverse.injective runes_encode

theorem encode_isPrefix {as bs : List Char} (h : encode as <+: encode bs) : as <+: bs := by
  induction as generalizing bs with
  | nil => exact List.nil_prefix
  | cons a as ih =>
      obtain ⟨t, ht⟩ := h
      have hb : segments (encode bs) = (a, String.utf8EncodeChar a) :: segments (encode as ++ t) := by
        rw [← ht, encode_cons, List.append_assoc, segments_append]
      cases bs with
      | nil => simp [segments, segmentsFrom] at hb
      | cons b bs =>
          rw [segments_encode, List.map_cons, List.cons.injEq, Prod.mk.injEq] at hb
          obtain ⟨⟨rfl, -⟩, -⟩ := hb
          rw [encode_cons, encode_cons, List.append_assoc, List.append_cancel_left_eq] at ht
          exact List.cons_prefix_cons.mpr ⟨rfl, ih ⟨t, ht⟩⟩

/-- Only the first byte of an encoded rune can start an encoding. -/
theorem utf8EncodeChar_interior {c : Char} {pre suf : Bytes} {b : UInt8}
    (h : String.utf8EncodeChar c = pre ++ b :: suf) (hb : b.IsUTF8FirstByte) : pre = [] := by
  have hi : pre.length < (String.utf8EncodeChar c).length := by simp [h]
  have hg : (String.utf8EncodeChar c)[pre.length] = b := by simp [h]
  rw [← hg] at hb
  exact List.length_eq_zero_iff.mp (UInt8.isUTF8FirstByte_getElem_utf8EncodeChar.mp hb)

theorem encode_head (c : Char) (cs : List Char) :
    ∃ b t, encode (c :: cs) = b :: t ∧ b.IsUTF8FirstByte := by
  have hpos : 0 < (String.utf8EncodeChar c).length := by simp [c.utf8Size_pos]
  have hb : (String.utf8EncodeChar c)[0].IsUTF8FirstByte ↔ 0 = 0 :=
    UInt8.isUTF8FirstByte_getElem_utf8EncodeChar
  cases he : String.utf8EncodeChar c with
  | nil => simp [he] at hpos
  | cons b t =>
      refine ⟨b, t ++ encode cs, by simp [he], ?_⟩
      simpa [he] using hb

/-- UTF-8 is self-synchronising: a byte occurrence of one encoded text inside
another starts at a rune boundary, so it is an occurrence of runes. -/
theorem encode_infix {as bs : List Char} (h : encode as <:+: encode bs) : as <:+: bs := by
  cases as with
  | nil => exact List.nil_infix
  | cons a as =>
      induction bs with
      | nil =>
          obtain ⟨b, t, he, -⟩ := encode_head a as
          rw [encode_nil, List.infix_nil, he] at h
          simp at h
      | cons c bs ih =>
          obtain ⟨s, t, hst⟩ := h
          rw [encode_cons c bs, List.append_assoc, List.append_eq_append_iff] at hst
          obtain ⟨u, hu, hrest⟩ | ⟨u, hu, hrest⟩ := hst
          · cases u with
            | nil =>
                exact (ih ⟨[], t, by simpa using hrest⟩).trans (List.suffix_cons c bs).isInfix
            | cons x u =>
                -- The occurrence starts inside the first rune, hence at its first byte.
                obtain ⟨b, t', he, hb⟩ := encode_head a as
                have hx : b = x := by
                  rw [he, List.cons_append, List.cons_append, List.cons.injEq] at hrest
                  exact hrest.1
                have hs : s = [] := utf8EncodeChar_interior hu (hx ▸ hb)
                have hp : encode (a :: as) <+: encode (c :: bs) :=
                  ⟨t, by rw [hrest, encode_cons c bs, hu, hs, List.nil_append]⟩
                exact (encode_isPrefix hp).isInfix
          · exact (ih ⟨u, t, by rw [hrest, List.append_assoc]⟩).trans (List.suffix_cons c bs).isInfix

end Lib.Utf8
