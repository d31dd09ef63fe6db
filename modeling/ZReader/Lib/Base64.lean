import ZReader.Lib.Utf8

namespace Lib.Base64

open Utf8

/-! ## Alphabets -/

/-- The characters for six bits that all alphabets share, and two of each alphabet's own. -/
def digit (plus slash : UInt8) (k : Nat) : UInt8 :=
  if k < 26 then .ofNat (65 + k)
  else if k < 52 then .ofNat (71 + k)
  else if k < 62 then .ofNat (k - 4)
  else if k = 62 then plus
  else slash

def standard : Nat → UInt8 := digit 43 47

def url : Nat → UInt8 := digit 45 95

/-- The place of a character in the standard alphabet. -/
def index (c : UInt8) : Option Nat := (List.range 64).find? fun k => standard k == c

def padding : UInt8 := 61

/-! ## Groups of six bits -/

def sextets : Bytes → List Nat
  | [] => []
  | [a] => [a.toNat / 4, a.toNat % 4 * 16]
  | [a, b] => [a.toNat / 4, a.toNat % 4 * 16 + b.toNat / 16, b.toNat % 16 * 4]
  | a :: b :: c :: rest =>
      a.toNat / 4 :: (a.toNat % 4 * 16 + b.toNat / 16) :: (b.toNat % 16 * 4 + c.toNat / 64) ::
        c.toNat % 64 :: sextets rest

/-- The bytes that groups of six bits make up. What is left over at the end is not looked at. -/
def assemble : List Nat → Option Bytes
  | [] => some []
  | [_] => none
  | [i, j] => some [.ofNat (i * 4 + j / 16)]
  | [i, j, k] => some [.ofNat (i * 4 + j / 16), .ofNat (j % 16 * 16 + k / 4)]
  | i :: j :: k :: l :: rest =>
      (assemble rest).map fun tail =>
        .ofNat (i * 4 + j / 16) :: .ofNat (j % 16 * 16 + k / 4) :: .ofNat (k % 4 * 64 + l) :: tail

theorem sextets_lt (b : Bytes) : ∀ k ∈ sextets b, k < 64 := by
  fun_induction sextets b with
  | case1 => simp
  | case2 a =>
      have := a.toNat_lt
      simp only [List.mem_cons, List.not_mem_nil, or_false, forall_eq_or_imp, forall_eq]
      omega
  | case3 a b =>
      have := a.toNat_lt
      have := b.toNat_lt
      simp only [List.mem_cons, List.not_mem_nil, or_false, forall_eq_or_imp, forall_eq]
      omega
  | case4 a b c rest ih =>
      have := a.toNat_lt
      have := b.toNat_lt
      have := c.toNat_lt
      simp only [List.mem_cons, forall_eq_or_imp]
      exact ⟨by omega, by omega, by omega, by omega, ih⟩

theorem ofNat_eq {a : UInt8} {n : Nat} (h : n = a.toNat) : UInt8.ofNat n = a := by
  rw [h, UInt8.ofNat_toNat]

theorem assemble_sextets (b : Bytes) : assemble (sextets b) = some b := by
  fun_induction sextets b with
  | case1 => rfl
  | case2 a =>
      have ha : UInt8.ofNat (a.toNat / 4 * 4 + a.toNat % 4 * 16 / 16) = a := ofNat_eq (by omega)
      simp only [assemble, ha]
  | case3 a b =>
      have := b.toNat_lt
      have ha : UInt8.ofNat (a.toNat / 4 * 4 + (a.toNat % 4 * 16 + b.toNat / 16) / 16) = a :=
        ofNat_eq (by omega)
      have hb : UInt8.ofNat ((a.toNat % 4 * 16 + b.toNat / 16) % 16 * 16 + b.toNat % 16 * 4 / 4) = b :=
        ofNat_eq (by omega)
      simp only [assemble, ha, hb]
  | case4 a b c rest ih =>
      have := b.toNat_lt
      have := c.toNat_lt
      have ha : UInt8.ofNat (a.toNat / 4 * 4 + (a.toNat % 4 * 16 + b.toNat / 16) / 16) = a :=
        ofNat_eq (by omega)
      have hb : UInt8.ofNat ((a.toNat % 4 * 16 + b.toNat / 16) % 16 * 16 +
          (b.toNat % 16 * 4 + c.toNat / 64) / 4) = b := ofNat_eq (by omega)
      have hc : UInt8.ofNat ((b.toNat % 16 * 4 + c.toNat / 64) % 4 * 64 + c.toNat % 64) = c :=
        ofNat_eq (by omega)
      simp only [assemble, ih, Option.map_some, ha, hb, hc]

/-! ## Encoding and decoding -/

/-- `RawURLEncoding.EncodeToString`: the URL alphabet without padding. -/
def encodeRawURL (b : Bytes) : Bytes := (sextets b).map url

def isNewline (c : UInt8) : Bool := c = 10 || c = 13

/-- Takes off at most two padding characters. -/
def unpad (s : Bytes) : Bytes :=
  match s.reverse with
  | c :: d :: rest =>
      if c = padding then if d = padding then rest.reverse else (d :: rest).reverse else s
  | _ => s

/-- `RawStdEncoding.DecodeString`. Line ends are ignored everywhere. -/
def decodeRawStd (s : Bytes) : Option Bytes :=
  ((s.filter fun c => !isNewline c).mapM index).bind assemble

/-- `StdEncoding.DecodeString`: the padding has to complete the last group of four. -/
def decodeStd (s : Bytes) : Option Bytes :=
  let digits := s.filter fun c => !isNewline c
  if digits.length % 4 ≠ 0 then none else ((unpad digits).mapM index).bind assemble

/-! ### A standard decoder and the URL alphabet -/

theorem url_spec : ∀ k < 64, (index (url k) = if k < 62 then some k else none) ∧
    isNewline (url k) = false ∧ url k ≠ padding ∧ url k ≠ 46 := by
  decide +kernel

theorem filter_encodeRawURL (b : Bytes) :
    (encodeRawURL b).filter (fun c => !isNewline c) = encodeRawURL b := by
  rw [List.filter_eq_self]
  intro c hc
  obtain ⟨k, hk, rfl⟩ := List.mem_map.mp hc
  rw [(url_spec k (sextets_lt b k hk)).2.1]
  rfl

theorem unpad_eq {s : Bytes} (h : padding ∉ s) : unpad s = s := by
  rw [unpad]
  split
  · next c d rest hs =>
    rw [if_neg]
    rintro rfl
    exact h (by rw [← List.mem_reverse, hs]; simp)
  · rfl

theorem padding_not_mem (b : Bytes) : padding ∉ encodeRawURL b := by
  intro hmem
  obtain ⟨k, hk, hurl⟩ := List.mem_map.mp hmem
  exact (url_spec k (sextets_lt b k hk)).2.2.1 hurl

theorem mapM_index {ks : List Nat} (hks : ∀ k ∈ ks, k < 64) :
    (ks.map url).mapM index = if ∀ k ∈ ks, k < 62 then some ks else none := by
  induction ks with
  | nil => rfl
  | cons k ks ih =>
      have hk := (url_spec k (hks k (by simp))).1
      have ih := ih fun n hn => hks n (List.mem_cons_of_mem k hn)
      rw [List.map_cons, List.mapM_cons, hk, ih]
      by_cases hlt : k < 62
      · by_cases hall : ∀ n ∈ ks, n < 62
        · rw [if_pos hlt, if_pos hall, if_pos (by simpa [hlt] using hall)]
          rfl
        · rw [if_pos hlt, if_neg hall, if_neg (by simpa [hlt] using hall)]
          rfl
      · have hsome : ¬ ∀ n ∈ k :: ks, n < 62 := fun hall => hlt (hall k (by simp))
        rw [if_neg hlt, if_neg hsome]
        rfl

theorem mapM_encodeRawURL (b : Bytes) : (encodeRawURL b).mapM index =
    if ∀ k ∈ sextets b, k < 62 then some (sextets b) else none := mapM_index (sextets_lt b)

/-- The standard decoder without padding reads what uses only the characters that the alphabets
share. -/
theorem decodeRawStd_encodeRawURL (b : Bytes) :
    decodeRawStd (encodeRawURL b) = if ∀ k ∈ sextets b, k < 62 then some b else none := by
  rw [decodeRawStd, filter_encodeRawURL, mapM_encodeRawURL]
  split
  · exact assemble_sextets b
  · rfl

/-- The decoder with padding does not read more. -/
theorem decodeStd_encodeRawURL (b : Bytes) : decodeStd (encodeRawURL b) = none ∨
    decodeStd (encodeRawURL b) = decodeRawStd (encodeRawURL b) := by
  simp only [decodeStd, decodeRawStd, filter_encodeRawURL, unpad_eq (padding_not_mem b)]
  split
  · exact .inl rfl
  · exact .inr rfl

end Lib.Base64
