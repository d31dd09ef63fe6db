import ZReader.Lib.Base64
import ZReader.Lib.Json

namespace ZReader.Services.Token

open Lib.Utf8 Lib.Base64 Lib.Json

/-! ## The expiry of a token -/

inductive TokenError
  /-- "语音服务令牌格式无效" -/
  | format
  /-- "解析语音服务令牌失败" -/
  | decode
  /-- "读取语音服务令牌失败" -/
  | read
  deriving DecidableEq

def dot : UInt8 := 46

def expName : List Char := ['e', 'x', 'p']

/-- Members are matched with the field whatever the case of their letters. No other characters are
folded to these three letters. -/
def isExp (name : List Char) : Bool := name.map Char.toUpper = ['E', 'X', 'P']

/-- A number for an `int64` field. -/
def readInt64 : Value → Option Int
  | .number n =>
      if n.Plain ∧ -2 ^ 63 ≤ n.sign * n.whole ∧ n.sign * n.whole < 2 ^ 63 then some (n.sign * n.whole)
      else none
  | _ => none

/-- The field after one more member, and if a member did not fit. -/
def setExp (field : Int × Bool) (member : List Char × Value) : Int × Bool :=
  if isExp member.1 then
    match member.2 with
    | .null => field
    | v =>
        match readInt64 v with
        | some n => (n, field.2)
        | none => (field.1, true)
  else field

def maxNestingDepth : Nat := 10000

/-- `json.Unmarshal` into a record with the one field `exp`. -/
def unmarshal (data : Bytes) : Option Int :=
  match parse (runes data) with
  | none => none
  | some v =>
      if depth v > maxNestingDepth then none
      else
        match v with
        | .null => some 0
        | .object members =>
            let field := members.foldl setExp (0, false)
            if field.2 then none else some field.1
        | _ => none

def parseJWTExp (token : Bytes) : Except TokenError Int :=
  match token.splitOn dot with
  | [_, payload, _] =>
      match (decodeStd payload).orElse fun _ => decodeRawStd payload with
      | none => .error .decode
      | some decoded =>
          match unmarshal decoded with
          | none => .error .read
          | some exp => .ok exp
  | _ => .error .format

/-! ## What is read from a token -/

/-- The token with a payload. -/
def token (header : Bytes) (payload : List Char) (signature : Bytes) : Bytes :=
  header ++ dot :: (encodeRawURL (encode payload) ++ dot :: signature)

/-- The encoding uses none of the two characters in which the alphabets differ. -/
def Shared (payload : List Char) : Prop := ∀ k ∈ sextets (encode payload), k < 62

instance (payload : List Char) : Decidable (Shared payload) :=
  inferInstanceAs (Decidable (∀ k ∈ _, _))

theorem dot_not_mem (b : Bytes) : dot ∉ encodeRawURL b := by
  intro hmem
  obtain ⟨k, hk, hurl⟩ := List.mem_map.mp hmem
  exact (url_spec k (sextets_lt b k hk)).2.2.2 hurl

theorem parseJWTExp_token {header signature : Bytes} (hheader : dot ∉ header)
    (hsignature : dot ∉ signature) (payload : List Char) :
    parseJWTExp (token header payload signature) =
      if Shared payload then
        match unmarshal (encode payload) with
        | none => .error .read
        | some exp => .ok exp
      else .error .decode := by
  have hsplit : (token header payload signature).splitOn dot =
      [header, encodeRawURL (encode payload), signature] := by
    rw [token, List.splitOn_append_cons_self_of_not_mem hheader,
      List.splitOn_append_cons_self_of_not_mem (dot_not_mem _), List.splitOn_eq_singleton hsignature]
  have hdecode : ((decodeStd (encodeRawURL (encode payload))).orElse fun _ =>
      decodeRawStd (encodeRawURL (encode payload))) =
        if Shared payload then some (encode payload) else none := by
    have hraw := decodeRawStd_encodeRawURL (encode payload)
    obtain hnone | hsame := decodeStd_encodeRawURL (encode payload)
    · rw [hnone]
      exact hraw
    · rw [hsame, hraw]
      change _ = if (∀ k ∈ sextets (encode payload), k < 62) then _ else _
      split <;> rfl
  rw [parseJWTExp, hsplit]
  simp only [hdecode]
  split_ifs <;> rfl

/-! ### The members of the payload -/

/-- The members that the field takes its value from. -/
def candidates (members : List (List Char × Value)) : List Value :=
  (members.filter fun m => isExp m.1).map Prod.snd

/-- A value that the field takes or leaves alone. -/
def Fits (v : Value) : Prop := v = .null ∨ ∃ n, readInt64 v = some n

theorem setExp_candidate (field : Int × Bool) {m : List Char × Value} (h : isExp m.1 = true) :
    ((setExp field m).2 = false ↔ field.2 = false ∧ Fits m.2) ∧
      (setExp field m).1 = (readInt64 m.2).getD field.1 := by
  rw [setExp, if_pos h]
  obtain ⟨name, v⟩ := m
  by_cases hnull : v = .null
  · subst hnull
    exact ⟨by simp [Fits], rfl⟩
  · simp only [Fits, hnull, false_or]
    cases readInt64 v with
    | some n => exact ⟨by simp, rfl⟩
    | none => exact ⟨by simp, rfl⟩

/-- The field holds the last number, and nothing went wrong if each candidate fits. -/
theorem foldl_setExp (members : List (List Char × Value)) (field : Int × Bool) :
    ((members.foldl setExp field).2 = false ↔ field.2 = false ∧ ∀ v ∈ candidates members, Fits v) ∧
      (members.foldl setExp field).1 =
        ((candidates members).filterMap readInt64).getLast?.getD field.1 := by
  induction members generalizing field with
  | nil => simp [candidates]
  | cons m members ih =>
      obtain ⟨hbad, hexp⟩ := ih (setExp field m)
      rw [List.foldl_cons, hbad, hexp]
      by_cases hname : isExp m.1 = true
      · have hcandidates : candidates (m :: members) = m.2 :: candidates members := by
          simp [candidates, hname]
        obtain ⟨hfits, hvalue⟩ := setExp_candidate field hname
        rw [hcandidates, hfits, hvalue, List.forall_mem_cons, and_assoc]
        refine ⟨Iff.rfl, ?_⟩
        rw [List.filterMap_cons]
        cases readInt64 m.2 with
        | none => rfl
        | some n =>
            rw [List.getLast?_cons]
            rfl
      · have hcandidates : candidates (m :: members) = candidates members := by
          simp [candidates, hname]
        rw [hcandidates, setExp, if_neg hname]
        exact ⟨Iff.rfl, rfl⟩

/-- No other member that is matched with the field spoils the number: each fits, and the last of
those that come later has no other number. -/
def Unrivalled (exp : Int) (earlier later : List (List Char × Value)) : Prop :=
  (∀ v ∈ candidates (earlier ++ later), Fits v) ∧
    ∀ n, ((candidates later).filterMap readInt64).getLast? = some n → n = exp

theorem candidates_append (a b : List (List Char × Value)) :
    candidates (a ++ b) = candidates a ++ candidates b := by
  simp [candidates]

theorem unmarshal_object {payload : List Char} {members : List (List Char × Value)}
    (hpayload : parse payload = some (.object members)) (exp : Int) :
    unmarshal (encode payload) = some exp ↔
      depth (.object members) ≤ maxNestingDepth ∧ (∀ v ∈ candidates members, Fits v) ∧
        ((candidates members).filterMap readInt64).getLast?.getD 0 = exp := by
  obtain ⟨hbad, hexp⟩ := foldl_setExp members (0, false)
  rw [unmarshal, runes_encode, hpayload]
  simp only [gt_iff_lt, ← not_le, ite_not, ← hexp]
  by_cases hdepth : depth (.object members) ≤ maxNestingDepth
  · rw [if_pos hdepth]
    by_cases hfits : (members.foldl setExp (0, false)).2 = false
    · have hall := (hbad.mp hfits).2
      simp only [hfits, Bool.false_eq_true, if_false, Option.some.injEq]
      exact ⟨fun h => ⟨hdepth, hall, h⟩, fun h => h.2.2⟩
    · simp only [Bool.not_eq_false] at hfits
      simp only [hfits, if_true, reduceCtorEq, false_iff]
      rintro ⟨-, hall, -⟩
      exact absurd (hbad.mpr ⟨rfl, hall⟩) (by simp [hfits])
  · simp [hdepth]

/-- The expiry of a token is read exactly when its encoding stays within the characters that the
alphabets share, the number is written without fraction and exponent, no member whose name differs
in the case of letters gets in its way, and the reader goes deep enough. -/
theorem parseJWTExp_iff {header signature : Bytes} (hheader : dot ∉ header)
    (hsignature : dot ∉ signature) {payload : List Char} {earlier later : List (List Char × Value)}
    {n : Number} (hpayload : parse payload =
      some (.object (earlier ++ (expName, .number n) :: later)))
    {exp : Int} (hvalue : n.value = exp) (hrange : -2 ^ 63 ≤ exp ∧ exp < 2 ^ 63) :
    parseJWTExp (token header payload signature) = .ok exp ↔
      Shared payload ∧ n.Plain ∧ Unrivalled exp earlier later ∧
        depth (.object (earlier ++ (expName, .number n) :: later)) ≤ maxNestingDepth := by
  have hname : candidates (earlier ++ (expName, .number n) :: later) =
      candidates earlier ++ .number n :: candidates later := by
    have hexp : isExp expName = true := by decide
    have hcons : candidates ((expName, .number n) :: later) = .number n :: candidates later := by
      rw [candidates, List.filter_cons, if_pos hexp]
      rfl
    rw [candidates_append, hcons]
  have hplain : n.Plain → readInt64 (.number n) = some exp := by
    intro hplain
    rw [Number.value_plain hplain] at hvalue
    have hexp : n.sign * n.whole = exp := by exact_mod_cast hvalue
    rw [readInt64, if_pos ⟨hplain, by rw [hexp]; exact hrange⟩, hexp]
  have hfits : Fits (.number n) ↔ n.Plain := by
    constructor
    · rintro (hnull | ⟨k, hk⟩)
      · cases hnull
      · by_contra hnot
        rw [readInt64, if_neg (fun h => hnot h.1)] at hk
        cases hk
    · exact fun h => .inr ⟨exp, hplain h⟩
  have hread : parseJWTExp (token header payload signature) = .ok exp ↔
      Shared payload ∧ unmarshal (encode payload) = some exp := by
    rw [parseJWTExp_token hheader hsignature]
    by_cases hshared : Shared payload
    · rw [if_pos hshared]
      cases unmarshal (encode payload) <;> simp [hshared]
    · simp [hshared]
  rw [hread, unmarshal_object hpayload, hname, Unrivalled, candidates_append, List.forall_mem_append,
    List.forall_mem_cons, List.forall_mem_append, hfits]
  constructor
  · rintro ⟨hshared, hdepth, ⟨hbefore, hplain', hafter⟩, hlast⟩
    refine ⟨hshared, hplain', ⟨⟨hbefore, hafter⟩, ?_⟩, hdepth⟩
    intro k hk
    rw [List.filterMap_append, List.filterMap_cons, hplain hplain'] at hlast
    simp only [List.getLast?_append, List.getLast?_cons, hk] at hlast
    simpa using hlast
  · rintro ⟨hshared, hplain', ⟨⟨hbefore, hafter⟩, hlater⟩, hdepth⟩
    refine ⟨hshared, hdepth, ⟨hbefore, hplain', hafter⟩, ?_⟩
    rw [List.filterMap_append, List.filterMap_cons, hplain hplain']
    simp only [List.getLast?_append, List.getLast?_cons]
    cases hk : ((candidates later).filterMap readInt64).getLast? with
    | none => simp
    | some k => simp [hlater k hk]

/-- `"exp":5,"n":"a?"` in braces. -/
def plainPayload : List Char :=
  ['\x7b', '"', 'e', 'x', 'p', '"', ':', '5', ',', '"', 'n', '"', ':', '"', 'a', '?', '"', '\x7d']

theorem parseJWTExp_plainPayload : parseJWTExp (token [101, 51, 48] plainPayload [99, 50]) = .ok 5 := by
  have hparse : parse plainPayload = some (.object
      ([] ++ (expName, .number ⟨false, 5, none, none⟩) :: [(['n'], .string ['a', '?'])])) := rfl
  apply (parseJWTExp_iff (by decide) (by decide) hparse (by norm_num [Number.value, Number.sign])
    (by decide)).mpr
  refine ⟨by decide, by decide, ⟨?_, ?_⟩, by decide⟩
  · simp [candidates, isExp]
  · simp [candidates, isExp]

/-- The same with a question mark in the third place of a group, which the URL alphabet writes as
an underscore. -/
def urlPayload : List Char :=
  ['\x7b', '"', 'e', 'x', 'p', '"', ':', '5', ',', '"', 'a', '"', ':', '"', '?', '"', '\x7d']

theorem urlPayload_rejected :
    parse urlPayload =
        some (.object ([] ++ (expName, .number ⟨false, 5, none, none⟩) :: [(['a'], .string ['?'])])) ∧
      (⟨false, 5, none, none⟩ : Number).value = (5 : Int) ∧
      parseJWTExp (token [101, 51, 48] urlPayload [99, 50]) = .error .decode := by
  refine ⟨rfl, by norm_num [Number.value, Number.sign], ?_⟩
  rw [parseJWTExp_token (by decide) (by decide), if_neg (by decide)]

end ZReader.Services.Token
