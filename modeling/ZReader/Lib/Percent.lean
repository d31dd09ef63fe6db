import ZReader.Lib.Utf8

namespace Lib.Percent

open Utf8

/-! ## Escaping bytes -/

def hexDigits : List Char :=
  ['0', '1', '2', '3', '4', '5', '6', '7', '8', '9', 'A', 'B', 'C', 'D', 'E', 'F']

def hexDigit (n : Nat) : Char := hexDigits.getD n '0'

def hexValue? (c : Char) : Option Nat :=
  let i := hexDigits.idxOf c.toUpper
  if i < 16 then some i else none

def unreservedMarks : List Char := ['-', '_', '.', '!', '~', '*', '\'', '(', ')']

def unreserved (b : UInt8) : Bool :=
  let c := Char.ofNat b.toNat
  b < 128 && (c.isAlphanum || unreservedMarks.contains c)

def escape (b : UInt8) : List Char :=
  if unreserved b then [Char.ofNat b.toNat]
  else ['%', hexDigit (b.toNat / 16), hexDigit (b.toNat % 16)]

def unescape : List Char → Option Bytes
  | [] => some []
  | '%' :: h :: l :: rest =>
      match hexValue? h, hexValue? l, unescape rest with
      | some a, some b, some bytes => some (UInt8.ofNat (16 * a + b) :: bytes)
      | _, _, _ => none
  | c :: rest => if c = '%' then none else (unescape rest).map (String.utf8EncodeChar c ++ ·)

theorem escape_byte : ∀ b : Fin 256,
    if unreserved (UInt8.ofFin b) then
      Char.ofNat b ≠ '%' ∧ String.utf8EncodeChar (Char.ofNat b) = [UInt8.ofFin b]
    else
      hexValue? (hexDigit ((b : Nat) / 16)) = some ((b : Nat) / 16) ∧
        hexValue? (hexDigit ((b : Nat) % 16)) = some ((b : Nat) % 16) := by
  decide +kernel

theorem unescape_escape (b : UInt8) (rest : List Char) :
    unescape (escape b ++ rest) = (unescape rest).map (b :: ·) := by
  have hbyte := escape_byte b.toFin
  have hb : UInt8.ofFin b.toFin = b := rfl
  have hn : (b.toFin : Nat) = b.toNat := rfl
  rw [hb, hn] at hbyte
  unfold escape
  split at hbyte
  · next hu =>
    obtain ⟨hne, hcode⟩ := hbyte
    rw [if_pos hu, List.singleton_append, unescape.eq_3 _ _ (fun _ _ _ h _ => hne h), if_neg hne, hcode]
    rfl
  · next hu =>
    obtain ⟨hhigh, hlow⟩ := hbyte
    have hjoin : UInt8.ofNat (16 * (b.toNat / 16) + b.toNat % 16) = b := by
      rw [Nat.div_add_mod]
      exact UInt8.ofNat_toNat
    rw [if_neg hu, List.cons_append, List.cons_append, List.singleton_append, unescape, hhigh, hlow]
    cases unescape rest with
    | none => rfl
    | some bytes => simp only [Option.map_some, hjoin]

theorem unescape_flatMap_escape (b : Bytes) : unescape (b.flatMap escape) = some b := by
  induction b with
  | nil => rfl
  | cons x b ih => rw [List.flatMap_cons, unescape_escape, ih]; rfl

theorem unescape_of_no_percent {s : List Char} (h : '%' ∉ s) : unescape s = some (encode s) := by
  induction s with
  | nil => rfl
  | cons c s ih =>
      have hc : c ≠ '%' := fun he => h (he ▸ List.mem_cons_self)
      rw [unescape.eq_3 _ _ (fun _ _ _ he _ => hc he), if_neg hc,
        ih (fun hs => h (List.mem_cons_of_mem c hs))]
      rfl

/-! ## `encodeURIComponent` -/

def encodeURIComponent (s : List Char) : List Char := (encode s).flatMap escape

def decodeURIComponent (s : List Char) : Option (List Char) :=
  (unescape s).bind fun b => if encode (runes b) = b then some (runes b) else none

theorem unescape_encodeURIComponent (s : List Char) : unescape (encodeURIComponent s) = some (encode s) :=
  unescape_flatMap_escape (encode s)

theorem decodeURIComponent_encodeURIComponent (s : List Char) :
    decodeURIComponent (encodeURIComponent s) = some s := by
  simp [decodeURIComponent, unescape_encodeURIComponent, runes_encode]

theorem encodeURIComponent_injective : Function.Injective encodeURIComponent := by
  intro s t h
  have hd := congrArg decodeURIComponent h
  simpa [decodeURIComponent_encodeURIComponent] using hd

end Lib.Percent
