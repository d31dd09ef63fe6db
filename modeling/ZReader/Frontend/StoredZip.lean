import ZReader.Lib.Crc32
import ZReader.Lib.Ecma

namespace ZReader.Frontend.StoredZip

open Lib.Utf8 Lib.Crc32 Lib.Ecma

/-! ## The checksum of the writer -/

/-- The body of the inner loop of `getCrcTable`. -/
def tableStep (crc : Int) : Int :=
  if bitAnd crc 1 ≠ 0 then bitXor 0xedb88320 (shiftRight crc 1) else shiftRight crc 1

def getCrcTable : List Nat := (List.range 256).map fun (index : Nat) => shiftRight (tableStep^[8] index) 0

def getCrc32 (bytes : Bytes) : Nat :=
  let table := getCrcTable
  let crc := bytes.foldl (fun (crc : Int) (byte : UInt8) =>
    bitXor (table.getD (bitAnd (bitXor crc byte.toNat) 0xff).toNat 0) (shiftRight crc 8)) 0xffffffff
  shiftRight (bitXor crc 0xffffffff) 0

theorem bitAnd_one (x : Int) : bitAnd x 1 ≠ 0 ↔ (toBits x).getLsbD 0 = true := by
  have hone : toBits x &&& toBits 1 = BitVec.setWidth 32 (BitVec.ofBool ((toBits x).getLsbD 0)) :=
    BitVec.and_one_eq_setWidth_ofBool_getLsbD
  rw [bitAnd, hone]
  cases (toBits x).getLsbD 0 <;> decide

theorem toBits_tableStep (crc : Int) : toBits (tableStep crc) = shift (toBits crc) := by
  rw [tableStep, shift]
  by_cases hbit : (toBits crc).getLsbD 0 = true
  · rw [if_pos ((bitAnd_one crc).mpr hbit), if_pos hbit, toBits_bitXor, toBits_shiftRight]
    rfl
  · rw [if_neg (fun h => hbit ((bitAnd_one crc).mp h)), if_neg hbit, toBits_shiftRight]

theorem toBits_tableSteps (n : Nat) (crc : Int) : toBits (tableStep^[n] crc) = shift^[n] (toBits crc) := by
  induction n generalizing crc with
  | zero => rfl
  | succ n ih => rw [Function.iterate_succ_apply, ih, toBits_tableStep, Function.iterate_succ_apply]

theorem bitAnd_byte (x : Int) : bitAnd x 0xff = (toBits x &&& 0xff#32).toNat := by
  have hlt : (toBits x &&& 0xff#32).toNat < 2 ^ 31 := by
    rw [BitVec.toNat_and]
    exact lt_of_le_of_lt Nat.and_le_right (by decide)
  have hmask : toBits 0xff = 0xff#32 := rfl
  rw [bitAnd, hmask]
  exact BitVec.toInt_eq_toNat_of_lt (by omega)

theorem getCrcTable_getD (x : Int) :
    toBits (getCrcTable.getD (bitAnd x 0xff).toNat 0) = shift^[8] (toBits x &&& 0xff#32) := by
  rw [bitAnd_byte, Int.toNat_natCast]
  have hlt : (toBits x &&& 0xff#32).toNat < 256 := by
    rw [BitVec.toNat_and]
    exact lt_of_le_of_lt Nat.and_le_right (by decide)
  have hget : getCrcTable[(toBits x &&& 0xff#32).toNat]? =
      some (shiftRight (tableStep^[8] ((toBits x &&& 0xff#32).toNat : Int)) 0) := by
    rw [getCrcTable, List.getElem?_map, List.getElem?_range hlt]
    rfl
  rw [List.getD_eq_getElem?_getD, hget, Option.getD_some, toBits_shiftRight, toBits_tableSteps,
    toBits_natCast, BitVec.ofNat_toNat, BitVec.setWidth_eq]
  exact BitVec.ushiftRight_zero _

/-- The writer computes the reflected CRC-32 of a byte string. -/
theorem getCrc32_eq (bytes : Bytes) : getCrc32 bytes = (crc32 bytes).toNat := by
  have hloop : ∀ (crc : Int) (c : BitVec 32), toBits crc = c →
      toBits (bytes.foldl (fun (crc : Int) (byte : UInt8) =>
        bitXor (getCrcTable.getD (bitAnd (bitXor crc byte.toNat) 0xff).toNat 0) (shiftRight crc 8)) crc) =
          bytes.foldl absorb c := by
    induction bytes with
    | nil => exact fun crc c h => h
    | cons byte bytes ih =>
        intro crc c h
        rw [List.foldl_cons, List.foldl_cons]
        apply ih
        rw [toBits_bitXor, getCrcTable_getD, toBits_bitXor, toBits_shiftRight, toBits_natCast, h, absorb_eq]
  have hstart := hloop 0xffffffff (BitVec.allOnes 32) (by decide)
  show shiftRight (bitXor _ 0xffffffff) 0 = _
  rw [shiftRight, toBits_bitXor, hstart, BitVec.ushiftRight_zero]
  rfl

/-! ## The writer -/

/-- `new Uint8Array(length)`. -/
def newArray (length : Nat) : Bytes := List.replicate length 0

/-- A store into a byte array keeps the low byte, and does nothing outside of it. -/
def store (bytes : Bytes) (offset : Nat) (value : Int) : Bytes := bytes.set offset (UInt8.ofInt value)

def setUint16 (bytes : Bytes) (offset value : Nat) : Bytes :=
  let bytes := store bytes offset (bitAnd value 0xff)
  store bytes (offset + 1) (bitAnd (shiftRight value 8) 0xff)

def setUint32 (bytes : Bytes) (offset value : Nat) : Bytes :=
  let bytes := store bytes offset (bitAnd value 0xff)
  let bytes := store bytes (offset + 1) (bitAnd (shiftRight value 8) 0xff)
  let bytes := store bytes (offset + 2) (bitAnd (shiftRight value 16) 0xff)
  store bytes (offset + 3) (bitAnd (shiftRight value 24) 0xff)

/-- `bytes.set(source, offset)`. -/
def setArray (bytes source : Bytes) (offset : Nat) : Bytes :=
  bytes.take offset ++ source ++ bytes.drop (offset + source.length)

structure Entry where
  path : Text
  blob : Bytes
  deriving DecidableEq

def localHeader (nameBytes dataBytes : Bytes) (crc : Nat) : Bytes :=
  let header := newArray (30 + nameBytes.length)
  let header := setUint32 header 0 0x04034b50
  let header := setUint16 header 4 20
  let header := setUint16 header 6 0x0800
  let header := setUint16 header 8 0
  let header := setUint16 header 10 0
  let header := setUint16 header 12 0
  let header := setUint32 header 14 crc
  let header := setUint32 header 18 dataBytes.length
  let header := setUint32 header 22 dataBytes.length
  let header := setUint16 header 26 nameBytes.length
  setArray header nameBytes 30

def centralDirectoryHeader (nameBytes dataBytes : Bytes) (crc offset : Nat) : Bytes :=
  let header := newArray (46 + nameBytes.length)
  let header := setUint32 header 0 0x02014b50
  let header := setUint16 header 4 20
  let header := setUint16 header 6 20
  let header := setUint16 header 8 0x0800
  let header := setUint16 header 10 0
  let header := setUint16 header 12 0
  let header := setUint16 header 14 0
  let header := setUint32 header 16 crc
  let header := setUint32 header 20 dataBytes.length
  let header := setUint32 header 24 dataBytes.length
  let header := setUint16 header 28 nameBytes.length
  let header := setUint32 header 42 offset
  setArray header nameBytes 46

/-- The variables of `createStoredZip`. -/
structure Writer where
  fileChunks : List Bytes
  centralDirectoryChunks : List Bytes
  offset : Nat

/-- The body of its loop. -/
def addEntry (w : Writer) (entry : Entry) : Writer :=
  let nameBytes := encode entry.path
  let dataBytes := entry.blob
  let crc := getCrc32 dataBytes
  let header := localHeader nameBytes dataBytes crc
  { fileChunks := w.fileChunks ++ [header, dataBytes]
    centralDirectoryChunks :=
      w.centralDirectoryChunks ++ [centralDirectoryHeader nameBytes dataBytes crc w.offset]
    offset := w.offset + (header.length + dataBytes.length) }

def endOfCentralDirectory (count centralDirectoryLength offset : Nat) : Bytes :=
  let record := newArray 22
  let record := setUint32 record 0 0x06054b50
  let record := setUint16 record 8 count
  let record := setUint16 record 10 count
  let record := setUint32 record 12 centralDirectoryLength
  setUint32 record 16 offset

def createStoredZip (entries : List Entry) : Bytes :=
  let w := entries.foldl addEntry ⟨[], [], 0⟩
  let centralDirectory := w.centralDirectoryChunks.flatten
  w.fileChunks.flatten ++ centralDirectory ++
    endOfCentralDirectory entries.length centralDirectory.length w.offset

/-! ## Little-endian fields -/

def le16 (v : Nat) : Bytes := [UInt8.ofNat v, UInt8.ofNat (v >>> 8)]

def le32 (v : Nat) : Bytes :=
  [UInt8.ofNat v, UInt8.ofNat (v >>> 8), UInt8.ofNat (v >>> 16), UInt8.ofNat (v >>> 24)]

theorem ofInt_bitAnd (n : Nat) (hn : n < 2 ^ 32) : UInt8.ofInt (bitAnd n 0xff) = UInt8.ofNat n := by
  rw [bitAnd_byte, toBits_natCast, BitVec.toNat_and, BitVec.toNat_ofNat, Nat.mod_eq_of_lt hn]
  have hmask : n &&& (0xff#32).toNat = n % 2 ^ 8 := Nat.and_two_pow_sub_one_eq_mod n 8
  rw [hmask]
  apply UInt8.toNat_inj.mp
  show (n % 2 ^ 8 % 2 ^ 8) % 2 ^ 8 = n % 2 ^ 8
  omega

theorem shiftRight_natCast {n : Nat} (hn : n < 2 ^ 32) (k : Nat) : shiftRight n k = n >>> k := by
  rw [shiftRight, toBits_natCast, BitVec.toNat_ushiftRight, BitVec.toNat_ofNat, Nat.mod_eq_of_lt hn]

theorem setUint16_eq (bytes : Bytes) (offset : Nat) {v : Nat} (hv : v < 2 ^ 32) :
    setUint16 bytes offset v =
      (bytes.set offset (UInt8.ofNat v)).set (offset + 1) (UInt8.ofNat (v >>> 8)) := by
  have hlt : ∀ k, v >>> k < 2 ^ 32 := fun k => (Nat.shiftRight_le v k).trans_lt hv
  simp only [setUint16, store, shiftRight_natCast hv, ofInt_bitAnd _ (hlt _), ofInt_bitAnd v hv]

theorem setUint32_eq (bytes : Bytes) (offset : Nat) {v : Nat} (hv : v < 2 ^ 32) :
    setUint32 bytes offset v =
      (((bytes.set offset (UInt8.ofNat v)).set (offset + 1) (UInt8.ofNat (v >>> 8))).set (offset + 2)
        (UInt8.ofNat (v >>> 16))).set (offset + 3) (UInt8.ofNat (v >>> 24)) := by
  have hlt : ∀ k, v >>> k < 2 ^ 32 := fun k => (Nat.shiftRight_le v k).trans_lt hv
  simp only [setUint32, store, shiftRight_natCast hv, ofInt_bitAnd _ (hlt _), ofInt_bitAnd v hv]

theorem newArray_add (n k : Nat) : newArray (n + k) = newArray n ++ newArray k :=
  List.replicate_add n k 0

/-- A name fills the end of a header. -/
theorem setArray_end (front : Bytes) {rest source : Bytes} (h : rest.length = source.length) :
    setArray (front ++ rest) source front.length = front ++ source := by
  have hdrop : (front ++ rest).drop (front.length + source.length) = [] := by
    rw [← h, ← List.length_append, List.drop_length]
  rw [setArray, List.take_left, hdrop, List.append_nil]

/-- Stores into the fields of a header, one after the other. -/
theorem setUint16_front (front rest : Bytes) {offset v : Nat} (hoffset : front.length = offset)
    (hv : v < 2 ^ 32) : setUint16 (front ++ (newArray 2 ++ rest)) offset v = front ++ le16 v ++ rest := by
  subst hoffset
  rw [setUint16_eq _ _ hv, List.append_assoc, List.set_append_right _ _ le_rfl,
    List.set_append_right _ _ (Nat.le_add_right _ _), Nat.sub_self, Nat.add_sub_cancel_left]
  rfl

theorem setUint32_front (front rest : Bytes) {offset v : Nat} (hoffset : front.length = offset)
    (hv : v < 2 ^ 32) : setUint32 (front ++ (newArray 4 ++ rest)) offset v = front ++ le32 v ++ rest := by
  subst hoffset
  rw [setUint32_eq _ _ hv, List.append_assoc, List.set_append_right _ _ le_rfl,
    List.set_append_right _ _ (Nat.le_add_right _ _), List.set_append_right _ _ (Nat.le_add_right _ _),
    List.set_append_right _ _ (Nat.le_add_right _ _), Nat.sub_self, Nat.add_sub_cancel_left,
    Nat.add_sub_cancel_left, Nat.add_sub_cancel_left]
  rfl

theorem localHeader_eq {nameBytes dataBytes : Bytes} {crc : Nat} (hname : nameBytes.length < 2 ^ 32)
    (hdata : dataBytes.length < 2 ^ 32) (hcrc : crc < 2 ^ 32) :
    localHeader nameBytes dataBytes crc =
      (le32 0x04034b50 ++ le16 20 ++ le16 0x0800 ++ le16 0 ++ le16 0 ++ le16 0 ++ le32 crc ++
        le32 dataBytes.length ++ le32 dataBytes.length ++ le16 nameBytes.length ++ newArray 2) ++
          nameBytes := by
  have hrest : (newArray nameBytes.length).length = nameBytes.length := List.length_replicate
  have hnew : newArray (30 + nameBytes.length) = [] ++ (newArray 4 ++ (newArray 2 ++ (newArray 2 ++
      (newArray 2 ++ (newArray 2 ++ (newArray 2 ++ (newArray 4 ++ (newArray 4 ++ (newArray 4 ++
        (newArray 2 ++ (newArray 2 ++ newArray nameBytes.length))))))))))) := by
    rw [newArray_add]
    rfl
  simp only [localHeader]
  rw [hnew, setUint32_front, setUint16_front, setUint16_front, setUint16_front, setUint16_front,
    setUint16_front, setUint32_front, setUint32_front, setUint32_front, setUint16_front,
    ← List.append_assoc]
  · exact setArray_end _ hrest
  all_goals first | rfl | assumption | decide

theorem centralDirectoryHeader_eq {nameBytes dataBytes : Bytes} {crc offset : Nat}
    (hname : nameBytes.length < 2 ^ 32) (hdata : dataBytes.length < 2 ^ 32) (hcrc : crc < 2 ^ 32)
    (hoffset : offset < 2 ^ 32) :
    centralDirectoryHeader nameBytes dataBytes crc offset =
      (le32 0x02014b50 ++ le16 20 ++ le16 20 ++ le16 0x0800 ++ le16 0 ++ le16 0 ++ le16 0 ++ le32 crc ++
        le32 dataBytes.length ++ le32 dataBytes.length ++ le16 nameBytes.length ++ newArray 12 ++
          le32 offset) ++ nameBytes := by
  have hrest : (newArray nameBytes.length).length = nameBytes.length := List.length_replicate
  have hnew : newArray (46 + nameBytes.length) = [] ++ (newArray 4 ++ (newArray 2 ++ (newArray 2 ++
      (newArray 2 ++ (newArray 2 ++ (newArray 2 ++ (newArray 2 ++ (newArray 4 ++ (newArray 4 ++
        (newArray 4 ++ (newArray 2 ++ (newArray 12 ++ (newArray 4 ++
          newArray nameBytes.length))))))))))))) := by
    rw [newArray_add]
    rfl
  simp only [centralDirectoryHeader]
  rw [hnew, setUint32_front, setUint16_front, setUint16_front, setUint16_front, setUint16_front,
    setUint16_front, setUint16_front, setUint32_front, setUint32_front, setUint32_front, setUint16_front,
    ← List.append_assoc _ (newArray 12), setUint32_front]
  · exact setArray_end _ hrest
  all_goals first | rfl | assumption | decide

theorem endOfCentralDirectory_eq {count length offset : Nat} (hcount : count < 2 ^ 32)
    (hlength : length < 2 ^ 32) (hoffset : offset < 2 ^ 32) :
    endOfCentralDirectory count length offset =
      le32 0x06054b50 ++ newArray 4 ++ le16 count ++ le16 count ++ le32 length ++ le32 offset ++
        newArray 2 := by
  have hnew : newArray 22 = [] ++ (newArray 4 ++ (newArray 4 ++ (newArray 2 ++ (newArray 2 ++
      (newArray 4 ++ (newArray 4 ++ newArray 2)))))) := rfl
  simp only [endOfCentralDirectory]
  rw [hnew, setUint32_front, ← List.append_assoc _ (newArray 4), setUint16_front, setUint16_front,
    setUint32_front, setUint32_front]
  all_goals first | rfl | assumption | decide

/-! ## A reader -/

def readUint16 (bytes : Bytes) (offset : Nat) : Nat :=
  (bytes.getD offset 0).toNat + 2 ^ 8 * (bytes.getD (offset + 1) 0).toNat

def readUint32 (bytes : Bytes) (offset : Nat) : Nat :=
  readUint16 bytes offset + 2 ^ 16 * readUint16 bytes (offset + 2)

def slice (bytes : Bytes) (offset length : Nat) : Bytes := (bytes.drop offset).take length

/-- The entry that a record of the central directory stands for. Both headers of the entry have
to agree, and the checksum has to be that of the data. -/
def readEntry (bytes record : Bytes) : Option Entry :=
  let header := bytes.drop (readUint32 record 42)
  let nameBytes := slice record 46 (readUint16 record 28)
  let dataBytes := slice header (30 + readUint16 header 26 + readUint16 header 28) (readUint32 record 24)
  if readUint32 record 0 = 0x02014b50 ∧ readUint32 header 0 = 0x04034b50 ∧
      readUint16 record 10 = 0 ∧ readUint16 header 8 = 0 ∧
      nameBytes.length = readUint16 record 28 ∧
      slice header 30 (readUint16 header 26) = nameBytes ∧
      readUint32 record 20 = readUint32 record 24 ∧ readUint32 header 18 = readUint32 record 24 ∧
      readUint32 header 22 = readUint32 record 24 ∧ dataBytes.length = readUint32 record 24 ∧
      readUint32 record 16 = (crc32 dataBytes).toNat ∧ readUint32 header 14 = readUint32 record 16 then
    some ⟨runes nameBytes, dataBytes⟩
  else none

/-- The entries of a central directory of so many records, to its last byte. -/
def readEntries (bytes : Bytes) : Nat → Bytes → Option (List Entry)
  | 0, directory => if directory = [] then some [] else none
  | count + 1, directory => do
      let entry ← readEntry bytes directory
      let length := 46 + readUint16 directory 28 + readUint16 directory 30 + readUint16 directory 32
      let entries ← readEntries bytes count (directory.drop length)
      some (entry :: entries)

/-- A reader of archives without a comment: the end record is the last thing in the file. -/
def readZip (bytes : Bytes) : Option (List Entry) :=
  let record := bytes.drop (bytes.length - 22)
  if readUint32 record 0 = 0x06054b50 ∧ record.length = 22 ∧ readUint16 record 8 = readUint16 record 10 ∧
      readUint32 record 16 + readUint32 record 12 + 22 = bytes.length then
    readEntries bytes (readUint16 record 10) (slice bytes (readUint32 record 16) (readUint32 record 12))
  else none

/-! ## Reading what was written -/

theorem le16_value {v : Nat} (hv : v < 2 ^ 16) :
    (UInt8.ofNat v).toNat + 2 ^ 8 * (UInt8.ofNat (v >>> 8)).toNat = v := by
  rw [UInt8.toNat_ofNat', UInt8.toNat_ofNat', Nat.shiftRight_eq_div_pow]
  omega

theorem le32_value {v : Nat} (hv : v < 2 ^ 32) :
    (UInt8.ofNat v).toNat + 2 ^ 8 * (UInt8.ofNat (v >>> 8)).toNat +
      2 ^ 16 * ((UInt8.ofNat (v >>> 16)).toNat + 2 ^ 8 * (UInt8.ofNat (v >>> 24)).toNat) = v := by
  simp only [UInt8.toNat_ofNat', Nat.shiftRight_eq_div_pow]
  omega

section Fields

variable {nameBytes dataBytes : Bytes} {crc offset : Nat}

/-- What the reader finds in a local header. -/
structure LocalFields (header nameBytes dataBytes : Bytes) (crc : Nat) : Prop where
  signature : readUint32 header 0 = 0x04034b50
  method : readUint16 header 8 = 0
  crc : readUint32 header 14 = crc
  compressed : readUint32 header 18 = dataBytes.length
  size : readUint32 header 22 = dataBytes.length
  nameLength : readUint16 header 26 = nameBytes.length
  extraLength : readUint16 header 28 = 0
  name : slice header 30 nameBytes.length = nameBytes
  data : slice header (30 + nameBytes.length) dataBytes.length = dataBytes

theorem localFields (hname : nameBytes.length < 2 ^ 16) (hdata : dataBytes.length < 2 ^ 32)
    (hcrc : crc < 2 ^ 32) (rest : Bytes) :
    LocalFields (localHeader nameBytes dataBytes crc ++ dataBytes ++ rest) nameBytes dataBytes crc := by
  rw [localHeader_eq (hname.trans (by decide)) hdata hcrc]
  simp only [le32, le16, newArray, List.replicate, List.cons_append, List.nil_append, List.append_assoc]
  exact {
    signature := le32_value (by decide)
    method := le16_value (by decide)
    crc := le32_value hcrc
    compressed := le32_value hdata
    size := le32_value hdata
    nameLength := le16_value hname
    extraLength := le16_value (by decide : 0 < 2 ^ 16)
    name := List.take_left
    data := by
      rw [slice, ← List.drop_drop]
      show ((nameBytes ++ (dataBytes ++ rest)).drop nameBytes.length).take dataBytes.length = dataBytes
      rw [List.drop_left, List.take_left] }

/-- What the reader finds in a record of the central directory. -/
structure CentralFields (record nameBytes dataBytes : Bytes) (crc offset : Nat) : Prop where
  signature : readUint32 record 0 = 0x02014b50
  method : readUint16 record 10 = 0
  crc : readUint32 record 16 = crc
  compressed : readUint32 record 20 = dataBytes.length
  size : readUint32 record 24 = dataBytes.length
  nameLength : readUint16 record 28 = nameBytes.length
  extraLength : readUint16 record 30 = 0
  commentLength : readUint16 record 32 = 0
  offset : readUint32 record 42 = offset
  name : slice record 46 nameBytes.length = nameBytes

theorem centralFields (hname : nameBytes.length < 2 ^ 16) (hdata : dataBytes.length < 2 ^ 32)
    (hcrc : crc < 2 ^ 32) (hoffset : offset < 2 ^ 32) (rest : Bytes) :
    CentralFields (centralDirectoryHeader nameBytes dataBytes crc offset ++ rest) nameBytes dataBytes crc
      offset := by
  rw [centralDirectoryHeader_eq (hname.trans (by decide)) hdata hcrc hoffset]
  simp only [le32, le16, newArray, List.replicate, List.cons_append, List.nil_append]
  exact {
    signature := le32_value (by decide)
    method := le16_value (by decide)
    crc := le32_value hcrc
    compressed := le32_value hdata
    size := le32_value hdata
    nameLength := le16_value hname
    extraLength := le16_value (by decide : 0 < 2 ^ 16)
    commentLength := le16_value (by decide : 0 < 2 ^ 16)
    offset := le32_value hoffset
    name := List.take_left }

/-- What the reader finds in the end record. -/
theorem endFields {count length offset : Nat} (hcount : count < 2 ^ 16) (hlength : length < 2 ^ 32)
    (hoffset : offset < 2 ^ 32) :
    readUint32 (endOfCentralDirectory count length offset) 0 = 0x06054b50 ∧
      readUint16 (endOfCentralDirectory count length offset) 8 = count ∧
      readUint16 (endOfCentralDirectory count length offset) 10 = count ∧
      readUint32 (endOfCentralDirectory count length offset) 12 = length ∧
      readUint32 (endOfCentralDirectory count length offset) 16 = offset := by
  rw [endOfCentralDirectory_eq (hcount.trans (by decide)) hlength hoffset]
  exact ⟨le32_value (by decide), le16_value hcount, le16_value hcount, le32_value hlength,
    le32_value hoffset⟩

theorem centralDirectoryHeader_length (hname : nameBytes.length < 2 ^ 16)
    (hdata : dataBytes.length < 2 ^ 32) (hcrc : crc < 2 ^ 32) (hoffset : offset < 2 ^ 32) :
    (centralDirectoryHeader nameBytes dataBytes crc offset).length = 46 + nameBytes.length := by
  rw [centralDirectoryHeader_eq (hname.trans (by decide)) hdata hcrc hoffset, List.length_append]
  rfl

end Fields

/-! ## The round trip -/

/-- The local headers and the data of the entries. -/
def files : List Entry → Bytes
  | [] => []
  | entry :: entries =>
      localHeader (encode entry.path) entry.blob (getCrc32 entry.blob) ++ entry.blob ++ files entries

/-- The central directory of entries whose local headers begin at an offset. -/
def directory (offset : Nat) : List Entry → Bytes
  | [] => []
  | entry :: entries =>
      let header := localHeader (encode entry.path) entry.blob (getCrc32 entry.blob)
      centralDirectoryHeader (encode entry.path) entry.blob (getCrc32 entry.blob) offset ++
        directory (offset + (header.length + entry.blob.length)) entries

theorem addEntries (entries : List Entry) (w : Writer) :
    (entries.foldl addEntry w).fileChunks.flatten = w.fileChunks.flatten ++ files entries ∧
      (entries.foldl addEntry w).centralDirectoryChunks.flatten =
        w.centralDirectoryChunks.flatten ++ directory w.offset entries ∧
      (entries.foldl addEntry w).offset = w.offset + (files entries).length := by
  induction entries generalizing w with
  | nil => simp [files, directory]
  | cons entry entries ih =>
      obtain ⟨hfiles, hdirectory, hoffset⟩ := ih (addEntry w entry)
      rw [List.foldl_cons, hfiles, hdirectory, hoffset]
      simp [addEntry, files, directory, Nat.add_assoc]

theorem createStoredZip_eq (entries : List Entry) :
    createStoredZip entries = files entries ++ directory 0 entries ++
      endOfCentralDirectory entries.length (directory 0 entries).length (files entries).length := by
  obtain ⟨hfiles, hdirectory, hoffset⟩ := addEntries entries ⟨[], [], 0⟩
  simp only [createStoredZip, hfiles, hdirectory, hoffset, List.flatten_nil, List.nil_append, Nat.zero_add]

theorem getCrc32_lt (bytes : Bytes) : getCrc32 bytes < 2 ^ 32 := by
  rw [getCrc32_eq]
  exact (crc32 bytes).isLt

/-- The reader finds an entry by its record. -/
theorem readEntry_written {entry : Entry} (hname : (encode entry.path).length < 2 ^ 16)
    (hdata : entry.blob.length < 2 ^ 32) {before : Bytes} (hoffset : before.length < 2 ^ 32)
    (after rest : Bytes) :
    readEntry (before ++ (localHeader (encode entry.path) entry.blob (getCrc32 entry.blob) ++ entry.blob ++
        after))
      (centralDirectoryHeader (encode entry.path) entry.blob (getCrc32 entry.blob) before.length ++ rest) =
        some entry := by
  have hcrc := getCrc32_lt entry.blob
  have hlocal := localFields hname hdata hcrc after
  have hcentral := centralFields hname hdata hcrc hoffset rest
  simp only [readEntry, hcentral.offset, List.drop_left, hcentral.nameLength, hcentral.name,
    hlocal.nameLength, hlocal.extraLength, Nat.add_zero, hcentral.size, hlocal.data, runes_encode]
  rw [if_pos]
  rw [← getCrc32_eq]
  exact ⟨hcentral.signature, hlocal.signature, hcentral.method, hlocal.method, trivial, hlocal.name,
    hcentral.compressed, hlocal.compressed, hlocal.size, trivial, hcentral.crc,
      hlocal.crc.trans hcentral.crc.symm⟩

theorem readEntries_written {entries : List Entry}
    (hnames : ∀ entry ∈ entries, (encode entry.path).length < 2 ^ 16) (before after : Bytes)
    (hsize : before.length + (files entries).length < 2 ^ 32) :
    readEntries (before ++ (files entries ++ after)) entries.length (directory before.length entries) =
      some entries := by
  induction entries generalizing before with
  | nil => rfl
  | cons entry entries ih =>
      have hname := hnames entry (by simp)
      have hcrc := getCrc32_lt entry.blob
      have hlength : (files (entry :: entries)).length =
          (localHeader (encode entry.path) entry.blob (getCrc32 entry.blob)).length + entry.blob.length +
            (files entries).length := by
        simp [files, Nat.add_assoc]
      have hdata : entry.blob.length < 2 ^ 32 := by omega
      have hoffset : before.length < 2 ^ 32 := by omega
      have hread := readEntry_written hname hdata hoffset (files entries ++ after)
        (directory (before.length + ((localHeader (encode entry.path) entry.blob
          (getCrc32 entry.blob)).length + entry.blob.length)) entries)
      have hfields := centralFields hname hdata hcrc hoffset (directory (before.length +
        ((localHeader (encode entry.path) entry.blob (getCrc32 entry.blob)).length +
          entry.blob.length)) entries)
      have hrecord := centralDirectoryHeader_length hname hdata hcrc hoffset
      have hbytes : before ++ (files (entry :: entries) ++ after) =
          before ++ (localHeader (encode entry.path) entry.blob (getCrc32 entry.blob) ++ entry.blob ++
            (files entries ++ after)) := by
        simp [files]
      have hnext := ih (fun e he => hnames e (List.mem_cons_of_mem entry he))
        (before ++ (localHeader (encode entry.path) entry.blob (getCrc32 entry.blob) ++ entry.blob))
        (by simp only [List.length_append]; omega)
      rw [List.append_assoc, List.length_append, List.length_append] at hnext
      simp only [hbytes, List.length_cons, readEntries, directory, hread, hfields.nameLength,
        hfields.extraLength, hfields.commentLength, Nat.add_zero, ← hrecord, List.drop_left, hnext]
      rfl

/-- The reader recovers what the writer was given, and the checksum is the reflected CRC-32. -/
theorem readZip_createStoredZip :
    (∀ entries : List Entry, entries.length < 65536 →
      (∀ entry ∈ entries, (encode entry.path).length < 65536) → (createStoredZip entries).length < 2 ^ 32 →
        readZip (createStoredZip entries) = some entries) ∧
      ∀ bytes, getCrc32 bytes = (crc32 bytes).toNat := by
  refine ⟨?_, getCrc32_eq⟩
  intro entries hcount hnames hsize
  have hwritten := createStoredZip_eq entries
  rw [hwritten, List.length_append, List.length_append] at hsize
  have hend := endOfCentralDirectory_eq (hcount.trans (by decide))
    (by omega : (directory 0 entries).length < 2 ^ 32) (by omega : (files entries).length < 2 ^ 32)
  have hlength : (endOfCentralDirectory entries.length (directory 0 entries).length
      (files entries).length).length = 22 := by
    rw [hend]
    rfl
  have hrecord : (createStoredZip entries).drop ((createStoredZip entries).length - 22) =
      endOfCentralDirectory entries.length (directory 0 entries).length (files entries).length := by
    rw [hwritten, List.length_append, hlength, Nat.add_sub_cancel, List.drop_left]
  have hread := readEntries_written hnames [] (directory 0 entries ++ endOfCentralDirectory entries.length
    (directory 0 entries).length (files entries).length) (by rw [List.length_nil]; omega)
  rw [List.nil_append, ← List.append_assoc, ← hwritten] at hread
  have hslice : slice (createStoredZip entries) (files entries).length (directory 0 entries).length =
      directory 0 entries := by
    rw [slice, hwritten, List.append_assoc, List.drop_left, List.take_left]
  obtain ⟨hsignature, hcount₁, hcount₂, hsize', hoffset⟩ := endFields hcount
    (by omega : (directory 0 entries).length < 2 ^ 32) (by omega : (files entries).length < 2 ^ 32)
  simp only [readZip, hrecord, hsignature, hlength, hcount₁, hcount₂, hsize', hoffset, hslice]
  rw [if_pos]
  · exact hread
  · refine ⟨trivial, trivial, trivial, ?_⟩
    rw [hwritten, List.length_append, List.length_append, hlength]

def twoFiles : List Entry := [⟨['a'], [1, 2, 3]⟩, ⟨['é', '/', 'b'], []⟩]

theorem readZip_twoFiles : readZip (createStoredZip twoFiles) = some twoFiles :=
  readZip_createStoredZip.1 twoFiles (by decide) (by decide) (by decide +kernel)

end ZReader.Frontend.StoredZip
