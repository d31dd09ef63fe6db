import ZReader.Lib.CaseFolding
import ZReader.Lib.Integers
import ZReader.Storage.Records

namespace ZReader.Handlers.Epub

open Lib.Utf8 Lib.Strings Lib.Integers Storage

/-! ## ZIP entries -/

/-- Where the reading or the writing of an entry fails. A copy that fails has moved `after`
bytes by then. -/
inductive EntryFault
  | opening
  | creating
  | copying (after : ℕ)
  | closing
  deriving DecidableEq

structure ZipEntry where
  name : Bytes
  method : UInt16
  /-- The declared size. -/
  uncompressedSize64 : UInt64
  /-- What decompression yields, of whatever size. -/
  content : Bytes
  fault : Option EntryFault
  deriving DecidableEq

structure WrittenEntry where
  name : Bytes
  method : UInt16
  data : Bytes
  deriving DecidableEq

inductive EpubError
  | tooManyFiles
  | tooLarge
  | io
  deriving DecidableEq

/-- The texts of the errors that the handlers make themselves. -/
def EpubError.message : EpubError → Option String
  | .tooManyFiles => some "EPUB 包含过多文件"
  | .tooLarge => some "EPUB 解压后的内容超过大小限制"
  | .io => none

def maxEPUBArchiveEntries : ℕ := 10000

def maxEPUBExpandedBytes : Int := 512 * 1024 * 1024

/-- `strings.HasSuffix(name, "/")`. -/
def isDirectory (name : Bytes) : Bool := [slash].isSuffixOf name

/-! ## The declared sizes -/

def declaredSizes (limit : UInt64) : List ZipEntry → UInt64 → Except EpubError Unit
  | [], _ => .ok ()
  | entry :: rest, total =>
      if isDirectory entry.name then declaredSizes limit rest total
      else if limit < entry.uncompressedSize64 ∨ limit - entry.uncompressedSize64 < total then
        .error .tooLarge
      else declaredSizes limit rest (total + entry.uncompressedSize64)

def validateEPUBArchive (entries : List ZipEntry) (maxExpandedBytes : Int) :
    Except EpubError Unit :=
  let maxExpandedBytes := if maxExpandedBytes ≤ 0 then maxEPUBExpandedBytes else maxExpandedBytes
  if maxEPUBArchiveEntries < entries.length then .error .tooManyFiles
  else declaredSizes (UInt64.ofInt maxExpandedBytes) entries 0

def maxEPUBExpansionLimit (uploadLimit : Int) : Int :=
  if 0 < uploadLimit ∧ uploadLimit < maxEPUBExpandedBytes / 4 then int64 (uploadLimit * 4)
  else maxEPUBExpandedBytes

/-! ## The package folder -/

/-- `strings.TrimLeft(s, "/")`. -/
def trimLeftSlashes (s : Bytes) : Bytes := s.dropWhile (· = slash)

/-- The root that one entry names, when it is the type or the container of a package. -/
def rootOf (name : Bytes) : Option Bytes :=
  match (toLower (trimLeftSlashes name)).splitOn slash with
  | [] => none
  | first :: rest =>
      if rest = [] ∨ (ascii ".epub").isSuffixOf first = false then none
      else
        let stripped := join [slash] rest
        if stripped = ascii "mimetype" ∨ stripped = ascii "meta-inf/container.xml" then
          some (first ++ [slash])
        else none

def epubPackageRoot (entries : List ZipEntry) : Option Bytes :=
  match (entries.filterMap fun entry => rootOf entry.name).dedup with
  | [root] => some root
  | _ => none

def stripEPUBPackageRoot (name root : Bytes) : Option Bytes :=
  let trimmed := trimLeftSlashes name
  if trimmed.length < root.length ∨ equalFold (trimmed.take root.length) root = false then none
  else some (trimLeftSlashes (trimmed.drop root.length))

/-- The name under which an entry is copied, unless it is passed over. -/
def normalizedName (root name : Bytes) : Option Bytes :=
  match stripEPUBPackageRoot name root with
  | none => none
  | some normalized =>
      if normalized = [] ∨ isDirectory normalized then none
      else if (ascii "../").isPrefixOf normalized ∨ ascii "/../" <:+: normalized then none
      else some normalized

/-! ## Writing the archive -/

/-- `zip.Store`. -/
def store : UInt16 := 0

/-- `io.Copy` from a limited reader: what arrives, and whether it ends without an error. -/
def copyLimited (entry : ZipEntry) (limit : Int) : Bytes × Bool :=
  match entry.fault with
  | some (.copying after) =>
      let readable := entry.content.take after
      (readable.take limit.toNat, limit ≤ readable.length)
  | _ => (entry.content.take limit.toNat, true)

structure Outcome where
  /-- What the archive holds, also when it was given up. -/
  written : List WrittenEntry
  err : Option EpubError

/-- The loop over the entries. -/
def copyEntries (root : Bytes) (maxExpandedBytes : Int) :
    List ZipEntry → Int → List WrittenEntry → Outcome
  | [], _, written => ⟨written, none⟩
  | entry :: rest, copiedBytes, written =>
      match normalizedName root entry.name with
      | none => copyEntries root maxExpandedBytes rest copiedBytes written
      | some name =>
          let method := if name = ascii "mimetype" then store else entry.method
          if entry.fault = some .opening ∨ entry.fault = some .creating then ⟨written, some .io⟩
          else
            let remaining := int64 (maxExpandedBytes - copiedBytes)
            if remaining < 0 then ⟨written ++ [⟨name, method, []⟩], some .tooLarge⟩
            else
              let copied := copyLimited entry (int64 (remaining + 1))
              let written := written ++ [⟨name, method, copied.1⟩]
              if copied.2 = false then ⟨written, some .io⟩
              else if remaining < copied.1.length then ⟨written, some .tooLarge⟩
              else if entry.fault = some .closing then ⟨written, some .io⟩
              else
                copyEntries root maxExpandedBytes rest
                  (int64 (copiedBytes + copied.1.length)) written

/-- What goes wrong with the archive as a whole. -/
structure ArchiveFaults where
  create : Bool
  finish : Bool

def writeNormalizedEPUBZip (entries : List ZipEntry) (root : Bytes) (maxExpandedBytes : Int)
    (faults : ArchiveFaults) : Outcome :=
  if faults.create then ⟨[], some .io⟩
  else
    let outcome := copyEntries root maxExpandedBytes entries 0 []
    if outcome.err = none ∧ faults.finish then { outcome with err := some .io } else outcome

/-! ## The declared sizes are summed without a wrap -/

def declaredTotal (entries : List ZipEntry) : ℕ :=
  ((entries.filter fun entry => !isDirectory entry.name).map
    fun entry => entry.uncompressedSize64.toNat).sum

theorem declaredTotal_cons (entry : ZipEntry) (rest : List ZipEntry) :
    declaredTotal (entry :: rest) =
      (if isDirectory entry.name then 0 else entry.uncompressedSize64.toNat) +
        declaredTotal rest := by
  by_cases hd : isDirectory entry.name <;> simp [declaredTotal, hd]

theorem declaredSizes_ok (limit : UInt64) (entries : List ZipEntry) (total : UInt64)
    (h : total ≤ limit) :
    declaredSizes limit entries total = .ok () ↔
      total.toNat + declaredTotal entries ≤ limit.toNat := by
  induction entries generalizing total with
  | nil => simpa [declaredSizes, declaredTotal] using UInt64.le_iff_toNat_le.mp h
  | cons entry rest ih =>
      rw [declaredSizes, declaredTotal_cons]
      by_cases hd : isDirectory entry.name
      · rw [if_pos hd, if_pos hd, ih total h, Nat.zero_add]
      · rw [if_neg hd, if_neg hd]
        have hle := UInt64.le_iff_toNat_le.mp h
        by_cases hentry : entry.uncompressedSize64 ≤ limit
        · -- the difference is taken only where it is one of natural numbers
          have hsub := UInt64.toNat_sub_of_le _ _ hentry
          have hentry' := UInt64.le_iff_toNat_le.mp hentry
          by_cases hroom : total ≤ limit - entry.uncompressedSize64
          · have hroom' := UInt64.le_iff_toNat_le.mp hroom
            have hadd : (total + entry.uncompressedSize64).toNat =
                total.toNat + entry.uncompressedSize64.toNat := by
              rw [UInt64.toNat_add, Nat.mod_eq_of_lt]
              have := limit.toNat_lt
              omega
            have hnext : total + entry.uncompressedSize64 ≤ limit := by
              rw [UInt64.le_iff_toNat_le, hadd]
              omega
            rw [if_neg (by simp [hentry, hroom]), ih _ hnext, hadd]
            omega
          · have hroom' := UInt64.lt_iff_toNat_lt.mp (UInt64.not_le.mp hroom)
            rw [if_pos (Or.inr (UInt64.not_le.mp hroom))]
            simp only [reduceCtorEq, false_iff]
            omega
        · have hentry' := UInt64.lt_iff_toNat_lt.mp (UInt64.not_le.mp hentry)
          rw [if_pos (Or.inl (UInt64.not_le.mp hentry))]
          simp only [reduceCtorEq, false_iff]
          omega

theorem toNat_ofInt {x : Int} (h₀ : 0 ≤ x) (h₁ : x < 2 ^ 64) :
    (UInt64.ofInt x).toNat = x.toNat := by
  have hsize : x.toNat < UInt64.size := by
    rw [UInt64.size]
    omega
  rw [UInt64.ofInt, Int.emod_eq_of_lt h₀ h₁]
  exact UInt64.toNat_ofNat_of_lt' hsize

theorem validateEPUBArchive_ok {maxExpandedBytes : Int} (h₀ : 0 < maxExpandedBytes)
    (h₁ : maxExpandedBytes < 2 ^ 63) (entries : List ZipEntry) :
    validateEPUBArchive entries maxExpandedBytes = .ok () ↔
      entries.length ≤ maxEPUBArchiveEntries ∧
        (declaredTotal entries : Int) ≤ maxExpandedBytes := by
  have hlimit := toNat_ofInt h₀.le (h₁.trans (by norm_num))
  have hsizes := declaredSizes_ok (UInt64.ofInt maxExpandedBytes) entries 0
    (UInt64.le_iff_toNat_le.mpr (Nat.zero_le _))
  rw [hlimit, UInt64.toNat_zero, Nat.zero_add] at hsizes
  rw [validateEPUBArchive, if_neg (Int.not_le.mpr h₀)]
  by_cases hcount : maxEPUBArchiveEntries < entries.length
  · simp only [hcount, if_true, reduceCtorEq, false_iff]
    omega
  · rw [if_neg hcount, hsizes]
    omega

theorem maxEPUBExpansionLimit_eq (uploadLimit : Int) :
    maxEPUBExpansionLimit uploadLimit =
      if 0 < uploadLimit ∧ uploadLimit < maxEPUBExpandedBytes / 4 then uploadLimit * 4
      else maxEPUBExpandedBytes := by
  rw [maxEPUBExpansionLimit]
  split
  · next h =>
    rw [maxEPUBExpandedBytes] at h
    exact int64_eq_self (by omega) (by omega)
  · rfl

/-! ## The bytes that are copied -/

def writtenTotal (written : List WrittenEntry) : ℕ := (written.map fun w => w.data.length).sum

/-- The entries that are copied. -/
def copiedOf (root : Bytes) (entries : List ZipEntry) : List ZipEntry :=
  entries.filter fun entry => (normalizedName root entry.name).isSome

def realTotal (entries : List ZipEntry) : ℕ := (entries.map fun e => e.content.length).sum

/-- An entry of the new archive, when its copy is complete. -/
def copyOf (root : Bytes) (entry : ZipEntry) : Option WrittenEntry :=
  (normalizedName root entry.name).map fun name =>
    ⟨name, if name = ascii "mimetype" then store else entry.method, entry.content⟩

theorem writtenTotal_concat (written : List WrittenEntry) (w : WrittenEntry) :
    writtenTotal (written ++ [w]) = writtenTotal written + w.data.length := by
  simp [writtenTotal]

theorem copyLimited_length (entry : ZipEntry) (limit : Int) :
    (copyLimited entry limit).1.length ≤ limit.toNat := by
  rw [copyLimited]
  split <;> exact List.length_take_le _ _

/-- A copy that ends by itself below the limit is complete. -/
theorem copyLimited_complete {entry : ZipEntry} {limit : Int}
    (hok : (copyLimited entry limit).2 = true)
    (hlt : ((copyLimited entry limit).1.length : Int) < limit) :
    (copyLimited entry limit).1 = entry.content := by
  revert hok hlt
  rw [copyLimited]
  split
  · intro hok hlt
    simp only [decide_eq_true_eq, List.length_take] at hok hlt
    omega
  · intro _ hlt
    simp only [List.length_take] at hlt
    exact List.take_of_length_le (by omega)

theorem copyLimited_faultless {entry : ZipEntry} (h : entry.fault = none) {limit : Int}
    (hlt : (entry.content.length : Int) < limit) :
    copyLimited entry limit = (entry.content, true) := by
  rw [copyLimited, h]
  simp only [Prod.mk.injEq, and_true]
  exact List.take_of_length_le (by omega)

section Copying

variable {root : Bytes} {L : Int} (hL₀ : 0 ≤ L) (hL : L < 2 ^ 63 - 1)

include hL₀ hL

/-- What one entry adds below a limit that is still open. -/
theorem copyLimited_remaining {copiedBytes : Int} (h₀ : 0 ≤ copiedBytes) (h₁ : copiedBytes ≤ L) :
    int64 (L - copiedBytes) = L - copiedBytes ∧
      int64 (L - copiedBytes + 1) = L - copiedBytes + 1 :=
  ⟨int64_eq_self (by omega) (by omega), int64_eq_self (by omega) (by omega)⟩

theorem copyEntries_total {entries : List ZipEntry} {copiedBytes : Int}
    {written : List WrittenEntry} (h₁ : copiedBytes ≤ L)
    (hw : (writtenTotal written : Int) = copiedBytes) :
    (writtenTotal (copyEntries root L entries copiedBytes written).written : Int) ≤ L + 1 := by
  induction entries generalizing copiedBytes written with
  | nil =>
      simp only [copyEntries]
      omega
  | cons entry rest ih =>
      have h₀ : 0 ≤ copiedBytes := hw ▸ Int.natCast_nonneg _
      obtain ⟨hremaining, hlimit⟩ := copyLimited_remaining hL₀ hL h₀ h₁
      rw [copyEntries]
      split
      · exact ih h₁ hw
      · next name hname =>
        simp only [hremaining, hlimit]
        have hlen := copyLimited_length entry (L - copiedBytes + 1)
        generalize copyLimited entry (L - copiedBytes + 1) = copied at hlen
        have hmore : ∀ method, (writtenTotal (written ++ [⟨name, method, copied.1⟩]) : Int) =
            copiedBytes + copied.1.length := by
          intro method
          rw [writtenTotal_concat, Nat.cast_add, hw]
        split
        · simp only
          omega
        · rw [if_neg (by omega)]
          split
          · rw [hmore]; omega
          · split
            · rw [hmore]; omega
            · next hfit =>
              split
              · rw [hmore]; omega
              · rw [int64_eq_self (by omega) (by omega)]
                exact ih (by omega) (hmore _)

theorem copyEntries_ok {entries : List ZipEntry} {copiedBytes : Int}
    {written : List WrittenEntry} (h₀ : 0 ≤ copiedBytes) (h₁ : copiedBytes ≤ L)
    (hok : (copyEntries root L entries copiedBytes written).err = none) :
    copiedBytes + realTotal (copiedOf root entries) ≤ L ∧
      (copyEntries root L entries copiedBytes written).written =
        written ++ entries.filterMap (copyOf root) := by
  induction entries generalizing copiedBytes written with
  | nil => simpa [copyEntries, copiedOf, realTotal] using h₁
  | cons entry rest ih =>
      obtain ⟨hremaining, hlimit⟩ := copyLimited_remaining hL₀ hL h₀ h₁
      rw [copyEntries] at hok ⊢
      cases hname : normalizedName root entry.name with
      | none =>
          simp only [hname] at hok ⊢
          have hrest := ih h₀ h₁ hok
          simpa [copiedOf, copyOf, hname] using hrest
      | some name =>
          simp only [hname, hremaining, hlimit] at hok ⊢
          split at hok
          · simp at hok
          · rename_i hopen
            rw [if_neg (by omega)] at hok
            split at hok
            · simp at hok
            · rename_i hread
              split at hok
              · simp at hok
              · rename_i hfit
                split at hok
                · simp at hok
                · rename_i hclose
                  rw [if_neg hopen, if_neg (by omega), if_neg hread, if_neg hfit, if_neg hclose]
                  have hall := (copyLimited_complete (by simpa using hread) (by omega) :
                    (copyLimited entry (L - copiedBytes + 1)).1 = entry.content)
                  rw [hall] at hok hfit ⊢
                  rw [int64_eq_self (by omega) (by omega)] at hok ⊢
                  obtain ⟨htotal, hwritten⟩ := ih (by omega) (by omega) hok
                  constructor
                  · have hcons : realTotal (copiedOf root (entry :: rest)) =
                        entry.content.length + realTotal (copiedOf root rest) := by
                      simp [copiedOf, realTotal, hname]
                    rw [hcons]
                    omega
                  · rw [hwritten, List.filterMap_cons, copyOf, hname]
                    simp

theorem copyEntries_succeeds {entries : List ZipEntry} {copiedBytes : Int}
    {written : List WrittenEntry} (hfault : ∀ entry ∈ entries, entry.fault = none)
    (h₀ : 0 ≤ copiedBytes) (h₁ : copiedBytes + realTotal (copiedOf root entries) ≤ L) :
    (copyEntries root L entries copiedBytes written).err = none := by
  induction entries generalizing copiedBytes written with
  | nil => rw [copyEntries]
  | cons entry rest ih =>
      have hrest : ∀ e ∈ rest, e.fault = none := fun e he => hfault e (List.mem_cons_of_mem _ he)
      have hentry : entry.fault = none := hfault entry List.mem_cons_self
      rw [copyEntries]
      cases hname : normalizedName root entry.name with
      | none =>
          have heq : copiedOf root (entry :: rest) = copiedOf root rest := by simp [copiedOf, hname]
          rw [heq] at h₁
          exact ih hrest h₀ h₁
      | some name =>
          have heq : realTotal (copiedOf root (entry :: rest)) =
              entry.content.length + realTotal (copiedOf root rest) := by
            simp [copiedOf, realTotal, hname]
          rw [heq] at h₁
          obtain ⟨hremaining, hlimit⟩ := copyLimited_remaining hL₀ hL h₀ (by omega)
          have hcopy : copyLimited entry (L - copiedBytes + 1) = (entry.content, true) :=
            copyLimited_faultless hentry (by omega)
          simp only [hremaining, hlimit, hcopy, hentry]
          rw [if_neg (by simp), if_neg (by omega), if_neg (by simp), if_neg (by omega),
            if_neg (by simp), int64_eq_self (by omega) (by omega)]
          exact ih hrest (by omega) (by omega)

theorem writeNormalizedEPUBZip_ok {entries : List ZipEntry} {faults : ArchiveFaults}
    (hok : (writeNormalizedEPUBZip entries root L faults).err = none) :
    realTotal (copiedOf root entries) ≤ L ∧
      (writeNormalizedEPUBZip entries root L faults).written =
        entries.filterMap (copyOf root) := by
  rw [writeNormalizedEPUBZip] at hok ⊢
  split at hok
  · simp at hok
  · rename_i hcreate
    simp only at hok
    split at hok
    · simp at hok
    · rename_i hfinish
      obtain ⟨htotal, hwritten⟩ := copyEntries_ok hL₀ hL (le_refl 0) hL₀ hok
      rw [if_neg hcreate]
      simp only
      rw [if_neg hfinish, hwritten]
      exact ⟨by omega, List.nil_append _⟩

theorem writeNormalizedEPUBZip_succeeds {entries : List ZipEntry}
    (hfault : ∀ entry ∈ entries, entry.fault = none)
    (htotal : realTotal (copiedOf root entries) ≤ L) :
    (writeNormalizedEPUBZip entries root L ⟨false, false⟩).err = none := by
  simp only [writeNormalizedEPUBZip, Bool.false_eq_true, and_false, if_false]
  exact copyEntries_succeeds hL₀ hL hfault (le_refl 0) (by omega)

theorem writeNormalizedEPUBZip_total (entries : List ZipEntry) (faults : ArchiveFaults) :
    (writtenTotal (writeNormalizedEPUBZip entries root L faults).written : Int) ≤ L + 1 := by
  have hnone : (writtenTotal [] : Int) = 0 := rfl
  have htotal := @copyEntries_total root L hL₀ hL entries 0 [] hL₀ hnone
  rw [writeNormalizedEPUBZip]
  split
  · simp only [hnone]
    omega
  · simp only
    split <;> exact htotal

end Copying

theorem expansion_limits {L : Int} (hL₀ : 0 < L) (hL : L < 2 ^ 63 - 1) :
    (∀ entries, validateEPUBArchive entries L = .ok () ↔
      entries.length ≤ 10000 ∧ (declaredTotal entries : Int) ≤ L) ∧
    (∀ entries root faults,
      (writtenTotal (writeNormalizedEPUBZip entries root L faults).written : Int) ≤ L + 1 ∧
        ((writeNormalizedEPUBZip entries root L faults).err = none →
          (realTotal (copiedOf root entries) : Int) ≤ L)) ∧
    ∀ uploadLimit, 0 < maxEPUBExpansionLimit uploadLimit ∧
      maxEPUBExpansionLimit uploadLimit =
        if 0 < uploadLimit ∧ uploadLimit < maxEPUBExpandedBytes / 4 then uploadLimit * 4
        else maxEPUBExpandedBytes := by
  refine ⟨fun entries => validateEPUBArchive_ok hL₀ (by omega) entries,
    fun entries root faults => ⟨writeNormalizedEPUBZip_total hL₀.le hL entries faults,
      fun hok => (writeNormalizedEPUBZip_ok hL₀.le hL hok).1⟩,
    fun uploadLimit => ⟨?_, maxEPUBExpansionLimit_eq uploadLimit⟩⟩
  rw [maxEPUBExpansionLimit_eq]
  split
  · omega
  · decide

/-- Two entries whose declared sizes sum up to five after a wrap. -/
def wrappingEntries : List ZipEntry :=
  [⟨ascii "b.epub/mimetype", 8, 6, [1, 2, 3], none⟩,
    ⟨ascii "b.epub/text", 8, UInt64.ofNat (2 ^ 64 - 1), [4, 5, 6], none⟩]

theorem expansion_limits_wrapping :
    validateEPUBArchive wrappingEntries 5 ≠ .ok () ∧
      (writeNormalizedEPUBZip wrappingEntries (ascii "b.epub/") 5 ⟨false, false⟩).err ≠ none := by
  obtain ⟨hdeclared, hreal, -⟩ := expansion_limits (by decide : (0 : Int) < 5) (by decide)
  constructor
  · rw [Ne, hdeclared]
    decide +kernel
  · intro hok
    exact absurd ((hreal _ _ _).2 hok) (by decide +kernel)

end ZReader.Handlers.Epub
