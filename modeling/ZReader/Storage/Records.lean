import ZReader.Lib.Strings

namespace ZReader.Storage

open Lib.Utf8 Lib.Strings

/-- An instant, in nanoseconds since the Unix epoch. -/
structure Time where
  nanos : Int
  deriving DecidableEq, Repr

namespace Time

/-- The zero time, January 1 of year 1. -/
def zero : Time := ⟨-62135596800 * 10 ^ 9⟩

/-- Nanoseconds as an `int64`; they wrap outside the years 1678 to 2262. -/
def unixNano (t : Time) : Int := t.nanos.bmod (2 ^ 64)

def before (t u : Time) : Bool := t.nanos < u.nanos

end Time

inductive ProcessingState
  | unset
  | pending
  | ready
  | failed
  deriving DecidableEq, Repr

structure Book where
  id : Bytes
  userID : Bytes
  title : Bytes
  author : Bytes
  filename : Bytes
  format : Bytes
  size : Int
  contentHash : Bytes
  coverPath : Bytes
  coverThumbPath : Bytes
  processingState : ProcessingState
  category : Option Bytes
  createdAt : Time
  lastReadAt : Option Time
  deriving DecidableEq, Repr

structure Progress where
  bookID : Bytes
  userID : Bytes
  cfi : Bytes
  percentage : ℚ
  deviceID : Bytes
  updatedAt : Time
  deriving DecidableEq

structure Bookmark where
  id : Bytes
  bookID : Bytes
  userID : Bytes
  cfi : Bytes
  percentage : ℚ
  chapter : Bytes
  note : Bytes
  createdAt : Time
  deriving DecidableEq

structure User where
  id : Bytes
  username : Bytes
  passwordHash : Bytes
  role : Bytes
  createdAt : Time
  updatedAt : Time
  deriving DecidableEq, Repr

def ascii (s : String) : Bytes := encode s.toList

def nul : UInt8 := 0

def colon : UInt8 := 58

/-- The shape of a generated identifier: it can be cut out of every key it is
joined into. -/
def WellFormedID (id : Bytes) : Prop := id ≠ [] ∧ colon ∉ id ∧ nul ∉ id

instance (id : Bytes) : Decidable (WellFormedID id) := inferInstanceAs (Decidable (_ ∧ _ ∧ _))

def normalizeUsername (username : Bytes) : Bytes := toLower (trimSpace username)

def normalizeCategoryName (value : Option Bytes) : Option Bytes :=
  match value with
  | none => none
  | some value =>
      let category := trimSpace value
      if category = [] then none else some category

def categoryForBook (book : Book) : Bytes :=
  match book.category with
  | none => []
  | some category => trimSpace category

/-- Trimmed, non-empty and without repetitions, in the order of first occurrence. -/
def uniqueNonEmptyStrings (values : List Bytes) : List Bytes :=
  values.foldl (fun result value =>
    let value := trimSpace value
    if value = [] ∨ value ∈ result then result else result ++ [value]) []

end ZReader.Storage
