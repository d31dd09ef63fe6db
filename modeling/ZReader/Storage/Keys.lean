import ZReader.Storage.Records

namespace ZReader.Storage

open Lib.Utf8 Lib.Strings

inductive SortKey
  | recentRead
  | recentAdded
  | title
  | author
  deriving DecidableEq, Repr

def SortKey.name : SortKey → Bytes
  | .recentRead => ascii "recent_read"
  | .recentAdded => ascii "recent_added"
  | .title => ascii "title"
  | .author => ascii "author"

def supportedBookSorts : List SortKey := [.recentRead, .recentAdded, .title, .author]

def normalizeBookSort (sortKey : Bytes) : SortKey :=
  if sortKey = ascii "title" then .title
  else if sortKey = ascii "author" then .author
  else if sortKey = ascii "recent_added" then .recentAdded
  else .recentRead

/-- The lowest `width` decimal digits of a number, padded with zeros. -/
def padded : Nat → Nat → Bytes
  | 0, _ => []
  | width + 1, n => padded width (n / 10) ++ [UInt8.ofNat (48 + n % 10)]

def maxTimestamp : Int := 2 ^ 63 - 1

def clampedTimestamp (value : Time) : Int :=
  let timestamp := value.unixNano
  if timestamp < 0 then 0 else timestamp

def invertedBookTimestamp (value : Time) : Bytes :=
  padded 19 (maxTimestamp - clampedTimestamp value).toNat

/-- `strings.ReplaceAll` of the separator by nothing. -/
def withoutSeparator (s : Bytes) : Bytes := s.filter (· ≠ nul)

def bookSortValue (book : Book) (sortKey : SortKey) : Bytes :=
  match sortKey with
  | .title => withoutSeparator (toLower (trimSpace book.title))
  | .author => withoutSeparator (toLower (trimSpace book.author))
  | .recentAdded => invertedBookTimestamp book.createdAt
  | .recentRead => invertedBookTimestamp (book.lastReadAt.getD book.createdAt)

def bookSortIndexKey (book : Book) (sortKey : SortKey) : Bytes :=
  join [nul] [sortKey.name, book.userID, bookSortValue book sortKey, book.id]

def base64Alphabet : Bytes :=
  ascii "ABCDEFGHIJKLMNOPQRSTUVWXYZabcdefghijklmnopqrstuvwxyz0123456789-_"

def base64Digit (n : Nat) : UInt8 := base64Alphabet.getD (n % 64) 0

/-- `base64.RawURLEncoding`. -/
def base64RawURL : Bytes → Bytes
  | [] => []
  | [a] => [base64Digit (a.toNat / 4), base64Digit (a.toNat * 16)]
  | [a, b] => [base64Digit (a.toNat / 4), base64Digit (a.toNat * 16 + b.toNat / 16),
      base64Digit (b.toNat * 4)]
  | a :: b :: c :: rest =>
      base64Digit (a.toNat / 4) :: base64Digit (a.toNat * 16 + b.toNat / 16) ::
        base64Digit (b.toNat * 4 + c.toNat / 64) :: base64Digit c.toNat :: base64RawURL rest

def bookCategorySortPrefix (userID category : Bytes) (sortKey : SortKey) : Bytes :=
  sortKey.name ++ [nul] ++ userID ++ [nul] ++ base64RawURL (trimSpace category) ++ [nul]

def bookCategorySortIndexKey (book : Book) (sortKey : SortKey) : Bytes :=
  bookCategorySortPrefix book.userID (categoryForBook book) sortKey ++
    (bookSortValue book sortKey ++ [nul] ++ book.id)

def normalizeBookSearchText (value : Bytes) : Bytes :=
  let value := toLower (trimSpace value)
  let value := withoutSeparator value
  join (ascii " ") (fields value)

def bookSearchIndexKey (userID bookID : Bytes) : Bytes := userID ++ [nul] ++ bookID

def bookSearchGramIndexPrefix (userID gram : Bytes) : Bytes := userID ++ [nul] ++ gram ++ [nul]

def bookSearchGramIndexKey (userID gram bookID : Bytes) : Bytes :=
  userID ++ [nul] ++ gram ++ [nul] ++ bookID

/-- The adjacent pairs of a rune sequence. -/
def runePairs : List Char → List (List Char)
  | a :: b :: rest => [a, b] :: runePairs (b :: rest)
  | _ => []

/-- The distinct elements in the order of first occurrence. -/
def distinct (l : List Bytes) : List Bytes :=
  l.foldl (fun seen gram => if gram ∈ seen then seen else seen ++ [gram]) []

def bookSearchGrams (value : Bytes) : List Bytes :=
  distinct ((runePairs (runes (normalizeBookSearchText value))).map encode)

def bookContentIndexKey (userID contentHash : Bytes) : Bytes := userID ++ [nul] ++ contentHash

def bookContentMembershipKey (book : Book) : Bytes :=
  bookContentIndexKey book.userID book.contentHash ++ [nul] ++ book.id

def bookSearchValue (book : Book) : Bytes :=
  normalizeBookSearchText
    (join (ascii " ") [book.title, book.author, book.filename, book.format, book.category.getD []])

def userBooksKey (userID bookID : Bytes) : Bytes := userID ++ [colon] ++ bookID

def progressKey (userID bookID : Bytes) : Bytes := userID ++ [colon] ++ bookID

def progressTimeIndexPrefix (userID : Bytes) : Bytes := userID ++ [nul]

def progressTimeIndexKey (progress : Progress) : Bytes :=
  progressTimeIndexPrefix progress.userID ++ padded 19 (clampedTimestamp progress.updatedAt).toNat ++
    [nul] ++ progress.bookID

def bookmarkKey (userID bookID bookmarkID : Bytes) : Bytes :=
  userID ++ [colon] ++ bookID ++ [colon] ++ bookmarkID

def bookmarkBookPrefix (userID bookID : Bytes) : Bytes := userID ++ [colon] ++ bookID ++ [colon]

end ZReader.Storage
