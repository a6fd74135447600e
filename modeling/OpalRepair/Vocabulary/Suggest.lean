import OpalRepair.Query.Scan

/-!
# Suggestions

For a name that no table knows, the words that share most leading characters with it.
-/

namespace OpalRepair.Vocabulary

def sharedLength : List Char → List Char → Nat
  | a :: as, b :: bs => if a = b then sharedLength as bs + 1 else 0
  | _, _ => 0

/-- The words that share at least `least` leading characters with `name`, those that share more
first; the order of `words` decides between equals. -/
def ranked (words : List String) (name : List Char) (least : Nat) : List String :=
  (List.range' least (name.length + 1 - least)).reverse.flatMap fun shared =>
    words.filter fun word => sharedLength name word.toList == shared

/-- At most `limit` words like `name`, which is read in lower case: those that share three
characters, or two if there are none. A shorter name has to be shared as a whole; lengths of
names are taken in bytes. -/
def suggest (words : List String) (name : String) (limit : Nat) : List String :=
  let name := name.toList.map Char.toLower
  let size := Query.byteSize name
  if size = 0 then []
  else match ranked words name (min 3 size) with
    | [] => (ranked words name (min 2 size)).take limit
    | found => found.take limit

end OpalRepair.Vocabulary
