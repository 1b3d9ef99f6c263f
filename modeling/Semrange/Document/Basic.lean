import Semrange.Decimal.Binary64

/-!
# Documents

Structured data as manifests and configuration files hold it: scalars, lists, and mappings that
keep their order and whose keys are scalars. Two keys are one and the same when they are equal as
values, whatever their kind: `1`, `1.0` and `true` are one key. A mapping holds each key once, at
the place where it first came and with the value that came last (`ofEntries`).
-/

namespace Semrange

/-- A value without parts. -/
inductive Scalar where
  /-- Nothing. -/
  | null
  /-- A truth value. -/
  | bool (b : Bool)
  /-- An integer. -/
  | int (n : Int)
  /-- A floating-point number. -/
  | float (x : Binary64)
  /-- A text. -/
  | text (s : String)
deriving DecidableEq, Repr

/-- Structured data. -/
inductive Document where
  /-- A value without parts. -/
  | scalar (s : Scalar)
  /-- A list. -/
  | list (items : List Document)
  /-- A mapping, as its entries in order. -/
  | mapping (entries : List (Scalar × Document))
deriving Repr

/-- The integer that a truth value or an integer stands for. -/
def Scalar.integer? : Scalar → Option Int
  | .bool b => some (if b then 1 else 0)
  | .int n => some n
  | _ => none

/-- Whether two scalars are one and the same key. -/
def Scalar.sameKey : Scalar → Scalar → Bool
  | .null, .null => true
  | .text s, .text t => s == t
  | .float x, .float y => x.equals y
  | .float x, k => k.integer?.any x.equalsInt
  | k, .float x => k.integer?.any x.equalsInt
  | j, k =>
    match j.integer?, k.integer? with
    | some m, some n => m == n
    | _, _ => false

/-- A scalar counts as given unless it is null, false, a zero or the empty text. -/
def Scalar.isGiven : Scalar → Bool
  | .null => false
  | .bool b => b
  | .int n => n != 0
  | .float x => !x.isZero
  | .text s => s != ""

namespace Document

/-- The document without a value. -/
def null : Document := .scalar .null

/-- A text as a document. -/
def text (s : String) : Document := .scalar (.text s)

/-- The entries with `key` set to `item`: in its old place if it is there, else at the end. -/
def setEntry (key : Scalar) (item : Document) :
    List (Scalar × Document) → List (Scalar × Document)
  | [] => [(key, item)]
  | e :: l => if e.1.sameKey key then (e.1, item) :: l else e :: setEntry key item l

/-- The mapping that the entries build up one after the other. -/
def ofEntries (entries : List (Scalar × Document)) : Document :=
  .mapping (entries.foldl (fun l e => setEntry e.1 e.2 l) [])

/-- The entries of a mapping; any other document has none. -/
def entries : Document → List (Scalar × Document)
  | .mapping entries => entries
  | _ => []

/-- What a mapping holds under a text as key; nothing is found in any other document. -/
def find? (d : Document) (key : String) : Option Document :=
  match d with
  | .mapping entries => (entries.find? fun e => e.1 == .text key).map (·.2)
  | _ => none

/-- What a mapping holds under a text as key, and the empty document if it holds nothing there. -/
def get (d : Document) (key : String) : Document :=
  (d.find? key).getD null

/-- A document counts as given unless it is an empty scalar, list or mapping. -/
def isGiven : Document → Bool
  | .scalar s => s.isGiven
  | .list items => !items.isEmpty
  | .mapping entries => !entries.isEmpty

end Document

end Semrange
