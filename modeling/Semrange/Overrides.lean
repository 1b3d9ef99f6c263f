import Semrange.Document.Printer
import Semrange.Version.Parser

/-!
# Overrides

Replacement versions for some ids. They come as a text, `id:version` entries with commas between
them, or as a mapping from ids to versions. The last entry of an id counts; where two sets of
overrides are merged the second one does.
-/

namespace Semrange

/-- Replacement versions by id, each id once. -/
structure Overrides where
  /-- The ids with their versions, in the order in which the ids first came. -/
  entries : List (String × Version)
deriving DecidableEq, Repr

namespace Overrides

/-- No overrides. -/
def empty : Overrides := ⟨[]⟩

/-- The entries with the version of `id` set: in its old place if it is there, else at the end. -/
def setEntry (id : String) (v : Version) : List (String × Version) → List (String × Version)
  | [] => [(id, v)]
  | e :: l => if e.1 = id then (id, v) :: l else e :: setEntry id v l

/-- The overrides with the version of `id` set. -/
def set (o : Overrides) (id : String) (v : Version) : Overrides :=
  ⟨setEntry id v o.entries⟩

/-- The replacement version of `id`. -/
def find? (o : Overrides) (id : String) : Option Version :=
  o.entries.lookup id

/-- The version of `id` where it has the version `v` by itself. -/
def apply (o : Overrides) (id : String) (v : Version) : Version :=
  (o.find? id).getD v

/-- The version of `id`, which may have none by itself. -/
def resolve (o : Overrides) (id : String) (v : Option Version) : Option Version :=
  (o.find? id).or v

/-- The overrides of both, where those of `p` count more. -/
def mergedWith (o p : Overrides) : Overrides :=
  p.entries.foldl (fun o e => o.set e.1 e.2) o

/-- The ids that are overridden, in the order of code points. -/
def ids (o : Overrides) : List String :=
  (o.entries.map (·.1)).mergeSort fun s t => s ≤ t

/-- Why overrides could not be read. -/
inductive ReadError where
  /-- An entry of a text lacks its id or its version. -/
  | entry (text : String)
  /-- An entry of a mapping lacks its id or its version. -/
  | pair (id : Scalar) (value : Document)
  /-- The version of an entry of a mapping is no text. -/
  | value (id : Scalar) (value : Document)
  /-- A version could not be read. -/
  | version (error : Version.ReadError)

/-- The text of an error. -/
def ReadError.message : ReadError → String
  | .entry text => s!"invalid version replacement entry: {text}"
  | .pair id d => s!"invalid version replacement entry: {id.plain}:{d.plain}"
  | .value id d =>
    s!"invalid version replacement entry: {id.plain}:{d.literal} is a {d.kindName}, " ++
      "quote the version"
  | .version error => error.message

/-- Reads a version and sets it. -/
def add (o : Overrides) (id version : String) : Except ReadError Overrides :=
  match Version.parse false version with
  | .ok v => .ok (o.set id v)
  | .error e => .error (.version e)

/-- Adds the entries of a text, blanks around them taken away and blank ones passed over. -/
def addEntries (o : Overrides) : List (List Char) → Except ReadError Overrides
  | [] => .ok o
  | l :: ls =>
    let entry := Text.trim l
    if entry.isEmpty then o.addEntries ls
    else
      match Text.cut ':' entry with
      | (c :: id, some (d :: version)) =>
        match o.add (String.ofList (c :: id)) (String.ofList (d :: version)) with
        | .ok o => o.addEntries ls
        | .error e => .error e
      | _ => .error (.entry (String.ofList entry))

/-- The overrides that a text denotes. -/
def ofText (s : String) : Except ReadError Overrides :=
  empty.addEntries (s.toList.splitOn ',')

/-- Adds the entries of a mapping. -/
def addPairs (o : Overrides) : List (Scalar × Document) → Except ReadError Overrides
  | [] => .ok o
  | (id, value) :: l =>
    match id.isGiven, value with
    | true, .scalar (.text version) =>
      if version = "" then .error (.pair id value)
      else
        match o.add id.plain version with
        | .ok o => o.addPairs l
        | .error e => .error e
    | true, .scalar .null => .error (.pair id value)
    | true, value => .error (.value id value)
    | false, value => .error (.pair id value)

/-- The overrides that the entries of a mapping denote. -/
def ofPairs (entries : List (Scalar × Document)) : Except ReadError Overrides :=
  empty.addPairs entries

end Overrides

end Semrange
