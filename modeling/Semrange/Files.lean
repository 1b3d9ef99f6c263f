import Semrange.Document.Loading
import Semrange.Text.Quoted

/-!
# Files

The files that the program reads, by their names in the working directory. A file holds a document,
or its content is no text or no document; a name may also stand for a directory. `Files.read` gives
the document at a path or says why there is none. Most of what can be wrong has an error of its own
for the system or for the form of a document; what has none is a defect.
-/

namespace Semrange

/-- What stands at a name. -/
inductive Content where
  /-- A file that holds a document, with its integers in decimal. -/
  | document (d : Document)
  /-- A file that is a text, but has not the form of a document; the text says why. -/
  | malformed (reason : String)
  /-- A file that is no text, or that has a scalar without a value, such as a day that there is not;
  the text says why. -/
  | undecodable (reason : String)
  /-- A directory. -/
  | directory
deriving Repr

/-- Whether it is a file. -/
def Content.isFile : Content → Bool
  | .directory => false
  | _ => true

/-- The files of the working directory. -/
structure Files where
  /-- What stands at which name. -/
  entries : List (String × Content)

namespace Files

/-- Why the system does not open a path. -/
inductive Refusal where
  /-- There is nothing. -/
  | missing
  /-- A file stands where a directory is needed. -/
  | notDirectory
  /-- It is a directory. -/
  | directory
deriving DecidableEq, Repr

/-- The system's words for a refusal. -/
def Refusal.message (r : Refusal) (path : String) : String :=
  let reason := match r with
    | .missing => "[Errno 2] No such file or directory"
    | .notDirectory => "[Errno 20] Not a directory"
    | .directory => "[Errno 21] Is a directory"
  s!"{reason}: {Text.quoted path}"

/-- Whether a path starts at the root. -/
def isRooted (path : String) : Bool :=
  path.toList.head? == some '/'

/-- The steps of a path; staying in place is none. A path from the root starts with an empty step. -/
def steps (path : String) : List (List Char) :=
  let way := (path.toList.splitOn '/').filter fun s => !s.isEmpty && s != ['.']
  if isRooted path then [] :: way else way

/-- Whether a path insists on a directory. -/
def wantsDirectory (path : String) : Bool :=
  match (path.toList.splitOn '/').getLast? with
  | some s => s.isEmpty || s == ['.']
  | none => false

/-- What stands at a path of the given steps. -/
def at? (fs : Files) (path : List (List Char)) : Option Content :=
  match path with
  | [] | [[]] => some .directory
  | _ =>
    match fs.entries.find? fun e => steps e.1 == path with
    | some e => some e.2
    | none =>
      if fs.entries.any fun e => path.isPrefixOf (steps e.1) then some .directory else none

/-- What stands at a path, or why it cannot be opened. -/
def locate (fs : Files) (path : String) : Except Refusal Content :=
  if path = "" then .error .missing
  else
    let way := steps path
    match fs.at? way with
    | some .directory => .error .directory
    | some c => if wantsDirectory path then .error .notDirectory else .ok c
    | none =>
      -- a file on the way
      if (List.range way.length).any fun n => (fs.at? (way.take n)).any Content.isFile then
        .error .notDirectory
      else .error .missing

/-- What keeps a document from being read and is neither a refusal of the system nor a matter of the
form. -/
inductive Defect where
  /-- No path holds a null character. -/
  | nullCharacter
  /-- The file is no text, or a scalar in it has no value. -/
  | undecodable (reason : String)
  /-- The numeral of an integer is too long. -/
  | numeral (fault : Numeral.Fault)
deriving DecidableEq, Repr

/-- The text of a defect. -/
def Defect.message : Defect → String
  | .nullCharacter => "embedded null byte"
  | .undecodable reason => reason
  | .numeral fault => fault.message

/-- Why there is no document at a path. -/
inductive ReadError where
  /-- The path cannot be opened. -/
  | refused (refusal : Refusal)
  /-- The file has not the form of a document. -/
  | malformed (reason : String)
  /-- There is a defect. -/
  | defect (d : Defect)
deriving DecidableEq, Repr

/-- The document that a content is, or why it is none. -/
def readContent (c : Content) : Except ReadError Document :=
  match c with
  | .directory => .error (.refused .directory)
  | .malformed reason => .error (.malformed reason)
  | .undecodable reason => .error (.defect (.undecodable reason))
  | .document d =>
    match d.numeralFault? with
    | some fault => .error (.defect (.numeral fault))
    | none => .ok d

/-- The document at a path. -/
def read (fs : Files) (path : String) : Except ReadError Document :=
  if '\x00' ∈ path.toList then .error (.defect .nullCharacter)
  else
    match fs.locate path with
    | .error r => .error (.refused r)
    | .ok c => readContent c

/-- Whether a file stands at a path. -/
def isFile (fs : Files) (path : String) : Bool :=
  (fs.locate path).toOption.any Content.isFile

end Files

end Semrange
