import Semrange.Text.Cut
import Semrange.Version.Basic

/-!
# Reading versions

The build is what follows the first plus sign, the prerelease what follows the first hyphen before
it, and the core is the rest: numbers with dots between them. Where wildcards are allowed the core
may end in one or several of them, which count as one, but not before a prerelease. A text that is
no semantic version is a label. One case is neither: a numeral beyond the limit of `Numeral`.
-/

namespace Semrange

/-- Why a text is no semantic version. -/
inductive Malformation where
  /-- There is no text. -/
  | empty
  /-- The prerelease has an empty identifier or a character that none may have. -/
  | prerelease (text : String)
  /-- The core ends in a dot. -/
  | noLastComponent
  /-- The core starts with a dot. -/
  | noFirstComponent
  /-- A component is blank. -/
  | noComponent
  /-- A component is no number. -/
  | component (token : String)
  /-- A wildcard stands before a prerelease. -/
  | wildcardBeforePrerelease
  /-- A number follows a wildcard. -/
  | wildcardInside
  /-- The core is a wildcard and nothing else. -/
  | wildcardAlone
deriving DecidableEq, Repr

/-- The text of a malformation. -/
def Malformation.message : Malformation → String
  | .empty => "Version must be a non-empty string!"
  | .prerelease text => s!"Invalid prerelease string '{text}'!"
  | .noLastComponent => "Missing version number component at the end!"
  | .noFirstComponent => "Missing version component!"
  | .noComponent => "Missing version number component!"
  | .component token => s!"Could not parse version number component '{token}'!"
  | .wildcardBeforePrerelease => "Pre-release versions are not allowed to use X-ranges!"
  | .wildcardInside => "Interjacent wildcard (1.x.2) are disallowed!"
  | .wildcardAlone => "Versions of form 'x' or 'X' not allowed!"

/-- The remark that a text was read as a label. -/
def Malformation.labelNote (cause : Malformation) (name : String) : String :=
  s!"Treating '{name}' as an opaque version: {cause.message}"

/-- Why a version could not be read. -/
inductive Version.ReadError where
  /-- The text is no semantic version. -/
  | malformed (cause : Malformation)
  /-- A numeral is too long. -/
  | numeral (fault : Numeral.Fault)
deriving DecidableEq, Repr

/-- The text of an error. -/
def Version.ReadError.message : Version.ReadError → String
  | .malformed cause => cause.message
  | .numeral fault => fault.message

namespace Semantic

open Version (ReadError)

/-- The parts of a version text. -/
structure Parts where
  /-- What precedes prerelease and build. -/
  core : List Char
  /-- What follows the first hyphen before the build. -/
  prerelease : Option (List Char)
  /-- What follows the first plus sign. -/
  build : Option (List Char)
deriving DecidableEq, Repr

/-- Takes a version text apart. -/
def Parts.ofChars (l : List Char) : Parts :=
  let outer := Text.cut '+' l
  let inner := Text.cut '-' outer.1
  ⟨inner.1, inner.2, outer.2⟩

/-- Whether a character may occur in an identifier. -/
def isIdentifierChar (c : Char) : Bool :=
  c.isAlphanum || c == '-'

/-- Whether a text is a prerelease: empty, or identifiers with dots between them. -/
def isPrerelease (l : List Char) : Bool :=
  l.isEmpty || (l.splitOn '.').all fun i => !i.isEmpty && i.all isIdentifierChar

/-- Whether a token is a wildcard. -/
def isWildcard (token : List Char) : Bool :=
  token == ['x'] || token == ['X'] || token == ['*']

/-- The number that a token of a core denotes. -/
def readComponent (token : List Char) : Except ReadError Nat :=
  if token.all Text.isBlank then .error (.malformed .noComponent)
  else if Numeral.isDigits token then
    match Numeral.read token with
    | .ok n => .ok n
    | .error fault => .error (.numeral fault)
  else .error (.malformed (.component (String.ofList token)))

/-- The numbers of a core, and whether wildcards follow them. The flags say whether wildcards are
allowed and whether a prerelease follows the core. -/
def readComponents (wildcards released : Bool) :
    List (List Char) → Except ReadError (List Nat × Bool)
  | [] => .ok ([], false)
  | token :: tokens =>
    if wildcards && isWildcard token then
      if !released then .error (.malformed .wildcardBeforePrerelease)
      else if tokens.all isWildcard then .ok ([], true)
      else .error (.malformed .wildcardInside)
    else
      match readComponent token with
      | .error e => .error e
      | .ok n =>
        match readComponents wildcards released tokens with
        | .error e => .error e
        | .ok (ns, wild) => .ok (n :: ns, wild)

/-- The semantic version that the parts of a text denote. -/
def ofParts (wildcards : Bool) (p : Parts) : Except ReadError Semantic :=
  if p.prerelease.any fun l => !isPrerelease l then
    .error (.malformed (.prerelease (String.ofList (p.prerelease.getD []))))
  else if p.core.getLast? = some '.' then .error (.malformed .noLastComponent)
  else if p.core.head? = some '.' then .error (.malformed .noFirstComponent)
  else
    match readComponents wildcards p.prerelease.isNone (p.core.splitOn '.') with
    | .error e => .error e
    | .ok ([], _) => .error (.malformed .wildcardAlone)
    | .ok (major :: rest, wild) =>
      .ok ⟨major, rest, wild, p.prerelease.map String.ofList, p.build.map String.ofList⟩

/-- The semantic version that a text denotes. -/
def parse (wildcards : Bool) (s : String) : Except ReadError Semantic :=
  ofParts wildcards (Parts.ofChars s.toList)

/-- The semantic version without wildcards that a text, which must not be empty, denotes. -/
def parseRelease (s : String) : Except ReadError Semantic :=
  if s = "" then .error (.malformed .empty) else parse false s

end Semantic

namespace Version

/-- The version that a text, which must not be empty, denotes. -/
def parse (wildcards : Bool) (s : String) : Except ReadError Version :=
  if s = "" then .error (.malformed .empty)
  else
    match Semantic.parse wildcards s with
    | .ok v => .ok (.semantic v)
    | .error (.malformed _) => .ok (.label s)
    | .error (.numeral fault) => .error (.numeral fault)

/-- Why a text denotes a label and no semantic version, if it does. -/
def labelCause? (wildcards : Bool) (s : String) : Option Malformation :=
  if s = "" then none
  else
    match Semantic.parse wildcards s with
    | .error (.malformed cause) => some cause
    | _ => none

end Version

end Semrange
