import Semrange.Text.Cut
import Semrange.Text.DecimalDigit
import Semrange.Text.Quoted

/-!
# Reading command lines

A command line is a sequence of words, which are switches or operands. A grammar names the switches
that it knows and the slots that operands fill. Every word is tagged first, and `read` then walks
over them: a switch takes its value from its own word or from the next one, and a run of operands
fills as many of the open slots as it can. What the words mean is a list of events in their order;
words that nothing takes are left over.

A switch may be given by the start of a long name that no other name shares. Several short switches
may stand in one word, all but the last of them without values. A value of two hyphens, which only
the word of the switch itself can hold, takes back what the switch was set to. A word that starts
with a hyphen is an operand all the same if it is a hyphen
alone, a negative number, or holds a blank and is like no switch. Two hyphens alone make operands of
all words that follow.
-/

namespace Semrange.CommandLine

/-- A switch. -/
inductive Switch where
  /-- Asks for help. -/
  | help
  /-- Names the configuration file. -/
  | config
  /-- Sets the level from which on records are shown. -/
  | logLevel
  /-- Names a file for the records. -/
  | logFile
  /-- Gives replacement versions. -/
  | replacements
  /-- Makes warnings count. -/
  | errorOnWarnings
  /-- Suppresses the output. -/
  | quiet
  /-- Asks for the complement. -/
  | invert
  /-- Asks for a report in JSON. -/
  | json
deriving DecidableEq, Repr

/-- The names of a switch. -/
def Switch.names : Switch → List String
  | help => ["-h", "--help"]
  | config => ["-c", "--config"]
  | logLevel => ["--loglevel"]
  | logFile => ["--logfile"]
  | replacements => ["--replace-version"]
  | errorOnWarnings => ["--error-on-warnings"]
  | quiet => ["-q", "--quiet"]
  | invert => ["--invert"]
  | json => ["--json"]

/-- Whether a switch has a value. -/
def Switch.takesValue : Switch → Bool
  | config | logLevel | logFile | replacements => true
  | help | errorOnWarnings | quiet | invert | json => false

/-- A switch as messages show it. -/
def Switch.title (s : Switch) : String :=
  "/".intercalate s.names

/-- How many operands fill a slot. -/
inductive Arity where
  /-- One. -/
  | one
  /-- One or more. -/
  | many
  /-- One, and all words that follow, whatever they are. -/
  | rest
deriving DecidableEq, Repr

/-- A place for operands. -/
structure Slot where
  /-- The name that messages show. -/
  name : String
  /-- How many operands fill it. -/
  arity : Arity
deriving DecidableEq, Repr

/-- What command lines consist of. -/
structure Grammar where
  /-- The switches. -/
  switches : List Switch
  /-- The slots. -/
  slots : List Slot

/-- What is wrong with a command line. -/
inductive UsageError where
  /-- A word is the start of several names. -/
  | ambiguous (word : String) (names : List String)
  /-- A switch lacks its value. -/
  | noValue (switch : Switch)
  /-- A switch has a value and takes none. -/
  | surplus (switch : Switch) (text : String)
  /-- Slots are not filled. -/
  | unfilled (slots : List String)
  /-- A value is none of those that may be chosen. -/
  | choice (title value : String) (choices : List String)
  /-- Words that nothing takes. -/
  | leftOver (words : List String)
deriving DecidableEq, Repr

/-- The text of an error. -/
def UsageError.message : UsageError → String
  | .ambiguous word names =>
    s!"ambiguous option: {word} could match " ++ ", ".intercalate names
  | .noValue switch => s!"argument {switch.title}: expected one argument"
  | .surplus switch text =>
    s!"argument {switch.title}: ignored explicit argument {Text.quoted text}"
  | .unfilled slots => "the following arguments are required: " ++ ", ".intercalate slots
  | .choice title value choices =>
    s!"argument {title}: invalid choice: {Text.quoted value} (choose from " ++
      ", ".intercalate (choices.map Text.quoted) ++ ")"
  | .leftOver words => "unrecognized arguments: " ++ " ".intercalate words

/-- What a word says about a switch: by which name it is given, and what is attached to the name in
the same word, if anything, behind an equality sign or at once. -/
structure Mention where
  /-- The switch. -/
  switch : Switch
  /-- The name. -/
  name : List Char
  /-- What is attached. -/
  attached : Option (List Char)
deriving DecidableEq, Repr

/-- What kind of word a word is. -/
inductive Tag where
  /-- An operand. -/
  | operand
  /-- The two hyphens that make operands of all that follows. -/
  | separator
  /-- A switch. -/
  | mention (m : Mention)
  /-- Like a switch, but none that is known. -/
  | unknown
deriving DecidableEq, Repr

/-- A word with its tag. -/
structure Word where
  /-- The text of the word. -/
  text : String
  /-- What kind of word it is. -/
  tag : Tag
deriving DecidableEq, Repr

/-- Whether a word is a negative number: a hyphen and digits, with or without a point among them. A
line feed at the end does no harm. -/
def isNegativeNumber (word : List Char) : Bool :=
  match word with
  | '-' :: l =>
    let l := if l.getLast? = some '\n' then l.dropLast else l
    let isDigit (c : Char) := (Text.decimalDigit? c).isSome
    match Text.cut '.' l with
    | (whole, none) => !whole.isEmpty && whole.all isDigit
    | (whole, some fraction) =>
      whole.all isDigit && !fraction.isEmpty && fraction.all isDigit
  | _ => false

/-- The names of the switches, each with its switch. -/
def nameTable (switches : List Switch) : List (List Char × Switch) :=
  switches.flatMap fun s => s.names.map fun n => (n.toList, s)

/-- The switches that a word may mention by the start of a long name, or by a short name with more
behind it. -/
def candidates (table : List (List Char × Switch)) (word : List Char) : List Mention :=
  match word with
  | '-' :: '-' :: _ =>
    let (start, value) := Text.cut '=' word
    (table.filter fun e => start.isPrefixOf e.1).map fun e => ⟨e.2, e.1, value⟩
  | '-' :: c :: l =>
    (table.filter fun e => e.1 == ['-', c]).map fun e => ⟨e.2, e.1, some l⟩
  | _ => []

/-- What kind of word a word is, before any separator. -/
def tagWord (table : List (List Char × Switch)) (word : List Char) : Except UsageError Tag :=
  match word with
  | '-' :: _ :: _ =>
    match table.lookup word, Text.cut '=' word with
    | some s, _ => .ok (.mention ⟨s, word, none⟩)
    | none, (name, value) =>
      match value.bind fun _ => table.lookup name with
      | some s => .ok (.mention ⟨s, name, value⟩)
      | none =>
        match candidates table word with
        | [m] => .ok (.mention m)
        | [] =>
          if isNegativeNumber word || word.contains ' ' then .ok .operand else .ok .unknown
        | ms => .error (.ambiguous (String.ofList word) (ms.map fun m => String.ofList m.name))
  | _ => .ok .operand

/-- The words of a command line with their tags. -/
def tagWords (table : List (List Char × Switch)) : List String → Except UsageError (List Word)
  | [] => .ok []
  | s :: l =>
    if s = "--" then .ok (⟨s, .separator⟩ :: l.map fun t => ⟨t, .operand⟩)
    else
      match tagWord table s.toList with
      | .error e => .error e
      | .ok tag =>
        match tagWords table l with
        | .error e => .error e
        | .ok ws => .ok (⟨s, tag⟩ :: ws)

/-- What a command line says. -/
inductive Event where
  /-- A switch is set. -/
  | set (switch : Switch)
  /-- A switch gets a value. -/
  | setTo (switch : Switch) (value : String)
  /-- A switch loses its value. -/
  | unset (switch : Switch)
  /-- A slot is filled. -/
  | fill (slot : Slot) (values : List String)
deriving DecidableEq, Repr

/-- How many of the words a slot takes; a run of operands may hold the separator once. -/
def Arity.take (a : Arity) (words : List Word) : Option Nat :=
  let isSeparator (w : Word) := w.tag == .separator
  let start := (words.takeWhile isSeparator).length
  match words.drop start with
  | [] => none
  | w :: l =>
    if w.tag != .operand then none
    else
      match a with
      | .one => some (start + 1 + (l.takeWhile isSeparator).length)
      | .many =>
        some (start + 1 + (l.takeWhile fun w => w.tag == .operand || w.tag == .separator).length)
      | .rest => some words.length

/-- The slots that a run of operands fills, each with the words that it takes. -/
def fillSlots : List Slot → List Word → List (Slot × List Word)
  | [], _ => []
  | s :: ss, words =>
    match s.arity.take words with
    | none => []
    | some n => (s, words.take n) :: fillSlots ss (words.drop n)

/-- The values that words give a slot: the first separator among them is none. -/
def Slot.values (s : Slot) (words : List Word) : List String :=
  let texts := words.map Word.text
  if s.arity = .rest then texts else texts.erase "--"

/-- What came of reading a word that mentions a switch. -/
structure Reading where
  /-- What the word says. -/
  events : List Event
  /-- How many of the words that follow it takes. -/
  taken : Nat

/-- Reads a mention that nothing is attached to. -/
def readBare (s : Switch) (next : List Word) : Except UsageError Reading :=
  if s.takesValue then
    match next with
    | ⟨text, .operand⟩ :: _ => .ok ⟨[.setTo s text], 1⟩
    | _ => .error (.noValue s)
  else .ok ⟨[.set s], 0⟩

/-- What a value does that is attached to the name of a switch. -/
def attachedValue (s : Switch) (value : List Char) : Event :=
  if value = ['-', '-'] then .unset s else .setTo s (String.ofList value)

/-- Reads a mention with something attached. Behind a short switch that takes no value these are
more short switches. -/
def readAttached (table : List (List Char × Switch)) (s : Switch) (short : Bool)
    (next : List Word) (attached : List Char) : Except UsageError Reading :=
  if s.takesValue then .ok ⟨[attachedValue s attached], 0⟩
  else
    let surplus := .error (.surplus s (String.ofList attached))
    match attached with
    | [] => surplus
    | c :: l =>
      if !short then surplus
      else
        match table.lookup ['-', c], l with
        | none, _ => surplus
        | some t, [] => (readBare t next).map fun r => { r with events := .set s :: r.events }
        | some t, l =>
          (readAttached table t true next l).map fun r => { r with events := .set s :: r.events }

/-- Reads a mention. -/
def Mention.read (table : List (List Char × Switch)) (m : Mention) (next : List Word) :
    Except UsageError Reading :=
  match m.attached with
  | none => readBare m.switch next
  | some l => readAttached table m.switch (m.name.getD 1 '-' != '-') next l

/-- What came of reading a command line. -/
structure Transcript where
  /-- What the words say, up to an error if there is one. -/
  events : List Event
  /-- The words that nothing takes, or an error. -/
  leftOver : Except UsageError (List String)

/-- The transcript with some events before it. -/
def Transcript.after (events : List Event) (t : Transcript) : Transcript :=
  ⟨events ++ t.events, t.leftOver⟩

/-- The transcript with some words left over before it. -/
def Transcript.leaving (words : List String) (t : Transcript) : Transcript :=
  ⟨t.events, t.leftOver.map (words ++ ·)⟩

/-- Reads the words from the given number on, with the given slots open. -/
def readWords (table : List (List Char × Switch)) (slots : List Slot) :
    Nat → List Word → Transcript
  | skip + 1, _ :: words => readWords table slots skip words
  | _, [] =>
    ⟨[], if slots.isEmpty then .ok [] else .error (.unfilled (slots.map Slot.name))⟩
  | 0, w :: words =>
    match w.tag with
    | .unknown => (readWords table slots 0 words).leaving [w.text]
    | .mention m =>
      match m.read table words with
      | .error e => ⟨[], .error e⟩
      | .ok r => (readWords table slots r.taken words).after r.events
    | _ =>
      match fillSlots slots (w :: words) with
      | [] => (readWords table slots 0 words).leaving [w.text]
      | filled =>
        let taken := (filled.map fun f => f.2.length).sum
        (readWords table (slots.drop filled.length) (taken - 1) words).after
          (filled.map fun f => .fill f.1 (f.1.values f.2))

/-- Reads a command line. -/
def Grammar.read (g : Grammar) (words : List String) : Except UsageError Transcript :=
  let table := nameTable g.switches
  (tagWords table words).map (readWords table g.slots 0)

end Semrange.CommandLine
