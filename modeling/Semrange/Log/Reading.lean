import Semrange.Log.Basic
import Semrange.Predicate.Parser

/-!
# Records of reading

What reading versions and ranges has to tell: that a text was taken for a label, or that a range was
read in another way than it was written.
-/

namespace Semrange

/-- The record that a text is taken for a label, if it is. -/
def Version.labelRecord? (s : String) : Option Log.Record :=
  (Version.labelCause? false s).map fun cause => ⟨.debug, .versions, cause.labelNote s⟩

/-- The version that a text denotes, with what is to tell about it. -/
def Version.read (s : String) : Report Version.ReadError Version := do
  Report.tell (Version.labelRecord? s).toList
  Report.ofExcept (Version.parse false s)

/-- The record of a remark on a range. -/
def Predicate.Note.record (n : Predicate.Note) : Log.Record :=
  match n with
  | .label .. => ⟨.debug, .versions, n.message⟩
  | .expanded .. => ⟨.debug, .predicates, n.message⟩

/-- The records of reading a range. -/
def Predicate.records (s : String) : List Log.Record :=
  (Predicate.notes s).map Predicate.Note.record

/-- The records of reading ranges up to the first one that cannot be read. -/
def Predicate.recordsOfAll (l : List String) : List Log.Record :=
  (Predicate.notesOnAll l).map Predicate.Note.record

end Semrange
