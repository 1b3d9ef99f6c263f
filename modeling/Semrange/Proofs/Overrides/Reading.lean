import Semrange.Proofs.Overrides.Replacements
import Semrange.Proofs.Text.Pieces
import Semrange.Proofs.Version.Grammar

/-!
# Overrides as texts and as mappings

A text and a mapping are both read entry by entry, and the replacements that the entries denote are
made one after the other (`ofText_eq`, `ofPairs_eq`). What an entry denotes depends on nothing but the
entry. So two texts with a comma between them are read as the first one and then the second one
(`ofText_append`), which leaves what merging leaves.

An id and a version with a colon between them are an entry of a text that denotes what they denote as
an entry of a mapping, unless the text is cut elsewhere or loses a blank (`Writable`). A mapping of
such entries can be written as a text and is read alike (`ofText_intercalate`).
-/

namespace Semrange.Overrides

/-! ## Entries -/

/-- The replacement of an id by the version that a text denotes. -/
def readReplacement (id version : String) : Except ReadError (String × Version) :=
  ((Version.parse false version).mapError .version).map fun v => (id, v)

/-- The replacement that an entry of a text denotes. -/
def readEntry (piece : List Char) : Except ReadError (String × Version) :=
  match Text.cut ':' (Text.trim piece) with
  | (c :: id, some (d :: version)) =>
    readReplacement (String.ofList (c :: id)) (String.ofList (d :: version))
  | _ => .error (.entry (String.ofList (Text.trim piece)))

/-- The replacement that an entry of a mapping denotes. -/
def readPair (e : Scalar × Document) : Except ReadError (String × Version) :=
  match e.1.isGiven, e.2 with
  | true, .scalar (.text version) =>
    if version = "" then .error (.pair e.1 e.2) else readReplacement e.1.plain version
  | true, .scalar .null => .error (.pair e.1 e.2)
  | true, value => .error (.value e.1 value)
  | false, value => .error (.pair e.1 value)

/-- The entries of a text: the pieces between its commas, but for blank ones. -/
def entriesOf (s : String) : List (List Char) :=
  (s.toList.splitOn ',').filter fun piece => !(Text.trim piece).isEmpty

/-! ## Entries one after the other -/

/-- A version that is read is set as the replacement that it makes. -/
theorem bind_add (o : Overrides) (id version : String)
    (f : Overrides → Except ReadError Overrides) :
    (match o.add id version with
      | .ok o => f o
      | .error e => .error e) = (readReplacement id version).bind fun e => f (o.set e.1 e.2) := by
  unfold add readReplacement
  cases Version.parse false version <;> rfl

/-- Replacements are read one after the other and then made one after the other. -/
theorem map_setAll_cons (o : Overrides) (r : Except ReadError (String × Version))
    (rs : Except ReadError (List (String × Version))) :
    (r >>= fun e => rs >>= fun l => pure (e :: l)).map o.setAll =
      r.bind fun e => rs.map (o.set e.1 e.2).setAll := by
  cases r with
  | error e => rfl
  | ok e => cases rs <;> rfl

/-- The first entry of a text is read, and its replacement is made before those of the others. -/
theorem addEntries_cons {piece : List Char} (h : (Text.trim piece).isEmpty = false) (o : Overrides)
    (pieces : List (List Char)) :
    o.addEntries (piece :: pieces) =
      (readEntry piece).bind fun e => (o.set e.1 e.2).addEntries pieces := by
  simp only [addEntries, readEntry, h, Bool.false_eq_true, if_false]
  -- There is an entry only where something stands on either side of the colon.
  rcases Text.cut ':' (Text.trim piece) with ⟨_ | ⟨c, id⟩, _ | _ | ⟨d, version⟩⟩
  case cons.some.cons => exact bind_add o _ _ fun o => o.addEntries pieces
  all_goals rfl

/-- The entries of a text are read one by one, blank ones passed over, and their replacements are
made. -/
theorem addEntries_eq (o : Overrides) (pieces : List (List Char)) :
    o.addEntries pieces =
      ((pieces.filter fun piece => !(Text.trim piece).isEmpty).mapM readEntry).map o.setAll := by
  induction pieces generalizing o with
  | nil => rfl
  | cons piece pieces ih =>
    cases hblank : (Text.trim piece).isEmpty with
    | true =>
      -- A blank piece is passed over.
      rw [List.filter_cons_of_neg (by simp [hblank]), ← ih]
      simp [addEntries, hblank]
    | false =>
      rw [List.filter_cons_of_pos (by simp [hblank]), List.mapM_cons, map_setAll_cons,
        addEntries_cons hblank]
      exact congrArg (readEntry piece).bind (funext fun e => ih (o.set e.1 e.2))

/-- The first entry of a mapping is read, and its replacement is made before those of the others. -/
theorem addPairs_cons (o : Overrides) (e : Scalar × Document) (l : List (Scalar × Document)) :
    o.addPairs (e :: l) = (readPair e).bind fun r => (o.set r.1 r.2).addPairs l := by
  obtain ⟨id, value⟩ := e
  conv_lhs => unfold addPairs
  unfold readPair
  cases id.isGiven with
  | false => rfl
  | true =>
    rcases value with (_ | _ | _ | _ | version) | _ | _
    case scalar.text =>
      dsimp only
      split_ifs
      · rfl
      · exact bind_add o _ _ fun o => o.addPairs l
    all_goals rfl

/-- The entries of a mapping are read one by one, and their replacements are made. -/
theorem addPairs_eq (o : Overrides) (l : List (Scalar × Document)) :
    o.addPairs l = (l.mapM readPair).map o.setAll := by
  induction l generalizing o with
  | nil => rfl
  | cons e l ih =>
    rw [List.mapM_cons, map_setAll_cons, addPairs_cons]
    exact congrArg (readPair e).bind (funext fun r => ih (o.set r.1 r.2))

/-- A text denotes what the replacements of its entries leave. -/
theorem ofText_eq (s : String) : ofText s = ((entriesOf s).mapM readEntry).map empty.setAll :=
  addEntries_eq empty (s.toList.splitOn ',')

/-- A mapping denotes what the replacements of its entries leave. -/
theorem ofPairs_eq (l : List (Scalar × Document)) :
    ofPairs l = (l.mapM readPair).map empty.setAll :=
  addPairs_eq empty l

/-! ## What entries denote -/

/-- An entry of a text denotes a replacement: it is the id, which is not empty and has no colon, and
the text of the version with a colon between them, and maybe blanks around it. -/
structure EntryDenotes (piece : List Char) (e : String × Version) : Prop where
  /-- There is an id. -/
  id_ne : e.1 ≠ ""
  /-- The first colon is behind the id. -/
  colon_notMem : ':' ∉ e.1.toList
  /-- Behind it is the version. -/
  version : ∃ s : String, Text.trim piece = e.1.toList ++ ':' :: s.toList ∧
    Version.parse false s = .ok e.2

/-- An entry of a mapping denotes a replacement: its key is the id as a text, and its value is the
text of the version. -/
structure PairDenotes (p : Scalar × Document) (e : String × Version) : Prop where
  /-- There is an id. -/
  isGiven : p.1.isGiven = true
  /-- The key is the id. -/
  plain_eq : p.1.plain = e.1
  /-- The value is the version. -/
  version : ∃ s, p.2 = .text s ∧ Version.parse false s = .ok e.2

/-- A version is read from a text that is not empty. -/
theorem ne_empty_of_parse {wildcards : Bool} {s : String} {v : Version}
    (h : Version.parse wildcards s = .ok v) : s ≠ "" := by
  rintro rfl
  cases h

/-- The replacement of an id is the version that the text denotes. -/
theorem readReplacement_eq_ok_iff {id version : String} {e : String × Version} :
    readReplacement id version = .ok e ↔ id = e.1 ∧ Version.parse false version = .ok e.2 := by
  unfold readReplacement
  rw [map_eq_ok]
  constructor
  · rintro ⟨v, hv, rfl⟩
    exact ⟨rfl, mapError_eq_ok.mp hv⟩
  · rintro ⟨rfl, hv⟩
    exact ⟨e.2, mapError_eq_ok.mpr hv, rfl⟩

/-- An id and a version with a colon between them are read as their replacement. -/
theorem readEntry_of_trim_eq {piece : List Char} {id version : String} (hid : id ≠ "")
    (hcolon : ':' ∉ id.toList) (hversion : version ≠ "")
    (htrim : Text.trim piece = id.toList ++ ':' :: version.toList) :
    readEntry piece = readReplacement id version := by
  obtain ⟨c, l, hl⟩ := List.exists_cons_of_ne_nil (mt String.toList_eq_nil_iff.mp hid)
  obtain ⟨d, m, hm⟩ := List.exists_cons_of_ne_nil (mt String.toList_eq_nil_iff.mp hversion)
  have hcut : Text.cut ':' (Text.trim piece) = (c :: l, some (d :: m)) := by
    rw [htrim, ← hl, ← hm]
    exact Text.cut_append hcolon (some version.toList)
  rw [readEntry, hcut]
  show readReplacement (String.ofList (c :: l)) (String.ofList (d :: m)) = _
  rw [← hl, ← hm, String.ofList_toList, String.ofList_toList]

/-- An entry of a text is read as the replacement that it denotes. -/
theorem readEntry_eq_ok_iff {piece : List Char} {e : String × Version} :
    readEntry piece = .ok e ↔ EntryDenotes piece e := by
  constructor
  · intro h
    unfold readEntry at h
    split at h
    · next c id d version hcut =>
      obtain ⟨hid, hversion⟩ := readReplacement_eq_ok_iff.mp h
      -- What stands before the first colon has none, and with the rest it is the entry.
      have hfree := Text.not_mem_fst_cut ':' (Text.trim piece)
      have htrim := Text.append_cut ':' (Text.trim piece)
      rw [hcut] at hfree htrim
      have hchars : e.1.toList = c :: id := by rw [← hid, String.toList_ofList]
      refine ⟨?_, hchars ▸ hfree, String.ofList (d :: version), ?_, hversion⟩
      · rintro hempty
        rw [hempty] at hchars
        cases hchars
      · rw [hchars, String.toList_ofList]
        exact htrim.symm
    · cases h
  · rintro ⟨hid, hcolon, s, htrim, hversion⟩
    rw [readEntry_of_trim_eq hid hcolon (ne_empty_of_parse hversion) htrim]
    exact readReplacement_eq_ok_iff.mpr ⟨rfl, hversion⟩

/-- A given key and a text that is not empty are read as their replacement. -/
theorem readPair_of_text {id : Scalar} {version : String} (hid : id.isGiven = true)
    (hversion : version ≠ "") :
    readPair (id, .text version) = readReplacement id.plain version := by
  simp only [readPair, hid, Document.text, if_neg hversion]

/-- An entry of a mapping is read as the replacement that it denotes. -/
theorem readPair_eq_ok_iff {p : Scalar × Document} {e : String × Version} :
    readPair p = .ok e ↔ PairDenotes p e := by
  constructor
  · intro h
    unfold readPair at h
    split at h
    · next version hgiven hvalue =>
      -- Only a text under a given key can make a replacement.
      split_ifs at h
      obtain ⟨hid, hversion⟩ := readReplacement_eq_ok_iff.mp h
      exact ⟨hgiven, hid, version, hvalue, hversion⟩
    all_goals cases h
  · obtain ⟨id, value⟩ := p
    rintro ⟨hgiven, hid, s, rfl, hversion⟩
    rw [readPair_of_text hgiven (ne_empty_of_parse hversion)]
    exact readReplacement_eq_ok_iff.mpr ⟨hid, hversion⟩

/-- Entries of a text are read as the replacements that they denote. -/
theorem mapM_readEntry_eq_ok_iff {pieces : List (List Char)} {l : List (String × Version)} :
    pieces.mapM readEntry = .ok l ↔ List.Forall₂ EntryDenotes pieces l := by
  simp only [mapM_eq_ok_iff, readEntry_eq_ok_iff]

/-- Entries of a mapping are read as the replacements that they denote. -/
theorem mapM_readPair_eq_ok_iff {pairs : List (Scalar × Document)} {l : List (String × Version)} :
    pairs.mapM readPair = .ok l ↔ List.Forall₂ PairDenotes pairs l := by
  simp only [mapM_eq_ok_iff, readPair_eq_ok_iff]

/-- A text is read as what the replacements leave that its entries denote. -/
theorem ofText_eq_ok_iff {s : String} {o : Overrides} :
    ofText s = .ok o ↔ ∃ l, List.Forall₂ EntryDenotes (entriesOf s) l ∧ empty.setAll l = o := by
  simp only [ofText_eq, map_eq_ok, mapM_readEntry_eq_ok_iff]

/-- A mapping is read as what the replacements leave that its entries denote. -/
theorem ofPairs_eq_ok_iff {pairs : List (Scalar × Document)} {o : Overrides} :
    ofPairs pairs = .ok o ↔ ∃ l, List.Forall₂ PairDenotes pairs l ∧ empty.setAll l = o := by
  simp only [ofPairs_eq, map_eq_ok, mapM_readPair_eq_ok_iff]

/-! ## Two texts -/

/-- The entries of two texts with a comma between them are those of both. -/
theorem entriesOf_append (s t : String) :
    entriesOf (s ++ "," ++ t) = entriesOf s ++ entriesOf t := by
  have hchars : (s ++ "," ++ t).toList = s.toList ++ ',' :: t.toList := by
    rw [String.toList_append, String.toList_append, List.append_assoc]
    rfl
  rw [entriesOf, hchars, List.splitOn_append_cons_self, List.filter_append]
  rfl

/-- Two texts with a comma between them denote overrides when both of them do, and then those of the
second one merged into those of the first one. -/
theorem ofText_append (s t : String) :
    ofText (s ++ "," ++ t) = (ofText s).bind fun o => (ofText t).map o.mergedWith := by
  rw [ofText_eq, ofText_eq, ofText_eq, entriesOf_append, List.mapM_append]
  -- An error in the first text comes before one in the second text.
  cases (entriesOf s).mapM readEntry with
  | error e => rfl
  | ok l =>
    cases (entriesOf t).mapM readEntry with
    | error e => rfl
    | ok m =>
      show Except.ok (empty.setAll (l ++ m)) =
        Except.ok ((empty.setAll l).mergedWith (empty.setAll m))
      rw [setAll_append, mergedWith_setAll]

/-- Overrides that texts denote are merged so that those of the second text count more. -/
theorem apply_mergedWith {s t : String} {o p : Overrides} (hs : ofText s = .ok o)
    (ht : ofText t = .ok p) (id : String) (v : Version) :
    (o.mergedWith p).apply id v = p.apply id (o.apply id v) := by
  obtain ⟨l, -, rfl⟩ := ofText_eq_ok_iff.mp hs
  obtain ⟨m, -, rfl⟩ := ofText_eq_ok_iff.mp ht
  have hnone : empty.find? id = none := rfl
  rw [mergedWith_setAll]
  unfold apply
  -- The second text decides if it has a version for the id.
  simp only [find?_setAll, hnone, Option.or_none]
  cases latest m id <;> rfl

/-! ## A mapping as a text -/

/-- An id and the text of a version that make an entry of a text: nothing in them is taken for
something else. -/
structure Writable (id version : String) : Prop where
  /-- There is an id. -/
  id_ne : id ≠ ""
  /-- The id does not start with a blank. -/
  head_not_blank : ∀ c ∈ id.toList.head?, Text.isBlank c = false
  /-- There is no colon in the id. -/
  colon_notMem : ':' ∉ id.toList
  /-- There is no comma in the id. -/
  comma_notMem_id : ',' ∉ id.toList
  /-- There is a version. -/
  version_ne : version ≠ ""
  /-- The version does not end in a blank. -/
  last_not_blank : ∀ c ∈ version.toList.getLast?, Text.isBlank c = false
  /-- There is no comma in the version. -/
  comma_notMem_version : ',' ∉ version.toList

/-- The entry of a text that an id and the text of a version make. -/
def entryText (e : String × String) : String :=
  e.1 ++ ":" ++ e.2

/-- An entry is its id and its version with a colon between them. -/
theorem toList_entryText (e : String × String) :
    (entryText e).toList = e.1.toList ++ ':' :: e.2.toList := by
  rw [entryText, String.toList_append, String.toList_append, List.append_assoc]
  rfl

section

variable {id version : String}

/-- Nothing is trimmed off an entry that was written. -/
theorem Writable.trim_eq (h : Writable id version) :
    Text.trim (entryText (id, version)).toList = id.toList ++ ':' :: version.toList := by
  rw [toList_entryText]
  refine Text.trim_eq_self (fun c hc => h.head_not_blank c ?_) fun c hc => h.last_not_blank c ?_
  · rwa [List.head?_append_of_ne_nil _ (mt String.toList_eq_nil_iff.mp h.id_ne)] at hc
  · rwa [List.append_cons, List.getLast?_append_of_ne_nil _
      (mt String.toList_eq_nil_iff.mp h.version_ne)] at hc

/-- There is no comma in an entry that was written. -/
theorem Writable.comma_notMem (h : Writable id version) :
    ',' ∉ (entryText (id, version)).toList := by
  rw [toList_entryText, List.mem_append, List.mem_cons, not_or, not_or]
  exact ⟨h.comma_notMem_id, by decide, h.comma_notMem_version⟩

/-- An entry that was written is read as the entry of a mapping is. -/
theorem Writable.readEntry_eq (h : Writable id version) :
    readEntry (entryText (id, version)).toList = readPair (.text id, .text version) := by
  have hgiven : (Scalar.text id).isGiven = true := bne_iff_ne.mpr h.id_ne
  rw [readEntry_of_trim_eq h.id_ne h.colon_notMem h.version_ne h.trim_eq,
    readPair_of_text hgiven h.version_ne]
  rfl

end

variable {mapping : List (String × String)}

/-- The entries of a text that was written are found again. -/
theorem entriesOf_intercalate (h : ∀ e ∈ mapping, Writable e.1 e.2) :
    entriesOf (",".intercalate (mapping.map entryText)) =
      mapping.map fun e => (entryText e).toList := by
  have hchars : (",".intercalate (mapping.map entryText)).toList =
      [','].intercalate (mapping.map fun e => (entryText e).toList) := by
    rw [String.toList_intercalate, List.map_map]
    rfl
  cases mapping with
  | nil => rfl
  | cons e l =>
    -- An entry has no comma to be split at, and is not blank.
    have hfree : ∀ piece ∈ (e :: l).map fun e => (entryText e).toList, ',' ∉ piece :=
      List.forall_mem_map.mpr fun d hd => (h d hd).comma_notMem
    have hkept : ∀ piece ∈ (e :: l).map fun e => (entryText e).toList,
        (!(Text.trim piece).isEmpty) = true := by
      refine List.forall_mem_map.mpr fun d hd => ?_
      rw [(h d hd).trim_eq, Bool.not_eq_true', List.isEmpty_eq_false_iff]
      exact List.append_ne_nil_of_right_ne_nil _ (List.cons_ne_nil _ _)
    rw [entriesOf, hchars, List.splitOn_intercalate ',' hfree (List.cons_ne_nil _ _),
      List.filter_eq_self.mpr hkept]

/-- A mapping whose entries can be written is read alike as a text. -/
theorem ofText_intercalate (h : ∀ e ∈ mapping, Writable e.1 e.2) :
    ofText (",".intercalate (mapping.map entryText)) =
      ofPairs (mapping.map fun e => (.text e.1, .text e.2)) := by
  rw [ofText_eq, ofPairs_eq, entriesOf_intercalate h, List.mapM_map, List.mapM_map]
  refine congrArg (Except.map empty.setAll) ?_
  induction mapping with
  | nil => rfl
  | cons e l ih =>
    obtain ⟨hfirst, hrest⟩ := List.forall_mem_cons.mp h
    rw [List.mapM_cons, List.mapM_cons, ih hrest]
    exact congrArg (· >>= _) hfirst.readEntry_eq

/-- An id and the text of a version denote the version of the id, as an entry of a mapping. -/
theorem pairDenotes_texts_iff {id version : String} {e : String × Version} :
    PairDenotes (.text id, .text version) e ↔
      id ≠ "" ∧ id = e.1 ∧ Version.parse false version = .ok e.2 := by
  constructor
  · rintro ⟨hgiven, hplain, s, htext, hversion⟩
    cases htext
    exact ⟨bne_iff_ne.mp hgiven, hplain, hversion⟩
  · rintro ⟨hne, hplain, hversion⟩
    exact ⟨bne_iff_ne.mpr hne, hplain, version, rfl, hversion⟩

/-- A mapping of different ids, none of which is empty, to texts is read as the versions of these
ids, in order. -/
theorem ofPairs_texts_eq_ok_iff (hid : ∀ e ∈ mapping, e.1 ≠ "")
    (hnodup : (mapping.map (·.1)).Nodup) {o : Overrides} :
    ofPairs (mapping.map fun e => (.text e.1, .text e.2)) = .ok o ↔
      List.Forall₂ (fun e r => e.1 = r.1 ∧ Version.parse false e.2 = .ok r.2) mapping
        o.entries := by
  have hdenotes : ∀ l : List (String × Version),
      List.Forall₂ PairDenotes (mapping.map fun e => (.text e.1, .text e.2)) l ↔
        List.Forall₂ (fun e r => e.1 = r.1 ∧ Version.parse false e.2 = .ok r.2) mapping l := by
    intro l
    simp only [List.forall₂_map_left_iff, pairDenotes_texts_iff, List.forall₂_and_left]
    exact and_iff_right hid
  -- As the ids are different, no replacement meets an earlier one.
  have hentries : ∀ l : List (String × Version),
      List.Forall₂ (fun e r => e.1 = r.1 ∧ Version.parse false e.2 = .ok r.2) mapping l →
        (empty.setAll l).entries = l := by
    intro l hl
    have hids : mapping.map (·.1) = l.map (·.1) := by
      rw [← List.forall₂_eq_eq_eq, List.forall₂_map_left_iff, List.forall₂_map_right_iff]
      exact hl.imp fun _ _ h => h.1
    exact entries_setAll (hids ▸ hnodup)
  simp only [ofPairs_eq_ok_iff, hdenotes]
  constructor
  · rintro ⟨l, hl, rfl⟩
    rwa [hentries l hl]
  · intro hl
    exact ⟨o.entries, hl, congrArg Overrides.mk (hentries _ hl)⟩

/-- Two texts with a comma between them denote overrides when both of them do, and then those of the
second one merged into those of the first one, so that an id has its version from the second text, or
else from the first one. A mapping of different ids whose entries can be written denotes the same
overrides as the text of its entries, or fails alike; what it denotes are its ids, each with its
version. -/
theorem texts_compose_and_agree_with_mappings :
    (∀ s t o, ofText (s ++ "," ++ t) = .ok o ↔
        ∃ p q, ofText s = .ok p ∧ ofText t = .ok q ∧ o = p.mergedWith q) ∧
      (∀ s t p q, ofText s = .ok p → ofText t = .ok q →
        ∀ id v, (p.mergedWith q).apply id v = q.apply id (p.apply id v)) ∧
      ∀ mapping : List (String × String), (∀ e ∈ mapping, Writable e.1 e.2) →
        ofText (",".intercalate (mapping.map entryText)) =
            ofPairs (mapping.map fun e => (.text e.1, .text e.2)) ∧
          ((mapping.map (·.1)).Nodup → ∀ o,
            ofPairs (mapping.map fun e => (.text e.1, .text e.2)) = .ok o ↔
              List.Forall₂ (fun e r => e.1 = r.1 ∧ Version.parse false e.2 = .ok r.2) mapping
                o.entries) := by
  refine ⟨fun s t o => ?_, fun s t p q => apply_mergedWith, fun mapping h => ?_⟩
  · rw [ofText_append]
    refine bind_eq_ok.trans ?_
    simp only [map_eq_ok]
    constructor
    · rintro ⟨p, hp, q, hq, rfl⟩
      exact ⟨p, q, hp, hq, rfl⟩
    · rintro ⟨p, q, hp, hq, rfl⟩
      exact ⟨p, hp, q, hq, rfl⟩
  · have hid : ∀ e ∈ mapping, e.1 ≠ "" := fun e he => (h e he).id_ne
    exact ⟨ofText_intercalate h, fun hnodup o => ofPairs_texts_eq_ok_iff hid hnodup⟩

/-- Two texts that both say something about one id, one with blanks and one with a colon in the
version, and a mapping of two ids. -/
theorem texts_compose_and_agree_with_mappings_colon :
    let mapping := [("a", "1.0"), ("b", "y:z")]
    let one : Version := .semantic ⟨1, [0], false, none, none⟩
    let p : Overrides := ⟨[("a", one), ("b", .label "s")]⟩
    let q : Overrides := ⟨[("b", .label "y:z")]⟩
    let o : Overrides := ⟨[("a", one), ("b", .label "y:z")]⟩
    ofText " a:1.0, ,b:s" = .ok p ∧ ofText "b:y:z" = .ok q ∧
      ofText (" a:1.0, ,b:s" ++ "," ++ "b:y:z") = .ok o ∧
      o.apply "b" one = q.apply "b" (p.apply "b" one) ∧
      (∀ e ∈ mapping, Writable e.1 e.2) ∧ (mapping.map (·.1)).Nodup ∧
      ofText (",".intercalate (mapping.map entryText)) = .ok o := by
  intro mapping one p q o
  obtain ⟨htexts, happly, hmappings⟩ := texts_compose_and_agree_with_mappings
  have hp : ofText " a:1.0, ,b:s" = .ok p := rfl
  have hq : ofText "b:y:z" = .ok q := rfl
  -- Of the conditions on an entry those about its ends are looked at character by character.
  have hend : ∀ o : Option Char, (o.all fun c => !Text.isBlank c) = true →
      ∀ c ∈ o, Text.isBlank c = false := by
    rintro _ h c rfl
    exact (Bool.not_eq_true' _).mp h
  have hwritable : ∀ e ∈ mapping, Writable e.1 e.2 := by
    refine List.forall_mem_cons.mpr ⟨?_, List.forall_mem_singleton.mpr ?_⟩ <;>
      exact ⟨by decide, hend _ (by decide +kernel), by decide, by decide, by decide,
        hend _ (by decide +kernel), by decide⟩
  obtain ⟨hsame, hpairs⟩ := hmappings mapping hwritable
  have hversions : List.Forall₂ (fun e r => e.1 = r.1 ∧ Version.parse false e.2 = .ok r.2) mapping
      o.entries := .cons ⟨rfl, rfl⟩ (.cons ⟨rfl, rfl⟩ .nil)
  have hnodup : (mapping.map (·.1)).Nodup := by decide
  exact ⟨hp, hq, (htexts _ _ o).mpr ⟨p, q, hp, hq, rfl⟩, happly _ _ p q hp hq "b" one, hwritable,
    hnodup, hsame.trans ((hpairs hnodup o).mpr hversions)⟩

end Semrange.Overrides
