/-
  QueryCanvas.Ontology.Term

  Terms of the ontology: an IRI with its two parts, the label of the second and
  the prefix under which the IRI is shown.
-/

import QueryCanvas.Prefix.Table
import QueryCanvas.Text.Cut

namespace QueryCanvas

/-! ## The parts of an IRI -/

namespace Iri

open QueryCanvas.Text

/-- True for the characters behind which an IRI may be split. -/
def isSeparator (c : Char) : Bool := c == '#' || c == '/'

/-- Splits an IRI behind its last `#` or `/` into expansion and local name. Without either the
    expansion is empty. -/
def split (iri : String) : String × String :=
  let parts := cutAfterLast isSeparator iri.toList
  (String.ofList parts.1, String.ofList parts.2)

/-- The label of a local name: underscores read as spaces. -/
def labelOf (localName : String) : String :=
  String.ofList (localName.toList.map fun c => if c = '_' then ' ' else c)

end Iri

/-! ## Terms -/

/-- An IRI in a role of an ontology fact. -/
structure Term where
  iri : String
  expansion : String
  /-- The prefix, or the expansion while no prefix is known. -/
  short : String
  localName : String
  label : String
deriving DecidableEq, Repr

namespace Term

/-- Splits an IRI and looks up its prefix. -/
def resolve (iri : String) (prefixes : PrefixTable) : PrefixTable × Term :=
  let parts := Iri.split iri
  let looked := if parts.1 = "" then (prefixes, "") else prefixes.resolve parts.1
  (looked.1, ⟨iri, parts.1, looked.2, parts.2, Iri.labelOf parts.2⟩)

/-- True once the prefix is known. -/
def hasPrefix (t : Term) : Bool := t.short ≠ t.expansion || t.expansion = ""

/-- Prefix and local name, or the full IRI while no prefix is known. -/
def qualifiedName (t : Term) : String :=
  if t.hasPrefix && t.expansion ≠ "" then t.short ++ ":" ++ t.localName else t.iri

/-- Takes up a prefix that has become known. -/
def refresh (t : Term) (prefixes : PrefixTable) : Term :=
  match prefixes.peek? t.expansion with
  | some short => { t with short := short }
  | none => t

/-- True if `refresh` changes the term. -/
def isStale (t : Term) (prefixes : PrefixTable) : Bool :=
  match prefixes.peek? t.expansion with
  | some short => short ≠ t.short
  | none => false

end Term

end QueryCanvas
