/-
  QueryCanvas.Suggestion.Range

  The class that the ontology gives to the object of an edge.
-/

import QueryCanvas.Ontology
import QueryCanvas.Sparql.Content

namespace QueryCanvas

/-- The ranges of a property. -/
inductive RangeInference
  /-- No fact has the property. -/
  | unknown
  /-- All facts agree on one range. -/
  | single (range : Term)
  /-- The facts have several ranges. -/
  | amalgam (ranges : List Term)
deriving DecidableEq, Repr

namespace RangeInference

/-- Adds a range unless its IRI is present. -/
def addRange (ranges : List Term) (range : Term) : List Term :=
  if ranges.any (·.iri = range.iri) then ranges else ranges ++ [range]

/-- What a list of ranges without repetition amounts to. -/
def ofRanges : List Term → RangeInference
  | [] => unknown
  | [range] => single range
  | ranges => amalgam ranges

/-- The ranges of the property that an edge shows, each once, in the order of loading. -/
def infer (content : String) (o : Ontology) : RangeInference :=
  ofRanges ((o.factsForProperty (Sparql.localName content)).foldl
    (fun ranges f => addRange ranges f.range) [])

def ranges : RangeInference → List Term
  | unknown => []
  | single range => [range]
  | amalgam ranges => ranges

/-- The label of the class: the labels of the ranges, with bars between them. -/
def classLabel? (r : RangeInference) : Option String :=
  match r with
  | unknown => none
  | single range => some range.label
  | amalgam ranges => some (Text.joinWith " | " (ranges.map Term.label))

/-- True if several ranges were merged. -/
def isAmalgam : RangeInference → Bool
  | amalgam _ => true
  | unknown | single _ => false

end RangeInference

end QueryCanvas
