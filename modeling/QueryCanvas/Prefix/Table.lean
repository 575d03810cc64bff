/-
  QueryCanvas.Prefix.Table

  Which short prefix stands for which namespace.

  Looking up a namespace never waits: an unknown one is entered as pending and
  a request for it is queued. Requests are handed out, answered by a prefix
  service at any later time, and the answers are recorded. A request carries a
  generation, so that an answer to a question that was meanwhile forgotten or
  asked anew is told apart and dropped.

  Several namespaces may share a prefix. Read backwards, a prefix stands for
  the namespace that took it first.
-/

import QueryCanvas.Dict
import QueryCanvas.Service

namespace QueryCanvas

/-- What is known about the prefix of a namespace. -/
inductive PrefixEntry
  | resolved (short : String)
  /-- Asked for by the request of this generation. -/
  | pending (generation : Nat)
  /-- The service had no prefix; it is not asked again. -/
  | failed
deriving DecidableEq, Repr

/-- A question for the prefix service. -/
structure PrefixRequest where
  expansion : String
  generation : Nat
deriving DecidableEq, Repr

/-- The local name that is put behind a namespace to ask for its prefix. -/
def probeName : String := "a"

/-- The term that the service is asked to shorten: the namespace with a fixed local name. -/
def PrefixRequest.term (r : PrefixRequest) : String := r.expansion ++ probeName

/-- The prefix in the shortened term, if it has the form `prefix:a`. -/
def prefixOfAnswer? (answer : String) : Option String :=
  match answer.toList.reverse with
  | 'a' :: ':' :: rest => some (String.ofList rest.reverse)
  | _ => none

/-- Namespaces and their prefixes. -/
structure PrefixTable where
  /-- The namespace of the empty prefix. -/
  base : String
  entries : Dict String PrefixEntry
  /-- The first namespace of each prefix. -/
  owners : Dict String String
  /-- Requests that have not been handed out, oldest first. -/
  queue : List PrefixRequest
  /-- Generation of the latest request. -/
  generation : Nat

namespace PrefixTable

/-- A table that knows the base namespace only. -/
def new (base : String) : PrefixTable := ⟨base, .empty, .empty, [], 0⟩

/-! ## Looking -/

/-- The prefix of a namespace, if it is known. -/
def peek? (t : PrefixTable) (expansion : String) : Option String :=
  if expansion = t.base then some ""
  else
    match t.entries.get? expansion with
    | some (.resolved short) => some short
    | _ => none

/-- The namespace of a prefix. -/
def expansionOf? (t : PrefixTable) (short : String) : Option String :=
  if short = "" then some t.base else t.owners.get? short

/-- True while a request has no answer. -/
def hasPending (t : PrefixTable) : Bool :=
  t.entries.anyValue fun
    | .pending _ => true
    | _ => false

/-! ## Changing -/

/-- The owners after a namespace has given up the prefix that it has now. -/
def disowned (t : PrefixTable) (expansion : String) : Dict String String :=
  match t.entries.get? expansion with
  | some (.resolved old) =>
    if t.owners.get? old = some expansion then t.owners.erase old else t.owners
  | _ => t.owners

/-- Enters what is known about a namespace. A new prefix is taken if nobody has it. -/
def setEntry (t : PrefixTable) (expansion : String) (entry : PrefixEntry) : PrefixTable :=
  -- the old prefix is free before the new one is claimed, in case they are the same
  let owners := t.disowned expansion
  let owners' :=
    match entry with
    | .resolved short =>
      if (owners.get? short).isSome then owners else owners.insert short expansion
    | _ => owners
  { t with owners := owners', entries := t.entries.insert expansion entry }

/-- The prefix of a namespace, or the namespace itself while none is known. The first question
    for a namespace queues a request. -/
def resolve (t : PrefixTable) (expansion : String) : PrefixTable × String :=
  if expansion = t.base then (t, "")
  else
    match t.entries.get? expansion with
    | some (.resolved short) => (t, short)
    | some (.pending _) | some .failed => (t, expansion)
    | none =>
      let generation := t.generation + 1
      let entered := t.setEntry expansion (.pending generation)
      ({ entered with
          generation := generation
          queue := t.queue ++ [⟨expansion, generation⟩] }, expansion)

/-- Records a prefix that is known without asking. -/
def insert (t : PrefixTable) (expansion short : String) : PrefixTable :=
  t.setEntry expansion (.resolved short)

/-- Hands out the queued requests. -/
def takeRequests (t : PrefixTable) : PrefixTable × List PrefixRequest :=
  ({ t with queue := [] }, t.queue)

/-- What an answer of the service says about a namespace. -/
def entryOf (answer : Except ServiceError String) : PrefixEntry :=
  match answer with
  | .ok shortened =>
    match prefixOfAnswer? shortened with
    | some short => .resolved short
    | none => .failed
  | .error _ => .failed

/-- Records the answer to a request. The answer is false, and nothing changes, unless the
    namespace is waiting for this very request. -/
def complete (t : PrefixTable) (request : PrefixRequest) (answer : Except ServiceError String) :
    PrefixTable × Bool :=
  if t.entries.get? request.expansion = some (.pending request.generation) then
    (t.setEntry request.expansion (entryOf answer), true)
  else (t, false)

/-- Forgets all namespaces. Answers to earlier requests no longer count. -/
def clear (t : PrefixTable) : PrefixTable :=
  { t with entries := .empty, owners := .empty, queue := [] }

end PrefixTable

end QueryCanvas
