/-
  QueryCanvas.Text.Scan

  Readers that take characters off the front of a text, or fail.
-/

import QueryCanvas.Text.Cut

namespace QueryCanvas.Text

/-- A reader: from a text to a value and the rest of the text. -/
abbrev Scan (β : Type) := StateT (List Char) Option β

namespace Scan

variable {β : Type}

/-- One character of a class. -/
def char (p : Char → Bool) : Scan Char
  | c :: cs => if p c then some (c, cs) else none
  | [] => none

/-- The given characters. -/
def exactly : List Char → Scan Unit
  | [], cs => some ((), cs)
  | w :: ws, c :: cs => if w = c then exactly ws cs else none
  | _ :: _, [] => none

/-- The given text. -/
def text (s : String) : Scan Unit := exactly s.toList

/-- The longest run of characters of a class. -/
def run (p : Char → Bool) : Scan (List Char) := fun cs => some (cs.takeWhile p, cs.dropWhile p)

/-- The longest run of characters of a class, at least one. -/
def run1 (p : Char → Bool) : Scan (List Char) := fun cs =>
  if (cs.takeWhile p).isEmpty then none else some (cs.takeWhile p, cs.dropWhile p)

/-- Exactly `n` characters of a class. -/
def count (n : Nat) (p : Char → Bool) : Scan (List Char) := fun cs =>
  let front := cs.take n
  if front.length = n && front.all p then some (front, cs.drop n) else none

/-- What the reader reads, if it succeeds. -/
def optional (r : Scan β) : Scan (Option β) := fun cs =>
  match r cs with
  | some (b, rest) => some (some b, rest)
  | none => some (none, cs)

/-- True if the reader succeeds; then its text is gone. -/
def succeeds (r : Scan β) : Scan Bool := do pure (← optional r).isSome

/-- Reads until the text is used up or the reader fails, at most once for each character of
    `budget`. -/
def manyWithin (r : Scan β) : List Char → Scan (List β)
  | _, [] => some ([], [])
  | [], cs => some ([], cs)
  | _ :: budget, cs =>
    match r cs with
    | none => some ([], cs)
    | some (b, rest) => (manyWithin r budget rest).map fun (bs, rest) => (b :: bs, rest)

/-- Reads until the text is used up or the reader fails. The reader has to take something away
    each time, so that it cannot succeed more often than there are characters. -/
def many (r : Scan β) : Scan (List β) := fun cs => manyWithin r cs cs

/-- The end of the text. -/
def atEnd : Scan Unit
  | [] => some ((), [])
  | _ :: _ => none

/-- The value of a reader that uses up the whole text. -/
def whole? (r : Scan β) (s : String) : Option β :=
  match r s.toList with
  | some (b, []) => some b
  | _ => none

end Scan

/-- The value of a hexadecimal digit. -/
def hexValue? (c : Char) : Option Nat :=
  if '0' ≤ c ∧ c ≤ '9' then some (c.toNat - 48)
  else if 'a' ≤ c ∧ c ≤ 'f' then some (c.toNat - 87)
  else if 'A' ≤ c ∧ c ≤ 'F' then some (c.toNat - 55)
  else none

/-- The value of digits in a base. Characters that are no digits count as zero. -/
def digitsValue (base : Nat) (digits : List Char) : Nat :=
  digits.foldl (fun n c => n * base + (hexValue? c).getD 0) 0

/-- The character with a code, if there is one. -/
def charOfCode? (code : Nat) : Option Char :=
  if code.isValidChar then some (Char.ofNat code) else none

end QueryCanvas.Text
