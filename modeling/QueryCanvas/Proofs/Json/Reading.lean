/-
  QueryCanvas.Proofs.Json.Reading

  A written value is read back.

  The tokens of a value put the value where it belongs: into the innermost open
  array or object, or at the end of the text (`assemble_tokensOf`). With its
  tokens found in its text, the value itself is read (`Plain.read_write`).
-/

import QueryCanvas.Proofs.Json.Token

namespace QueryCanvas.Json

/-! ## Putting tokens together -/

/-- A finished value goes into what is open around it, or it is the value of the text. -/
def deliver (stack : List Frame) (value : Json) (rest : List Token) : Document :=
  match stack with
  | [] => ⟨value, !rest.isEmpty⟩
  | frame :: outer => assemble (frame.add value :: outer) .next rest

section Steps

variable {stack : List Frame} {place : Place} {rest : List Token}

/-- The places where a value may stand. -/
def Place.TakesValue (place : Place) : Prop := place = .value ∨ place = .firstItem

theorem assemble_scalar (h : place.TakesValue) (value : Json) :
    assemble stack place (.scalar value :: rest) = deliver stack value rest := by
  rcases h with rfl | rfl <;> cases stack <;> rfl

theorem assemble_openArray (h : place.TakesValue) :
    assemble stack place (.openArray :: rest) = assemble (.items [] :: stack) .firstItem rest := by
  rcases h with rfl | rfl <;> rfl

theorem assemble_openObject (h : place.TakesValue) :
    assemble stack place (.openObject :: rest) =
      assemble (.members [] :: stack) .firstKey rest := by
  rcases h with rfl | rfl <;> rfl

theorem nested_of_le (shallow : stack.length < nestingLimit) (value : Json) :
    nested stack value = value := by
  have hdrop : stack.drop (nestingLimit - 1) = [] :=
    List.drop_eq_nil_of_le (Nat.le_sub_one_of_lt shallow)
  rw [nested, hdrop]
  rfl

theorem assemble_closeArray (shallow : stack.length < nestingLimit) (found : List Json)
    (h : place = .next ∨ place = .firstItem) :
    assemble (.items found :: stack) place (.closeArray :: rest) =
      deliver stack (.array found.reverse) rest := by
  rw [← nested_of_le shallow (.array found.reverse)]
  rcases h with rfl | rfl <;> cases stack <;> rfl

theorem assemble_closeObject (shallow : stack.length < nestingLimit)
    (found : List (String × Json)) (h : place = .next ∨ place = .firstKey) :
    assemble (.members found :: stack) place (.closeObject :: rest) =
      deliver stack (.object found.reverse) rest := by
  rw [← nested_of_le shallow (.object found.reverse)]
  rcases h with rfl | rfl <;> cases stack <;> rfl

theorem assemble_key (found : List (String × Json)) (key : String)
    (h : place = .key ∨ place = .firstKey) :
    assemble (.members found :: stack) place (.scalar (.text key) :: .colon :: rest) =
      assemble (.member found (some key) :: stack) .value rest := by
  rcases h with rfl | rfl <;> rfl

end Steps

mutual

/-- The tokens of a value put it where it belongs, if the nesting does not get too deep. -/
theorem assemble_tokensOf : (j : Json) → {room : Nat} → j.Plain room → (stack : List Frame) →
    stack.length + room ≤ nestingLimit → {place : Place} → place.TakesValue →
    (rest : List Token) → assemble stack place (j.tokensOf ++ rest) = deliver stack j rest
  | null, _, _, _, _, _, takes, rest => assemble_scalar takes null
  | bool b, _, _, _, _, _, takes, rest => assemble_scalar takes (bool b)
  | number n, _, _, _, _, _, takes, rest => assemble_scalar takes (number n)
  | text s, _, _, _, _, _, takes, rest => assemble_scalar takes (text s)
  | array items, room + 1, plain, stack, shallow, _, takes, rest => by
    rw [tokensOf, List.cons_append, assemble_openArray takes, List.append_assoc]
    -- only an empty array may be closed where its first item is expected
    by_cases hitems : items = []
    · subst hitems
      exact assemble_closeArray (by omega) [] (.inr rfl)
    · exact assemble_itemTokens items hitems plain stack (by omega) [] (.inr rfl) rest
  | object members, room + 1, plain, stack, shallow, _, takes, rest => by
    rw [tokensOf, List.cons_append, assemble_openObject takes, List.append_assoc]
    by_cases hmembers : members = []
    · subst hmembers
      exact assemble_closeObject (by omega) [] (.inr rfl)
    · exact assemble_memberTokens members hmembers plain stack (by omega) [] (.inr rfl) rest

/-- The tokens of the items that are still to come, behind those that were found. -/
theorem assemble_itemTokens : (items : List Json) → items ≠ [] → {room : Nat} →
    AllPlain items room → (stack : List Frame) → stack.length + 1 + room ≤ nestingLimit →
    (found : List Json) → {place : Place} → place.TakesValue → (rest : List Token) →
    assemble (.items found :: stack) place (itemTokens items ++ ([.closeArray] ++ rest)) =
      deliver stack (.array (found.reverse ++ items)) rest
  | [], nonempty, _, _, _, _, _, _, _, _ => absurd rfl nonempty
  | [j], _, _, plain, stack, shallow, found, _, takes, rest => by
    rw [itemTokens,
      assemble_tokensOf j plain.1 (.items found :: stack) (by simpa using shallow) takes]
    show assemble (.items (j :: found) :: stack) .next (.closeArray :: rest) = _
    rw [assemble_closeArray (by omega) _ (.inl rfl), List.reverse_cons]
  | j :: next :: items, _, _, plain, stack, shallow, found, _, takes, rest => by
    rw [itemTokens, List.append_assoc,
      assemble_tokensOf j plain.1 (.items found :: stack) (by simpa using shallow) takes]
    show assemble (.items (j :: found) :: stack) .value
      (itemTokens (next :: items) ++ ([.closeArray] ++ rest)) = _
    rw [assemble_itemTokens (next :: items) (by simp) plain.2 stack shallow _ (.inl rfl),
      List.reverse_cons,
      List.append_assoc, List.singleton_append]

/-- The tokens of the members that are still to come, behind those that were found. -/
theorem assemble_memberTokens : (members : List (String × Json)) → members ≠ [] → {room : Nat} →
    AllMembersPlain members room → (stack : List Frame) → stack.length + 1 + room ≤ nestingLimit →
    (found : List (String × Json)) → {place : Place} → (place = .key ∨ place = .firstKey) →
    (rest : List Token) →
    assemble (.members found :: stack) place (memberTokens members ++ ([.closeObject] ++ rest)) =
      deliver stack (.object (found.reverse ++ members)) rest
  | [], nonempty, _, _, _, _, _, _, _, _ => absurd rfl nonempty
  | [(key, j)], _, _, plain, stack, shallow, found, _, takes, rest => by
    rw [memberTokens, List.cons_append, List.cons_append, assemble_key found key takes,
      assemble_tokensOf j plain.1 (.member found (some key) :: stack) (by simpa using shallow)
        (.inl rfl)]
    show assemble (.members ((key, j) :: found) :: stack) .next (.closeObject :: rest) = _
    rw [assemble_closeObject (by omega) _ (.inl rfl), List.reverse_cons]
  | (key, j) :: next :: members, _, _, plain, stack, shallow, found, _, takes, rest => by
    rw [memberTokens, List.cons_append, List.cons_append, assemble_key found key takes,
      List.append_assoc,
      assemble_tokensOf j plain.1 (.member found (some key) :: stack) (by simpa using shallow)
        (.inl rfl)]
    show assemble (.members ((key, j) :: found) :: stack) .key
      (memberTokens (next :: members) ++ ([.closeObject] ++ rest)) = _
    rw [assemble_memberTokens (next :: members) (by simp) plain.2 stack shallow _ (.inl rfl),
      List.reverse_cons,
      List.append_assoc, List.singleton_append]

end

/-- A value is read back from its text, and nothing is left. -/
theorem Plain.read_write {j : Json} {room : Nat} (plain : j.Plain room)
    (shallow : room ≤ nestingLimit) : Document.read j.write = ⟨j, false⟩ := by
  have hread := assemble_tokensOf j plain [] (by simpa using shallow) (.inl rfl) []
  rw [List.append_nil] at hread
  rw [Document.read, plain.tokens_write, hread]
  rfl

end QueryCanvas.Json
