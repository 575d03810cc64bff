/-
  QueryCanvas.Dict

  Finite maps that remember the order in which their keys first came in.

  A `Dict` is a list of pairs in which no key stands twice. Writing to a key
  that is present keeps its place; a new key goes to the end. The view of a
  dictionary is `get?`: `get?_insert`, `get?_erase` and `get?_filterKeys` say
  what each operation does to it, so that nothing else has to look at the list.
-/

namespace QueryCanvas

variable {κ ν : Type} [DecidableEq κ]

/-! ## Association lists -/

/-- Writes `v` at `k`: in place if the key is present, at the end otherwise. -/
def upsert (k : κ) (v : ν) : List (κ × ν) → List (κ × ν)
  | [] => [(k, v)]
  | (k', v') :: rest => if k' = k then (k, v) :: rest else (k', v') :: upsert k v rest

/-- Writing to a key adds it to the keys exactly when it was missing. -/
theorem keys_upsert (k : κ) (v : ν) (l : List (κ × ν)) :
    (upsert k v l).map Prod.fst
      = if k ∈ l.map Prod.fst then l.map Prod.fst else l.map Prod.fst ++ [k] := by
  induction l with
  | nil => simp [upsert]
  | cons p rest ih =>
    obtain ⟨k', v'⟩ := p
    by_cases h : k' = k
    · simp [upsert, h]
    · have h' : ¬ k = k' := fun e => h e.symm
      simp only [upsert, h, if_false, List.map_cons, ih, List.mem_cons, h', false_or]
      split <;> simp_all

theorem nodup_upsert (k : κ) (v : ν) {l : List (κ × ν)} (h : (l.map Prod.fst).Nodup) :
    ((upsert k v l).map Prod.fst).Nodup := by
  rw [keys_upsert]
  split
  · exact h
  · rename_i hk
    rw [List.nodup_append]
    refine ⟨h, by simp, ?_⟩
    intro a ha b hb hab
    simp only [List.mem_singleton] at hb
    exact hk (hb ▸ hab ▸ ha)

/-- The value beside the first `k`. -/
def valueAt (k : κ) : List (κ × ν) → Option ν
  | [] => none
  | (k', v) :: rest => if k' = k then some v else valueAt k rest

theorem valueAt_upsert (k k' : κ) (v : ν) (l : List (κ × ν)) :
    valueAt k' (upsert k v l) = if k = k' then some v else valueAt k' l := by
  induction l with
  | nil => simp [upsert, valueAt]
  | cons e rest ih =>
    obtain ⟨a, w⟩ := e
    by_cases ha : a = k
    · subst ha
      by_cases h : a = k' <;> simp [upsert, valueAt, h]
    · by_cases h : a = k'
      · subst h
        simp [upsert, valueAt, ha, Ne.symm ha]
      · simp [upsert, valueAt, ha, h, ih]

/-- A new key goes to the end. -/
theorem upsert_of_notMem {k : κ} (v : ν) {l : List (κ × ν)} (new : k ∉ l.map Prod.fst) :
    upsert k v l = l ++ [(k, v)] := by
  induction l with
  | nil => rfl
  | cons e rest ih =>
    rw [List.map_cons, List.mem_cons, not_or] at new
    rw [upsert, if_neg (Ne.symm new.1), ih new.2, List.cons_append]

/-- Writing to two keys of which one is present leads to the same in either order. -/
theorem upsert_comm {k k' : κ} (distinct : k ≠ k') (v v' : ν) {l : List (κ × ν)}
    (present : (valueAt k l).isSome) :
    upsert k' v' (upsert k v l) = upsert k v (upsert k' v' l) := by
  induction l with
  | nil => cases present
  | cons e rest ih =>
    obtain ⟨a, w⟩ := e
    by_cases hk : a = k
    · subst hk
      simp [upsert, distinct]
    · have hrest : (valueAt k rest).isSome := by simpa [valueAt, hk] using present
      by_cases hk' : a = k'
      · subst hk'
        simp [upsert, hk]
      · simp [upsert, hk, hk', ih hrest]

theorem valueAt_filter_key (p : κ → Bool) (k : κ) (l : List (κ × ν)) :
    valueAt k (l.filter (fun e => p e.1)) = if p k then valueAt k l else none := by
  induction l with
  | nil => simp [valueAt]
  | cons e rest ih =>
    obtain ⟨a, w⟩ := e
    rw [List.filter_cons]
    by_cases hk : a = k
    · subst hk
      cases hp : p a
      · simpa [hp] using ih
      · simp [valueAt]
    · cases hp : p a <;> simp [valueAt, hk, ih]

/-! ## Dictionaries -/

/-- A finite map from `κ` to `ν` in the order of first insertion. -/
structure Dict (κ ν : Type) where
  /-- The pairs, oldest key first. -/
  entries : List (κ × ν)
  /-- No key stands twice. -/
  nodup : (entries.map Prod.fst).Nodup

namespace Dict

/-- The dictionary without keys. -/
def empty : Dict κ ν := ⟨[], List.nodup_nil⟩

instance : Inhabited (Dict κ ν) := ⟨⟨[], List.nodup_nil⟩⟩

/-- The value at `k`, if there is one. -/
def get? (d : Dict κ ν) (k : κ) : Option ν := valueAt k d.entries

/-- The keys, oldest first. -/
def keys (d : Dict κ ν) : List κ := d.entries.map Prod.fst

def insert (d : Dict κ ν) (k : κ) (v : ν) : Dict κ ν :=
  ⟨upsert k v d.entries, nodup_upsert k v d.nodup⟩

/-- Keeps the keys that satisfy `p`. -/
def filterKeys (d : Dict κ ν) (p : κ → Bool) : Dict κ ν :=
  ⟨d.entries.filter (fun e => p e.1),
    List.Nodup.sublist (List.filter_sublist.map Prod.fst) d.nodup⟩

/-- Forgets `k`. -/
def erase (d : Dict κ ν) (k : κ) : Dict κ ν := d.filterKeys (· != k)

/-- True if some value satisfies `p`. -/
def anyValue (d : Dict κ ν) (p : ν → Bool) : Bool := d.entries.any (fun e => p e.2)

/-- Writes the pairs one after the other: of two values for one key the later stays. -/
def ofPairs (l : List (κ × ν)) : Dict κ ν :=
  l.foldl (fun d e => d.insert e.1 e.2) empty

omit [DecidableEq κ] in
@[ext] theorem ext_entries {d e : Dict κ ν} (h : d.entries = e.entries) : d = e := by
  cases d; cases e; simp_all

@[simp] theorem get?_empty (k : κ) : (empty : Dict κ ν).get? k = none := rfl

@[simp] theorem get?_insert (d : Dict κ ν) (k k' : κ) (v : ν) :
    (d.insert k v).get? k' = if k = k' then some v else d.get? k' :=
  valueAt_upsert k k' v d.entries

@[simp] theorem get?_filterKeys (d : Dict κ ν) (p : κ → Bool) (k : κ) :
    (d.filterKeys p).get? k = if p k then d.get? k else none :=
  valueAt_filter_key p k d.entries

@[simp] theorem get?_erase (d : Dict κ ν) (k k' : κ) :
    (d.erase k).get? k' = if k = k' then none else d.get? k' := by
  by_cases h : k = k'
  · simp [erase, h]
  · simp [erase, h, Ne.symm h]

/-- Writing to two keys of which one is present leads to the same in either order. -/
theorem insert_comm {d : Dict κ ν} {k k' : κ} (distinct : k ≠ k') (v v' : ν)
    (present : (d.get? k).isSome) : (d.insert k v).insert k' v' = (d.insert k' v').insert k v :=
  ext_entries (upsert_comm distinct v v' present)

/-- Pairs with new keys go to the end. -/
theorem entries_foldl_insert {l : List (κ × ν)} {d : Dict κ ν}
    (new : (d.keys ++ l.map Prod.fst).Nodup) :
    (l.foldl (fun d e => d.insert e.1 e.2) d).entries = d.entries ++ l := by
  induction l generalizing d with
  | nil => simp
  | cons e rest ih =>
    obtain ⟨k, v⟩ := e
    have hk : k ∉ d.entries.map Prod.fst := fun h =>
      (List.nodup_append.1 new).2.2 k h k (by simp) rfl
    have hinsert : (d.insert k v).entries = d.entries ++ [(k, v)] := upsert_of_notMem v hk
    have hrest : ((d.insert k v).keys ++ rest.map Prod.fst).Nodup := by
      simpa [keys, hinsert] using new
    rw [List.foldl_cons, ih hrest, hinsert, List.append_assoc]
    rfl

/-- A dictionary is made up of its pairs. -/
@[simp] theorem ofPairs_entries (d : Dict κ ν) : ofPairs d.entries = d :=
  ext_entries (entries_foldl_insert d.nodup)

/-- After several pairs were written, a key has the value that it had before or that it is written
    with, if these are all the same. -/
theorem get?_foldl_insert {l : List (κ × ν)} {k : κ} {v : ν} (agree : ∀ e ∈ l, e.1 = k → e.2 = v)
    {d : Dict κ ν} (h : d.get? k = some v ∨ k ∈ l.map Prod.fst) :
    (l.foldl (fun d e => d.insert e.1 e.2) d).get? k = some v := by
  induction l generalizing d with
  | nil => simpa using h
  | cons e rest ih =>
    rw [List.foldl_cons]
    refine ih (fun e' he' => agree e' (List.mem_cons_of_mem _ he')) ?_
    rw [get?_insert]
    by_cases hk : e.1 = k
    · exact .inl (by rw [if_pos hk, agree e (by simp) hk])
    · rw [if_neg hk]
      simpa [Ne.symm hk] using h

end Dict

end QueryCanvas
