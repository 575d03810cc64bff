/-
  QueryCanvas.Proofs.Session.Proceeding

  What a session does between two answers of a service.

  Only two calls take up something from outside: finishing a load replaces the
  facts, and finishing a batch of prefixes shows them. Every other call, and
  catching up with the canvas, comes down to two kinds of steps (`Proceeds`). A
  property of sessions is looked at for these, and not for each call anew.
-/

import QueryCanvas.Proofs.Session.Reachable

namespace QueryCanvas.Session

/-- What becomes of a session without new facts and prefixes. -/
inductive Proceeds : Session → Session → Prop
  /-- The canvas, what was inferred and the gate may change, and suggestions may be dropped. -/
  | drop {s s' : Session} (ontology : s'.ontology = s.ontology)
      (prefixes : s'.prefixes = s.prefixes) (lastIndex : s'.lastIndex = s.lastIndex)
      (suggestions : s'.suggestions.Sublist s.suggestions) : Proceeds s s'
  /-- Suggestions are looked for. -/
  | suggestFor (s : Session) (selection : Selection) : Proceeds s (s.suggestFor selection)
  | trans {a b c : Session} (before : Proceeds a b) (after : Proceeds b c) : Proceeds a c

namespace Proceeds

theorem refl (s : Session) : Proceeds s s := .drop rfl rfl rfl (List.Sublist.refl _)

/-! ## Catching up -/

theorem inferRange (s : Session) (target : EdgeId × String × NodeId) :
    Proceeds s (s.inferRange target) :=
  .drop rfl rfl rfl (List.Sublist.refl _)

theorem handleEvent (s : Session) (event : Event Float) : Proceeds s (s.handleEvent event) := by
  cases event with
  | selectionChanged selection =>
    simp only [Session.handleEvent]
    split
    · have hseen : Proceeds s { s with gate := (s.gate.see selection).1 } :=
        .drop rfl rfl rfl (List.Sublist.refl _)
      exact hseen.trans (suggestFor _ selection)
    · exact .drop rfl rfl rfl (List.Sublist.refl _)
  | diagramChanged diagram => exact refl s
  | selectionCleared => exact refl s

theorem foldl {β : Type} {f : Session → β → Session} (step : ∀ s b, Proceeds s (f s b))
    (l : List β) (s : Session) : Proceeds s (l.foldl f s) := by
  refine List.foldlRecOn (motive := Proceeds s) l f (refl s) ?_
  intro s' hs' b _
  exact hs'.trans (step s' b)

theorem prune (s : Session) : Proceeds s s.prune := .drop rfl rfl rfl List.filter_sublist

theorem readEvents (s : Session) : Proceeds s s.readEvents := by
  have hread : Proceeds s { s with canvas := s.canvas.takeEvents.2 } :=
    .drop rfl rfl rfl (List.Sublist.refl _)
  exact hread.trans (foldl handleEvent s.canvas.takeEvents.1 _)

theorem sync (s : Session) : Proceeds s s.sync := by
  have hinfer : Proceeds s s.inferRanges := foldl inferRange _ s
  exact (hinfer.trans (readEvents _)).trans (prune _)

/-! ## Calls -/

/-- Any change of the canvas. -/
theorem edit {β : Type} (s : Session) (change : Canvas Float → Canvas Float × β) :
    Proceeds s (s.edit change).1 := by
  have hchanged : Proceeds s { s with canvas := (change s.canvas).1 } :=
    .drop rfl rfl rfl (List.Sublist.refl _)
  exact hchanged.trans (sync _)

theorem refreshSuggestions (s : Session) : Proceeds s s.refreshSuggestions := by
  unfold Session.refreshSuggestions
  split
  · exact suggestFor s _
  · exact .drop rfl rfl rfl (List.nil_sublist _)

theorem placeEdge (s : Session) (suggestion : EdgeSuggestion) :
    Proceeds s (s.placeEdge suggestion).1 := by
  unfold Session.placeEdge
  split
  · exact refl s
  · dsimp only
    split
    · exact .drop rfl rfl rfl (List.Sublist.refl _)
    · split <;> exact .drop rfl rfl rfl (List.Sublist.refl _)

theorem placeNode (s : Session) (suggestion : NodeSuggestion) :
    Proceeds s (s.placeNode suggestion).1 := by
  unfold Session.placeNode
  split
  · exact refl s
  · split
    · exact refl s
    · exact .drop rfl rfl rfl (List.Sublist.refl _)

theorem place (s : Session) (suggestion : Suggestion) : Proceeds s (s.place suggestion).1 := by
  cases suggestion with
  | edge suggestion => exact placeEdge s suggestion
  | node suggestion => exact placeNode s suggestion

theorem removeSuggestion (s : Session) (index : Nat) :
    Proceeds s (s.removeSuggestion index).1 := by
  rcases s.removeSuggestion_cases index with h | h
  · exact h.symm ▸ refl s
  · rw [h]
    exact .drop rfl rfl rfl List.filter_sublist

theorem acceptSuggestion (s : Session) (index : Nat) :
    Proceeds s (s.acceptSuggestion index).1 := by
  rcases s.acceptSuggestion_cases index with h | ⟨suggestion, h | h⟩
  · exact h.symm ▸ refl s
  · exact h.symm ▸ place s suggestion
  · rw [h]
    refine (place s suggestion).trans (.trans ?_ (sync _))
    exact .drop rfl rfl rfl List.filter_sublist

theorem clear (s : Session) : Proceeds s s.clear := by
  have hcleared : Proceeds s { s with canvas := s.canvas.clear, inferred := .empty } :=
    .drop rfl rfl rfl (List.Sublist.refl _)
  exact (hcleared.trans (sync _)).trans (.drop rfl rfl rfl (List.nil_sublist _))

end Proceeds

end QueryCanvas.Session
