/-
  QueryCanvas.Proofs.Wire.Selection

  The JSON forms of elements, selections and clicks.
-/

import QueryCanvas.Proofs.Canvas.Evolution
import QueryCanvas.Proofs.Wire.Diagram

namespace QueryCanvas

open Json (Decoder Record HasKey plain_natural plain_object plain_text)
open Json.Decode (tagged_cons yields_tagged yields_true)
open Json.Record (fills_field yields_field)

/-! ## Elements -/

namespace Json.Decode

variable {β : Type} {ofName? : String → Option β} {P : β → Prop}

theorem identity_natural {n : Nat} (h : n < 0x100000000) : identity (.natural n) = .ok n :=
  if_pos h

theorem yields_word (h : ∀ s b, ofName? s = some b → P b) : Decoder.Yields (word ofName?) P := by
  intro j b _ hread
  obtain ⟨s, -, hname⟩ := bind_eq_ok_iff.1 hread
  cases hfound : ofName? s with
  | none =>
    rw [hfound] at hname
    cases hname
  | some b' =>
    rw [hfound] at hname
    cases hname
    exact h s b hfound

theorem yields_name (h : ∀ s b, ofName? s = some b → P b) : Decoder.Yields (name ofName?) P := by
  intro j b hrange hread
  unfold name at hread
  split at hread
  · exact yields_word h _ b hrange hread
  · cases hread
  · split at hread
    · cases hread
    · next hfound _ =>
      split at hread
      · cases hread
        exact h _ b hfound
      · cases hread
    · cases hread
  · cases hread

end Json.Decode

namespace ElementRef

def wire : WireForm ElementRef := ⟨toJson, ofJson, fun _ => [], fun e => [e.index]⟩

/-- The number that is given to an element of either sort is its identity. -/
theorem index_of_ofName? (s : String) (make : Nat → ElementRef) (h : ofName? s = some make) :
    ∀ n, (make n).index = n := by
  unfold ofName? at h
  split at h <;> cases h <;> exact fun _ => rfl

/-- What is known of an element is in order: its number has 32 bits, and its sort keeps numbers as
    they are. -/
def Draft.IsSound : Draft → Prop
  | blank => True
  | sorted make => ∀ n, (make n).index = n
  | numbered number => number.InRange
  | whole element => element.index < 0x100000000

theorem Draft.isSound_whole {make : Nat → ElementRef} {number : Json}
    (hmake : ∀ n, (make n).index = n) (hrange : number.InRange) {d : Draft}
    (hread : (whole ∘ make) <$> Json.Decode.identity number = .ok d) : d.IsSound := by
  obtain ⟨n, hn, rfl⟩ := Json.map_eq_ok_iff.1 hread
  show (make n).index < 0x100000000
  rw [hmake]
  exact Json.Decode.yields_naturalBelow _ number n hrange hn

theorem Draft.IsSound.take {d d' : Draft} {entry : String × Json} (h : d.IsSound)
    (hrange : entry.2.InRange) (htake : d.take entry = .ok d') : d'.IsSound := by
  have hname := Json.Decode.yields_name index_of_ofName?
  unfold Draft.take at htake
  split at htake
  · cases htake
  · next j _ =>
    -- the sort, with the number before or after it
    split at htake
    · obtain ⟨make, hmake, rfl⟩ := Json.map_eq_ok_iff.1 htake
      exact hname j make hrange hmake
    · obtain ⟨make, hmake, hnumber⟩ := Json.bind_eq_ok_iff.1 htake
      exact isSound_whole (hname j make hrange hmake) h hnumber
    · cases htake
    · cases htake
  · next j _ =>
    -- the number, which is kept unjudged while the sort is not known
    split at htake
    · obtain ⟨number, hnumber, rfl⟩ := Json.map_eq_ok_iff.1 htake
      unfold Json.Decode.keep at hnumber
      split at hnumber
      · cases hnumber
        exact hrange
      · cases hnumber
    · exact isSound_whole h hrange htake
    · cases htake
    · cases htake
  · obtain ⟨-, -, rfl⟩ := Json.map_eq_ok_iff.1 htake
    exact h

theorem yields_placed : Decoder.Yields placed.decode (·.index < 0x100000000) := by
  refine ((yields_field (Json.Decode.yields_word index_of_ofName?)).and
    (yields_field (Json.Decode.yields_naturalBelow _))).map ?_ |>.decode
  rintro ⟨make, number⟩ ⟨hmake, hnumber⟩
  exact (hmake number).symm ▸ hnumber

theorem lawful_wire : wire.Lawful 1 where
  hasKey e := by cases e <;> trivial
  ofJson_toJson e expressible := by
    have hindex : e.index < 0x100000000 := expressible.identities _ (by simp [wire])
    have hnumber := Json.Decode.identity_natural hindex
    -- The sort stands in front of the number, so that the number is judged at once.
    cases e with
    | node id =>
      show ((Draft.whole ∘ fun n => node ⟨n⟩) <$> Json.Decode.identity (.natural id.index) >>=
        fun d => [].foldlM Draft.take d) >>= Draft.close = _
      rw [show Json.Decode.identity (.natural id.index) = .ok id.index from hnumber]
      rfl
    | edge id =>
      show ((Draft.whole ∘ fun n => edge ⟨n⟩) <$> Json.Decode.identity (.natural id.index) >>=
        fun d => [].foldlM Draft.take d) >>= Draft.close = _
      rw [show Json.Decode.identity (.natural id.index) = .ok id.index from hnumber]
      rfl
  plain e expressible _ := by
    have hindex : e.index < 0x100000000 := expressible.identities _ (by simp [wire])
    have hnumber := plain_natural hindex 0
    cases e with
    | node id | edge id =>
      refine plain_object ?_
      simp only [List.forall_mem_cons]
      exact ⟨plain_text _ _, hnumber, by simp⟩
  yields := by
    intro j e hrange hread
    refine ⟨List.forall_mem_singleton.2 ?_, by simp [wire]⟩
    change ofJson j = .ok e at hread
    unfold ofJson at hread
    split at hread
    · next members =>
      obtain ⟨d, hd, hclose⟩ := Json.bind_eq_ok_iff.1 hread
      have hmembers : ∀ entry ∈ members, entry.2.InRange := Json.allMembersInRange_iff.1 hrange
      have hblank : Draft.blank.IsSound := trivial
      have hsound : d.IsSound := Json.foldlM_keeps
        (fun entry hentry _ _ hd htake => Draft.IsSound.take hd (hmembers entry hentry) htake)
        hblank hd
      cases d with
      | whole element =>
        cases hclose
        exact hsound
      | _ => cases hclose
    · exact yields_placed j e hrange hread

end ElementRef

theorem ElementKind.ofJson_toJson (kind : ElementKind) :
    ElementKind.ofJson kind.toJson = .ok kind := by
  cases kind with
  | node kind => cases kind <;> rfl
  | edge kind => cases kind <;> rfl

/-! ## Selections -/

namespace Selection

def wire : WireForm Selection :=
  ⟨toJson, ofJson, fun _ => [], fun s => ElementRef.wire.identities s.element⟩

theorem lawful_wire : wire.Lawful 2 where
  hasKey _ := trivial
  ofJson_toJson s expressible := by
    have helement : ElementRef.wire.Expressible s.element :=
      ⟨expressible.identities, by simp [ElementRef.wire]⟩
    have hkind : HasKey s.kind.toJson := by cases s.kind <;> trivial
    refine Record.Fills.decode (Record.Fills.map (b := (s.element, s.content, s.kind)) ?_ _)
    exact .cons (ElementRef.lawful_wire.hasKey _) (ElementRef.lawful_wire.ofJson_toJson _ helement)
        (by simp) <|
      .cons trivial rfl (by simp) <|
      fills_field hkind s.kind.ofJson_toJson
  plain s expressible readBack := by
    have helement : s.element.toJson.Plain 1 := ElementRef.lawful_wire.plain s.element
      ⟨expressible.identities, by simp [ElementRef.wire]⟩ readBack
    have hkind : s.kind.toJson.Plain 1 := by
      cases h : s.kind <;> exact plain_text _ _
    refine plain_object ?_
    simp only [List.forall_mem_cons]
    exact ⟨helement, plain_text _ _, hkind, by simp⟩
  yields := by
    refine ((yields_field ElementRef.lawful_wire.yields).and <| (yields_field yields_true).and
      (yields_field yields_true)).map ?_ |>.decode
    rintro ⟨element, content, kind⟩ ⟨helement, -⟩
    exact ⟨helement.identities, helement.numbers⟩

end Selection

/-! ## Clicks -/

namespace ClickOutcome

/-- The identity of the element that a click was about. -/
def index? : ClickOutcome → Option Nat
  | nodeCreated node | nodeSelected node => some node.index
  | edgeStarted edge | edgeCompleted edge | edgePending edge => some edge.index
  | ignored => none

def wire : WireForm ClickOutcome := ⟨toJson, ofJson, fun _ => [], fun o => o.index?.toList⟩

theorem isUsable_toJson (o : ClickOutcome) : o.toJson.isUsable = true := by
  cases o <;> rfl

theorem yields_ofTagged (tag : Json) : Decoder.Yields (ofTagged tag) wire.Expressible := by
  intro fields o hrange hread
  refine ⟨?_, by simp [wire]⟩
  have hnode {make : NodeId → ClickOutcome} (hmake : ∀ node, (make node).index? = some node.index)
      (h : ((Record.field "node" NodeId.ofJson).decode fields).map make = .ok o) :
      ∀ n ∈ o.index?.toList, n < 0x100000000 := by
    obtain ⟨node, hnode, rfl⟩ := Json.map_eq_ok_iff.1 h
    simpa [hmake] using (yields_field NodeId.yields_ofJson).decode fields node hrange hnode
  have hedge {make : EdgeId → ClickOutcome} (hmake : ∀ edge, (make edge).index? = some edge.index)
      (h : ((Record.field "edge" EdgeId.ofJson).decode fields).map make = .ok o) :
      ∀ n ∈ o.index?.toList, n < 0x100000000 := by
    obtain ⟨edge, hedge, rfl⟩ := Json.map_eq_ok_iff.1 h
    simpa [hmake] using (yields_field EdgeId.yields_ofJson).decode fields edge hrange hedge
  unfold ofTagged at hread
  split at hread
  · exact hnode (fun _ => rfl) hread
  · exact hnode (fun _ => rfl) hread
  · exact hedge (fun _ => rfl) hread
  · exact hedge (fun _ => rfl) hread
  · exact hedge (fun _ => rfl) hread
  · have hignored : (Record.empty ignored).Yields fun o => ∀ n ∈ o.index?.toList, n < 0x100000000 :=
      Record.yields_empty (by simp [index?])
    exact hignored.decode fields o hrange hread
  · cases hread

theorem lawful_wire : wire.Lawful 1 where
  hasKey o := by cases o <;> trivial
  ofJson_toJson o expressible := by
    have hindex : ∀ n ∈ o.index?, n < 0x100000000 := by simpa [wire] using expressible.identities
    have hnode {id : NodeId} (h : o.index? = some id.index) :
        (Record.field "node" NodeId.ofJson).decode (.object [("node", id.toJson)]) = .ok id :=
      Record.Fills.decode (fills_field trivial (NodeId.ofJson_toJson (hindex _ h)))
    have hedge {id : EdgeId} (h : o.index? = some id.index) :
        (Record.field "edge" EdgeId.ofJson).decode (.object [("edge", id.toJson)]) = .ok id :=
      Record.Fills.decode (fills_field trivial (EdgeId.ofJson_toJson (hindex _ h)))
    have husable := o.isUsable_toJson
    show Json.Decode.tagged "outcome" ofTagged o.toJson = .ok o
    cases o with
    | nodeCreated node =>
      exact tagged_cons husable (by simp) (congrArg (Except.map nodeCreated) (hnode rfl))
    | nodeSelected node =>
      exact tagged_cons husable (by simp) (congrArg (Except.map nodeSelected) (hnode rfl))
    | edgeStarted edge =>
      exact tagged_cons husable (by simp) (congrArg (Except.map edgeStarted) (hedge rfl))
    | edgeCompleted edge =>
      exact tagged_cons husable (by simp) (congrArg (Except.map edgeCompleted) (hedge rfl))
    | edgePending edge =>
      exact tagged_cons husable (by simp) (congrArg (Except.map edgePending) (hedge rfl))
    | ignored =>
      refine tagged_cons husable (by simp) ?_
      exact Record.Fills.decode Record.fills_empty
  plain o expressible _ := by
    have hindex : ∀ n ∈ o.index?, (Json.natural n).Plain 0 := fun n hn =>
      plain_natural (expressible.identities n (by simpa [wire] using hn)) 0
    cases o with
    | nodeCreated id | nodeSelected id | edgeStarted id | edgeCompleted id | edgePending id =>
      refine plain_object ?_
      simp only [List.forall_mem_cons]
      exact ⟨plain_text _ _, hindex _ rfl, by simp⟩
    | ignored => exact plain_object (by simpa using plain_text _ _)
  yields := yields_tagged "outcome" yields_ofTagged

end ClickOutcome

end QueryCanvas
