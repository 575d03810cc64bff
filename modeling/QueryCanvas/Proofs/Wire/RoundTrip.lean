/-
  QueryCanvas.Proofs.Wire.RoundTrip

  Values are read back from their JSON texts.

  Answers to queries have optional parts, which are left out where there is
  nothing to write, and solutions with arbitrary keys. Together with diagrams,
  selections and clicks they make up what goes over the wire
  (`wire_forms_round_trip`).
-/

import QueryCanvas.Proofs.Wire.Selection
import QueryCanvas.Wire.Results

namespace QueryCanvas

open Json (Decoder Record HasKey plain_object plain_array plain_text)
open Json.Decode (list_map dict_map)
open Json.Record (fills_fieldOr fills_absent ignores_fieldOr)
open WireForm (expressible_ofTexts numbersReadBack_ofTexts)

/-! ## Terms and solutions -/

namespace BoundTerm

def wire : WireForm BoundTerm := .ofTexts toJson ofJson

/-- A member that is left out reads as no text. -/
theorem fills_memberOfText? (name : String) (text? : Option String) :
    (Record.fieldWithDefault name (Json.Decode.nullable Json.Decode.text) none).Fills
      (Json.memberOfText? name text?) text? := by
  cases text? with
  | none => exact fills_absent
  | some s => exact fills_fieldOr trivial rfl

theorem key_of_mem_memberOfText? {name : String} {text? : Option String} {e : String × Json}
    (h : e ∈ Json.memberOfText? name text?) : e.1 = name := by
  cases text? with
  | none => cases h
  | some s => exact congrArg Prod.fst (List.mem_singleton.1 h)

theorem toJson_eq (t : BoundTerm) :
    t.toJson = .object (("type", .text t.termType) :: ("value", .text t.value) ::
      (Json.memberOfText? "datatype" t.datatype ++ Json.memberOfText? "xml:lang" t.language)) :=
  rfl

theorem lawful_wire : wire.Lawful 1 where
  hasKey _ := trivial
  ofJson_toJson t _ := by
    show ofJson t.toJson = .ok t
    rw [toJson_eq]
    have hoptional (e : String × Json) (he : e ∈ Json.memberOfText? "datatype" t.datatype ++
        Json.memberOfText? "xml:lang" t.language) : e.1 = "datatype" ∨ e.1 = "xml:lang" :=
      (List.mem_append.1 he).imp key_of_mem_memberOfText? key_of_mem_memberOfText?
    refine Record.Fills.decode (Record.Fills.map
      (b := (t.termType, t.value, t.datatype, t.language)) ?_ _)
    -- what is left open is that no two fields share a name
    refine .cons trivial rfl ?_ <| .cons trivial rfl ?_ <|
      (fills_memberOfText? _ _).and (fills_memberOfText? _ _) fun e he => ignores_fieldOr ?_
    · intro e he
      rcases List.mem_cons.1 he with rfl | he
      · simp
      · rcases hoptional e he with hkey | hkey <;> simp [hkey]
    · intro e he
      rcases hoptional e he with hkey | hkey <;> simp [hkey]
    · rw [key_of_mem_memberOfText? he]
      decide
  plain t _ _ := by
    show t.toJson.Plain 1
    have hoptional (name : String) (text? : Option String) :
        ∀ e ∈ Json.memberOfText? name text?, e.2.Plain 0 := by
      cases text? <;> simp [Json.memberOfText?, plain_text]
    rw [toJson_eq]
    refine plain_object ?_
    simp only [List.forall_mem_cons, List.forall_mem_append]
    exact ⟨plain_text _ _, plain_text _ _, hoptional _ _, hoptional _ _⟩
  yields _ _ _ _ := expressible_ofTexts

end BoundTerm

namespace Binding

def wire : WireForm Binding := .ofTexts toJson ofJson

theorem lawful_wire : wire.Lawful 2 where
  hasKey _ := trivial
  ofJson_toJson _ _ := dict_map BoundTerm.lawful_wire.hasKey
    (fun t => BoundTerm.lawful_wire.ofJson_toJson t expressible_ofTexts) _
  plain _ _ _ := plain_object <| List.forall_mem_map.2 fun e _ =>
    BoundTerm.lawful_wire.plain e.2 expressible_ofTexts numbersReadBack_ofTexts
  yields _ _ _ _ := expressible_ofTexts

end Binding

/-! ## Answers -/

namespace Results

def wire : WireForm Results := .ofTexts toJson ofJson

theorem lawful_wire : wire.Lawful 5 where
  hasKey _ := trivial
  ofJson_toJson r _ := by
    have hbinding (b : Binding) : Binding.ofJson b.toJson = .ok b :=
      Binding.lawful_wire.ofJson_toJson b expressible_ofTexts
    have hhead : headRecord.decode (.object [("vars", .array (r.columns.map Json.text))]) =
        .ok r.columns :=
      Record.Fills.decode (fills_fieldOr trivial (list_map fun _ _ => rfl))
    have hbody : bodyRecord.decode
        (.object [("bindings", .array (r.bindings.map Binding.toJson))]) = .ok r.bindings :=
      Record.Fills.decode (fills_fieldOr trivial (list_map fun b _ => hbinding b))
    refine Record.Fills.decode (Record.Fills.map (b := (r.columns, r.bindings)) ?_ _)
    exact .cons trivial hhead (by simp) <| fills_fieldOr trivial hbody
  plain r _ _ := by
    have hvars : (Json.array (r.columns.map Json.text)).Plain 1 :=
      plain_array (List.forall_mem_map.2 fun s _ => plain_text s 0)
    have hbindings : (Json.array (r.bindings.map Binding.toJson)).Plain 3 :=
      plain_array <| List.forall_mem_map.2 fun b _ =>
        Binding.lawful_wire.plain b expressible_ofTexts numbersReadBack_ofTexts
    have hhead : (Json.object [("vars", .array (r.columns.map Json.text))]).Plain 4 :=
      plain_object (by simpa using hvars.mono (by decide))
    have hbody : (Json.object [("bindings", .array (r.bindings.map Binding.toJson))]).Plain 4 :=
      plain_object (by simpa using hbindings)
    exact plain_object (by simpa using ⟨hhead, hbody⟩)
  yields _ _ _ _ := expressible_ofTexts

end Results

/-! ## Everything that goes over the wire -/

/-- Diagrams, selections, clicks, elements and answers are read back from their texts, and are still
    the same after they were read from any text, written and read again. All that is taken for
    granted is that the finite coordinates of a diagram are read back from their own texts. -/
theorem wire_forms_round_trip :
    Diagram.wire.RoundTrips ∧ Selection.wire.RoundTrips ∧ ClickOutcome.wire.RoundTrips ∧
      ElementRef.wire.RoundTrips ∧ Results.wire.RoundTrips :=
  ⟨Diagram.lawful_wire.roundTrips (by decide), Selection.lawful_wire.roundTrips (by decide),
    ClickOutcome.lawful_wire.roundTrips (by decide), ElementRef.lawful_wire.roundTrips (by decide),
    Results.lawful_wire.roundTrips (by decide)⟩

/-- A diagram with one node. -/
def Diagram.withOneNode : Diagram Float :=
  ⟨[⟨⟨1⟩, .selectedVariable, "?film", ⟨-12.5, 80⟩, ⟨⟨-12.5, 80⟩, 80, 80, 40⟩, false, some "Film"⟩],
    []⟩

theorem withOneNode_reads_back :
    Diagram.wire.Expressible .withOneNode ∧ Diagram.wire.NumbersReadBack .withOneNode ∧
      Diagram.wire.read (Diagram.wire.write .withOneNode) = .ok .withOneNode := by
  have hexpressible : Diagram.wire.Expressible .withOneNode :=
    ⟨by decide, by decide +kernel⟩
  have hreadBack : Diagram.wire.NumbersReadBack .withOneNode := by
    show ∀ x ∈ Diagram.wire.numbers .withOneNode, x.isFinite = true → (Json.Number.real x).ReadsBack
    decide +kernel
  exact ⟨hexpressible, hreadBack, wire_forms_round_trip.1.read_write _ hexpressible hreadBack⟩

end QueryCanvas
