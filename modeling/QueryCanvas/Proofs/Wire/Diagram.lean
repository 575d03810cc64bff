/-
  QueryCanvas.Proofs.Wire.Diagram

  The JSON form of diagrams, from points up to whole diagrams.
-/

import QueryCanvas.Proofs.Wire.Form
import QueryCanvas.Wire.Diagram

namespace QueryCanvas

open Json (Decoder Record Number HasKey hasKey_ofFloat plain_ofFloat plain_object plain_array
  plain_natural plain_text plain_bool plain_ofText?)
open Json.Decode (float_ofFloat list_map tagged_cons yields_float yields_list yields_tagged
  yields_true)
open Json.Record (fills_fieldOr fills_field yields_field yields_fieldOr)

/-! ## Identities and names -/

theorem NodeId.ofJson_toJson {id : NodeId} (h : id.index < 0x100000000) :
    NodeId.ofJson id.toJson = .ok id := by
  simp only [ofJson, toJson, Json.natural, Json.Decode.identity, Json.Decode.naturalBelow, if_pos h]
  rfl

theorem EdgeId.ofJson_toJson {id : EdgeId} (h : id.index < 0x100000000) :
    EdgeId.ofJson id.toJson = .ok id := by
  simp only [ofJson, toJson, Json.natural, Json.Decode.identity, Json.Decode.naturalBelow, if_pos h]
  rfl

theorem NodeId.yields_ofJson : Decoder.Yields NodeId.ofJson (·.index < 0x100000000) := by
  intro j id hrange hread
  obtain ⟨n, hn, rfl⟩ := Json.map_eq_ok_iff.1 hread
  exact Json.Decode.yields_naturalBelow _ j n hrange hn

theorem EdgeId.yields_ofJson : Decoder.Yields EdgeId.ofJson (·.index < 0x100000000) := by
  intro j id hrange hread
  obtain ⟨n, hn, rfl⟩ := Json.map_eq_ok_iff.1 hread
  exact Json.Decode.yields_naturalBelow _ j n hrange hn

theorem NodeKind.ofJson_toJson (kind : NodeKind) : NodeKind.ofJson kind.toJson = .ok kind := by
  cases kind <;> rfl

theorem EdgeKind.ofJson_toJson (kind : EdgeKind) : EdgeKind.ofJson kind.toJson = .ok kind := by
  cases kind <;> rfl

/-! ## Geometry -/

namespace Point

def wire : WireForm (Point Float) := ⟨toJson, ofJson, fun p => [p.x, p.y], fun _ => []⟩

theorem lawful_wire : wire.Lawful 1 where
  hasKey _ := trivial
  ofJson_toJson p expressible := by
    have hx : p.x.isFinite = true := expressible.numbers p.x (by simp [wire])
    have hy : p.y.isFinite = true := expressible.numbers p.y (by simp [wire])
    refine Record.Fills.decode (Record.Fills.map (b := (p.x, p.y)) ?_ _)
    exact .cons (hasKey_ofFloat _) (float_ofFloat hx) (by simp) <|
      fills_field (hasKey_ofFloat _) (float_ofFloat hy)
  plain p expressible readBack := by
    have hplain : ∀ x ∈ wire.numbers p, (Json.ofFloat x).Plain 0 := fun x hx =>
      plain_ofFloat (expressible.numbers x hx) (readBack x hx (expressible.numbers x hx)) 0
    exact plain_object (by simpa [wire] using hplain)
  yields := by
    refine ((yields_field yields_float).and (yields_field yields_float)).map ?_ |>.decode
    rintro ⟨x, y⟩ ⟨hx, hy⟩
    exact ⟨by simp [wire], by simpa [wire] using ⟨hx, hy⟩⟩

end Point

namespace Shape

def wire : WireForm (Shape Float) :=
  ⟨toJson, ofJson, fun s => Point.wire.numbers s.center ++ [s.width, s.height, s.cornerRadius],
    fun s => Point.wire.identities s.center⟩

theorem lawful_wire : wire.Lawful 2 where
  hasKey _ := trivial
  ofJson_toJson s expressible := by
    have hcenter : Point.wire.Expressible s.center :=
      expressible.of_subset (by simp [wire]) (by simp [wire])
    have hwidth : s.width.isFinite = true := expressible.numbers _ (by simp [wire])
    have hheight : s.height.isFinite = true := expressible.numbers _ (by simp [wire])
    have hradius : s.cornerRadius.isFinite = true := expressible.numbers _ (by simp [wire])
    refine Record.Fills.decode
      (Record.Fills.map (b := (s.center, s.width, s.height, s.cornerRadius)) ?_ _)
    exact .cons (Point.lawful_wire.hasKey _) (Point.lawful_wire.ofJson_toJson _ hcenter)
        (by simp) <|
      .cons (hasKey_ofFloat _) (float_ofFloat hwidth) (by simp) <|
      .cons (hasKey_ofFloat _) (float_ofFloat hheight) (by simp) <|
      fills_field (hasKey_ofFloat _) (float_ofFloat hradius)
  plain s expressible readBack := by
    have hcenter : s.center.toJson.Plain 1 :=
      Point.lawful_wire.plain_part expressible readBack (by simp [wire]) (by simp [wire])
    have hplain : ∀ x ∈ wire.numbers s, (Json.ofFloat x).Plain 1 := fun x hx =>
      plain_ofFloat (expressible.numbers x hx) (readBack x hx (expressible.numbers x hx)) 1
    simp only [wire, List.forall_mem_append, List.forall_mem_cons] at hplain
    obtain ⟨-, hwidth, hheight, hradius, -⟩ := hplain
    exact plain_object (by simpa using ⟨hcenter, hwidth, hheight, hradius⟩)
  yields := by
    refine ((yields_field Point.lawful_wire.yields).and <| (yields_field yields_float).and <|
      (yields_field yields_float).and (yields_field yields_float)).map ?_ |>.decode
    rintro ⟨center, width, height, radius⟩ ⟨hcenter, hwidth, hheight, hradius⟩
    exact ⟨hcenter.identities, List.forall_mem_append.2
      ⟨hcenter.numbers, by simpa using ⟨hwidth, hheight, hradius⟩⟩⟩

end Shape

/-! ## Elements -/

namespace Node

def wire : WireForm (Node Float) :=
  ⟨toJson, ofJson, fun n => Point.wire.numbers n.position ++ Shape.wire.numbers n.shape,
    fun n => n.id.index :: (Point.wire.identities n.position ++ Shape.wire.identities n.shape)⟩

theorem lawful_wire : wire.Lawful 3 where
  hasKey _ := trivial
  ofJson_toJson n expressible := by
    have hid : n.id.index < 0x100000000 := expressible.identities _ (by simp [wire])
    have hposition : Point.wire.Expressible n.position :=
      expressible.of_subset (by simp [wire]) (by simp [wire])
    have hshape : Shape.wire.Expressible n.shape :=
      expressible.of_subset (by simp [wire]) (by simp [wire])
    have hclass : Json.Decode.nullable Json.Decode.text (.ofText? n.inferredClass) =
        .ok n.inferredClass := by cases n.inferredClass <;> rfl
    have hclassKey : HasKey (.ofText? n.inferredClass) := by cases n.inferredClass <;> trivial
    refine Record.Fills.decode (Record.Fills.map
      (b := (n.id, n.kind, n.content, n.position, n.shape, n.isOptional, n.inferredClass)) ?_ _)
    exact .cons trivial (NodeId.ofJson_toJson hid) (by simp) <|
      .cons trivial n.kind.ofJson_toJson (by simp) <|
      .cons trivial rfl (by simp) <|
      .cons (Point.lawful_wire.hasKey _) (Point.lawful_wire.ofJson_toJson _ hposition) (by simp) <|
      .cons (Shape.lawful_wire.hasKey _) (Shape.lawful_wire.ofJson_toJson _ hshape) (by simp) <|
      .cons trivial rfl (by simp) <|
      fills_fieldOr hclassKey hclass
  plain n expressible readBack := by
    have hid : n.id.toJson.Plain 2 := plain_natural (expressible.identities _ (by simp [wire])) 2
    have hposition : n.position.toJson.Plain 1 :=
      Point.lawful_wire.plain_part expressible readBack (by simp [wire]) (by simp [wire])
    have hshape : n.shape.toJson.Plain 2 :=
      Shape.lawful_wire.plain_part expressible readBack (by simp [wire]) (by simp [wire])
    refine plain_object ?_
    simp only [List.forall_mem_cons]
    exact ⟨hid, plain_text _ _, plain_text _ _, hposition.mono (by decide), hshape, plain_bool _ _,
      plain_ofText? _ _, by simp⟩
  yields := by
    refine ((yields_field NodeId.yields_ofJson).and <| (yields_field yields_true).and <|
      (yields_field yields_true).and <| (yields_field Point.lawful_wire.yields).and <|
      (yields_field Shape.lawful_wire.yields).and <| (yields_field yields_true).and
      (yields_fieldOr yields_true (fun _ _ => trivial) (fun _ _ => trivial))).map ?_ |>.decode
    rintro ⟨id, kind, content, position, shape, isOptional, inferredClass⟩
      ⟨hid, -, -, hposition, hshape, -⟩
    exact ⟨List.forall_mem_cons.2 ⟨hid, List.forall_mem_append.2
      ⟨hposition.identities, hshape.identities⟩⟩,
      List.forall_mem_append.2 ⟨hposition.numbers, hshape.numbers⟩⟩

end Node

namespace Endpoint

def wire : WireForm (Endpoint Float) :=
  ⟨toJson, ofJson, fun e => Point.wire.numbers e.point, fun e => (e.node?.map NodeId.index).toList⟩

theorem isUsable_toJson (e : Endpoint Float) : e.toJson.isUsable = true := by
  have hfloat (x : Float) : (Json.ofFloat x).isUsable = true := by
    rw [Json.ofFloat]
    split <;> rfl
  cases e <;>
    simp [toJson, NodeId.toJson, Point.toJson, Json.natural, Json.isUsable, Json.allMembersUsable,
      hfloat]

theorem yields_ofTagged (tag : Json) : Decoder.Yields (ofTagged tag) wire.Expressible := by
  have hanchored : Decoder.Yields anchoredRecord.decode wire.Expressible := by
    refine ((yields_field NodeId.yields_ofJson).and
      (yields_field Point.lawful_wire.yields)).map ?_ |>.decode
    rintro ⟨node, point⟩ ⟨hnode, hpoint⟩
    exact ⟨by simpa [wire, node?] using hnode, hpoint.numbers⟩
  have hfree : Decoder.Yields freeRecord.decode wire.Expressible := by
    refine (yields_field Point.lawful_wire.yields).map ?_ |>.decode
    intro point hpoint
    exact ⟨by simp [wire, node?], hpoint.numbers⟩
  intro fields e hrange hread
  unfold ofTagged at hread
  split at hread
  · exact hanchored fields e hrange hread
  · exact hfree fields e hrange hread
  · cases hread

theorem lawful_wire : wire.Lawful 2 where
  hasKey e := by cases e <;> trivial
  ofJson_toJson e expressible := by
    have hpoint : Point.wire.Expressible e.point :=
      ⟨by simp [Point.wire], expressible.numbers⟩
    have hkey := Point.lawful_wire.hasKey e.point
    have hread := Point.lawful_wire.ofJson_toJson e.point hpoint
    have husable := e.isUsable_toJson
    show Json.Decode.tagged "type" ofTagged e.toJson = .ok e
    cases e with
    | anchored node point =>
      have hnode : node.index < 0x100000000 := expressible.identities _ (by simp [wire, node?])
      refine tagged_cons husable (by simp) ?_
      show anchoredRecord.decode (.object [("node", node.toJson), ("point", point.toJson)]) = _
      refine Record.Fills.decode (Record.Fills.map (b := (node, point)) ?_ _)
      exact .cons trivial (NodeId.ofJson_toJson hnode) (by simp) <| fills_field hkey hread
    | free point =>
      refine tagged_cons husable (by simp) ?_
      show freeRecord.decode (.object [("point", point.toJson)]) = _
      exact Record.Fills.decode (Record.Fills.map (fills_field hkey hread) _)
  plain e expressible readBack := by
    have hpoint : e.point.toJson.Plain 1 := Point.lawful_wire.plain e.point
      ⟨by simp [Point.wire], expressible.numbers⟩ readBack
    cases e with
    | anchored node point =>
      have hnode : node.toJson.Plain 1 :=
        plain_natural (expressible.identities _ (by simp [wire, node?])) 1
      refine plain_object ?_
      simp only [List.forall_mem_cons]
      exact ⟨plain_text _ _, hnode, hpoint, by simp⟩
    | free point =>
      refine plain_object ?_
      simp only [List.forall_mem_cons]
      exact ⟨plain_text _ _, hpoint, by simp⟩
  yields := yields_tagged "type" yields_ofTagged

end Endpoint

namespace Edge

def wire : WireForm (Edge Float) :=
  ⟨toJson, ofJson, fun e => Endpoint.wire.numbers e.subject ++ Endpoint.wire.numbers e.object,
    fun e =>
      e.id.index :: (Endpoint.wire.identities e.subject ++ Endpoint.wire.identities e.object)⟩

theorem lawful_wire : wire.Lawful 3 where
  hasKey _ := trivial
  ofJson_toJson e expressible := by
    have hid : e.id.index < 0x100000000 := expressible.identities _ (by simp [wire])
    have hsubject : Endpoint.wire.Expressible e.subject :=
      expressible.of_subset (by simp [wire]) (by simp [wire])
    have hobject : Endpoint.wire.Expressible e.object :=
      expressible.of_subset (by simp [wire]) (by simp [wire])
    refine Record.Fills.decode (Record.Fills.map
      (b := (e.id, e.kind, e.content, e.subject, e.object, e.isOptional, e.complete)) ?_ _)
    exact .cons trivial (EdgeId.ofJson_toJson hid) (by simp) <|
      .cons trivial e.kind.ofJson_toJson (by simp) <|
      .cons trivial rfl (by simp) <|
      .cons (Endpoint.lawful_wire.hasKey _) (Endpoint.lawful_wire.ofJson_toJson _ hsubject)
        (by simp) <|
      .cons (Endpoint.lawful_wire.hasKey _) (Endpoint.lawful_wire.ofJson_toJson _ hobject)
        (by simp) <|
      .cons trivial rfl (by simp) <|
      fills_field trivial rfl
  plain e expressible readBack := by
    have hid : e.id.toJson.Plain 2 := plain_natural (expressible.identities _ (by simp [wire])) 2
    have hsubject : e.subject.toJson.Plain 2 :=
      Endpoint.lawful_wire.plain_part expressible readBack (by simp [wire]) (by simp [wire])
    have hobject : e.object.toJson.Plain 2 :=
      Endpoint.lawful_wire.plain_part expressible readBack (by simp [wire]) (by simp [wire])
    refine plain_object ?_
    simp only [List.forall_mem_cons]
    exact ⟨hid, plain_text _ _, plain_text _ _, hsubject, hobject, plain_bool _ _, plain_bool _ _,
      by simp⟩
  yields := by
    refine ((yields_field EdgeId.yields_ofJson).and <| (yields_field yields_true).and <|
      (yields_field yields_true).and <| (yields_field Endpoint.lawful_wire.yields).and <|
      (yields_field Endpoint.lawful_wire.yields).and <| (yields_field yields_true).and
      (yields_field yields_true)).map ?_ |>.decode
    rintro ⟨id, kind, content, subject, object, isOptional, complete⟩
      ⟨hid, -, -, hsubject, hobject, -⟩
    exact ⟨List.forall_mem_cons.2 ⟨hid, List.forall_mem_append.2
      ⟨hsubject.identities, hobject.identities⟩⟩,
      List.forall_mem_append.2 ⟨hsubject.numbers, hobject.numbers⟩⟩

end Edge

namespace Diagram

def wire : WireForm (Diagram Float) :=
  ⟨toJson, ofJson,
    fun d => d.nodes.flatMap Node.wire.numbers ++ d.edges.flatMap Edge.wire.numbers,
    fun d => d.nodes.flatMap Node.wire.identities ++ d.edges.flatMap Edge.wire.identities⟩

variable {d : Diagram Float}

theorem numbers_node {n : Node Float} (h : n ∈ d.nodes) :
    Node.wire.numbers n ⊆ wire.numbers d := fun _ hx =>
  List.mem_append_left _ (List.mem_flatMap.2 ⟨n, h, hx⟩)

theorem numbers_edge {e : Edge Float} (h : e ∈ d.edges) :
    Edge.wire.numbers e ⊆ wire.numbers d := fun _ hx =>
  List.mem_append_right _ (List.mem_flatMap.2 ⟨e, h, hx⟩)

theorem expressible_node (expressible : wire.Expressible d) {n : Node Float} (h : n ∈ d.nodes) :
    Node.wire.Expressible n :=
  expressible.of_subset
    (fun _ hk => List.mem_append_left _ (List.mem_flatMap.2 ⟨n, h, hk⟩)) (numbers_node h)

theorem expressible_edge (expressible : wire.Expressible d) {e : Edge Float} (h : e ∈ d.edges) :
    Edge.wire.Expressible e :=
  expressible.of_subset
    (fun _ hk => List.mem_append_right _ (List.mem_flatMap.2 ⟨e, h, hk⟩)) (numbers_edge h)

theorem lawful_wire : wire.Lawful 5 where
  hasKey _ := trivial
  ofJson_toJson d expressible := by
    refine Record.Fills.decode (Record.Fills.map (b := (d.nodes, d.edges)) ?_ _)
    exact .cons trivial (list_map fun n hn =>
        Node.lawful_wire.ofJson_toJson n (expressible_node expressible hn)) (by simp) <|
      fills_field trivial (list_map fun e he =>
        Edge.lawful_wire.ofJson_toJson e (expressible_edge expressible he))
  plain d expressible readBack := by
    have hnodes : ∀ n ∈ d.nodes, n.toJson.Plain 3 := fun n hn =>
      Node.lawful_wire.plain n (expressible_node expressible hn)
        (readBack.of_subset (numbers_node hn))
    have hedges : ∀ e ∈ d.edges, e.toJson.Plain 3 := fun e he =>
      Edge.lawful_wire.plain e (expressible_edge expressible he)
        (readBack.of_subset (numbers_edge he))
    refine plain_object ?_
    simp only [List.forall_mem_cons]
    exact ⟨plain_array (List.forall_mem_map.2 hnodes), plain_array (List.forall_mem_map.2 hedges),
      by simp⟩
  yields := by
    refine ((yields_field (yields_list Node.lawful_wire.yields)).and
      (yields_field (yields_list Edge.lawful_wire.yields))).map ?_ |>.decode
    rintro ⟨nodes, edges⟩ ⟨hnodes, hedges⟩
    refine ⟨List.forall_mem_append.2 ⟨fun k hk => ?_, fun k hk => ?_⟩,
      List.forall_mem_append.2 ⟨fun x hx => ?_, fun x hx => ?_⟩⟩
    · obtain ⟨n, hn, hk⟩ := List.mem_flatMap.1 hk
      exact (hnodes n hn).identities k hk
    · obtain ⟨e, he, hk⟩ := List.mem_flatMap.1 hk
      exact (hedges e he).identities k hk
    · obtain ⟨n, hn, hx⟩ := List.mem_flatMap.1 hx
      exact (hnodes n hn).numbers x hx
    · obtain ⟨e, he, hx⟩ := List.mem_flatMap.1 hx
      exact (hedges e he).numbers x hx

end Diagram

end QueryCanvas
