/-
  QueryCanvas.Proofs.Session.KnownPrefixes

  What a session knows of prefixes only grows.

  A table has operations that take prefixes back, `insert` and `clear`, but a
  session never uses them: it asks, hands out requests and records answers. Each
  of these keeps what is known in both directions (`PrefixTable.Grows`), hence
  so does every call and every run. A name with a known prefix therefore goes on
  standing for the same IRI.
-/

import QueryCanvas.Proofs.Canvas.Layout
import QueryCanvas.Proofs.Session.Loads
import QueryCanvas.Proofs.Sparql.Iri

namespace QueryCanvas

/-! ## Tables -/

namespace PrefixTable

/-- What is known of a namespace or a prefix stays known. -/
structure Grows (p p' : PrefixTable) : Prop where
  peek? : ∀ expansion short, p.peek? expansion = some short → p'.peek? expansion = some short
  expansionOf? : ∀ short expansion, p.expansionOf? short = some expansion →
    p'.expansionOf? short = some expansion

namespace Grows

theorem refl (p : PrefixTable) : p.Grows p := ⟨fun _ _ => id, fun _ _ => id⟩

theorem trans {a b c : PrefixTable} (hab : a.Grows b) (hbc : b.Grows c) : a.Grows c where
  peek? _ _ h := hbc.peek? _ _ (hab.peek? _ _ h)
  expansionOf? _ _ h := hbc.expansionOf? _ _ (hab.expansionOf? _ _ h)

/-- Asking learns nothing and forgets nothing. -/
theorem of_asked {p p' : PrefixTable} (h : p.Asked p') : p.Grows p' where
  peek? expansion _ hshort := (h.peek?_eq expansion).trans hshort
  expansionOf? short _ hexpansion := (h.expansionOf?_eq short).trans hexpansion

/-- Any answer to any request, expected or not. -/
theorem complete (p : PrefixTable) (request : PrefixRequest)
    (answer : Except ServiceError String) : p.Grows (p.complete request answer).1 where
  peek? _ _ := p.peek?_complete request answer
  expansionOf? _ _ := p.expansionOf?_complete request answer

theorem recordAnswers (p : PrefixTable) (answers : PrefixAnswers) :
    p.Grows (Session.recordAnswers p answers).1 :=
  Session.recordAnswers_induct (P := p.Grows) (refl p)
    fun p' entry _ hp' => hp'.trans (complete p' entry.1 entry.2)

end Grows

/-- The content is a name with a known prefix. -/
def KnowsName (p : PrefixTable) (content : String) : Prop :=
  ∃ short localName, ':' ∉ short.toList ∧ content = short ++ ":" ++ localName ∧
    (p.expansionOf? short).isSome

end PrefixTable

/-! ## Names -/

namespace Sparql

variable {α : Type} {p p' : PrefixTable}

/-- A name with a known prefix goes on standing for the same IRI. -/
theorem renderIri_of_grows (grows : p.Grows p') {content : String} (known : p.KnowsName content) :
    renderIri content p' = renderIri content p := by
  obtain ⟨short, localName, hshort, rfl, hknown⟩ := known
  obtain ⟨expansion, hexpansion⟩ := Option.isSome_iff_exists.1 hknown
  cases hbracketed : isBracketed (short ++ ":" ++ localName) with
  | true => rw [renderIri_of_bracketed hbracketed, renderIri_of_bracketed hbracketed]
  | false =>
    have hcut := cut_name hshort localName
    have hearlier : p.expansionOf? (String.ofList short.toList) = some expansion := by
      rwa [String.ofList_toList]
    have hlater : p'.expansionOf? (String.ofList short.toList) = some expansion :=
      grows.expansionOf? _ _ hearlier
    rw [renderIri_of_known hbracketed hcut hearlier, renderIri_of_known hbracketed hcut hlater]

theorem nodeFragment_of_grows (grows : p.Grows p') {n n' : Node α} (known : p.KnowsName n.content)
    (id : n'.id = n.id) (content : n'.content = n.content) (kind : n'.kind = n.kind) :
    nodeFragment n' p' = nodeFragment n p := by
  unfold nodeFragment Node.isSelected
  rw [id, content, kind, renderIri_of_grows grows known]

theorem edgeFragment_of_grows (grows : p.Grows p') {e e' : Edge α} (known : p.KnowsName e.content)
    (id : e'.id = e.id) (content : e'.content = e.content) (kind : e'.kind = e.kind) :
    edgeFragment e' p' = edgeFragment e p := by
  unfold edgeFragment Edge.isSelected
  rw [id, content, kind, renderIri_of_grows grows known]

end Sparql

namespace Session

/-! ## Calls -/

theorem grows_of_proceeds {s s' : Session} (h : Proceeds s s') : s.prefixes.Grows s'.prefixes := by
  rw [(KeepsTerms.of_proceeds h).prefixes]
  exact .refl _

/-- Whatever is called, what is known of prefixes stays known. -/
theorem grows_call (s : Session) (c : Call) : s.prefixes.Grows (s.call c).1.prefixes := by
  cases c with
  | edit change => exact grows_of_proceeds (.edit s fun c => (change c, ()))
  | beginLoad => exact .refl _
  | finishLoad ticket fetched =>
    show s.prefixes.Grows (s.finishLoad ticket fetched).1.prefixes
    rcases s.finishLoad_cases ticket fetched with h | ⟨bindings, h⟩
    · rw [h]
      exact .refl _
    -- the prefixes of the new facts are asked for
    · rw [h]
      have hasked : s.prefixes.Asked (s.loaded bindings).prefixes :=
        s.ontology.index_asked bindings s.prefixes
      have hproceeds := (Proceeds.sync (s.loaded bindings)).trans (.refreshSuggestions _)
      exact (PrefixTable.Grows.of_asked hasked).trans (grows_of_proceeds hproceeds)
  | beginPrefixes => exact ⟨fun _ _ => id, fun _ _ => id⟩
  | finishPrefixes answers => exact .recordAnswers s.prefixes answers
  | refreshSuggestions => exact grows_of_proceeds (.refreshSuggestions s)
  | removeSuggestion index => exact grows_of_proceeds (.removeSuggestion s index)
  | acceptSuggestion index => exact grows_of_proceeds (.acceptSuggestion s index)
  | clear => exact grows_of_proceeds (.clear s)

theorem grows_run (s : Session) (calls : List Call) :
    s.prefixes.Grows (s.run calls).1.prefixes := by
  refine runLogged_induct (P := fun (s' : Session) _ => s.prefixes.Grows s'.prefixes) (.refl _) ?_
  intro s' _ c _ hs'
  exact hs'.trans (grows_call s' c)

/-! ## Runs of operations -/

/-- Changes of the canvas are made of operations, which may depend on the canvas. -/
def Call.Operates : Call → Prop
  | edit change => ∀ c, ∃ operations, change c = c.run operations
  | _ => True

variable {base : String} {sizes : ShapeSizes Float}

theorem reachable_call {s : Session}
    (reached : Reachable (fun _ => True) (fun _ => True) base sizes s) {c : Call}
    (operates : c.Operates) :
    Reachable (fun _ => True) (fun _ => True) base sizes (s.call c).1 := by
  cases c with
  | edit change =>
    obtain ⟨operations, hchange⟩ := operates s.canvas
    exact .edit reached (fun c => (change c, ())) (fun _ _ => trivial) hchange
  | beginLoad => exact .beginLoad reached
  | finishLoad ticket fetched => exact .finishLoad reached ticket fetched
  | beginPrefixes => exact .beginPrefixes reached
  | finishPrefixes answers => exact .finishPrefixes reached fun _ _ _ _ => trivial
  | refreshSuggestions => exact .refreshSuggestions reached
  | removeSuggestion index => exact .removeSuggestion reached index
  | acceptSuggestion index => exact .acceptSuggestion reached index
  | clear => exact .clear reached

theorem reachable_run {calls : List Call} (operate : ∀ c ∈ calls, c.Operates) :
    Reachable (fun _ => True) (fun _ => True) base sizes
      ((Session.new base sizes).run calls).1 := by
  refine runLogged_induct
    (P := fun (s : Session) _ => Reachable (fun _ => True) (fun _ => True) base sizes s) .new ?_
  intro s _ c hc hs
  exact reachable_call hs (operate c hc)

theorem edge_kinds_run {calls : List Call} (operate : ∀ c ∈ calls, c.Operates) :
    ∀ e ∈ ((Session.new base sizes).run calls).1.canvas.diagram.edges,
      e.kind = .ofContent e.content := by
  have hreached : Reachable (fun _ => True) (fun _ => True) base sizes
      ((Session.new base sizes).run calls).1 := reachable_run operate
  exact (hreached.canvas fun _ _ => trivial).current.edge_kinds

/-! ## Known prefixes stay known -/

/-- Whatever has happened before, and whatever happens after: the namespace of a prefix and the
    prefix of a namespace stay what they are once they are known. A name with a known prefix
    therefore goes on standing for the same IRI, and so do the nodes and edges with such a name for
    as long as it is their content; a node has to be of the same kind for this, while the kind of
    an edge is that of its content. -/
theorem prefixes_only_grow {before after : List Call}
    (operate : ∀ c ∈ before ++ after, c.Operates) (base : String) (sizes : ShapeSizes Float) :
    let earlier := ((Session.new base sizes).run before).1
    let later := ((Session.new base sizes).run (before ++ after)).1
    (∀ short expansion, earlier.prefixes.expansionOf? short = some expansion →
        later.prefixes.expansionOf? short = some expansion) ∧
      (∀ expansion short, earlier.prefixes.peek? expansion = some short →
        later.prefixes.peek? expansion = some short) ∧
      (∀ content, earlier.prefixes.KnowsName content →
        Sparql.renderIri content later.prefixes = Sparql.renderIri content earlier.prefixes) ∧
      (∀ n ∈ earlier.canvas.diagram.nodes, earlier.prefixes.KnowsName n.content →
        ∀ n' ∈ later.canvas.diagram.nodes, n'.id = n.id → n'.content = n.content →
          n'.kind = n.kind →
            Sparql.nodeFragment n' later.prefixes = Sparql.nodeFragment n earlier.prefixes) ∧
      (∀ e ∈ earlier.canvas.diagram.edges, earlier.prefixes.KnowsName e.content →
        ∀ e' ∈ later.canvas.diagram.edges, e'.id = e.id → e'.content = e.content →
          Sparql.edgeFragment e' later.prefixes = Sparql.edgeFragment e earlier.prefixes) := by
  intro earlier later
  have hcontinued : later = (earlier.run after).1 := runLogged_append call _ before after
  have hgrows : earlier.prefixes.Grows later.prefixes := by
    rw [hcontinued]
    exact grows_run earlier after
  refine ⟨hgrows.expansionOf?, hgrows.peek?, fun content => Sparql.renderIri_of_grows hgrows,
    fun n _ known n' _ id content kind => ?_, fun e he known e' he' id content => ?_⟩
  · exact Sparql.nodeFragment_of_grows hgrows known id content kind
  · have hearlier : e.kind = .ofContent e.content :=
      edge_kinds_run (fun c hc => operate c (List.mem_append_left _ hc)) e he
    have hlater : e'.kind = .ofContent e'.content := edge_kinds_run operate e' he'
    have hkind : e'.kind = e.kind := by rw [hlater, hearlier, content]
    exact Sparql.edgeFragment_of_grows hgrows known id content hkind

theorem operates_run (operations : List (Operation Float)) :
    (Call.edit (·.run operations)).Operates := fun _ => ⟨operations, rfl⟩

/-- A load with two namespaces, of which the first has got its prefix; a class of it is on the
    canvas, in place of what was there before. -/
def settling : List Call :=
  [.edit (·.run [.createNode ⟨0, 0⟩ .uri ":Person"]), .clear, .beginLoad,
    .finishLoad ⟨1⟩
      (.ok ⟨[], [Fact.solution "http://one/visits" "http://one/Person" "http://two/Place"]⟩),
    .beginPrefixes, .finishPrefixes [(⟨"http://one/", 1⟩, .ok "p:a")],
    .edit (·.run [.createNode ⟨0, 0⟩ .uri "p:Person"])]

/-- The other namespace gets the same prefix, late and after other facts were loaded; and there are
    more answers about the first, a failure among them. -/
def shaking : List Call :=
  [.beginLoad,
    .finishLoad ⟨2⟩
      (.ok ⟨[], [Fact.solution "http://new/visits" "http://one/Person" "http://two/Place"]⟩),
    .finishPrefixes [(⟨"http://one/", 1⟩, .ok "q:a"), (⟨"http://two/", 2⟩, .ok "p:a")],
    .finishPrefixes [(⟨"http://one/", 1⟩, .error (.rejected "http://one/a"))]]

/-- The class on the canvas. -/
def settledNode : Node Float :=
  ⟨⟨2⟩, .uri, "p:Person", ⟨0, 0⟩, NodeKind.uri.shape ⟨0, 0⟩ defaultSizes, false, none⟩

theorem prefixes_only_grow_shaking :
    let settled := ((Session.new "http://base/" defaultSizes).run settling).1
    let shaken := ((Session.new "http://base/" defaultSizes).run (settling ++ shaking)).1
    shaken.prefixes.peek? "http://two/" = some "p" ∧
      shaken.prefixes.expansionOf? "p" = some "http://one/" ∧
      shaken.prefixes.peek? "http://one/" = some "p" ∧
      Sparql.renderIri "p:Person" shaken.prefixes = "<http://one/Person>" ∧
      Sparql.nodeFragment settledNode shaken.prefixes =
        Sparql.nodeFragment settledNode settled.prefixes := by
  intro settled shaken
  have hoperate : ∀ c ∈ settling ++ shaking, c.Operates := by
    simp only [settling, shaking, List.cons_append, List.nil_append, List.forall_mem_cons]
    exact ⟨operates_run _, trivial, trivial, trivial, trivial, trivial, operates_run _, trivial,
      trivial, trivial, trivial, fun _ hc => absurd hc List.not_mem_nil⟩
  have hknown : settled.prefixes.KnowsName "p:Person" :=
    ⟨"p", "Person", by decide, rfl, rfl⟩
  obtain ⟨howner, hprefix, hname, hnode, -⟩ :=
    prefixes_only_grow hoperate "http://base/" defaultSizes
  refine ⟨rfl, howner "p" "http://one/" rfl, hprefix "http://one/" "p" rfl,
    (hname "p:Person" hknown).trans rfl, ?_⟩
  have hearlier : settledNode ∈ settled.canvas.diagram.nodes :=
    List.mem_of_getElem? (show settled.canvas.diagram.nodes[0]? = some settledNode from rfl)
  have hlater : settledNode ∈ shaken.canvas.diagram.nodes :=
    List.mem_of_getElem? (show shaken.canvas.diagram.nodes[0]? = some settledNode from rfl)
  exact hnode settledNode hearlier hknown settledNode hlater rfl rfl rfl

end Session

end QueryCanvas
