import Mathlib
import RuleWiring.Proofs.Restored

/-!
# Every document has a normal form

A document may leave out a port, put colons in front of one, name the only output there is, or
call the output terminal by its second name. The normal form of a document says the same without
these freedoms. It can be told from the document alone: the port of an edge that names none is
found by counting the edges before it.

If a document is read, then writing the diagram gives the normal form. So nothing else about the
document is lost and nothing is added, and reading the normal form gives the diagram once more.
-/

namespace RuleWiring

namespace Document

/-! ## The normal form -/

/-- The names of the ports of a node that some edge names. -/
def namedPorts (d : Document) (id : String) : List String :=
  d.edges.filterMap fun e => if e.target = id then e.targetPort.map Text.dropColons else none

/-- The ports that the component of a node declares. -/
def declaredPorts (d : Document) (id : String) : List Port :=
  ((d.nodes.find? (·.id = id)).bind fun e => Component.ofName? e.component).elim [] Component.ports

/-- The names of the declared ports of a node that no edge names. -/
def openPorts (d : Document) (id : String) : List String :=
  ((d.declaredPorts id).map Port.name).filter (· ∉ d.namedPorts id)

/-- How many of the first `k` edges go to a node without naming a port. -/
def openBefore (d : Document) (k : Nat) (id : String) : Nat :=
  (d.edges.take k).countP fun e => e.target = id ∧ e.targetPort = none

/-- The port of the edge at position `k`: the one it names, without colons in front, and otherwise
the one that is its turn. -/
def portName? (d : Document) (k : Nat) (e : EdgeEntry) : Option String :=
  match e.targetPort with
  | some name => some (Text.dropColons name)
  | none => (d.openPorts e.target)[d.openBefore k e.target]?

end Document

/-- The entry with the first name of its component. -/
def NodeEntry.normal (e : NodeEntry) : NodeEntry :=
  if e.component = "output-with-state" then { e with component := "output-sigil" } else e

/-- The edge at position `k` with its port, and without the name of the output it comes from. -/
def Document.normalEdge (d : Document) (k : Nat) (e : EdgeEntry) : EdgeEntry :=
  { e with sourcePort := none, targetPort := d.portName? k e }

/-- **The normal form** of a document. -/
def Document.normal (d : Document) : Document :=
  { d with nodes := d.nodes.map NodeEntry.normal, edges := d.edges.mapIdx d.normalEdge }

/-! ## Lists that run side by side -/

section Beside

variable {α γ : Type} {R : α → γ → Prop} {l : List α} {l' : List γ}

theorem countP_of_forall₂ (h : List.Forall₂ R l l') {p : α → Bool} {q : γ → Bool}
    (hpq : ∀ x y, x ∈ l → R x y → p x = q y) : l.countP p = l'.countP q := by
  induction h with
  | nil => rfl
  | @cons a b l l' hab _ ih =>
      have hhead := hpq a b (List.mem_cons_self ..) hab
      have htail := ih fun x y hx => hpq x y (List.mem_cons_of_mem _ hx)
      rw [List.countP_cons, List.countP_cons, hhead, htail]

end Beside

/-! ## Names that mean something -/

theorem Component.name_of_ofName? {name : String} {c : Component} (h : ofName? name = some c) :
    c.name = if name = "output-with-state" then "output-sigil" else name := by
  unfold ofName? at h
  split at h
  · rename_i hname
    injection h with h
    rw [if_pos hname, ← h]
    rfl
  · rename_i hname
    rw [if_neg hname]
    simpa using List.find?_some h

theorem Port.name_of_ofName? {name : String} {p : Port} (h : ofName? name = some p) :
    p.name = name := by
  simpa using List.find?_some h

theorem Port.name_injective : Function.Injective Port.name := by
  intro p q h
  have hp := Port.ofName?_name p
  rw [h, Port.ofName?_name q] at hp
  exact (Option.some.inj hp).symm

/-- A diagram says of itself what its sketch says. -/
theorem Sketch.finish_said {s : Sketch} {d : Diagram} (h : s.finish = .ok d) :
    d.metadata = s.metadata ∧ d.interpretation = s.interpretation := by
  have hp := finish_passed h
  simp only [finish, hp.ids, hp.edges, hp.wires, hp.output, hp.order, hp.stranded] at h
  injection h with h
  exact h ▸ ⟨rfl, rfl⟩

namespace Document

/-! ## What has been read -/

/-- A node and the entry it was read from. -/
def NodeRead (e : NodeEntry) (n : Node) : Prop :=
  n.id = e.id ∧ Component.ofName? e.component = some n.component

theorem readNodes_ok : ∀ (entries : List NodeEntry) {nodes : List Node},
    readNodes entries = .ok nodes → List.Forall₂ NodeRead entries nodes
  | [], _, h => by
      rw [readNodes] at h
      injection h with h
      exact h ▸ .nil
  | e :: entries, _, h => by
      rw [readNodes] at h
      split at h
      · exact absurd h (by simp)
      · rename_i c hc
        obtain ⟨nodes, hnodes, hcons⟩ := map_eq_ok h
        exact hcons ▸ .cons ⟨rfl, hc⟩ (readNodes_ok entries hnodes)

theorem lookup?_some {nodes : List Node} {id : String} {n : Node} {i : Nat}
    (h : lookup? nodes id = some (n, i)) : nodes[i]? = some n ∧ n.id = id :=
  ⟨List.mem_zipIdx_iff_getElem?.mp (List.mem_of_find?_eq_some h), by
    simpa using List.find?_some h⟩

/-- What feeds a wire is what feeds the edge: the node of the id it names, or its literal. -/
def SourceRead (nodes : List Node) (e : EdgeEntry) : Source → Prop
  | .node j => ∃ n, nodes[j]? = some n ∧ e.source = some n.id ∧ e.literal = none
  | .literal l => e.source = none ∧ e.literal = some l

/-- A wire and the edge it was read from. -/
structure EdgeRead (nodes : List Node) (e : EdgeEntry) (w : SketchWire) : Prop where
  target : ∃ n, nodes[w.target]? = some n ∧ n.id = e.target
  source : SourceRead nodes e w.source
  port : w.port.map Port.name = e.targetPort.map Text.dropColons

theorem readPort_ok {n : Node} {name? : Option String} {port : Option Port}
    (h : readPort n name? = .ok port) : port.map Port.name = name?.map Text.dropColons := by
  unfold readPort at h
  split at h
  · injection h with h
    rw [← h]
    rfl
  · split at h
    · rename_i p hp
      injection h with h
      rw [← h, Option.map_some, Option.map_some, Port.name_of_ofName? hp]
    · exact absurd h (by simp)

theorem readSource_ok {nodes : List Node} {i : Nat} {id : String} {port : Option String}
    {src : Source} (h : readSource nodes i id port = .ok src) :
    ∃ j n, src = .node j ∧ nodes[j]? = some n ∧ n.id = id := by
  unfold readSource at h
  split at h
  · exact absurd h (by simp)
  · rename_i n j hfound
    obtain ⟨hn, hid⟩ := lookup?_some hfound
    split at h
    · injection h with h
      exact ⟨j, n, h.symm, hn, hid⟩
    · split at h
      · injection h with h
        exact ⟨j, n, h.symm, hn, hid⟩
      · exact absurd h (by simp)

theorem readEdge_ok {nodes : List Node} {i : Nat} {e : EdgeEntry} {w : SketchWire}
    (h : readEdge nodes i e = .ok w) : EdgeRead nodes e w := by
  unfold readEdge at h
  split at h
  · exact absurd h (by simp)
  · rename_i n j hfound
    split at h
    · exact absurd h (by simp)
    · rename_i port hport
      split at h
      · rename_i id hsource hliteral
        obtain ⟨src, hsrc, hw⟩ := map_eq_ok h
        obtain ⟨k, m, hnode, hm, hid⟩ := readSource_ok hsrc
        subst hw hnode
        exact ⟨⟨n, lookup?_some hfound⟩, ⟨m, hm, hid ▸ hsource, hliteral⟩, readPort_ok hport⟩
      · rename_i l hsource hliteral
        injection h with h
        subst h
        exact ⟨⟨n, lookup?_some hfound⟩, ⟨hsource, hliteral⟩, readPort_ok hport⟩
      · exact absurd h (by simp)
      · exact absurd h (by simp)

theorem readEdges_ok {nodes : List Node} : ∀ (entries : List EdgeEntry) {i : Nat}
    {wires : List SketchWire}, readEdges nodes i entries = .ok wires →
    List.Forall₂ (EdgeRead nodes) entries wires
  | [], _, _, h => by
      rw [readEdges] at h
      injection h with h
      exact h ▸ .nil
  | e :: entries, _, _, h => by
      rw [readEdges] at h
      split at h
      · exact absurd h (by simp)
      · rename_i w hw
        obtain ⟨wires, hwires, hcons⟩ := map_eq_ok h
        exact hcons ▸ .cons (readEdge_ok hw) (readEdges_ok entries hwires)

/-- A sketch and the document it was read from. -/
structure SketchRead (doc : Document) (s : Sketch) : Prop where
  metadata : s.metadata = doc.metadata
  interpretation : s.interpretation = doc.interpretation
  nodes : List.Forall₂ NodeRead doc.nodes s.nodes
  wires : List.Forall₂ (EdgeRead s.nodes) doc.edges s.wires
  output : ∃ i n, s.designated = some i ∧ s.nodes[i]? = some n ∧ n.id = doc.output

theorem toSketch_ok {doc : Document} {s : Sketch} (h : doc.toSketch = .ok s) :
    SketchRead doc s := by
  unfold toSketch at h
  split at h
  · exact absurd h (by simp)
  · rename_i nodes hnodes
    split at h
    · exact absurd h (by simp)
    · rename_i wires hwires
      split at h
      · exact absurd h (by simp)
      · rename_i n i hfound
        injection h with h
        subst h
        exact ⟨rfl, rfl, readNodes_ok _ hnodes, readEdges_ok _ hwires, i, n, rfl,
          lookup?_some hfound⟩

theorem toDiagram_ok {doc : Document} {d : Diagram} (h : doc.toDiagram = .ok d) :
    ∃ s, doc.toSketch = .ok s ∧ s.finish = .ok d := by
  unfold toDiagram at h
  split at h
  · exact absurd h (by simp)
  · rename_i s hs
    exact ⟨s, hs, h⟩

/-! ## The ports that are open -/

namespace SketchRead

variable {doc : Document} {s : Sketch}

/-- Where no id repeats, a position and its id stand for each other. -/
theorem target_iff (hids : (s.nodes.map (·.id)).Nodup) {e : EdgeEntry} {w : SketchWire}
    (he : EdgeRead s.nodes e w) {i : Nat} {n : Node} (hn : s.nodes[i]? = some n) :
    e.target = n.id ↔ w.target = i := by
  obtain ⟨m, hm, hid⟩ := he.target
  constructor
  · intro ht
    have hfirst := lookup?_id hids hm
    rw [hid, ht, lookup?_id hids hn] at hfirst
    injection hfirst with hfirst
    exact (congrArg Prod.snd hfirst).symm
  · intro ht
    rw [ht, hn] at hm
    injection hm with hm
    rw [← hid, ← hm]

theorem openBefore_eq (h : SketchRead doc s) (hids : (s.nodes.map (·.id)).Nodup) {i : Nat}
    {n : Node} (hn : s.nodes[i]? = some n) (k : Nat) :
    doc.openBefore k n.id = s.openBefore k i := by
  refine countP_of_forall₂ (List.forall₂_take k h.wires) fun e w _ he => ?_
  have hport : e.targetPort = none ↔ w.port = none := by
    rw [← Option.map_eq_none_iff (f := Text.dropColons), ← he.port, Option.map_eq_none_iff]
  simp only [target_iff hids he hn, hport]

/-- An edge names a port exactly if its wire does. -/
theorem mem_namedPorts (h : SketchRead doc s) (hids : (s.nodes.map (·.id)).Nodup) {i : Nat}
    {n : Node} (hn : s.nodes[i]? = some n) (p : Port) :
    p.name ∈ doc.namedPorts n.id ↔ (i, p) ∈ Sketch.named s.wires := by
  rw [namedPorts, Sketch.named, List.mem_filterMap, List.mem_filterMap]
  constructor
  · rintro ⟨e, he, hname⟩
    obtain ⟨w, hw, hread⟩ := exists_of_forall₂ h.wires e he
    split at hname
    · rename_i ht
      rw [← hread.port, Option.map_eq_some_iff] at hname
      obtain ⟨q, hq, hqp⟩ := hname
      refine ⟨w, hw, ?_⟩
      rw [SketchWire.slot?, hq, Option.map_some, (target_iff hids hread hn).mp ht,
        Port.name_injective hqp]
    · exact absurd hname (by simp)
  · rintro ⟨w, hw, hslot⟩
    obtain ⟨e, he, hread⟩ := exists_of_forall₂ h.wires.flip w hw
    obtain ⟨q, hq, hqp⟩ := Option.map_eq_some_iff.mp hslot
    injection hqp with ht hqp
    refine ⟨e, he, ?_⟩
    rw [if_pos ((target_iff hids hread hn).mpr ht), ← hread.port, hq, hqp]
    rfl

theorem declaredPorts_eq (h : SketchRead doc s) (hids : (s.nodes.map (·.id)).Nodup) {i : Nat}
    {n : Node} (hn : s.nodes[i]? = some n) : doc.declaredPorts n.id = n.component.ports := by
  obtain ⟨e, he, hread⟩ := getElem?_of_forall₂ h.nodes.flip hn
  have hentry : doc.nodes.find? (·.id = n.id) = some e := by
    cases hfind : doc.nodes.find? (·.id = n.id) with
    | none =>
        have hne := List.find?_eq_none.mp hfind e (List.mem_of_getElem? he)
        exact absurd hread.1.symm (by simpa using hne)
    | some found =>
        -- the entry found was read as a node with the same id, so as the same node
        obtain ⟨j, hj⟩ := List.mem_iff_getElem?.mp (List.mem_of_find?_eq_some hfind)
        obtain ⟨m, hm, hfound⟩ := getElem?_of_forall₂ h.nodes hj
        have hid : found.id = n.id := by simpa using List.find?_some hfind
        have hsame := lookup?_id hids hm
        rw [hfound.1, hid, lookup?_id hids hn] at hsame
        injection hsame with hsame
        injection hsame with _ hij
        rw [← hij, he] at hj
        exact hj.symm
  rw [declaredPorts, hentry, Option.bind_some, hread.2]
  rfl

theorem openPorts_eq (h : SketchRead doc s) (hids : (s.nodes.map (·.id)).Nodup) {i : Nat}
    {n : Node} (hn : s.nodes[i]? = some n) :
    doc.openPorts n.id = (s.unnamed i n).map Port.name := by
  rw [openPorts, h.declaredPorts_eq hids hn, Sketch.unnamed, List.filter_map]
  congr 1
  refine List.filter_congr fun p _ => ?_
  simp only [Function.comp_apply, h.mem_namedPorts hids hn]

/-- **The port of an edge** is the one that the sketch has for its wire. -/
theorem portName?_eq (h : SketchRead doc s) (hids : (s.nodes.map (·.id)).Nodup) {k : Nat}
    {e : EdgeEntry} {w : SketchWire} (he : EdgeRead s.nodes e w) :
    doc.portName? k e = (s.place? k w).map Port.name := by
  obtain ⟨n, hn, hid⟩ := he.target
  have hnames := he.port
  unfold portName?
  cases hport : w.port with
  | some p =>
      rw [Sketch.place?_some hport]
      rw [hport] at hnames
      split
      · rename_i name hname
        rw [hname] at hnames
        exact hnames.symm
      · rename_i hname
        rw [hname] at hnames
        exact absurd hnames (by simp)
  | none =>
      rw [Sketch.place?_none hport hn]
      rw [hport] at hnames
      split
      · rename_i name hname
        rw [hname] at hnames
        exact absurd hnames (by simp)
      · rw [← hid, h.openPorts_eq hids hn, h.openBefore_eq hids hn, List.getElem?_map]

/-! ## Writing what was read -/

variable {d : Diagram}

theorem nodes_normal (h : SketchRead doc s) :
    s.nodes.map Diagram.nodeEntry = doc.nodes.map NodeEntry.normal := by
  refine List.ext_getElem? fun k => ?_
  rw [List.getElem?_map, List.getElem?_map]
  cases he : doc.nodes[k]? with
  | none =>
      rw [List.getElem?_eq_none_iff, h.nodes.length_eq] at he
      rw [List.getElem?_eq_none he]
      rfl
  | some e =>
      obtain ⟨n, hn, hid, hc⟩ := getElem?_of_forall₂ h.nodes he
      rw [hn, Option.map_some, Option.map_some, Diagram.nodeEntry, NodeEntry.normal, hid,
        Component.name_of_ofName? hc]
      split <;> rfl

/-- An edge is written as its entry, with its port. -/
theorem edgeEntry_eq (h : SketchRead doc s) (hp : s.Passed d) {k : Nat} {e : EdgeEntry}
    (he : doc.edges[k]? = some e) :
    ∃ x, d.edges[k]? = some x ∧ d.edgeEntry x = doc.normalEdge k e
      ∧ doc.portName? k e = some x.port.name := by
  obtain ⟨w, hw, hread⟩ := getElem?_of_forall₂ h.wires he
  have hids : (s.nodes.map (·.id)).Nodup := hp.nodes ▸ hp.node_ids
  obtain ⟨x, hx, hbecomes⟩ := getElem?_of_forall₂ hp.resolved.becomes hw
  have hplace := Sketch.edgeAt?_of_wire hw
  -- the place of a wire depends on the sketch only, so it is the port of the finished edge
  rw [← hp.getElem?_edges, hx, eq_comm, Option.map_eq_some_iff] at hplace
  obtain ⟨p, hplace, hxp⟩ := hplace
  have hport : doc.portName? k e = some x.port.name := by
    rw [h.portName?_eq hids hread, hplace, ← hxp]
    rfl
  have hat : ∀ {i : Nat} {n : Node}, s.nodes[i]? = some n → d.idAt i = n.id := fun hn =>
    idAt_of_getElem? (hp.nodes ▸ hn)
  refine ⟨x, hx, ?_, hport⟩
  obtain ⟨n, hn, hid⟩ := hread.target
  have hsource := hread.source
  rw [normalEdge, hport, Diagram.edgeEntry, hbecomes.2.1, hat hn, hid, hbecomes.1]
  obtain ⟨source, sourcePort, literal, target, targetPort⟩ := e
  cases hsrc : w.source with
  | node j =>
      rw [hsrc] at hsource
      obtain ⟨m, hm, hfrom, hnone⟩ := hsource
      dsimp only at hfrom hnone ⊢
      rw [hat hm, hfrom, hnone]
  | literal l =>
      rw [hsrc] at hsource
      obtain ⟨hnone, hliteral⟩ := hsource
      dsimp only at hnone hliteral ⊢
      rw [hnone, hliteral]

theorem edges_normal (h : SketchRead doc s) (hp : s.Passed d) :
    d.edges.map d.edgeEntry = doc.edges.mapIdx doc.normalEdge := by
  refine List.ext_getElem? fun k => ?_
  rw [List.getElem?_map, List.getElem?_mapIdx]
  cases he : doc.edges[k]? with
  | none =>
      rw [List.getElem?_eq_none_iff, h.wires.length_eq, hp.resolved.becomes.length_eq] at he
      rw [List.getElem?_eq_none he]
      rfl
  | some e =>
      obtain ⟨x, hx, hentry, _⟩ := h.edgeEntry_eq hp he
      rw [hx, Option.map_some, Option.map_some, hentry]

theorem toDocument_eq (h : SketchRead doc s) (hs : s.finish = .ok d) :
    d.toDocument = doc.normal := by
  have hp := Sketch.finish_passed hs
  obtain ⟨i, n, hdesignated, hn, hid⟩ := h.output
  have hout : d.output = i := ((Sketch.chooseOutput_spec hp.output).2 i hdesignated).symm
  have hnode : d.nodes[i]? = some n := hp.nodes ▸ hn
  obtain ⟨hmetadata, hinterpretation⟩ := Sketch.finish_said hs
  rw [Diagram.toDocument, normal, hmetadata, h.metadata, hinterpretation, h.interpretation,
    h.edges_normal hp, hout, idAt_of_getElem? hnode, hid, hp.nodes, h.nodes_normal]

end SketchRead

/-- A gate with its ports named in several ways, or not at all. -/
def loose : Document where
  metadata := { id := "loose", title := some "spelled freely" }
  nodes := [⟨"out", "output-with-state"⟩, ⟨"gate", "threshold-select"⟩, ⟨"self", "context-self"⟩,
    ⟨"pred", "context-pred"⟩, ⟨"all", "context-neighbors"⟩, ⟨"score", "diversity"⟩]
  edges := [
    { source := some "all", target := "score" },
    { source := some "self", target := "gate", targetPort := some ":below" },
    { source := some "score", sourcePort := some "::out", target := "gate" },
    { literal := some (.int 1), target := "gate" },
    { source := some "pred", target := "gate", targetPort := some "above" },
    { source := some "gate", target := "out" }]
  output := "out"
  interpretation := ""

/-- What becomes of `loose`. -/
def looseDiagram : Diagram := loose.toDiagram.toOption.get rfl

/--
**A document that is read and written again is in its normal form.**

The document is arbitrary, and so is the way it is spelled. Written again it has the same
metadata, the same interpretation and the same output. Its nodes have the same ids in the same
order, and the same components. Its edges run between the same ids or from the same literals, in
the same order, each with the port it named or the one that was its turn. The normal form is read
as the same diagram, so reading and writing it once more changes nothing.
-/
theorem toDocument_eq_normal {doc : Document} {d : Diagram} (h : doc.toDiagram = .ok d) :
    d.toDocument = doc.normal
      ∧ (∀ e ∈ doc.nodes, ∃ c, Component.ofName? e.component = some c ∧ e.normal.component = c.name)
      ∧ (∀ k e, doc.edges[k]? = some e → ∃ p : Port, doc.portName? k e = some p.name)
      ∧ doc.normal.toDiagram = .ok d
      ∧ doc.normal.normal = doc.normal := by
  obtain ⟨s, hsketch, hs⟩ := toDiagram_ok h
  have hread := toSketch_ok hsketch
  have hp := Sketch.finish_passed hs
  have hnormal := hread.toDocument_eq hs
  have hagain : doc.normal.toDiagram = .ok d := hnormal ▸ hp.toDiagram_toDocument
  refine ⟨hnormal, fun e he => ?_, fun k e he => ?_, hagain, ?_⟩
  · obtain ⟨n, _, _, hc⟩ := exists_of_forall₂ hread.nodes e he
    refine ⟨n.component, hc, ?_⟩
    rw [NodeEntry.normal, Component.name_of_ofName? hc]
    split <;> rfl
  · obtain ⟨x, _, _, hport⟩ := hread.edgeEntry_eq hp he
    exact ⟨x.port, hport⟩
  · obtain ⟨s', hsketch', hs'⟩ := toDiagram_ok hagain
    rw [← (toSketch_ok hsketch').toDocument_eq hs', hnormal]

theorem toDocument_eq_normal_loose : loose.toDiagram = .ok looseDiagram
    ∧ looseDiagram.toDocument = loose.normal
    ∧ loose.normal.edges.map EdgeEntry.targetPort
      = [some "sigils", some "below", some "score", some "threshold", some "above",
        some "sigil"] := by
  have h : loose.toDiagram = .ok looseDiagram := rfl
  exact ⟨h, (toDocument_eq_normal h).1, by decide +kernel⟩

end Document

end RuleWiring
