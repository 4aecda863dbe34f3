import Mathlib
import RuleWiring.Compilation.Basic
import RuleWiring.Proofs.Expression
import RuleWiring.Proofs.Stages

/-!
# Drawings

Here is one way to draw a sketch that never goes wrong: add a node and at once feed all its ports
from constants and from nodes that are there already. The trees that the nodes stand for are
known all along, and if what is fed has the right types, all that is left to ask for in the end
is that the ids differ and that the last node is the one output, for which all others are of use.

`Drawing` is the invariant, `Drawing.draw` adds a node and `Drawing.finish` ends the drawing.
-/

namespace RuleWiring

theorem map_fst_eq {α γ δ : Type} {R : α × γ → α × δ → Prop} {l : List (α × γ)}
    {l' : List (α × δ)} (h : List.Forall₂ R l l') (hR : ∀ x y, R x y → x.1 = y.1) :
    l.map Prod.fst = l'.map Prod.fst := by
  rw [← List.forall₂_eq_eq_eq, List.forall₂_map_left_iff, List.forall₂_map_right_iff]
  exact h.imp hR

/-- A list of pairs with distinct keys is known from its keys and its members. -/
theorem eq_of_keys {α γ : Type} : ∀ {l l' : List (α × γ)}, l.map Prod.fst = l'.map Prod.fst →
    (l.map Prod.fst).Nodup → (∀ x ∈ l, x ∈ l') → l = l'
  | [], [], _, _, _ => rfl
  | [], _ :: _, hkeys, _, _ => absurd hkeys (by simp)
  | _ :: _, [], hkeys, _, _ => absurd hkeys (by simp)
  | x :: l, y :: l', hkeys, hnd, hmem => by
      rw [List.map_cons, List.map_cons] at hkeys
      injection hkeys with hkey hkeys
      have hnd' := hnd
      rw [List.map_cons, hkey, hkeys] at hnd'
      rw [List.map_cons, List.nodup_cons] at hnd
      have hxy : x = y :=
        List.inj_on_of_nodup_map (by exact hnd') (hmem x (List.mem_cons_self ..))
          (List.mem_cons_self ..) hkey
      rw [hxy, eq_of_keys hkeys hnd.2 fun z hz => ?_]
      refine (List.mem_cons.mp (hmem z (List.mem_cons_of_mem _ hz))).resolve_left fun hzy => ?_
      rw [hxy, ← hzy] at hnd
      exact hnd.1 (List.mem_map_of_mem hz)

/-- A node of a drawing: its id, and its tree. -/
structure Piece where
  id : String
  component : Component
  inputs : List (Port × Expression)

namespace Piece

def node (x : Piece) : Node := ⟨x.id, x.component⟩

def expression (x : Piece) : Expression := .apply x.component x.inputs

/-- What comes in has the types that the component declares, port by port. -/
def Typed (x : Piece) : Prop :=
  List.Forall₂ (fun a f => a.1 = f.1 ∧ a.2.type.feeds f.2 = true) x.inputs x.component.inputs

/-- The tree of the node at a position. -/
def tree (pieces : List Piece) (i : Nat) : Option Expression := (pieces[i]?).map expression

theorem tree_append {pieces : List Piece} {i : Nat} {e : Expression} (h : tree pieces i = some e)
    (more : List Piece) : tree (pieces ++ more) i = some e := by
  obtain ⟨x, hx, he⟩ := Option.map_eq_some_iff.mp h
  have hi := (List.getElem?_eq_some_iff.mp hx).1
  rw [tree, List.getElem?_append_left hi, hx, Option.map_some, he]

theorem tree_next (pieces : List Piece) (x : Piece) :
    tree (pieces ++ [x]) pieces.length = some x.expression := by
  rw [tree, List.getElem?_concat_length, Option.map_some]

theorem lt_of_tree {pieces : List Piece} {i : Nat} {e : Expression} (h : tree pieces i = some e) :
    i < pieces.length := by
  obtain ⟨x, hx, _⟩ := Option.map_eq_some_iff.mp h
  exact (List.getElem?_eq_some_iff.mp hx).1

/-- A node is among those that were there, or it is the new one. -/
theorem getElem?_concat {pieces : List Piece} {x y : Piece} {i : Nat}
    (h : (pieces ++ [x])[i]? = some y) : pieces[i]? = some y ∨ i = pieces.length ∧ y = x := by
  rcases Nat.lt_or_ge i pieces.length with hi | hi
  · rw [List.getElem?_append_left hi] at h
    exact Or.inl h
  · have hlt := (List.getElem?_eq_some_iff.mp h).1
    rw [List.length_append, List.length_singleton] at hlt
    have hi : i = pieces.length := by omega
    subst hi
    rw [List.getElem?_concat_length] at h
    injection h with h
    exact Or.inr ⟨rfl, h.symm⟩

theorem Typed.ports {x : Piece} (h : x.Typed) : x.inputs.map Prod.fst = x.component.ports :=
  map_fst_eq h fun _ _ haf => haf.1

end Piece

open Piece

theorem Source.Stands.append {pieces : List Piece} {src : Source} {e : Expression}
    (h : src.Stands (tree pieces) e) (more : List Piece) : src.Stands (tree (pieces ++ more)) e := by
  cases src with
  | literal l => exact h
  | node j => exact tree_append h more

theorem InputsStand.append {pieces : List Piece} {fs : List (Port × Source)}
    {args : List (Port × Expression)} (h : InputsStand (tree pieces) fs args) (more : List Piece) :
    InputsStand (tree (pieces ++ more)) fs args :=
  h.imp fun _ _ hfa => ⟨hfa.1, hfa.2.append more⟩

theorem InputsStand.ports {tree : Nat → Option Expression} {fs : List (Port × Source)}
    {args : List (Port × Expression)} (h : InputsStand tree fs args) :
    fs.map Prod.fst = args.map Prod.fst :=
  map_fst_eq h fun _ _ hfa => hfa.1

namespace Component

theorem inputType?_eq {c : Component} {p : Port} {t : ValueType} (h : (p, t) ∈ c.inputs) :
    c.inputType? p = some t := by
  have hport : p ∈ c.ports := List.mem_map.mpr ⟨_, h, rfl⟩
  have hsome := inputType?_isSome.mpr hport
  obtain ⟨u, hu⟩ := Option.isSome_iff_exists.mp hsome
  obtain ⟨⟨q, v⟩, hf, hv⟩ := Option.map_eq_some_iff.mp hu
  have hq := List.find?_some hf
  simp only [decide_eq_true_eq] at hq
  have heq := List.inj_on_of_nodup_map c.ports_nodup (List.mem_of_find?_eq_some hf) h hq
  injection heq with _ heq
  rw [hu, ← hv, heq]

theorem isSource_of_port {c : Component} {p : Port} (h : p ∈ c.ports) : c.isSource = false := by
  revert h
  cases c <;> first | exact fun _ => rfl | exact fun h => absurd h (by simp [ports, inputs])

end Component

namespace Sketch

/-- What is wired to the ports of a node by name. -/
def feedsOf (s : Sketch) (i : Nat) : List (Port × Source) :=
  s.wires.filterMap fun w => if w.target = i then w.port.map (·, w.source) else none

theorem mem_feedsOf {s : Sketch} {i : Nat} {p : Port} {src : Source} :
    (p, src) ∈ s.feedsOf i ↔ ⟨src, i, some p⟩ ∈ s.wires := by
  rw [feedsOf, List.mem_filterMap]
  constructor
  · rintro ⟨⟨source, target, port⟩, hw, hfeed⟩
    split at hfeed
    · rename_i htarget
      obtain ⟨q, hq, hpair⟩ := Option.map_eq_some_iff.mp hfeed
      dsimp only at hq htarget
      injection hpair with hp hsrc
      rw [← hp, ← hsrc, ← htarget, ← hq]
      exact hw
    · exact absurd hfeed (by simp)
  · intro hw
    exact ⟨_, hw, by simp⟩

/-! ## The invariant -/

/-- A sketch in which every node stands for a tree, and all but some nodes feed another. -/
structure Drawing (s : Sketch) (pieces : List Piece) (loose : List Nat) : Prop where
  nodes : s.nodes = pieces.map Piece.node
  /-- Wires name a port and come from an earlier node. -/
  wires : ∀ w ∈ s.wires, w.target < pieces.length ∧ w.port.isSome ∧ w.source.Within w.target
  claimed : (named s.wires).Nodup
  /-- What is wired to a node makes up its tree. -/
  inputs : ∀ i x, pieces[i]? = some x → InputsStand (tree pieces) (s.feedsOf i) x.inputs
  typed : ∀ x ∈ pieces, x.Typed
  /-- What a node puts out is of use to a later one. -/
  used : ∀ i x, pieces[i]? = some x → x.component.isSource = false → i ∈ loose ∨ ∃ j, s.Feeds i j
  designated : s.designated = none

theorem drawing_start (m : Metadata) : Drawing { metadata := m } [] [] where
  nodes := rfl
  wires := by simp
  claimed := List.nodup_nil
  inputs := by simp
  typed := by simp
  used := by simp
  designated := rfl

variable {s : Sketch} {pieces : List Piece} {loose : List Nat}

theorem Drawing.next_eq (h : Drawing s pieces loose) : s.next = pieces.length := by
  rw [next, h.nodes, List.length_map]

theorem Drawing.interpret (h : Drawing s pieces loose) (text : String) :
    Drawing (s.interpret text) pieces loose :=
  ⟨h.nodes, h.wires, h.claimed, h.inputs, h.typed, h.used, h.designated⟩

theorem Drawing.loosen (h : Drawing s pieces loose) {loose' : List Nat}
    (hsub : ∀ i ∈ loose, i ∈ loose') : Drawing s pieces loose' :=
  { h with used := fun i x hx hs => (h.used i x hx hs).imp_left (hsub i) }

/-! ## Another node -/

section Draw

variable {id : String} {c : Component} {feeds : List (Source × Port)}

theorem feed_eq (i : Nat) : ∀ (feeds : List (Source × Port)) (s : Sketch),
    Compilation.feed s i feeds
      = { s with wires := s.wires ++ feeds.map fun f => ⟨f.1, i, some f.2⟩ }
  | [], s => by simp [Compilation.feed]
  | f :: feeds, s => by
      show Compilation.feed (s.addWire _) i feeds = _
      rw [feed_eq i feeds]
      simp [addWire]

theorem draw_nodes : (Compilation.draw s id c feeds).nodes = s.nodes ++ [⟨id, c⟩] := by
  rw [Compilation.draw, feed_eq]
  rfl

theorem draw_wires : (Compilation.draw s id c feeds).wires
    = s.wires ++ feeds.map fun f => ⟨f.1, s.next, some f.2⟩ := by
  rw [Compilation.draw, feed_eq]
  rfl

theorem draw_designated : (Compilation.draw s id c feeds).designated = s.designated := by
  rw [Compilation.draw, feed_eq]
  rfl

/-- The ports of the nodes that were there are fed as before. -/
theorem feedsOf_draw_of_ne {i : Nat} (hi : i ≠ s.next) :
    (Compilation.draw s id c feeds).feedsOf i = s.feedsOf i := by
  rw [feedsOf, draw_wires, List.filterMap_append, List.filterMap_map]
  have hnew : feeds.filterMap ((fun w : SketchWire =>
      if w.target = i then w.port.map (·, w.source) else none) ∘
        fun f => ⟨f.1, s.next, some f.2⟩) = [] := by
    rw [List.filterMap_eq_nil_iff]
    exact fun f _ => if_neg (Ne.symm hi)
  rw [hnew, List.append_nil, feedsOf]

/-- The ports of the new node are fed as asked for. -/
theorem feedsOf_draw_next (h : Drawing s pieces loose) :
    (Compilation.draw s id c feeds).feedsOf s.next = feeds.map Prod.swap := by
  rw [feedsOf, draw_wires, List.filterMap_append, List.filterMap_map]
  have hold : s.wires.filterMap (fun w =>
      if w.target = s.next then w.port.map (·, w.source) else none) = [] := by
    rw [List.filterMap_eq_nil_iff]
    intro w hw
    have hlt := (h.wires w hw).1
    rw [← h.next_eq] at hlt
    exact if_neg (Nat.ne_of_lt hlt)
  rw [hold, List.nil_append, ← List.filterMap_eq_map]
  congr 1
  funext f
  exact if_pos rfl

end Draw

/-- The new node stands for the tree made up of those that it is fed. -/
theorem Drawing.tree_draw (h : Drawing s pieces loose) (x : Piece) :
    tree (pieces ++ [x]) s.next = some x.expression := by
  rw [h.next_eq]
  exact tree_next pieces x

/-- **A node is added** and fed. Nodes that it is fed need not be of use to any other. -/
theorem Drawing.draw (h : Drawing s pieces loose) (x : Piece) {feeds : List (Source × Port)}
    {loose' : List Nat} (hinputs : InputsStand (tree pieces) (feeds.map Prod.swap) x.inputs)
    (htyped : x.Typed) (hloose : ∀ i ∈ loose, i ∈ loose' ∨ ∃ p, (.node i, p) ∈ feeds)
    (hnext : x.component.isSource = false → s.next ∈ loose') :
    Drawing (Compilation.draw s x.id x.component feeds) (pieces ++ [x]) loose' := by
  have hlength : (pieces ++ [x]).length = s.next + 1 := by
    rw [h.next_eq, List.length_append, List.length_singleton]
  have hports : feeds.map Prod.snd = x.component.ports := by
    rw [← htyped.ports, ← hinputs.ports, List.map_map]
    rfl
  exact {
    nodes := by
      rw [draw_nodes, h.nodes, List.map_append]
      rfl
    wires := by
      intro w hw
      rw [hlength]
      rw [draw_wires] at hw
      rcases List.mem_append.mp hw with hw | hw
      · obtain ⟨htarget, hrest⟩ := h.wires w hw
        rw [← h.next_eq] at htarget
        exact ⟨by omega, hrest⟩
      · obtain ⟨⟨src, p⟩, hf, rfl⟩ := List.mem_map.mp hw
        refine ⟨Nat.lt_succ_self _, rfl, ?_⟩
        obtain ⟨_, _, _, hstands⟩ := exists_of_forall₂ hinputs _ (List.mem_map_of_mem hf)
        cases src with
        | literal l => trivial
        | node j =>
            rw [h.next_eq]
            exact lt_of_tree hstands
    claimed := by
      rw [draw_wires, named, List.filterMap_append, List.nodup_append']
      refine ⟨h.claimed, ?_, ?_⟩
      · rw [List.filterMap_map]
        have hslots : feeds.filterMap (SketchWire.slot? ∘ fun f => ⟨f.1, s.next, some f.2⟩)
            = (feeds.map Prod.snd).map (s.next, ·) := by
          rw [List.map_map, ← List.filterMap_eq_map]
          rfl
        rw [hslots, hports]
        exact x.component.ports_nodup.map fun _ _ hpq => congrArg Prod.snd hpq
      · -- the wires before go to the nodes before
        intro k hold hnew
        obtain ⟨w, hw, hk⟩ := List.mem_filterMap.mp hold
        obtain ⟨w', hw', hk'⟩ := List.mem_filterMap.mp hnew
        obtain ⟨f, _, rfl⟩ := List.mem_map.mp hw'
        obtain ⟨p, _, rfl⟩ := Option.map_eq_some_iff.mp hk
        obtain ⟨q, _, hq⟩ := Option.map_eq_some_iff.mp hk'
        have htarget : s.next = w.target := congrArg Prod.fst hq
        have hlt := (h.wires w hw).1
        rw [← h.next_eq] at hlt
        omega
    inputs := by
      intro i y hy
      rcases Piece.getElem?_concat hy with hy | ⟨hi, hyx⟩
      · have hlt := (List.getElem?_eq_some_iff.mp hy).1
        rw [← h.next_eq] at hlt
        rw [feedsOf_draw_of_ne (Nat.ne_of_lt hlt)]
        exact (h.inputs i y hy).append [x]
      · rw [hi, hyx, ← h.next_eq, feedsOf_draw_next h]
        exact hinputs.append [x]
    typed := by
      intro y hy
      rcases List.mem_append.mp hy with hy | hy
      · exact h.typed y hy
      · exact List.mem_singleton.mp hy ▸ htyped
    used := by
      intro i y hy hs
      rcases Piece.getElem?_concat hy with hy | ⟨hi, hyx⟩
      · rcases h.used i y hy hs with hmem | ⟨j, w, hw, hwire⟩
        · rcases hloose i hmem with hmem | ⟨p, hp⟩
          · exact Or.inl hmem
          · refine Or.inr ⟨s.next, ⟨.node i, s.next, some p⟩, ?_, rfl, rfl⟩
            rw [draw_wires]
            exact List.mem_append_right _ (List.mem_map.mpr ⟨_, hp, rfl⟩)
        · exact Or.inr ⟨j, w, draw_wires ▸ List.mem_append_left _ hw, hwire⟩
      · rw [hi, ← h.next_eq]
        exact Or.inl (hnext (hyx ▸ hs))
    designated := by rw [draw_designated, h.designated] }

/-! ## The end of a drawing -/

section Wires

variable {i : Nat} {x : Piece} {p : Port} {src : Source}

theorem Drawing.node_eq (h : Drawing s pieces loose) {n : Node} (hn : s.nodes[i]? = some n) :
    ∃ x, pieces[i]? = some x ∧ x.node = n := by
  rw [h.nodes, List.getElem?_map] at hn
  exact Option.map_eq_some_iff.mp hn

theorem Drawing.ports_feedsOf (h : Drawing s pieces loose) (hx : pieces[i]? = some x) :
    (s.feedsOf i).map Prod.fst = x.component.ports := by
  rw [(h.inputs i x hx).ports, (h.typed x (List.mem_of_getElem? hx)).ports]

/-- Wires keep the ports that they name. -/
theorem Drawing.edge_iff (h : Drawing s pieces loose) {e : Edge} :
    (∃ k, s.edgeAt? k = some e) ↔ (e.port, e.source) ∈ s.feedsOf e.target := by
  rw [mem_feedsOf]
  constructor
  · rintro ⟨k, hk⟩
    obtain ⟨w, hw, hplace⟩ := Option.bind_eq_some_iff.mp hk
    have hmem := List.mem_of_getElem? hw
    obtain ⟨p, hp⟩ := Option.isSome_iff_exists.mp (h.wires w hmem).2.1
    rw [place?_some hp, Option.map_some] at hplace
    injection hplace with hplace
    rw [← hplace, ← hp]
    exact hmem
  · intro hw
    obtain ⟨k, hk⟩ := List.mem_iff_getElem?.mp hw
    exact ⟨k, by rw [edgeAt?_of_wire hk, place?_some rfl]; rfl⟩

/-- **What is drawn fits.** -/
theorem Drawing.fits (h : Drawing s pieces loose) (hx : pieces[i]? = some x)
    (hmem : (p, src) ∈ s.feedsOf i) : Fits s.nodes ⟨src, i, p⟩ := by
  obtain ⟨⟨q, e⟩, ha, hq, hstands⟩ := exists_of_forall₂ (h.inputs i x hx) _ hmem
  obtain ⟨⟨r, t⟩, hf, hr, hfeeds⟩ :=
    exists_of_forall₂ (h.typed x (List.mem_of_getElem? hx)) _ ha
  dsimp only at hq hr hstands hfeeds
  subst hq hr
  refine ⟨x.node, t, e.type, ?_, ?_, ?_, hfeeds⟩
  · rw [h.nodes, List.getElem?_map, hx, Option.map_some]
  · exact Component.inputType?_eq hf
  · cases src with
    | literal l =>
        have he : e = .constant l := hstands
        rw [he]
        rfl
    | node j =>
        obtain ⟨y, hy, he⟩ := Option.map_eq_some_iff.mp hstands
        rw [sourceType?, h.nodes, List.getElem?_map, hy, ← he]
        rfl

/-- Wires lead to later nodes. -/
theorem Drawing.feeds_lt (h : Drawing s pieces loose) {i j : Nat} (hij : s.Feeds i j) : i < j := by
  obtain ⟨w, hw, hs, ht⟩ := hij
  have hwithin := (h.wires w hw).2.2
  rw [hs, ht] at hwithin
  exact hwithin

/-- Every node is of use to the last one. The induction is on how many come behind it. -/
theorem Drawing.reaches {o : Nat} (h : Drawing s pieces [o]) :
    ∀ (k : Nat) {i : Nat} {x : Piece}, pieces.length - i ≤ k → pieces[i]? = some x →
      x.component.isSource = false → Relation.ReflTransGen s.Feeds i o
  | 0, i, x, hk, hx, _ => by
      have hi := (List.getElem?_eq_some_iff.mp hx).1
      omega
  | k + 1, i, x, hk, hx, hs => by
      rcases h.used i x hx hs with hmem | ⟨j, hij⟩
      · rw [List.mem_singleton.mp hmem]
      · have hlt := h.feeds_lt hij
        have ⟨w, hw, _, ht⟩ := hij
        have hj : j < pieces.length := ht ▸ (h.wires w hw).1
        obtain ⟨y, hy⟩ : ∃ y, pieces[j]? = some y := ⟨_, List.getElem?_eq_getElem hj⟩
        refine .head hij (h.reaches k (by omega) hy ?_)
        -- a node that is fed is not an extractor, which has no ports
        obtain ⟨p, hp⟩ := Option.isSome_iff_exists.mp (h.wires w hw).2.1
        have hfeed : (p, w.source) ∈ s.feedsOf j := mem_feedsOf.mpr (by rw [← ht, ← hp]; exact hw)
        have hport : p ∈ y.component.ports := by
          rw [← h.ports_feedsOf hy]
          exact List.mem_map_of_mem hfeed
        exact Component.isSource_of_port hport

end Wires

section Finish

variable {o : Nat}

/-- A drawing meets all that is asked of a sketch. -/
theorem Drawing.meets (h : Drawing s pieces [o]) (hids : (pieces.map Piece.id).Nodup)
    (hout : ∀ i x, pieces[i]? = some x → (x.component = .output ↔ i = o)) (ho : o < pieces.length) :
    ∀ k, s.Meets k := by
  have hlength : s.nodes.length = pieces.length := by rw [h.nodes, List.length_map]
  have houtput : ∀ i, (∃ n, s.nodes[i]? = some n ∧ n.component = .output) ↔ i = o := by
    intro i
    constructor
    · rintro ⟨n, hn, hc⟩
      obtain ⟨x, hx, hxn⟩ := h.node_eq hn
      subst hxn
      exact (hout i x hx).mp hc
    · rintro rfl
      have hx := List.getElem?_eq_getElem ho
      exact ⟨_, by rw [h.nodes, List.getElem?_map, hx]; rfl, (hout i _ hx).mpr rfl⟩
  intro k
  cases k with
  | ids =>
      show (s.nodes.map (·.id)).Nodup
      rw [h.nodes, List.map_map]
      exact hids
  | wires =>
      refine ⟨fun w hw => ?_, fun w hw p n hp hn => ?_, h.claimed⟩
      · obtain ⟨htarget, _, hwithin⟩ := h.wires w hw
        rw [hlength]
        refine ⟨htarget, ?_⟩
        cases hsrc : w.source with
        | literal l => trivial
        | node j =>
            rw [hsrc] at hwithin
            exact Nat.lt_trans hwithin htarget
      · obtain ⟨x, hx, hxn⟩ := h.node_eq hn
        subst hxn
        show p ∈ x.component.ports
        rw [← h.ports_feedsOf hx]
        exact List.mem_map_of_mem (mem_feedsOf.mpr (by rw [← hp]; exact hw))
  | places =>
      intro k hk
      have hw := List.getElem?_eq_getElem hk
      obtain ⟨p, hp⟩ := Option.isSome_iff_exists.mp (h.wires _ (List.mem_of_getElem? hw)).2.1
      exact ⟨_, by rw [edgeAt?_of_wire hw, place?_some hp]; rfl⟩
  | types =>
      intro k e he
      have hmem := h.edge_iff.mp ⟨k, he⟩
      have hlt := (h.wires _ (mem_feedsOf.mp hmem)).1
      exact h.fits (List.getElem?_eq_getElem hlt) hmem
  | feeds =>
      intro i n hn p hp
      obtain ⟨x, hx, hxn⟩ := h.node_eq hn
      subst hxn
      have hport : p ∈ (s.feedsOf i).map Prod.fst := by
        rw [h.ports_feedsOf hx]
        exact hp
      obtain ⟨⟨q, src⟩, hmem, hq⟩ := List.mem_map.mp hport
      dsimp only at hq
      subst hq
      obtain ⟨k, hk⟩ := (h.edge_iff (e := ⟨src, i, q⟩)).mpr hmem
      exact ⟨k, _, hk, rfl⟩
  | output => exact ⟨o, houtput, fun i hi => by rw [h.designated] at hi; exact absurd hi (by simp)⟩
  | order =>
      intro i hi
      have hlt : ∀ j, Relation.TransGen s.Feeds i j → i < j := by
        intro j hij
        induction hij with
        | single hab => exact h.feeds_lt hab
        | tail _ hbc ih => exact Nat.lt_trans ih (h.feeds_lt hbc)
      exact Nat.lt_irrefl _ (hlt i hi)
  | reach =>
      intro i n hn hs
      obtain ⟨x, hx, hxn⟩ := h.node_eq hn
      subst hxn
      obtain ⟨m, hm, hc⟩ := (houtput o).mpr rfl
      exact ⟨o, m, hm, hc, h.reaches _ (Nat.le_refl _) hx hs⟩

/-- The inputs of the diagram are what was wired in the drawing. -/
theorem Drawing.inputsOf_eq (h : Drawing s pieces loose) {d : Diagram} (hd : s.finish = .ok d)
    {i : Nat} {x : Piece} (hx : pieces[i]? = some x) : d.inputsOf i = s.feedsOf i := by
  have hp := finish_passed hd
  have hn : d.nodes[i]? = some x.node := by
    rw [hp.nodes, h.nodes, List.getElem?_map, hx, Option.map_some]
  have hports := (hp.inputsOf_spec hn).1
  refine eq_of_keys (hports.trans (h.ports_feedsOf hx).symm)
    (hports ▸ x.component.ports_nodup) fun ⟨p, src⟩ hmem => ?_
  exact h.edge_iff.mp ((mem_resolved hp.edges).mp (hp.mem_inputsOf.mp hmem))

/-- The last node is the output if no other is. -/
theorem output_iff {last : Piece} (hlast : last.component = .output)
    (hothers : ∀ x ∈ pieces, x.component ≠ .output) (i : Nat) (x : Piece)
    (hx : (pieces ++ [last])[i]? = some x) : x.component = .output ↔ i = pieces.length := by
  rcases getElem?_concat hx with hx | ⟨hi, hxl⟩
  · have hlt := (List.getElem?_eq_some_iff.mp hx).1
    exact iff_of_false (hothers x (List.mem_of_getElem? hx)) (Nat.ne_of_lt hlt)
  · exact iff_of_true (hxl ▸ hlast) hi

/-- **A drawing becomes a diagram** if ids differ and the last node is the one output, for which
all others are of use. Its nodes stand for the trees that were drawn. -/
theorem Drawing.finish {last : Piece} (h : Drawing s (pieces ++ [last]) [pieces.length])
    (hids : ((pieces ++ [last]).map Piece.id).Nodup) (hlast : last.component = .output)
    (hothers : ∀ x ∈ pieces, x.component ≠ .output) :
    ∃ d, s.finish = .ok d ∧ d.nodes = (pieces ++ [last]).map Piece.node
      ∧ d.Spelled (tree (pieces ++ [last])) ∧ d.expression = some last.expression := by
  have hout := output_iff hlast hothers
  obtain ⟨d, hd⟩ := finish_ok_of_meets (h.meets hids hout (by simp))
  have hp := finish_passed hd
  have hspelled : d.Spelled (tree (pieces ++ [last])) := by
    intro i n hn
    obtain ⟨x, hx, hxn⟩ := h.node_eq (hp.nodes ▸ hn)
    subst hxn
    refine ⟨x.inputs, by rw [tree, hx]; rfl, ?_⟩
    rw [h.inputsOf_eq hd hx]
    exact h.inputs i x hx
  have hnext := tree_next pieces last
  obtain ⟨x, hx, _⟩ := Option.map_eq_some_iff.mp hnext
  have hn : d.nodes[pieces.length]? = some x.node := by
    rw [hp.nodes, h.nodes, List.getElem?_map, hx, Option.map_some]
  have houtput := (hp.output_spec.2 _ _ hn).mp ((hout _ x hx).mpr rfl)
  refine ⟨d, hd, by rw [hp.nodes, h.nodes], hspelled, ?_⟩
  rw [hp.expression_eq hspelled, ← houtput, hnext]

end Finish

end Sketch

end RuleWiring
