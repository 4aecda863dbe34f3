import Mathlib
import RuleWiring.Diagram.Ports
import RuleWiring.Proofs.Outcomes

/-!
# Every port has one feed

What the passes over the wires of a sketch establish, in the order in which they run.

* Ports that are **named** are taken once each, and every end of a wire exists.
* A wire that is **assigned** a port takes one that no other wire has. Together the two say
  that no two edges enter the same port.
* The **types** agree, which also shows that every port entered is declared.
* The **feeds** listed by node are exactly the edges, in the declared order of the ports.
-/

namespace RuleWiring

/-! ## Lists side by side -/

section Beside

variable {α γ : Type} {R : α → γ → Prop} {l : List α} {l' : List γ}

/-- What stands at the same position is related. -/
theorem getElem?_of_forall₂ (h : List.Forall₂ R l l') {k : Nat} {x : α} (hx : l[k]? = some x) :
    ∃ y, l'[k]? = some y ∧ R x y := by
  induction h generalizing k with
  | nil => exact absurd hx (by simp)
  | @cons a b l l' hab _ ih =>
      cases k with
      | zero =>
          rw [List.getElem?_cons_zero] at hx
          injection hx with hx
          exact ⟨b, rfl, hx ▸ hab⟩
      | succ k => exact ih hx

/-- What stands in one list has a counterpart in the other. -/
theorem exists_of_forall₂ (h : List.Forall₂ R l l') : ∀ x ∈ l, ∃ y ∈ l', R x y := by
  intro x hx
  obtain ⟨k, hk⟩ := List.mem_iff_getElem?.mp hx
  obtain ⟨y, hy, hr⟩ := getElem?_of_forall₂ h hk
  exact ⟨y, List.mem_of_getElem? hy, hr⟩

end Beside

/-! ## Edges and wires -/

/-- The port of a node that an edge enters. -/
def Edge.slot (e : Edge) : Nat × Port := (e.target, e.port)

/-- The port of a node that a wire names. -/
def SketchWire.slot? (w : SketchWire) : Option (Nat × Port) := w.port.map (w.target, ·)

/-- A source that is a constant, or one of the first `n` nodes. -/
def Source.Within (n : Nat) : Source → Prop
  | .node i => i < n
  | .literal _ => True

/-- The edge that a wire has become: its ends are the same, and so is the port it named. -/
def SketchWire.Becomes (w : SketchWire) (e : Edge) : Prop :=
  e.source = w.source ∧ e.target = w.target ∧ ∀ p, w.port = some p → e.port = p

namespace Sketch

/-- The ports that some wires name. -/
def named (ws : List SketchWire) : List (Nat × Port) := ws.filterMap SketchWire.slot?

theorem named_cons_some {w : SketchWire} {p : Port} (h : w.port = some p)
    (ws : List SketchWire) : named (w :: ws) = (w.target, p) :: named ws := by
  simp [named, SketchWire.slot?, h]

theorem named_cons_none {w : SketchWire} (h : w.port = none) (ws : List SketchWire) :
    named (w :: ws) = named ws := by
  simp [named, SketchWire.slot?, h]

/-! ## Ports taken by name -/

theorem checkEnds_ok {nodes : List Node} {i : Nat} {w : SketchWire} {u : Unit}
    (h : checkEnds nodes i w = .ok u) :
    w.target < nodes.length ∧ w.source.Within nodes.length := by
  unfold checkEnds at h
  split at h
  · exact absurd h (by simp)
  · rename_i ht
    refine ⟨Nat.lt_of_not_le ht, ?_⟩
    split at h
    · rename_i hs; rw [hs]; trivial
    · rename_i origin hs
      split at h
      · exact absurd h (by simp)
      · rename_i ho; rw [hs]; exact Nat.lt_of_not_le ho

/-- What naming a port does to the ports taken so far. -/
theorem claimNamed_cases {nodes : List Node} {claims claims' : Claims} {w : SketchWire}
    (ht : w.target < nodes.length) (h : claimNamed nodes claims w = .ok claims') :
    (w.port = none ∧ claims' = claims) ∨
      ∃ p, w.port = some p ∧ (w.target, p) ∉ claims ∧ claims' = (w.target, p) :: claims := by
  unfold claimNamed at h
  split at h
  · rename_i p n hp _
    split at h
    · exact absurd h (by simp)
    · split at h
      · exact absurd h (by simp)
      · rename_i hfree
        injection h with h
        exact Or.inr ⟨p, hp, hfree, h.symm⟩
  · rename_i hno
    injection h with h
    refine Or.inl ⟨?_, h.symm⟩
    cases hp : w.port with
    | none => rfl
    | some p => exact absurd (List.getElem?_eq_getElem ht) (fun he => hno p _ hp he)

/-- The ports named by some wires were all free, and are taken once each. -/
structure Claimed (nodes : List Node) (claims : Claims) (ws : List SketchWire)
    (claims' : Claims) : Prop where
  /-- Both ends of every wire exist. -/
  ends : ∀ w ∈ ws, w.target < nodes.length ∧ w.source.Within nodes.length
  /-- No port is named twice. -/
  nodup : (named ws).Nodup
  /-- No port that is named was taken before. -/
  fresh : ∀ k ∈ named ws, k ∉ claims
  /-- The ports taken afterwards. -/
  mem : ∀ k, k ∈ claims' ↔ k ∈ named ws ∨ k ∈ claims

theorem namedClaims_claimed {nodes : List Node} :
    ∀ (ws : List SketchWire) {i : Nat} {claims claims' : Claims},
    namedClaims nodes i claims ws = .ok claims' → Claimed nodes claims ws claims'
  | [], _, claims, claims', h => by
      rw [namedClaims] at h
      injection h with h
      subst h
      exact ⟨by simp, by simp [named], by simp [named], by simp [named]⟩
  | w :: ws, i, claims, claims', h => by
      rw [namedClaims] at h
      split at h
      · exact absurd h (by simp)
      · rename_i hends
        have hw := checkEnds_ok hends
        split at h
        · exact absurd h (by simp)
        · rename_i mid hclaim
          have rest := namedClaims_claimed ws h
          have ends : ∀ x ∈ w :: ws, x.target < nodes.length ∧ x.source.Within nodes.length := by
            intro x hx
            rcases List.mem_cons.mp hx with hx | hx
            · exact hx ▸ hw
            · exact rest.ends x hx
          rcases claimNamed_cases hw.1 hclaim with ⟨hp, hmid⟩ | ⟨p, hp, hfree, hmid⟩
          · subst hmid
            refine ⟨ends, ?_, ?_, ?_⟩
            · rw [named_cons_none hp]; exact rest.nodup
            · rw [named_cons_none hp]; exact rest.fresh
            · rw [named_cons_none hp]; exact rest.mem
          · subst hmid
            refine ⟨ends, ?_, ?_, ?_⟩
            · -- the rest named no port that was taken, so not this one
              rw [named_cons_some hp, List.nodup_cons]
              exact ⟨fun hk => rest.fresh _ hk (by simp), rest.nodup⟩
            · rw [named_cons_some hp]
              intro k hk
              rcases List.mem_cons.mp hk with hk | hk
              · rw [hk]; exact hfree
              · exact fun hc => rest.fresh k hk (List.mem_cons_of_mem _ hc)
            · intro k
              rw [named_cons_some hp, rest.mem k]
              simp only [List.mem_cons]
              tauto

/-! ## Ports assigned -/

theorem freePort?_fresh {claims : Claims} {i : Nat} {n : Node} {p : Port}
    (h : freePort? claims i n = some p) : (i, p) ∉ claims := by
  simpa using List.find?_some h

/-- What becomes of the first of some wires that are given their ports. -/
theorem assign_cons {nodes : List Node} {i : Nat} {claims : Claims} {w : SketchWire}
    {ws : List SketchWire} {edges : List Edge} (h : assign nodes i claims (w :: ws) = .ok edges) :
    (∃ p rest, w.port = some p ∧ assign nodes (i + 1) claims ws = .ok rest
        ∧ edges = ⟨w.source, w.target, p⟩ :: rest) ∨
      ∃ p rest, w.port = none ∧ (w.target, p) ∉ claims
        ∧ assign nodes (i + 1) ((w.target, p) :: claims) ws = .ok rest
        ∧ edges = ⟨w.source, w.target, p⟩ :: rest := by
  rw [assign] at h
  split at h
  · rename_i p hp
    obtain ⟨rest, hrest, he⟩ := map_eq_ok h
    exact Or.inl ⟨p, rest, hp, hrest, he.symm⟩
  · rename_i n hp _
    split at h
    · exact absurd h (by simp)
    · rename_i p hfree
      obtain ⟨rest, hrest, he⟩ := map_eq_ok h
      exact Or.inr ⟨p, rest, hp, freePort?_fresh hfree, hrest, he.symm⟩
  · exact absurd h (by simp)

/--
No two edges enter the same port.

The claim carried along the wires is finer: an edge that enters a port already taken comes
from a wire that named this port. A wire without a name thus cannot run into the ports taken
before, and its own port is taken for those after it.
-/
theorem assign_slots {nodes : List Node} :
    ∀ (ws : List SketchWire) {i : Nat} {claims : Claims} {edges : List Edge},
    assign nodes i claims ws = .ok edges → (named ws).Nodup → (∀ k ∈ named ws, k ∈ claims) →
    (edges.map Edge.slot).Nodup ∧ ∀ k ∈ edges.map Edge.slot, k ∈ claims → k ∈ named ws
  | [], _, _, _, h, _, _ => by
      rw [assign] at h
      injection h with h
      subst h
      exact ⟨by simp, by simp⟩
  | w :: ws, i, claims, edges, h, hnd, hin => by
      rcases assign_cons h with ⟨p, rest, hp, hrest, he⟩ | ⟨p, rest, hp, hfree, hrest, he⟩
      · rw [named_cons_some hp] at hnd hin ⊢
        rw [List.nodup_cons] at hnd
        have ih := assign_slots ws hrest hnd.2 (fun k hk => hin k (List.mem_cons_of_mem _ hk))
        rw [he, List.map_cons]
        refine ⟨List.nodup_cons.mpr ⟨fun hk => ?_, ih.1⟩, ?_⟩
        · -- a later wire would have named the port a second time
          exact hnd.1 (ih.2 _ hk (hin _ (List.mem_cons_self ..)))
        · intro k hk hc
          rcases List.mem_cons.mp hk with hk | hk
          · exact hk ▸ List.mem_cons_self ..
          · exact List.mem_cons_of_mem _ (ih.2 k hk hc)
      · rw [named_cons_none hp] at hnd hin ⊢
        have ih := assign_slots ws hrest hnd (fun k hk => List.mem_cons_of_mem _ (hin k hk))
        rw [he, List.map_cons]
        refine ⟨List.nodup_cons.mpr ⟨fun hk => ?_, ih.1⟩, ?_⟩
        · -- a later wire in the same port would have named it, but named ports are not free
          exact hfree (hin _ (ih.2 _ hk (List.mem_cons_self ..)))
        · intro k hk hc
          rcases List.mem_cons.mp hk with hk | hk
          · rw [hk] at hc
            exact absurd hc hfree
          · exact ih.2 k hk (List.mem_cons_of_mem _ hc)

/-- Every wire becomes an edge, in the same order. -/
theorem assign_becomes {nodes : List Node} :
    ∀ (ws : List SketchWire) {i : Nat} {claims : Claims} {edges : List Edge},
    assign nodes i claims ws = .ok edges → List.Forall₂ SketchWire.Becomes ws edges
  | [], _, _, _, h => by
      rw [assign] at h
      injection h with h
      exact h ▸ List.Forall₂.nil
  | w :: ws, i, claims, edges, h => by
      rcases assign_cons h with ⟨p, rest, hp, hrest, he⟩ | ⟨p, rest, hp, _, hrest, he⟩
      · rw [he]
        refine List.Forall₂.cons ⟨rfl, rfl, fun q hq => ?_⟩ (assign_becomes ws hrest)
        rw [hp] at hq
        exact Option.some.inj hq
      · rw [he]
        refine List.Forall₂.cons ⟨rfl, rfl, fun q hq => ?_⟩ (assign_becomes ws hrest)
        rw [hp] at hq
        exact absurd hq (by simp)

/-- Every edge was a wire. -/
theorem exists_wire {ws : List SketchWire} {edges : List Edge}
    (h : List.Forall₂ SketchWire.Becomes ws edges) : ∀ e ∈ edges, ∃ w ∈ ws, w.Becomes e :=
  exists_of_forall₂ h.flip

/-! ## Types -/

/-- An edge runs between existing nodes and enters a declared port, and what comes from its
source may enter there. -/
def Fits (nodes : List Node) (e : Edge) : Prop :=
  ∃ n expected found, nodes[e.target]? = some n ∧ n.component.inputType? e.port = some expected
    ∧ sourceType? nodes e.source = some found ∧ found.feeds expected

theorem sourceType?_isSome {nodes : List Node} {s : Source} (h : s.Within nodes.length) :
    ∃ t, sourceType? nodes s = some t := by
  cases s with
  | node i =>
      have hi : i < nodes.length := h
      exact ⟨nodes[i].component.outputType, by simp [sourceType?, List.getElem?_eq_getElem hi]⟩
  | literal l => exact ⟨l.valueType, rfl⟩

theorem fits_of_checkType {nodes : List Node} {e : Edge} {u : Unit}
    (ht : e.target < nodes.length) (hs : e.source.Within nodes.length)
    (h : checkType nodes e = .ok u) : Fits nodes e := by
  have hn : nodes[e.target]? = some nodes[e.target] := List.getElem?_eq_getElem ht
  obtain ⟨found, hf⟩ := sourceType?_isSome hs
  unfold checkType at h
  rw [hn, hf] at h
  dsimp only at h
  split at h
  · exact absurd h (by simp)
  · rename_i expected hx
    split at h
    · rename_i hfeeds
      exact ⟨_, expected, found, hn, hx, hf, hfeeds⟩
    · exact absurd h (by simp)

theorem checkTypes_ok {nodes : List Node} :
    ∀ (edges : List Edge) {u : Unit}, checkTypes nodes edges = .ok u →
    ∀ e ∈ edges, ∃ u', checkType nodes e = .ok u'
  | [], _, _ => by simp
  | e :: edges, _, h => by
      rw [checkTypes] at h
      split at h
      · exact absurd h (by simp)
      · rename_i u' hu
        intro x hx
        rcases List.mem_cons.mp hx with hx | hx
        · exact ⟨u', hx ▸ hu⟩
        · exact checkTypes_ok edges h x hx

/-- The edges of a sketch: its wires, each of the right type and with a port of its own. -/
structure Resolved (s : Sketch) (edges : List Edge) : Prop where
  /-- The edges are the wires, in the same order. -/
  becomes : List.Forall₂ SketchWire.Becomes s.wires edges
  /-- No two edges enter the same port. -/
  slots : (edges.map Edge.slot).Nodup
  /-- Ends exist, ports are declared, and types agree. -/
  fits : ∀ e ∈ edges, Fits s.nodes e

theorem resolve_resolved {s : Sketch} {edges : List Edge} (h : s.resolve = .ok edges) :
    Resolved s edges := by
  unfold resolve at h
  split at h
  · exact absurd h (by simp)
  · rename_i claims hnamed
    have hc := namedClaims_claimed _ hnamed
    split at h
    · exact absurd h (by simp)
    · rename_i found hassign
      split at h
      · exact absurd h (by simp)
      · rename_i htypes
        injection h with h
        subst h
        have hbecomes := assign_becomes _ hassign
        refine ⟨hbecomes, (assign_slots _ hassign hc.nodup ?_).1, ?_⟩
        · exact fun k hk => (hc.mem k).mpr (Or.inl hk)
        · intro e he
          obtain ⟨u, hu⟩ := checkTypes_ok _ htypes e he
          obtain ⟨w, hw, hs, ht, _⟩ := exists_wire hbecomes e he
          have hends := hc.ends w hw
          exact fits_of_checkType (ht ▸ hends.1) (hs ▸ hends.2) hu

/-! ## Feeds by node -/

theorem eq_of_slot_eq {edges : List Edge} (h : (edges.map Edge.slot).Nodup) {e e' : Edge}
    (he : e ∈ edges) (he' : e' ∈ edges) (hs : e.slot = e'.slot) : e = e' :=
  List.inj_on_of_nodup_map h he he' hs

/-- The edge found for a port enters this port. -/
theorem feed?_found {edges : List Edge} {i : Nat} {p : Port} {e : Edge}
    (h : edges.find? (fun e => e.target = i ∧ e.port = p) = some e) :
    e ∈ edges ∧ e = ⟨e.source, i, p⟩ := by
  have hp := List.find?_some h
  simp only [decide_eq_true_eq] at hp
  obtain ⟨ht, hp⟩ := hp
  subst ht hp
  exact ⟨List.mem_of_find?_eq_some h, rfl⟩

/-- If no two edges enter the same port, a port is fed by the edge that enters it. -/
theorem feed?_eq_some {edges : List Edge} (h : (edges.map Edge.slot).Nodup) {i : Nat} {p : Port}
    {src : Source} : feed? edges i p = some src ↔ ⟨src, i, p⟩ ∈ edges := by
  constructor
  · intro hf
    obtain ⟨e, hfind, he⟩ := Option.map_eq_some_iff.mp hf
    obtain ⟨hmem, heq⟩ := feed?_found hfind
    rwa [heq, he] at hmem
  · intro hmem
    cases hfind : edges.find? fun e => e.target = i ∧ e.port = p with
    | none =>
        have := List.find?_eq_none.mp hfind _ hmem
        exact absurd this (by simp)
    | some e =>
        obtain ⟨he, heq⟩ := feed?_found hfind
        have hsame : e = ⟨src, i, p⟩ := eq_of_slot_eq h he hmem (by rw [heq]; rfl)
        rw [feed?, hfind, hsame]
        rfl

/-- The feeds of a node: its ports in order, each with what feeds it. -/
theorem feeds_ok {edges : List Edge} {i : Nat} {n : Node} :
    ∀ (ps : List Port) {fs : List (Port × Source)}, feeds edges i n ps = .ok fs →
    fs.map Prod.fst = ps ∧ ∀ f ∈ fs, feed? edges i f.1 = some f.2
  | [], _, h => by
      rw [feeds] at h
      injection h with h
      subst h
      exact ⟨rfl, by simp⟩
  | p :: ps, fs, h => by
      rw [feeds] at h
      split at h
      · exact absurd h (by simp)
      · rename_i src hsrc
        obtain ⟨rest, hrest, hfs⟩ := map_eq_ok h
        have ih := feeds_ok ps hrest
        subst hfs
        refine ⟨by rw [List.map_cons, ih.1], ?_⟩
        intro f hf
        rcases List.mem_cons.mp hf with hf | hf
        · rw [hf]
          exact hsrc
        · exact ih.2 f hf

/-- The lists of feeds stand in the order of the nodes. -/
theorem collect_ok {edges : List Edge} :
    ∀ (nodes : List Node) {i : Nat} {wires : List (List (Port × Source))},
    collect edges i nodes = .ok wires → wires.length = nodes.length ∧
      ∀ (j : Nat) (n : Node), nodes[j]? = some n →
        ∃ fs, wires[j]? = some fs ∧ feeds edges (i + j) n n.component.ports = .ok fs
  | [], _, _, h => by
      rw [collect] at h
      injection h with h
      subst h
      exact ⟨rfl, by simp⟩
  | n :: nodes, i, wires, h => by
      rw [collect] at h
      split at h
      · exact absurd h (by simp)
      · rename_i fs hfs
        obtain ⟨rest, hrest, hwires⟩ := map_eq_ok h
        have ih := collect_ok nodes hrest
        subst hwires
        refine ⟨by rw [List.length_cons, List.length_cons, ih.1], ?_⟩
        intro j m hm
        cases j with
        | zero =>
            rw [List.getElem?_cons_zero] at hm
            cases hm
            exact ⟨fs, rfl, hfs⟩
        | succ j =>
            rw [List.getElem?_cons_succ] at hm
            obtain ⟨gs, hgs, hfeeds⟩ := ih.2 j m hm
            exact ⟨gs, by rw [List.getElem?_cons_succ, hgs], by
              rw [show i + (j + 1) = i + 1 + j by omega]; exact hfeeds⟩

end Sketch

end RuleWiring
