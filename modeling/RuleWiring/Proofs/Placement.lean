import Mathlib
import RuleWiring.Proofs.Accepted

/-!
# Which port a wire gets

`Proofs.Ports` says what holds of the edges once the passes over the wires have gone through.
This file says when they do, and which edges come out. A wire that names a port gets that port.
The wires into a node that name none get, in their order, the declared ports that nobody names,
in declared order. So the port of a wire can be told from the sketch alone: it only takes
counting how many such wires come before it.

A pass goes through exactly if no wire violates what it checks, and each pass has errors of its
own.
-/

namespace RuleWiring

namespace Component

theorem ports_nodup (c : Component) : c.ports.Nodup := by
  cases c <;> decide

theorem inputType?_isSome {c : Component} {p : Port} : (c.inputType? p).isSome ↔ p ∈ c.ports := by
  constructor
  · intro h
    obtain ⟨t, ht⟩ := Option.isSome_iff_exists.mp h
    exact mem_ports_of_inputType? ht
  · intro h
    obtain ⟨f, hf, hp⟩ := List.mem_map.mp h
    rw [inputType?, Option.isSome_map, List.find?_isSome]
    exact ⟨f, hf, decide_eq_true hp⟩

end Component

/-- The ports that a wire names are declared by its target. -/
def SketchWire.Declares (nodes : List Node) (w : SketchWire) : Prop :=
  ∀ p n, w.port = some p → nodes[w.target]? = some n → p ∈ n.component.ports

namespace Sketch

variable {s : Sketch}

/-! ## The ports as the sketch has them -/

-- found once for all tests of a port of a node against a list
local instance : LawfulBEq (Nat × Port) := inferInstance

/-- The declared ports of a node that no wire names. -/
def unnamed (s : Sketch) (i : Nat) (n : Node) : List Port :=
  n.component.ports.filter fun p => (i, p) ∉ named s.wires

/-- How many of the first `k` wires go to a node without naming a port. -/
def openBefore (s : Sketch) (k i : Nat) : Nat :=
  (s.wires.take k).countP fun w => w.target = i ∧ w.port = none

/-- The port of the wire at position `k`, if there is one left for it. -/
def place? (s : Sketch) (k : Nat) (w : SketchWire) : Option Port :=
  match w.port with
  | some p => some p
  | none => (s.nodes[w.target]?).bind fun n => (s.unnamed w.target n)[s.openBefore k w.target]?

/-- What becomes of the wire at position `k`. -/
def edgeAt? (s : Sketch) (k : Nat) : Option Edge :=
  (s.wires[k]?).bind fun w => (s.place? k w).map fun p => ⟨w.source, w.target, p⟩

theorem place?_some {w : SketchWire} {p : Port} (hp : w.port = some p) (k : Nat) :
    s.place? k w = some p := by
  rw [place?, hp]

theorem place?_none {w : SketchWire} {n : Node} (hp : w.port = none)
    (hn : s.nodes[w.target]? = some n) (k : Nat) :
    s.place? k w = (s.unnamed w.target n)[s.openBefore k w.target]? := by
  rw [place?, hp]
  dsimp only
  rw [hn, Option.bind_some]

theorem edgeAt?_of_wire {k : Nat} {w : SketchWire} (hw : s.wires[k]? = some w) :
    s.edgeAt? k = (s.place? k w).map fun p => ⟨w.source, w.target, p⟩ := by
  rw [edgeAt?, hw, Option.bind_some]

theorem openBefore_succ {k i : Nat} {w : SketchWire} (hw : s.wires[k]? = some w) :
    s.openBefore (k + 1) i
      = s.openBefore k i + if w.target = i ∧ w.port = none then 1 else 0 := by
  rw [openBefore, List.take_add_one, hw, List.countP_append, openBefore]
  simp [List.countP_cons]

/-! ## Ports taken by name -/

theorem checkEnds_of_ends {nodes : List Node} {w : SketchWire} (i : Nat)
    (ht : w.target < nodes.length) (hs : w.source.Within nodes.length) :
    checkEnds nodes i w = .ok () := by
  rw [checkEnds, if_neg (by omega)]
  cases hsrc : w.source with
  | literal l => rfl
  | node origin =>
      rw [hsrc] at hs
      have ho : origin < nodes.length := hs
      dsimp only
      rw [if_neg (by omega)]

theorem checkEnds_error {nodes : List Node} {i : Nat} {w : SketchWire} {e : StructuralError}
    (h : checkEnds nodes i w = .error e) : ∃ edge id, e = .unknownNode edge id := by
  unfold checkEnds at h
  split at h
  · injection h with h
    exact ⟨_, _, h.symm⟩
  · split at h
    · exact absurd h (by simp)
    · split at h
      · injection h with h
        exact ⟨_, _, h.symm⟩
      · exact absurd h (by simp)

theorem claimNamed_none {nodes : List Node} {claims : Claims} {w : SketchWire}
    (hp : w.port = none) : claimNamed nodes claims w = .ok claims := by
  rw [claimNamed, hp]

theorem claimNamed_some {nodes : List Node} {claims : Claims} {w : SketchWire} {p : Port} {n : Node}
    (hp : w.port = some p) (hn : nodes[w.target]? = some n) (hport : p ∈ n.component.ports)
    (hfree : (w.target, p) ∉ claims) :
    claimNamed nodes claims w = .ok ((w.target, p) :: claims) := by
  have hdeclared : ¬ (n.component.inputType? p).isNone := by
    rw [← Option.not_isSome, Component.inputType?_isSome.mpr hport]
    simp
  rw [claimNamed, hp, hn]
  dsimp only
  rw [if_neg hdeclared, if_neg hfree]

theorem claimNamed_declares {nodes : List Node} {claims claims' : Claims} {w : SketchWire}
    (h : claimNamed nodes claims w = .ok claims') : w.Declares nodes := by
  intro p n hp hn
  rw [claimNamed, hp, hn] at h
  dsimp only at h
  split at h
  · exact absurd h (by simp)
  · rename_i hdeclared
    rw [← Option.not_isSome, Bool.not_eq_true', Bool.not_eq_false] at hdeclared
    exact Component.inputType?_isSome.mp hdeclared

theorem claimNamed_error {nodes : List Node} {claims : Claims} {w : SketchWire}
    {e : StructuralError} (h : claimNamed nodes claims w = .error e) :
    (∃ node component port, e = .unknownPort node component port)
      ∨ ∃ node port, e = .portConflict node port := by
  unfold claimNamed at h
  split at h
  · split at h
    · injection h with h
      exact Or.inl ⟨_, _, _, h.symm⟩
    · split at h
      · injection h with h
        exact Or.inr ⟨_, _, h.symm⟩
      · exact absurd h (by simp)
  · exact absurd h (by simp)

/-- **The first pass goes through** if all ends exist and every port named is declared, free and
named once. -/
theorem namedClaims_of_claimed {nodes : List Node} :
    ∀ (ws : List SketchWire) {i : Nat} {claims : Claims},
    (∀ w ∈ ws, w.target < nodes.length ∧ w.source.Within nodes.length) →
    (∀ w ∈ ws, w.Declares nodes) → (named ws).Nodup → (∀ k ∈ named ws, k ∉ claims) →
    ∃ claims', namedClaims nodes i claims ws = .ok claims'
  | [], _, claims, _, _, _, _ => ⟨claims, rfl⟩
  | w :: ws, i, claims, hends, hdeclares, hnd, hfresh => by
      have hw := hends w (List.mem_cons_self ..)
      have hends' := fun x hx => hends x (List.mem_cons_of_mem w hx)
      have hdeclares' := fun x hx => hdeclares x (List.mem_cons_of_mem w hx)
      rw [namedClaims, checkEnds_of_ends i hw.1 hw.2]
      cases hp : w.port with
      | none =>
          rw [named_cons_none hp] at hnd hfresh
          rw [claimNamed_none hp]
          exact namedClaims_of_claimed ws hends' hdeclares' hnd hfresh
      | some p =>
          rw [named_cons_some hp] at hnd hfresh
          rw [List.nodup_cons] at hnd
          have hn := List.getElem?_eq_getElem hw.1
          rw [claimNamed_some hp hn (hdeclares w (List.mem_cons_self ..) p _ hp hn)
            (hfresh _ (List.mem_cons_self ..))]
          refine namedClaims_of_claimed ws hends' hdeclares' hnd.2 fun k hk => ?_
          rw [List.mem_cons, not_or]
          exact ⟨fun he => hnd.1 (he ▸ hk), hfresh k (List.mem_cons_of_mem _ hk)⟩

theorem namedClaims_declares {nodes : List Node} :
    ∀ (ws : List SketchWire) {i : Nat} {claims claims' : Claims},
    namedClaims nodes i claims ws = .ok claims' → ∀ w ∈ ws, w.Declares nodes
  | [], _, _, _, _ => by simp
  | w :: ws, i, claims, claims', h => by
      rw [namedClaims] at h
      split at h
      · exact absurd h (by simp)
      · split at h
        · exact absurd h (by simp)
        · rename_i hclaim
          intro x hx
          rcases List.mem_cons.mp hx with hx | hx
          · exact hx ▸ claimNamed_declares hclaim
          · exact namedClaims_declares ws h x hx

/-- An error of the first pass is about a wire that leads nowhere, a port that is not declared,
or a port that is named twice. -/
theorem namedClaims_error {nodes : List Node} {e : StructuralError} :
    ∀ (ws : List SketchWire) {i : Nat} {claims : Claims},
    namedClaims nodes i claims ws = .error e →
      (∃ edge id, e = .unknownNode edge id)
        ∨ (∃ node component port, e = .unknownPort node component port)
        ∨ ∃ node port, e = .portConflict node port
  | [], _, _, h => absurd h (by simp [namedClaims])
  | w :: ws, i, claims, h => by
      rw [namedClaims] at h
      split at h
      · rename_i hends
        injection h with h
        exact Or.inl (h ▸ checkEnds_error hends)
      · split at h
        · rename_i hclaim
          injection h with h
          exact Or.inr (h ▸ claimNamed_error hclaim)
        · exact namedClaims_error ws h

/-! ## Ports assigned -/

/-- After `k` wires the free ports of each node are the unnamed ones, without as many at the
front as wires have taken. -/
def Tracks (s : Sketch) (k : Nat) (claims : Claims) : Prop :=
  ∀ i n, s.nodes[i]? = some n →
    n.component.ports.filter (fun p => (i, p) ∉ claims) = (s.unnamed i n).drop (s.openBefore k i)

theorem tracks_start {claims : Claims} (h : ∀ k, k ∈ claims ↔ k ∈ named s.wires) :
    Tracks s 0 claims := by
  intro i n _
  have hzero : s.openBefore 0 i = 0 := by rw [openBefore, List.take_zero, List.countP_nil]
  rw [hzero, List.drop_zero, unnamed]
  simp only [h]

theorem tracks_named {k : Nat} {claims : Claims} {w : SketchWire} {p : Port}
    (h : Tracks s k claims) (hw : s.wires[k]? = some w) (hp : w.port = some p) :
    Tracks s (k + 1) claims := by
  intro i n hn
  rw [openBefore_succ hw, if_neg (by simp [hp]), Nat.add_zero]
  exact h i n hn

theorem freePort?_eq {k i : Nat} {claims : Claims} {n : Node} (h : Tracks s k claims)
    (hn : s.nodes[i]? = some n) :
    freePort? claims i n = (s.unnamed i n)[s.openBefore k i]? := by
  rw [freePort?, ← List.head?_filter, h i n hn, List.head?_drop]

/-- Taking the first free port of a node leaves the others, and those of the other nodes. -/
theorem tracks_open {k : Nat} {claims : Claims} {w : SketchWire} {n : Node} {p : Port}
    (h : Tracks s k claims) (hw : s.wires[k]? = some w) (hp : w.port = none)
    (hn : s.nodes[w.target]? = some n) (hfree : freePort? claims w.target n = some p) :
    Tracks s (k + 1) ((w.target, p) :: claims) := by
  intro i m hm
  rw [openBefore_succ hw]
  by_cases hi : w.target = i
  · subst hi
    rw [hn] at hm
    injection hm with hm
    subst hm
    rw [if_pos ⟨rfl, hp⟩, ← List.drop_drop, ← h _ n hn]
    -- the port taken stands first among the free ones, and nowhere else
    rw [freePort?, ← List.head?_filter] at hfree
    have hnd := (n.component.ports_nodup).filter fun p => decide ((w.target, p) ∉ claims)
    have hsplit : n.component.ports.filter (fun q => (w.target, q) ∉ (w.target, p) :: claims)
        = (n.component.ports.filter fun q => (w.target, q) ∉ claims).filter (· ≠ p) := by
      rw [List.filter_filter]
      refine List.filter_congr fun q _ => ?_
      simp [not_or]
    rw [hsplit]
    cases hports : n.component.ports.filter fun q => (w.target, q) ∉ claims with
    | nil => rw [hports] at hfree; exact absurd hfree (by simp)
    | cons q rest =>
        rw [hports] at hfree hnd
        injection hfree with hfree
        subst hfree
        rw [List.nodup_cons] at hnd
        rw [List.filter_cons_of_neg (by simp), List.drop_one, List.tail_cons,
          List.filter_eq_self]
        exact fun r hr => decide_eq_true fun he => hnd.1 (he ▸ hr)
  · rw [if_neg fun hand => hi hand.1, Nat.add_zero, ← h i m hm]
    refine List.filter_congr fun q _ => ?_
    have hne : (i, q) ≠ (w.target, p) := fun he => hi (congrArg Prod.fst he).symm
    simp [hne]

/--
**The second pass** gives every wire the port that the sketch has for it, and refuses the first
for which there is none left.
-/
theorem assign_spec : ∀ (ws : List SketchWire) {k : Nat} {claims : Claims},
    s.wires.drop k = ws → Tracks s k claims → (∀ w ∈ ws, w.target < s.nodes.length) →
    (∃ edges, assign s.nodes k claims ws = .ok edges ∧ edges.length = ws.length
        ∧ ∀ j, j < ws.length → s.edgeAt? (k + j) = edges[j]?)
      ∨ ∃ id i, assign s.nodes k claims ws = .error (.excessInput id i)
        ∧ i < s.wires.length ∧ s.edgeAt? i = none
  | [], k, claims, _, _, _ => Or.inl ⟨[], rfl, rfl, by simp⟩
  | w :: ws, k, claims, hdrop, htracks, hends => by
      have hw : s.wires[k]? = some w := by rw [← List.head?_drop, hdrop]; rfl
      have hrest : s.wires.drop (k + 1) = ws := by rw [← List.tail_drop, hdrop]; rfl
      have hk : k < s.wires.length := (List.getElem?_eq_some_iff.mp hw).1
      obtain ⟨n, hn⟩ : ∃ n, s.nodes[w.target]? = some n :=
        ⟨_, List.getElem?_eq_getElem (hends w (List.mem_cons_self ..))⟩
      have hends' := fun x hx => hends x (List.mem_cons_of_mem w hx)
      -- what follows from the rest of the wires, once this one has its port
      have hstep : ∀ {p : Port} {claims' : Claims}, s.place? k w = some p →
          assign s.nodes k claims (w :: ws)
            = (assign s.nodes (k + 1) claims' ws).map (⟨w.source, w.target, p⟩ :: ·) →
          Tracks s (k + 1) claims' →
          (∃ edges, assign s.nodes k claims (w :: ws) = .ok edges
              ∧ edges.length = (w :: ws).length
              ∧ ∀ j, j < (w :: ws).length → s.edgeAt? (k + j) = edges[j]?)
            ∨ ∃ id i, assign s.nodes k claims (w :: ws) = .error (.excessInput id i)
              ∧ i < s.wires.length ∧ s.edgeAt? i = none := by
        intro p claims' hplace hassign htracks'
        rcases assign_spec ws hrest htracks' hends' with
          ⟨edges, hedges, hlen, hat⟩ | ⟨id, i, herror, hi, hnone⟩
        · refine Or.inl ⟨_, by rw [hassign, hedges]; rfl, by simp [hlen], fun j hj => ?_⟩
          cases j with
          | zero => rw [Nat.add_zero, edgeAt?_of_wire hw, hplace]; rfl
          | succ j =>
              rw [List.getElem?_cons_succ, ← hat j (by simpa using hj)]
              congr 1
              omega
        · exact Or.inr ⟨id, i, by rw [hassign, herror]; rfl, hi, hnone⟩
      cases hp : w.port with
      | some p =>
          refine hstep (place?_some hp k) ?_ (tracks_named htracks hw hp)
          rw [assign, hp]
      | none =>
          cases hfree : freePort? claims w.target n with
          | none =>
              refine Or.inr ⟨n.id, k, ?_, hk, ?_⟩
              · rw [assign, hp, hn]
                dsimp only
                rw [hfree]
              · rw [edgeAt?_of_wire hw, place?_none hp hn, ← freePort?_eq htracks hn, hfree]
                rfl
          | some p =>
              refine hstep (p := p) ?_ ?_ (tracks_open htracks hw hp hn hfree)
              · rw [place?_none hp hn, ← freePort?_eq htracks hn, hfree]
              · rw [assign, hp, hn]
                dsimp only
                rw [hfree]

/-- The edges that come out are the wires with the ports that the sketch has for them. -/
theorem assign_edges {claims : Claims} {edges : List Edge}
    (hnamed : namedClaims s.nodes 0 [] s.wires = .ok claims)
    (h : assign s.nodes 0 claims s.wires = .ok edges) (k : Nat) : edges[k]? = s.edgeAt? k := by
  have hc := namedClaims_claimed _ hnamed
  have htracks : Tracks s 0 claims := tracks_start fun k => by rw [hc.mem k]; simp
  rcases assign_spec s.wires (List.drop_zero ..) htracks fun w hw => (hc.ends w hw).1 with
    ⟨edges', hedges, hlen, hat⟩ | ⟨id, i, herror, _⟩
  · rw [hedges] at h
    injection h with h
    subst h
    by_cases hk : k < s.wires.length
    · rw [← hat k hk, Nat.zero_add]
    · rw [List.getElem?_eq_none (by omega), edgeAt?, List.getElem?_eq_none (by omega)]
      rfl
  · rw [herror] at h
    exact absurd h (by simp)

/-- No wire without a name is left without a port. -/
def Placed (s : Sketch) : Prop := ∀ k, k < s.wires.length → ∃ e, s.edgeAt? k = some e

theorem assign_ok_iff {claims : Claims} (hnamed : namedClaims s.nodes 0 [] s.wires = .ok claims) :
    (∃ edges, assign s.nodes 0 claims s.wires = .ok edges) ↔ s.Placed := by
  have hc := namedClaims_claimed _ hnamed
  have htracks : Tracks s 0 claims := tracks_start fun k => by rw [hc.mem k]; simp
  have hspec := assign_spec s.wires (List.drop_zero ..) htracks fun w hw => (hc.ends w hw).1
  constructor
  · rintro ⟨edges, hedges⟩ k hk
    rw [← assign_edges hnamed hedges]
    have hlen := (assign_becomes _ hedges).length_eq
    exact ⟨_, List.getElem?_eq_getElem (by omega)⟩
  · intro hplaced
    rcases hspec with ⟨edges, hedges, _⟩ | ⟨id, i, _, hi, hnone⟩
    · exact ⟨edges, hedges⟩
    · obtain ⟨e, he⟩ := hplaced i hi
      rw [hnone] at he
      exact absurd he (by simp)

theorem assign_error {claims : Claims} {e : StructuralError}
    (hnamed : namedClaims s.nodes 0 [] s.wires = .ok claims)
    (h : assign s.nodes 0 claims s.wires = .error e) : ∃ id i, e = .excessInput id i := by
  have hc := namedClaims_claimed _ hnamed
  have htracks : Tracks s 0 claims := tracks_start fun k => by rw [hc.mem k]; simp
  rcases assign_spec s.wires (List.drop_zero ..) htracks fun w hw => (hc.ends w hw).1 with
    ⟨edges, hedges, _⟩ | ⟨id, i, herror, _⟩
  · rw [hedges] at h
    exact absurd h (by simp)
  · rw [herror] at h
    injection h with h
    exact ⟨id, i, h.symm⟩

/-! ## Types -/

theorem checkType_of_fits {nodes : List Node} {e : Edge} (h : Fits nodes e) :
    checkType nodes e = .ok () := by
  obtain ⟨n, expected, found, hn, hexpected, hfound, hfeeds⟩ := h
  rw [checkType, hn, hfound]
  dsimp only
  rw [hexpected]
  dsimp only
  rw [if_pos hfeeds]

/-- The only error of a type check is a mismatch, if the port is declared. -/
theorem checkType_error {nodes : List Node} {e : Edge} {err : StructuralError}
    (hport : ∀ n, nodes[e.target]? = some n → e.port ∈ n.component.ports)
    (h : checkType nodes e = .error err) :
    ∃ node port expected found, err = .typeMismatch node port expected found := by
  unfold checkType at h
  split at h
  · rename_i n found hn _
    split at h
    · rename_i hnone
      have hsome := Component.inputType?_isSome.mpr (hport n hn)
      rw [hnone] at hsome
      exact absurd hsome (by simp)
    · split at h
      · exact absurd h (by simp)
      · injection h with h
        exact ⟨_, _, _, _, h.symm⟩
  · exact absurd h (by simp)

theorem checkTypes_of_fits {nodes : List Node} :
    ∀ (edges : List Edge), (∀ e ∈ edges, Fits nodes e) → checkTypes nodes edges = .ok ()
  | [], _ => rfl
  | e :: edges, h => by
      rw [checkTypes, checkType_of_fits (h e (List.mem_cons_self ..))]
      exact checkTypes_of_fits edges fun x hx => h x (List.mem_cons_of_mem _ hx)

theorem checkTypes_error {nodes : List Node} {err : StructuralError} :
    ∀ (edges : List Edge),
    (∀ e ∈ edges, ∀ n, nodes[e.target]? = some n → e.port ∈ n.component.ports) →
    checkTypes nodes edges = .error err →
    ∃ node port expected found, err = .typeMismatch node port expected found
  | [], _, h => absurd h (by simp [checkTypes])
  | e :: edges, hports, h => by
      rw [checkTypes] at h
      split at h
      · rename_i hcheck
        injection h with h
        exact h ▸ checkType_error (hports e (List.mem_cons_self ..)) hcheck
      · exact checkTypes_error edges (fun x hx => hports x (List.mem_cons_of_mem _ hx)) h

/-! ## Feeds -/

theorem feeds_of_fed {edges : List Edge} {i : Nat} {n : Node} :
    ∀ (ps : List Port), (∀ p ∈ ps, ∃ src, feed? edges i p = some src) →
    ∃ fs, feeds edges i n ps = .ok fs
  | [], _ => ⟨[], rfl⟩
  | p :: ps, h => by
      obtain ⟨src, hsrc⟩ := h p (List.mem_cons_self ..)
      obtain ⟨fs, hfs⟩ := feeds_of_fed ps fun q hq => h q (List.mem_cons_of_mem _ hq)
      exact ⟨(p, src) :: fs, by rw [feeds, hsrc, hfs]; rfl⟩

theorem feeds_error {edges : List Edge} {i : Nat} {n : Node} {e : StructuralError} :
    ∀ (ps : List Port), feeds edges i n ps = .error e → ∃ node port, e = .unfedPort node port
  | [], h => absurd h (by simp [feeds])
  | p :: ps, h => by
      rw [feeds] at h
      split at h
      · injection h with h
        exact ⟨_, _, h.symm⟩
      · exact feeds_error ps (map_eq_error h)

theorem collect_of_fed {edges : List Edge} :
    ∀ (nodes : List Node) {i : Nat},
    (∀ j n, nodes[j]? = some n → ∀ p ∈ n.component.ports, ∃ src, feed? edges (i + j) p = some src) →
    ∃ wires, collect edges i nodes = .ok wires
  | [], _, _ => ⟨[], rfl⟩
  | n :: nodes, i, h => by
      obtain ⟨fs, hfs⟩ : ∃ fs, feeds edges (i + 0) n n.component.ports = .ok fs :=
        feeds_of_fed _ fun p hp => h 0 n rfl p hp
      obtain ⟨rest, hrest⟩ : ∃ rest, collect edges (i + 1) nodes = .ok rest := by
        refine collect_of_fed nodes fun j m hm p hp => ?_
        rw [show i + 1 + j = i + (j + 1) by omega]
        exact h (j + 1) m hm p hp
      rw [Nat.add_zero] at hfs
      exact ⟨fs :: rest, by rw [collect, hfs, hrest]; rfl⟩

theorem collect_error {edges : List Edge} {e : StructuralError} :
    ∀ (nodes : List Node) {i : Nat}, collect edges i nodes = .error e →
    ∃ node port, e = .unfedPort node port
  | [], _, h => absurd h (by simp [collect])
  | n :: nodes, i, h => by
      rw [collect] at h
      split at h
      · rename_i hfeeds
        injection h with h
        exact h ▸ feeds_error _ hfeeds
      · exact collect_error nodes (map_eq_error h)

end Sketch

end RuleWiring
