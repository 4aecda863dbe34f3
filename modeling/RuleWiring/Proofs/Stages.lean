import Mathlib
import RuleWiring.Proofs.Acyclic
import RuleWiring.Proofs.Placement

/-!
# What a sketch has to be

`Proofs.Accepted` says what holds of a diagram. This file says of which sketches there is one,
and what is wrong with the others. The checks of `Sketch.finish` make up eight stages, and each
stage asks for a property of the sketch that can be stated without the checks: no stage speaks
of what an earlier one has computed. A sketch becomes a diagram exactly if it meets all eight,
and otherwise the error is one of the first stage that it does not meet.

A later stage looks nodes up by position. That it only asks for positions that exist is a
promise of the earlier ones, which `Sketch.InRange` spells out.
-/

namespace RuleWiring

/-! ## Stages -/

/-- The stages of the check, in their order. -/
inductive Stage where
  /-- No id is used twice. -/
  | ids
  /-- Wires run between nodes, and enter declared ports, each named once. -/
  | wires
  /-- There is a port for every wire that names none. -/
  | places
  /-- What comes in at a port may enter there. -/
  | types
  /-- Something comes in at every port. -/
  | feeds
  /-- There is one output, and it is the one designated. -/
  | output
  /-- There is no cycle. -/
  | order
  /-- What a node puts out is of use to the output. -/
  | reach
deriving DecidableEq, Repr

def Stage.number : Stage → Nat
  | .ids => 1
  | .wires => 2
  | .places => 3
  | .types => 4
  | .feeds => 5
  | .output => 6
  | .order => 7
  | .reach => 8

theorem Stage.number_injective : Function.Injective Stage.number := by
  intro j k h
  cases j <;> cases k <;> first | rfl | exact absurd h (by decide)

/-- The stage that an error comes from. Names that mean nothing and edges that are none are
found where a document is read, before there is a sketch. -/
def StructuralError.stage? : StructuralError → Option Stage
  | .duplicateNode _ => some .ids
  | .unknownNode .. | .unknownPort .. | .portConflict .. => some .wires
  | .excessInput .. => some .places
  | .typeMismatch .. => some .types
  | .unfedPort .. => some .feeds
  | .multipleOutputs .. | .unknownOutput _ | .outputNotTerminal _ | .missingOutput => some .output
  | .cycle _ => some .order
  | .unreachable _ => some .reach
  | .unknownComponent .. | .malformedEdge .. => none

namespace Sketch

/-- A wire leads from the first node to the second. -/
def Feeds (s : Sketch) (i j : Nat) : Prop := ∃ w ∈ s.wires, w.source = .node i ∧ w.target = j

/-- What a stage asks of a sketch. -/
def Meets (s : Sketch) : Stage → Prop
  | .ids => (s.nodes.map (·.id)).Nodup
  | .wires =>
      (∀ w ∈ s.wires, w.target < s.nodes.length ∧ w.source.Within s.nodes.length)
        ∧ (∀ w ∈ s.wires, w.Declares s.nodes) ∧ (named s.wires).Nodup
  | .places => s.Placed
  | .types => ∀ k e, s.edgeAt? k = some e → Fits s.nodes e
  | .feeds => ∀ i n, s.nodes[i]? = some n → ∀ p ∈ n.component.ports,
      ∃ k e, s.edgeAt? k = some e ∧ e.slot = (i, p)
  | .output => ∃ o, (∀ i, (∃ n, s.nodes[i]? = some n ∧ n.component = .output) ↔ i = o)
      ∧ ∀ i, s.designated = some i → i = o
  | .order => ∀ i, ¬ Relation.TransGen s.Feeds i i
  | .reach => ∀ i n, s.nodes[i]? = some n → n.component.isSource = false →
      ∃ o m, s.nodes[o]? = some m ∧ m.component = .output ∧ Relation.ReflTransGen s.Feeds i o

/-- Every stage looks up positions that exist. -/
structure InRange (s : Sketch) : Prop where
  /-- The port that a wire names is looked up after the wire's ends have been checked. -/
  checked : ∀ i w, checkEnds s.nodes i w = .ok () →
    w.target < s.nodes.length ∧ w.source.Within s.nodes.length
  /-- Wires that name no port are given one after all ends have been checked. -/
  claimed : ∀ claims, namedClaims s.nodes 0 [] s.wires = .ok claims →
    ∀ w ∈ s.wires, w.target < s.nodes.length ∧ w.source.Within s.nodes.length
  /-- The types of edges are looked up once each has its port. -/
  assigned : ∀ claims edges, namedClaims s.nodes 0 [] s.wires = .ok claims →
    assign s.nodes 0 claims s.wires = .ok edges →
    ∀ e ∈ edges, e.target < s.nodes.length ∧ e.source.Within s.nodes.length
  /-- The order, and the way to the output, are found along edges that have passed. -/
  resolved : ∀ edges, s.resolve = .ok edges → Order.Inside s.nodes.length (links edges)
  /-- The visits only come to nodes. -/
  visited : ∀ edges v, v ∈ Order.run s.nodes.length (links edges) → v < s.nodes.length
  /-- The sweep starts at a node. -/
  output : ∀ o, chooseOutput s.nodes s.designated = .ok o → o < s.nodes.length

variable {s : Sketch}

/-! ## The stages one by one -/

theorem firstRepeated?_none_of_nodup : ∀ (ids : List String) {seen : List String}, ids.Nodup →
    (∀ id ∈ ids, id ∉ seen) → firstRepeated? seen ids = none
  | [], _, _, _ => rfl
  | id :: ids, seen, hnd, hfresh => by
      rw [List.nodup_cons] at hnd
      rw [firstRepeated?, if_neg (hfresh id (List.mem_cons_self ..))]
      refine firstRepeated?_none_of_nodup ids hnd.2 fun x hx => ?_
      rw [List.mem_cons, not_or]
      exact ⟨fun he => hnd.1 (he ▸ hx), hfresh x (List.mem_cons_of_mem _ hx)⟩

theorem firstRepeated?_none_iff :
    firstRepeated? [] (s.nodes.map (·.id)) = none ↔ s.Meets .ids := by
  constructor
  · exact fun h => (firstRepeated?_none _ h).1
  · exact fun h => firstRepeated?_none_of_nodup _ h (by simp)

theorem namedClaims_ok_iff :
    (∃ claims, namedClaims s.nodes 0 [] s.wires = .ok claims) ↔ s.Meets .wires := by
  constructor
  · rintro ⟨claims, h⟩
    have hc := namedClaims_claimed _ h
    exact ⟨hc.ends, namedClaims_declares _ h, hc.nodup⟩
  · rintro ⟨hends, hdeclares, hnd⟩
    exact namedClaims_of_claimed _ hends hdeclares hnd (by simp)

section Assigned

variable {claims : Claims} {edges : List Edge}

theorem mem_assigned (hnamed : namedClaims s.nodes 0 [] s.wires = .ok claims)
    (hassign : assign s.nodes 0 claims s.wires = .ok edges) {e : Edge} :
    e ∈ edges ↔ ∃ k, s.edgeAt? k = some e := by
  rw [List.mem_iff_getElem?]
  exact exists_congr fun k => by rw [assign_edges hnamed hassign]

theorem ends_of_assigned (hnamed : namedClaims s.nodes 0 [] s.wires = .ok claims)
    (hassign : assign s.nodes 0 claims s.wires = .ok edges) :
    ∀ e ∈ edges, e.target < s.nodes.length ∧ e.source.Within s.nodes.length := by
  intro e he
  obtain ⟨w, hw, hs, ht, _⟩ := exists_wire (assign_becomes _ hassign) e he
  rw [hs, ht]
  exact (namedClaims_claimed _ hnamed).ends w hw

/-- A wire without a name got one of the declared ports of its target, like those with one. -/
theorem declared_of_assigned (hnamed : namedClaims s.nodes 0 [] s.wires = .ok claims)
    (hassign : assign s.nodes 0 claims s.wires = .ok edges) :
    ∀ e ∈ edges, ∀ n, s.nodes[e.target]? = some n → e.port ∈ n.component.ports := by
  intro e he n hn
  obtain ⟨k, hk⟩ := (mem_assigned hnamed hassign).mp he
  obtain ⟨w, hw, hplace⟩ := Option.bind_eq_some_iff.mp hk
  obtain ⟨p, hp, hedge⟩ := Option.map_eq_some_iff.mp hplace
  subst hedge
  cases hport : w.port with
  | some q =>
      rw [place?_some hport] at hp
      injection hp with hp
      subst hp
      exact namedClaims_declares _ hnamed w (List.mem_of_getElem? hw) q n hport hn
  | none =>
      rw [place?_none hport hn] at hp
      exact (List.mem_filter.mp (List.mem_of_getElem? hp)).1

theorem checkTypes_ok_iff (hnamed : namedClaims s.nodes 0 [] s.wires = .ok claims)
    (hassign : assign s.nodes 0 claims s.wires = .ok edges) :
    (∃ u, checkTypes s.nodes edges = .ok u) ↔ s.Meets .types := by
  constructor
  · rintro ⟨u, h⟩ k e hk
    have he := (mem_assigned hnamed hassign).mpr ⟨k, hk⟩
    obtain ⟨u', hu'⟩ := checkTypes_ok _ h e he
    have hends := ends_of_assigned hnamed hassign e he
    exact fits_of_checkType hends.1 hends.2 hu'
  · intro h
    refine ⟨(), checkTypes_of_fits edges fun e he => ?_⟩
    obtain ⟨k, hk⟩ := (mem_assigned hnamed hassign).mp he
    exact h k e hk

end Assigned

/-- The edges of a sketch that has passed the first four stages. -/
theorem resolve_eq {edges : List Edge} (h : s.resolve = .ok edges) :
    ∃ claims, namedClaims s.nodes 0 [] s.wires = .ok claims
      ∧ assign s.nodes 0 claims s.wires = .ok edges ∧ checkTypes s.nodes edges = .ok () := by
  unfold resolve at h
  split at h
  · exact absurd h (by simp)
  · rename_i claims hnamed
    split at h
    · exact absurd h (by simp)
    · rename_i found hassign
      split at h
      · exact absurd h (by simp)
      · rename_i u htypes
        injection h with h
        subst h
        exact ⟨claims, hnamed, hassign, htypes⟩

theorem resolve_ok_iff :
    (∃ edges, s.resolve = .ok edges) ↔ s.Meets .wires ∧ s.Meets .places ∧ s.Meets .types := by
  constructor
  · rintro ⟨edges, h⟩
    obtain ⟨claims, hnamed, hassign, htypes⟩ := resolve_eq h
    exact ⟨namedClaims_ok_iff.mp ⟨_, hnamed⟩, (assign_ok_iff hnamed).mp ⟨_, hassign⟩,
      (checkTypes_ok_iff hnamed hassign).mp ⟨_, htypes⟩⟩
  · rintro ⟨hwires, hplaces, htypes⟩
    obtain ⟨claims, hnamed⟩ := namedClaims_ok_iff.mpr hwires
    obtain ⟨edges, hassign⟩ := (assign_ok_iff hnamed).mpr hplaces
    obtain ⟨u, hcheck⟩ := (checkTypes_ok_iff hnamed hassign).mpr htypes
    exact ⟨edges, by rw [resolve, hnamed]; dsimp only; rw [hassign]; dsimp only; rw [hcheck]⟩

section Resolved

variable {edges : List Edge}

theorem mem_resolved (h : s.resolve = .ok edges) {e : Edge} :
    e ∈ edges ↔ ∃ k, s.edgeAt? k = some e := by
  obtain ⟨claims, hnamed, hassign, _⟩ := resolve_eq h
  exact mem_assigned hnamed hassign

theorem links_inside (h : s.resolve = .ok edges) : Order.Inside s.nodes.length (links edges) := by
  intro l hl
  obtain ⟨e, he, hs, ht⟩ := mem_links.mp hl
  obtain ⟨claims, hnamed, hassign, _⟩ := resolve_eq h
  have hends := ends_of_assigned hnamed hassign e he
  rw [hs, ht] at hends
  exact ⟨hends.2, hends.1⟩

/-- The links between the nodes do not depend on the ports. -/
theorem feeds_iff_link (h : s.resolve = .ok edges) {i j : Nat} :
    s.Feeds i j ↔ (i, j) ∈ links edges := by
  have hbecomes := (resolve_resolved h).becomes
  rw [mem_links]
  constructor
  · rintro ⟨w, hw, hs, ht⟩
    obtain ⟨e, he, hwe⟩ := exists_of_forall₂ hbecomes w hw
    exact ⟨e, he, hwe.1.trans hs, hwe.2.1.trans ht⟩
  · rintro ⟨e, he, hs, ht⟩
    obtain ⟨w, hw, hwe⟩ := exists_wire hbecomes e he
    exact ⟨w, hw, hwe.1.symm.trans hs, hwe.2.1.symm.trans ht⟩

theorem feeds_eq (h : s.resolve = .ok edges) : s.Feeds = fun i j => (i, j) ∈ links edges := by
  funext i j
  exact propext (feeds_iff_link h)

theorem collect_ok_iff (h : s.resolve = .ok edges) :
    (∃ wires, collect edges 0 s.nodes = .ok wires) ↔ s.Meets .feeds := by
  have hslots := (resolve_resolved h).slots
  constructor
  · rintro ⟨wires, hwires⟩ i n hn p hp
    obtain ⟨fs, _, hfeeds⟩ := (collect_ok _ hwires).2 i n hn
    rw [Nat.zero_add] at hfeeds
    obtain ⟨hports, hfeed⟩ := feeds_ok _ hfeeds
    rw [← hports] at hp
    obtain ⟨f, hf, hfp⟩ := List.mem_map.mp hp
    have he := (feed?_eq_some hslots).mp (hfeed f hf)
    obtain ⟨k, hk⟩ := (mem_resolved h).mp he
    exact ⟨k, _, hk, by rw [Edge.slot, hfp]⟩
  · intro hfed
    refine collect_of_fed s.nodes fun i n hn p hp => ?_
    obtain ⟨k, e, hk, hslot⟩ := hfed i n hn p hp
    have he := (mem_resolved h).mpr ⟨k, hk⟩
    rw [Nat.zero_add]
    refine ⟨e.source, (feed?_eq_some hslots).mpr ?_⟩
    injection hslot with ht hp
    rw [← ht, ← hp]
    exact he

theorem evaluationOrder_ok_iff_meets (h : s.resolve = .ok edges) :
    (∃ order, evaluationOrder s.nodes edges = .ok order) ↔ s.Meets .order := by
  rw [evaluationOrder_ok_iff (links_inside h), Meets, feeds_eq h]
  rfl

end Resolved

theorem length_terminals_le_one {nodes : List Node} {o : Nat}
    (h : ∀ i, (∃ n, nodes[i]? = some n ∧ n.component = .output) ↔ i = o) :
    ∃ n, terminals nodes = [(n, o)] := by
  obtain ⟨n, hn, hout⟩ := (h o).mpr rfl
  have hall : ∀ t ∈ terminals nodes, t = (n, o) := by
    rintro ⟨m, i⟩ ht
    obtain ⟨hm, hc⟩ := mem_terminals.mp ht
    have hi := (h i).mp ⟨m, hm, hc⟩
    subst hi
    rw [hm] at hn
    injection hn with hn
    rw [hn]
  have hnd : (terminals nodes).Nodup := by
    have hz : nodes.zipIdx.Nodup := by
      refine List.Nodup.of_map Prod.snd ?_
      rw [List.zipIdx_map_snd]
      exact List.nodup_range'
    exact hz.filter _
  refine ⟨n, List.perm_singleton.mp ?_⟩
  refine (List.perm_ext_iff_of_nodup hnd (List.nodup_singleton _)).mpr fun t => ?_
  rw [List.mem_singleton]
  exact ⟨hall t, fun ht => ht ▸ mem_terminals.mpr ⟨hn, hout⟩⟩

/-- The output chosen is the one terminal, which is the node designated, if one is. -/
theorem chooseOutput_spec {o : Nat} (h : chooseOutput s.nodes s.designated = .ok o) :
    (∀ i, (∃ n, s.nodes[i]? = some n ∧ n.component = .output) ↔ i = o)
      ∧ ∀ i, s.designated = some i → i = o := by
  obtain ⟨n, hterminals⟩ := chooseOutput_ok h
  have hn := mem_terminals.mp (hterminals ▸ List.mem_cons_self .. : (n, o) ∈ terminals s.nodes)
  refine ⟨fun i => ⟨?_, ?_⟩, fun i hi => ?_⟩
  · rintro ⟨m, hm, hc⟩
    have hmem := mem_terminals.mpr ⟨hm, hc⟩
    rw [hterminals, List.mem_singleton] at hmem
    exact congrArg Prod.snd hmem
  · rintro rfl
    exact ⟨n, hn⟩
  · rw [chooseOutput, hterminals, hi] at h
    dsimp only at h
    split at h
    · exact absurd h (by simp)
    · split at h
      · injection h
      · exact absurd h (by simp)

theorem chooseOutput_ok_iff :
    (∃ o, chooseOutput s.nodes s.designated = .ok o) ↔ s.Meets .output := by
  constructor
  · rintro ⟨o, ho⟩
    exact ⟨o, chooseOutput_spec ho⟩
  · rintro ⟨o, hone, hdesignated⟩
    obtain ⟨n, hterminals⟩ := length_terminals_le_one hone
    obtain ⟨m, hm, hout⟩ := (hone o).mpr rfl
    refine ⟨o, ?_⟩
    rw [chooseOutput, hterminals]
    cases hd : s.designated with
    | none => rfl
    | some i =>
        have hi := hdesignated i hd
        subst hi
        dsimp only
        rw [hm]
        dsimp only
        rw [if_pos hout]

theorem chooseOutput_error {nodes : List Node} {designated : Option Nat} {e : StructuralError}
    (h : chooseOutput nodes designated = .error e) : e.stage? = some .output := by
  unfold chooseOutput at h
  split at h
  · injection h with h
    rw [← h]
    rfl
  · split at h
    · split at h
      · injection h with h
        rw [← h]
        rfl
      · split at h
        · exact absurd h (by simp)
        · injection h with h
          rw [← h]
          rfl
    · split at h
      · injection h with h
        rw [← h]
        rfl
      · exact absurd h (by simp)

/-- Nobody is stranded if every node but the extractors has a way to the output. -/
theorem firstStranded?_none_iff {edges : List Edge} {order : List Nat} {o : Nat}
    (h : s.resolve = .ok edges) (horder : evaluationOrder s.nodes edges = .ok order)
    (ho : chooseOutput s.nodes s.designated = .ok o) :
    firstStranded? s.nodes edges order o = none ↔ s.Meets .reach := by
  obtain ⟨hone, _⟩ := chooseOutput_spec ho
  obtain ⟨m, hm, hout⟩ := (hone o).mpr rfl
  constructor
  · intro hstranded i n hn hs
    have hway := Order.reaching_sound _ (firstStranded?_none hstranded hn hs)
    rw [← feeds_eq h] at hway
    exact ⟨o, m, hm, hout, hway⟩
  · intro hreach
    rw [firstStranded?, Option.map_eq_none_iff, List.find?_eq_none]
    rintro ⟨n, i⟩ hmem hbad
    have hn := List.mem_zipIdx_iff_getElem?.mp hmem
    simp only [Bool.not_eq_eq_eq_not, Bool.not_true, decide_eq_true_eq] at hbad
    obtain ⟨o', m', hm', hout', hway⟩ := hreach i n hn hbad.2
    have ho' := (hone o').mp ⟨m', hm', hout'⟩
    subst ho'
    rw [feeds_eq h] at hway
    obtain ⟨hlegal, hperm⟩ := evaluationOrder_ok horder
    refine hbad.1 (Order.mem_reaching hlegal (fun v hv => ?_) (links_inside h) ?_ hway)
    · exact hperm.mem_iff.mpr (List.mem_range.mpr hv)
    · exact (List.getElem?_eq_some_iff.mp hm).1

/-! ## Errors -/

/-- A sketch meets all stages before one. -/
def MeetsBefore (s : Sketch) (k : Stage) : Prop := ∀ j : Stage, j.number < k.number → s.Meets j

theorem meetsBefore_ids : s.MeetsBefore .ids := by
  intro j hj
  cases j <;> exact absurd hj (by decide)

theorem meetsBefore_next {k m : Stage} (h : s.MeetsBefore k) (hk : s.Meets k)
    (hm : m.number = k.number + 1) : s.MeetsBefore m := by
  intro j hj
  rw [hm] at hj
  rcases Nat.lt_succ_iff_lt_or_eq.mp hj with hj | hj
  · exact h j hj
  · have hjk : j = k := Stage.number_injective hj
    exact hjk ▸ hk

/-- An error is of the first stage that the sketch does not meet. -/
def FailsFirst (s : Sketch) (e : StructuralError) : Prop :=
  ∃ k, e.stage? = some k ∧ ¬ s.Meets k ∧ s.MeetsBefore k

/-- A check that goes through exactly if its stage is met has failed. -/
theorem failsFirst_of_check {α : Type} {m : Except StructuralError α} {e : StructuralError}
    {k : Stage} (hbefore : s.MeetsBefore k) (hiff : (∃ x, m = .ok x) ↔ s.Meets k)
    (hm : m = .error e) (hstage : e.stage? = some k) : s.FailsFirst e := by
  refine ⟨k, hstage, fun hmeets => ?_, hbefore⟩
  obtain ⟨x, hx⟩ := hiff.mpr hmeets
  rw [hm] at hx
  exact absurd hx (by simp)

theorem resolve_failsFirst {e : StructuralError} (hbefore : s.MeetsBefore .wires)
    (h : s.resolve = .error e) : s.FailsFirst e := by
  unfold resolve at h
  split at h
  · rename_i e' hnamed
    injection h with h
    subst h
    refine failsFirst_of_check hbefore namedClaims_ok_iff hnamed ?_
    rcases namedClaims_error _ hnamed with ⟨_, _, rfl⟩ | ⟨_, _, _, rfl⟩ | ⟨_, _, rfl⟩ <;> rfl
  · rename_i claims hnamed
    have hbefore := meetsBefore_next hbefore (namedClaims_ok_iff.mp ⟨_, hnamed⟩) (m := .places) rfl
    split at h
    · rename_i e' hassign
      injection h with h
      subst h
      obtain ⟨_, _, rfl⟩ := assign_error hnamed hassign
      exact failsFirst_of_check hbefore (assign_ok_iff hnamed) hassign rfl
    · rename_i edges hassign
      have hplaces := (assign_ok_iff hnamed).mp ⟨_, hassign⟩
      have hbefore := meetsBefore_next hbefore hplaces (m := .types) rfl
      split at h
      · rename_i e' htypes
        injection h with h
        subst h
        obtain ⟨_, _, _, _, rfl⟩ := checkTypes_error _ (declared_of_assigned hnamed hassign) htypes
        exact failsFirst_of_check hbefore (checkTypes_ok_iff hnamed hassign) htypes rfl
      · exact absurd h (by simp)

/-! ## All stages -/

theorem finish_ok_of_meets (h : ∀ k, s.Meets k) : ∃ d, s.finish = .ok d := by
  obtain ⟨edges, hedges⟩ := resolve_ok_iff.mpr ⟨h .wires, h .places, h .types⟩
  obtain ⟨wires, hwires⟩ := (collect_ok_iff hedges).mpr (h .feeds)
  obtain ⟨o, ho⟩ := chooseOutput_ok_iff.mpr (h .output)
  obtain ⟨order, horder⟩ := (evaluationOrder_ok_iff_meets hedges).mpr (h .order)
  have hids := firstRepeated?_none_iff.mpr (h .ids)
  have hreach := (firstStranded?_none_iff hedges horder ho).mpr (h .reach)
  exact ⟨⟨s.metadata, s.nodes, edges, wires, o, order, s.interpretation⟩,
    by simp only [finish, hids, hedges, hwires, ho, horder, hreach]⟩

theorem meets_of_finish_ok {d : Diagram} (h : s.finish = .ok d) : ∀ k, s.Meets k := by
  have hp := finish_passed h
  obtain ⟨hwires, hplaces, htypes⟩ := resolve_ok_iff.mp ⟨_, hp.edges⟩
  intro k
  cases k with
  | ids => exact firstRepeated?_none_iff.mp hp.ids
  | wires => exact hwires
  | places => exact hplaces
  | types => exact htypes
  | feeds => exact (collect_ok_iff hp.edges).mp ⟨_, hp.wires⟩
  | output => exact chooseOutput_ok_iff.mp ⟨_, hp.output⟩
  | order => exact (evaluationOrder_ok_iff_meets hp.edges).mp ⟨_, hp.order⟩
  | reach => exact (firstStranded?_none_iff hp.edges hp.order hp.output).mp hp.stranded

theorem failsFirst_of_error {e : StructuralError} (h : s.finish = .error e) : s.FailsFirst e := by
  unfold finish at h
  split at h
  · rename_i id hids
    injection h with h
    subst h
    refine ⟨.ids, rfl, fun hmeets => ?_, meetsBefore_ids⟩
    rw [firstRepeated?_none_iff.mpr hmeets] at hids
    exact absurd hids (by simp)
  · rename_i hids
    have hbefore := meetsBefore_next meetsBefore_ids (firstRepeated?_none_iff.mp hids)
      (m := .wires) rfl
    split at h
    · rename_i e' hedges
      injection h with h
      exact h ▸ resolve_failsFirst hbefore hedges
    · rename_i edges hedges
      obtain ⟨hwires, hplaces, htypes⟩ := resolve_ok_iff.mp ⟨_, hedges⟩
      have hbefore := meetsBefore_next hbefore hwires (m := .places) rfl
      have hbefore := meetsBefore_next hbefore hplaces (m := .types) rfl
      have hbefore := meetsBefore_next hbefore htypes (m := .feeds) rfl
      split at h
      · rename_i e' hcollect
        injection h with h
        subst h
        obtain ⟨_, _, rfl⟩ := collect_error _ hcollect
        exact failsFirst_of_check hbefore (collect_ok_iff hedges) hcollect rfl
      · rename_i wires hcollect
        have hfeeds := (collect_ok_iff hedges).mp ⟨_, hcollect⟩
        have hbefore := meetsBefore_next hbefore hfeeds (m := .output) rfl
        split at h
        · rename_i e' hchoose
          injection h with h
          subst h
          exact failsFirst_of_check hbefore chooseOutput_ok_iff hchoose (chooseOutput_error hchoose)
        · rename_i o hchoose
          have houtput := chooseOutput_ok_iff.mp ⟨_, hchoose⟩
          have hbefore := meetsBefore_next hbefore houtput (m := .order) rfl
          split at h
          · rename_i e' horder
            injection h with h
            subst h
            obtain ⟨_, rfl⟩ := evaluationOrder_error horder
            exact failsFirst_of_check hbefore (evaluationOrder_ok_iff_meets hedges) horder rfl
          · rename_i order horder
            have hacyclic := (evaluationOrder_ok_iff_meets hedges).mp ⟨_, horder⟩
            have hbefore := meetsBefore_next hbefore hacyclic (m := .reach) rfl
            split at h
            · rename_i n hstranded
              injection h with h
              subst h
              refine ⟨.reach, rfl, fun hmeets => ?_, hbefore⟩
              rw [(firstStranded?_none_iff hedges horder hchoose).mpr hmeets] at hstranded
              exact absurd hstranded (by simp)
            · exact absurd h (by simp)

theorem inRange (s : Sketch) : s.InRange where
  checked := fun _ _ h => checkEnds_ok h
  claimed := fun _ h => (namedClaims_claimed _ h).ends
  assigned := fun _ _ hnamed hassign => ends_of_assigned hnamed hassign
  resolved := fun _ h => links_inside h
  visited := fun edges _ hv => (Order.run_legal s.nodes.length (links edges)).below _ hv
  output := by
    intro o ho
    obtain ⟨n, hn, _⟩ := ((chooseOutput_spec ho).1 o).mpr rfl
    exact (List.getElem?_eq_some_iff.mp hn).1

/--
**A sketch becomes a diagram exactly if it is well formed, and otherwise the first stage that it
does not meet decides the error.**

The sketch is arbitrary. Along the way, no stage looks up a position that no earlier one has
checked.
-/
theorem finish_exact (s : Sketch) :
    ((∃ d, s.finish = .ok d) ↔ ∀ k, s.Meets k)
    ∧ (∀ e, s.finish = .error e → s.FailsFirst e)
    ∧ s.InRange :=
  ⟨⟨fun ⟨_, h⟩ => meets_of_finish_ok h, finish_ok_of_meets⟩, fun _ => failsFirst_of_error, s.inRange⟩

end Sketch

end RuleWiring
